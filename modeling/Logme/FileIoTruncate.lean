import Logme.FileIoWrite
import Logme.LogFile
import Logme.Library.Json

/-!
# Cutting a log file

`TruncateToMaxSize` keeps the end of a file, from a line on.  It reads from
the middle of the permitted size, looks for the end of a line in what it has
read, and writes a notice and the lines behind at the beginning of the file.
Positions and sizes are `uint32_t`, results of system calls `int`; the search
has no bound of its own.
-/

namespace Logme
namespace FileIo

open LogFile

/-- The conversion of a size to `long`. -/
def toLong (n : Nat) : Int := (n : Int).bmod (2 ^ 64)

def readPos (maxSize : Nat) : Nat := maxSize / 2 % 2 ^ 32

/-- `uint32_t(rc - readPos)` -/
def readSize (length maxSize : Nat) : Nat :=
  (((length : Int) - readPos maxSize) % 2 ^ 32).toNat

/-- The bytes that `read` finds at its position, as many as are asked for. -/
def found (content : List UInt8) (maxSize : Nat) : List UInt8 :=
  (content.drop (readPos maxSize)).take (readSize content.length maxSize)

/-- The vector of zeros after `read`. -/
def loaded (content : List UInt8) (maxSize : Nat) : List UInt8 :=
  found content maxSize ++
    List.replicate (readSize content.length maxSize - (found content maxSize).length) 0

/-- A file after writing from its beginning. -/
def overwritten (content bytes : List UInt8) : List UInt8 :=
  bytes ++ content.drop bytes.length

variable (os : Nat → SystemCall)

/-- `TruncateToMaxSize` on an open file whose other system calls succeed;
`none` stands for a search that leaves the data. -/
def truncateToMaxSize (content : List UInt8) (maxSize : Nat) : Option (List UInt8) :=
  if maxSize = 0 then some content
  else if (content.length : Int) < toLong maxSize then some content
  else if toInt (found content maxSize).length < 0 then some content
  else
    match findNewline (loaded content maxSize) with
    | .beyond => none
    | .nul => some content
    | .newline after =>
        let n := readSize content.length maxSize - after.length
        match writeAll os ⟨0, []⟩ (droppedNotice ((readPos maxSize + n) % 2 ^ 32)) with
        | none => none
        | some (rc, s) =>
            if rc < 0 then some (overwritten content s.handed)
            else
              match writeAll os s after with
              | none => none
              | some (rc, s) =>
                  if rc < 0 then some (overwritten content s.handed)
                  else some ((overwritten content s.handed).take s.handed.length)

/-- The file was small and is unchanged, or it is a notice of the number of
bytes dropped and the lines behind these. -/
def CutCorrectly (content : List UInt8) (maxSize : Nat) (result : List UInt8) : Prop :=
  content.length < maxSize ∧ result = content ∨
    ∃ dropped, 0 < dropped ∧ content[dropped - 1]? = some 10 ∧
      result = droppedNotice dropped ++ content.drop dropped ∧ result.length ≤ maxSize

/-- The inputs for which the file is cut correctly.  A file that the search
does not cut has to be small, or to look as if it had been cut before. -/
def Cuttable (content : List UInt8) (maxSize : Nat) : Prop :=
  (content.length : Int) < toLong maxSize ∨
    (toInt (found content maxSize).length < 0 ∨ findNewline (loaded content maxSize) = .nul) ∧
        (content.length < maxSize ∨
          content.length = maxSize ∧ droppedNotice 26 <+: content) ∨
      ¬ toInt (found content maxSize).length < 0 ∧
        ∃ after, findNewline (loaded content maxSize) = .newline after ∧
          readPos maxSize + readSize content.length maxSize = content.length ∧
          content.length - after.length < 2 ^ 32 ∧
          (droppedNotice (content.length - after.length)).length + after.length ≤ maxSize

/-- Writing goes on after a short write: no call fails, and none takes nothing. -/
def NoFailure : Prop :=
  ∀ call requested, 0 < requested →
    ∃ n, (os call).taken requested = some n ∧ 0 < n.val

/-! ## Writing without failures -/

variable {os}

theorem writeRaw_positive (hworks : NoFailure os) (s : Progress) {data : List UInt8}
    (hne : 0 < data.length) (h : data.length < 2 ^ 31) :
    ∃ (n : Nat) (s' : Progress), writeRaw os s data = ((n : Int), s') ∧
      0 < n ∧ n ≤ data.length := by
  obtain ⟨n, htaken, hpos⟩ := hworks s.calls data.length hne
  have hsize : data.length % 2 ^ 32 = data.length := Nat.mod_eq_of_lt (by omega)
  have hn : n.val ≤ data.length := Nat.le_of_lt_succ n.isLt
  have hrc : toInt n.val = n.val := toInt_of_lt (by omega)
  unfold writeRaw
  rw [hsize]
  unfold callFor
  rw [awaitCall_eq, htaken]
  dsimp only
  rw [hrc]
  exact ⟨n.val, _, rfl, hpos, hn⟩

theorem writeAllLoop_nonneg (hworks : NoFailure os) {data : List UInt8}
    (h : data.length < 2 ^ 31) :
    ∀ (rounds written : Nat) (s : Progress) (rc : Int) (s' : Progress),
      written ≤ data.length → writeAllLoop os data rounds written s = some (rc, s') →
      0 ≤ rc := by
  intro rounds
  induction rounds with
  | zero => intro written s rc s' _ hend; cases hend
  | succ rounds ih =>
      intro written s rc s' hwritten hend
      unfold writeAllLoop at hend
      split at hend
      next hmore =>
        have hlength : (data.drop written).length = data.length - written := List.length_drop
        obtain ⟨n, s₁, hcall, hpos, hn⟩ :=
          @writeRaw_positive os hworks s (data.drop written) (by omega) (by omega)
        rw [hcall] at hend
        dsimp only at hend
        rw [if_neg (by omega), if_neg (by omega), Int.toNat_natCast] at hend
        exact ih (written + n) s₁ rc s' (by omega) hend
      next hdone =>
        have hrc : toInt written = written := toInt_of_lt (by omega)
        have hresult := (Prod.mk.inj (Option.some.inj hend)).1
        omega

/-- Without failures everything is written. -/
theorem writeAll_complete (hworks : NoFailure os) (s : Progress) {data : List UInt8}
    (h : data.length < 2 ^ 31) :
    ∃ s', writeAll os s data = some ((data.length : Int), s') ∧
      s'.handed = s.handed ++ data := by
  obtain ⟨rc, s', hend, hwrites⟩ := @writeAll_writes os s data h
  have hrc := writeAllLoop_nonneg hworks h _ 0 s rc s' (Nat.zero_le _) hend
  obtain ⟨hhanded, rfl⟩ := hwrites.whole hrc
  exact ⟨s', hend, hhanded⟩

/-! ## The notice -/

theorem droppedNotice_length (n : Nat) :
    (droppedNotice n).length = 24 + (Nat.toDigits 10 n).length := by
  simp [droppedNotice, bytesOf]
  omega

theorem droppedNotice_length_le {n : Nat} (h : n < 2 ^ 32) :
    (droppedNotice n).length ≤ 34 := by
  have hdigits : (Nat.toDigits 10 n).length ≤ 10 :=
    (Nat.length_toDigits_le_iff (by decide) (by decide)).mpr (by omega)
  rw [droppedNotice_length]
  omega

/-- A notice is longer than its number only up to 25. -/
theorem droppedNotice_length_eq_iff (n : Nat) : (droppedNotice n).length = n ↔ n = 26 := by
  rw [droppedNotice_length]
  constructor
  · intro h
    have hpow : n / 50 < 10 ^ (n / 50) := Nat.lt_pow_self (by decide)
    have hdigits : (Nat.toDigits 10 n).length ≤ n / 50 + 2 := by
      refine (Nat.length_toDigits_le_iff (by decide) (by omega)).mpr ?_
      rw [Nat.pow_add]
      omega
    have htwo : ¬ (Nat.toDigits 10 n).length ≤ 1 := by
      rw [Nat.length_toDigits_le_iff (by decide) (by decide)]
      omega
    omega
  · rintro rfl
    rfl

theorem toDigits_bytes_injective {m n : Nat}
    (h : bytesOf (Nat.toDigits 10 m) = bytesOf (Nat.toDigits 10 n)) : m = n := by
  have hread : ∀ n, (bytesOf (Nat.toDigits 10 n)).foldl
      (fun n b => 10 * n + (b.toNat - 0x30)) 0 = n := by
    intro n
    have hsmall : ∀ c ∈ Nat.toDigits 10 n, c.toNat < 256 := fun c hc =>
      Nat.lt_of_le_of_lt (Json.toNat_of_mem_toDigits hc).2 (by decide)
    rw [bytesOf, Json.foldl_writeNumber _ hsmall, Nat.ofDigitChars_ten_toDigits]
  rw [← hread m, h, hread]

theorem droppedNotice_digits (n : Nat) (x : List UInt8) :
    ((droppedNotice n ++ x).drop 12).takeWhile Json.isDigit = bytesOf (Nat.toDigits 10 n) := by
  have hdigits : ∀ b ∈ bytesOf (Nat.toDigits 10 n), Json.isDigit b = true :=
    fun b hb => Json.isDigit_of_mem_writeNumber hb
  have hshape : (droppedNotice n ++ x).drop 12 = bytesOf (Nat.toDigits 10 n) ++
      (32 :: (bytesOf ['c', 'h', 'a', 'r', 'a', 'c', 't', 'e', 'r', 's', '\n'] ++ x)) := by
    simp [droppedNotice, bytesOf]
  rw [hshape, List.takeWhile_append_of_pos hdigits, List.takeWhile_cons_of_neg (by decide),
    List.append_nil]

/-- The number can be read off the front of the file. -/
theorem droppedNotice_injective {m n : Nat} {x y : List UInt8}
    (h : droppedNotice m ++ x = droppedNotice n ++ y) : m = n ∧ x = y := by
  have hnumber : m = n := by
    apply toDigits_bytes_injective
    rw [← droppedNotice_digits m x, h, droppedNotice_digits]
  subst hnumber
  exact ⟨rfl, List.append_cancel_left h⟩

/-! ## The search -/

theorem findNewline_newline {data after : List UInt8} (h : findNewline data = .newline after) :
    ∃ line, data = line ++ 10 :: after := by
  induction data with
  | nil => cases h
  | cons c rest ih =>
      unfold findNewline at h
      split at h
      next => cases h
      next =>
        split at h
        next hnewline =>
          cases h
          exact ⟨[], by rw [hnewline]; rfl⟩
        next =>
          obtain ⟨line, rfl⟩ := ih h
          exact ⟨c :: line, rfl⟩

theorem findNewline_zeros (n : Nat) (after : List UInt8) :
    findNewline (List.replicate n 0) ≠ .newline after := by
  cases n with
  | zero => nofun
  | succ n => rw [List.replicate_succ, findNewline, if_pos rfl]; nofun

theorem readSize_le {length maxSize : Nat} (h : readPos maxSize ≤ length) :
    readSize length maxSize ≤ length - readPos maxSize ∧
      readSize length maxSize % 2 ^ 32 = (length - readPos maxSize) % 2 ^ 32 := by
  unfold readSize
  omega

theorem found_length {content : List UInt8} {maxSize : Nat}
    (h : readPos maxSize ≤ content.length) :
    (found content maxSize).length = readSize content.length maxSize := by
  rw [found, List.length_take, List.length_drop]
  exact Nat.min_eq_left (readSize_le h).1

/-- A newline is found in bytes of the file. -/
theorem loaded_of_newline {content after : List UInt8} {maxSize : Nat}
    (h : findNewline (loaded content maxSize) = .newline after) :
    readPos maxSize ≤ content.length ∧ loaded content maxSize = found content maxSize := by
  have hpos : readPos maxSize ≤ content.length := by
    by_contra hbehind
    have hnone : found content maxSize = [] := by
      rw [found, List.drop_of_length_le (by omega), List.take_nil]
    rw [loaded, hnone, List.nil_append] at h
    exact findNewline_zeros _ _ h
  refine ⟨hpos, ?_⟩
  rw [loaded, found_length hpos, Nat.sub_self, List.replicate_zero, List.append_nil]

/-! ## What is left -/

theorem toLong_le (n : Nat) : toLong n ≤ n := by
  unfold toLong Int.bmod
  dsimp only
  split <;> omega

/-- A file that is left alone has been small, or has been cut before. -/
theorem cutCorrectly_self_iff (content : List UInt8) (maxSize : Nat) :
    CutCorrectly content maxSize content ↔
      content.length < maxSize ∨ content.length = maxSize ∧ droppedNotice 26 <+: content := by
  constructor
  · rintro (⟨hsmall, -⟩ | ⟨dropped, hpos, hbyte, heq, hle⟩)
    · exact .inl hsmall
    · obtain ⟨hlt, -⟩ := List.getElem?_eq_some_iff.mp hbyte
      have hlength := congrArg List.length heq
      rw [List.length_append, List.length_drop] at hlength
      have hdropped : dropped = 26 := (droppedNotice_length_eq_iff dropped).mp (by omega)
      subst hdropped
      by_cases hsmall : content.length < maxSize
      · exact .inl hsmall
      · exact .inr ⟨by omega, _, heq.symm⟩
  · rintro (hsmall | ⟨hlength, rest, rfl⟩)
    · exact .inl ⟨hsmall, rfl⟩
    · refine .inr ⟨26, by decide, rfl, ?_, hlength.le⟩
      have hnotice : (droppedNotice 26).length = 26 := rfl
      rw [List.drop_left' hnotice]

theorem cutCorrectly_cut_iff {content line after : List UInt8} {maxSize : Nat}
    (hpos : readPos maxSize ≤ content.length)
    (hfound : found content maxSize = line ++ 10 :: after) :
    CutCorrectly content maxSize
        (droppedNotice ((readPos maxSize +
          (readSize content.length maxSize - after.length)) % 2 ^ 32) ++ after) ↔
      readPos maxSize + readSize content.length maxSize = content.length ∧
        content.length - after.length < 2 ^ 32 ∧
        (droppedNotice (content.length - after.length)).length + after.length ≤ maxSize := by
  obtain ⟨hR, hmod⟩ := readSize_le hpos
  have hline := congrArg List.length hfound
  rw [found_length hpos, List.length_append, List.length_cons] at hline
  generalize hn : (readPos maxSize + (readSize content.length maxSize - after.length)) %
    2 ^ 32 = n
  constructor
  · rintro (⟨hsmall, heq⟩ | ⟨dropped, hdropped, hbyte, heq, hle⟩)
    · have hnotice : (droppedNotice n).length ≤ 34 := droppedNotice_length_le (by omega)
      have hlength := congrArg List.length heq
      rw [List.length_append] at hlength
      have hcut : content.length - after.length = n := by omega
      rw [hcut]
      omega
    · obtain ⟨rfl, hafter⟩ := droppedNotice_injective heq
      obtain ⟨hlt, -⟩ := List.getElem?_eq_some_iff.mp hbyte
      have hlength := congrArg List.length hafter
      rw [List.length_drop] at hlength
      rw [List.length_append] at hle
      have hcut : content.length - after.length = n := by omega
      rw [hcut]
      omega
  · rintro ⟨hall, hbelow, hle⟩
    have hcut : content.length - after.length = n := by omega
    rw [hcut] at hle
    have hrest : content.drop (readPos maxSize) = line ++ 10 :: after := by
      rw [← hfound, found, List.take_of_length_le]
      rw [List.length_drop]
      omega
    have hsplit : content.drop (readPos maxSize + line.length) = 10 :: after := by
      rw [← List.drop_drop, hrest, List.drop_left]
    refine .inr ⟨n, by omega, ?_, ?_, ?_⟩
    · have hbyte := congrArg List.head? hsplit
      rw [List.head?_drop, List.head?_cons] at hbyte
      have hindex : n - 1 = readPos maxSize + line.length := by omega
      rw [hindex, hbyte]
    · have hindex : n = readPos maxSize + line.length + 1 := by omega
      rw [hindex, ← List.drop_drop, hsplit]
      rfl
    · rw [List.length_append]
      exact hle

/-! ## Exactness -/

/-- The notice and the lines behind the newline replace the file. -/
theorem truncateToMaxSize_newline (hworks : NoFailure os) {content after : List UInt8}
    {maxSize : Nat} (hmax : maxSize ≠ 0) (hlong : ¬ (content.length : Int) < toLong maxSize)
    (hread : ¬ toInt (found content maxSize).length < 0)
    (h : findNewline (loaded content maxSize) = .newline after) :
    truncateToMaxSize os content maxSize =
      some (droppedNotice ((readPos maxSize +
        (readSize content.length maxSize - after.length)) % 2 ^ 32) ++ after) := by
  obtain ⟨hpos, hloaded⟩ := loaded_of_newline h
  obtain ⟨line, hline⟩ := findNewline_newline h
  have hlength := congrArg List.length hline
  rw [hloaded, List.length_append, List.length_cons] at hlength
  have hfound : (found content maxSize).length < 2 ^ 32 := by
    rw [found_length hpos]
    unfold readSize
    omega
  have hshort : (found content maxSize).length < 2 ^ 31 := by
    unfold toInt Int.bmod at hread
    dsimp only at hread
    split at hread <;> omega
  unfold truncateToMaxSize
  rw [if_neg hmax, if_neg hlong, if_neg hread, h]
  dsimp only
  generalize hn : (readPos maxSize + (readSize content.length maxSize - after.length)) %
    2 ^ 32 = n
  have hnotice := droppedNotice_length_le (n := n) (by omega)
  obtain ⟨s, hfirst, hhanded⟩ :=
    @writeAll_complete os hworks ⟨0, []⟩ (droppedNotice n) (by omega)
  obtain ⟨s', hsecond, hhanded'⟩ := @writeAll_complete os hworks s after (by omega)
  rw [hfirst]
  dsimp only
  rw [if_neg (by omega), hsecond]
  dsimp only
  rw [if_neg (by omega), hhanded', hhanded, overwritten, List.take_left]
  rfl

/-- Exactly the cuttable files are cut correctly, without a search that leaves
the data. -/
theorem truncateToMaxSize_correct_iff (hworks : NoFailure os) (content : List UInt8)
    (maxSize : Nat) (hmax : 1024 < maxSize) :
    (∃ result, truncateToMaxSize os content maxSize = some result ∧
        CutCorrectly content maxSize result) ↔ Cuttable content maxSize := by
  have hkept : truncateToMaxSize os content maxSize = some content →
      ((∃ result, truncateToMaxSize os content maxSize = some result ∧
        CutCorrectly content maxSize result) ↔ CutCorrectly content maxSize content) := by
    intro hkept
    rw [hkept]
    simp only [Option.some.injEq, exists_eq_left']
  have hzero : maxSize ≠ 0 := by omega
  unfold Cuttable
  by_cases hsmall : (content.length : Int) < toLong maxSize
  · have hbelow : content.length < maxSize := by
      have hle := toLong_le maxSize
      omega
    rw [hkept (by rw [truncateToMaxSize, if_neg hzero, if_pos hsmall])]
    exact ⟨fun _ => .inl hsmall, fun _ => .inl ⟨hbelow, rfl⟩⟩
  · by_cases hread : toInt (found content maxSize).length < 0
    · rw [hkept (by rw [truncateToMaxSize, if_neg hzero, if_neg hsmall, if_pos hread]),
        cutCorrectly_self_iff]
      simp [hsmall, hread]
    · cases h : findNewline (loaded content maxSize) with
      | beyond =>
          have hnone : truncateToMaxSize os content maxSize = none := by
            rw [truncateToMaxSize, if_neg hzero, if_neg hsmall, if_neg hread, h]
          rw [hnone]
          simp [hsmall, hread]
      | nul =>
          rw [hkept (by rw [truncateToMaxSize, if_neg hzero, if_neg hsmall, if_neg hread, h]),
            cutCorrectly_self_iff]
          simp [hsmall, hread]
      | newline after =>
          obtain ⟨hpos, hloaded⟩ := loaded_of_newline h
          obtain ⟨line, hline⟩ := findNewline_newline h
          rw [hloaded] at hline
          rw [truncateToMaxSize_newline hworks hzero hsmall hread h]
          simp only [Option.some.injEq, exists_eq_left', cutCorrectly_cut_iff hpos hline]
          simp [hsmall, hread]

/-- A call that takes everything. -/
def takesAll : SystemCall := ⟨0, fun requested => some (Fin.last requested)⟩

theorem truncateToMaxSize_correct_iff_one_line :
    (∃ result, truncateToMaxSize (fun _ => takesAll) (List.replicate 1025 97) 1025 =
        some result ∧ CutCorrectly (List.replicate 1025 97) 1025 result) ↔
      Cuttable (List.replicate 1025 97) 1025 :=
  truncateToMaxSize_correct_iff (fun _ requested hpos => ⟨Fin.last requested, rfl, hpos⟩)
    (List.replicate 1025 97) 1025 (by decide)

theorem findNewline_text (n : Nat) : findNewline (List.replicate n 97) = .beyond := by
  induction n with
  | zero => rfl
  | succ n ih => rw [List.replicate_succ, findNewline, if_neg (by decide), if_neg (by decide), ih]

/-- In a file of one long line the search leaves the data. -/
theorem truncateToMaxSize_leaves_data :
    NoFailure (fun _ => takesAll) ∧
      ¬ ∃ result, truncateToMaxSize (fun _ => takesAll) (List.replicate 1025 97) 1025 =
          some result ∧ CutCorrectly (List.replicate 1025 97) 1025 result := by
  refine ⟨fun _ requested hpos => ⟨Fin.last requested, rfl, hpos⟩, ?_⟩
  have hsize : readSize 1025 1025 = 513 := by decide
  have hfound : found (List.replicate 1025 97) 1025 = List.replicate 513 97 := by
    rw [found, List.drop_replicate, List.take_replicate, List.length_replicate, hsize]
    rfl
  have hloaded : loaded (List.replicate 1025 97) 1025 = List.replicate 513 97 := by
    rw [loaded, hfound, List.length_replicate, List.length_replicate, hsize, Nat.sub_self,
      List.replicate_zero, List.append_nil]
  rintro ⟨result, hresult, -⟩
  rw [truncateToMaxSize, if_neg (by decide),
    if_neg (by rw [List.length_replicate]; decide),
    if_neg (by rw [hfound, List.length_replicate]; decide), hloaded, findNewline_text] at hresult
  cases hresult

/-! ## Ordinary sizes -/

end FileIo
end Logme
