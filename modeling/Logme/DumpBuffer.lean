import Logme.FileIoWrite
import Logme.Library.Unicode

/-!
# Dumps of memory

`DumpBuffer` writes 16 bytes to a line: their hexadecimal digits in 48 columns,
and the bytes themselves where they are printable.  The number of lines is an
`int`, so that a limit of 2^31 lines or more writes none or fewer.
-/

namespace Logme

namespace Dump

def hexDigit (n : Nat) : UInt8 := UInt8.ofNat (if n < 10 then 0x30 + n else 0x57 + n)

/-- `%02x ` -/
def rune (b : UInt8) : List UInt8 := [hexDigit (b.toNat / 16), hexDigit (b.toNat % 16), 0x20]

def shown (b : UInt8) : UInt8 := if b < 0x20 ∨ 0x7E < b then 0x2E else b

def line (offs : Nat) (bytes : List UInt8) : List UInt8 :=
  let str := bytes.flatMap rune
  List.replicate offs 0x20 ++ [0x20] ++ (str ++ List.replicate (48 - str.length) 0x20) ++
    [0x7C, 0x20] ++ bytes.map shown

/-- The loop over the lines. -/
def linesLoop (offs : Nat) : Nat → List UInt8 → List UInt8 → List UInt8
  | 0, _, output => output
  | lines + 1, rest, output =>
      if rest = [] then output
      else
        linesLoop offs lines (rest.drop 16)
          ((if output = [] then [] else output ++ [0x0A]) ++ line offs (rest.take 16))

def maxLines (lineLimit : Nat) : Int :=
  if 0 < lineLimit then FileIo.toInt lineLimit else 65536

/-- `size_t(maxCols) * maxLines` -/
def maxSize (lineLimit : Nat) : Nat := ((16 * maxLines lineLimit) % 2 ^ 64).toNat

def dumpBuffer (buffer : List UInt8) (offs lineLimit : Nat) : List UInt8 :=
  linesLoop offs (maxLines lineLimit).toNat (buffer.take (maxSize lineLimit)) []

/-! ## Reading a dump -/

def hexValue (c : UInt8) : Option Nat :=
  if 0x30 ≤ c ∧ c ≤ 0x39 then some (c.toNat - 0x30)
  else if 0x61 ≤ c ∧ c ≤ 0x66 then some (c.toNat - 0x57)
  else none

/-- The bytes whose digits begin a text. -/
def readRunes : List UInt8 → List UInt8
  | a :: b :: _ :: rest =>
      match hexValue a, hexValue b with
      | some high, some low => UInt8.ofNat (16 * high + low) :: readRunes rest
      | _, _ => []
  | _ => []

def readDump (offs : Nat) (text : List UInt8) : List UInt8 :=
  (text.splitOn 0x0A).flatMap fun line => readRunes ((line.drop (offs + 1)).take 48)

theorem rune_read : ∀ b : UInt8, hexValue (hexDigit (b.toNat / 16)) = some (b.toNat / 16) ∧
    hexValue (hexDigit (b.toNat % 16)) = some (b.toNat % 16) :=
  Unicode.forall_byte <| by decide +kernel

theorem readRunes_flatMap (bytes : List UInt8) (spaces : Nat) :
    readRunes (bytes.flatMap rune ++ List.replicate spaces 0x20) = bytes := by
  induction bytes with
  | nil =>
      match spaces with
      | 0 | 1 | 2 => rfl
      | spaces + 3 => rfl
  | cons b bytes ih =>
      have hbyte : UInt8.ofNat (16 * (b.toNat / 16) + b.toNat % 16) = b := by
        rw [Nat.div_add_mod, UInt8.ofNat_toNat]
      simp only [List.flatMap_cons, rune, List.cons_append, List.nil_append, readRunes,
        (rune_read b).1, (rune_read b).2, hbyte, ih]

theorem length_flatMap_rune (bytes : List UInt8) :
    (bytes.flatMap rune).length = 3 * bytes.length := by
  induction bytes with
  | nil => rfl
  | cons b bytes ih =>
      rw [List.flatMap_cons, List.length_append, ih, List.length_cons]
      simp only [rune, List.length_cons, List.length_nil]
      omega

/-- The columns of the digits. -/
theorem digits_line (offs : Nat) {bytes : List UInt8} (hshort : bytes.length ≤ 16) :
    readRunes (((line offs bytes).drop (offs + 1)).take 48) = bytes := by
  have hlength := length_flatMap_rune bytes
  have hdrop : (line offs bytes).drop (offs + 1) =
      (bytes.flatMap rune ++ List.replicate (48 - (bytes.flatMap rune).length) 0x20) ++
        ([0x7C, 0x20] ++ bytes.map shown) := by
    simp only [line, List.append_assoc]
    rw [← List.append_assoc, List.drop_left' (by simp)]
  have htake : (bytes.flatMap rune ++
      List.replicate (48 - (bytes.flatMap rune).length) 0x20).length = 48 := by
    rw [List.length_append, List.length_replicate]
    omega
  rw [hdrop, List.take_left' htake, readRunes_flatMap]

/-! ## The lines -/

/-- A byte that can stand in a line. -/
def Printable (b : UInt8) : Prop := 0x20 ≤ b ∧ b ≤ 0x7E

instance (b : UInt8) : Decidable (Printable b) := by
  unfold Printable
  infer_instance

theorem shown_printable : ∀ b : UInt8, Printable (shown b) :=
  Unicode.forall_byte <| by decide +kernel

theorem rune_printable (b : UInt8) : ∀ c ∈ rune b, Printable c := by
  have hall : ∀ b : UInt8, (rune b).all (fun c => decide (Printable c)) = true :=
    Unicode.forall_byte <| by decide +kernel
  exact fun c hc => of_decide_eq_true (List.all_eq_true.mp (hall b) c hc)

theorem line_printable (offs : Nat) (bytes : List UInt8) :
    ∀ c ∈ line offs bytes, Printable c := by
  have hspace : Printable 0x20 := by decide
  have hbar : Printable 0x7C := by decide
  intro c hc
  simp only [line, List.mem_append, List.mem_replicate, List.mem_flatMap, List.mem_map,
    List.mem_cons, List.not_mem_nil, or_false] at hc
  rcases hc with (((⟨_, rfl⟩ | rfl) | ⟨b, _, hb⟩ | ⟨_, rfl⟩) | rfl | rfl) | ⟨b, _, rfl⟩
  · exact hspace
  · exact hspace
  · exact rune_printable b c hb
  · exact hspace
  · exact hbar
  · exact hspace
  · exact shown_printable b

/-- The pieces of the lines. -/
def pieces : Nat → List UInt8 → List (List UInt8)
  | 0, _ => []
  | lines + 1, rest => if rest = [] then [] else rest.take 16 :: pieces lines (rest.drop 16)

theorem length_of_mem_pieces {lines : Nat} {rest piece : List UInt8}
    (hpiece : piece ∈ pieces lines rest) : piece.length ≤ 16 := by
  induction lines generalizing rest with
  | zero => cases hpiece
  | succ lines ih =>
      simp only [pieces] at hpiece
      split at hpiece
      · cases hpiece
      · rcases List.mem_cons.mp hpiece with rfl | hpiece
        · exact List.length_take_le 16 rest
        · exact ih hpiece

theorem flatten_pieces (lines : Nat) (rest : List UInt8) :
    (pieces lines rest).flatten = rest.take (16 * lines) := by
  induction lines generalizing rest with
  | zero => rfl
  | succ lines ih =>
      simp only [pieces]
      split
      · next hempty => rw [hempty, List.take_nil, List.flatten_nil]
      · rw [List.flatten_cons, ih, Nat.mul_succ, Nat.add_comm, List.take_add]

theorem line_ne_nil (offs : Nat) (bytes : List UInt8) : line offs bytes ≠ [] := by
  simp [line]

/-- A line feed stands before each line but the first. -/
theorem linesLoop_of_ne_nil (offs lines : Nat) (rest : List UInt8) {output : List UInt8}
    (houtput : output ≠ []) :
    linesLoop offs lines rest output =
      output ++ (pieces lines rest).flatMap fun piece => 0x0A :: line offs piece := by
  induction lines generalizing rest output with
  | zero => simp [linesLoop, pieces]
  | succ lines ih =>
      simp only [linesLoop, pieces]
      split
      · simp
      · rw [ih _ (by simp), List.flatMap_cons]
        simp only [List.append_assoc, List.cons_append, List.nil_append]

theorem intercalate_eq_flatMap (first : List UInt8) (texts : List (List UInt8)) :
    [0x0A].intercalate (first :: texts) = first ++ texts.flatMap fun text => 0x0A :: text := by
  induction texts generalizing first with
  | nil => simp
  | cons text texts ih =>
      rw [List.intercalate_cons_cons, ih, List.flatMap_cons]
      simp only [List.append_assoc, List.cons_append, List.nil_append]

theorem linesLoop_eq (offs lines : Nat) (rest : List UInt8) :
    linesLoop offs lines rest [] = [0x0A].intercalate ((pieces lines rest).map (line offs)) := by
  cases lines with
  | zero => rfl
  | succ lines =>
      simp only [linesLoop, pieces]
      split
      · rfl
      · simp only [if_true, List.nil_append]
        rw [linesLoop_of_ne_nil _ _ _ (line_ne_nil _ _), List.map_cons, intercalate_eq_flatMap,
          List.flatMap_map]

/-- The lines of a dump are the pieces of the buffer. -/
theorem readDump_linesLoop (offs lines : Nat) (rest : List UInt8) :
    readDump offs (linesLoop offs lines rest []) = rest.take (16 * lines) := by
  rw [linesLoop_eq, ← flatten_pieces]
  by_cases hnone : pieces lines rest = []
  · rw [hnone]
    simp [readDump, readRunes]
  · have hfeed : ∀ text ∈ (pieces lines rest).map (line offs), (0x0A : UInt8) ∉ text := by
      intro text htext hmem
      rcases List.mem_map.mp htext with ⟨piece, _, rfl⟩
      exact absurd (line_printable offs piece _ hmem) (by decide)
    rw [readDump, List.splitOn_intercalate 0x0A hfeed (by simpa using hnone), List.flatMap_map,
      List.flatMap_def]
    congr 1
    calc (pieces lines rest).map
          (fun piece => readRunes (((line offs piece).drop (offs + 1)).take 48))
        = (pieces lines rest).map id :=
          List.map_congr_left fun piece hpiece => digits_line offs (length_of_mem_pieces hpiece)
      _ = pieces lines rest := List.map_id _

theorem linesLoop_printable (offs lines : Nat) (rest : List UInt8) :
    ∀ c ∈ linesLoop offs lines rest [], Printable c ∨ c = 0x0A := by
  rw [linesLoop_eq]
  cases pieces lines rest with
  | nil => simp
  | cons piece more =>
      intro c hc
      rw [List.map_cons, intercalate_eq_flatMap, List.mem_append, List.mem_flatMap] at hc
      rcases hc with hc | ⟨text, htext, hc⟩
      · exact .inl (line_printable offs piece c hc)
      · rcases List.mem_map.mp htext with ⟨other, _, rfl⟩
        exact (List.mem_cons.mp hc).symm.imp_left (line_printable offs other c)

/-- The size never cuts a line that the number of lines admits. -/
theorem take_maxSize (buffer : List UInt8) (lineLimit : Nat) :
    (buffer.take (maxSize lineLimit)).take (16 * (maxLines lineLimit).toNat) =
      buffer.take (16 * (maxLines lineLimit).toNat) := by
  have hbound : maxLines lineLimit < 2 ^ 31 := by
    unfold maxLines
    split
    · exact Int.bmod_lt (by decide)
    · omega
  have hsize : 16 * (maxLines lineLimit).toNat ≤ maxSize lineLimit := by
    unfold maxSize
    omega
  rw [List.take_take, Nat.min_eq_left hsize]

/-- What is read of a dump is the part of the buffer that it covers. -/
theorem dump_read_back (buffer : List UInt8) (offs lineLimit : Nat) :
    readDump offs (dumpBuffer buffer offs lineLimit) =
        buffer.take (16 * (maxLines lineLimit).toNat) ∧
      ∀ c ∈ dumpBuffer buffer offs lineLimit, Printable c ∨ c = 0x0A := by
  constructor
  · rw [dumpBuffer, readDump_linesLoop, take_maxSize]
  · exact linesLoop_printable offs _ _

end Dump
end Logme
