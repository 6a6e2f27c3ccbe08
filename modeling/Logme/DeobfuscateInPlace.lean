import Logme.DeobfuscateLogFile

/-!
# Converting a log file in place

`DeobfuscateLogFile` with the output path equal to the input path and with
steps that fail.  The texts are written to a temporary file, which replaces the
log file at the end: this is removed, and the temporary file is renamed.  A
read that fails where a record begins is taken for the end of the file, and
what `fclose` reports is not looked at.

The faults are part of the input: for each record what fails while it is
converted, and what fails at the two ends.  Positioning in the file succeeds.
-/

namespace Logme

open FramedStream

/-- What fails while a record is converted; `peek` is the look at the next
signature. -/
structure RecordFaults where
  header : Bool
  length : Bool
  body : Bool
  write : Bool
  peek : Bool
  deriving DecidableEq

/-- `kept` is there when closing the temporary file fails: so many of its bytes
have reached the disk. -/
structure ConversionFaults where
  openIn : Bool
  signature : Bool
  openOut : Bool
  record : Nat → RecordFaults
  kept : Option Nat
  remove : Bool
  rename : Bool
  removeTmp : Bool

inductive CallEnd where
  | returned (result : Bool)
  | threw
  deriving DecidableEq

/-- The end of the call and the file at the path. -/
structure Conversion where
  callEnd : CallEnd
  file : Option (List UInt8)
  deriving DecidableEq

/-- A record after its signature, up to `WriteExact`. -/
def convertRecord (key : ObfKey) (faults : RecordFaults) (sig : UInt16) (f : List UInt8) :
    Option (List UInt8 × List UInt8) :=
  match if faults.length then none else readLe16FromFile f with
  | none => none
  | some (plainLen16, f) =>
      let plainLen := plainLen16.toNat
      let recordLen := LOGOBF_HEADER_BYTES + plainLen
      match if faults.body then none else readExact f (recordLen - 4) with
      | none => none
      | some (body, f) =>
          let record := storeLe16 sig ++ storeLe16 plainLen16 ++ body
          let cap := if plainLen ≤ 4 * 1024 then 4 * 1024 else plainLen
          match obfDecryptRecord (some key) (some record)
              (some (List.replicate cap 0)) (some 0)
              (some (List.replicate LOGOBF_NONCE_BYTES 0)) with
          | ⟨true, some buffer, some outLen, _⟩ =>
              if faults.write ∧ outLen ≠ 0 then none else some (buffer.take outLen, f)
          | _ => none

/-- The record loop from record `i` on. -/
def convertLoop (key : ObfKey) (faults : Nat → RecordFaults) :
    Nat → Nat → List UInt8 → Option (List UInt8)
  | 0, _, _ => none
  | bound + 1, i, f =>
      match if (faults i).header then none else readLe16FromFile f with
      | none => some []
      | some (sig, f) =>
          if sig ≠ LOGOBF_SIGNATURE then none
          else
            match convertRecord key (faults i) sig f with
            | none => none
            | some (text, f) =>
                if (faults i).peek = false ∧ 2 ≤ f.length ∧ loadLe16 f ≠ LOGOBF_SIGNATURE then
                  none
                else (convertLoop key faults bound (i + 1) f).map (text ++ ·)

/-- A failure after the temporary file has been opened; its removal throws when
it fails. -/
def giveUp (faults : ConversionFaults) (file : Option (List UInt8)) : Conversion :=
  if faults.removeTmp then ⟨.threw, file⟩ else ⟨.returned false, file⟩

/-- What the temporary file holds when it is closed. -/
def ConversionFaults.closed (faults : ConversionFaults) (text : List UInt8) : List UInt8 :=
  match faults.kept with
  | none => text
  | some n => text.take n

/-- The end of the call: `remove` and `rename`. -/
def replaceFile (faults : ConversionFaults) (input text : List UInt8) : Conversion :=
  if faults.rename then giveUp faults (if faults.remove then some input else none)
  else ⟨.returned true, some text⟩

/-- `DeobfuscateLogFile` in place. -/
def deobfuscateInPlace (key : Option ObfKey) (faults : ConversionFaults)
    (input : List UInt8) : Conversion :=
  match key with
  | none => ⟨.returned false, some input⟩
  | some key =>
      if faults.openIn then ⟨.returned false, some input⟩
      else if faults.signature then ⟨.returned false, some input⟩
      else
        match readLe16FromFile input with
        | none => ⟨.returned true, some input⟩
        | some (sig0, _) =>
            if sig0 ≠ 0xA55A then ⟨.returned true, some input⟩
            else if faults.openOut then ⟨.returned false, some input⟩
            else
              match convertLoop key faults.record (input.length + 1) 0 input with
              | none => giveUp faults (some input)
              | some text => replaceFile faults input (faults.closed text)

/-- The plaintext of an input that does not begin with the signature is the
input; else the input is whole records, and it is their texts. -/
def CompletePlaintext (key : ObfKey) (input text : List UInt8) : Prop :=
  (startsWithSignature input →
    ∃ texts, WholeRecordsThen key input texts [] ∧ text = texts.flatten) ∧
  (¬ startsWithSignature input → text = input)

/-- The original or the complete plaintext is at the path, the latter when the
call has returned true. -/
def Atomic (key : ObfKey) (input : List UInt8) (c : Conversion) : Prop :=
  (c.file = some input ∨ ∃ text, CompletePlaintext key input text ∧ c.file = some text) ∧
    (c.callEnd = .returned true →
      ∃ text, CompletePlaintext key input text ∧ c.file = some text)

/-! ## The loop -/

theorem decide_write {α : Type} {faults : RecordFaults} {n : Nat} {text : List UInt8}
    (h : text.length = n) (a b : α) :
    (if faults.write = true ∧ n ≠ 0 then a else b) =
      if faults.write = true ∧ text ≠ [] then a else b := by
  have hne : n ≠ 0 ↔ text ≠ [] := by
    rw [← h, Ne, List.length_eq_zero_iff]
  simp only [hne]

/-- The record behind a signature is the next record of the stream, unless a
step fails. -/
theorem convertRecord_eq (key : ObfKey) (faults : RecordFaults) {b0 b1 : UInt8}
    (hsig : loadLe16 [b0, b1] = LOGOBF_SIGNATURE) (f : List UInt8) :
    convertRecord key faults LOGOBF_SIGNATURE f =
      if faults.length = true ∨ faults.body = true then none
      else
        match nextRecord key (b0 :: b1 :: f) with
        | none => none
        | some (text, rest) =>
            if faults.write = true ∧ text ≠ [] then none else some (text, rest) := by
  unfold convertRecord
  by_cases hlength : faults.length = true
  · simp [hlength]
  · rw [if_neg hlength]
    match f with
    | [] =>
        rw [nextRecord_eq, if_neg (not_opens_short (by simp))]
        simp [readLe16FromFile]
    | [b2] =>
        rw [nextRecord_eq, if_neg (not_opens_short (by simp))]
        simp [readLe16FromFile]
    | b2 :: b3 :: body =>
        simp only [readLe16FromFile]
        by_cases hbody : faults.body = true
        · simp [hbody]
        · have hfault : ¬ (faults.length = true ∨ faults.body = true) := by
            simp [hlength, hbody]
          rw [if_neg hbody, if_neg hfault, nextRecord_eq]
          by_cases hopens : Opens (b0 :: b1 :: b2 :: b3 :: body)
          · obtain ⟨front, buffer, nonce, hread, hdecrypt, htext⟩ :=
              obfDecryptRecord_read key hopens
            rw [hsig] at hdecrypt
            rw [if_pos hopens]
            simp only [hread, hdecrypt, htext]
            exact decide_write (recordText_length key hopens.2) _ _
          · rw [if_neg hopens, readExact_none hsig hopens]

/-- One iteration of the loop, in terms of the record at the front. -/
theorem convertLoop_succ (key : ObfKey) (faults : Nat → RecordFaults) (bound i : Nat)
    (f : List UInt8) :
    convertLoop key faults (bound + 1) i f =
      if (faults i).header = true ∨ f.length ≤ 1 then some []
      else if (faults i).length = true ∨ (faults i).body = true then none
      else
        match nextRecord key f with
        | none => none
        | some (text, rest) =>
            if (faults i).write = true ∧ text ≠ [] then none
            else if (faults i).peek = false ∧ 2 ≤ rest.length ∧
                loadLe16 rest ≠ LOGOBF_SIGNATURE then none
            else (convertLoop key faults bound (i + 1) rest).map (text ++ ·) := by
  rw [convertLoop]
  by_cases hheader : (faults i).header = true
  · simp [hheader]
  · rw [if_neg hheader]
    match f with
    | [] => simp [readLe16FromFile]
    | [_] => simp [readLe16FromFile]
    | b0 :: b1 :: f =>
        rw [if_neg (by simp [hheader])]
        simp only [readLe16FromFile]
        by_cases hsig : loadLe16 [b0, b1] = LOGOBF_SIGNATURE
        · rw [if_neg (by simp [hsig]), hsig, convertRecord_eq key (faults i) hsig f]
          split
          next hnone =>
            split at hnone
            next hfault => rw [if_pos hfault]
            next hfault =>
              rw [if_neg hfault]
              cases hnext : nextRecord key (b0 :: b1 :: f) with
              | none => rfl
              | some found =>
                  rw [hnext] at hnone
                  dsimp only at hnone ⊢
                  split at hnone
                  next hwrite => rw [if_pos hwrite]
                  next => cases hnone
          next text rest hsome =>
            split at hsome
            next => cases hsome
            next hfault =>
              rw [if_neg hfault]
              cases hnext : nextRecord key (b0 :: b1 :: f) with
              | none =>
                  rw [hnext] at hsome
                  cases hsome
              | some found =>
                  rw [hnext] at hsome
                  dsimp only at hsome ⊢
                  split at hsome
                  next => cases hsome
                  next hwrite =>
                    cases hsome
                    rw [if_neg hwrite]
        · have hopens : ¬ Opens (b0 :: b1 :: f) := fun h => hsig h.1
          rw [if_pos hsig, nextRecord_eq, if_neg hopens]
          simp

/-- The loop ends well from record `i` on: with these texts, and with `tail`
not read. -/
inductive LoopEnds (key : ObfKey) (faults : Nat → RecordFaults) :
    Nat → List UInt8 → List (List UInt8) → List UInt8 → Prop
  | stop {i : Nat} {f : List UInt8} (h : (faults i).header = true ∨ f.length ≤ 1) :
      LoopEnds key faults i f [] f
  | record {i : Nat} {f text rest tail : List UInt8} {texts : List (List UInt8)}
      (header : (faults i).header = false)
      (read : (faults i).length = false ∧ (faults i).body = false)
      (next : nextRecord key f = some (text, rest))
      (write : (faults i).write = true → text = [])
      (peek : (faults i).peek = false → 2 ≤ rest.length → loadLe16 rest = LOGOBF_SIGNATURE)
      (others : LoopEnds key faults (i + 1) rest texts tail) :
      LoopEnds key faults i f (text :: texts) tail

theorem LoopEnds.reads {key : ObfKey} {faults : Nat → RecordFaults} {i : Nat}
    {f tail : List UInt8} {texts : List (List UInt8)} (h : LoopEnds key faults i f texts tail) :
    Reads (nextRecord key) f texts tail := by
  induction h with
  | stop _ => exact .stop _
  | record _ _ hnext _ _ _ ih => exact .frame hnext ih

theorem LoopEnds.unique {key : ObfKey} {faults : Nat → RecordFaults} {i : Nat}
    {f tail tail' : List UInt8} {texts texts' : List (List UInt8)}
    (h : LoopEnds key faults i f texts tail) (h' : LoopEnds key faults i f texts' tail') :
    texts = texts' ∧ tail = tail' := by
  -- a record is read only where the loop does not stop
  have hgoes : ∀ {i : Nat} {f text rest : List UInt8}, (faults i).header = false →
      nextRecord key f = some (text, rest) → ¬ ((faults i).header = true ∨ f.length ≤ 1) := by
    rintro i f text rest hheader hnext (hfault | hshort)
    · rw [hheader] at hfault
      cases hfault
    · rw [nextRecord_short key hshort] at hnext
      cases hnext
  induction h generalizing texts' with
  | stop hstop =>
      cases h' with
      | stop => exact ⟨rfl, rfl⟩
      | record hheader _ hnext _ _ _ => exact absurd hstop (hgoes hheader hnext)
  | record hheader _ hnext _ _ _ ih =>
      cases h' with
      | stop hstop => exact absurd hstop (hgoes hheader hnext)
      | record _ _ hnext' _ _ hothers' =>
          rw [hnext'] at hnext
          simp only [Option.some.injEq, Prod.mk.injEq] at hnext
          obtain ⟨rfl, rfl⟩ := hnext
          obtain ⟨rfl, rfl⟩ := ih hothers'
          exact ⟨rfl, rfl⟩

theorem convertLoop_iff (key : ObfKey) (faults : Nat → RecordFaults) {bound i : Nat}
    {f text : List UInt8} (hbound : f.length < bound) :
    convertLoop key faults bound i f = some text ↔
      ∃ texts tail, LoopEnds key faults i f texts tail ∧ text = texts.flatten := by
  induction bound generalizing i f text with
  | zero => omega
  | succ bound ih =>
      rw [convertLoop_succ]
      by_cases hstop : (faults i).header = true ∨ f.length ≤ 1
      · rw [if_pos hstop]
        constructor
        · intro htext
          cases htext
          exact ⟨[], f, .stop hstop, rfl⟩
        · rintro ⟨texts, tail, hends, rfl⟩
          obtain ⟨rfl, -⟩ := hends.unique (.stop hstop)
          rfl
      · rw [if_neg hstop]
        by_cases hfault : (faults i).length = true ∨ (faults i).body = true
        · rw [if_pos hfault]
          refine ⟨nofun, ?_⟩
          rintro ⟨texts, tail, hends, -⟩
          cases hends with
          | stop hstop' => exact absurd hstop' hstop
          | record _ hread _ _ _ _ => simp [hread.1, hread.2] at hfault
        · rw [if_neg hfault]
          cases hnext : nextRecord key f with
          | none =>
              refine ⟨nofun, ?_⟩
              rintro ⟨texts, tail, hends, -⟩
              cases hends with
              | stop hstop' => exact absurd hstop' hstop
              | record _ _ hnext' _ _ _ =>
                  rw [hnext] at hnext'
                  cases hnext'
          | some found =>
              obtain ⟨head, rest⟩ := found
              have hless := nextRecord_rest_length key hnext
              dsimp only
              constructor
              · intro htext
                split at htext
                next => cases htext
                next hwrite =>
                  split at htext
                  next => cases htext
                  next hpeek =>
                    obtain ⟨others, hothers, rfl⟩ := Option.map_eq_some_iff.mp htext
                    obtain ⟨texts, tail, hends, rfl⟩ := (ih (by omega)).mp hothers
                    refine ⟨head :: texts, tail, .record ?_ ?_ hnext ?_ ?_ hends, rfl⟩
                    · simpa using fun h => hstop (.inl h)
                    · simpa using hfault
                    · intro hfails
                      by_contra hne
                      exact hwrite ⟨hfails, hne⟩
                    · intro hseen hlong
                      by_contra hne
                      exact hpeek ⟨hseen, hlong, hne⟩
              · rintro ⟨texts, tail, hends, rfl⟩
                cases hends with
                | stop hstop' => exact absurd hstop' hstop
                | record _ _ hnext' hwrite hpeek hothers =>
                    rw [hnext] at hnext'
                    cases hnext'
                    rw [if_neg (fun h => h.2 (hwrite h.1)),
                      if_neg (fun h => h.2.2 (hpeek h.1 h.2.1)),
                      (ih (by omega)).mpr ⟨_, tail, hothers, rfl⟩]
                    rfl

/-! ## The replacement -/

/-- Closing the temporary file leaves at least `n` bytes in it. -/
def ConversionFaults.Keeps (faults : ConversionFaults) (n : Nat) : Prop :=
  ∀ kept, faults.kept = some kept → n ≤ kept

/-- Nothing fails before the loop, and the input is not taken as converted. -/
structure ConversionFaults.Starts (faults : ConversionFaults) (input : List UInt8) : Prop where
  openIn : faults.openIn = false
  signature : faults.signature = false
  openOut : faults.openOut = false
  signed : startsWithSignature input

/-- The file may be replaced by what the loop has written when it is kept and
only records of empty texts are not read. -/
def ReplacesSafely (key : ObfKey) (faults : ConversionFaults) (input : List UInt8) : Prop :=
  ∀ texts tail, faults.Starts input → LoopEnds key faults.record 0 input texts tail →
    (faults.rename = true → faults.remove = true) ∧
    (faults.rename = false → faults.Keeps texts.flatten.length ∧
      ∃ more, Reads (nextRecord key) tail more [] ∧ more.flatten = [])

theorem nextRecord_nil (key : ObfKey) : nextRecord key [] = none :=
  nextRecord_short key (by simp)

/-- What has been read is the plaintext up to the records that follow. -/
theorem completePlaintext_iff {key : ObfKey} {input tail text : List UInt8}
    {texts : List (List UInt8)} (hsig : startsWithSignature input)
    (hreads : Reads (nextRecord key) input texts tail) :
    CompletePlaintext key input text ↔
      ∃ more, Reads (nextRecord key) tail more [] ∧ text = texts.flatten ++ more.flatten := by
  have hlong := startsWithSignature_length hsig
  constructor
  · intro h
    obtain ⟨all, hwhole, rfl⟩ := h.1 hsig
    obtain ⟨more, rfl, hmore⟩ :=
      hreads.remaining (reads_of_wholeRecordsThen hwhole) (nextRecord_nil key)
    exact ⟨more, hmore, List.flatten_append⟩
  · rintro ⟨more, hmore, rfl⟩
    refine ⟨fun _ => ⟨texts ++ more, ?_, List.flatten_append.symm⟩, fun h => absurd hsig h⟩
    exact wholeRecordsThen_of_reads (hreads.append hmore)
      (by rw [List.length_nil]; omega)

theorem closed_eq_append_iff (faults : ConversionFaults) (text more : List UInt8) :
    faults.closed text = text ++ more ↔ faults.Keeps text.length ∧ more = [] := by
  unfold ConversionFaults.closed ConversionFaults.Keeps
  cases faults.kept with
  | none => simp
  | some n =>
      simp only [Option.some.injEq, forall_eq']
      constructor
      · intro h
        have hlength := congrArg List.length h
        rw [List.length_take, List.length_append] at hlength
        exact ⟨by omega, List.length_eq_zero_iff.mp (by omega)⟩
      · rintro ⟨hkept, rfl⟩
        rw [List.take_of_length_le hkept, List.append_nil]

theorem giveUp_atomic (key : ObfKey) (faults : ConversionFaults) (input : List UInt8)
    (file : Option (List UInt8)) :
    Atomic key input (giveUp faults file) ↔
      file = some input ∨ ∃ text, CompletePlaintext key input text ∧ file = some text := by
  unfold giveUp Atomic
  split <;> simp

/-- Without the complete plaintext in the temporary file the original has to
survive, and a failed `rename` leaves it only where `remove` has failed. -/
theorem replaceFile_atomic_iff (key : ObfKey) (faults : ConversionFaults)
    (input text : List UInt8) :
    Atomic key input (replaceFile faults input text) ↔
      (faults.rename = true → faults.remove = true) ∧
        (faults.rename = false → CompletePlaintext key input text) := by
  unfold replaceFile
  by_cases hrename : faults.rename = true
  · rw [if_pos hrename, giveUp_atomic]
    by_cases hremove : faults.remove = true
    · simp [hrename, hremove]
    · simp [hrename, hremove]
  · rw [if_neg hrename]
    simp only [Atomic, Option.some.injEq, forall_const, exists_eq_right', hrename]
    simp only [Bool.false_eq_true, IsEmpty.forall_iff, true_and]
    exact ⟨fun h => h.2, fun h => ⟨.inr h, h⟩⟩

/-- The call from the loop on. -/
theorem converted_atomic_iff (key : ObfKey) {faults : ConversionFaults} {input : List UInt8}
    (hstarts : faults.Starts input) :
    Atomic key input
        (match convertLoop key faults.record (input.length + 1) 0 input with
          | none => giveUp faults (some input)
          | some text => replaceFile faults input (faults.closed text)) ↔
      ReplacesSafely key faults input := by
  have hloop : ∀ {texts tail}, LoopEnds key faults.record 0 input texts tail →
      convertLoop key faults.record (input.length + 1) 0 input = some texts.flatten :=
    fun hends => (convertLoop_iff key faults.record (Nat.lt_succ_self _)).mpr
      ⟨_, _, hends, rfl⟩
  cases hresult : convertLoop key faults.record (input.length + 1) 0 input with
  | none =>
      refine iff_of_true ((giveUp_atomic key faults input _).mpr (.inl rfl)) ?_
      intro texts tail _ hends
      rw [hloop hends] at hresult
      cases hresult
  | some text =>
      obtain ⟨texts, tail, hends, rfl⟩ :=
        (convertLoop_iff key faults.record (Nat.lt_succ_self _)).mp hresult
      have hcomplete : CompletePlaintext key input (faults.closed texts.flatten) ↔
          faults.Keeps texts.flatten.length ∧
            ∃ more, Reads (nextRecord key) tail more [] ∧ more.flatten = [] := by
        rw [completePlaintext_iff hstarts.signed hends.reads]
        simp only [closed_eq_append_iff]
        constructor
        · rintro ⟨more, hmore, hkeeps, hnone⟩
          exact ⟨hkeeps, more, hmore, hnone⟩
        · rintro ⟨hkeeps, more, hmore, hnone⟩
          exact ⟨more, hmore, hkeeps, hnone⟩
      dsimp only
      rw [replaceFile_atomic_iff, hcomplete]
      constructor
      · intro h texts' tail' _ hends'
        obtain ⟨rfl, rfl⟩ := hends.unique hends'
        exact h
      · intro h
        exact h texts tail hstarts hends

/-- The original is left alone, and a true result says that it is no obfuscated
file. -/
theorem unchanged_atomic (key : ObfKey) (input : List UInt8) (result : Bool)
    (h : result = true → ¬ startsWithSignature input) :
    Atomic key input ⟨.returned result, some input⟩ := by
  refine ⟨.inl rfl, fun htrue => ⟨input, ⟨?_, fun _ => rfl⟩, rfl⟩⟩
  cases htrue
  exact fun hsig => absurd hsig (h rfl)

/-- The call is atomic exactly when the replacement, if the loop comes to it, is
safe. -/
theorem deobfuscateInPlace_atomic_iff (key : ObfKey) (faults : ConversionFaults)
    (input : List UInt8) :
    Atomic key input (deobfuscateInPlace (some key) faults input) ↔
      ReplacesSafely key faults input := by
  -- a call that does not come to the loop is atomic, and so is the condition
  have hearly : ∀ result, ¬ faults.Starts input →
      (result = true → ¬ startsWithSignature input) →
      (Atomic key input ⟨.returned result, some input⟩ ↔ ReplacesSafely key faults input) :=
    fun result hnot hresult =>
      iff_of_true (unchanged_atomic key input result hresult)
        fun _ _ hstarts _ => absurd hstarts hnot
  unfold deobfuscateInPlace
  dsimp only
  by_cases hopen : faults.openIn = true
  · rw [if_pos hopen]
    exact hearly false (fun h => by simp [h.openIn] at hopen) nofun
  rw [if_neg hopen]
  by_cases hread : faults.signature = true
  · rw [if_pos hread]
    exact hearly false (fun h => by simp [h.signature] at hread) nofun
  rw [if_neg hread]
  by_cases hsig : startsWithSignature input
  · obtain ⟨rest, hfirst⟩ := id hsig
    rw [hfirst]
    dsimp only
    rw [if_neg (by decide)]
    by_cases hout : faults.openOut = true
    · rw [if_pos hout]
      exact hearly false (fun h => by simp [h.openOut] at hout) nofun
    rw [if_neg hout]
    exact converted_atomic_iff key
      ⟨by simpa using hopen, by simpa using hread, by simpa using hout, hsig⟩
  · have hunsigned := hearly true (fun h => hsig h.signed) fun _ => hsig
    split
    next => exact hunsigned
    next sig0 rest hfirst =>
      rw [if_pos]
      · exact hunsigned
      · rintro rfl
        exact hsig ⟨rest, hfirst⟩

/-! ## Without faults -/

def noRecordFaults : RecordFaults := ⟨false, false, false, false, false⟩

def noFaults : ConversionFaults where
  openIn := false
  signature := false
  openOut := false
  record := fun _ => noRecordFaults
  kept := none
  remove := false
  rename := false
  removeTmp := false

theorem convertLoop_noFaults (key : ObfKey) (bound i : Nat) (f : List UInt8) :
    convertLoop key noFaults.record bound i f = decodeLoop key bound f := by
  induction bound generalizing i f with
  | zero => rfl
  | succ bound ih =>
      rw [convertLoop_succ, decodeLoop_succ]
      simp only [noFaults, noRecordFaults, Bool.false_eq_true, false_or, false_and, if_false,
        true_and]
      split
      next => rfl
      next =>
        cases nextRecord key f with
        | none => rfl
        | some found =>
            dsimp only
            split
            next => rfl
            next => rw [← ih (i + 1) found.2]; rfl

/-- Without faults the call is the conversion of the file. -/
theorem deobfuscateInPlace_noFaults (key : Option ObfKey) (input : List UInt8) :
    deobfuscateInPlace key noFaults input =
      ⟨.returned (deobfuscateLogFile key true input (some input)).1,
        (deobfuscateLogFile key true input (some input)).2⟩ := by
  cases key with
  | none => rfl
  | some key =>
      have hloop := convertLoop_noFaults key (input.length + 1) 0 input
      unfold deobfuscateInPlace deobfuscateLogFile
      dsimp only
      rw [if_neg (by decide), if_neg (by decide)]
      cases readLe16FromFile input with
      | none => rfl
      | some found =>
          dsimp only
          split
          next => rfl
          next =>
            rw [if_neg (by decide), hloop]
            cases decodeLoop key (input.length + 1) input <;> rfl

/-! ## Both copies lost -/

/-- Only `rename` fails. -/
def renameFails : ConversionFaults := { noFaults with rename := true }

/-- After a failed `rename` there is no file at the path. -/
theorem failed_rename_loses_both :
    ¬ ∀ (key : ObfKey) (faults : ConversionFaults) (input : List UInt8),
      Atomic key input (deobfuscateInPlace (some key) faults input) := by
  intro hall
  let key : ObfKey := ⟨List.replicate 32 0, by decide⟩
  let record := recordBytes key (List.replicate 12 0) []
  have hnext : nextRecord key (record ++ []) = some ([], []) :=
    (encodes_recordBytes key rfl (by simp)).next_append []
  rw [List.append_nil] at hnext
  have hends : LoopEnds key renameFails.record 0 record [[]] [] :=
    .record rfl ⟨rfl, rfl⟩ hnext (fun _ => rfl) (fun _ h => absurd h (by decide))
      (.stop (.inr (by decide)))
  have hstarts : startsWithSignature record := ⟨_, rfl⟩
  have hloop := (convertLoop_iff key renameFails.record (Nat.lt_succ_self record.length)).mpr
    ⟨_, _, hends, rfl⟩
  obtain ⟨rest, hfirst⟩ := hstarts
  have hlost : deobfuscateInPlace (some key) renameFails record =
      ⟨.returned false, none⟩ := by
    unfold deobfuscateInPlace
    dsimp only
    rw [if_neg (by decide), if_neg (by decide), hfirst]
    dsimp only
    rw [if_neg (by decide), if_neg (by decide), hloop]
    rfl
  have hatomic := hall key renameFails record
  rw [hlost] at hatomic
  simp [Atomic] at hatomic

end Logme
