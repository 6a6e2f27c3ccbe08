import Logme.Library.BufferCursor
import Logme.ObfuscateRoundTrip

/-!
# Single records

`DeobfuscateRecord` opens one record and hands the text on as a C string.  The
text is decrypted into an array on the stack, which holds whatever it held
before, or into a vector of zeros when the record is long.  With the result
goes whether all bytes that were read stand in the record and in the array.
-/

namespace Logme

/-- The array on the stack. -/
structure StackBuffer where
  bytes : List UInt8
  size : bytes.length = 4 * 1024

structure DeobfuscateResult where
  rc : Bool
  line : List UInt8
  inside : Bool
  deriving DecidableEq

/-- How many bytes `ObfDecryptRecord` reads from the front of the record. -/
def obfDecryptReads (record : List UInt8) (outPlaintextCap : Nat) : Nat :=
  if record.length < LOGOBF_HEADER_BYTES then 0
  else
    let len := (loadLe16 (record.drop 2)).toNat
    if loadLe16 record ≠ LOGOBF_SIGNATURE then 4
    else if record.length < LOGOBF_HEADER_BYTES + len then 4
    else if outPlaintextCap < len then 4
    else LOGOBF_HEADER_BYTES + len

/-- The array for the text of a record. -/
def deobfuscateBuffer (stack : StackBuffer) (record : List UInt8) : List UInt8 :=
  if record.length < 4 * 1024 then stack.bytes else List.replicate record.length 0

/-- `DeobfuscateRecord`, with the array on the stack, the memory behind the
array and the value of `line` before the call. -/
def deobfuscateRecord (key : ObfKey) (stack : StackBuffer) (behind : List UInt8)
    (record line : List UInt8) : DeobfuscateResult :=
  if record.length < LOGOBF_HEADER_BYTES then ⟨false, line, true⟩
  else
    let buffer := deobfuscateBuffer stack record
    let inside : Bool := obfDecryptReads record buffer.length ≤ record.length
    -- the size and the nonce are locals that nothing reads
    match obfDecryptRecord (some key) (some record) (some buffer) (some 0)
        (some (List.replicate LOGOBF_NONCE_BYTES 0)) with
    | ⟨true, some buffer, _, _⟩ =>
        ⟨true, BufferCursor.cString (buffer ++ behind), inside && buffer.contains 0⟩
    | _ => ⟨false, line, inside⟩

theorem obfDecryptReads_le (record : List UInt8) (outPlaintextCap : Nat) :
    obfDecryptReads record outPlaintextCap ≤ record.length := by
  have hheader : LOGOBF_HEADER_BYTES = 16 := rfl
  unfold obfDecryptReads
  dsimp only
  split_ifs <;> omega

variable {key : ObfKey} {gen : NonceGen} {plaintext : List UInt8} {stack : StackBuffer}
  {behind line : List UInt8}

/-- A record that is not accepted leaves the line alone. -/
theorem deobfuscateRecord_rejected {record : List UInt8}
    (h : (deobfuscateRecord key stack behind record line).rc = false) :
    deobfuscateRecord key stack behind record line = ⟨false, line, true⟩ := by
  unfold deobfuscateRecord at h ⊢
  dsimp only at h ⊢
  rw [decide_eq_true (obfDecryptReads_le record _)] at h ⊢
  split_ifs at h ⊢ with hshort
  · rfl
  · split at h
    case h_1 => exact absurd h (by simp)
    case h_2 => rfl

/-- What is handed on of a text that was decrypted into the front of an array. -/
theorem cString_of_text {tail : List UInt8} (htail : tail ≠ []) (behind : List UInt8) :
    BufferCursor.cString (plaintext ++ tail ++ behind) = plaintext ∧
        (plaintext ++ tail).contains 0 = true ↔
      0 ∉ plaintext ∧ tail.head? = some 0 := by
  obtain ⟨first, tail, rfl⟩ := List.exists_cons_of_ne_nil htail
  rw [List.append_assoc, List.head?_cons, Option.some.injEq]
  constructor
  · intro hreturned
    obtain ⟨hstring, -⟩ := hreturned
    have hzero : 0 ∉ plaintext := by
      intro hmem
      rw [← hstring] at hmem
      exact absurd (List.mem_takeWhile_imp hmem) (by simp)
    refine ⟨hzero, ?_⟩
    rw [BufferCursor.cString_append_of_notMem hzero, List.append_right_eq_self,
      BufferCursor.cString] at hstring
    by_contra hfirst
    rw [List.cons_append, List.takeWhile_cons_of_pos (by simpa using hfirst)] at hstring
    exact absurd hstring (by simp)
  · intro hended
    obtain ⟨hzero, rfl⟩ := hended
    constructor
    · rw [BufferCursor.cString_append_of_notMem hzero, BufferCursor.cString, List.cons_append,
        List.takeWhile_cons_of_neg (by simp), List.append_nil]
    · simp

theorem deobfuscateBuffer_next (stack : StackBuffer) {record : List UInt8}
    (hrecord : record.length = LOGOBF_HEADER_BYTES + plaintext.length) :
    (deobfuscateBuffer stack record).drop plaintext.length ≠ [] ∧
      (((deobfuscateBuffer stack record).drop plaintext.length).head? = some 0 ↔
        (record.length < 4 * 1024 → stack.bytes[plaintext.length]? = some 0)) := by
  have hheader : LOGOBF_HEADER_BYTES = 16 := rfl
  have hsize := stack.size
  unfold deobfuscateBuffer
  split
  case isTrue hshort =>
    constructor
    · exact List.ne_nil_of_length_pos (by rw [List.length_drop]; omega)
    · rw [List.head?_drop]
      exact ⟨fun h _ => h, fun h => h hshort⟩
  case isFalse hlong =>
    constructor
    · exact List.ne_nil_of_length_pos (by rw [List.length_drop, List.length_replicate]; omega)
    · rw [List.head?_drop, List.getElem?_replicate, if_pos (by omega)]
      exact iff_of_true rfl fun hshort => absurd hshort hlong

/-- The text of an accepted record is returned, and every other record leaves
the line alone; nothing is read outside the record and the array. -/
structure DeobfuscatesRecord (key : ObfKey) (gen : NonceGen) (plaintext : List UInt8)
    (stack : StackBuffer) (behind line : List UInt8) : Prop where
  returned : ∀ record next, encryptRecord key gen plaintext = some (record, next) →
    deobfuscateRecord key stack behind record line = ⟨true, plaintext, true⟩
  rejected : ∀ record, (deobfuscateRecord key stack behind record line).rc = false →
    deobfuscateRecord key stack behind record line = ⟨false, line, true⟩

theorem deobfuscateRecord_encryptRecord (hlength : plaintext.length ≤ 0xffff)
    {record : List UInt8} {next : NonceGen}
    (h : encryptRecord key gen plaintext = some (record, next)) :
    deobfuscateRecord key stack behind record line = ⟨true, plaintext, true⟩ ↔
      0 ∉ plaintext ∧ (LOGOBF_HEADER_BYTES + plaintext.length < 4 * 1024 →
        stack.bytes[plaintext.length]? = some 0) := by
  have hheader : LOGOBF_HEADER_BYTES = 16 := rfl
  rw [encryptRecord_eq key gen hlength, Option.some.injEq] at h
  obtain ⟨rfl, -⟩ := Prod.mk.inj h
  have hrecord := recordBytes_length key plaintext (nonceGenNext_length gen)
  obtain ⟨htail, hnext⟩ := deobfuscateBuffer_next stack hrecord
  have hroom : plaintext.length <
      (deobfuscateBuffer stack (recordBytes key (nonceGenNext gen).2 plaintext)).length :=
    Nat.lt_of_not_le fun hle => htail (List.drop_eq_nil_of_le hle)
  have hopen := obfDecryptRecord_recordBytes key
    (deobfuscateBuffer stack (recordBytes key (nonceGenNext gen).2 plaintext)) [] 0
    (some (List.replicate LOGOBF_NONCE_BYTES 0)) (nonceGenNext_length gen) hlength
    (Nat.le_of_lt hroom)
  rw [List.append_nil] at hopen
  rw [← hrecord, ← hnext, ← cString_of_text htail behind]
  unfold deobfuscateRecord
  dsimp only
  rw [if_neg (by omega), hopen, decide_eq_true (obfDecryptReads_le _ _)]
  dsimp only
  rw [Bool.true_and, DeobfuscateResult.mk.injEq]
  exact ⟨fun h => h.2, fun h => ⟨rfl, h⟩⟩

/-- The text is returned exactly when it holds no 0 and, for a record that is
decrypted on the stack, a 0 was left behind its place. -/
theorem deobfuscatesRecord_iff (key : ObfKey) (gen : NonceGen) {plaintext : List UInt8}
    (hlength : plaintext.length ≤ 0xffff) (stack : StackBuffer) (behind line : List UInt8) :
    DeobfuscatesRecord key gen plaintext stack behind line ↔
      0 ∉ plaintext ∧ (LOGOBF_HEADER_BYTES + plaintext.length < 4 * 1024 →
        stack.bytes[plaintext.length]? = some 0) := by
  constructor
  · intro h
    exact (deobfuscateRecord_encryptRecord hlength (encryptRecord_eq key gen hlength)).mp
      (h.returned _ _ (encryptRecord_eq key gen hlength))
  · intro h
    constructor
    · intro record next hrecord
      exact (deobfuscateRecord_encryptRecord hlength hrecord).mpr h
    · intro record
      exact deobfuscateRecord_rejected

private def plainKey : ObfKey := ⟨List.replicate 32 0, rfl⟩

private def zeroStack : StackBuffer := ⟨List.replicate (4 * 1024) 0, List.length_replicate⟩

private def wholeText : List UInt8 := [0x6C, 0x6F, 0x67]

private def cutText : List UInt8 := [0x6C, 0, 0x67]

/-- A text of three bytes on a stack of zeros. -/
theorem deobfuscatesRecord_iff_log :
    DeobfuscatesRecord plainKey ⟨0, 0⟩ wholeText zeroStack [] [] ↔
      0 ∉ wholeText ∧ (LOGOBF_HEADER_BYTES + wholeText.length < 4 * 1024 →
        zeroStack.bytes[wholeText.length]? = some 0) :=
  have hlength : wholeText.length ≤ 0xffff := by decide
  deobfuscatesRecord_iff plainKey ⟨0, 0⟩ hlength zeroStack [] []

/-- A text is cut at the 0 in it. -/
theorem not_deobfuscatesRecord_cut :
    ¬ DeobfuscatesRecord plainKey ⟨0, 0⟩ cutText zeroStack [] [] := by
  intro h
  have hlength : cutText.length ≤ 0xffff := by decide
  have hrecord := encryptRecord_eq plainKey ⟨0, 0⟩ hlength
  obtain ⟨hzero, -⟩ := (deobfuscateRecord_encryptRecord hlength hrecord).mp
    (h.returned _ _ hrecord)
  exact absurd hzero (by decide)

end Logme
