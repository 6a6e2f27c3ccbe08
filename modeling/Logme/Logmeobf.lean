import Logme.DeobfuscateLogFile
import Logme.Logmefmt

/-!
# The `logmeobf` tool

The tool splits a readable log into records, obfuscates them one by one and
converts such a file back.  It has its own copy of the record format; the
functions below `LocalObfEncryptRecord` are those of the library, statement
for statement, and are not repeated here.  Keys and files are read and written
outside the model: a command is a function of the bytes of its input.
-/

namespace Logme.Logmeobf

open Logmefmt (isSpace)

/-! ## Records of a text -/

inductive TextFormat where
  | auto
  | text
  | json
  | xml
  deriving DecidableEq

/-- `SplitLinesKeepEol`: a line ends behind its line feed. -/
def splitLinesKeepEol : List UInt8 → List (List UInt8)
  | [] => []
  | b :: text =>
      if b = 0x0A then [b] :: splitLinesKeepEol text
      else
        match splitLinesKeepEol text with
        | [] => [[b]]
        | line :: lines => (b :: line) :: lines

def trimLeft (text : List UInt8) : List UInt8 := text.dropWhile isSpace

def isJsonRecordLine (line : List UInt8) : Bool := (trimLeft line).head? == some 0x7B

def isXmlRecordLine (line : List UInt8) : Bool :=
  (ascii "<event").isPrefixOf (trimLeft line) || (ascii "<record").isPrefixOf (trimLeft line)

def isDigit (c : UInt8) : Bool := 0x30 ≤ c && c ≤ 0x39

/-- What the first 23 bytes of a time stamp are. -/
def timestampShape : List (UInt8 → Bool) :=
  let dash := fun c => c == 0x2D
  let colon := fun c => c == 0x3A
  let separator := fun c => c == 0x20 || c == 0x54
  [isDigit, isDigit, isDigit, isDigit, dash, isDigit, isDigit, dash, isDigit, isDigit,
    separator, isDigit, isDigit, colon, isDigit, isDigit, colon, isDigit, isDigit, colon,
    isDigit, isDigit, isDigit]

def looksLikeTimestamp (line : List UInt8) : Bool :=
  24 ≤ line.length && (List.zipWith (fun holds c => holds c) timestampShape line).all id

def looksLikeSignature : List UInt8 → Bool
  | c :: space :: _ =>
      (c == 0x44 || c == 0x49 || c == 0x57 || c == 0x45 || c == 0x43) && space == 0x20
  | _ => false

def isTextRecordStart (line : List UInt8) : Bool :=
  looksLikeTimestamp line || looksLikeSignature line

/-- `DetectFormat` looks at the first ten lines that are not blank. -/
def detectFormat (lines : List (List UInt8)) : TextFormat :=
  let seen := (lines.filter fun line => trimLeft line != []).take 10
  let json := seen.countP isJsonRecordLine
  let xml := seen.countP fun line => !isJsonRecordLine line && isXmlRecordLine line
  if xml < json then .json else if json < xml then .xml else .text

/-- The state of the loop in `BuildRecords`. -/
structure Grouping where
  records : List (List UInt8)
  current : List UInt8
  canGroup : Bool

namespace Grouping

def step (g : Grouping) (line : List UInt8) : Grouping :=
  let start := isTextRecordStart line
  let g := { g with canGroup := g.canGroup || start }
  let g :=
    if g.canGroup && start && g.current != [] then
      { g with records := g.records ++ [g.current], current := [] }
    else g
  if !g.canGroup && line != [] then { g with records := g.records ++ [line] }
  else { g with current := g.current ++ line }

def finish (g : Grouping) : List (List UInt8) :=
  if g.current ≠ [] then g.records ++ [g.current] else g.records

end Grouping

def buildRecords (text : List UInt8) (format : TextFormat) : List (List UInt8) :=
  let lines := splitLinesKeepEol text
  let format := if format = .auto then detectFormat lines else format
  if format = .json ∨ format = .xml then lines.filter fun line => line != []
  else (lines.foldl Grouping.step ⟨[], [], false⟩).finish

/-! ## The record format -/

def localObfCalcRecordSize (plaintextLen : Nat) : Nat :=
  if plaintextLen > 0xffff then 0 else LOGOBF_HEADER_BYTES + plaintextLen

def localObfEncryptRecord (key : Option ObfKey) (nonceGen : Option NonceGen)
    (plaintext : List UInt8) (outRecord : Option (List UInt8))
    (outRecordLen : Option Nat) : EncryptResult :=
  match key, nonceGen, outRecord, outRecordLen with
  | some key, some gen, some buffer, some len =>
      let required := localObfCalcRecordSize plaintext.length
      if required = 0 ∨ buffer.length < required then
        ⟨false, some gen, some buffer, some len⟩
      else
        let (gen, nonce) := nonceGenNext gen
        let record := storeLe16 LOGOBF_SIGNATURE ++
          storeLe16 (UInt16.ofNat plaintext.length) ++ nonce ++
          chaCha20Xor key nonce 1 plaintext
        ⟨true, some gen, some (record ++ buffer.drop required), some required⟩
  | _, _, _, _ => ⟨false, nonceGen, outRecord, outRecordLen⟩

def localObfDecryptRecord (key : Option ObfKey) (record : Option (List UInt8))
    (outPlaintext : Option (List UInt8)) (outPlaintextLen : Option Nat) :
    DecryptResult :=
  match key, record, outPlaintext, outPlaintextLen with
  | some key, some record, some buffer, some outLen =>
      if record.length < LOGOBF_HEADER_BYTES then
        ⟨false, some buffer, some outLen, none⟩
      else
        let signature := loadLe16 record
        let len := (loadLe16 (record.drop 2)).toNat
        if signature ≠ LOGOBF_SIGNATURE then ⟨false, some buffer, some outLen, none⟩
        else
          let required := LOGOBF_HEADER_BYTES + len
          if record.length < required ∨ buffer.length < len then
            ⟨false, some buffer, some outLen, none⟩
          else
            let plaintext := chaCha20Xor key ((record.drop 4).take LOGOBF_NONCE_BYTES) 1
              ((record.drop LOGOBF_HEADER_BYTES).take len)
            ⟨true, some (plaintext ++ buffer.drop len), some len, none⟩
  | _, _, _, _ => ⟨false, outPlaintext, outPlaintextLen, none⟩

/-! ## The commands -/

/-- A `std::vector<uint8_t>`: `data()` is null until something was allocated. -/
structure ByteVector where
  bytes : List UInt8
  allocated : Bool

namespace ByteVector

def empty : ByteVector := ⟨[], false⟩

def resize (v : ByteVector) (size : Nat) : ByteVector where
  bytes := v.bytes.take size ++ List.replicate (size - v.bytes.length) 0
  allocated := v.allocated || size != 0

/-- What `data() + offset` points to. -/
def dataAt (v : ByteVector) (offset : Nat) : Option (List UInt8) :=
  if v.allocated then some (v.bytes.drop offset) else none

/-- The bytes from an offset on after a write through the pointer. -/
def writeAt (v : ByteVector) (offset : Nat) (bytes : List UInt8) : ByteVector :=
  { v with bytes := v.bytes.take offset ++ bytes }

end ByteVector

def appendEncryptedRecord (key : ObfKey) (nonceGen : NonceGen) (record : List UInt8)
    (output : ByteVector) : Option (NonceGen × ByteVector) :=
  let required := localObfCalcRecordSize record.length
  if required = 0 then none
  else
    let offset := output.bytes.length
    let output := output.resize (offset + required)
    match localObfEncryptRecord (some key) (some nonceGen) record (output.dataAt offset)
        (some 0) with
    | ⟨true, some nonceGen, some buffer, some written⟩ =>
        some (nonceGen, (output.writeAt offset buffer).resize (offset + written))
    | _ => none

def appendEncryptedRecords (key : ObfKey) :
    NonceGen → List (List UInt8) → ByteVector → Option ByteVector
  | _, [], output => some output
  | nonceGen, record :: records, output =>
      match appendEncryptedRecord key nonceGen record output with
      | none => none
      | some (nonceGen, output) => appendEncryptedRecords key nonceGen records output

/-- `RunObfuscate`: the generator starts with a salt of its own or with the
given one. -/
def runObfuscate (key : ObfKey) (nonceGen : NonceGen) (format : TextFormat)
    (text : List UInt8) : Option (List UInt8) :=
  (appendEncryptedRecords key nonceGen (buildRecords text format) .empty).map
    ByteVector.bytes

/-- The loop of `RunDeobfuscate`; a record has at least a header, so the length
of the input bounds the number of turns. -/
def deobfuscateLoop (key : ObfKey) :
    Nat → List UInt8 → ByteVector → Option ByteVector
  | 0, _, _ => none
  | turns + 1, input, output =>
      if input = [] then some output
      else if input.length < LOGOBF_HEADER_BYTES then none
      else
        let len := (loadLe16 (input.drop 2)).toNat
        let recordSize := LOGOBF_HEADER_BYTES + len
        if input.length < recordSize then none
        else
          let offset := output.bytes.length
          let output := output.resize (offset + len)
          match localObfDecryptRecord (some key) (some (input.take recordSize))
              (output.dataAt offset) (some 0) with
          | ⟨true, some buffer, some written, _⟩ =>
              deobfuscateLoop key turns (input.drop recordSize)
                ((output.writeAt offset buffer).resize (offset + written))
          | _ => none

def runDeobfuscate (key : ObfKey) (input : List UInt8) : Option (List UInt8) :=
  (deobfuscateLoop key (input.length + 1) input .empty).map ByteVector.bytes

/-! ## The partition -/

theorem splitLinesKeepEol_flatten (text : List UInt8) :
    (splitLinesKeepEol text).flatten = text := by
  induction text with
  | nil => rfl
  | cons b text ih =>
      rw [splitLinesKeepEol]
      split
      next => rw [List.flatten_cons, ih, List.singleton_append]
      next =>
        split
        next hlines =>
          rw [hlines] at ih
          rw [← ih]
          rfl
        next line lines hlines =>
          rw [hlines] at ih
          rw [← ih]
          rfl

namespace Grouping

/-- The bytes seen so far, in the records and in the one being grouped. -/
structure Holds (g : Grouping) (seen : List UInt8) : Prop where
  bytes : g.records.flatten ++ g.current = seen
  nonempty : ∀ record ∈ g.records, record ≠ []
  alone : g.canGroup = false → g.current = []

/-- The record that is being grouped is put behind the others. -/
theorem Holds.closeCurrent {g : Grouping} {seen : List UInt8} (h : g.Holds seen)
    (hcurrent : g.current ≠ []) :
    ({ g with records := g.records ++ [g.current], current := [] } : Grouping).Holds seen where
  bytes := by simpa using h.bytes
  nonempty := by
    intro record hrecord
    rcases List.mem_append.mp hrecord with hrecord | hrecord
    · exact h.nonempty record hrecord
    · rw [List.mem_singleton.mp hrecord]
      exact hcurrent
  alone := fun _ => rfl

/-- A line before the first start of a record is a record of its own, any other
one belongs to the record that is being grouped. -/
theorem Holds.appendLine {g : Grouping} {seen : List UInt8} (h : g.Holds seen)
    (line : List UInt8) :
    (if !g.canGroup && line != [] then { g with records := g.records ++ [line] }
      else { g with current := g.current ++ line } : Grouping).Holds (seen ++ line) := by
  split
  next halone =>
    rw [Bool.and_eq_true, Bool.not_eq_true', bne_iff_ne] at halone
    have hcurrent := h.alone halone.1
    refine ⟨?_, ?_, fun _ => hcurrent⟩
    · simp [← h.bytes, hcurrent]
    · intro record hrecord
      rcases List.mem_append.mp hrecord with hrecord | hrecord
      · exact h.nonempty record hrecord
      · rw [List.mem_singleton.mp hrecord]
        exact halone.2
  next hgrouped =>
    refine ⟨by simp [← h.bytes], h.nonempty, ?_⟩
    intro hcan
    have hcan : g.canGroup = false := hcan
    have hline : line = [] := by simpa [hcan] using hgrouped
    simp [h.alone hcan, hline]

theorem Holds.step {g : Grouping} {seen : List UInt8} (h : g.Holds seen)
    (line : List UInt8) : (g.step line).Holds (seen ++ line) := by
  have hstart : ({ g with canGroup := g.canGroup || isTextRecordStart line } : Grouping).Holds
      seen := by
    refine ⟨h.bytes, h.nonempty, ?_⟩
    intro hcan
    exact h.alone (Bool.or_eq_false_iff.mp hcan).1
  unfold Grouping.step
  apply Holds.appendLine
  split
  next hclose =>
    apply hstart.closeCurrent
    simpa using (Bool.and_eq_true_iff.mp hclose).2
  next => exact hstart

theorem Holds.foldl {g : Grouping} {seen : List UInt8} (h : g.Holds seen)
    (lines : List (List UInt8)) :
    (lines.foldl Grouping.step g).Holds (seen ++ lines.flatten) := by
  induction lines generalizing g seen with
  | nil => simpa using h
  | cons line lines ih =>
      rw [List.foldl_cons, List.flatten_cons, ← List.append_assoc]
      exact ih (h.step line)

theorem Holds.finish {g : Grouping} {seen : List UInt8} (h : g.Holds seen) :
    g.finish.flatten = seen ∧ ∀ record ∈ g.finish, record ≠ [] := by
  unfold Grouping.finish
  split
  next hcurrent =>
    refine ⟨by simpa using h.bytes, ?_⟩
    intro record hrecord
    rcases List.mem_append.mp hrecord with hrecord | hrecord
    · exact h.nonempty record hrecord
    · rw [List.mem_singleton.mp hrecord]
      exact hcurrent
  next hcurrent =>
    rw [not_not] at hcurrent
    refine ⟨?_, h.nonempty⟩
    have hbytes := h.bytes
    rwa [hcurrent, List.append_nil] at hbytes

end Grouping

theorem buildRecords_partition (text : List UInt8) (format : TextFormat) :
    (buildRecords text format).flatten = text ∧
      ∀ record ∈ buildRecords text format, record ≠ [] := by
  have hlines := splitLinesKeepEol_flatten text
  unfold buildRecords
  generalize splitLinesKeepEol text = lines at hlines
  dsimp only
  generalize (if format = .auto then detectFormat lines else format) = format'
  split
  next =>
    refine ⟨?_, ?_⟩
    · have hsame : (fun line : List UInt8 => line != []) = fun line => decide (line ≠ []) := by
        funext line
        by_cases hline : line = [] <;> simp [hline]
      rw [hsame, List.flatten_filter_ne_nil, hlines]
    · intro record hrecord
      simpa using (List.mem_filter.mp hrecord).2
  next =>
    have hempty : (⟨[], [], false⟩ : Grouping).Holds [] :=
      ⟨rfl, by simp, fun _ => rfl⟩
    have hall := (hempty.foldl lines).finish
    rwa [List.nil_append, hlines] at hall

/-! ## The two codecs -/

theorem localObfCalcRecordSize_eq_zero_iff {n : Nat} :
    localObfCalcRecordSize n = 0 ↔ n > 0xffff := by
  unfold localObfCalcRecordSize LOGOBF_HEADER_BYTES
  split <;> omega

theorem localObfEncryptRecord_eq : localObfEncryptRecord = obfEncryptRecord := by
  funext key nonceGen plaintext outRecord outRecordLen
  match key, nonceGen, outRecord, outRecordLen with
  | none, _, _, _ => rfl
  | some _, none, _, _ => rfl
  | some _, some _, none, _ => rfl
  | some _, some _, some _, none => rfl
  | some key, some gen, some buffer, some len =>
      dsimp only [localObfEncryptRecord, obfEncryptRecord]
      have hzero := localObfCalcRecordSize_eq_zero_iff (n := plaintext.length)
      by_cases hlong : plaintext.length > 0xffff
      · rw [if_pos (Or.inl (hzero.mpr hlong)), if_pos hlong]
      · have hpositive : localObfCalcRecordSize plaintext.length ≠ 0 := mt hzero.mp hlong
        rw [if_neg hlong]
        by_cases hsmall : buffer.length < localObfCalcRecordSize plaintext.length
        · have hsame : buffer.length < obfCalcRecordSize plaintext.length := hsmall
          rw [if_pos (Or.inr hsmall), if_pos hsame]
        · have hsame : ¬ buffer.length < obfCalcRecordSize plaintext.length := hsmall
          rw [if_neg (not_or.mpr ⟨hpositive, hsmall⟩), if_neg hsame]
          rfl

/-- The library returns the nonce of a record as well. -/
theorem localObfDecryptRecord_eq (key : Option ObfKey)
    (record outPlaintext : Option (List UInt8)) (outPlaintextLen : Option Nat) :
    localObfDecryptRecord key record outPlaintext outPlaintextLen =
      obfDecryptRecord key record outPlaintext outPlaintextLen none := by
  match key, record, outPlaintext, outPlaintextLen with
  | none, _, _, _ => rfl
  | some _, none, _, _ => rfl
  | some _, some _, none, _ => rfl
  | some _, some _, some _, none => rfl
  | some key, some record, some buffer, some len =>
      dsimp only [localObfDecryptRecord, obfDecryptRecord]
      split
      next => rfl
      next =>
        split
        next => rfl
        next =>
          by_cases hrecord : record.length <
              LOGOBF_HEADER_BYTES + (loadLe16 (record.drop 2)).toNat
          · rw [if_pos (Or.inl hrecord), if_pos hrecord]
          · rw [if_neg hrecord]
            by_cases hbuffer : buffer.length < (loadLe16 (record.drop 2)).toNat
            · rw [if_pos (Or.inr hbuffer), if_pos hbuffer]
            · rw [if_neg (not_or.mpr ⟨hrecord, hbuffer⟩), if_neg hbuffer]
              rfl

/-! ## Vectors -/

namespace ByteVector

theorem bytes_resize (v : ByteVector) (n : Nat) :
    (v.resize (v.bytes.length + n)).bytes = v.bytes ++ List.replicate n 0 := by
  simp [resize, List.take_of_length_le]

theorem dataAt_resize (v : ByteVector) (n : Nat) :
    (v.resize (v.bytes.length + n)).dataAt v.bytes.length =
      if v.allocated || v.bytes.length + n != 0 then some (List.replicate n 0) else none := by
  rw [dataAt, bytes_resize, List.drop_left]
  rfl

/-- Bytes are appended to a vector through the pointer to its old end. -/
theorem resize_writeAt (v : ByteVector) {n : Nat} {bytes : List UInt8}
    (hbytes : bytes.length = n) :
    ((v.resize (v.bytes.length + n)).writeAt v.bytes.length bytes).resize
        (v.bytes.length + n) =
      ⟨v.bytes ++ bytes, v.allocated || v.bytes.length + n != 0⟩ := by
  have hwritten : (v.resize (v.bytes.length + n)).writeAt v.bytes.length bytes =
      ⟨v.bytes ++ bytes, v.allocated || v.bytes.length + n != 0⟩ := by
    rw [writeAt, bytes_resize, List.take_left]
    rfl
  rw [hwritten, resize]
  have hlength : (v.bytes ++ bytes).length = v.bytes.length + n := by
    rw [List.length_append, hbytes]
  rw [List.take_of_length_le (Nat.le_of_eq hlength), hlength]
  simp

end ByteVector

/-! ## Obfuscation -/

theorem appendEncryptedRecord_eq (key : ObfKey) (gen : NonceGen) {record : List UInt8}
    (hlength : record.length ≤ 0xffff) (output : ByteVector) :
    appendEncryptedRecord key gen record output =
      some ((nonceGenNext gen).1,
        ⟨output.bytes ++ recordBytes key (nonceGenNext gen).2 record, true⟩) := by
  have hsize : localObfCalcRecordSize record.length = LOGOBF_HEADER_BYTES + record.length :=
    obfCalcRecordSize_eq hlength
  have hpositive : 0 < LOGOBF_HEADER_BYTES + record.length := by
    rw [LOGOBF_HEADER_BYTES]
    omega
  have hencrypt := obfEncryptRecord_eq key gen
    (List.replicate (LOGOBF_HEADER_BYTES + record.length) 0) 0 hlength
    (by rw [obfCalcRecordSize_eq hlength, List.length_replicate])
  rw [obfCalcRecordSize_eq hlength, List.drop_of_length_le (by simp), List.append_nil]
    at hencrypt
  have hallocated : (output.allocated ||
      output.bytes.length + (LOGOBF_HEADER_BYTES + record.length) != 0) = true := by
    rw [Bool.or_eq_true, bne_iff_ne]
    right
    omega
  have hbytes : (recordBytes key (nonceGenNext gen).2 record).length =
      LOGOBF_HEADER_BYTES + record.length :=
    recordBytes_length key record (nonceGenNext_length gen)
  rw [appendEncryptedRecord, hsize, if_neg (by omega)]
  dsimp only
  rw [ByteVector.dataAt_resize, if_pos hallocated, localObfEncryptRecord_eq, hencrypt]
  dsimp only
  rw [ByteVector.resize_writeAt output hbytes, hallocated]

/-- The tool writes the records that the library writes. -/
theorem appendEncryptedRecords_eq (key : ObfKey) (gen : NonceGen)
    {records : List (List UInt8)} (hlength : ∀ record ∈ records, record.length ≤ 0xffff)
    (output : ByteVector) :
    ∃ written, encryptRecords key gen records = some written ∧
      (appendEncryptedRecords key gen records output).map ByteVector.bytes =
        some (output.bytes ++ written.flatten) := by
  induction records generalizing gen output with
  | nil => exact ⟨[], rfl, by simp [appendEncryptedRecords]⟩
  | cons record records ih =>
      rw [List.forall_mem_cons] at hlength
      rcases ih (nonceGenNext gen).1 hlength.2
        ⟨output.bytes ++ recordBytes key (nonceGenNext gen).2 record, true⟩ with
        ⟨written, hencrypt, happend⟩
      refine ⟨recordBytes key (nonceGenNext gen).2 record :: written, ?_, ?_⟩
      · simp [encryptRecords, encryptRecord_eq key gen hlength.1, hencrypt]
      · rw [appendEncryptedRecords, appendEncryptedRecord_eq key gen hlength.1]
        simpa using happend

/-! ## Deobfuscation -/

/-- One turn of the loop: a record of an empty text is refused while nothing
was written yet. -/
theorem deobfuscateLoop_recordBytes (key : ObfKey) (turns : Nat) {nonce : List UInt8}
    (hnonce : nonce.length = LOGOBF_NONCE_BYTES) {plaintext : List UInt8}
    (hlength : plaintext.length ≤ 0xffff) (rest : List UInt8) (output : ByteVector) :
    deobfuscateLoop key (turns + 1) (recordBytes key nonce plaintext ++ rest) output =
      if output.allocated || output.bytes.length + plaintext.length != 0 then
        deobfuscateLoop key turns rest ⟨output.bytes ++ plaintext, true⟩
      else none := by
  have hrecord := recordBytes_length key plaintext hnonce
  have hlen := loadLe16_length_recordBytes key nonce rest hlength
  have hdecrypt := obfDecryptRecord_recordBytes key
    (List.replicate plaintext.length 0) [] 0 none hnonce hlength (by simp)
  rw [List.append_nil, List.drop_of_length_le (by simp), List.append_nil] at hdecrypt
  have hne : recordBytes key nonce plaintext ++ rest ≠ [] := by
    apply List.ne_nil_of_length_pos
    rw [List.length_append, hrecord, LOGOBF_HEADER_BYTES]
    omega
  have hinput : LOGOBF_HEADER_BYTES + plaintext.length ≤
      (recordBytes key nonce plaintext ++ rest).length := by
    rw [List.length_append, hrecord]
    omega
  rw [deobfuscateLoop, if_neg hne, if_neg (by omega)]
  dsimp only
  rw [hlen, if_neg (by omega), List.take_left' hrecord, List.drop_left' hrecord,
    ByteVector.dataAt_resize, localObfDecryptRecord_eq]
  by_cases hallocated :
      (output.allocated || output.bytes.length + plaintext.length != 0) = true
  · rw [if_pos hallocated, if_pos hallocated, hdecrypt]
    dsimp only
    rw [ByteVector.resize_writeAt output rfl, hallocated]
  · rw [if_neg hallocated, if_neg hallocated]
    rfl

/-- The texts that make the records of a stream. -/
inductive Stream (key : ObfKey) : List (List UInt8) → List (List UInt8) → Prop
  | nil : Stream key [] []
  | cons {nonce plaintext : List UInt8} {records plaintexts : List (List UInt8)}
      (hnonce : nonce.length = LOGOBF_NONCE_BYTES) (hlength : plaintext.length ≤ 0xffff)
      (hrest : Stream key records plaintexts) :
      Stream key (recordBytes key nonce plaintext :: records) (plaintext :: plaintexts)

theorem stream_of_encryptRecords (key : ObfKey) (gen : NonceGen)
    {plaintexts : List (List UInt8)}
    (hlength : ∀ plaintext ∈ plaintexts, plaintext.length ≤ 0xffff) :
    ∃ records, encryptRecords key gen plaintexts = some records ∧
      Stream key records plaintexts := by
  induction plaintexts generalizing gen with
  | nil => exact ⟨[], rfl, .nil⟩
  | cons plaintext plaintexts ih =>
      rw [List.forall_mem_cons] at hlength
      rcases ih (nonceGenNext gen).1 hlength.2 with ⟨records, hencrypt, hstream⟩
      refine ⟨recordBytes key (nonceGenNext gen).2 plaintext :: records, ?_,
        .cons (nonceGenNext_length gen) hlength.1 hstream⟩
      simp [encryptRecords, encryptRecord_eq key gen hlength.1, hencrypt]

namespace Stream

variable {key : ObfKey} {records plaintexts : List (List UInt8)}

theorem whole (h : Stream key records plaintexts) :
    List.Forall₂ (WholeRecord key) records plaintexts := by
  induction h with
  | nil => exact .nil
  | cons hnonce hlength _ ih =>
      refine .cons ?_ ih
      exact (wholeRecord_iff_encodes key _ _).mpr (encodes_recordBytes key hnonce hlength)

theorem length_le (h : Stream key records plaintexts) :
    records.length ≤ records.flatten.length :=
  FramedStream.frames_length_le
    (h.whole.imp fun record text => (wholeRecord_iff_encodes key record text).mp)

/-- Behind written bytes every record is opened. -/
theorem deobfuscateLoop_allocated (h : Stream key records plaintexts) {turns : Nat}
    (hturns : records.length < turns) (bytes : List UInt8) :
    deobfuscateLoop key turns records.flatten ⟨bytes, true⟩ =
      some ⟨bytes ++ plaintexts.flatten, true⟩ := by
  induction h generalizing turns bytes with
  | nil =>
      cases turns with
      | zero => simp at hturns
      | succ turns => simp [deobfuscateLoop]
  | cons hnonce hlength _ ih =>
      cases turns with
      | zero => simp at hturns
      | succ turns =>
          rw [List.flatten_cons, deobfuscateLoop_recordBytes key turns hnonce hlength,
            if_pos (by simp), ih (by simpa using hturns)]
          simp

/-- The command gives the texts back unless the first of them is empty. -/
theorem runDeobfuscate_eq (h : Stream key records plaintexts) :
    runDeobfuscate key records.flatten =
      if plaintexts.head? = some [] then none else some plaintexts.flatten := by
  have hturns : records.length < records.flatten.length + 1 := Nat.lt_succ_of_le h.length_le
  unfold runDeobfuscate
  generalize records.flatten.length + 1 = turns at hturns
  cases h with
  | nil =>
      cases turns with
      | zero => simp at hturns
      | succ turns => simp [deobfuscateLoop, ByteVector.empty]
  | @cons nonce plaintext records plaintexts hnonce hlength hrest =>
      cases turns with
      | zero => simp at hturns
      | succ turns =>
          rw [List.flatten_cons, deobfuscateLoop_recordBytes key turns hnonce hlength]
          by_cases hempty : plaintext = []
          · simp [hempty, ByteVector.empty]
          · have hlength : plaintext.length ≠ 0 := by simpa using hempty
            rw [if_pos (by simp [hlength]),
              hrest.deobfuscateLoop_allocated (by simpa using hturns)]
            simp [hempty, ByteVector.empty]

end Stream

/-! ## The commands and the library -/

/-- The tool partitions a text, gives it back from its own records, which the
library opens as well, and opens the records of the library unless the first
one has an empty text. -/
theorem round_trip_and_interoperation (key : ObfKey) (gen gen' : NonceGen)
    (text : List UInt8) (format : TextFormat) (plaintexts : List (List UInt8))
    (hrecords : ∀ record ∈ buildRecords text format, record.length ≤ 0xffff)
    (hplaintexts : ∀ plaintext ∈ plaintexts, plaintext.length ≤ 0xffff) :
    ((buildRecords text format).flatten = text ∧
      ∃ written, runObfuscate key gen format text = some written.flatten ∧
        runDeobfuscate key written.flatten = some text ∧
        List.Forall₂ (WholeRecord key) written (buildRecords text format)) ∧
    ∃ records, encryptRecords key gen' plaintexts = some records ∧
      (runDeobfuscate key records.flatten = some plaintexts.flatten ↔
        plaintexts.head? ≠ some []) := by
  rcases buildRecords_partition text format with ⟨hflatten, hnonempty⟩
  constructor
  · refine ⟨hflatten, ?_⟩
    rcases appendEncryptedRecords_eq key gen hrecords .empty with
      ⟨written, hencrypt, happend⟩
    rcases stream_of_encryptRecords key gen hrecords with ⟨written', hencrypt', hstream⟩
    rw [hencrypt, Option.some.injEq] at hencrypt'
    subst hencrypt'
    refine ⟨written, happend, ?_, hstream.whole⟩
    have hfirst : (buildRecords text format).head? ≠ some [] := by
      intro hhead
      exact hnonempty [] (List.mem_of_mem_head? hhead) rfl
    rw [hstream.runDeobfuscate_eq, if_neg hfirst, hflatten]
  · rcases stream_of_encryptRecords key gen' hplaintexts with ⟨records, hencrypt, hstream⟩
    refine ⟨records, hencrypt, ?_⟩
    rw [hstream.runDeobfuscate_eq]
    split
    next hempty => simp [hempty]
    next hempty => simp [hempty]

theorem round_trip_and_interoperation_line :
    let key : ObfKey := ⟨List.replicate 32 0, by decide⟩
    ∃ output, runObfuscate key ⟨0, 7⟩ .auto (ascii "W one\ntwo\n") = some output ∧
      runDeobfuscate key output = some (ascii "W one\ntwo\n") := by
  intro key
  rcases round_trip_and_interoperation key ⟨0, 7⟩ ⟨0, 7⟩ (ascii "W one\ntwo\n") .auto
    [[0x6C]] (by decide) (by decide) with ⟨⟨-, written, hwritten, hback, -⟩, -⟩
  exact ⟨written.flatten, hwritten, hback⟩

/-- The library's record of an empty text is refused. -/
theorem empty_record_refused :
    let key : ObfKey := ⟨List.replicate 32 0, by decide⟩
    ∃ record, encryptRecords key ⟨0, 7⟩ [[]] = some [record] ∧
      WholeRecord key record [] ∧ runDeobfuscate key record ≠ some [] := by
  intro key
  let record := recordBytes key (nonceGenNext ⟨0, 7⟩).2 []
  have hstream : Stream key [record] [[]] :=
    .cons (nonceGenNext_length _) (by decide) .nil
  refine ⟨record, ?_, ?_, ?_⟩
  · have hlength : ([] : List UInt8).length ≤ 0xffff := by decide
    simp [encryptRecords, encryptRecord_eq key ⟨0, 7⟩ hlength, record]
  · exact (List.forall₂_cons.mp hstream.whole).1
  · have hrefused := hstream.runDeobfuscate_eq
    rw [List.flatten_singleton] at hrefused
    rw [hrefused]
    decide

end Logme.Logmeobf
