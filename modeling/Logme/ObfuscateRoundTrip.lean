import Logme.Obfuscate

/-!
# A record is read back as its text

What `ObfEncryptRecord` writes, `ObfDecryptRecord` opens, and a concatenation
of records is taken apart by the length fields alone.
-/

namespace Logme

open FramedStream

/-! ## The layout of a record -/

@[simp] theorem recordBytes_length (key : ObfKey) {nonce : List UInt8}
    (plaintext : List UInt8) (hnonce : nonce.length = LOGOBF_NONCE_BYTES) :
    (recordBytes key nonce plaintext).length =
      LOGOBF_HEADER_BYTES + plaintext.length := by
  simp [recordBytes, LOGOBF_HEADER_BYTES, hnonce]
  omega

theorem loadLe16_recordBytes (key : ObfKey) (nonce plaintext rest : List UInt8) :
    loadLe16 (recordBytes key nonce plaintext ++ rest) = LOGOBF_SIGNATURE := by
  simp only [recordBytes, List.append_assoc]
  exact loadLe16_storeLe16 _ _

theorem loadLe16_length_recordBytes (key : ObfKey)
    {plaintext : List UInt8} (nonce rest : List UInt8)
    (hlength : plaintext.length ≤ 0xffff) :
    (loadLe16 ((recordBytes key nonce plaintext ++ rest).drop 2)).toNat =
      plaintext.length := by
  have hdrop :
      (recordBytes key nonce plaintext ++ rest).drop 2 =
        storeLe16 (UInt16.ofNat plaintext.length) ++
          (nonce ++ (chaCha20Xor key nonce 1 plaintext ++ rest)) := by
    simp only [recordBytes, List.append_assoc]
    exact List.drop_left' (storeLe16_length _)
  rw [hdrop, loadLe16_storeLe16]
  simp
  omega

theorem nonce_recordBytes (key : ObfKey) {nonce : List UInt8}
    (plaintext rest : List UInt8)
    (hnonce : nonce.length = LOGOBF_NONCE_BYTES) :
    ((recordBytes key nonce plaintext ++ rest).drop 4).take
      LOGOBF_NONCE_BYTES = nonce := by
  have hdrop :
      (recordBytes key nonce plaintext ++ rest).drop 4 =
        nonce ++ (chaCha20Xor key nonce 1 plaintext ++ rest) := by
    simp only [recordBytes, List.append_assoc]
    rw [← List.append_assoc]
    exact List.drop_left' rfl
  rw [hdrop]
  exact List.take_left' hnonce

theorem ciphertext_recordBytes (key : ObfKey) {nonce : List UInt8}
    (plaintext rest : List UInt8)
    (hnonce : nonce.length = LOGOBF_NONCE_BYTES) :
    ((recordBytes key nonce plaintext ++ rest).drop LOGOBF_HEADER_BYTES).take
      plaintext.length = chaCha20Xor key nonce 1 plaintext := by
  have hdrop :
      (recordBytes key nonce plaintext ++ rest).drop LOGOBF_HEADER_BYTES =
        chaCha20Xor key nonce 1 plaintext ++ rest := by
    simp only [recordBytes, List.append_assoc]
    rw [← List.append_assoc, ← List.append_assoc]
    apply List.drop_left'
    simp [LOGOBF_HEADER_BYTES, hnonce]
    omega
  rw [hdrop]
  exact List.take_left' (chaCha20Xor_length key nonce 1 plaintext)

/-! ## The two functions on a record -/

theorem obfEncryptRecord_eq (key : ObfKey) (gen : NonceGen)
    {plaintext : List UInt8} (buffer : List UInt8) (len : Nat)
    (hlength : plaintext.length ≤ 0xffff)
    (hbuffer : obfCalcRecordSize plaintext.length ≤ buffer.length) :
    obfEncryptRecord (some key) (some gen) plaintext (some buffer) (some len) =
      ⟨true, some (nonceGenNext gen).1,
        some (recordBytes key (nonceGenNext gen).2 plaintext ++
          buffer.drop (obfCalcRecordSize plaintext.length)),
        some (obfCalcRecordSize plaintext.length)⟩ := by
  simp only [obfEncryptRecord]
  rw [if_neg (by omega), if_neg (by omega)]

theorem obfCalcRecordSize_eq {n : Nat} (h : n ≤ 0xffff) :
    obfCalcRecordSize n = LOGOBF_HEADER_BYTES + n := by
  rw [obfCalcRecordSize, if_neg (by omega)]

theorem obfDecryptRecord_recordBytes (key : ObfKey)
    {nonce plaintext : List UInt8} (buffer rest : List UInt8) (len : Nat)
    (outNonce : Option (List UInt8))
    (hnonce : nonce.length = LOGOBF_NONCE_BYTES)
    (hlength : plaintext.length ≤ 0xffff)
    (hbuffer : plaintext.length ≤ buffer.length) :
    obfDecryptRecord (some key)
        (some (recordBytes key nonce plaintext ++ rest)) (some buffer)
        (some len) outNonce =
      ⟨true, some (plaintext ++ buffer.drop plaintext.length),
        some plaintext.length, outNonce.map fun _ => nonce⟩ := by
  have hrecord := recordBytes_length key plaintext hnonce
  have hsig := loadLe16_recordBytes key nonce plaintext rest
  have hlen := loadLe16_length_recordBytes key nonce rest hlength
  have hnonceBytes := nonce_recordBytes key plaintext rest hnonce
  have hcipher := ciphertext_recordBytes key plaintext rest hnonce
  simp only [obfDecryptRecord, hlen, hsig, List.length_append]
  rw [if_neg (by omega), if_neg (by simp), if_neg (by omega),
    if_neg (by omega), hnonceBytes, hcipher, chaCha20Xor_involutive]

/-! ## Streams of records -/

/-- The record that `AppendObfuscated` obtains for a text, in a buffer of the
calculated size, and the generator after it. -/
def encryptRecord (key : ObfKey) (gen : NonceGen) (plaintext : List UInt8) :
    Option (List UInt8 × NonceGen) :=
  let buffer := List.replicate (obfCalcRecordSize plaintext.length) 0
  match obfEncryptRecord (some key) (some gen) plaintext (some buffer)
      (some 0) with
  | ⟨true, some gen, some buffer, some len⟩ => some (buffer.take len, gen)
  | _ => none

def encryptRecords (key : ObfKey) :
    NonceGen → List (List UInt8) → Option (List (List UInt8))
  | _, [] => some []
  | gen, plaintext :: rest =>
      match encryptRecord key gen plaintext with
      | none => none
      | some (record, gen) => (encryptRecords key gen rest).map (record :: ·)

/-- Open the record at the front of a stream and skip as many bytes as its
length field says. -/
def nextRecord (key : ObfKey) (stream : List UInt8) :
    Option (List UInt8 × List UInt8) :=
  let len := (loadLe16 (stream.drop 2)).toNat
  match obfDecryptRecord (some key) (some stream)
      (some (List.replicate len 0)) (some 0) none with
  | ⟨true, some plaintext, some _, _⟩ =>
      some (plaintext, stream.drop (LOGOBF_HEADER_BYTES + len))
  | _ => none

def parseRecords (key : ObfKey) (stream : List UInt8) :
    Option (List (List UInt8)) :=
  readAll (nextRecord key) stream.length stream

theorem encryptRecord_eq (key : ObfKey) (gen : NonceGen)
    {plaintext : List UInt8} (hlength : plaintext.length ≤ 0xffff) :
    encryptRecord key gen plaintext =
      some (recordBytes key (nonceGenNext gen).2 plaintext,
        (nonceGenNext gen).1) := by
  have hsize := obfCalcRecordSize_eq hlength
  have hrecord :=
    recordBytes_length key plaintext (nonceGenNext_length gen)
  have hencrypt :=
    obfEncryptRecord_eq key gen
      (List.replicate (obfCalcRecordSize plaintext.length) 0) 0
      hlength (by simp)
  simp only [encryptRecord, hencrypt]
  rw [List.take_left' (by omega)]

/-- A record is a self-delimiting frame for the length-field reader. -/
theorem encodes_recordBytes (key : ObfKey) {nonce plaintext : List UInt8}
    (hnonce : nonce.length = LOGOBF_NONCE_BYTES)
    (hlength : plaintext.length ≤ 0xffff) :
    Encodes (nextRecord key) (recordBytes key nonce plaintext) plaintext := by
  have hrecord := recordBytes_length key plaintext hnonce
  constructor
  · apply List.ne_nil_of_length_pos
    rw [hrecord, LOGOBF_HEADER_BYTES]
    omega
  · intro rest
    have hlen := loadLe16_length_recordBytes key nonce rest hlength
    have hdecrypt :=
      obfDecryptRecord_recordBytes key
        (List.replicate plaintext.length 0) rest 0 none hnonce
        hlength (by simp)
    simp only [nextRecord, hlen, hdecrypt]
    rw [List.drop_left' hrecord]
    simp

theorem encryptRecords_frames (key : ObfKey) (gen : NonceGen)
    (plaintexts : List (List UInt8))
    (hlength : ∀ plaintext ∈ plaintexts, plaintext.length ≤ 0xffff) :
    ∃ records, encryptRecords key gen plaintexts = some records ∧
      List.Forall₂ (Encodes (nextRecord key)) records plaintexts := by
  induction plaintexts generalizing gen with
  | nil => exact ⟨[], rfl, .nil⟩
  | cons plaintext rest ih =>
      have hhead : plaintext.length ≤ 0xffff := hlength plaintext (by simp)
      rcases ih (nonceGenNext gen).1
          (fun p hp => hlength p (List.mem_cons_of_mem _ hp)) with
        ⟨records, hrecords, hframes⟩
      refine ⟨recordBytes key (nonceGenNext gen).2 plaintext :: records,
        ?_, ?_⟩
      · simp [encryptRecords, encryptRecord_eq key gen hhead, hrecords]
      · exact .cons
          (encodes_recordBytes key (nonceGenNext_length gen) hhead) hframes

/-! ## Failure -/

/-- A record that does not fit its buffer is not written at all, and the
nonce is not used up. -/
theorem obfEncryptRecord_too_small (key : Option ObfKey)
    (gen : Option NonceGen) (plaintext buffer : List UInt8) (len : Option Nat)
    (hsmall : buffer.length < LOGOBF_HEADER_BYTES + plaintext.length) :
    obfEncryptRecord key gen plaintext (some buffer) len =
      ⟨false, gen, some buffer, len⟩ := by
  unfold obfEncryptRecord
  split
  next key gen buffer' len hbuffer =>
    rcases hbuffer with ⟨rfl⟩
    dsimp only
    split_ifs with hlong hneed
    · rfl
    · rfl
    · rw [obfCalcRecordSize_eq (by omega)] at hneed
      omega
  next => rfl

/-- A record whose length field promises more than the input or than the
buffer for the text holds is not opened at all. -/
theorem obfDecryptRecord_too_small (key : Option ObfKey)
    (record buffer : List UInt8) (len : Option Nat)
    (outNonce : Option (List UInt8))
    (hsmall :
      record.length <
          LOGOBF_HEADER_BYTES + (loadLe16 (record.drop 2)).toNat ∨
        buffer.length < (loadLe16 (record.drop 2)).toNat) :
    obfDecryptRecord key (some record) (some buffer) len outNonce =
      ⟨false, some buffer, len, outNonce⟩ := by
  unfold obfDecryptRecord
  split
  next key record' buffer' len hrecord hbuffer =>
    rcases hrecord with ⟨rfl⟩
    rcases hbuffer with ⟨rfl⟩
    dsimp only
    split_ifs with hheader hsig hrecord hbuffer
    · rfl
    · rfl
    · rfl
    · rfl
    · omega
  next => rfl

/-! ## The round trip -/

theorem obfuscation_round_trip (key : ObfKey) :
    (∀ (gen : NonceGen) (plaintext outRecord : List UInt8) (outLen : Nat),
      plaintext.length ≤ 0xffff →
        obfCalcRecordSize plaintext.length ≤ outRecord.length →
          ∃ record,
            obfEncryptRecord (some key) (some gen) plaintext (some outRecord)
                (some outLen) =
              ⟨true, some (nonceGenNext gen).1,
                some (record ++ outRecord.drop record.length),
                some record.length⟩ ∧
            record.length =
              LOGOBF_HEADER_BYTES + (loadLe16 (record.drop 2)).toNat ∧
            ∀ (rest outPlaintext : List UInt8) (plainLen : Nat)
                (outNonce : Option (List UInt8)),
              plaintext.length ≤ outPlaintext.length →
                obfDecryptRecord (some key) (some (record ++ rest))
                    (some outPlaintext) (some plainLen) outNonce =
                  ⟨true, some (plaintext ++ outPlaintext.drop plaintext.length),
                    some plaintext.length,
                    outNonce.map fun _ => (nonceGenNext gen).2⟩) ∧
    (∀ (gen : NonceGen) (plaintexts : List (List UInt8)),
      (∀ plaintext ∈ plaintexts, plaintext.length ≤ 0xffff) →
        ∃ records, encryptRecords key gen plaintexts = some records ∧
          parseRecords key records.flatten = some plaintexts) ∧
    (∀ (gen : Option NonceGen) (plaintext outRecord : List UInt8)
        (outLen : Option Nat),
      outRecord.length < LOGOBF_HEADER_BYTES + plaintext.length →
        obfEncryptRecord (some key) gen plaintext (some outRecord) outLen =
          ⟨false, gen, some outRecord, outLen⟩) ∧
    (∀ (record outPlaintext : List UInt8) (plainLen : Option Nat)
        (outNonce : Option (List UInt8)),
      record.length <
            LOGOBF_HEADER_BYTES + (loadLe16 (record.drop 2)).toNat ∨
          outPlaintext.length < (loadLe16 (record.drop 2)).toNat →
        obfDecryptRecord (some key) (some record) (some outPlaintext) plainLen
            outNonce =
          ⟨false, some outPlaintext, plainLen, outNonce⟩) := by
  refine ⟨?_, ?_, ?_, ?_⟩
  · intro gen plaintext outRecord outLen hlength hbuffer
    have hnonce := nonceGenNext_length gen
    have hsize := obfCalcRecordSize_eq hlength
    have hrecord := recordBytes_length key plaintext hnonce
    have hfield :=
      loadLe16_length_recordBytes key (nonceGenNext gen).2 [] hlength
    rw [List.append_nil] at hfield
    refine ⟨recordBytes key (nonceGenNext gen).2 plaintext, ?_, ?_, ?_⟩
    · rw [obfEncryptRecord_eq key gen _ outLen hlength hbuffer, hrecord, hsize]
    · rw [hrecord, hfield]
    · intro rest outPlaintext plainLen outNonce hplain
      exact obfDecryptRecord_recordBytes key _ rest plainLen outNonce hnonce
        hlength hplain
  · intro gen plaintexts hlength
    rcases encryptRecords_frames key gen plaintexts hlength with
      ⟨records, hrecords, hframes⟩
    exact ⟨records, hrecords,
      readAll_frames hframes (frames_length_le hframes)⟩
  · intro gen plaintext outRecord outLen hsmall
    exact obfEncryptRecord_too_small (some key) gen plaintext outRecord outLen
      hsmall
  · intro record outPlaintext plainLen outNonce hsmall
    exact obfDecryptRecord_too_small (some key) record outPlaintext plainLen
      outNonce hsmall

/-- An empty text and a text of three bytes under the zero key. -/
theorem obfuscation_round_trip_two_texts :
    ∃ records,
      encryptRecords ⟨List.replicate 32 0, by decide⟩ ⟨0, 0x0A0A0A0A⟩
          [[], [0x6c, 0x6f, 0x67]] = some records ∧
        parseRecords ⟨List.replicate 32 0, by decide⟩ records.flatten =
          some [[], [0x6c, 0x6f, 0x67]] :=
  (obfuscation_round_trip ⟨List.replicate 32 0, by decide⟩).2.1
    ⟨0, 0x0A0A0A0A⟩ [[], [0x6c, 0x6f, 0x67]] (by decide)

end Logme
