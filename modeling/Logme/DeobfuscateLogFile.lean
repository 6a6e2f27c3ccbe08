import Logme.ObfuscateRoundTrip

/-!
# Converting an obfuscated log file

`DeobfuscateLogFile` reads records from a stream until the end of the file
and writes their texts to a temporary file.  The file operations themselves
are taken to succeed; a file is its content, `none` when it does not exist.

The loop tells the end of the file from a partial header by the return value
of `ReadLe16FromFile`, which is the same for both, so a file of whole records
and one stray byte is accepted.  Apart from that it accepts exactly the
concatenations of whole records.
-/

namespace Logme

open FramedStream

/-! ## The loop over the stream -/

/-- `false` stands both for the end of the file and for a single byte. -/
def readLe16FromFile (f : List UInt8) : Option (UInt16 × List UInt8) :=
  match f with
  | b0 :: b1 :: rest => some (loadLe16 [b0, b1], rest)
  | _ => none

def readExact (f : List UInt8) (len : Nat) :
    Option (List UInt8 × List UInt8) :=
  if f.length < len then none else some (f.take len, f.drop len)

/-- The record loop.  A record takes at least one byte, so the length of the
stream bounds the number of iterations. -/
def decodeLoop (key : ObfKey) : Nat → List UInt8 → Option (List UInt8)
  | 0, _ => none
  | bound + 1, f =>
      match readLe16FromFile f with
      | none => some []
      | some (sig, f) =>
          if sig ≠ LOGOBF_SIGNATURE then none
          else
            match readLe16FromFile f with
            | none => none
            | some (plainLen16, f) =>
                let plainLen := plainLen16.toNat
                let recordLen := LOGOBF_HEADER_BYTES + plainLen
                match readExact f (recordLen - 4) with
                | none => none
                | some (body, f) =>
                    let record := storeLe16 sig ++ storeLe16 plainLen16 ++ body
                    let cap := if plainLen ≤ 4 * 1024 then 4 * 1024 else plainLen
                    match obfDecryptRecord (some key) (some record)
                        (some (List.replicate cap 0)) (some 0)
                        (some (List.replicate LOGOBF_NONCE_BYTES 0)) with
                    | ⟨true, some buffer, some outLen, _⟩ =>
                        -- the peek at the next two bytes
                        if 2 ≤ f.length ∧ loadLe16 f ≠ LOGOBF_SIGNATURE then
                          none
                        else (decodeLoop key bound f).map (buffer.take outLen ++ ·)
                    | _ => none

/-- `out` is the content of the output path before the call; in place it is
the input file itself. -/
def deobfuscateLogFile (key : Option ObfKey) (overwrite : Bool)
    (input : List UInt8) (out : Option (List UInt8)) :
    Bool × Option (List UInt8) :=
  match key with
  | none => (false, out)
  | some key =>
      match readLe16FromFile input with
      | none => (true, out)
      | some (sig0, _) =>
          if sig0 ≠ 0xA55A then (true, if overwrite then out else some input)
          else
            match decodeLoop key (input.length + 1) input with
            | none => (false, if overwrite then out else none)
            | some text => (true, some text)

def startsWithSignature (input : List UInt8) : Prop :=
  ∃ rest, readLe16FromFile input = some (LOGOBF_SIGNATURE, rest)

/-- `record` is as long as its length field says and `ObfDecryptRecord`
opens it with the result `plaintext`. -/
def WholeRecord (key : ObfKey) (record plaintext : List UInt8) : Prop :=
  record.length =
      LOGOBF_HEADER_BYTES + (loadLe16 (record.drop 2)).toNat ∧
    obfDecryptRecord (some key) (some record)
        (some (List.replicate plaintext.length 0)) (some 0) none =
      ⟨true, some plaintext, some plaintext.length, none⟩

/-! ## What `ObfDecryptRecord` accepts -/

/-- The number of bytes that the length field promises. -/
def recordSize (record : List UInt8) : Nat :=
  LOGOBF_HEADER_BYTES + (loadLe16 (record.drop 2)).toNat

def Opens (record : List UInt8) : Prop :=
  loadLe16 record = LOGOBF_SIGNATURE ∧ recordSize record ≤ record.length

instance (record : List UInt8) : Decidable (Opens record) :=
  inferInstanceAs (Decidable (_ ∧ _))

def recordText (key : ObfKey) (record : List UInt8) : List UInt8 :=
  chaCha20Xor key ((record.drop 4).take LOGOBF_NONCE_BYTES) 1
    ((record.drop LOGOBF_HEADER_BYTES).take
      (loadLe16 (record.drop 2)).toNat)

theorem recordText_length (key : ObfKey) {record : List UInt8}
    (h : recordSize record ≤ record.length) :
    (recordText key record).length = (loadLe16 (record.drop 2)).toNat := by
  simp only [recordSize] at h
  simp only [recordText, chaCha20Xor_length, List.length_take,
    List.length_drop]
  omega

theorem obfDecryptRecord_eq (key : ObfKey) (record buffer : List UInt8)
    (len : Nat) (outNonce : Option (List UInt8)) :
    obfDecryptRecord (some key) (some record) (some buffer) (some len)
        outNonce =
      if Opens record ∧
          (loadLe16 (record.drop 2)).toNat ≤ buffer.length then
        ⟨true,
          some (recordText key record ++
            buffer.drop (loadLe16 (record.drop 2)).toNat),
          some (loadLe16 (record.drop 2)).toNat,
          outNonce.map fun _ => (record.drop 4).take LOGOBF_NONCE_BYTES⟩
      else ⟨false, some buffer, some len, outNonce⟩ := by
  by_cases hopens : Opens record
  · have hsig := hopens.1
    have hsize := hopens.2
    simp only [recordSize] at hsize
    by_cases hbuffer : (loadLe16 (record.drop 2)).toNat ≤ buffer.length
    · rw [if_pos ⟨hopens, hbuffer⟩]
      simp only [obfDecryptRecord, recordText]
      rw [if_neg (by omega), if_neg (by simp [hsig]), if_neg (by omega),
        if_neg (by omega)]
    · rw [if_neg (fun h => hbuffer h.2)]
      exact obfDecryptRecord_too_small _ _ _ _ _ (.inr (by omega))
  · rw [if_neg (fun h => hopens h.1)]
    by_cases hsize : recordSize record ≤ record.length
    · have hsig : loadLe16 record ≠ LOGOBF_SIGNATURE := fun h =>
        hopens ⟨h, hsize⟩
      simp only [obfDecryptRecord]
      split_ifs <;> rfl
    · simp only [recordSize] at hsize
      exact obfDecryptRecord_too_small _ _ _ _ _ (.inl (by omega))

theorem nextRecord_eq (key : ObfKey) (stream : List UInt8) :
    nextRecord key stream =
      if Opens stream then
        some (recordText key stream, stream.drop (recordSize stream))
      else none := by
  simp only [nextRecord, obfDecryptRecord_eq, List.length_replicate]
  by_cases hopens : Opens stream
  · simp [hopens, recordSize]
  · simp [hopens]

theorem loadLe16_append {p : List UInt8} (rest : List UInt8)
    (h : 2 ≤ p.length) : loadLe16 (p ++ rest) = loadLe16 p := by
  have h0 : 0 < p.length := by omega
  have h1 : 1 < p.length := by omega
  simp [loadLe16, List.getD_eq_getElem?_getD, List.getElem?_append_left, h0, h1]

/-- Only the promised bytes of a record matter. -/
theorem recordText_append (key : ObfKey) (record : List UInt8)
    (rest : List UInt8) (h : recordSize record ≤ record.length) :
    recordSize (record ++ rest) = recordSize record ∧
      (Opens (record ++ rest) ↔ Opens record) ∧
      recordText key (record ++ rest) = recordText key record := by
  have hlong : LOGOBF_HEADER_BYTES ≤ record.length :=
    Nat.le_trans (Nat.le_add_right _ _) h
  simp only [LOGOBF_HEADER_BYTES, LOGOBF_NONCE_BYTES] at hlong
  have hfield :
      loadLe16 ((record ++ rest).drop 2) = loadLe16 (record.drop 2) := by
    rw [List.drop_append_of_le_length (by omega)]
    exact loadLe16_append rest (by rw [List.length_drop]; omega)
  have hsig : loadLe16 (record ++ rest) = loadLe16 record :=
    loadLe16_append rest (by omega)
  have hsize : recordSize (record ++ rest) = recordSize record := by
    simp only [recordSize, hfield]
  refine ⟨hsize, ?_, ?_⟩
  · simp only [Opens, hsize, hsig, List.length_append]
    constructor
    · intro hopens
      exact ⟨hopens.1, h⟩
    · intro hopens
      exact ⟨hopens.1, by omega⟩
  · simp only [recordSize, LOGOBF_HEADER_BYTES, LOGOBF_NONCE_BYTES] at h
    simp only [recordText, hfield, LOGOBF_HEADER_BYTES, LOGOBF_NONCE_BYTES]
    rw [List.drop_append_of_le_length (by omega),
      List.drop_append_of_le_length (by omega),
      List.take_append_of_le_length (by rw [List.length_drop]; omega),
      List.take_append_of_le_length (by rw [List.length_drop]; omega)]

/-- A stream that is exactly one openable record is a frame. -/
theorem encodes_of_opens (key : ObfKey) {record : List UInt8}
    (hopens : Opens record) (hsize : recordSize record = record.length) :
    Encodes (nextRecord key) record (recordText key record) := by
  constructor
  · intro hnil
    rw [hnil] at hsize
    simp [recordSize, LOGOBF_HEADER_BYTES] at hsize
  · intro rest
    have happend := recordText_append key _ rest hopens.2
    rw [nextRecord_eq, if_pos (happend.2.1.mpr hopens), happend.1,
      happend.2.2, hsize, List.drop_left]

/-- A prefix that promises no more than its own length decides what is read. -/
theorem recordText_take (key : ObfKey) {stream : List UInt8}
    (h : Opens stream) :
    recordSize (stream.take (recordSize stream)) = recordSize stream ∧
      Opens (stream.take (recordSize stream)) ∧
      recordText key (stream.take (recordSize stream)) =
        recordText key stream := by
  have htake : (stream.take (recordSize stream)).length = recordSize stream :=
    List.length_take_of_le h.2
  have hsplit := List.take_append_drop (recordSize stream) stream
  have hlong : 4 ≤ recordSize stream := by
    simp only [recordSize, LOGOBF_HEADER_BYTES]
    omega
  have hfield :
      loadLe16 ((stream.take (recordSize stream)).drop 2) =
        loadLe16 (stream.drop 2) := by
    conv_rhs => rw [← hsplit]
    rw [List.drop_append_of_le_length (by omega)]
    exact (loadLe16_append _ (by rw [List.length_drop]; omega)).symm
  have hsize :
      recordSize (stream.take (recordSize stream)) = recordSize stream := by
    simp only [recordSize] at hfield ⊢
    rw [hfield]
  have happend :=
    recordText_append key (stream.take (recordSize stream))
      (stream.drop (recordSize stream)) (by omega)
  rw [hsplit] at happend
  exact ⟨hsize, happend.2.1.mp h, happend.2.2.symm⟩

theorem nextRecord_selfDelimiting (key : ObfKey) :
    SelfDelimiting (nextRecord key) := by
  intro stream x rest hnext
  rw [nextRecord_eq] at hnext
  by_cases hopens : Opens stream
  · rw [if_pos hopens] at hnext
    simp only [Option.some.injEq, Prod.mk.injEq] at hnext
    rcases hnext with ⟨rfl, rfl⟩
    rcases recordText_take key hopens with ⟨hsize, hfront, htext⟩
    refine ⟨stream.take (recordSize stream),
      (List.take_append_drop _ _).symm, ?_⟩
    have hencodes := encodes_of_opens key hfront (by
      rw [hsize, List.length_take_of_le hopens.2])
    rwa [htext] at hencodes
  · simp [if_neg hopens] at hnext

theorem wholeRecord_iff_encodes (key : ObfKey)
    (record plaintext : List UInt8) :
    WholeRecord key record plaintext ↔
      Encodes (nextRecord key) record plaintext := by
  constructor
  · intro hwhole
    rcases hwhole with ⟨hsize, hdecrypt⟩
    rw [obfDecryptRecord_eq] at hdecrypt
    split_ifs at hdecrypt with hopens
    · simp only [DecryptResult.mk.injEq, Option.some.injEq] at hdecrypt
      rcases hdecrypt with ⟨-, htext, hlen, -⟩
      have hencodes := encodes_of_opens key hopens.1 hsize.symm
      rw [hlen] at htext
      simp only [List.drop_replicate, Nat.sub_self, List.replicate_zero,
        List.append_nil] at htext
      rwa [htext] at hencodes
    · simp at hdecrypt
  · intro hencodes
    have hnext := hencodes.next_append []
    rw [List.append_nil, nextRecord_eq] at hnext
    split_ifs at hnext with hopens
    simp only [Option.some.injEq, Prod.mk.injEq] at hnext
    rcases hnext with ⟨rfl, hrest⟩
    have hsize : record.length = recordSize record :=
      Nat.le_antisymm (List.drop_eq_nil_iff.mp hrest) hopens.2
    have hlength := recordText_length key hopens.2
    refine ⟨hsize, ?_⟩
    rw [obfDecryptRecord_eq, if_pos ⟨hopens, by simp [hlength]⟩, ← hlength]
    simp

/-! ## What the loop accepts -/

/-- The record that the loop rebuilds from its fields is the front of the
stream. -/
theorem rebuilt_record (b0 b1 b2 b3 : UInt8) (f : List UInt8) (n : Nat) :
    storeLe16 (loadLe16 [b0, b1]) ++ storeLe16 (loadLe16 [b2, b3]) ++
      f.take n = (b0 :: b1 :: b2 :: b3 :: f).take (n + 4) := by
  simp [storeLe16_loadLe16]

/-- The call made by the loop for a record that opens. -/
theorem obfDecryptRecord_front (key : ObfKey) {f : List UInt8}
    (buffer : List UInt8)
    (outNonce : Option (List UInt8)) (hopens : Opens f)
    (hbuffer : (loadLe16 (f.drop 2)).toNat ≤ buffer.length) :
    ∃ nonce,
      obfDecryptRecord (some key) (some (f.take (recordSize f)))
          (some buffer) (some 0) outNonce =
        ⟨true, some (recordText key f ++
            buffer.drop (loadLe16 (f.drop 2)).toNat),
          some (loadLe16 (f.drop 2)).toNat, nonce⟩ := by
  rcases recordText_take key hopens with ⟨hsize, hfront, htext⟩
  have hlen :
      (loadLe16 ((f.take (recordSize f)).drop 2)).toNat =
        (loadLe16 (f.drop 2)).toNat := by
    simp only [recordSize] at hsize ⊢
    omega
  rw [obfDecryptRecord_eq, hlen, if_pos ⟨hfront, hbuffer⟩, htext]
  exact ⟨_, rfl⟩

/-- What is read behind the header completes a record that opens. -/
theorem obfDecryptRecord_read (key : ObfKey) {b0 b1 b2 b3 : UInt8} {body : List UInt8}
    (hopens : Opens (b0 :: b1 :: b2 :: b3 :: body)) :
    ∃ front buffer nonce,
      readExact body (LOGOBF_HEADER_BYTES + (loadLe16 [b2, b3]).toNat - 4) =
          some (front, (b0 :: b1 :: b2 :: b3 :: body).drop
            (recordSize (b0 :: b1 :: b2 :: b3 :: body))) ∧
        obfDecryptRecord (some key)
            (some (storeLe16 (loadLe16 [b0, b1]) ++ storeLe16 (loadLe16 [b2, b3]) ++ front))
            (some (List.replicate
              (if (loadLe16 [b2, b3]).toNat ≤ 4 * 1024 then 4 * 1024
                else (loadLe16 [b2, b3]).toNat) 0)) (some 0)
            (some (List.replicate LOGOBF_NONCE_BYTES 0)) =
          ⟨true, some buffer, some (loadLe16 [b2, b3]).toNat, nonce⟩ ∧
        buffer.take (loadLe16 [b2, b3]).toNat =
          recordText key (b0 :: b1 :: b2 :: b3 :: body) := by
  have hfield :
      loadLe16 ((b0 :: b1 :: b2 :: b3 :: body).drop 2) = loadLe16 [b2, b3] := rfl
  have hneed :
      LOGOBF_HEADER_BYTES + (loadLe16 [b2, b3]).toNat - 4 + 4 =
        recordSize (b0 :: b1 :: b2 :: b3 :: body) := by
    rw [recordSize, hfield, LOGOBF_HEADER_BYTES]
    omega
  have hfits := hopens.2
  simp only [List.length_cons] at hfits
  rcases obfDecryptRecord_front key
      (List.replicate
        (if (loadLe16 [b2, b3]).toNat ≤ 4 * 1024 then 4 * 1024
          else (loadLe16 [b2, b3]).toNat) 0)
      (some (List.replicate LOGOBF_NONCE_BYTES 0)) hopens
      (by rw [hfield, List.length_replicate]; split_ifs <;> omega) with
    ⟨nonce, hdecrypt⟩
  rw [hfield] at hdecrypt
  refine ⟨body.take (LOGOBF_HEADER_BYTES + (loadLe16 [b2, b3]).toNat - 4), _, nonce, ?_,
    Eq.trans ?_ hdecrypt, ?_⟩
  · rw [readExact, if_neg (by omega), ← hneed]
    rfl
  · rw [rebuilt_record, hneed]
  · exact List.take_left' (recordText_length key hopens.2)

/-- The bytes behind the header of a record that does not open are missing. -/
theorem readExact_none {b0 b1 b2 b3 : UInt8} {body : List UInt8}
    (hsig : loadLe16 [b0, b1] = LOGOBF_SIGNATURE)
    (hopens : ¬ Opens (b0 :: b1 :: b2 :: b3 :: body)) :
    readExact body (LOGOBF_HEADER_BYTES + (loadLe16 [b2, b3]).toNat - 4) = none := by
  have hlong : ¬ recordSize (b0 :: b1 :: b2 :: b3 :: body) ≤ body.length + 4 :=
    fun hsize => hopens ⟨hsig, hsize⟩
  have hfield :
      loadLe16 ((b0 :: b1 :: b2 :: b3 :: body).drop 2) = loadLe16 [b2, b3] := rfl
  rw [recordSize, hfield] at hlong
  simp only [LOGOBF_HEADER_BYTES] at hlong ⊢
  rw [readExact, if_pos (by omega)]

/-- No record opens without its header. -/
theorem not_opens_short {f : List UInt8} (h : f.length < 4) : ¬ Opens f := by
  intro hopens
  have hsize := hopens.2
  simp only [recordSize, LOGOBF_HEADER_BYTES] at hsize
  omega

/-- One iteration of the loop, in terms of the record at the front. -/
theorem decodeLoop_succ (key : ObfKey) (bound : Nat) (f : List UInt8) :
    decodeLoop key (bound + 1) f =
      if f.length ≤ 1 then some []
      else
        match nextRecord key f with
        | none => none
        | some (text, rest) =>
            if 2 ≤ rest.length ∧ loadLe16 rest ≠ LOGOBF_SIGNATURE then none
            else (decodeLoop key bound rest).map (text ++ ·) := by
  match f with
  | [] => rfl
  | [_] => rfl
  | [b0, b1] =>
      rw [nextRecord_eq, if_neg (not_opens_short (by simp))]
      simp [decodeLoop, readLe16FromFile]
  | [b0, b1, b2] =>
      rw [nextRecord_eq, if_neg (not_opens_short (by simp))]
      simp [decodeLoop, readLe16FromFile]
  | b0 :: b1 :: b2 :: b3 :: body =>
      rw [nextRecord_eq, if_neg (by simp)]
      simp only [decodeLoop, readLe16FromFile]
      by_cases hopens : Opens (b0 :: b1 :: b2 :: b3 :: body)
      · have hsig : loadLe16 [b0, b1] = LOGOBF_SIGNATURE := hopens.1
        obtain ⟨front, buffer, nonce, hread, hdecrypt, htext⟩ :=
          obfDecryptRecord_read key hopens
        rw [if_pos hopens, if_neg (by simp [hsig])]
        simp only [hread, hdecrypt, htext]
      · rw [if_neg hopens]
        by_cases hsignature : loadLe16 [b0, b1] = LOGOBF_SIGNATURE
        · rw [if_neg (by simp [hsignature]), readExact_none hsignature hopens]
        · rw [if_pos hsignature]

theorem nextRecord_short (key : ObfKey) {tail : List UInt8}
    (h : tail.length ≤ 1) : nextRecord key tail = none := by
  rw [nextRecord_eq, if_neg]
  intro hopens
  have hsize := hopens.2
  simp only [recordSize, LOGOBF_HEADER_BYTES] at hsize
  omega

theorem nextRecord_rest_length (key : ObfKey) {f text rest : List UInt8}
    (h : nextRecord key f = some (text, rest)) : rest.length < f.length := by
  rcases nextRecord_selfDelimiting key f text rest h with ⟨frame, rfl, hframe⟩
  have hpos := List.length_pos_iff.mpr hframe.ne_nil
  rw [List.length_append]
  omega

/-- The loop succeeds when records can be read until at most one byte is
left; the peek refuses nothing that the next iteration would accept. -/
theorem decodeLoop_iff (key : ObfKey) {bound : Nat} {f text : List UInt8}
    (hbound : f.length < bound) :
    decodeLoop key bound f = some text ↔
      ∃ texts tail, Reads (nextRecord key) f texts tail ∧
        tail.length ≤ 1 ∧ text = texts.flatten := by
  induction bound generalizing f text with
  | zero => omega
  | succ bound ih =>
      rw [decodeLoop_succ]
      by_cases hshort : f.length ≤ 1
      · rw [if_pos hshort]
        constructor
        · intro htext
          simp only [Option.some.injEq] at htext
          exact ⟨[], f, .stop f, hshort, htext.symm⟩
        · intro hreads
          rcases hreads with ⟨texts, tail, hreads, -, rfl⟩
          cases hreads with
          | stop => rfl
          | frame hhead _ => simp [nextRecord_short key hshort] at hhead
      · rw [if_neg hshort]
        cases hnext : nextRecord key f with
        | none =>
            constructor
            · intro htext
              simp at htext
            · intro hreads
              rcases hreads with ⟨texts, tail, hreads, htail, -⟩
              cases hreads with
              | stop => exact absurd htail hshort
              | frame hhead _ => simp [hnext] at hhead
        | some found =>
            rcases found with ⟨head, rest⟩
            have hless := nextRecord_rest_length key hnext
            simp only []
            constructor
            · intro htext
              split_ifs at htext with hpeek
              rw [Option.map_eq_some_iff] at htext
              rcases htext with ⟨others, hothers, rfl⟩
              rcases (ih (by omega)).mp hothers with
                ⟨texts, tail, hreads, htail, rfl⟩
              exact ⟨head :: texts, tail, .frame hnext hreads, htail, rfl⟩
            · intro hreads
              rcases hreads with ⟨texts, tail, hreads, htail, rfl⟩
              cases hreads with
              | stop => exact absurd htail hshort
              | @frame _ rest' _ head' texts hhead hothers =>
                  rw [hnext] at hhead
                  simp only [Option.some.injEq, Prod.mk.injEq] at hhead
                  rcases hhead with ⟨rfl, rfl⟩
                  have hpeek :
                      ¬ (2 ≤ rest.length ∧ loadLe16 rest ≠ LOGOBF_SIGNATURE) := by
                    intro hbad
                    cases hothers with
                    | stop => omega
                    | frame hhead _ =>
                        rw [nextRecord_eq] at hhead
                        split_ifs at hhead with hopens
                        exact hbad.2 hopens.1
                  rw [if_neg hpeek,
                    (@ih rest texts.flatten (by omega)).mpr
                      ⟨texts, tail, hothers, htail, rfl⟩]
                  simp

/-! ## What the conversion accepts -/

/-- The input is one or more whole records followed by `tail`. -/
def WholeRecordsThen (key : ObfKey) (input : List UInt8)
    (texts : List (List UInt8)) (tail : List UInt8) : Prop :=
  ∃ records, records ≠ [] ∧ List.Forall₂ (WholeRecord key) records texts ∧
    input = records.flatten ++ tail

/-- The conversion succeeds exactly on concatenations of whole records, with
the concatenation of their texts. -/
def AcceptsExactlyWholeRecords (key : ObfKey) (overwrite : Bool)
    (input : List UInt8) (out : Option (List UInt8)) : Prop :=
  (∀ text, deobfuscateLogFile (some key) overwrite input out =
      (true, some text) ↔
    ∃ texts, WholeRecordsThen key input texts [] ∧ text = texts.flatten) ∧
  ((deobfuscateLogFile (some key) overwrite input out).1 = true ↔
    ∃ texts, WholeRecordsThen key input texts [])

theorem reads_of_wholeRecordsThen {key : ObfKey} {input tail : List UInt8}
    {texts : List (List UInt8)} (h : WholeRecordsThen key input texts tail) :
    Reads (nextRecord key) input texts tail := by
  rcases h with ⟨records, -, hrecords, rfl⟩
  exact Reads.of_frames
    (hrecords.imp fun record text => (wholeRecord_iff_encodes key record text).mp)
    tail

theorem wholeRecordsThen_of_reads {key : ObfKey} {input tail : List UInt8}
    {texts : List (List UInt8)} (h : Reads (nextRecord key) input texts tail)
    (hlong : tail.length < input.length) :
    WholeRecordsThen key input texts tail := by
  rcases h.frames (nextRecord_selfDelimiting key) with
    ⟨records, hrecords, rfl⟩
  refine ⟨records, ?_, hrecords.imp fun record text =>
    (wholeRecord_iff_encodes key record text).mpr, rfl⟩
  rintro rfl
  simp at hlong

/-- After the signature test the conversion is the record loop. -/
theorem deobfuscateLogFile_signed (key : ObfKey) (overwrite : Bool)
    {input : List UInt8} (out : Option (List UInt8))
    (hsig : startsWithSignature input) :
    deobfuscateLogFile (some key) overwrite input out =
      match decodeLoop key (input.length + 1) input with
      | none => (false, if overwrite then out else none)
      | some text => (true, some text) := by
  rcases hsig with ⟨rest, hread⟩
  simp only [deobfuscateLogFile, hread]
  rw [if_neg (by decide)]

theorem startsWithSignature_length {input : List UInt8}
    (hsig : startsWithSignature input) : 2 ≤ input.length := by
  rcases hsig with ⟨rest, hread⟩
  match input with
  | [] => simp [readLe16FromFile] at hread
  | [_] => simp [readLe16FromFile] at hread
  | _ :: _ :: _ => simp

/-- The conversion of a signed input succeeds when whole records are followed
by at most one byte. -/
theorem deobfuscateLogFile_iff (key : ObfKey) (overwrite : Bool)
    {input : List UInt8} (out : Option (List UInt8))
    (hsig : startsWithSignature input) (text : List UInt8) :
    deobfuscateLogFile (some key) overwrite input out = (true, some text) ↔
      ∃ texts tail, WholeRecordsThen key input texts tail ∧
        tail.length ≤ 1 ∧ text = texts.flatten := by
  have hlong := startsWithSignature_length hsig
  have hloop :
      deobfuscateLogFile (some key) overwrite input out = (true, some text) ↔
        decodeLoop key (input.length + 1) input = some text := by
    rw [deobfuscateLogFile_signed key overwrite out hsig]
    cases decodeLoop key (input.length + 1) input <;> simp
  rw [hloop, decodeLoop_iff key (Nat.lt_succ_self _)]
  constructor
  · intro h
    rcases h with ⟨texts, tail, hreads, htail, rfl⟩
    exact ⟨texts, tail, wholeRecordsThen_of_reads hreads (by omega), htail, rfl⟩
  · intro h
    rcases h with ⟨texts, tail, hwhole, htail, rfl⟩
    exact ⟨texts, tail, reads_of_wholeRecordsThen hwhole, htail, rfl⟩

theorem deobfuscateLogFile_accepts_iff (key : ObfKey) (overwrite : Bool)
    {input : List UInt8} (out : Option (List UInt8))
    (hsig : startsWithSignature input) :
    (deobfuscateLogFile (some key) overwrite input out).1 = true ↔
      ∃ text, deobfuscateLogFile (some key) overwrite input out =
        (true, some text) := by
  rw [deobfuscateLogFile_signed key overwrite out hsig]
  cases decodeLoop key (input.length + 1) input <;> simp

/-- A stray byte after whole records is accepted although the input is no
concatenation of whole records. -/
theorem not_acceptsExactly_of_stray {key : ObfKey} {overwrite : Bool}
    {input : List UInt8} {out : Option (List UInt8)}
    {texts : List (List UInt8)} {stray : UInt8}
    (hsig : startsWithSignature input)
    (hstray : WholeRecordsThen key input texts [stray]) :
    ¬ AcceptsExactlyWholeRecords key overwrite input out := by
  intro hexact
  have haccept :=
    (deobfuscateLogFile_iff key overwrite out hsig texts.flatten).mpr
      ⟨texts, [stray], hstray, by simp, rfl⟩
  rcases (hexact.1 texts.flatten).mp haccept with ⟨texts', hwhole, -⟩
  have hunique :=
    (reads_of_wholeRecordsThen hstray).unique
      (reads_of_wholeRecordsThen hwhole)
      (nextRecord_short key (by simp)) (nextRecord_short key (by simp))
  simp at hunique

/-- On an input that starts with the signature the conversion accepts exactly
the concatenations of whole records, unless the input is such a concatenation
followed by a single byte. -/
theorem accepts_whole_records_iff_no_stray_byte (key : ObfKey)
    (overwrite : Bool) (input : List UInt8) (out : Option (List UInt8))
    (hsig : startsWithSignature input) :
    AcceptsExactlyWholeRecords key overwrite input out ↔
      ¬ ∃ texts stray, WholeRecordsThen key input texts [stray] := by
  constructor
  · rintro hexact ⟨texts, stray, hstray⟩
    exact not_acceptsExactly_of_stray hsig hstray hexact
  · intro hnone
    have htext : ∀ text,
        deobfuscateLogFile (some key) overwrite input out =
            (true, some text) ↔
          ∃ texts, WholeRecordsThen key input texts [] ∧
            text = texts.flatten := by
      intro text
      rw [deobfuscateLogFile_iff key overwrite out hsig]
      constructor
      · rintro ⟨texts, tail, hwhole, htail, rfl⟩
        match tail with
        | [] => exact ⟨texts, hwhole, rfl⟩
        | [stray] => exact absurd ⟨texts, stray, hwhole⟩ hnone
        | _ :: _ :: _ => simp at htail
      · rintro ⟨texts, hwhole, rfl⟩
        exact ⟨texts, [], hwhole, by simp, rfl⟩
    refine ⟨htext, ?_⟩
    rw [deobfuscateLogFile_accepts_iff key overwrite out hsig]
    constructor
    · rintro ⟨text, haccept⟩
      rcases (htext text).mp haccept with ⟨texts, hwhole, -⟩
      exact ⟨texts, hwhole⟩
    · rintro ⟨texts, hwhole⟩
      exact ⟨texts.flatten, (htext _).mpr ⟨texts, hwhole, rfl⟩⟩

/-- One record of an empty text, and one more byte. -/
theorem stray_byte_is_accepted :
    ¬ ∀ (key : ObfKey) (overwrite : Bool) (input : List UInt8)
        (out : Option (List UInt8)), startsWithSignature input →
      AcceptsExactlyWholeRecords key overwrite input out := by
  intro hall
  let key : ObfKey := ⟨List.replicate 32 0, by decide⟩
  let record := recordBytes key (List.replicate 12 0) []
  have hwhole : WholeRecord key record [] :=
    (wholeRecord_iff_encodes key record []).mpr
      (encodes_recordBytes key rfl (by simp))
  have hstray : WholeRecordsThen key (record ++ [0x5A]) [[]] [0x5A] :=
    ⟨[record], by simp, .cons hwhole .nil, by simp⟩
  exact not_acceptsExactly_of_stray ⟨_, rfl⟩ hstray
    (hall key true (record ++ [0x5A]) none ⟨_, rfl⟩)

/-- One record of an empty text, and nothing after it. -/
theorem accepts_whole_records_iff_no_stray_byte_one_record :
    AcceptsExactlyWholeRecords ⟨List.replicate 32 0, by decide⟩ true
      (recordBytes ⟨List.replicate 32 0, by decide⟩ (List.replicate 12 0) [])
      none := by
  let key : ObfKey := ⟨List.replicate 32 0, by decide⟩
  let record := recordBytes key (List.replicate 12 0) []
  have hframe : Encodes (nextRecord key) record [] :=
    encodes_recordBytes key rfl (by simp)
  have hreads := Reads.of_frames (.cons hframe .nil) []
  refine (accepts_whole_records_iff_no_stray_byte key true record none
    ⟨_, rfl⟩).mpr ?_
  rintro ⟨texts, stray, hstray⟩
  have hunique := (reads_of_wholeRecordsThen hstray).unique
    (by simpa using hreads) (nextRecord_short key (by simp))
    (nextRecord_short key (by simp))
  simp at hunique

end Logme
