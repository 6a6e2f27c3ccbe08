import Mathlib.Data.List.Basic

/-!
# UTF-8

A text in UTF-8 is decoded by the core library; in the bytes of a text those
below 128 are characters of their own.
-/

namespace Unicode

/-- The characters of a text in UTF-8. -/
def decode (bytes : List UInt8) : Option (List Char) :=
  bytes.toByteArray.utf8Decode?.map Array.toList

theorem decode_eq_some_iff {bytes : List UInt8} {cs : List Char} :
    decode bytes = some cs ↔ bytes = cs.flatMap String.utf8EncodeChar := by
  constructor
  · intro h
    rcases Option.map_eq_some_iff.mp h with ⟨array, harray, rfl⟩
    have hsome : bytes.toByteArray.utf8Decode?.isSome := by simp [harray]
    have hencoded := ByteArray.utf8Encode_get_utf8Decode? (h := hsome)
    simp only [harray, Option.get_some, List.utf8Encode, List.toByteArray_inj] at hencoded
    exact hencoded.symm
  · rintro rfl
    have hdecoded := List.utf8Decode?_utf8Encode (l := cs)
    rw [List.utf8Encode] at hdecoded
    rw [decode, hdecoded]
    rfl

/-- A fact about bytes can be checked on all of them. -/
theorem forall_byte {P : UInt8 → Prop} (h : ∀ n < 256, P (UInt8.ofNat n)) (b : UInt8) :
    P b := by
  have hb := h b.toNat b.toNat_lt
  rwa [UInt8.ofNat_toNat] at hb

theorem not_ofNat_lt {n : Nat} (hlow : 0x80 ≤ n) (hhigh : n < 0x100) :
    ¬ UInt8.ofNat n < 0x80 := by
  rw [UInt8.lt_iff_toNat_lt, UInt8.toNat_ofNat']
  change ¬ n % 256 < 128
  omega

/-- A character is one byte below 128 or a run of bytes from 128 on. -/
theorem utf8EncodeChar_cases (c : Char) :
    (c.toNat < 0x80 ∧ String.utf8EncodeChar c = [UInt8.ofNat c.toNat]) ∨
      ∀ b ∈ String.utf8EncodeChar c, ¬ b < 0x80 := by
  unfold String.utf8EncodeChar
  by_cases hsmall : c.val.toNat ≤ 0x7F
  · left
    refine ⟨?_, by simp only [if_pos hsmall]; rfl⟩
    change c.val.toNat < 0x80
    omega
  · right
    simp only [if_neg hsmall]
    split
    · simp only [List.forall_mem_cons, List.not_mem_nil, IsEmpty.forall_iff, implies_true,
          and_true]
      exact ⟨not_ofNat_lt (by omega) (by omega), not_ofNat_lt (by omega) (by omega)⟩
    · split
      · simp only [List.forall_mem_cons, List.not_mem_nil, IsEmpty.forall_iff, implies_true,
          and_true]
        exact ⟨not_ofNat_lt (by omega) (by omega), not_ofNat_lt (by omega) (by omega),
          not_ofNat_lt (by omega) (by omega)⟩
      · simp only [List.forall_mem_cons, List.not_mem_nil, IsEmpty.forall_iff, implies_true,
          and_true]
        exact ⟨not_ofNat_lt (by omega) (by omega), not_ofNat_lt (by omega) (by omega),
          not_ofNat_lt (by omega) (by omega), not_ofNat_lt (by omega) (by omega)⟩

theorem toNat_ofNat_of_lt {n : Nat} (h : n < 0x80) : (UInt8.ofNat n).toNat = n :=
  Nat.mod_eq_of_lt (by omega)

theorem utf8EncodeChar_ofNat {n : Nat} (h : n < 0x80) :
    String.utf8EncodeChar (Char.ofNat n) = [UInt8.ofNat n] := by
  have hvalid : n.isValidChar := Or.inl (by omega)
  have hcode : (Char.ofNat n).val.toNat = n := by
    rw [Char.ofNat, dif_pos hvalid]
    rfl
  rw [String.utf8EncodeChar]
  simp only [hcode, if_pos (show n ≤ 0x7F by omega)]

/-- An ASCII byte is the character with that code. -/
theorem char_of_mem_decode {bytes : List UInt8} {cs : List Char}
    (h : decode bytes = some cs) {b : UInt8} (hb : b < 0x80) (hmem : b ∈ bytes) :
    Char.ofNat b.toNat ∈ cs := by
  rw [decode_eq_some_iff.mp h, List.mem_flatMap] at hmem
  rcases hmem with ⟨c, hc, hbyte⟩
  rcases utf8EncodeChar_cases c with ⟨hsmall, hencode⟩ | hlarge
  · rw [hencode, List.mem_singleton] at hbyte
    rwa [hbyte, toNat_ofNat_of_lt hsmall, Char.ofNat_toNat]
  · exact absurd hb (hlarge b hbyte)

theorem decode_ascii {bytes : List UInt8} (h : (bytes.all fun b => b < 0x80) = true) :
    decode bytes = some (bytes.map fun b => Char.ofNat b.toNat) := by
  rw [decode_eq_some_iff, List.flatMap_map]
  have hself : ∀ b ∈ bytes, String.utf8EncodeChar (Char.ofNat b.toNat) = [b] := by
    intro b hb
    have hascii : b < 0x80 := of_decide_eq_true (List.all_eq_true.mp h b hb)
    rw [utf8EncodeChar_ofNat (UInt8.lt_iff_toNat_lt.mp hascii), UInt8.ofNat_toNat]
  rw [List.flatMap_congr hself, List.flatMap_singleton']

end Unicode
