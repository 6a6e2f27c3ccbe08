import Logme.CmdLogs
import Logme.Library.Unicode
import Logme.Logmefmt

/-!
# Keys in base64

`logs download` encodes the bytes of a file, and `logmeobf` the bytes of a key,
which it also reads back.  The decoder checks a group of four characters once it
is complete, whatever stands behind it.
-/

namespace Logme.Logmeobf

open Logmefmt (isSpace)
open CmdLogs (base64Digit encodeBase64)

/-! ## The encoder -/

def base64Encode : List UInt8 → List UInt8
  | [] => []
  | a :: data =>
      let v := a.toNat * 2 ^ 16 + (data.headD 0).toNat * 2 ^ 8 + (data.tail.headD 0).toNat
      base64Digit (v / 2 ^ 18) :: base64Digit (v / 2 ^ 12) ::
        (if 1 < (a :: data).length then base64Digit (v / 2 ^ 6) else 0x3D) ::
        (if 2 < (a :: data).length then base64Digit v else 0x3D) ::
        base64Encode (data.drop 2)
  termination_by data => data.length
  decreasing_by
    simp only [List.length_drop, List.length_cons]
    omega

/-! ## The decoder -/

def base64Value (c : UInt8) : Int :=
  if 0x41 ≤ c ∧ c ≤ 0x5A then c.toNat - 0x41
  else if 0x61 ≤ c ∧ c ≤ 0x7A then c.toNat - 0x61 + 26
  else if 0x30 ≤ c ∧ c ≤ 0x39 then c.toNat - 0x30 + 52
  else if c = 0x2B then 62
  else if c = 0x2F then 63
  else -1

/-- The values of the group that is being read, and the bytes so far. -/
structure Base64Reader where
  values : List Int
  out : List UInt8

/-- The bytes of a complete group; padding has the value -2. -/
def groupBytes (v₀ v₁ v₂ v₃ : Int) : Option (List UInt8) :=
  if v₀ < 0 ∨ v₁ < 0 then none
  else
    let v := v₀.toNat * 2 ^ 18 + v₁.toNat * 2 ^ 12
    let v := if 0 ≤ v₂ then v + v₂.toNat * 2 ^ 6 else v
    let v := if 0 ≤ v₃ then v + v₃.toNat else v
    some (UInt8.ofNat (v / 2 ^ 16) ::
      ((if 0 ≤ v₂ then [UInt8.ofNat (v / 2 ^ 8)] else []) ++
        (if 0 ≤ v₃ then [UInt8.ofNat v] else [])))

namespace Base64Reader

def push (r : Base64Reader) (value : Int) : Option Base64Reader :=
  match r.values ++ [value] with
  | [v₀, v₁, v₂, v₃] => (groupBytes v₀ v₁ v₂ v₃).map fun bytes => ⟨[], r.out ++ bytes⟩
  | values => some ⟨values, r.out⟩

def read (r : Base64Reader) (ch : UInt8) : Option Base64Reader :=
  if isSpace ch then some r
  else if ch = 0x3D then r.push (-2)
  else if base64Value ch < 0 then none
  else r.push (base64Value ch)

end Base64Reader

def base64Decode (text : List UInt8) : Option (List UInt8) :=
  (text.foldlM Base64Reader.read ⟨[], []⟩).bind fun r =>
    if r.values = [] then some r.out else none

/-! ## Groups of four characters -/

/-- The white space is removed. -/
def withoutSpace (text : List UInt8) : List UInt8 := text.filter fun c => !isSpace c

def charValue (c : UInt8) : Option Int :=
  if c = 0x3D then some (-2) else if base64Value c < 0 then none else some (base64Value c)

def decodeGroup (a b c d : UInt8) : Option (List UInt8) := do
  let v₀ ← charValue a
  let v₁ ← charValue b
  let v₂ ← charValue c
  let v₃ ← charValue d
  groupBytes v₀ v₁ v₂ v₃

def decodeGroups : List UInt8 → Option (List UInt8)
  | [] => some []
  | a :: b :: c :: d :: rest =>
      (decodeGroup a b c d).bind fun bytes => (decodeGroups rest).map (bytes ++ ·)
  | _ => none

section Reader

variable {r : Base64Reader}

theorem read_space {c : UInt8} (h : isSpace c = true) : r.read c = some r := by
  rw [Base64Reader.read, if_pos h]

theorem read_char {c : UInt8} (h : isSpace c = false) :
    r.read c = (charValue c).bind r.push := by
  rw [Base64Reader.read, if_neg (by simp [h]), charValue]
  split_ifs <;> rfl

theorem foldlM_withoutSpace (text : List UInt8) :
    text.foldlM Base64Reader.read r = (withoutSpace text).foldlM Base64Reader.read r := by
  induction text generalizing r with
  | nil => rfl
  | cons c text ih =>
      cases hspace : isSpace c with
      | true =>
          rw [withoutSpace, List.filter_cons_of_neg (by simp [hspace]), List.foldlM_cons,
            read_space hspace]
          exact ih
      | false =>
          rw [withoutSpace, List.filter_cons_of_pos (by simp [hspace]), List.foldlM_cons,
            List.foldlM_cons]
          exact congrArg _ (funext fun r => ih)

end Reader

/-- Four characters complete a group. -/
theorem foldlM_group {a b c d : UInt8} {rest : List UInt8}
    (hspace : ∀ e ∈ a :: b :: c :: d :: rest, isSpace e = false) (out : List UInt8) :
    (a :: b :: c :: d :: rest).foldlM Base64Reader.read ⟨[], out⟩ =
      (decodeGroup a b c d).bind fun bytes =>
        rest.foldlM Base64Reader.read ⟨[], out ++ bytes⟩ := by
  have ha := hspace a (by simp)
  have hb := hspace b (by simp)
  have hc := hspace c (by simp)
  have hd := hspace d (by simp)
  simp only [List.foldlM_cons, read_char ha, read_char hb, read_char hc, read_char hd]
  unfold decodeGroup
  cases charValue a with
  | none => rfl
  | some v₀ =>
    cases charValue b with
    | none => rfl
    | some v₁ =>
      cases charValue c with
      | none => rfl
      | some v₂ =>
        cases charValue d with
        | none => rfl
        | some v₃ =>
          change ((groupBytes v₀ v₁ v₂ v₃).map _).bind _ = (groupBytes v₀ v₁ v₂ v₃).bind _
          cases groupBytes v₀ v₁ v₂ v₃ <;> rfl

/-- The reader reads group after group, and nothing may be left over. -/
theorem foldlM_groups (s : List UInt8) (hspace : ∀ c ∈ s, isSpace c = false)
    (out : List UInt8) :
    ((s.foldlM Base64Reader.read ⟨[], out⟩).bind fun r =>
        if r.values = [] then some r.out else none) =
      (decodeGroups s).map (out ++ ·) := by
  induction s using decodeGroups.induct generalizing out with
  | case1 => simp [decodeGroups]
  | case2 a b c d rest ih =>
      have hrest : ∀ e ∈ rest, isSpace e = false := fun e he => hspace e (by simp [he])
      rw [foldlM_group hspace, decodeGroups, Option.bind_assoc]
      cases decodeGroup a b c d with
      | none => rfl
      | some bytes =>
          change _ = ((decodeGroups rest).map (bytes ++ ·)).map (out ++ ·)
          rw [Option.bind_some, ih hrest, Option.map_map]
          simp only [List.append_assoc]
          rfl
  | case3 s hnil hfour =>
      have hunfinished : decodeGroups s = none := by
        rw [decodeGroups] <;> assumption
      rw [hunfinished]
      match s, hspace with
      | [], _ => exact absurd rfl hnil
      | [a], hspace =>
          simp only [List.foldlM_cons, read_char (hspace a (by simp))]
          cases charValue a <;> rfl
      | [a, b], hspace =>
          simp only [List.foldlM_cons, read_char (hspace a (by simp)),
            read_char (hspace b (by simp))]
          cases charValue a <;> cases charValue b <;> rfl
      | [a, b, c], hspace =>
          simp only [List.foldlM_cons, read_char (hspace a (by simp)),
            read_char (hspace b (by simp)), read_char (hspace c (by simp))]
          cases charValue a <;> cases charValue b <;> cases charValue c <;> rfl
      | a :: b :: c :: d :: rest, _ => exact absurd rfl (hfour a b c d rest)

theorem base64Decode_eq (text : List UInt8) :
    base64Decode text = decodeGroups (withoutSpace text) := by
  rw [base64Decode, foldlM_withoutSpace,
    foldlM_groups _ (fun c hc => by simpa [withoutSpace] using (List.mem_filter.mp hc).2)]
  simp

/-! ## Digits -/

theorem base64Value_base64Digit (n : Nat) : base64Value (base64Digit n) = (n % 64 : Nat) := by
  have hdigits : ∀ k < 64, base64Value (base64Digit k) = (k : Nat) := by decide +kernel
  have hmod : base64Digit n = base64Digit (n % 64) := by
    rw [base64Digit, base64Digit, Nat.mod_mod]
  rw [hmod, hdigits _ (Nat.mod_lt n (by decide))]

theorem exists_base64Digit {c : UInt8} (h : 0 ≤ base64Value c) :
    ∃ n < 64, c = base64Digit n := by
  have hall : ∀ c : UInt8, 0 ≤ base64Value c →
      (base64Value c).toNat < 64 ∧ base64Digit (base64Value c).toNat = c :=
    Unicode.forall_byte (by decide +kernel)
  exact ⟨_, (hall c h).1, (hall c h).2.symm⟩

theorem base64Digit_ne_padding (n : Nat) : base64Digit n ≠ 0x3D := by
  intro h
  have hvalue := base64Value_base64Digit n
  rw [h] at hvalue
  have hpadding : base64Value 0x3D = -1 := by decide
  omega

theorem charValue_base64Digit (n : Nat) :
    charValue (base64Digit n) = some ((n % 64 : Nat) : Int) := by
  rw [charValue, if_neg (base64Digit_ne_padding n), base64Value_base64Digit,
    if_neg (by omega)]

/-- The two encoders are one. -/
theorem base64Encode_eq (data : List UInt8) : base64Encode data = encodeBase64 data := by
  fun_induction encodeBase64 data with
  | case1 => rw [base64Encode]
  | case2 a triple => simp [base64Encode, triple]
  | case3 a b triple => simp [base64Encode, triple]
  | case4 a b c rest triple ih => simp [base64Encode, ih, triple]

/-! ## Bytes and digits -/

theorem ofNat_eq_byte {n : Nat} (b : UInt8) (h : n % 256 = b.toNat) : UInt8.ofNat n = b := by
  rw [← UInt8.toNat_inj, UInt8.toNat_ofNat']
  exact h

theorem base64Digit_eq {n k : Nat} (h : n % 64 = k) : base64Digit n = base64Digit k := by
  rw [base64Digit, base64Digit, ← h, Nat.mod_mod]

theorem groupBytes_digits (n₀ n₁ n₂ n₃ : Nat) :
    groupBytes n₀ n₁ n₂ n₃ =
      let v := n₀ * 2 ^ 18 + n₁ * 2 ^ 12 + n₂ * 2 ^ 6 + n₃
      some [UInt8.ofNat (v / 2 ^ 16), UInt8.ofNat (v / 2 ^ 8), UInt8.ofNat v] := by
  simp [groupBytes]

theorem groupBytes_padded (n₀ n₁ n₂ : Nat) :
    groupBytes n₀ n₁ n₂ (-2) =
      let v := n₀ * 2 ^ 18 + n₁ * 2 ^ 12 + n₂ * 2 ^ 6
      some [UInt8.ofNat (v / 2 ^ 16), UInt8.ofNat (v / 2 ^ 8)] := by
  simp [groupBytes]

theorem groupBytes_padded_twice (n₀ n₁ : Nat) :
    groupBytes n₀ n₁ (-2) (-2) =
      some [UInt8.ofNat ((n₀ * 2 ^ 18 + n₁ * 2 ^ 12) / 2 ^ 16)] := by
  simp [groupBytes]

/-- The decoder takes a group that could be the first of a code. -/
theorem decodeGroup_digits (n₀ n₁ n₂ n₃ : Nat) :
    decodeGroup (base64Digit n₀) (base64Digit n₁) (base64Digit n₂) (base64Digit n₃) =
      groupBytes (n₀ % 64 : Nat) (n₁ % 64 : Nat) (n₂ % 64 : Nat) (n₃ % 64 : Nat) := by
  rw [decodeGroup, charValue_base64Digit, charValue_base64Digit, charValue_base64Digit,
    charValue_base64Digit]
  rfl

theorem decodeGroup_padded (n₀ n₁ n₂ : Nat) :
    decodeGroup (base64Digit n₀) (base64Digit n₁) (base64Digit n₂) 0x3D =
      groupBytes (n₀ % 64 : Nat) (n₁ % 64 : Nat) (n₂ % 64 : Nat) (-2) := by
  rw [decodeGroup, charValue_base64Digit, charValue_base64Digit, charValue_base64Digit]
  rfl

theorem decodeGroup_padded_twice (n₀ n₁ : Nat) :
    decodeGroup (base64Digit n₀) (base64Digit n₁) 0x3D 0x3D =
      groupBytes (n₀ % 64 : Nat) (n₁ % 64 : Nat) (-2) (-2) := by
  rw [decodeGroup, charValue_base64Digit, charValue_base64Digit]
  rfl

/-! ## Texts -/

/-- The text is made of complete groups, with padding in their last two places
at most. -/
def Groups : List UInt8 → Prop
  | [] => True
  | a :: b :: c :: d :: rest =>
      0 ≤ base64Value a ∧ 0 ≤ base64Value b ∧ (c = 0x3D ∨ 0 ≤ base64Value c) ∧
        (d = 0x3D ∨ 0 ≤ base64Value d) ∧ Groups rest
  | _ => False

/-- Padding stands at the end, and it leaves over bits that are zero. -/
def PaddedAtEnd : List UInt8 → Prop
  | _ :: b :: c :: d :: rest =>
      (c ≠ 0x3D ∧ d ≠ 0x3D ∧ PaddedAtEnd rest) ∨
        (c ≠ 0x3D ∧ 4 ∣ base64Value c ∧ d = 0x3D ∧ rest = []) ∨
        (16 ∣ base64Value b ∧ c = 0x3D ∧ d = 0x3D ∧ rest = [])
  | _ => True

theorem charValue_eq_some_iff {c : UInt8} {v : Int} :
    charValue c = some v ↔ c = 0x3D ∧ v = -2 ∨ 0 ≤ base64Value c ∧ v = base64Value c := by
  have hpadding : base64Value 0x3D = -1 := by decide
  unfold charValue
  by_cases hc : c = 0x3D
  · rw [if_pos hc, hc, hpadding, Option.some.injEq]
    simp only [true_and]
    omega
  · rw [if_neg hc]
    split
    next hneg =>
      simp only [reduceCtorEq, hc, false_and, false_or, false_iff]
      omega
    next hpos =>
      rw [Option.some.injEq]
      simp only [hc, false_and, false_or]
      omega

theorem groupBytes_isSome_iff {v₀ v₁ v₂ v₃ : Int} :
    (groupBytes v₀ v₁ v₂ v₃).isSome ↔ 0 ≤ v₀ ∧ 0 ≤ v₁ := by
  unfold groupBytes
  split
  next h => simp; omega
  next h => simp; omega

theorem decodeGroup_isSome_iff {a b c d : UInt8} :
    (decodeGroup a b c d).isSome ↔ 0 ≤ base64Value a ∧ 0 ≤ base64Value b ∧
      (c = 0x3D ∨ 0 ≤ base64Value c) ∧ (d = 0x3D ∨ 0 ≤ base64Value d) := by
  have hvalue : ∀ {e : UInt8}, (∃ v, charValue e = some v) ↔ e = 0x3D ∨ 0 ≤ base64Value e := by
    intro e
    simp only [charValue_eq_some_iff]
    exact ⟨fun ⟨_, h⟩ => h.imp And.left And.left,
      fun h => h.elim (fun h => ⟨_, .inl ⟨h, rfl⟩⟩) fun h => ⟨_, .inr ⟨h, rfl⟩⟩⟩
  have hdigit : ∀ {e : UInt8}, (∃ v, charValue e = some v ∧ 0 ≤ v) ↔ 0 ≤ base64Value e := by
    intro e
    simp only [charValue_eq_some_iff]
    constructor
    · rintro ⟨v, ⟨-, rfl⟩ | ⟨h, -⟩, hv⟩
      · exact absurd hv (by decide)
      · exact h
    · exact fun h => ⟨_, .inr ⟨h, rfl⟩, h⟩
  rw [← hdigit (e := a), ← hdigit (e := b), ← hvalue (e := c), ← hvalue (e := d)]
  unfold decodeGroup
  cases charValue a <;> cases charValue b <;> cases charValue c <;> cases charValue d <;>
    simp [groupBytes_isSome_iff]

/-- The decoder takes every text of complete groups, and no other. -/
theorem decodeGroups_isSome_iff (s : List UInt8) : (decodeGroups s).isSome ↔ Groups s := by
  fun_induction decodeGroups s with
  | case1 => simp [Groups]
  | case2 a b c d rest ih =>
      rw [Groups, ← ih, ← and_assoc, ← and_assoc, ← and_assoc, and_assoc (c := d = 0x3D ∨ _),
        and_assoc (a := 0 ≤ base64Value a), ← decodeGroup_isSome_iff]
      cases decodeGroup a b c d <;> simp
  | case3 s hnil hfour =>
      unfold Groups
      split
      next => exact absurd rfl hnil
      next a b c d rest => exact absurd rfl (hfour a b c d rest)
      next => simp

theorem decodeGroups_encodeBase64 (data : List UInt8) :
    decodeGroups (encodeBase64 data) = some data := by
  fun_induction encodeBase64 data with
  | case1 => rfl
  | case2 a triple =>
      have ha := a.toNat_lt
      rw [decodeGroups, decodeGroup_padded_twice, groupBytes_padded_twice, decodeGroups,
        Option.bind_some, Option.map_some, List.append_nil, ofNat_eq_byte a (by omega)]
  | case3 a b triple =>
      have ha := a.toNat_lt
      have hb := b.toNat_lt
      rw [decodeGroups, decodeGroup_padded, groupBytes_padded, decodeGroups,
        Option.bind_some, Option.map_some, List.append_nil, ofNat_eq_byte a (by omega),
        ofNat_eq_byte b (by omega)]
  | case4 a b c rest triple ih =>
      have ha := a.toNat_lt
      have hb := b.toNat_lt
      have hc := c.toNat_lt
      rw [List.cons_append, List.cons_append, List.cons_append, List.cons_append,
        List.nil_append, decodeGroups, decodeGroup_digits, groupBytes_digits, ih, Option.bind_some,
        Option.map_some, ofNat_eq_byte a (by omega), ofNat_eq_byte b (by omega),
        ofNat_eq_byte c (by omega)]
      rfl

theorem paddedAtEnd_encodeBase64 (data : List UInt8) : PaddedAtEnd (encodeBase64 data) := by
  fun_induction encodeBase64 data with
  | case1 => trivial
  | case2 a triple =>
      refine .inr (.inr ⟨?_, rfl, rfl, rfl⟩)
      rw [base64Value_base64Digit]
      omega
  | case3 a b triple =>
      refine .inr (.inl ⟨base64Digit_ne_padding _, ?_, rfl, rfl⟩)
      rw [base64Value_base64Digit]
      omega
  | case4 a b c rest triple ih =>
      exact .inl ⟨base64Digit_ne_padding _, base64Digit_ne_padding _, ih⟩

/-- A text of complete groups is the code of its bytes when it is padded as the
encoder pads. -/
theorem encodeBase64_decodeGroups {s : List UInt8} (hgroups : Groups s)
    (hpadded : PaddedAtEnd s) {data : List UInt8} (h : decodeGroups s = some data) :
    encodeBase64 data = s := by
  fun_induction decodeGroups s generalizing data with
  | case1 =>
      obtain rfl := Option.some.inj h
      rfl
  | case2 a b c d rest ih =>
      obtain ⟨ha, hb, hc, hd, hrest⟩ := hgroups
      obtain ⟨n₀, h₀, rfl⟩ := exists_base64Digit ha
      obtain ⟨n₁, h₁, rfl⟩ := exists_base64Digit hb
      obtain ⟨hcdigit, hddigit, hpadded⟩ | ⟨hcdigit, hzero, rfl, rfl⟩ | ⟨hzero, rfl, rfl, rfl⟩ :=
        hpadded
      · obtain ⟨n₂, h₂, rfl⟩ := exists_base64Digit (hc.resolve_left hcdigit)
        obtain ⟨n₃, h₃, rfl⟩ := exists_base64Digit (hd.resolve_left hddigit)
        rw [decodeGroup_digits, groupBytes_digits, Option.bind_some, Option.map_eq_some_iff] at h
        obtain ⟨more, hmore, rfl⟩ := h
        rw [List.cons_append, List.cons_append, List.cons_append, List.nil_append, encodeBase64,
          ih hrest hpadded hmore]
        simp only [UInt8.toNat_ofNat']
        simp only [List.cons_append, List.nil_append, List.cons.injEq, and_true]
        exact ⟨base64Digit_eq (by omega), base64Digit_eq (by omega), base64Digit_eq (by omega),
          base64Digit_eq (by omega)⟩
      · obtain ⟨n₂, h₂, rfl⟩ := exists_base64Digit (hc.resolve_left hcdigit)
        rw [base64Value_base64Digit] at hzero
        rw [decodeGroup_padded, groupBytes_padded, decodeGroups, Option.bind_some, Option.map_some,
          List.append_nil] at h
        obtain rfl := Option.some.inj h
        rw [encodeBase64]
        simp only [UInt8.toNat_ofNat']
        simp only [List.cons.injEq, and_true]
        exact ⟨base64Digit_eq (by omega), base64Digit_eq (by omega), base64Digit_eq (by omega)⟩
      · rw [base64Value_base64Digit] at hzero
        rw [decodeGroup_padded_twice, groupBytes_padded_twice, decodeGroups,
          Option.bind_some, Option.map_some, List.append_nil] at h
        obtain rfl := Option.some.inj h
        rw [encodeBase64]
        simp only [UInt8.toNat_ofNat']
        simp only [List.cons.injEq, and_true]
        exact ⟨base64Digit_eq (by omega), base64Digit_eq (by omega)⟩
  | case3 s hnil hfour => exact absurd h (by simp)

/-! ## What the decoder accepts -/

/-- The text is decoded where it is the code of some bytes with white space, and
what it is decoded to has the text as its code. -/
structure DecodesFaithfully (text : List UInt8) : Prop where
  decoded : ∀ data, withoutSpace text = base64Encode data ∨ withoutSpace text = encodeBase64 data →
    base64Decode text = some data
  accepted : ∀ data, base64Decode text = some data →
    base64Encode data = withoutSpace text ∧ encodeBase64 data = withoutSpace text

/-- Only texts whose padding is not that of the encoder are decoded to bytes with
another code. -/
theorem decodesFaithfully_iff (text : List UInt8) :
    DecodesFaithfully text ↔
      (Groups (withoutSpace text) → PaddedAtEnd (withoutSpace text)) := by
  constructor
  · intro h hgroups
    obtain ⟨data, hdata⟩ := Option.isSome_iff_exists.mp
      ((decodeGroups_isSome_iff (withoutSpace text)).mpr hgroups)
    have hcode := (h.accepted data ((base64Decode_eq text).trans hdata)).2
    rw [← hcode]
    exact paddedAtEnd_encodeBase64 data
  · intro h
    constructor
    · intro data hcode
      rw [base64Encode_eq, or_self] at hcode
      rw [base64Decode_eq, hcode, decodeGroups_encodeBase64]
    · intro data hdata
      rw [base64Decode_eq] at hdata
      have hgroups := (decodeGroups_isSome_iff (withoutSpace text)).mp
        (Option.isSome_iff_exists.mpr ⟨data, hdata⟩)
      rw [base64Encode_eq, and_self]
      exact encodeBase64_decodeGroups hgroups (h hgroups) hdata

/-- Padding in the third place of a group with a digit behind it is taken. -/
theorem not_decodesFaithfully_padding_inside :
    ¬ DecodesFaithfully (ascii "AA=A") := by
  intro h
  have hdecoded : base64Decode (ascii "AA=A") = some [0, 0] := by decide
  have hcode := (h.accepted [0, 0] hdecoded).2
  exact absurd hcode (by decide)

end Logme.Logmeobf
