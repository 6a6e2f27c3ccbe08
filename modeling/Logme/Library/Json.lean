import Mathlib.Data.List.Basic
import Mathlib.Data.List.TakeWhile
import Logme.Library.Unicode

/-!
# Flat JSON objects

A strict reader of JSON objects whose values are strings or natural numbers,
on the bytes of the text: what it accepts is a JSON object, and it returns the
members in their order.  Surrogate escapes are not accepted.  A writer that
escapes the bytes of its strings one by one is inverted by the reader as soon
as each escaped byte is read back as that byte.
-/

namespace Json

inductive Value where
  | string (bytes : List UInt8)
  | number (n : Nat)
  deriving DecidableEq

/-! ## Reading -/

def isSpace (b : UInt8) : Bool :=
  b == 0x20 || b == 0x09 || b == 0x0A || b == 0x0D

def skipSpace (input : List UInt8) : List UInt8 := input.dropWhile isSpace

/-- One structural character with the white space before it. -/
def readToken (token : UInt8) (input : List UInt8) : Option (List UInt8) :=
  match skipSpace input with
  | b :: rest => if b = token then some rest else none
  | [] => none

def isDigit (b : UInt8) : Bool := 0x30 ≤ b && b ≤ 0x39

def hexDigit (b : UInt8) : Option Nat :=
  if 0x30 ≤ b ∧ b ≤ 0x39 then some (b.toNat - 0x30)
  else if 0x41 ≤ b ∧ b ≤ 0x46 then some (b.toNat - 0x37)
  else if 0x61 ≤ b ∧ b ≤ 0x66 then some (b.toNat - 0x57)
  else none

/-- The UTF-8 bytes of a code point, which must not be a surrogate. -/
def encode (code : Nat) : Option (List UInt8) :=
  if code.isValidChar then some (String.utf8EncodeChar (Char.ofNat code))
  else none

/-- The bytes that the digits of `\uXXXX` stand for. -/
def readHex4 (a b c d : UInt8) : Option (List UInt8) :=
  match hexDigit a, hexDigit b, hexDigit c, hexDigit d with
  | some a, some b, some c, some d => encode (((a * 16 + b) * 16 + c) * 16 + d)
  | _, _, _, _ => none

/-- The escapes of one letter. -/
def shortEscape (b : UInt8) : Option UInt8 :=
  if b = 0x22 then some 0x22
  else if b = 0x5C then some 0x5C
  else if b = 0x2F then some 0x2F
  else if b = 0x62 then some 0x08
  else if b = 0x66 then some 0x0C
  else if b = 0x6E then some 0x0A
  else if b = 0x72 then some 0x0D
  else if b = 0x74 then some 0x09
  else none

def prepend (bytes : List UInt8) (read : List UInt8 × List UInt8) :
    List UInt8 × List UInt8 :=
  (bytes ++ read.1, read.2)

/-- The rest of a string after its opening quote: its content and what follows
the closing quote. -/
def readString : List UInt8 → Option (List UInt8 × List UInt8)
  | [] => none
  | b :: rest =>
      if b = 0x22 then some ([], rest)
      else if b = 0x5C then
        match rest with
        | [] => none
        | e :: rest =>
            match shortEscape e with
            | some c => (readString rest).map (prepend [c])
            | none =>
                if e = 0x75 then
                  match rest with
                  | h₁ :: h₂ :: h₃ :: h₄ :: rest =>
                      match readHex4 h₁ h₂ h₃ h₄ with
                      | some bytes => (readString rest).map (prepend bytes)
                      | none => none
                  | _ => none
                else none
      else if b < 0x20 then none
      else (readString rest).map (prepend [b])

/-- A natural number without leading zeros. -/
def readNumber (input : List UInt8) : Option (Nat × List UInt8) :=
  match input.takeWhile isDigit with
  | [] => none
  | d :: ds =>
      if d = 0x30 ∧ ds ≠ [] then none
      else
        some ((d :: ds).foldl (fun n b => 10 * n + (b.toNat - 0x30)) 0,
          input.dropWhile isDigit)

def readValue (input : List UInt8) : Option (Value × List UInt8) :=
  match readToken 0x22 input with
  | some rest => (readString rest).map fun read => (.string read.1, read.2)
  | none =>
      (readNumber (skipSpace input)).map fun read => (.number read.1, read.2)

def readMember (input : List UInt8) :
    Option ((List UInt8 × Value) × List UInt8) := do
  let rest ← readToken 0x22 input
  let (name, rest) ← readString rest
  let rest ← readToken 0x3A rest
  let (value, rest) ← readValue rest
  return ((name, value), rest)

/-- The members up to the closing brace. -/
def readMembers : Nat → List UInt8 →
    Option (List (List UInt8 × Value) × List UInt8)
  | 0, _ => none
  | fuel + 1, input =>
      match readMember input with
      | none => none
      | some (member, rest) =>
          match readToken 0x2C rest with
          | some rest =>
              (readMembers fuel rest).map fun read => (member :: read.1, read.2)
          | none => (readToken 0x7D rest).map fun rest => ([member], rest)

/-- A whole text that is one object. -/
def readObject (input : List UInt8) : Option (List (List UInt8 × Value)) := do
  let inside ← readToken 0x7B input
  let (members, rest) ←
    match readToken 0x7D inside with
    | some rest => some ([], rest)
    | none => readMembers inside.length inside
  if skipSpace rest = [] then some members else none

/-! ## Writing -/

variable (escape : UInt8 → List UInt8)

def writeString (bytes : List UInt8) : List UInt8 :=
  0x22 :: (bytes.flatMap escape ++ [0x22])

def writeNumber (n : Nat) : List UInt8 :=
  (Nat.toDigits 10 n).map fun c => UInt8.ofNat c.toNat

def writeValue : Value → List UInt8
  | .string bytes => writeString escape bytes
  | .number n => writeNumber n

def writeMember (member : List UInt8 × Value) : List UInt8 :=
  writeString escape member.1 ++ 0x3A :: writeValue escape member.2

def writeObject (members : List (List UInt8 × Value)) : List UInt8 :=
  0x7B :: ([0x2C].intercalate (members.map (writeMember escape)) ++ [0x7D])

/-! ## Reading what was written -/

/-- Each escaped byte is read back as that byte. -/
def Faithful : Prop :=
  ∀ (b : UInt8) (rest : List UInt8),
    readString (escape b ++ rest) = (readString rest).map (prepend [b])

theorem readString_quote (rest : List UInt8) :
    readString (0x22 :: rest) = some ([], rest) := by
  rw [readString.eq_def]
  rfl

theorem readString_raw {b : UInt8} (hquote : b ≠ 0x22) (hbackslash : b ≠ 0x5C)
    (hlow : ¬ b < 0x20) (rest : List UInt8) :
    readString (b :: rest) = (readString rest).map (prepend [b]) := by
  rw [readString.eq_def]
  simp [hquote, hbackslash, hlow]

theorem readString_shortEscape {e b : UInt8} (h : shortEscape e = some b)
    (rest : List UInt8) :
    readString (0x5C :: e :: rest) = (readString rest).map (prepend [b]) := by
  rw [readString.eq_def]
  simp [h]

theorem readString_hex4 {h₁ h₂ h₃ h₄ : UInt8} {bytes : List UInt8}
    (h : readHex4 h₁ h₂ h₃ h₄ = some bytes) (rest : List UInt8) :
    readString (0x5C :: 0x75 :: h₁ :: h₂ :: h₃ :: h₄ :: rest) =
      (readString rest).map (prepend bytes) := by
  rw [readString.eq_def]
  simp [h, shortEscape]

/-- The reader takes these bytes for the byte `b`. -/
def readsAsByte (b : UInt8) : List UInt8 → Bool
  | [c] => c = b && c ≠ 0x22 && c ≠ 0x5C && ¬ c < 0x20
  | [c, e] => c = 0x5C && shortEscape e = some b
  | [c, u, h₁, h₂, h₃, h₄] => c = 0x5C && u = 0x75 && readHex4 h₁ h₂ h₃ h₄ = some [b]
  | _ => false

theorem readToken_cons {token : UInt8} (h : isSpace token = false)
    (rest : List UInt8) : readToken token (token :: rest) = some rest := by
  simp [readToken, skipSpace, h]

theorem readToken_of_ne {token b : UInt8} (h : isSpace b = false)
    (hne : b ≠ token) (rest : List UInt8) : readToken token (b :: rest) = none := by
  simp [readToken, skipSpace, h, hne]

variable {escape}

/-- An escape is faithful if it is so on every byte alone. -/
theorem Faithful.of_readsAsByte (h : ∀ b, readsAsByte b (escape b) = true) :
    Faithful escape := by
  intro b rest
  have hb := h b
  unfold readsAsByte at hb
  split at hb
  next c heq =>
    simp only [Bool.and_eq_true, decide_eq_true_eq] at hb
    obtain ⟨⟨⟨rfl, hquote⟩, hbackslash⟩, hlow⟩ := hb
    rw [heq]
    exact readString_raw hquote hbackslash hlow rest
  next c e heq =>
    simp only [Bool.and_eq_true, decide_eq_true_eq] at hb
    obtain ⟨rfl, hshort⟩ := hb
    rw [heq]
    exact readString_shortEscape hshort rest
  next c u h₁ h₂ h₃ h₄ heq =>
    simp only [Bool.and_eq_true, decide_eq_true_eq] at hb
    obtain ⟨⟨rfl, rfl⟩, hhex⟩ := hb
    rw [heq]
    exact readString_hex4 hhex rest
  next => cases hb

theorem Faithful.readString_flatMap (h : Faithful escape)
    (bytes rest : List UInt8) :
    readString (bytes.flatMap escape ++ 0x22 :: rest) = some (bytes, rest) := by
  induction bytes with
  | nil => exact readString_quote rest
  | cons b bytes ih =>
      rw [List.flatMap_cons, List.append_assoc, h, ih]
      rfl

theorem Faithful.readToken_writeString (h : Faithful escape)
    (bytes rest : List UInt8) :
    (readToken 0x22 (writeString escape bytes ++ rest)).bind readString =
      some (bytes, rest) := by
  have hwritten : writeString escape bytes ++ rest =
      0x22 :: (bytes.flatMap escape ++ 0x22 :: rest) := by
    simp [writeString]
  rw [hwritten, readToken_cons (by decide), Option.bind_some,
    h.readString_flatMap]

/-! ### Numbers -/

/-- The text does not continue a number. -/
def EndsNumber (rest : List UInt8) : Prop :=
  ∀ b ∈ rest.head?, isDigit b = false

theorem toNat_of_mem_toDigits {n : Nat} {c : Char}
    (hc : c ∈ Nat.toDigits 10 n) : 48 ≤ c.toNat ∧ c.toNat ≤ 57 := by
  have hdigit := Nat.isDigit_of_mem_toDigits (by decide) (by decide) hc
  simp only [Char.isDigit, Bool.and_eq_true, decide_eq_true_eq] at hdigit
  exact hdigit

theorem isDigit_of_mem_writeNumber {n : Nat} {b : UInt8}
    (h : b ∈ writeNumber n) : isDigit b = true := by
  rcases List.mem_map.mp h with ⟨c, hc, rfl⟩
  have hrange := toNat_of_mem_toDigits hc
  simp only [isDigit, Bool.and_eq_true, decide_eq_true_eq, UInt8.le_iff_toNat_le]
  simp
  omega

theorem isSpace_of_isDigit {b : UInt8} (h : isDigit b = true) :
    isSpace b = false := by
  have hlow : 0x30 ≤ b := of_decide_eq_true (Bool.and_eq_true_iff.mp h).1
  have hne : ∀ space : UInt8, space < 0x30 → b ≠ space := by
    rintro space hspace rfl
    exact absurd hlow (UInt8.not_le.mpr hspace)
  simp [isSpace, hne]

theorem foldl_writeNumber (cs : List Char) (hcs : ∀ c ∈ cs, c.toNat < 256)
    (start : Nat) :
    (cs.map fun c => UInt8.ofNat c.toNat).foldl
        (fun n b => 10 * n + (b.toNat - 0x30)) start =
      Nat.ofDigitChars 10 cs start := by
  induction cs generalizing start with
  | nil => rfl
  | cons c cs ih =>
      have hbyte : (UInt8.ofNat c.toNat).toNat = c.toNat :=
        Nat.mod_eq_of_lt (hcs c (by simp))
      rw [List.map_cons, List.foldl_cons, hbyte, Nat.ofDigitChars_cons,
        ih fun d hd => hcs d (by simp [hd])]
      rfl

/-- Only zero begins with the digit 0. -/
theorem head_toDigits {n : Nat} (hn : 0 < n) :
    (Nat.toDigits 10 n).head? ≠ some '0' := by
  induction n using Nat.strongRecOn with
  | ind n ih =>
      by_cases hsmall : n < 10
      · rw [Nat.toDigits_of_lt_base hsmall, List.head?_cons]
        have hall : ∀ k < 10, 0 < k → some k.digitChar ≠ some '0' := by decide
        exact hall n hsmall hn
      · rw [Nat.toDigits_of_base_le (by decide) (by omega),
          List.head?_append_of_ne_nil _ Nat.toDigits_ne_nil]
        exact ih (n / 10) (by omega) (by omega)

theorem writeNumber_leading {n : Nat} {ds : List UInt8}
    (h : writeNumber n = 0x30 :: ds) : ds = [] := by
  rcases Nat.eq_zero_or_pos n with rfl | hn
  · simpa [writeNumber] using h.symm
  · rcases List.map_eq_cons_iff.mp h with ⟨c, cs, hdigits, hbyte, -⟩
    have hrange : 48 ≤ c.toNat ∧ c.toNat ≤ 57 :=
      toNat_of_mem_toDigits (n := n) (by simp [hdigits])
    have hcode : c.toNat % 256 = 48 := congrArg UInt8.toNat hbyte
    have hzero : c = '0' := Char.toNat_inj.mp (by change c.toNat = 48; omega)
    exact absurd (by rw [hdigits, hzero]; rfl) (head_toDigits hn)

theorem value_writeNumber (n : Nat) :
    (writeNumber n).foldl (fun n b => 10 * n + (b.toNat - 0x30)) 0 = n := by
  rw [writeNumber, foldl_writeNumber, Nat.ofDigitChars_toDigits (by decide) (by decide)]
  intro c hc
  have hrange := toNat_of_mem_toDigits hc
  omega

theorem readNumber_writeNumber (n : Nat) {rest : List UInt8}
    (hrest : EndsNumber rest) : readNumber (writeNumber n ++ rest) = some (n, rest) := by
  have htake : (writeNumber n ++ rest).takeWhile isDigit = writeNumber n := by
    rw [List.takeWhile_append_of_pos fun b hb => isDigit_of_mem_writeNumber hb]
    cases rest with
    | nil => simp
    | cons b rest => simp [hrest b (by simp)]
  have hdrop : (writeNumber n ++ rest).dropWhile isDigit = rest := by
    rw [List.dropWhile_append_of_pos fun b hb => isDigit_of_mem_writeNumber hb]
    cases rest with
    | nil => rfl
    | cons b rest => simp [hrest b (by simp)]
  unfold readNumber
  rw [htake, hdrop]
  cases hwritten : writeNumber n with
  | nil => exact absurd (List.map_eq_nil_iff.mp hwritten) Nat.toDigits_ne_nil
  | cons d ds =>
      have hleading : ¬ (d = 0x30 ∧ ds ≠ []) := by
        rintro ⟨rfl, hmore⟩
        exact hmore (writeNumber_leading hwritten)
      simp only [hleading, if_false]
      rw [← hwritten, value_writeNumber]

/-! ### Members -/

theorem Faithful.readValue_writeValue (h : Faithful escape) (value : Value)
    {rest : List UInt8} (hrest : EndsNumber rest) :
    readValue (writeValue escape value ++ rest) = some (value, rest) := by
  unfold readValue
  cases value with
  | string bytes =>
      have hread := h.readToken_writeString bytes rest
      rcases Option.bind_eq_some_iff.mp hread with ⟨inside, htoken, hinside⟩
      simp only [writeValue, htoken, hinside, Option.map_some]
  | number n =>
      cases hwritten : writeNumber n with
      | nil => exact absurd (List.map_eq_nil_iff.mp hwritten) Nat.toDigits_ne_nil
      | cons d ds =>
          have hdigit : isDigit d = true :=
            isDigit_of_mem_writeNumber (n := n) (by simp [hwritten])
          have hspace := isSpace_of_isDigit hdigit
          have hquote : d ≠ 0x22 := by
            rintro rfl
            exact absurd hdigit (by decide)
          have hskip : skipSpace (writeNumber n ++ rest) = writeNumber n ++ rest := by
            simp [hwritten, skipSpace, hspace]
          have htoken : readToken 0x22 (writeNumber n ++ rest) = none := by
            rw [hwritten, List.cons_append, readToken_of_ne hspace hquote]
          simp only [writeValue, htoken, hskip, readNumber_writeNumber n hrest,
            Option.map_some]

theorem Faithful.readMember_writeMember (h : Faithful escape)
    (member : List UInt8 × Value) {rest : List UInt8} (hrest : EndsNumber rest) :
    readMember (writeMember escape member ++ rest) = some (member, rest) := by
  have hname := h.readToken_writeString member.1
    (0x3A :: (writeValue escape member.2 ++ rest))
  rcases Option.bind_eq_some_iff.mp hname with ⟨inside, htoken, hinside⟩
  have hwritten : writeMember escape member ++ rest =
      writeString escape member.1 ++ 0x3A :: (writeValue escape member.2 ++ rest) := by
    simp [writeMember]
  unfold readMember
  rw [hwritten, htoken, Option.bind_eq_bind, Option.bind_some, hinside,
    Option.bind_eq_bind, Option.bind_some]
  simp only [readToken_cons (show isSpace 0x3A = false by decide),
    h.readValue_writeValue member.2 hrest, Option.bind_eq_bind, Option.bind_some]
  rfl

theorem Faithful.readMembers_intercalate (h : Faithful escape)
    (members : List (List UInt8 × Value)) (hmembers : members ≠ []) (fuel : Nat)
    (hfuel : members.length ≤ fuel) (rest : List UInt8) :
    readMembers fuel
        ([0x2C].intercalate (members.map (writeMember escape)) ++ 0x7D :: rest) =
      some (members, rest) := by
  induction members generalizing fuel with
  | nil => exact absurd rfl hmembers
  | cons member members ih =>
      cases fuel with
      | zero => simp at hfuel
      | succ fuel =>
          unfold readMembers
          cases members with
          | nil =>
              have hclose : EndsNumber (0x7D :: rest) := by simp [EndsNumber, isDigit]
              simp only [List.map_cons, List.map_nil, List.intercalate_singleton,
                h.readMember_writeMember member hclose,
                readToken_of_ne (show isSpace 0x7D = false by decide)
                  (show (0x7D : UInt8) ≠ 0x2C by decide),
                readToken_cons (show isSpace 0x7D = false by decide), Option.map_some]
          | cons next members =>
              have hcomma : EndsNumber (0x2C ::
                  ([0x2C].intercalate ((next :: members).map (writeMember escape)) ++
                    0x7D :: rest)) := by
                simp [EndsNumber, isDigit]
              have hwritten :
                  [0x2C].intercalate ((member :: next :: members).map
                      (writeMember escape)) ++ 0x7D :: rest =
                    writeMember escape member ++ 0x2C ::
                      ([0x2C].intercalate ((next :: members).map
                        (writeMember escape)) ++ 0x7D :: rest) := by
                simp
              rw [hwritten]
              simp only [h.readMember_writeMember member hcomma,
                readToken_cons (show isSpace 0x2C = false by decide),
                ih (by simp) fuel (by simpa using hfuel), Option.map_some]

theorem length_le_intercalate (parts : List (List UInt8)) :
    parts.length ≤ ([0x2C].intercalate parts).length + 1 := by
  induction parts with
  | nil => simp
  | cons part parts ih =>
      cases parts with
      | nil => simp
      | cons next parts =>
          simp only [List.intercalate_cons_cons, List.length_append,
            List.length_cons, List.length_nil] at ih ⊢
          omega

/-- What a faithful writer wrote is read as the members it was given. -/
theorem Faithful.readObject_writeObject (h : Faithful escape)
    (members : List (List UInt8 × Value)) (space : List UInt8)
    (hspace : ∀ b ∈ space, isSpace b = true) :
    readObject (writeObject escape members ++ space) = some members := by
  have hskip : skipSpace space = [] := by
    unfold skipSpace
    rw [List.dropWhile_eq_nil_iff]
    exact hspace
  have hopen : readToken 0x7B (writeObject escape members ++ space) =
      some ([0x2C].intercalate (members.map (writeMember escape)) ++
        0x7D :: space) := by
    simp only [writeObject, List.cons_append, List.append_assoc, List.nil_append,
      readToken_cons (show isSpace 0x7B = false by decide)]
  unfold readObject
  rw [hopen, Option.bind_eq_bind, Option.bind_some]
  cases members with
  | nil =>
      simp only [List.map_nil, List.intercalate_nil, List.nil_append,
        readToken_cons (show isSpace 0x7D = false by decide), Option.bind_eq_bind,
        Option.bind_some, hskip, if_true]
  | cons member members =>
      let written := [0x2C].intercalate ((member :: members).map (writeMember escape))
      have hquote : ∃ tail, written ++ 0x7D :: space = 0x22 :: tail := by
        simp only [written, List.map_cons, writeMember, writeString, List.cons_append,
          List.intercalate_cons_cons_left]
        exact ⟨_, rfl⟩
      rcases hquote with ⟨tail, htail⟩
      have hnotClosed : readToken 0x7D (written ++ 0x7D :: space) = none := by
        rw [htail, readToken_of_ne (by decide) (by decide)]
      have hlength : (member :: members).length ≤ (written ++ 0x7D :: space).length := by
        have hparts := length_le_intercalate
          ((member :: members).map (writeMember escape))
        simp only [List.length_map, written, List.length_append,
          List.length_cons] at hparts ⊢
        omega
      simp only [written] at hnotClosed hlength
      simp only [hnotClosed, Option.bind_eq_bind,
        h.readMembers_intercalate (member :: members) (by simp) _ hlength space,
        Option.bind_some, hskip, if_true]

/-! ## Bytes of the written text -/

/-- The bytes of a text of characters. -/
def Utf8 (bytes : List UInt8) : Prop :=
  ∃ cs : List Char, bytes = cs.flatMap String.utf8EncodeChar

theorem Utf8.append {a b : List UInt8} (ha : Utf8 a) (hb : Utf8 b) : Utf8 (a ++ b) := by
  rcases ha with ⟨cs, rfl⟩
  rcases hb with ⟨ds, rfl⟩
  exact ⟨cs ++ ds, by rw [List.flatMap_append]⟩

theorem utf8_of_ascii {bytes : List UInt8} (h : ∀ b ∈ bytes, b < 0x80) : Utf8 bytes := by
  refine ⟨_, Unicode.decode_eq_some_iff.mp (Unicode.decode_ascii ?_)⟩
  exact List.all_eq_true.mpr fun b hb => decide_eq_true (h b hb)

theorem utf8_singleton {b : UInt8} (h : b < 0x80) : Utf8 [b] := by
  apply utf8_of_ascii
  intro c hc
  rw [List.mem_singleton] at hc
  exact hc ▸ h

/-- Bytes below 128 are escaped by such bytes, the others stand for
themselves. -/
structure KeepsUtf8 (escape : UInt8 → List UInt8) : Prop where
  ascii : ∀ b < 0x80, ∀ c ∈ escape b, c < 0x80
  raw : ∀ b, ¬ b < 0x80 → escape b = [b]

theorem KeepsUtf8.of_all
    (hascii : ∀ b, b < 0x80 → (escape b).all (fun c => decide (c < 0x80)) = true)
    (hraw : ∀ b, ¬ b < 0x80 → escape b = [b]) : KeepsUtf8 escape where
  ascii b hb c hc := of_decide_eq_true (List.all_eq_true.mp (hascii b hb) c hc)
  raw := hraw

theorem KeepsUtf8.flatMap (h : KeepsUtf8 escape) {bytes : List UInt8}
    (hbytes : Utf8 bytes) : Utf8 (bytes.flatMap escape) := by
  rcases hbytes with ⟨cs, rfl⟩
  induction cs with
  | nil => exact ⟨[], rfl⟩
  | cons c cs ih =>
      rw [List.flatMap_cons, List.flatMap_append]
      refine Utf8.append ?_ ih
      rcases Unicode.utf8EncodeChar_cases c with ⟨hsmall, hc⟩ | hc
      · have hb : UInt8.ofNat c.toNat < 0x80 := by
          rw [UInt8.lt_iff_toNat_lt, Unicode.toNat_ofNat_of_lt hsmall]
          exact hsmall
        rw [hc, List.flatMap_singleton]
        exact utf8_of_ascii (h.ascii _ hb)
      · have hself : (String.utf8EncodeChar c).flatMap escape =
            String.utf8EncodeChar c := by
          rw [List.flatMap_congr fun b hb => h.raw b (hc b hb), List.flatMap_singleton']
        rw [hself]
        exact ⟨[c], by simp⟩

theorem KeepsUtf8.writeString (h : KeepsUtf8 escape) {bytes : List UInt8}
    (hbytes : Utf8 bytes) : Utf8 (writeString escape bytes) := by
  have hquote : Utf8 [0x22] := utf8_singleton (by decide)
  exact hquote.append ((h.flatMap hbytes).append hquote)

theorem utf8_writeNumber (n : Nat) : Utf8 (writeNumber n) := by
  apply utf8_of_ascii
  intro b hb
  have hdigit := isDigit_of_mem_writeNumber hb
  have hhigh : b ≤ 0x39 := of_decide_eq_true (Bool.and_eq_true_iff.mp hdigit).2
  exact UInt8.lt_of_le_of_lt hhigh (by decide)

def Value.Utf8 : Value → Prop
  | .string bytes => Json.Utf8 bytes
  | .number _ => True

theorem KeepsUtf8.writeMember (h : KeepsUtf8 escape) {member : List UInt8 × Value}
    (hname : Utf8 member.1) (hvalue : member.2.Utf8) :
    Utf8 (writeMember escape member) := by
  apply (h.writeString hname).append
  apply Utf8.append (a := [0x3A]) (utf8_singleton (by decide))
  cases hkind : member.2 with
  | string bytes =>
      rw [hkind] at hvalue
      exact h.writeString hvalue
  | number n => exact utf8_writeNumber n

theorem utf8_intercalate {parts : List (List UInt8)}
    (h : ∀ part ∈ parts, Utf8 part) : Utf8 ([0x2C].intercalate parts) := by
  induction parts with
  | nil => exact ⟨[], rfl⟩
  | cons part parts ih =>
      have hpart := h part (by simp)
      cases parts with
      | nil => simpa using hpart
      | cons next parts =>
          rw [List.intercalate_cons_cons]
          exact (hpart.append (utf8_singleton (by decide))).append
            (ih fun part hmem => h part (List.mem_cons_of_mem _ hmem))

theorem KeepsUtf8.writeObject (h : KeepsUtf8 escape)
    {members : List (List UInt8 × Value)}
    (hmembers : ∀ member ∈ members, Utf8 member.1 ∧ member.2.Utf8) :
    Utf8 (writeObject escape members) := by
  have hparts : Utf8 ([0x2C].intercalate (members.map (Json.writeMember escape))) := by
    apply utf8_intercalate
    intro part hpart
    rcases List.mem_map.mp hpart with ⟨member, hmember, rfl⟩
    exact h.writeMember (hmembers member hmember).1 (hmembers member hmember).2
  exact Utf8.append (a := [0x7B]) (utf8_singleton (by decide))
    (hparts.append (utf8_singleton (by decide)))

/-- A byte that no escape contains and that is no part of the syntax does not
occur. -/
theorem notMem_writeObject {c : UInt8} (hescape : ∀ b, c ∉ escape b)
    (hstructural : c ∉ [0x22, 0x2C, 0x3A, 0x7B, 0x7D]) (hdigit : isDigit c = false)
    (members : List (List UInt8 × Value)) : c ∉ writeObject escape members := by
  simp only [List.mem_cons, List.not_mem_nil, or_false, not_or] at hstructural
  rcases hstructural with ⟨hquote, hcomma, hcolon, hopen, hclose⟩
  have hstring : ∀ bytes, c ∉ Json.writeString escape bytes := by
    intro bytes
    simp [Json.writeString, hquote, hescape]
  have hmember : ∀ member, c ∉ Json.writeMember escape member := by
    rintro ⟨name, value⟩
    cases value with
    | string bytes => simp [Json.writeMember, writeValue, hstring, hcolon]
    | number n =>
        have hnumber : c ∉ writeNumber n := by
          intro hmem
          rw [isDigit_of_mem_writeNumber hmem] at hdigit
          cases hdigit
        simp [Json.writeMember, writeValue, hstring, hcolon, hnumber]
  have hparts : ∀ parts : List (List UInt8), (∀ part ∈ parts, c ∉ part) →
      c ∉ [0x2C].intercalate parts := by
    intro parts hall
    induction parts with
    | nil => simp
    | cons part parts ih =>
        have hpart := hall part (by simp)
        cases parts with
        | nil => simpa using hpart
        | cons next parts =>
            rw [List.intercalate_cons_cons]
            simp only [List.mem_append, List.mem_singleton, hpart, hcomma, false_or]
            exact ih fun part hmem => hall part (List.mem_cons_of_mem _ hmem)
  have hinside := hparts (members.map (Json.writeMember escape)) (by
    intro part hmem
    rcases List.mem_map.mp hmem with ⟨member, -, rfl⟩
    exact hmember member)
  simp [writeObject, hopen, hclose, hinside]

end Json
