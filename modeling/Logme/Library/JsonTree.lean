import Logme.Library.Json
import Logme.Library.LowerBound

/-!
# JSON texts

The grammar of JSON values on the bytes of a text, as a relation between the
bytes, the value that begins there and the bytes that follow it.  Numbers are
integers.  What a faithful escape of the strings writes is read as the value that
was written.
-/

namespace Json

inductive Tree where
  | null
  | bool (b : Bool)
  | number (n : Int)
  | string (bytes : List UInt8)
  | array (items : List Tree)
  | object (members : List (List UInt8 × Tree))

def nullText : List UInt8 := [0x6E, 0x75, 0x6C, 0x6C]

def boolText : Bool → List UInt8
  | true => [0x74, 0x72, 0x75, 0x65]
  | false => [0x66, 0x61, 0x6C, 0x73, 0x65]

/-- A natural number with or without a minus sign. -/
def readInteger (input : List UInt8) : Option (Int × List UInt8) :=
  match input with
  | [] => none
  | b :: rest =>
      if b = 0x2D then (readNumber rest).map fun read => (-(read.1 : Int), read.2)
      else (readNumber input).map fun read => ((read.1 : Int), read.2)

mutual

/-- A value with the white space before it, and what follows. -/
inductive ReadsValue : List UInt8 → Tree → List UInt8 → Prop
  | null {input rest : List UInt8} (h : skipSpace input = nullText ++ rest) :
      ReadsValue input .null rest
  | bool {input rest : List UInt8} (b : Bool) (h : skipSpace input = boolText b ++ rest) :
      ReadsValue input (.bool b) rest
  | number {input rest : List UInt8} {n : Int}
      (h : readInteger (skipSpace input) = some (n, rest)) : ReadsValue input (.number n) rest
  | string {input inside bytes rest : List UInt8} (hopen : readToken 0x22 input = some inside)
      (h : readString inside = some (bytes, rest)) : ReadsValue input (.string bytes) rest
  | emptyArray {input inside rest : List UInt8} (hopen : readToken 0x5B input = some inside)
      (hclose : readToken 0x5D inside = some rest) : ReadsValue input (.array []) rest
  | array {input inside rest : List UInt8} {items : List Tree}
      (hopen : readToken 0x5B input = some inside) (h : ReadsItems inside items rest) :
      ReadsValue input (.array items) rest
  | emptyObject {input inside rest : List UInt8} (hopen : readToken 0x7B input = some inside)
      (hclose : readToken 0x7D inside = some rest) : ReadsValue input (.object []) rest
  | object {input inside rest : List UInt8} {members : List (List UInt8 × Tree)}
      (hopen : readToken 0x7B input = some inside) (h : ReadsMembers inside members rest) :
      ReadsValue input (.object members) rest

/-- The items up to the closing bracket. -/
inductive ReadsItems : List UInt8 → List Tree → List UInt8 → Prop
  | last {input after rest : List UInt8} {item : Tree} (h : ReadsValue input item after)
      (hclose : readToken 0x5D after = some rest) : ReadsItems input [item] rest
  | more {input after next rest : List UInt8} {item : Tree} {items : List Tree}
      (h : ReadsValue input item after) (hcomma : readToken 0x2C after = some next)
      (hmore : ReadsItems next items rest) : ReadsItems input (item :: items) rest

/-- The members up to the closing brace. -/
inductive ReadsMembers : List UInt8 → List (List UInt8 × Tree) → List UInt8 → Prop
  | last {input inside name after value last rest : List UInt8} {tree : Tree}
      (hopen : readToken 0x22 input = some inside)
      (hname : readString inside = some (name, after))
      (hcolon : readToken 0x3A after = some value) (h : ReadsValue value tree last)
      (hclose : readToken 0x7D last = some rest) : ReadsMembers input [(name, tree)] rest
  | more {input inside name after value last next rest : List UInt8} {tree : Tree}
      {members : List (List UInt8 × Tree)} (hopen : readToken 0x22 input = some inside)
      (hname : readString inside = some (name, after))
      (hcolon : readToken 0x3A after = some value) (h : ReadsValue value tree last)
      (hcomma : readToken 0x2C last = some next) (hmore : ReadsMembers next members rest) :
      ReadsMembers input ((name, tree) :: members) rest

end

/-- The whole text is one object. -/
def IsObject (input : List UInt8) (members : List (List UInt8 × Tree)) : Prop :=
  ∃ rest, ReadsValue input (.object members) rest ∧ skipSpace rest = []

/-- An object begins with a brace. -/
theorem IsObject.readToken_brace {input : List UInt8} {members : List (List UInt8 × Tree)}
    (h : IsObject input members) : ∃ inside, readToken 0x7B input = some inside := by
  obtain ⟨rest, hread, -⟩ := h
  cases hread with
  | emptyObject hopen _ => exact ⟨_, hopen⟩
  | object hopen _ => exact ⟨_, hopen⟩

theorem IsObject.head {b : UInt8} {rest : List UInt8}
    {members : List (List UInt8 × Tree)} (h : IsObject (b :: rest) members)
    (hb : isSpace b = false) : b = 0x7B := by
  obtain ⟨inside, hopen⟩ := h.readToken_brace
  by_contra hne
  rw [readToken_of_ne hb hne] at hopen
  contradiction

/-! ## One reading -/

theorem readToken_eq_some_iff {token : UInt8} {input rest : List UInt8} :
    readToken token input = some rest ↔ skipSpace input = token :: rest := by
  unfold readToken
  split
  next b after h =>
    rw [h]
    by_cases hb : b = token <;> simp [hb]
  next h => simp [h]

theorem readToken_unique {token token' : UInt8} {input rest rest' : List UInt8}
    (h : readToken token input = some rest) (h' : readToken token' input = some rest') :
    token = token' ∧ rest = rest' := by
  rw [readToken_eq_some_iff] at h h'
  exact List.cons.inj (h.symm.trans h')

theorem head_of_readNumber {input rest : List UInt8} {n : Nat}
    (h : readNumber input = some (n, rest)) : ∃ d after, isDigit d = true ∧ input = d :: after := by
  unfold readNumber at h
  cases input with
  | nil => simp at h
  | cons d after =>
      refine ⟨d, after, ?_, rfl⟩
      by_contra hd
      simp [hd] at h

theorem head_of_readInteger {input rest : List UInt8} {n : Int}
    (h : readInteger input = some (n, rest)) :
    ∃ b after, (b = 0x2D ∨ isDigit b = true) ∧ input = b :: after := by
  cases input with
  | nil => cases h
  | cons b after =>
      refine ⟨b, after, ?_, rfl⟩
      by_cases hsign : b = 0x2D
      · exact .inl hsign
      · rw [readInteger, if_neg hsign, Option.map_eq_some_iff] at h
        obtain ⟨⟨n, rest⟩, hread, -⟩ := h
        obtain ⟨d, after', hd, hinput⟩ := head_of_readNumber hread
        exact .inr ((List.cons.inj hinput).1 ▸ hd)

/-- The kind of value that a first byte announces. -/
inductive Lead where
  | null
  | bool
  | number
  | string
  | array
  | object
  deriving DecidableEq

def lead (b : UInt8) : Option Lead :=
  if b = 0x6E then some .null
  else if b = 0x74 ∨ b = 0x66 then some .bool
  else if b = 0x2D ∨ isDigit b then some .number
  else if b = 0x22 then some .string
  else if b = 0x5B then some .array
  else if b = 0x7B then some .object
  else none

def Tree.lead : Tree → Lead
  | .null => .null
  | .bool _ => .bool
  | .number _ => .number
  | .string _ => .string
  | .array _ => .array
  | .object _ => .object

theorem lead_of_integer {b : UInt8} (h : b = 0x2D ∨ isDigit b = true) :
    lead b = some .number := by
  unfold isDigit at h
  unfold lead isDigit
  grind

theorem ReadsValue.lead {input rest : List UInt8} {t : Tree} (h : ReadsValue input t rest) :
    ∃ b after, skipSpace input = b :: after ∧ Json.lead b = some t.lead := by
  cases h with
  | null h => exact ⟨_, _, h, rfl⟩
  | bool b h => cases b <;> exact ⟨_, _, h, rfl⟩
  | number h =>
      obtain ⟨b, after, hb, hinput⟩ := head_of_readInteger h
      exact ⟨b, after, hinput, lead_of_integer hb⟩
  | string hopen _ => exact ⟨_, _, readToken_eq_some_iff.mp hopen, rfl⟩
  | emptyArray hopen _ => exact ⟨_, _, readToken_eq_some_iff.mp hopen, rfl⟩
  | array hopen _ => exact ⟨_, _, readToken_eq_some_iff.mp hopen, rfl⟩
  | emptyObject hopen _ => exact ⟨_, _, readToken_eq_some_iff.mp hopen, rfl⟩
  | object hopen _ => exact ⟨_, _, readToken_eq_some_iff.mp hopen, rfl⟩

theorem ReadsValue.lead_eq {input rest rest' : List UInt8} {t t' : Tree}
    (h : ReadsValue input t rest) (h' : ReadsValue input t' rest') : t.lead = t'.lead := by
  obtain ⟨b, after, hinput, hlead⟩ := h.lead
  obtain ⟨b', after', hinput', hlead'⟩ := h'.lead
  obtain ⟨rfl, rfl⟩ := List.cons.inj (hinput.symm.trans hinput')
  exact Option.some.inj (hlead.symm.trans hlead')

/-- No value begins with a token that announces none. -/
theorem ReadsValue.readToken_eq_none {input rest : List UInt8} {t : Tree} {token : UInt8}
    (h : ReadsValue input t rest) (htoken : Json.lead token = none) :
    readToken token input = none := by
  obtain ⟨b, after, hinput, hlead⟩ := h.lead
  cases hread : readToken token input with
  | none => rfl
  | some inside =>
      rw [readToken_eq_some_iff, hinput] at hread
      obtain ⟨rfl, -⟩ := List.cons.inj hread
      rw [htoken] at hlead
      contradiction

theorem ReadsItems.readToken_eq_none {input rest : List UInt8} {items : List Tree}
    {token : UInt8} (h : ReadsItems input items rest) (htoken : Json.lead token = none) :
    readToken token input = none := by
  cases h with
  | last h _ => exact h.readToken_eq_none htoken
  | more h _ _ => exact h.readToken_eq_none htoken

theorem ReadsMembers.readToken_eq_none {input rest : List UInt8}
    {members : List (List UInt8 × Tree)} {token : UInt8} (h : ReadsMembers input members rest)
    (htoken : token ≠ 0x22) : readToken token input = none := by
  have hname : ∀ inside, readToken 0x22 input = some inside → readToken token input = none := by
    intro inside hopen
    cases hread : readToken token input with
    | none => rfl
    | some other => exact absurd (readToken_unique hread hopen).1 htoken
  cases h with
  | last hopen _ _ _ _ => exact hname _ hopen
  | more hopen _ _ _ _ _ => exact hname _ hopen

/-- The name of a member and what follows its colon. -/
theorem readName_unique {input inside inside' name name' after after' value value' : List UInt8}
    (hopen : readToken 0x22 input = some inside)
    (hname : readString inside = some (name, after))
    (hcolon : readToken 0x3A after = some value)
    (hopen' : readToken 0x22 input = some inside')
    (hname' : readString inside' = some (name', after'))
    (hcolon' : readToken 0x3A after' = some value') : name = name' ∧ value = value' := by
  obtain ⟨-, rfl⟩ := readToken_unique hopen hopen'
  obtain ⟨rfl, rfl⟩ := Prod.mk.inj (Option.some.inj (hname.symm.trans hname'))
  exact ⟨rfl, (readToken_unique hcolon hcolon').2⟩

mutual

theorem ReadsValue.unique {input rest rest' : List UInt8} {t t' : Tree}
    (h : ReadsValue input t rest) (h' : ReadsValue input t' rest') : t = t' ∧ rest = rest' := by
  have hlead := h.lead_eq h'
  cases h with
  | null h =>
      cases h' with
      | null h' => exact ⟨rfl, List.append_cancel_left (h.symm.trans h')⟩
      | _ => cases hlead
  | bool b h =>
      cases h' with
      | bool b' h' =>
          rw [h] at h'
          have hb : b = b' := by
            cases b <;> cases b' <;> first | rfl | cases (List.cons.inj h').1
          subst hb
          exact ⟨rfl, List.append_cancel_left h'⟩
      | _ => cases hlead
  | number h =>
      cases h' with
      | number h' =>
          rw [h] at h'
          obtain ⟨rfl, rfl⟩ := Prod.mk.inj (Option.some.inj h')
          exact ⟨rfl, rfl⟩
      | _ => cases hlead
  | string hopen h =>
      cases h' with
      | string hopen' h' =>
          obtain ⟨-, rfl⟩ := readToken_unique hopen hopen'
          rw [h] at h'
          obtain ⟨rfl, rfl⟩ := Prod.mk.inj (Option.some.inj h')
          exact ⟨rfl, rfl⟩
      | _ => cases hlead
  | emptyArray hopen hclose =>
      cases h' with
      | emptyArray hopen' hclose' =>
          obtain ⟨-, rfl⟩ := readToken_unique hopen hopen'
          rw [hclose] at hclose'
          exact ⟨rfl, Option.some.inj hclose'⟩
      | array hopen' h' =>
          obtain ⟨-, rfl⟩ := readToken_unique hopen hopen'
          rw [h'.readToken_eq_none rfl] at hclose
          cases hclose
      | _ => cases hlead
  | array hopen h =>
      cases h' with
      | emptyArray hopen' hclose' =>
          obtain ⟨-, rfl⟩ := readToken_unique hopen hopen'
          rw [h.readToken_eq_none rfl] at hclose'
          cases hclose'
      | array hopen' h' =>
          obtain ⟨-, rfl⟩ := readToken_unique hopen hopen'
          obtain ⟨rfl, rfl⟩ := h.unique h'
          exact ⟨rfl, rfl⟩
      | _ => cases hlead
  | emptyObject hopen hclose =>
      cases h' with
      | emptyObject hopen' hclose' =>
          obtain ⟨-, rfl⟩ := readToken_unique hopen hopen'
          rw [hclose] at hclose'
          exact ⟨rfl, Option.some.inj hclose'⟩
      | object hopen' h' =>
          obtain ⟨-, rfl⟩ := readToken_unique hopen hopen'
          rw [h'.readToken_eq_none (by decide)] at hclose
          cases hclose
      | _ => cases hlead
  | object hopen h =>
      cases h' with
      | emptyObject hopen' hclose' =>
          obtain ⟨-, rfl⟩ := readToken_unique hopen hopen'
          rw [h.readToken_eq_none (by decide)] at hclose'
          cases hclose'
      | object hopen' h' =>
          obtain ⟨-, rfl⟩ := readToken_unique hopen hopen'
          obtain ⟨rfl, rfl⟩ := h.unique h'
          exact ⟨rfl, rfl⟩
      | _ => cases hlead

theorem ReadsItems.unique {input rest rest' : List UInt8} {items items' : List Tree}
    (h : ReadsItems input items rest) (h' : ReadsItems input items' rest') :
    items = items' ∧ rest = rest' := by
  cases h with
  | last h hclose =>
      cases h' with
      | last h' hclose' =>
          obtain ⟨rfl, rfl⟩ := h.unique h'
          exact ⟨rfl, (readToken_unique hclose hclose').2⟩
      | more h' hcomma' _ =>
          obtain ⟨rfl, rfl⟩ := h.unique h'
          cases (readToken_unique hclose hcomma').1
  | more h hcomma hmore =>
      cases h' with
      | last h' hclose' =>
          obtain ⟨rfl, rfl⟩ := h.unique h'
          cases (readToken_unique hcomma hclose').1
      | more h' hcomma' hmore' =>
          obtain ⟨rfl, rfl⟩ := h.unique h'
          obtain ⟨-, rfl⟩ := readToken_unique hcomma hcomma'
          obtain ⟨rfl, rfl⟩ := hmore.unique hmore'
          exact ⟨rfl, rfl⟩

theorem ReadsMembers.unique {input rest rest' : List UInt8}
    {members members' : List (List UInt8 × Tree)} (h : ReadsMembers input members rest)
    (h' : ReadsMembers input members' rest') : members = members' ∧ rest = rest' := by
  cases h with
  | last hopen hname hcolon h hclose =>
      cases h' with
      | last hopen' hname' hcolon' h' hclose' =>
          obtain ⟨rfl, rfl⟩ := readName_unique hopen hname hcolon hopen' hname' hcolon'
          obtain ⟨rfl, rfl⟩ := h.unique h'
          exact ⟨rfl, (readToken_unique hclose hclose').2⟩
      | more hopen' hname' hcolon' h' hcomma' _ =>
          obtain ⟨rfl, rfl⟩ := readName_unique hopen hname hcolon hopen' hname' hcolon'
          obtain ⟨rfl, rfl⟩ := h.unique h'
          cases (readToken_unique hclose hcomma').1
  | more hopen hname hcolon h hcomma hmore =>
      cases h' with
      | last hopen' hname' hcolon' h' hclose' =>
          obtain ⟨rfl, rfl⟩ := readName_unique hopen hname hcolon hopen' hname' hcolon'
          obtain ⟨rfl, rfl⟩ := h.unique h'
          cases (readToken_unique hcomma hclose').1
      | more hopen' hname' hcolon' h' hcomma' hmore' =>
          obtain ⟨rfl, rfl⟩ := readName_unique hopen hname hcolon hopen' hname' hcolon'
          obtain ⟨rfl, rfl⟩ := h.unique h'
          obtain ⟨-, rfl⟩ := readToken_unique hcomma hcomma'
          obtain ⟨rfl, rfl⟩ := hmore.unique hmore'
          exact ⟨rfl, rfl⟩

end

/-- A text is one object at most. -/
theorem IsObject.unique {input : List UInt8} {members members' : List (List UInt8 × Tree)}
    (h : IsObject input members) (h' : IsObject input members') : members = members' := by
  obtain ⟨_, hread, -⟩ := h
  obtain ⟨_, hread', -⟩ := h'
  exact Tree.object.inj (hread.unique hread').1

/-! ## Writing -/

/-- An integer in decimal digits. -/
def writeInteger : Int → List UInt8
  | .ofNat n => writeNumber n
  | .negSucc n => 0x2D :: writeNumber (n + 1)

variable (escape : UInt8 → List UInt8)

mutual

def writeTree : Tree → List UInt8
  | .null => nullText
  | .bool b => boolText b
  | .number n => writeInteger n
  | .string bytes => writeString escape bytes
  | .array items => 0x5B :: (writeItems items ++ [0x5D])
  | .object members => 0x7B :: (writeMembers members ++ [0x7D])

def writeItems : List Tree → List UInt8
  | [] => []
  | item :: items => writeTree item ++ continueItems items

/-- The items after the first one. -/
def continueItems : List Tree → List UInt8
  | [] => []
  | item :: items => 0x2C :: (writeTree item ++ continueItems items)

def writeMembers : List (List UInt8 × Tree) → List UInt8
  | [] => []
  | (name, tree) :: members =>
      writeString escape name ++ 0x3A :: (writeTree tree ++ continueMembers members)

/-- The members after the first one. -/
def continueMembers : List (List UInt8 × Tree) → List UInt8
  | [] => []
  | (name, tree) :: members =>
      0x2C :: (writeString escape name ++ 0x3A :: (writeTree tree ++ continueMembers members))

end

variable {escape}

theorem writeItems_eq_intercalate (items : List Tree) :
    writeItems escape items = [0x2C].intercalate (items.map (writeTree escape)) := by
  have hcontinue : ∀ items : List Tree, continueItems escape items =
      if items = [] then [] else 0x2C :: writeItems escape items := by
    rintro (_ | ⟨item, items⟩) <;> simp [writeItems, continueItems]
  induction items with
  | nil => rfl
  | cons item items ih =>
      cases items with
      | nil => simp [writeItems, continueItems]
      | cons next items =>
          rw [writeItems, hcontinue, if_neg (List.cons_ne_nil _ _), ih]
          simp

/-- One member, between the commas. -/
def writeMemberTree (escape : UInt8 → List UInt8) (member : List UInt8 × Tree) : List UInt8 :=
  writeString escape member.1 ++ 0x3A :: writeTree escape member.2

theorem writeMembers_eq_intercalate (members : List (List UInt8 × Tree)) :
    writeMembers escape members =
      [0x2C].intercalate (members.map (writeMemberTree escape)) := by
  have hcontinue : ∀ members : List (List UInt8 × Tree), continueMembers escape members =
      if members = [] then [] else 0x2C :: writeMembers escape members := by
    rintro (_ | ⟨member, members⟩) <;> simp [writeMembers, continueMembers]
  induction members with
  | nil => rfl
  | cons member members ih =>
      cases members with
      | nil => simp [writeMembers, continueMembers, writeMemberTree]
      | cons next members =>
          rw [writeMembers, hcontinue, if_neg (List.cons_ne_nil _ _), ih]
          simp [writeMemberTree]

/-! ### Reading what was written -/

theorem skipSpace_cons {b : UInt8} (h : isSpace b = false) (rest : List UInt8) :
    skipSpace (b :: rest) = b :: rest := by
  rw [skipSpace, List.dropWhile_cons_of_neg (by simp [h])]

theorem skipSpace_append {text : List UInt8} (h : ∀ b ∈ text.head?, isSpace b = false)
    (hnonempty : text ≠ []) (rest : List UInt8) : skipSpace (text ++ rest) = text ++ rest := by
  cases text with
  | nil => exact absurd rfl hnonempty
  | cons b text => exact skipSpace_cons (h b rfl) _

theorem writeNumber_ne_nil (n : Nat) : writeNumber n ≠ [] :=
  fun hnil => Nat.toDigits_ne_nil (List.map_eq_nil_iff.mp hnil)

theorem readInteger_writeInteger (n : Int) {rest : List UInt8} (hrest : EndsNumber rest) :
    readInteger (writeInteger n ++ rest) = some (n, rest) := by
  cases n with
  | ofNat n =>
      obtain ⟨d, ds, hwritten⟩ := List.exists_cons_of_ne_nil (writeNumber_ne_nil n)
      have hdigit : isDigit d = true :=
        isDigit_of_mem_writeNumber (n := n) (hwritten ▸ List.mem_cons_self)
      have hsign : d ≠ 0x2D := by
        rintro rfl
        exact absurd hdigit (by decide)
      have hread := readNumber_writeNumber n hrest
      rw [hwritten] at hread
      rw [writeInteger, hwritten, List.cons_append, readInteger, if_neg hsign,
        ← List.cons_append, hread]
      rfl
  | negSucc n =>
      rw [writeInteger, List.cons_append, readInteger, if_pos rfl,
        readNumber_writeNumber (n + 1) hrest]
      rfl

theorem head_writeInteger (n : Int) : ∀ b ∈ (writeInteger n).head?, isSpace b = false := by
  intro b hb
  cases n with
  | ofNat n => exact isSpace_of_isDigit (isDigit_of_mem_writeNumber (List.mem_of_mem_head? hb))
  | negSucc n =>
      obtain rfl := Option.some.inj hb
      decide

theorem writeInteger_ne_nil (n : Int) : writeInteger n ≠ [] := by
  cases n with
  | ofNat n => exact writeNumber_ne_nil n
  | negSucc n => exact List.cons_ne_nil _ _

theorem readsValue_number (n : Int) {rest : List UInt8} (hrest : EndsNumber rest) :
    ReadsValue (writeInteger n ++ rest) (.number n) rest := by
  refine .number ?_
  rw [skipSpace_append (head_writeInteger n) (writeInteger_ne_nil n),
    readInteger_writeInteger n hrest]

theorem endsNumber_cons {b : UInt8} (h : isDigit b = false) (rest : List UInt8) :
    EndsNumber (b :: rest) := by
  rintro _ ⟨⟩
  exact h

namespace Faithful

theorem readString_writeString (h : Faithful escape) (bytes rest : List UInt8) :
    ∃ inside, readToken 0x22 (writeString escape bytes ++ rest) = some inside ∧
      readString inside = some (bytes, rest) :=
  Option.bind_eq_some_iff.mp (h.readToken_writeString bytes rest)

mutual

theorem readsValue_writeTree (h : Faithful escape) :
    ∀ (tree : Tree) {rest : List UInt8}, EndsNumber rest →
      ReadsValue (writeTree escape tree ++ rest) tree rest
  | .null, rest, _ => .null (skipSpace_cons (by decide) _)
  | .bool true, rest, _ => .bool true (skipSpace_cons (by decide) _)
  | .bool false, rest, _ => .bool false (skipSpace_cons (by decide) _)
  | .number n, rest, hrest => readsValue_number n hrest
  | .string bytes, rest, _ =>
      have ⟨_, hopen, hread⟩ := h.readString_writeString bytes rest
      .string hopen hread
  | .array [], rest, _ =>
      .emptyArray (readToken_cons (by decide) _) (readToken_cons (by decide) _)
  | .array (item :: items), rest, _ => by
      have hitems := readsItems_writeItems h (item :: items) (List.cons_ne_nil _ _) rest
      rw [List.append_cons] at hitems
      exact .array (readToken_cons (by decide) _) hitems
  | .object [], rest, _ =>
      .emptyObject (readToken_cons (by decide) _) (readToken_cons (by decide) _)
  | .object (member :: members), rest, _ => by
      have hmembers := readsMembers_writeMembers h (member :: members) (List.cons_ne_nil _ _) rest
      rw [List.append_cons] at hmembers
      exact .object (readToken_cons (by decide) _) hmembers

theorem readsItems_writeItems (h : Faithful escape) :
    ∀ (items : List Tree), items ≠ [] → ∀ rest : List UInt8,
      ReadsItems (writeItems escape items ++ 0x5D :: rest) items rest
  | [], hitems, _ => absurd rfl hitems
  | [item], _, rest => by
      have hread := readsValue_writeTree h item (endsNumber_cons (b := 0x5D) (by decide) rest)
      rw [writeItems, continueItems, List.append_nil]
      exact .last hread (readToken_cons (by decide) rest)
  | item :: next :: items, _, rest => by
      have hmore := readsItems_writeItems h (next :: items) (List.cons_ne_nil _ _) rest
      have hread := readsValue_writeTree h item (endsNumber_cons (b := 0x2C) (by decide)
        (writeItems escape (next :: items) ++ 0x5D :: rest))
      rw [writeItems, continueItems, List.append_assoc]
      exact .more hread (readToken_cons (by decide) _) hmore

theorem readsMembers_writeMembers (h : Faithful escape) :
    ∀ (members : List (List UInt8 × Tree)), members ≠ [] → ∀ rest : List UInt8,
      ReadsMembers (writeMembers escape members ++ 0x7D :: rest) members rest
  | [], hmembers, _ => absurd rfl hmembers
  | [(name, tree)], _, rest => by
      have hread := readsValue_writeTree h tree (endsNumber_cons (b := 0x7D) (by decide) rest)
      obtain ⟨inside, hopen, hname⟩ := h.readString_writeString name
        (0x3A :: (writeTree escape tree ++ 0x7D :: rest))
      rw [writeMembers, continueMembers, List.append_nil, List.append_assoc, List.cons_append]
      exact .last hopen hname (readToken_cons (by decide) _) hread (readToken_cons (by decide) _)
  | (name, tree) :: next :: members, _, rest => by
      have hmore := readsMembers_writeMembers h (next :: members) (List.cons_ne_nil _ _) rest
      have hread := readsValue_writeTree h tree (endsNumber_cons (b := 0x2C) (by decide)
        (writeMembers escape (next :: members) ++ 0x7D :: rest))
      obtain ⟨inside, hopen, hname⟩ := h.readString_writeString name
        (0x3A :: (writeTree escape tree ++
          0x2C :: (writeMembers escape (next :: members) ++ 0x7D :: rest)))
      rw [writeMembers, continueMembers, List.append_assoc, List.cons_append, List.append_assoc]
      exact .more hopen hname (readToken_cons (by decide) _) hread
        (readToken_cons (by decide) _) hmore

end

/-- A written object with white space after it is one object. -/
theorem isObject_writeTree (h : Faithful escape) (members : List (List UInt8 × Tree))
    {space : List UInt8} (hspace : ∀ b ∈ space, isSpace b = true) :
    IsObject (writeTree escape (.object members) ++ space) members := by
  refine ⟨space, h.readsValue_writeTree _ fun b hb => ?_, List.dropWhile_eq_nil_iff.mpr hspace⟩
  cases hdigit : isDigit b with
  | false => rfl
  | true =>
      have hnot := isSpace_of_isDigit hdigit
      rw [hspace b (List.mem_of_mem_head? hb)] at hnot
      contradiction

end Faithful

end Json
