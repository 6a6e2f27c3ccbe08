import Logme.Library.Unicode

/-!
# Flat XML records

A strict reader of an XML 1.0 element whose children hold character data only:
what it accepts is well formed.  The markup of a text in UTF-8 is ASCII, so
the reader works on the bytes and decodes the names and the contents.  Line
ends are normalized first.  Attributes, comments, processing instructions,
CDATA sections, character references and a raw `>` are not accepted.
-/

namespace Xml

/-! ## Characters -/

def within (ranges : List (Nat × Nat)) (c : Char) : Bool :=
  ranges.any fun range => range.1 ≤ c.toNat && c.toNat ≤ range.2

/-- `Char`. -/
def isChar (c : Char) : Bool :=
  within [(0x9, 0xA), (0xD, 0xD), (0x20, 0xD7FF), (0xE000, 0xFFFD), (0x10000, 0x10FFFF)] c

/-- `NameStartChar`. -/
def isNameStart (c : Char) : Bool :=
  within [(0x3A, 0x3A), (0x41, 0x5A), (0x5F, 0x5F), (0x61, 0x7A), (0xC0, 0xD6),
    (0xD8, 0xF6), (0xF8, 0x2FF), (0x370, 0x37D), (0x37F, 0x1FFF), (0x200C, 0x200D),
    (0x2070, 0x218F), (0x2C00, 0x2FEF), (0x3001, 0xD7FF), (0xF900, 0xFDCF),
    (0xFDF0, 0xFFFD), (0x10000, 0xEFFFF)] c

/-- `NameChar`. -/
def isNameChar (c : Char) : Bool :=
  isNameStart c ||
    within [(0x2D, 0x2E), (0x30, 0x39), (0xB7, 0xB7), (0x300, 0x36F), (0x203F, 0x2040)] c

/-- `Name`. -/
def isName (bytes : List UInt8) : Bool :=
  match Unicode.decode bytes with
  | some (c :: cs) => isNameStart c && cs.all isNameChar
  | _ => false

def isText (bytes : List UInt8) : Bool :=
  match Unicode.decode bytes with
  | some cs => cs.all isChar
  | none => false

def isSpace (b : UInt8) : Bool :=
  b == 0x20 || b == 0x09 || b == 0x0A || b == 0x0D

/-! ## Reading -/

/-- A carriage return, alone or with the line feed behind it, is a line feed;
`afterReturn` when the byte before was a carriage return. -/
def normalizeLines (afterReturn : Bool) : List UInt8 → List UInt8
  | [] => []
  | b :: rest =>
      if b = 0x0D then 0x0A :: normalizeLines true rest
      else if afterReturn && b == 0x0A then normalizeLines false rest
      else b :: normalizeLines false rest

/-- The bytes before the first `b`, and those behind it. -/
def readUntil (b : UInt8) : List UInt8 → Option (List UInt8 × List UInt8)
  | [] => none
  | c :: rest =>
      if c = b then some ([], rest)
      else (readUntil b rest).map fun read => (c :: read.1, read.2)

/-- What follows the given bytes. -/
def expect (token input : List UInt8) : Option (List UInt8) :=
  if token.isPrefixOf input then some (input.drop token.length) else none

/-- The predefined entities. -/
def entity (name : List UInt8) : Option UInt8 :=
  if name = [0x61, 0x6D, 0x70] then some 0x26
  else if name = [0x6C, 0x74] then some 0x3C
  else if name = [0x67, 0x74] then some 0x3E
  else if name = [0x71, 0x75, 0x6F, 0x74] then some 0x22
  else if name = [0x61, 0x70, 0x6F, 0x73] then some 0x27
  else none

/-- Character data with its references replaced; `reference` is the name read
since an ampersand. -/
def readText : Option (List UInt8) → List UInt8 → Option (List UInt8)
  | none, [] => some []
  | some _, [] => none
  | none, b :: rest =>
      if b = 0x26 then readText (some []) rest
      else if b = 0x3C ∨ b = 0x3E then none
      else (readText none rest).map (b :: ·)
  | some reference, b :: rest =>
      if b = 0x3B then
        match entity reference with
        | some c => (readText none rest).map (c :: ·)
        | none => none
      else readText (some (reference ++ [b])) rest

def readStartTag (input : List UInt8) : Option (List UInt8 × List UInt8) := do
  let rest ← expect [0x3C] input
  let (name, rest) ← readUntil 0x3E rest
  if isName name then some (name, rest) else none

/-- An end tag without its `<`. -/
def closing (name : List UInt8) : List UInt8 := [0x2F] ++ name ++ [0x3E]

def endTag (name : List UInt8) : List UInt8 := 0x3C :: closing name

abbrev Field := List UInt8 × List UInt8

def readElement (input : List UInt8) : Option (Field × List UInt8) := do
  let (name, rest) ← readStartTag input
  let (raw, rest) ← readUntil 0x3C rest
  let value ← readText none raw
  let rest ← expect (closing name) rest
  if isText value then some ((name, value), rest) else none

/-- The children up to an end tag. -/
def readElements : Nat → List UInt8 → Option (List Field × List UInt8)
  | 0, _ => none
  | fuel + 1, input =>
      if [0x3C, 0x2F].isPrefixOf input then some ([], input)
      else
        match readElement input with
        | none => none
        | some (field, rest) =>
            (readElements fuel rest).map fun read => (field :: read.1, read.2)

/-- A whole text that is one element: its name, and the children with their
contents. -/
def readRecord (input : List UInt8) : Option (List UInt8 × List Field) := do
  let input := normalizeLines false input
  let (root, rest) ← readStartTag input
  let (fields, rest) ← readElements input.length rest
  let rest ← expect (endTag root) rest
  if rest.all isSpace then some (root, fields) else none

/-! ## Writing -/

variable (escape : UInt8 → List UInt8)

def startTag (name : List UInt8) : List UInt8 := [0x3C] ++ name ++ [0x3E]

def writeElement (field : Field) : List UInt8 :=
  startTag field.1 ++ field.2.flatMap escape ++ endTag field.1

def writeRecord (root : List UInt8) (fields : List Field) : List UInt8 :=
  startTag root ++ fields.flatMap (writeElement escape) ++ endTag root

/-- A field that the text of an element can show: line ends are normalized, so
no carriage return is. -/
structure Shown (field : Field) : Prop where
  name : isName field.1 = true
  text : isText field.2 = true
  noReturn : 0x0D ∉ field.2

/-! ## Names and texts -/

theorem notMem_of_isName {bytes : List UInt8} (h : isName bytes = true) {b : UInt8}
    (hb : b < 0x80) (hmarkup : isNameChar (Char.ofNat b.toNat) = false) : b ∉ bytes := by
  intro hmem
  unfold isName at h
  split at h
  next c cs hdecode =>
    have hchar := Unicode.char_of_mem_decode hdecode hb hmem
    have hnames : ∀ d ∈ c :: cs, isNameChar d = true := by
      intro d hd
      rcases List.mem_cons.mp hd with rfl | hd
      · simp [isNameChar, (Bool.and_eq_true_iff.mp h).1]
      · exact List.all_eq_true.mp (Bool.and_eq_true_iff.mp h).2 d hd
    rw [hnames _ hchar] at hmarkup
    cases hmarkup
  next => cases h

theorem notMem_of_isText {bytes : List UInt8} (h : isText bytes = true) {b : UInt8}
    (hb : b < 0x80) (hcontrol : isChar (Char.ofNat b.toNat) = false) : b ∉ bytes := by
  intro hmem
  unfold isText at h
  split at h
  next cs hdecode =>
    have hchar := Unicode.char_of_mem_decode hdecode hb hmem
    rw [List.all_eq_true.mp h _ hchar] at hcontrol
    cases hcontrol
  next => cases h

/-! ## The pieces -/

theorem expect_append (token rest : List UInt8) : expect token (token ++ rest) = some rest := by
  simp [expect]

theorem expect_eq_some {token input rest : List UInt8} (h : expect token input = some rest) :
    input = token ++ rest := by
  unfold expect at h
  split at h
  next hprefix =>
    rcases List.isPrefixOf_iff_prefix.mp hprefix with ⟨behind, rfl⟩
    simpa using h
  next => cases h

theorem readUntil_append {b : UInt8} {before : List UInt8} (h : b ∉ before)
    (rest : List UInt8) : readUntil b (before ++ b :: rest) = some (before, rest) := by
  induction before with
  | nil => simp [readUntil]
  | cons c before ih =>
      rw [List.mem_cons, not_or] at h
      rw [List.cons_append, readUntil, if_neg (Ne.symm h.1), ih h.2]
      rfl

theorem readUntil_eq_some {b : UInt8} {input before rest : List UInt8}
    (h : readUntil b input = some (before, rest)) : input = before ++ b :: rest := by
  induction input generalizing before with
  | nil => cases h
  | cons c input ih =>
      rw [readUntil] at h
      split at h
      next hfound =>
        cases h
        rw [hfound, List.nil_append]
      next =>
        rcases Option.map_eq_some_iff.mp h with ⟨⟨before', rest'⟩, hread, hpair⟩
        cases hpair
        rw [ih hread, List.cons_append]

theorem normalizeLines_eq_self {input : List UInt8} (h : 0x0D ∉ input) :
    normalizeLines false input = input := by
  induction input with
  | nil => rfl
  | cons b input ih =>
      rw [List.mem_cons, not_or] at h
      rw [normalizeLines, if_neg (Ne.symm h.1), ih h.2]
      rfl

theorem return_notMem_normalizeLines (afterReturn : Bool) (input : List UInt8) :
    0x0D ∉ normalizeLines afterReturn input := by
  induction input generalizing afterReturn with
  | nil => exact List.not_mem_nil
  | cons b input ih =>
      rw [normalizeLines]
      split_ifs with hreturn
      · simpa using ih true
      · exact ih false
      · rw [List.mem_cons, not_or]
        exact ⟨Ne.symm hreturn, ih false⟩

/-- A reference stands for a byte of markup. -/
theorem entity_ne_return {name : List UInt8} {c : UInt8} (h : entity name = some c) :
    c ≠ 0x0D := by
  unfold entity at h
  split_ifs at h <;> (cases h; decide)

theorem return_notMem_readText {reference : Option (List UInt8)}
    {input value : List UInt8} (h : readText reference input = some value)
    (hinput : 0x0D ∉ input) : 0x0D ∉ value := by
  have hcons : ∀ {c : UInt8} {rest : Option (List UInt8)} {value : List UInt8}, c ≠ 0x0D →
      (∀ tail, rest = some tail → 0x0D ∉ tail) → rest.map (c :: ·) = some value →
      0x0D ∉ value := by
    intro c rest value hc hrest hvalue
    rcases Option.map_eq_some_iff.mp hvalue with ⟨tail, htail, rfl⟩
    rw [List.mem_cons, not_or]
    exact ⟨hc.symm, hrest tail htail⟩
  induction input generalizing reference value with
  | nil =>
      cases reference with
      | none => cases h; exact List.not_mem_nil
      | some name => cases h
  | cons b input ih =>
      rw [List.mem_cons, not_or] at hinput
      have hrest : ∀ tail, readText none input = some tail → 0x0D ∉ tail :=
        fun tail htail => ih htail hinput.2
      cases reference with
      | none =>
          rw [readText] at h
          split_ifs at h
          · exact ih h hinput.2
          · exact hcons (Ne.symm hinput.1) hrest h
      | some name =>
          rw [readText] at h
          split at h
          next =>
            split at h
            next c hentity => exact hcons (entity_ne_return hentity) hrest h
            next => cases h
          next => exact ih h hinput.2

/-! ## What is read -/

theorem readStartTag_eq_some {input name rest : List UInt8}
    (h : readStartTag input = some (name, rest)) :
    isName name = true ∧ input = startTag name ++ rest := by
  simp only [readStartTag, Option.bind_eq_bind, Option.bind_eq_some_iff] at h
  rcases h with ⟨inside, htoken, ⟨name', rest'⟩, hname, h⟩
  dsimp only at h
  split at h
  next hvalid =>
    cases h
    refine ⟨hvalid, ?_⟩
    rw [expect_eq_some htoken, readUntil_eq_some hname]
    simp [startTag]
  next => cases h

theorem readElement_eq_some {input rest : List UInt8} {field : Field}
    (h : readElement input = some (field, rest)) (hinput : 0x0D ∉ input) :
    Shown field ∧ 0x0D ∉ rest := by
  simp only [readElement, Option.bind_eq_bind, Option.bind_eq_some_iff] at h
  rcases h with ⟨⟨name, behind⟩, htag, ⟨raw, markup⟩, hraw, value, hvalue, rest', hend, h⟩
  dsimp only at hraw hvalue hend h
  split at h
  next htext =>
    cases h
    rcases readStartTag_eq_some htag with ⟨hname, rfl⟩
    rw [readUntil_eq_some hraw, expect_eq_some hend] at hinput
    simp only [List.mem_append, List.mem_cons, not_or] at hinput
    rcases hinput with ⟨-, hcontent, -, -, hrest⟩
    exact ⟨⟨hname, htext, return_notMem_readText hvalue hcontent⟩, hrest⟩
  next => cases h

theorem readElements_shown {fuel : Nat} {input rest : List UInt8} {fields : List Field}
    (h : readElements fuel input = some (fields, rest)) (hinput : 0x0D ∉ input) :
    ∀ field ∈ fields, Shown field := by
  induction fuel generalizing input fields with
  | zero => cases h
  | succ fuel ih =>
      rw [readElements] at h
      split at h
      next =>
        cases h
        simp
      next =>
        split at h
        next => cases h
        next field rest' hfield =>
          rcases Option.map_eq_some_iff.mp h with ⟨⟨fields', behind⟩, hread, hpair⟩
          cases hpair
          rcases readElement_eq_some hfield hinput with ⟨hshown, hrest⟩
          rw [List.forall_mem_cons]
          exact ⟨hshown, ih hread hrest⟩

/-- Whatever is read can be shown. -/
theorem readRecord_shown {input root : List UInt8} {fields : List Field}
    (h : readRecord input = some (root, fields)) : ∀ field ∈ fields, Shown field := by
  simp only [readRecord, Option.bind_eq_bind, Option.bind_eq_some_iff] at h
  rcases h with ⟨⟨root', inside⟩, htag, ⟨fields', rest⟩, hfields, rest', hend, h⟩
  dsimp only at hfields hend h
  split at h
  next =>
    cases h
    apply readElements_shown hfields
    have hnormal := return_notMem_normalizeLines false input
    rw [(readStartTag_eq_some htag).2, List.mem_append, not_or] at hnormal
    exact hnormal.2
  next => cases h

/-! ## Reading what was written -/

/-- Each escaped byte is read back as that byte, and markup is escaped. -/
structure Faithful (escape : UInt8 → List UInt8) : Prop where
  read : ∀ (b : UInt8) (rest : List UInt8),
    readText none (escape b ++ rest) = (readText none rest).map (b :: ·)
  markup : ∀ b, 0x3C ∉ escape b
  noReturn : ∀ b, b ≠ 0x0D → 0x0D ∉ escape b

variable {escape}

theorem Faithful.readText_flatMap (h : Faithful escape) (value : List UInt8) :
    readText none (value.flatMap escape) = some value := by
  induction value with
  | nil => rfl
  | cons b value ih => rw [List.flatMap_cons, h.read, ih, Option.map_some]

theorem readStartTag_startTag {name : List UInt8} (h : isName name = true)
    (rest : List UInt8) : readStartTag (startTag name ++ rest) = some (name, rest) := by
  have hclose : 0x3E ∉ name := notMem_of_isName h (by decide) (by decide)
  have hwritten : startTag name ++ rest = [0x3C] ++ (name ++ 0x3E :: rest) := by
    simp [startTag]
  simp only [readStartTag, hwritten, expect_append, Option.bind_eq_bind, Option.bind_some,
    readUntil_append hclose, h, if_true]

theorem Faithful.markup_notMem (h : Faithful escape) (value : List UInt8) :
    0x3C ∉ value.flatMap escape := by
  intro hmem
  rcases List.mem_flatMap.mp hmem with ⟨b, -, hb⟩
  exact h.markup b hb

theorem Faithful.readElement_writeElement (h : Faithful escape) {field : Field}
    (hshown : Shown field) (rest : List UInt8) :
    readElement (writeElement escape field ++ rest) = some (field, rest) := by
  have hwritten : writeElement escape field ++ rest = startTag field.1 ++
      (field.2.flatMap escape ++ 0x3C :: (closing field.1 ++ rest)) := by
    simp [writeElement, endTag]
  simp only [readElement, hwritten, readStartTag_startTag hshown.name, Option.bind_eq_bind,
    Option.bind_some, readUntil_append (h.markup_notMem field.2), h.readText_flatMap,
    expect_append, hshown.text, if_true]

theorem slash_ne_isName {name : List UInt8} (h : isName name = true) (rest : List UInt8) :
    [0x3C, 0x2F].isPrefixOf (startTag name ++ rest) = false := by
  have hslash : 0x2F ∉ name := notMem_of_isName h (by decide) (by decide)
  cases name with
  | nil => cases h
  | cons b name =>
      rw [List.mem_cons, not_or] at hslash
      simp [startTag, List.isPrefixOf, hslash.1]

theorem Faithful.readElements_flatMap (h : Faithful escape) (fields : List Field)
    (hshown : ∀ field ∈ fields, Shown field) {fuel : Nat} (hfuel : fields.length < fuel)
    (root rest : List UInt8) :
    readElements fuel (fields.flatMap (writeElement escape) ++ (endTag root ++ rest)) =
      some (fields, endTag root ++ rest) := by
  induction fields generalizing fuel with
  | nil =>
      cases fuel with
      | zero => simp at hfuel
      | succ fuel => simp [readElements, endTag, closing]
  | cons field fields ih =>
      rw [List.forall_mem_cons] at hshown
      cases fuel with
      | zero => simp at hfuel
      | succ fuel =>
          rw [List.flatMap_cons, List.append_assoc, readElements,
            h.readElement_writeElement hshown.1]
          have hopen : [0x3C, 0x2F].isPrefixOf (writeElement escape field ++
              (fields.flatMap (writeElement escape) ++ (endTag root ++ rest))) = false := by
            rw [writeElement, List.append_assoc, List.append_assoc]
            exact slash_ne_isName hshown.1.name _
          rw [hopen, if_neg (by simp)]
          simp only [ih hshown.2 (by simpa using hfuel), Option.map_some]

theorem Faithful.return_notMem_writeElement (h : Faithful escape) {field : Field}
    (hshown : Shown field) : 0x0D ∉ writeElement escape field := by
  have hname : 0x0D ∉ field.1 := notMem_of_isName hshown.name (by decide) (by decide)
  have hvalue : 0x0D ∉ field.2.flatMap escape := by
    intro hmem
    rcases List.mem_flatMap.mp hmem with ⟨b, hb, hescaped⟩
    apply h.noReturn b _ hescaped
    rintro rfl
    exact hshown.noReturn hb
  simp [writeElement, startTag, endTag, closing, hname, hvalue]

theorem length_le_flatMap_writeElement (fields : List Field) :
    fields.length ≤ (fields.flatMap (writeElement escape)).length := by
  induction fields with
  | nil => simp
  | cons field fields ih =>
      simp only [List.flatMap_cons, List.length_append, List.length_cons, writeElement,
        startTag]
      omega

/-- A record is read back, with white space behind it, exactly when each field
can be shown. -/
theorem Faithful.readRecord_writeRecord_iff (h : Faithful escape) {root : List UInt8}
    (hroot : isName root = true) (fields : List Field) {space : List UInt8}
    (hspace : space.all isSpace = true) (hreturn : 0x0D ∉ space) :
    readRecord (writeRecord escape root fields ++ space) = some (root, fields) ↔
      ∀ field ∈ fields, Shown field := by
  constructor
  · exact readRecord_shown
  · intro hshown
    have hnormal : 0x0D ∉ writeRecord escape root fields ++ space := by
      have hname : 0x0D ∉ root := notMem_of_isName hroot (by decide) (by decide)
      have hfields : 0x0D ∉ fields.flatMap (writeElement escape) := by
        intro hmem
        rcases List.mem_flatMap.mp hmem with ⟨field, hfield, hwritten⟩
        exact h.return_notMem_writeElement (hshown field hfield) hwritten
      simp [writeRecord, startTag, endTag, closing, hname, hfields, hreturn]
    have hlength : fields.length < (writeRecord escape root fields ++ space).length := by
      have hfields : fields.length ≤ (fields.flatMap (writeElement escape)).length :=
        length_le_flatMap_writeElement fields
      simp only [writeRecord, startTag, List.length_append, List.length_singleton]
      omega
    have hwritten : writeRecord escape root fields ++ space = startTag root ++
        (fields.flatMap (writeElement escape) ++ (endTag root ++ space)) := by
      simp [writeRecord]
    rw [readRecord, normalizeLines_eq_self hnormal]
    generalize (writeRecord escape root fields ++ space).length = fuel at hlength ⊢
    simp only [hwritten, readStartTag_startTag hroot, Option.bind_eq_bind, Option.bind_some,
      h.readElements_flatMap fields hshown hlength, expect_append, hspace, if_true]

end Xml
