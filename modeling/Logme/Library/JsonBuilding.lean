import Logme.Library.JsonTree
import Mathlib.Data.List.Lex

/-!
# Building JSON trees

A tree grows by setting a member of an object and by adding an item to an array;
the members of an object stand in the order of their names.  A text is one tree at
most, and it is UTF-8 exactly if the names and strings of the tree are.
-/

namespace Json

/-- The whole text is one value. -/
def IsText (input : List UInt8) (tree : Tree) : Prop :=
  ∃ rest, ReadsValue input tree rest ∧ skipSpace rest = []

theorem IsText.unique {input : List UInt8} {tree tree' : Tree} (h : IsText input tree)
    (h' : IsText input tree') : tree = tree' := by
  obtain ⟨_, hread, -⟩ := h
  obtain ⟨_, hread', -⟩ := h'
  exact (hread.unique hread').1

variable {escape : UInt8 → List UInt8}

theorem Faithful.isText_writeTree (h : Faithful escape) (tree : Tree) :
    IsText (writeTree escape tree) tree := by
  have hread := @Faithful.readsValue_writeTree escape h tree [] nofun
  rw [List.append_nil] at hread
  exact ⟨[], hread, rfl⟩

/-! ## Members and items -/

/-- The bytes of a name as numbers. -/
def nameKey {α : Type*} (member : List UInt8 × α) : List Nat :=
  member.1.map UInt8.toNat

namespace Tree

def members : Tree → List (List UInt8 × Tree)
  | .object members => members
  | _ => []

def items : Tree → List Tree
  | .array items => items
  | _ => []

/-- Any other tree becomes an object with this one member. -/
def set (tree : Tree) (name : List UInt8) (value : Tree) : Tree :=
  .object (LowerBound.insertOrReplace nameKey (name, value) tree.members)

/-- Any other tree becomes an array with this one item. -/
def push (tree value : Tree) : Tree := .array (tree.items ++ [value])

mutual

/-- The tree with other numbers. -/
def mapNumber (f : Int → Int) : Tree → Tree
  | .null => .null
  | .bool b => .bool b
  | .number n => .number (f n)
  | .string bytes => .string bytes
  | .array items => .array (mapNumberItems f items)
  | .object members => .object (mapNumberMembers f members)

def mapNumberItems (f : Int → Int) : List Tree → List Tree
  | [] => []
  | item :: items => mapNumber f item :: mapNumberItems f items

def mapNumberMembers (f : Int → Int) :
    List (List UInt8 × Tree) → List (List UInt8 × Tree)
  | [] => []
  | (name, tree) :: members => (name, mapNumber f tree) :: mapNumberMembers f members

end

mutual

/-- What holds of every number, and of every name and string. -/
def All (number : Int → Prop) (text : List UInt8 → Prop) : Tree → Prop
  | .null => True
  | .bool _ => True
  | .number n => number n
  | .string bytes => text bytes
  | .array items => AllItems number text items
  | .object members => AllMembers number text members

def AllItems (number : Int → Prop) (text : List UInt8 → Prop) : List Tree → Prop
  | [] => True
  | item :: items => All number text item ∧ AllItems number text items

def AllMembers (number : Int → Prop) (text : List UInt8 → Prop) :
    List (List UInt8 × Tree) → Prop
  | [] => True
  | (name, tree) :: members =>
      text name ∧ All number text tree ∧ AllMembers number text members

end

def AllNumbers (number : Int → Prop) (tree : Tree) : Prop := tree.All number fun _ => True

def AllTexts (text : List UInt8 → Prop) (tree : Tree) : Prop := tree.All (fun _ => True) text

mutual

/-- No object has two members with one name. -/
def DistinctNames : Tree → Prop
  | .null => True
  | .bool _ => True
  | .number _ => True
  | .string _ => True
  | .array items => DistinctItems items
  | .object members => (members.map Prod.fst).Nodup ∧ DistinctMembers members

def DistinctItems : List Tree → Prop
  | [] => True
  | item :: items => DistinctNames item ∧ DistinctItems items

def DistinctMembers : List (List UInt8 × Tree) → Prop
  | [] => True
  | (_, tree) :: members => DistinctNames tree ∧ DistinctMembers members

end

theorem distinctItems_iff {items : List Tree} :
    DistinctItems items ↔ ∀ item ∈ items, item.DistinctNames := by
  induction items with
  | nil => exact iff_of_true trivial nofun
  | cons item items ih => rw [DistinctItems, ih, List.forall_mem_cons]

theorem distinctMembers_iff {members : List (List UInt8 × Tree)} :
    DistinctMembers members ↔ ∀ member ∈ members, member.2.DistinctNames := by
  induction members with
  | nil => exact iff_of_true trivial nofun
  | cons member members ih => rw [DistinctMembers, ih, List.forall_mem_cons]

theorem allItems_iff {number : Int → Prop} {text : List UInt8 → Prop} {items : List Tree} :
    AllItems number text items ↔ ∀ item ∈ items, item.All number text := by
  induction items with
  | nil => exact iff_of_true trivial nofun
  | cons item items ih => rw [AllItems, ih, List.forall_mem_cons]

theorem allMembers_iff {number : Int → Prop} {text : List UInt8 → Prop}
    {members : List (List UInt8 × Tree)} :
    AllMembers number text members ↔
      ∀ member ∈ members, text member.1 ∧ member.2.All number text := by
  induction members with
  | nil => exact iff_of_true trivial nofun
  | cons member members ih => rw [AllMembers, ih, List.forall_mem_cons, and_assoc]

variable (f : Int → Int)

theorem mapNumberItems_eq_map (items : List Tree) :
    mapNumberItems f items = items.map (mapNumber f) := by
  induction items with
  | nil => rfl
  | cons item items ih => rw [mapNumberItems, ih, List.map_cons]

theorem mapNumberMembers_eq_map (members : List (List UInt8 × Tree)) :
    mapNumberMembers f members = members.map fun m => (m.1, m.2.mapNumber f) := by
  induction members with
  | nil => rfl
  | cons member members ih => rw [mapNumberMembers, ih, List.map_cons]

theorem members_mapNumber (tree : Tree) :
    (tree.mapNumber f).members = tree.members.map fun m => (m.1, m.2.mapNumber f) := by
  cases tree with
  | object members => exact mapNumberMembers_eq_map f members
  | _ => rfl

theorem items_mapNumber (tree : Tree) :
    (tree.mapNumber f).items = tree.items.map (mapNumber f) := by
  cases tree with
  | array items => exact mapNumberItems_eq_map f items
  | _ => rfl

theorem mapNumber_set (tree : Tree) (name : List UInt8) (value : Tree) :
    (tree.set name value).mapNumber f = (tree.mapNumber f).set name (value.mapNumber f) := by
  rw [set, set, mapNumber, mapNumberMembers_eq_map, members_mapNumber]
  refine congrArg object (LowerBound.insertOrReplace_map (fun _ => ?_) (name, value) _).symm
  rfl

theorem mapNumber_push (tree value : Tree) :
    (tree.push value).mapNumber f = (tree.mapNumber f).push (value.mapNumber f) := by
  rw [push, push, mapNumber, mapNumberItems_eq_map, items_mapNumber, List.map_append,
    List.map_singleton]

mutual

/-- Only numbers that stay as they are leave the tree as it is. -/
theorem mapNumber_eq_self_iff : ∀ tree : Tree,
    tree.mapNumber f = tree ↔ tree.AllNumbers fun n => f n = n
  | .null => iff_of_true rfl trivial
  | .bool _ => iff_of_true rfl trivial
  | .number _ => number.injEq _ _ ▸ Iff.rfl
  | .string _ => iff_of_true rfl trivial
  | .array items => by
      rw [mapNumber, array.injEq, mapNumberItems_eq_self_iff items]
      rfl
  | .object members => by
      rw [mapNumber, object.injEq, mapNumberMembers_eq_self_iff members]
      rfl

theorem mapNumberItems_eq_self_iff : ∀ items : List Tree,
    mapNumberItems f items = items ↔ AllItems (fun n => f n = n) (fun _ => True) items
  | [] => iff_of_true rfl trivial
  | item :: items => by
      rw [mapNumberItems, List.cons.injEq, mapNumber_eq_self_iff item,
        mapNumberItems_eq_self_iff items]
      rfl

theorem mapNumberMembers_eq_self_iff : ∀ members : List (List UInt8 × Tree),
    mapNumberMembers f members = members ↔
      AllMembers (fun n => f n = n) (fun _ => True) members
  | [] => iff_of_true rfl trivial
  | (name, tree) :: members => by
      rw [mapNumberMembers, List.cons.injEq, Prod.mk.injEq, mapNumber_eq_self_iff tree,
        mapNumberMembers_eq_self_iff members, AllMembers, and_assoc, eq_self, AllNumbers]

end

mutual

theorem allTexts_mapNumber (text : List UInt8 → Prop) : ∀ tree : Tree,
    (tree.mapNumber f).AllTexts text ↔ tree.AllTexts text
  | .null => Iff.rfl
  | .bool _ => Iff.rfl
  | .number _ => Iff.rfl
  | .string _ => Iff.rfl
  | .array items => allTextsItems_mapNumber text items
  | .object members => allTextsMembers_mapNumber text members

theorem allTextsItems_mapNumber (text : List UInt8 → Prop) : ∀ items : List Tree,
    AllItems (fun _ => True) text (mapNumberItems f items) ↔ AllItems (fun _ => True) text items
  | [] => Iff.rfl
  | item :: items =>
      and_congr (allTexts_mapNumber text item) (allTextsItems_mapNumber text items)

theorem allTextsMembers_mapNumber (text : List UInt8 → Prop) :
    ∀ members : List (List UInt8 × Tree),
      AllMembers (fun _ => True) text (mapNumberMembers f members) ↔
        AllMembers (fun _ => True) text members
  | [] => Iff.rfl
  | (_, tree) :: members =>
      and_congr Iff.rfl
        (and_congr (allTexts_mapNumber text tree) (allTextsMembers_mapNumber text members))

end

end Tree

/-! ## UTF-8 -/

theorem utf8_nil : Utf8 [] := ⟨[], rfl⟩

def isAscii (bytes : List UInt8) : Bool := bytes.all (· < 0x80)

theorem isAscii_iff {bytes : List UInt8} : isAscii bytes = true ↔ ∀ b ∈ bytes, b < 0x80 := by
  simp [isAscii]

theorem utf8_of_isAscii {bytes : List UInt8} (h : isAscii bytes = true) : Utf8 bytes :=
  utf8_of_ascii (isAscii_iff.mp h)

/-- An ASCII byte stands between two characters. -/
theorem utf8_append_cons_iff {b : UInt8} (hb : b < 0x80) (before after : List UInt8) :
    Utf8 (before ++ b :: after) ↔ Utf8 before ∧ Utf8 after := by
  constructor
  · rintro ⟨cs, hcs⟩
    induction cs generalizing before with
    | nil => simp at hcs
    | cons c cs ih =>
        rw [List.flatMap_cons, List.append_eq_append_iff] at hcs
        rcases hcs with ⟨tail, hchar, htail⟩ | ⟨tail, rfl, htail⟩
        · cases tail with
          | nil =>
              rw [List.append_nil] at hchar
              obtain ⟨-, hafter⟩ := ih [] htail
              exact ⟨⟨[c], by simp [hchar]⟩, hafter⟩
          | cons b' tail =>
              obtain ⟨rfl, rfl⟩ := List.cons.inj htail
              rcases Unicode.utf8EncodeChar_cases c with ⟨-, hsingle⟩ | hlarge
              · rw [hsingle, List.singleton_eq_append_iff] at hchar
                simp only [List.cons.injEq, List.cons_ne_nil, and_false, or_false] at hchar
                obtain ⟨rfl, -, rfl⟩ := hchar
                exact ⟨utf8_nil, cs, rfl⟩
              · exact absurd hb (hlarge b (hchar ▸ by simp))
        · obtain ⟨hbefore, hafter⟩ := ih tail htail.symm
          exact ⟨Utf8.append ⟨[c], by simp⟩ hbefore, hafter⟩
  · rintro ⟨hbefore, hafter⟩
    exact hbefore.append ((utf8_singleton hb).append hafter)

theorem utf8_cons_iff {b : UInt8} (hb : b < 0x80) (after : List UInt8) :
    Utf8 (b :: after) ↔ Utf8 after :=
  (utf8_append_cons_iff hb [] after).trans (and_iff_right utf8_nil)

theorem utf8_ascii_append_iff {ascii : List UInt8} (h : ∀ b ∈ ascii, b < 0x80)
    (after : List UInt8) : Utf8 (ascii ++ after) ↔ Utf8 after := by
  induction ascii with
  | nil => rfl
  | cons b ascii ih =>
      rw [List.forall_mem_cons] at h
      rw [List.cons_append, utf8_cons_iff h.1, ih h.2]

theorem utf8_append_ascii_iff {ascii : List UInt8} (h : ∀ b ∈ ascii, b < 0x80)
    (before : List UInt8) : Utf8 (before ++ ascii) ↔ Utf8 before := by
  cases ascii with
  | nil => rw [List.append_nil]
  | cons b ascii =>
      rw [List.forall_mem_cons] at h
      rw [utf8_append_cons_iff h.1, and_iff_left (utf8_of_ascii h.2)]

/-- The parts of a text before and after an ASCII byte. -/
theorem Utf8.cut {bytes : List UInt8} (h : Utf8 bytes) {stop : UInt8} (hstop : stop < 0x80) :
    Utf8 (bytes.takeWhile (· ≠ stop)) ∧ Utf8 ((bytes.dropWhile (· ≠ stop)).drop 1) := by
  rw [← List.takeWhile_append_dropWhile (p := (· ≠ stop)) (l := bytes)] at h
  cases hafter : bytes.dropWhile (· ≠ stop) with
  | nil =>
      rw [hafter, List.append_nil] at h
      exact ⟨h, utf8_nil⟩
  | cons b after =>
      have hb : b = stop := by
        have hnot := List.head?_dropWhile_not (· ≠ stop) bytes
        rw [hafter] at hnot
        simpa using hnot
      rw [hafter, utf8_append_cons_iff (hb ▸ hstop)] at h
      exact h

/-- Without some ASCII bytes at the beginning. -/
theorem Utf8.dropWhile {bytes : List UInt8} (h : Utf8 bytes) {skip : UInt8 → Bool}
    (hskip : ∀ b, skip b = true → b < 0x80) : Utf8 (bytes.dropWhile skip) := by
  rw [← List.takeWhile_append_dropWhile (p := skip) (l := bytes),
    utf8_ascii_append_iff fun b hb => hskip b (List.mem_takeWhile_imp hb)] at h
  exact h

theorem utf8_intercalate_iff (parts : List (List UInt8)) :
    Utf8 ([0x2C].intercalate parts) ↔ ∀ part ∈ parts, Utf8 part := by
  induction parts with
  | nil => exact iff_of_true utf8_nil nofun
  | cons part parts ih =>
      cases parts with
      | nil => simp
      | cons next parts =>
          rw [List.intercalate_cons_cons, List.append_assoc, List.singleton_append,
            utf8_append_cons_iff (by decide)]
          exact (and_congr Iff.rfl ih).trans List.forall_mem_cons.symm

theorem Faithful.escape_ne_nil (h : Faithful escape) (b : UInt8) : escape b ≠ [] := by
  intro hnil
  have hread := h b [0x22]
  rw [hnil, List.nil_append, readString_quote] at hread
  cases hread

theorem utf8_writeInteger (n : Int) : Utf8 (writeInteger n) := by
  cases n with
  | ofNat n => exact utf8_writeNumber n
  | negSucc n => exact (utf8_cons_iff (by decide) _).mpr (utf8_writeNumber (n + 1))

namespace Faithful

theorem utf8_flatMap_iff (h : Faithful escape) (hkeeps : KeepsUtf8 escape)
    (bytes : List UInt8) : Utf8 (bytes.flatMap escape) ↔ Utf8 bytes := by
  refine ⟨?_, hkeeps.flatMap⟩
  -- `raw` are the bytes that stand for themselves since the last ASCII byte.
  suffices hraw : ∀ raw, Utf8 (raw ++ bytes.flatMap escape) → Utf8 (raw ++ bytes) from hraw []
  induction bytes with
  | nil => exact fun raw hraw => hraw
  | cons b bytes ih =>
      intro raw hraw
      rw [List.flatMap_cons] at hraw
      by_cases hb : b < 0x80
      · obtain ⟨e, es, hescape⟩ := List.exists_cons_of_ne_nil (h.escape_ne_nil b)
        have hascii := hkeeps.ascii b hb
        rw [hescape, List.forall_mem_cons] at hascii
        rw [hescape, List.cons_append, utf8_append_cons_iff hascii.1,
          utf8_ascii_append_iff hascii.2] at hraw
        exact (utf8_append_cons_iff hb raw bytes).mpr ⟨hraw.1, ih [] hraw.2⟩
      · rw [hkeeps.raw b hb, List.singleton_append, List.append_cons] at hraw
        rw [List.append_cons]
        exact ih _ hraw

theorem utf8_writeString_iff (h : Faithful escape) (hkeeps : KeepsUtf8 escape)
    (bytes : List UInt8) : Utf8 (writeString escape bytes) ↔ Utf8 bytes := by
  rw [writeString, utf8_cons_iff (by decide), utf8_append_cons_iff (by decide),
    h.utf8_flatMap_iff hkeeps, and_iff_left utf8_nil]

theorem utf8_writeMemberTree_iff (h : Faithful escape) (hkeeps : KeepsUtf8 escape)
    (member : List UInt8 × Tree) :
    Utf8 (writeMemberTree escape member) ↔
      Utf8 member.1 ∧ Utf8 (writeTree escape member.2) := by
  rw [writeMemberTree, utf8_append_cons_iff (by decide), h.utf8_writeString_iff hkeeps]

mutual

theorem utf8_writeTree_iff (h : Faithful escape) (hkeeps : KeepsUtf8 escape) : ∀ tree : Tree,
    Utf8 (writeTree escape tree) ↔ tree.AllTexts Utf8
  | .null =>
      iff_of_true (utf8_of_isAscii (show isAscii nullText = true by decide)) trivial
  | .bool true =>
      iff_of_true (utf8_of_isAscii (show isAscii (boolText true) = true by decide)) trivial
  | .bool false =>
      iff_of_true (utf8_of_isAscii (show isAscii (boolText false) = true by decide)) trivial
  | .number n => iff_of_true (utf8_writeInteger n) trivial
  | .string bytes => h.utf8_writeString_iff hkeeps bytes
  | .array items => by
      rw [writeTree, utf8_cons_iff (by decide), utf8_append_cons_iff (by decide),
        and_iff_left utf8_nil, writeItems_eq_intercalate, utf8_intercalate_iff,
        List.forall_mem_map, utf8_writeItems_iff h hkeeps items]
      rfl
  | .object members => by
      rw [writeTree, utf8_cons_iff (by decide), utf8_append_cons_iff (by decide),
        and_iff_left utf8_nil, writeMembers_eq_intercalate, utf8_intercalate_iff,
        List.forall_mem_map, utf8_writeMembers_iff h hkeeps members]
      rfl

theorem utf8_writeItems_iff (h : Faithful escape) (hkeeps : KeepsUtf8 escape) :
    ∀ items : List Tree,
    (∀ item ∈ items, Utf8 (writeTree escape item)) ↔ Tree.AllItems (fun _ => True) Utf8 items
  | [] => iff_of_true nofun trivial
  | item :: items => by
      rw [List.forall_mem_cons, utf8_writeTree_iff h hkeeps item,
        utf8_writeItems_iff h hkeeps items]
      rfl

theorem utf8_writeMembers_iff (h : Faithful escape) (hkeeps : KeepsUtf8 escape) :
    ∀ members : List (List UInt8 × Tree),
    (∀ member ∈ members, Utf8 (writeMemberTree escape member)) ↔
      Tree.AllMembers (fun _ => True) Utf8 members
  | [] => iff_of_true nofun trivial
  | (name, tree) :: members => by
      rw [List.forall_mem_cons, h.utf8_writeMemberTree_iff hkeeps, utf8_writeTree_iff h hkeeps tree,
        utf8_writeMembers_iff h hkeeps members, and_assoc]
      rfl

end

end Faithful

end Json
