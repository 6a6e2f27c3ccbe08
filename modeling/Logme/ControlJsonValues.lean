import Logme.ControlJson
import Logme.Library.JsonBuilding

/-!
# The JSON values of the control protocol

A value is built by its constructors, `Set` and `Push`, and is written by `ToString`.
The text is one JSON value in any case; it is the tree that was built exactly if
every integer of that tree is one of `int64_t`, since an unsigned one is stored as
such.
-/

namespace Logme.ControlJson

open Json LowerBound

/-! ## The class -/

inductive JsonType where
  | null
  | bool
  | number
  | string
  | object
  | array
  deriving DecidableEq

structure JsonValue where
  t : JsonType
  b : Bool
  n : Int64
  s : Name
  o : List (Name × JsonValue)
  a : List JsonValue

namespace JsonValue

def null : JsonValue := ⟨.null, false, 0, [], [], []⟩

def ofBool (value : Bool) : JsonValue := { null with t := .bool, b := value }

def ofInt64 (value : Int64) : JsonValue := { null with t := .number, n := value }

/-- The cast to `int64_t`. -/
def ofUInt64 (value : UInt64) : JsonValue := { null with t := .number, n := value.toInt64 }

def ofString (value : Name) : JsonValue := { null with t := .string, s := value }

/-- A null pointer is the empty string. -/
def ofCString (value : Option Name) : JsonValue :=
  { null with t := .string, s := value.elim [] cString }

def object : JsonValue := { null with t := .object }

def array : JsonValue := { null with t := .array }

/-- A value of another type loses what it holds. -/
def set (v : JsonValue) (key : Name) (value : JsonValue) : JsonValue :=
  let v := if v.t ≠ .object then object else v
  { v with o := insertOrReplace nameKey (key, value) v.o }

def push (v value : JsonValue) : JsonValue :=
  let v := if v.t ≠ .array then array else v
  { v with a := v.a ++ [value] }

/-- The cases are those of `JsonEscape`. -/
def appendEscaped (out s : Name) : Name :=
  out ++ ascii "\"" ++ controlJsonEscape s ++ ascii "\""

mutual

def append (out : Name) : JsonValue → Name
  | ⟨.null, _, _, _, _, _⟩ => out ++ ascii "null"
  | ⟨.bool, b, _, _, _, _⟩ => out ++ if b then ascii "true" else ascii "false"
  | ⟨.number, _, n, _, _, _⟩ => out ++ signedBytes n.toInt
  | ⟨.string, _, _, s, _, _⟩ => appendEscaped out s
  | ⟨.object, _, _, _, o, _⟩ => appendMembers (out ++ ascii "\x7b") true o ++ ascii "\x7d"
  | ⟨.array, _, _, _, _, a⟩ => appendItems (out ++ ascii "[") true a ++ ascii "]"

def appendMembers (out : Name) (first : Bool) : List (Name × JsonValue) → Name
  | [] => out
  | (key, value) :: o =>
      let out := if first then out else out ++ ascii ","
      appendMembers (append (appendEscaped out key ++ ascii ":") value) false o

def appendItems (out : Name) (first : Bool) : List JsonValue → Name
  | [] => out
  | item :: a =>
      let out := if first then out else out ++ ascii ","
      appendItems (append out item) false a

end

def toString (v : JsonValue) : Name := append [] v

/-! ## The tree that is stored -/

mutual

def tree : JsonValue → Tree
  | ⟨.null, _, _, _, _, _⟩ => .null
  | ⟨.bool, b, _, _, _, _⟩ => .bool b
  | ⟨.number, _, n, _, _, _⟩ => .number n.toInt
  | ⟨.string, _, _, s, _, _⟩ => .string s
  | ⟨.object, _, _, _, o, _⟩ => .object (treeMembers o)
  | ⟨.array, _, _, _, _, a⟩ => .array (treeItems a)

def treeMembers : List (Name × JsonValue) → List (Name × Tree)
  | [] => []
  | (key, value) :: o => (key, tree value) :: treeMembers o

def treeItems : List JsonValue → List Tree
  | [] => []
  | item :: a => tree item :: treeItems a

end

theorem treeMembers_eq_map (o : List (Name × JsonValue)) :
    treeMembers o = o.map fun member => (member.1, member.2.tree) := by
  induction o with
  | nil => rfl
  | cons member o ih => rw [treeMembers, ih, List.map_cons]

theorem treeItems_eq_map (a : List JsonValue) : treeItems a = a.map tree := by
  induction a with
  | nil => rfl
  | cons item a ih => rw [treeItems, ih, List.map_cons]

theorem members_tree (v : JsonValue) :
    v.tree.members = if v.t ≠ .object then [] else treeMembers v.o := by
  rcases v with ⟨_ | _ | _ | _ | _ | _, _, _, _, _, _⟩ <;> rfl

theorem items_tree (v : JsonValue) :
    v.tree.items = if v.t ≠ .array then [] else treeItems v.a := by
  rcases v with ⟨_ | _ | _ | _ | _ | _, _, _, _, _, _⟩ <;> rfl

theorem tree_set (v : JsonValue) (key : Name) (value : JsonValue) :
    (v.set key value).tree = v.tree.set key value.tree := by
  have hinsert : ∀ o : List (Name × JsonValue),
      treeMembers (insertOrReplace nameKey (key, value) o) =
        insertOrReplace nameKey (key, value.tree) (treeMembers o) := by
    intro o
    rw [treeMembers_eq_map, treeMembers_eq_map]
    refine (insertOrReplace_map (fun _ => ?_) (key, value) o).symm
    rfl
  rw [Tree.set, members_tree]
  by_cases hobject : v.t ≠ .object
  · rw [set, if_pos hobject, if_pos hobject]
    exact congrArg Tree.object (hinsert [])
  · rw [set, if_neg hobject, if_neg hobject, ← hinsert]
    obtain ⟨t, b, n, s, o, a⟩ := v
    obtain rfl : t = .object := not_not.mp hobject
    rfl

theorem tree_push (v value : JsonValue) :
    (v.push value).tree = v.tree.push value.tree := by
  have hpush : ∀ a : List JsonValue, treeItems (a ++ [value]) = treeItems a ++ [value.tree] := by
    intro a
    rw [treeItems_eq_map, treeItems_eq_map, List.map_append, List.map_singleton]
  rw [Tree.push, items_tree]
  by_cases harray : v.t ≠ .array
  · rw [push, if_pos harray, if_pos harray]
    exact congrArg Tree.array (hpush [])
  · rw [push, if_neg harray, if_neg harray, ← hpush]
    obtain ⟨t, b, n, s, o, a⟩ := v
    obtain rfl : t = .array := not_not.mp harray
    rfl

/-! ## The text -/

theorem signedBytes_eq_writeInteger (n : Int) : signedBytes n = writeInteger n := by
  cases n with
  | ofNat n => exact if_neg (Int.not_lt.mpr (Int.natCast_nonneg n))
  | negSucc n => exact if_pos (Int.negSucc_lt_zero n)

theorem appendEscaped_eq (out s : Name) :
    appendEscaped out s = out ++ writeString controlEscape s := by
  rw [← quoted_eq_writeString, appendEscaped, quoted]
  simp only [List.append_assoc]

mutual

theorem append_eq : ∀ (v : JsonValue) (out : Name),
    append out v = out ++ writeTree controlEscape v.tree
  | ⟨.null, _, _, _, _, _⟩, _ => rfl
  | ⟨.bool, true, _, _, _, _⟩, _ => rfl
  | ⟨.bool, false, _, _, _, _⟩, _ => rfl
  | ⟨.number, _, n, _, _, _⟩, out => by
      rw [append, tree, writeTree, signedBytes_eq_writeInteger]
  | ⟨.string, _, _, s, _, _⟩, out => by
      rw [append, tree, writeTree, appendEscaped_eq]
  | ⟨.object, _, _, _, o, _⟩, out => by
      rw [append, tree, writeTree, (appendMembers_eq o _).1]
      simp [ascii]
  | ⟨.array, _, _, _, _, a⟩, out => by
      rw [append, tree, writeTree, (appendItems_eq a _).1]
      simp [ascii]

theorem appendMembers_eq : ∀ (o : List (Name × JsonValue)) (out : Name),
    appendMembers out true o = out ++ writeMembers controlEscape (treeMembers o) ∧
      appendMembers out false o = out ++ continueMembers controlEscape (treeMembers o)
  | [], out => ⟨(List.append_nil out).symm, (List.append_nil out).symm⟩
  | (key, value) :: o, out => by
      simp only [appendMembers, treeMembers, writeMembers, continueMembers,
        (appendMembers_eq o _).2, append_eq value, appendEscaped_eq]
      simp [ascii]

theorem appendItems_eq : ∀ (a : List JsonValue) (out : Name),
    appendItems out true a = out ++ writeItems controlEscape (treeItems a) ∧
      appendItems out false a = out ++ continueItems controlEscape (treeItems a)
  | [], out => ⟨(List.append_nil out).symm, (List.append_nil out).symm⟩
  | item :: a, out => by
      simp only [appendItems, treeItems, writeItems, continueItems,
        (appendItems_eq a _).2, append_eq item]
      simp [ascii]

end

theorem toString_eq (v : JsonValue) : v.toString = writeTree controlEscape v.tree :=
  append_eq v []

/-- Every value is written as one JSON value. -/
theorem isText_toString (v : JsonValue) : IsText v.toString v.tree :=
  v.toString_eq ▸ controlEscape_faithful.isText_writeTree v.tree

end JsonValue

/-! ## Construction -/

/-- The calls that build a value. -/
inductive Construction where
  | null
  | bool (value : Bool)
  | int64 (value : Int64)
  | uint64 (value : UInt64)
  | cstring (value : Option Name)
  | string (value : Name)
  | object
  | array
  | set (v : Construction) (key : Name) (value : Construction)
  | push (v value : Construction)

namespace Construction

/-- The value that the calls leave. -/
def value : Construction → JsonValue
  | .null => .null
  | .bool value => .ofBool value
  | .int64 value => .ofInt64 value
  | .uint64 value => .ofUInt64 value
  | .cstring value => .ofCString value
  | .string value => .ofString value
  | .object => .object
  | .array => .array
  | .set v key value => v.value.set key value.value
  | .push v value => v.value.push value.value

/-- The tree that the calls mean: each integer is the one that was passed. -/
def tree : Construction → Tree
  | .null => .null
  | .bool value => .bool value
  | .int64 value => .number value.toInt
  | .uint64 value => .number value.toNat
  | .cstring value => .string (value.elim [] cString)
  | .string value => .string value
  | .object => .object []
  | .array => .array []
  | .set v key value => v.tree.set key value.tree
  | .push v value => v.tree.push value.tree

/-- The integer that `int64_t` keeps of one that is passed. -/
def stored (n : Int) : Int := (Int64.ofInt n).toInt

/-- The integers of `int64_t`. -/
def FitsInt64 (n : Int) : Prop := -0x8000000000000000 ≤ n ∧ n < 0x8000000000000000

theorem stored_eq_self_iff (n : Int) : stored n = n ↔ FitsInt64 n := by
  have hlow := Int64.le_toInt (Int64.ofInt n)
  have hhigh := Int64.toInt_lt (Int64.ofInt n)
  constructor
  · intro hn
    rw [← hn]
    exact ⟨hlow, hhigh⟩
  · rintro ⟨hge, hlt⟩
    exact Int64.toInt_ofInt_of_le hge hlt

theorem stored_toInt (n : Int64) : stored n.toInt = n.toInt := by
  rw [stored, Int64.ofInt_toInt]

theorem stored_toNat (n : UInt64) : stored n.toNat = n.toInt64.toInt := by
  have hcast : n.toInt64 = Int64.ofNat n.toNat := by
    rw [← UInt64.toInt64_ofNat', UInt64.ofNat_toNat]
  rw [stored, Int64.ofInt_eq_ofNat, hcast]

theorem value_tree (c : Construction) : c.value.tree = c.tree.mapNumber stored := by
  induction c with
  | int64 n => exact congrArg Tree.number (stored_toInt n).symm
  | uint64 n => exact congrArg Tree.number (stored_toNat n).symm
  | set v key w hv hw => rw [value, tree, JsonValue.tree_set, hv, hw, Tree.mapNumber_set]
  | push v w hv hw => rw [value, tree, JsonValue.tree_push, hv, hw, Tree.mapNumber_push]
  | _ => rfl

/-- The text of a built value is the tree that was built exactly if its integers
are ones of `int64_t`, and it is UTF-8 exactly if the names and strings are. -/
theorem toString_isText_iff (c : Construction) :
    (IsText c.value.toString c.tree ↔ c.tree.AllNumbers FitsInt64) ∧
      (Utf8 c.value.toString ↔ c.tree.AllTexts Utf8) := by
  have hread := c.value.isText_toString
  rw [c.value_tree] at hread
  constructor
  · have hsame : IsText c.value.toString c.tree ↔ c.tree.mapNumber stored = c.tree :=
      ⟨hread.unique, fun heq => heq ▸ hread⟩
    rw [hsame, Tree.mapNumber_eq_self_iff]
    simp only [stored_eq_self_iff]
  · rw [c.value.toString_eq, controlEscape_faithful.utf8_writeTree_iff controlEscape_keepsUtf8,
      c.value_tree, Tree.allTexts_mapNumber]

/-- The largest unsigned integer is written as -1. -/
theorem not_isText_toString_largest :
    ¬ IsText (uint64 0xFFFFFFFFFFFFFFFF).value.toString (uint64 0xFFFFFFFFFFFFFFFF).tree := by
  intro h
  have hsame := (uint64 0xFFFFFFFFFFFFFFFF).value.isText_toString.unique h
  exact absurd (Tree.number.inj hsame) (by decide)

end Construction

end Logme.ControlJson
