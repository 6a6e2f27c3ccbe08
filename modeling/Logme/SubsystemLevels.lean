import Logme.Library.LowerBound
import Mathlib.Algebra.Group.Nat.Defs
import Mathlib.Order.Nat

/-!
# Levels and subsystem level overrides

The logger keeps the level overrides of subsystems in a vector that is sorted
by subsystem and searched with `std::lower_bound`.  A subsystem is its packed
64-bit name; 0 is no subsystem.
-/

namespace Logme

inductive Level where
  | debug
  | info
  | warn
  | error
  | critical
  deriving DecidableEq

namespace Level

/-- The enumerators are compared by their values. -/
def value : Level → Nat
  | debug => 0
  | info => 1
  | warn => 2
  | error => 3
  | critical => 4

instance : LE Level := ⟨fun a b => a.value ≤ b.value⟩

instance : LT Level := ⟨fun a b => a.value < b.value⟩

instance (a b : Level) : Decidable (a ≤ b) :=
  inferInstanceAs (Decidable (a.value ≤ b.value))

instance (a b : Level) : Decidable (a < b) :=
  inferInstanceAs (Decidable (a.value < b.value))

theorem not_lt {a b : Level} : ¬ a < b ↔ b ≤ a := Nat.not_lt

theorem not_le {a b : Level} : ¬ a ≤ b ↔ b < a := Nat.not_le

/-- `DEFAULT_LEVEL`. -/
def default : Level := info

end Level

structure SubsystemLevel where
  subsystem : Nat
  filterLevel : Level
  deriving DecidableEq

/-- The vector `SubsystemLevels`, and the one of a snapshot. -/
abbrev SubsystemLevels := List SubsystemLevel

namespace SubsystemLevels

open LowerBound

def Sorted (levels : SubsystemLevels) : Prop :=
  LowerBound.Sorted SubsystemLevel.subsystem levels

/-- The update of `SetSubsystemLevel`. -/
def set (levels : SubsystemLevels) (sid : Nat) (level : Level) :
    SubsystemLevels :=
  insertOrReplace SubsystemLevel.subsystem ⟨sid, level⟩ levels

/-- The update of `RemoveSubsystemLevel`; `none` when the subsystem has no
override. -/
def remove (levels : SubsystemLevels) (sid : Nat) : Option SubsystemLevels :=
  if (find? SubsystemLevel.subsystem sid levels).isSome then
    some (erase SubsystemLevel.subsystem sid levels)
  else none

/-- The search of `GetSubsystemLevel` in a snapshot. -/
def get (levels : SubsystemLevels) (sid : Nat) : Option Level :=
  (find? SubsystemLevel.subsystem sid levels).map SubsystemLevel.filterLevel

theorem sorted_nil : Sorted [] := List.Pairwise.nil

theorem Sorted.set {levels : SubsystemLevels} (h : levels.Sorted) (sid : Nat)
    (level : Level) : (levels.set sid level).Sorted :=
  LowerBound.Sorted.insertOrReplace h _

theorem Sorted.remove {levels rest : SubsystemLevels} {sid : Nat}
    (h : levels.Sorted) (hremove : levels.remove sid = some rest) :
    rest.Sorted := by
  unfold SubsystemLevels.remove at hremove
  split at hremove
  next =>
    simp only [Option.some.injEq] at hremove
    exact hremove ▸ LowerBound.Sorted.erase h sid
  next => simp at hremove

@[simp] theorem get_nil (sid : Nat) : get [] sid = none := rfl

theorem get_set {levels : SubsystemLevels} (h : levels.Sorted) (sid : Nat)
    (level : Level) (sid' : Nat) :
    (levels.set sid level).get sid' =
      if sid = sid' then some level else levels.get sid' := by
  unfold get set
  rw [find?_insertOrReplace h]
  split
  next => rfl
  next => rfl

/-- After `RemoveSubsystemLevel` the subsystem has no override. -/
theorem get_remove {levels : SubsystemLevels} (h : levels.Sorted)
    (sid sid' : Nat) :
    ((levels.remove sid).getD levels).get sid' =
      if sid = sid' then none else levels.get sid' := by
  unfold remove
  split
  next =>
    rw [Option.getD_some, get, find?_erase h]
    split
    next => rfl
    next => rfl
  next hnone =>
    rw [Option.getD_none]
    split
    next heq =>
      subst heq
      rw [get, Option.not_isSome_iff_eq_none.mp hnone, Option.map_none]
    next => rfl

end SubsystemLevels
end Logme
