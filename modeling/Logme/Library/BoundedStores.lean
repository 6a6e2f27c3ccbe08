import Mathlib.Data.List.Basic

/-!
# Stores below a bound

Items are stored into cells at a place that is computed beforehand.  A store
that would reach behind the bound, or a place in front of the cells, has no
result, so that a run with a result has kept to its cells.
-/

namespace BoundedStores

variable {α : Type*} {bound : Nat}

/-- The items are stored from place `i` on. -/
def store (bound : Nat) (cells : List α) (i : Nat) (items : List α) : Option (List α) :=
  if i + items.length ≤ bound then
    some (cells.take i ++ items ++ cells.drop (i + items.length))
  else none

/-- A place is moved back. -/
def back (i n : Nat) : Option Nat :=
  if n ≤ i then some (i - n) else none

/-- The items take the place of as many others. -/
theorem store_parts (before : List α) {hole items : List α} (hhole : hole.length = items.length)
    (hbound : before.length + items.length ≤ bound) (after : List α) :
    store bound (before ++ hole ++ after) before.length items =
      some (before ++ items ++ after) := by
  have hdrop : (before ++ hole ++ after).drop (before.length + items.length) = after := by
    rw [← hhole, ← List.length_append, List.drop_left]
  rw [store, if_pos hbound, hdrop, List.append_assoc before hole, List.take_left]

theorem exists_append_of_length {cells : List α} {m n : Nat} (hlength : cells.length = m + n) :
    ∃ front behind, cells = front ++ behind ∧ front.length = m ∧ behind.length = n := by
  refine ⟨cells.take m, cells.drop m, (List.take_append_drop m cells).symm, ?_, ?_⟩
  · rw [List.length_take]
    omega
  · rw [List.length_drop]
    omega

theorem store_append (before : List α) {cells items : List α}
    (hbound : before.length + items.length ≤ bound)
    (hcells : items.length ≤ cells.length) :
    store bound (before ++ cells) before.length items =
      some (before ++ items ++ cells.drop items.length) := by
  have hhole : (cells.take items.length).length = items.length := by
    rw [List.length_take]
    omega
  have hparts := store_parts before hhole hbound (cells.drop items.length)
  rwa [List.append_assoc before, List.take_append_drop] at hparts

theorem back_add (i n : Nat) : back (i + n) n = some i := by
  rw [back, if_pos (by omega)]
  congr 1
  omega

end BoundedStores
