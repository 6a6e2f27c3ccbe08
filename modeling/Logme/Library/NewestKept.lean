import Mathlib.Data.List.Sort
import Mathlib.Order.Nat

/-!
# Removing the oldest elements

A list is sorted strictly by age, and some number of its elements is removed,
the oldest first, where elements that cannot be removed are passed over.  This
file says when exactly the newest elements are left.
-/

namespace NewestKept

variable {α κ : Type*} [LinearOrder κ] (key : α → κ)

/-- How many elements are newer than `a`. -/
def newer (l : List α) (a : α) : ℕ := l.countP fun b => decide (key a < key b)

def Ascending (l : List α) : Prop := l.Pairwise fun a b => key a < key b

/-- All but the last `n`. -/
def old (n : ℕ) (l : List α) : List α := l.take (l.length - n)

/-- The last `n`. -/
def recent (n : ℕ) (l : List α) : List α := l.drop (l.length - n)

/-- The elements that are left are the newest `n`. -/
def LeavesNewest (n : ℕ) (l removed : List α) : Prop :=
  ∀ a ∈ l, a ∈ removed ↔ n ≤ newer key l a

variable {key}

theorem old_append_recent (n : ℕ) (l : List α) : old n l ++ recent n l = l :=
  List.take_append_drop _ l

theorem length_old (n : ℕ) (l : List α) :
    (old n l).length = l.length - n := by
  rw [old, List.length_take]
  omega

theorem Ascending.nodup {l : List α} (h : Ascending key l) : l.Nodup := by
  refine List.Pairwise.imp ?_ h
  rintro a b hlt rfl
  exact lt_irrefl _ hlt

theorem Ascending.injOn {l : List α} (h : Ascending key l) {a b : α}
    (ha : a ∈ l) (hb : b ∈ l) (hkey : key a = key b) : a = b := by
  by_contra hne
  rcases List.append_of_mem ha with ⟨front, back, rfl⟩
  rcases List.pairwise_append.mp h with ⟨-, hback, hfront⟩
  rw [List.mem_append, List.mem_cons] at hb
  rcases hb with hb | rfl | hb
  · exact absurd hkey (hfront b hb a List.mem_cons_self).ne'
  · exact hne rfl
  · exact absurd hkey ((List.pairwise_cons.mp hback).1 b hb).ne

theorem newer_split {front back : List α} {a : α}
    (h : Ascending key (front ++ a :: back)) :
    newer key (front ++ a :: back) a = back.length := by
  rcases List.pairwise_append.mp h with ⟨-, hback, hfront⟩
  have hnone : front.countP (fun b => decide (key a < key b)) = 0 := by
    rw [List.countP_eq_zero]
    intro b hb
    have hlt := hfront b hb a List.mem_cons_self
    simpa using hlt.le
  have hall : back.countP (fun b => decide (key a < key b)) = back.length := by
    rw [List.countP_eq_length]
    intro b hb
    simpa using (List.pairwise_cons.mp hback).1 b hb
  rw [newer, List.countP_append, List.countP_cons, hnone, hall]
  simp

theorem Ascending.not_mem_front {front back : List α} {a : α}
    (h : Ascending key (front ++ a :: back)) : a ∉ front := by
  intro hmem
  have hlt := (List.pairwise_append.mp h).2.2 a hmem a List.mem_cons_self
  exact lt_irrefl _ hlt

/-- The elements with at least `n` newer ones are those in front of the last
`n`. -/
theorem mem_old_iff {l : List α} (h : Ascending key l) {a : α}
    (ha : a ∈ l) (n : ℕ) :
    a ∈ old n l ↔ n ≤ newer key l a := by
  rcases List.append_of_mem ha with ⟨front, back, rfl⟩
  rw [old, newer_split h, List.length_append, List.length_cons]
  constructor
  · intro hmem
    by_contra hlt
    rw [List.take_append_of_le_length (by omega)] at hmem
    exact h.not_mem_front (List.mem_of_mem_take hmem)
  · intro hle
    have hsplit : front.length + (back.length + 1) - n =
        front.length + (back.length - n + 1) := by omega
    rw [hsplit, List.take_length_add_append, List.take_succ_cons]
    simp

theorem mem_recent_iff {l : List α} (h : Ascending key l) {a : α}
    (ha : a ∈ l) (n : ℕ) :
    a ∈ recent n l ↔ newer key l a < n := by
  have hnodup := h.nodup
  rw [← old_append_recent n l, List.nodup_append] at hnodup
  rw [← not_le, ← mem_old_iff h ha n]
  constructor
  · intro hrecent hold
    exact hnodup.2.2 a hold a hrecent rfl
  · intro hnot
    rw [← old_append_recent n l, List.mem_append] at ha
    exact ha.resolve_left hnot

/-- When exactly the front part is taken. -/
theorem mem_take_append_iff {s t : List α} (hnodup : (s ++ t).Nodup)
    (k : ℕ) :
    (∀ a, a ∈ (s ++ t).take k ↔ a ∈ s) ↔
      k = s.length ∨ (s.length ≤ k ∧ t = []) := by
  rw [List.nodup_append] at hnodup
  rcases hnodup with ⟨hs, -, hdisjoint⟩
  constructor
  · intro htake
    have hle : s.length ≤ ((s ++ t).take k).length :=
      (List.subperm_of_subset hs fun a ha => (htake a).mpr ha).length_le
    rw [List.length_take] at hle
    cases t with
    | nil => exact .inr ⟨by omega, rfl⟩
    | cons b t =>
        refine .inl (le_antisymm ?_ (by omega))
        by_contra hmore
        have hcount : k = s.length + ((k - s.length - 1) + 1) := by omega
        have hb : b ∈ (s ++ b :: t).take k := by
          rw [hcount, List.take_length_add_append, List.take_succ_cons]
          simp
        exact hdisjoint b ((htake b).mp hb) b List.mem_cons_self rfl
  · rintro (rfl | ⟨hle, rfl⟩) a
    · rw [List.take_left]
    · rw [List.append_nil, List.take_of_length_le hle]

theorem filter_eq {l : List α} (h : Ascending key l) {p : α → Bool} {n : ℕ}
    (hall : ∀ a ∈ l, n ≤ newer key l a → p a = true) :
    l.filter p = old n l ++ (recent n l).filter p := by
  have hold : (old n l).filter p = old n l := by
    rw [List.filter_eq_self]
    intro a ha
    have hmem : a ∈ l := List.mem_of_mem_take ha
    exact hall a hmem ((mem_old_iff h hmem n).mp ha)
  conv_lhs => rw [← old_append_recent n l]
  rw [List.filter_append, hold]

theorem leavesNewest_iff_mem_old {l : List α} (h : Ascending key l)
    (p : α → Bool) (n k : ℕ) :
    LeavesNewest key n l ((l.filter p).take k) ↔
      ∀ a, a ∈ (l.filter p).take k ↔ a ∈ old n l := by
  constructor
  · intro hleaves a
    constructor
    · intro ha
      have hmem : a ∈ l := (List.mem_filter.mp (List.mem_of_mem_take ha)).1
      exact (mem_old_iff h hmem n).mpr ((hleaves a hmem).mp ha)
    · intro ha
      have hmem : a ∈ l := List.mem_of_mem_take ha
      exact (hleaves a hmem).mpr ((mem_old_iff h hmem n).mp ha)
  · intro hold a ha
    rw [hold a, mem_old_iff h ha]

/-- When removal leaves the newest `n`. -/
theorem leavesNewest_iff {l : List α} (h : Ascending key l) (p : α → Bool)
    (n k : ℕ) :
    LeavesNewest key n l ((l.filter p).take k) ↔
      (∀ a ∈ l, n ≤ newer key l a → p a = true) ∧
        (k = l.length - n ∨ (l.length - n ≤ k ∧
          ∀ a ∈ l, p a = true → n ≤ newer key l a)) := by
  by_cases hall : ∀ a ∈ l, n ≤ newer key l a → p a = true
  · have hnodup : (old n l ++ (recent n l).filter p).Nodup :=
      filter_eq h hall ▸ h.nodup.filter p
    have hempty : (recent n l).filter p = [] ↔
        ∀ a ∈ l, p a = true → n ≤ newer key l a := by
      rw [List.filter_eq_nil_iff]
      constructor
      · intro hnone a ha hpa
        by_contra hlt
        exact hnone a ((mem_recent_iff h ha n).mpr (not_le.mp hlt)) hpa
      · intro hold a ha hpa
        have hmem : a ∈ l := List.mem_of_mem_drop ha
        have hlt := (mem_recent_iff h hmem n).mp ha
        exact absurd (hold a hmem hpa) (not_le.mpr hlt)
    rw [leavesNewest_iff_mem_old h, filter_eq h hall,
      mem_take_append_iff hnodup, length_old, hempty]
    exact (and_iff_right hall).symm
  · refine ⟨fun hleaves => absurd (fun a ha hle => ?_) hall,
      fun hboth => absurd hboth.1 hall⟩
    exact (List.mem_filter.mp
      (List.mem_of_mem_take ((hleaves a ha).mpr hle))).2

/-- Nothing needs to be removed from at most `n` elements. -/
theorem leavesNewest_nil_iff {l : List α} (h : Ascending key l) (n : ℕ) :
    LeavesNewest key n l [] ↔ l.length ≤ n := by
  have hnone := leavesNewest_iff h (fun _ => true) n 0
  rw [List.take_zero] at hnone
  rw [hnone]
  constructor
  · rintro ⟨-, hcount | ⟨hcount, -⟩⟩ <;> omega
  · intro hle
    exact ⟨fun _ _ _ => rfl, .inl (by omega)⟩

end NewestKept
