import Mathlib.Algebra.GroupWithZero.Nat
import Mathlib.Algebra.Order.BigOperators.Group.List
import Mathlib.Data.List.Induction
import Mathlib.Data.List.Sort

/-!
# A sorted list that is kept within a budget

Elements with a key and a weight arrive one by one.  Each is inserted into a
list sorted by key, behind the elements of the same key, and then the list is
cut from the front to its longest suffix whose weights stay within a budget.
This file says what such a window holds after all elements have arrived: it
ends in the longest suffix within the budget of the sorted list of all
elements, whatever the order of arrival, and what it holds besides depends on
that order.
-/

namespace BudgetWindow

variable {α κ : Type*} [LinearOrder κ] (key : α → κ) (weight : α → ℕ)

def total (l : List α) : ℕ := (l.map weight).sum

/-- The place found by an upper-bound search. -/
def insertLast (x : α) : List α → List α
  | [] => [x]
  | y :: l => if key x < key y then x :: y :: l else y :: insertLast x l

/-- The longest suffix within the budget. -/
def fit (budget : ℕ) : List α → List α
  | [] => []
  | y :: l => if total weight (y :: l) ≤ budget then y :: l else fit budget l

def window (budget : ℕ) (arrivals : List α) : List α :=
  arrivals.foldl (fun l x => fit weight budget (insertLast key x l)) []

def sorted (arrivals : List α) : List α :=
  arrivals.foldl (fun l x => insertLast key x l) []

def Ascending (l : List α) : Prop := l.Pairwise fun x y => key x ≤ key y

/-! ## Totals -/

@[simp] theorem total_nil : total weight [] = 0 := rfl

@[simp] theorem total_cons (x : α) (l : List α) :
    total weight (x :: l) = weight x + total weight l := by
  simp [total]

@[simp] theorem total_append (l l' : List α) :
    total weight (l ++ l') = total weight l + total weight l' := by
  simp [total]

variable {weight} in
theorem total_perm {l l' : List α} (h : l.Perm l') :
    total weight l = total weight l' :=
  (h.map weight).sum_eq

variable {weight} in
theorem total_le_of_sublist {l l' : List α} (h : l.Sublist l') :
    total weight l ≤ total weight l' := by
  induction h with
  | slnil => exact Nat.le_refl _
  | cons x _ ih =>
      rw [total_cons]
      omega
  | cons_cons x _ ih =>
      rw [total_cons, total_cons]
      omega

variable {weight} in
theorem total_le_of_subperm {l l' : List α} (h : l.Subperm l') :
    total weight l ≤ total weight l' := by
  rcases h with ⟨m, hm, hsub⟩
  rw [← total_perm hm]
  exact total_le_of_sublist hsub

/-! ## Insertion -/

theorem insertLast_perm (x : α) (l : List α) :
    (insertLast key x l).Perm (x :: l) := by
  induction l with
  | nil => exact .refl _
  | cons y l ih =>
      unfold insertLast
      split
      next => exact .refl _
      next => exact (ih.cons y).trans (.swap x y l)

variable {key}

theorem insertLast_ascending {l : List α} (h : Ascending key l) (x : α) :
    Ascending key (insertLast key x l) := by
  induction l with
  | nil => exact List.pairwise_singleton _ _
  | cons y l ih =>
      rcases List.pairwise_cons.mp h with ⟨hhead, htail⟩
      unfold insertLast
      split
      next hxy =>
        refine List.pairwise_cons.mpr ⟨fun z hz => ?_, h⟩
        rcases List.mem_cons.mp hz with rfl | hz
        · exact hxy.le
        · exact hxy.le.trans (hhead z hz)
      next hxy =>
        refine List.pairwise_cons.mpr ⟨fun z hz => ?_, ih htail⟩
        rcases List.mem_cons.mp ((insertLast_perm key x l).mem_iff.mp hz) with
          rfl | hz
        · exact le_of_not_gt hxy
        · exact hhead z hz

theorem insertLast_eq_append {l : List α} {x : α}
    (h : ∀ y ∈ l, key y ≤ key x) : insertLast key x l = l ++ [x] := by
  induction l with
  | nil => rfl
  | cons y l ih =>
      have hy := h y (by simp)
      rw [insertLast, if_neg (not_lt.mpr hy),
        ih fun z hz => h z (List.mem_cons_of_mem _ hz)]
      rfl

theorem insertLast_eq_cons {l : List α} {x : α}
    (h : ∀ y ∈ l, key x < key y) : insertLast key x l = x :: l := by
  cases l with
  | nil => rfl
  | cons y l => rw [insertLast, if_pos (h y (by simp))]

/-- The elements that stay in front of `x`, and those behind it. -/
def low (key : α → κ) (x : α) (l : List α) : List α :=
  l.filter fun y => decide (key y ≤ key x)

def high (key : α → κ) (x : α) (l : List α) : List α :=
  l.filter fun y => decide (key x < key y)

theorem key_le_of_mem_low {x y : α} {l : List α} (h : y ∈ low key x l) :
    key y ≤ key x := by
  simpa using (List.mem_filter.mp h).2

theorem key_lt_of_mem_high {x y : α} {l : List α} (h : y ∈ high key x l) :
    key x < key y := by
  simpa using (List.mem_filter.mp h).2

theorem low_eq_nil {x : α} {l : List α} (h : ∀ y ∈ l, key x < key y) :
    low key x l = [] := by
  simpa [low] using h

theorem high_eq_self {x : α} {l : List α} (h : ∀ y ∈ l, key x < key y) :
    high key x l = l := by
  simpa [high] using h

/-- A sorted list splits at the place of insertion. -/
theorem low_append_high {l : List α} (h : Ascending key l) (x : α) :
    low key x l ++ high key x l = l ∧
      insertLast key x l = low key x l ++ x :: high key x l := by
  induction l with
  | nil => exact ⟨rfl, rfl⟩
  | cons y l ih =>
      rcases List.pairwise_cons.mp h with ⟨hhead, htail⟩
      by_cases hxy : key x < key y
      · have hall : ∀ z ∈ y :: l, key x < key z := by
          intro z hz
          rcases List.mem_cons.mp hz with rfl | hz
          · exact hxy
          · exact hxy.trans_le (hhead z hz)
        rw [low_eq_nil hall, high_eq_self hall, insertLast_eq_cons hall]
        exact ⟨rfl, rfl⟩
      · rcases ih htail with ⟨hsplit, hinsert⟩
        have hyx : key y ≤ key x := le_of_not_gt hxy
        have hlow : low key x (y :: l) = y :: low key x l := by
          simp [low, hyx]
        have hhigh : high key x (y :: l) = high key x l := by
          simp [high, hyx]
        rw [hlow, hhigh, insertLast, if_neg hxy, hinsert, List.cons_append,
          hsplit]
        exact ⟨rfl, rfl⟩

/-- Insertion respects the deletion of other elements. -/
theorem insertLast_sublist {l l' : List α} (hsub : l.Sublist l')
    (h : Ascending key l') (x : α) :
    (insertLast key x l).Sublist (insertLast key x l') := by
  induction hsub with
  | slnil => exact .refl _
  | @cons l l' y hsub ih =>
      rcases List.pairwise_cons.mp h with ⟨hhead, htail⟩
      by_cases hxy : key x < key y
      · have hall : ∀ z ∈ l, key x < key z := fun z hz =>
          hxy.trans_le (hhead z (hsub.subset hz))
        rw [insertLast_eq_cons hall, insertLast, if_pos hxy]
        exact (hsub.cons y).cons_cons x
      · rw [insertLast, if_neg hxy]
        exact (ih htail).cons y
  | @cons_cons l l' y hsub ih =>
      rcases List.pairwise_cons.mp h with ⟨hhead, htail⟩
      by_cases hxy : key x < key y
      · rw [insertLast, if_pos hxy, insertLast, if_pos hxy]
        exact (hsub.cons_cons y).cons_cons x
      · rw [insertLast, if_neg hxy, insertLast, if_neg hxy]
        exact (ih htail).cons_cons y

/-! ## Cutting -/

variable {weight}

theorem fit_suffix (budget : ℕ) (l : List α) : fit weight budget l <:+ l := by
  induction l with
  | nil => exact List.suffix_rfl
  | cons y l ih =>
      unfold fit
      split
      next => exact List.suffix_rfl
      next => exact ih.trans (List.suffix_cons y l)

theorem total_fit_le (budget : ℕ) (l : List α) :
    total weight (fit weight budget l) ≤ budget := by
  induction l with
  | nil => exact Nat.zero_le _
  | cons y l ih =>
      unfold fit
      split
      next h => exact h
      next => exact ih

theorem fit_eq_self {budget : ℕ} {l : List α}
    (h : total weight l ≤ budget) : fit weight budget l = l := by
  cases l with
  | nil => rfl
  | cons y l => rw [fit, if_pos h]

theorem fit_append_of_lt {budget : ℕ} (front : List α) {l : List α}
    (h : budget < total weight l) :
    fit weight budget (front ++ l) = fit weight budget l := by
  induction front with
  | nil => rfl
  | cons y front ih =>
      have hlarge : ¬ total weight (y :: (front ++ l)) ≤ budget := by
        rw [total_cons, total_append]
        omega
      rw [List.cons_append, fit, if_neg hlarge, ih]

/-- A suffix within the budget is never cut. -/
theorem suffix_fit {budget : ℕ} {s l : List α} (hsuffix : s <:+ l)
    (htotal : total weight s ≤ budget) : s <:+ fit weight budget l := by
  induction l with
  | nil => simpa [fit] using hsuffix
  | cons y l ih =>
      unfold fit
      split
      next => exact hsuffix
      next hlarge =>
        rcases List.suffix_cons_iff.mp hsuffix with rfl | hsuffix
        · exact absurd htotal hlarge
        · exact ih hsuffix

variable (weight) in
/-- What is cut off ends in the element that exceeds the budget. -/
theorem exists_cut (budget : ℕ) (l : List α) :
    fit weight budget l = l ∨
      ∃ front z, l = front ++ z :: fit weight budget l ∧
        budget < weight z + total weight (fit weight budget l) := by
  induction l with
  | nil => exact .inl rfl
  | cons y l ih =>
      unfold fit
      split
      next => exact .inl rfl
      next hlarge =>
        right
        rcases ih with hwhole | ⟨front, z, hsplit, hz⟩
        · rw [hwhole]
          exact ⟨[], y, rfl, by rw [total_cons] at hlarge; omega⟩
        · refine ⟨y :: front, z, ?_, hz⟩
          rw [List.cons_append, ← hsplit]

theorem fit_fit_append (budget : ℕ) (l l' : List α) :
    fit weight budget (fit weight budget l ++ l') =
      fit weight budget (l ++ l') := by
  rcases exists_cut weight budget l with hwhole | ⟨front, z, hsplit, hz⟩
  · rw [hwhole]
  · have hlarge : budget < total weight (z :: fit weight budget l ++ l') := by
      rw [total_append, total_cons]
      omega
    have hcut := fit_append_of_lt front hlarge
    conv_rhs => rw [hsplit, List.append_assoc]
    rw [hcut]
    rw [List.cons_append, fit, if_neg (by simpa using hlarge)]

/-- Cutting from the back: the last element takes its share of the budget. -/
theorem fit_append_singleton {budget : ℕ} (l : List α) {x : α}
    (h : weight x ≤ budget) :
    fit weight budget (l ++ [x]) = fit weight (budget - weight x) l ++ [x] := by
  induction l with
  | nil => simp [fit, h]
  | cons y l ih =>
      rw [List.cons_append, fit, fit, ih]
      by_cases hfits : total weight (y :: l) ≤ budget - weight x
      · rw [if_pos hfits, if_pos]
        · rfl
        · rw [total_cons] at hfits
          simp only [total_cons, total_append, total_nil]
          omega
      · rw [if_neg hfits, if_neg]
        rw [total_cons] at hfits
        simp only [total_cons, total_append, total_nil]
        omega

/-! ## The window -/

theorem window_snoc (budget : ℕ) (xs : List α) (x : α) :
    window key weight budget (xs ++ [x]) =
      fit weight budget (insertLast key x (window key weight budget xs)) := by
  simp [window]

theorem sorted_snoc (xs : List α) (x : α) :
    sorted key (xs ++ [x]) = insertLast key x (sorted key xs) := by
  simp [sorted]

theorem sorted_ascending (xs : List α) : Ascending key (sorted key xs) := by
  induction xs using List.reverseRecOn with
  | nil => exact .nil
  | append_singleton xs x ih =>
      rw [sorted_snoc]
      exact insertLast_ascending ih x

theorem sorted_perm (xs : List α) : (sorted key xs).Perm xs := by
  induction xs using List.reverseRecOn with
  | nil => exact .refl _
  | append_singleton xs x ih =>
      rw [sorted_snoc]
      exact ((insertLast_perm key x _).trans (ih.cons x)).trans
        (List.perm_append_singleton x xs).symm

/-- The window leaves elements out of the sorted list. -/
theorem window_sublist (budget : ℕ) (xs : List α) :
    (window key weight budget xs).Sublist (sorted key xs) := by
  induction xs using List.reverseRecOn with
  | nil => exact .refl _
  | append_singleton xs x ih =>
      rw [window_snoc, sorted_snoc]
      exact (fit_suffix budget _).sublist.trans
        (insertLast_sublist ih (sorted_ascending xs) x)

theorem window_subperm (budget : ℕ) (xs : List α) :
    (window key weight budget xs).Subperm xs :=
  (window_sublist budget xs).subperm.trans (sorted_perm xs).subperm

theorem total_window_le (budget : ℕ) (xs : List α) :
    total weight (window key weight budget xs) ≤ budget := by
  induction xs using List.reverseRecOn with
  | nil => exact Nat.zero_le _
  | append_singleton xs x _ =>
      rw [window_snoc]
      exact total_fit_le budget _

theorem suffix_of_suffix_append {s a b : List α} (h : s <:+ a ++ b)
    (hs : ∀ y ∈ s, y ∉ a) : s <:+ b := by
  rcases List.suffix_or_suffix_of_suffix h (List.suffix_append a b) with
    hb | ⟨c, rfl⟩
  · exact hb
  · rcases h with ⟨t, ht⟩
    rw [← List.append_assoc] at ht
    have ha := List.append_cancel_right ht
    cases c with
    | nil => exact List.suffix_rfl
    | cons y c =>
        exact absurd (by rw [← ha]; simp) (hs y (by simp))

/-- One arrival, seen from the sorted list of all elements. -/
theorem fit_insertLast_suffix {budget : ℕ} {all l : List α} (x : α)
    (hall : Ascending key all) (hsub : l.Sublist all)
    (hfit : fit weight budget all <:+ l) :
    fit weight budget (insertLast key x all) <:+ insertLast key x l := by
  rcases low_append_high hall x with ⟨hsplitAll, hinsertAll⟩
  rcases low_append_high (hall.sublist hsub) x with ⟨hsplit, hinsert⟩
  have hhighSuffix : high key x all <:+ all :=
    ⟨low key x all, hsplitAll⟩
  -- a suffix of the newer elements within the budget is there already
  have hkept : ∀ s, s <:+ high key x all → total weight s ≤ budget →
      s <:+ high key x l := by
    intro s hs htotal
    have hl := (suffix_fit (hs.trans hhighSuffix) htotal).trans hfit
    rw [← hsplit] at hl
    refine suffix_of_suffix_append hl fun y hy hlow => ?_
    exact absurd (key_le_of_mem_low hlow)
      (not_le.mpr (key_lt_of_mem_high (hs.subset hy)))
  rw [hinsertAll, hinsert]
  by_cases hlarge : budget < total weight (x :: high key x all)
  · rw [fit_append_of_lt _ hlarge, fit, if_neg (Nat.not_le.mpr hlarge)]
    exact ((hkept _ (fit_suffix budget _) (total_fit_le budget _)).trans
      (List.suffix_cons x _)).trans (List.suffix_append _ _)
  · have hsmall : total weight (high key x all) ≤ budget := by
      rw [total_cons] at hlarge
      omega
    have hhigh : high key x l = high key x all :=
      (hsub.filter _).eq_of_length_le
        (hkept _ List.suffix_rfl hsmall).length_le
    have hwhole : x :: high key x all <:+
        fit weight budget (low key x all ++ x :: high key x all) :=
      suffix_fit (List.suffix_append _ _) (Nat.not_lt.mp hlarge)
    rcases hwhole with ⟨front, hfront⟩
    have htotal : total weight
        (fit weight budget (low key x all ++ x :: high key x all)) ≤ budget :=
      total_fit_le budget _
    have hcut : fit weight budget (low key x all ++ x :: high key x all) <:+
        low key x all ++ x :: high key x all :=
      fit_suffix budget _
    rw [← hfront] at htotal hcut ⊢
    rcases hcut with ⟨t, ht⟩
    rw [← List.append_assoc] at ht
    have hlow := List.append_cancel_right ht
    have hold : front ++ high key x all <:+ all :=
      ⟨t, by rw [← List.append_assoc, hlow, hsplitAll]⟩
    have hl := (suffix_fit hold (by
      rw [total_append, total_cons] at htotal
      rw [total_append]
      omega)).trans hfit
    rw [← hsplit, hhigh] at hl
    rcases hl with ⟨t', ht'⟩
    rw [← List.append_assoc] at ht'
    refine ⟨t', ?_⟩
    rw [hhigh, ← List.append_assoc, List.append_cancel_right ht']

/-- Whatever the order of arrival, the window ends in the greatest elements
that fit the budget together. -/
theorem fit_sorted_suffix_window (budget : ℕ) (xs : List α) :
    fit weight budget (sorted key xs) <:+ window key weight budget xs := by
  induction xs using List.reverseRecOn with
  | nil => exact List.suffix_rfl
  | append_singleton xs x ih =>
      rw [window_snoc, sorted_snoc]
      exact suffix_fit
        (fit_insertLast_suffix x (sorted_ascending xs)
          (window_sublist budget xs) ih)
        (total_fit_le budget _)

/-- Nothing is left out when everything fits. -/
theorem window_eq_sorted {budget : ℕ} {xs : List α}
    (h : total weight xs ≤ budget) :
    window key weight budget xs = sorted key xs := by
  have hsorted : total weight (sorted key xs) ≤ budget := by
    rwa [total_perm (sorted_perm xs)]
  have hsuffix : fit weight budget (sorted key xs) <:+
      window key weight budget xs :=
    fit_sorted_suffix_window budget xs
  rw [fit_eq_self hsorted] at hsuffix
  exact (window_sublist budget xs).eq_of_length_le hsuffix.length_le

theorem weight_le_of_mem_window {budget : ℕ} {xs : List α} {x : α}
    (h : x ∈ window key weight budget xs) : weight x ≤ budget := by
  have hone : [x].Sublist (window key weight budget xs) :=
    List.singleton_sublist.mpr h
  have htotal : total weight [x] ≤ budget :=
    (total_le_of_sublist hone).trans (total_window_le budget xs)
  simpa using htotal

/-- Elements that arrive in order, after smaller ones. -/
theorem window_append_ascending (budget : ℕ) (xs : List α) {l : List α}
    (hl : Ascending key l)
    (hafter : ∀ x ∈ window key weight budget xs, ∀ y ∈ l, key x ≤ key y) :
    window key weight budget (xs ++ l) =
      fit weight budget (window key weight budget xs ++ l) := by
  induction l using List.reverseRecOn with
  | nil =>
      rw [List.append_nil, List.append_nil,
        fit_eq_self (total_window_le budget xs)]
  | append_singleton l x ih =>
      rcases List.pairwise_append.mp hl with ⟨hfront, -, hlast⟩
      have hbefore := ih hfront fun y hy z hz =>
        hafter y hy z (List.mem_append_left _ hz)
      have hle : ∀ y ∈ fit weight budget (window key weight budget xs ++ l),
          key y ≤ key x := by
        intro y hy
        rcases List.mem_append.mp ((fit_suffix budget _).subset hy) with hy | hy
        · exact hafter y hy x (by simp)
        · exact hlast y hy x (by simp)
      rw [← List.append_assoc, window_snoc, hbefore, insertLast_eq_append hle,
        fit_fit_append, List.append_assoc]

/-! ## What is left out

The order of arrival is not known, so a property of the window is asked for
every order. -/

/-- A least element that arrives first is the first to go. -/
theorem first_not_mem_window {budget : ℕ} {g : α} {l : List α}
    (hleast : ∀ x ∈ l, key g ≤ key x) (hnew : g ∉ l)
    (hlarge : budget < total weight (g :: l)) :
    g ∉ window key weight budget (g :: l) := by
  have hfirst : (∃ l', window key weight budget (g :: l) = g :: l' ∧
      l'.Perm l) ∨ g ∉ window key weight budget (g :: l) := by
    clear hlarge
    induction l using List.reverseRecOn with
    | nil =>
        simp only [window, insertLast, List.foldl_cons, List.foldl_nil, fit]
        split
        · exact .inl ⟨[], rfl, .refl _⟩
        · exact .inr (by simp)
    | append_singleton l x ih =>
        rw [← List.cons_append, window_snoc]
        have hgx : ¬ key x < key g := not_lt.mpr (hleast x (by simp))
        rcases ih (fun y hy => hleast y (List.mem_append_left _ hy))
            (fun hg => hnew (List.mem_append_left _ hg)) with
          ⟨l', hwindow, hperm⟩ | hgone
        · rw [hwindow, insertLast, if_neg hgx]
          have hothers : (insertLast key x l').Perm (l ++ [x]) :=
            (insertLast_perm key x l').trans
              ((hperm.cons x).trans (List.perm_append_singleton x l).symm)
          unfold fit
          split
          · exact .inl ⟨_, rfl, hothers⟩
          · refine .inr fun hg => hnew ?_
            exact hothers.mem_iff.mp ((fit_suffix budget _).subset hg)
        · refine .inr fun hg => hgone ?_
          rcases List.mem_cons.mp ((insertLast_perm key x _).mem_iff.mp
            ((fit_suffix budget _).subset hg)) with rfl | hg
          · exact absurd (by simp) hnew
          · exact hg
  rcases hfirst with ⟨l', hwindow, hperm⟩ | hgone
  · have htotal : total weight (window key weight budget (g :: l)) ≤ budget :=
      total_window_le budget (g :: l)
    rw [hwindow, total_perm (hperm.cons g)] at htotal
    omega
  · exact hgone

theorem exists_greatest {l : List α} (h : l ≠ []) (key : α → κ) :
    ∃ m ∈ l, ∀ x ∈ l, key x ≤ key m := by
  induction l with
  | nil => exact absurd rfl h
  | cons y l ih =>
      by_cases hl : l = []
      · exact ⟨y, by simp, by simp [hl]⟩
      · rcases ih hl with ⟨m, hm, hmax⟩
        rcases le_total (key m) (key y) with hle | hle
        · refine ⟨y, by simp, fun x hx => ?_⟩
          rcases List.mem_cons.mp hx with rfl | hx
          · exact le_refl _
          · exact (hmax x hx).trans hle
        · refine ⟨m, List.mem_cons_of_mem _ hm, fun x hx => ?_⟩
          rcases List.mem_cons.mp hx with rfl | hx
          · exact hle
          · exact hmax x hx

theorem exists_least {l : List α} (h : l ≠ []) (key : α → κ) :
    ∃ m ∈ l, ∀ x ∈ l, key m ≤ key x :=
  exists_greatest (κ := OrderDual κ) h fun x => OrderDual.toDual (key x)

/-- In every order of arrival the window holds all elements below one that it
holds, if and only if it holds everything or the least elements at most. -/
theorem window_lower_iff {budget : ℕ} {xs : List α} (hnodup : xs.Nodup) :
    (∀ ys, ys.Perm xs → ∀ f ∈ window key weight budget ys, ∀ g ∈ xs,
        key g < key f → g ∈ window key weight budget ys) ↔
      total weight xs ≤ budget ∨
        ∀ f ∈ xs, ∀ g ∈ xs, key g < key f → budget < weight f := by
  constructor
  · intro hlower
    by_contra hnot
    push Not at hnot
    rcases hnot with ⟨hlarge, f₀, hf₀, g₀, hg₀, hlt₀, hfits₀⟩
    rcases exists_greatest (l := xs.filter fun x => decide (weight x ≤ budget))
        (List.ne_nil_of_mem (List.mem_filter.mpr ⟨hf₀, by simpa using hfits₀⟩))
        key with ⟨f, hf, hgreatest⟩
    rcases exists_least (List.ne_nil_of_mem hg₀) key with ⟨g, hg, hleast⟩
    simp only [List.mem_filter, decide_eq_true_eq] at hf hgreatest
    have hlt : key g < key f :=
      ((hleast g₀ hg₀).trans_lt hlt₀).trans_le (hgreatest f₀ ⟨hf₀, hfits₀⟩)
    have hne : f ≠ g := by
      rintro rfl
      exact lt_irrefl _ hlt
    classical
    let rest := (xs.erase g).erase f
    have hrest : ((g :: rest) ++ [f]).Perm xs := by
      have hfg : f ∈ xs.erase g := (List.mem_erase_of_ne hne).mpr hf.1
      have hcons : (f :: (g :: rest)).Perm xs :=
        (List.Perm.swap g f rest).trans
          (((List.perm_cons_erase hfg).symm.cons g).trans
            (List.perm_cons_erase hg).symm)
      exact (List.perm_append_singleton f _).trans hcons
    have hmem := hlower _ hrest f ?_ g hg hlt
    · refine first_not_mem_window (l := rest ++ [f]) ?_ ?_ ?_ hmem
      · exact fun x hx => hleast x (hrest.mem_iff.mp (List.mem_cons_of_mem g hx))
      · exact (List.nodup_cons.mp (hrest.nodup_iff.mpr hnodup)).1
      · have htotal : total weight ((g :: rest) ++ [f]) = total weight xs :=
          total_perm hrest
        rw [List.cons_append] at htotal
        rw [htotal]
        exact hlarge
    · rw [window_snoc, insertLast_eq_append]
      · have hone : [f] <:+ fit weight budget
            (window key weight budget (g :: rest) ++ [f]) :=
          suffix_fit (List.suffix_append _ _) (by simpa using hf.2)
        exact hone.subset (by simp)
      · intro y hy
        refine hgreatest y ⟨?_, weight_le_of_mem_window hy⟩
        exact hrest.mem_iff.mp
          (List.mem_append_left _ ((window_subperm budget _).subset hy))
  · rintro (hsmall | hlarge) ys hperm f hf g hg hlt
    · rw [window_eq_sorted (by rwa [total_perm hperm])]
      exact (sorted_perm ys).mem_iff.mpr (hperm.mem_iff.mpr hg)
    · have hfx := hperm.mem_iff.mp ((window_subperm budget ys).subset hf)
      exact absurd (weight_le_of_mem_window hf)
        (Nat.not_le.mpr (hlarge f hfx g hg hlt))

/-- In every order of arrival the window amounts to `need` or holds
everything, if and only if the greatest elements amount to `need` wherever
they reach the budget. -/
theorem window_covers_iff {budget need : ℕ} {xs : List α} (hnodup : xs.Nodup) :
    (∀ ys, ys.Perm xs → need ≤ total weight (window key weight budget ys) ∨
        ∀ x ∈ xs, x ∈ window key weight budget ys) ↔
      ∀ z newer, (z :: newer).Subperm xs →
        (∀ f ∈ xs, key z < key f → f ∈ newer) →
        (∀ f ∈ newer, key z ≤ key f) →
        total weight newer ≤ budget → budget < weight z + total weight newer →
          need ≤ total weight newer := by
  constructor
  · intro hcovers z newer hsub habove hnewer hfits hexceeds
    rcases hsub with ⟨l, hl, hsub⟩
    rcases hsub.exists_perm_append with ⟨rest, hrest⟩
    have hsorted : (sorted key newer).Perm newer := sorted_perm newer
    have hwhole : (rest ++ z :: sorted key newer).Perm xs :=
      (List.perm_append_comm.trans ((hsorted.cons z).append_right rest)).trans
        ((hl.symm.append_right rest).trans hrest.symm)
    have hdistinct := hwhole.nodup_iff.mpr hnodup
    rcases List.nodup_append.mp hdistinct with ⟨-, hback, hdisjoint⟩
    have hascending : Ascending key (z :: sorted key newer) :=
      List.pairwise_cons.mpr
        ⟨fun f hf => hnewer f (hsorted.mem_iff.mp hf), sorted_ascending newer⟩
    have hbelow : ∀ x ∈ rest, key x ≤ key z := by
      intro x hx
      by_contra hlt
      have hmem := habove x (hwhole.mem_iff.mp (List.mem_append_left _ hx))
        (not_le.mp hlt)
      exact hdisjoint x hx x
        (List.mem_cons_of_mem z (hsorted.mem_iff.mpr hmem)) rfl
    have hwindow : window key weight budget (rest ++ z :: sorted key newer) =
        sorted key newer := by
      rw [window_append_ascending budget rest hascending]
      · have hlarge : budget < total weight (z :: sorted key newer) := by
          rw [total_cons, total_perm hsorted]
          exact hexceeds
        rw [fit_append_of_lt _ hlarge, fit, if_neg (Nat.not_le.mpr hlarge),
          fit_eq_self (by rwa [total_perm hsorted])]
      · intro x hx y hy
        have hxz := hbelow x ((window_subperm budget rest).subset hx)
        rcases List.mem_cons.mp hy with rfl | hy
        · exact hxz
        · exact hxz.trans (hnewer y (hsorted.mem_iff.mp hy))
    have hnot : z ∉ sorted key newer := (List.nodup_cons.mp hback).1
    rcases hcovers _ hwhole with hneed | hall
    · rwa [hwindow, total_perm hsorted] at hneed
    · have hz := hall z (hwhole.mem_iff.mp (by simp))
      rw [hwindow] at hz
      exact absurd hz hnot
  · intro hnewest ys hperm
    have hsuffix : fit weight budget (sorted key ys) <:+
        window key weight budget ys :=
      fit_sorted_suffix_window budget ys
    rcases exists_cut weight budget (sorted key ys) with
      hwhole | ⟨front, z, hsplit, hexceeds⟩
    · right
      intro x hx
      rw [hwhole] at hsuffix
      exact hsuffix.subset
        ((sorted_perm ys).mem_iff.mpr (hperm.mem_iff.mpr hx))
    · left
      have hascending : Ascending key (sorted key ys) := sorted_ascending ys
      rw [hsplit] at hascending
      rcases List.pairwise_append.mp hascending with ⟨-, hback, hfront⟩
      refine (hnewest z (fit weight budget (sorted key ys)) ?_ ?_ ?_
        (total_fit_le budget _) hexceeds).trans
          (total_le_of_sublist hsuffix.sublist)
      · have hsub : (z :: fit weight budget (sorted key ys)).Sublist
            (sorted key ys) := by
          conv_rhs => rw [hsplit]
          exact List.sublist_append_right _ _
        exact hsub.subperm.trans ((sorted_perm ys).trans hperm).subperm
      · intro f hf hlt
        have hmem : f ∈ sorted key ys :=
          (sorted_perm ys).mem_iff.mpr (hperm.mem_iff.mpr hf)
        rw [hsplit] at hmem
        rcases List.mem_append.mp hmem with hmem | hmem
        · exact absurd (hfront f hmem z (by simp)) (not_le.mpr hlt)
        · rcases List.mem_cons.mp hmem with rfl | hmem
          · exact absurd hlt (lt_irrefl _)
          · exact hmem
      · exact (List.pairwise_cons.mp hback).1

end BudgetWindow
