import Mathlib.Data.List.InsertIdx
import Mathlib.Data.List.TakeWhile
import Mathlib.Order.Lattice

/-!
# Binary search in a sorted list

`lowerBound` is the loop of a lower-bound search: it halves an interval until
it is empty.  On a list that the predicate partitions it finds the end of the
front part.  On top of it stand the three operations on a list that is sorted
by a key: look a key up, insert an element and erase a key.  Such a list is a
finite map from keys to elements.
-/

namespace LowerBound

variable {α κ : Type*}

/-- One interval of the search: `first` is its start and `len` its length. -/
def search (p : α → Bool) (l : List α) : Nat → Nat → Nat → Nat
  | 0, first, _ => first
  | fuel + 1, first, len =>
      if len = 0 then first
      else
        match l[first + len / 2]? with
        | none => first
        | some x =>
            if p x then search p l fuel (first + len / 2 + 1) (len - len / 2 - 1)
            else search p l fuel first (len / 2)

/-- The first position whose element does not satisfy `p`. -/
def lowerBound (p : α → Bool) (l : List α) : Nat :=
  search p l l.length 0 l.length

/-- What satisfies `p` stands before what does not. -/
def Partitioned (p : α → Bool) (l : List α) : Prop :=
  l.Pairwise fun a b => p b = true → p a = true

theorem Partitioned.getElem_iff {p : α → Bool} {l : List α}
    (h : Partitioned p l) {i : Nat} (hi : i < l.length) :
    p l[i] = true ↔ i < (l.takeWhile p).length := by
  induction l generalizing i with
  | nil => simp at hi
  | cons x rest ih =>
      rcases List.pairwise_cons.mp h with ⟨hx, hrest⟩
      by_cases hpx : p x = true
      · rw [List.takeWhile_cons_of_pos hpx, List.length_cons]
        cases i with
        | zero => simp [hpx]
        | succ i =>
            rw [List.getElem_cons_succ, Nat.add_lt_add_iff_right]
            exact ih hrest (by simpa using hi)
      · rw [List.takeWhile_cons_of_neg hpx, List.length_nil]
        cases i with
        | zero => simp [hpx]
        | succ i =>
            rw [List.getElem_cons_succ]
            have hmem := List.getElem_mem (l := rest) (n := i) (by simpa using hi)
            simpa using fun hp => hpx (hx _ hmem hp)

theorem Partitioned.of_mem_dropWhile {p : α → Bool} {l : List α}
    (h : Partitioned p l) {x : α} (hx : x ∈ l.dropWhile p) : p x = false := by
  induction l with
  | nil => simp at hx
  | cons y rest ih =>
      rcases List.pairwise_cons.mp h with ⟨hy, hrest⟩
      by_cases hpy : p y = true
      · rw [List.dropWhile_cons_of_pos hpy] at hx
        exact ih hrest hx
      · rw [List.dropWhile_cons_of_neg hpy] at hx
        rcases List.mem_cons.mp hx with rfl | hx
        · simpa using hpy
        · simpa using fun hpx => hpy (hy x hx hpx)

/-- The interval always contains the end of the front part. -/
theorem search_eq {p : α → Bool} {l : List α} (h : Partitioned p l)
    {fuel first len : Nat} (hfuel : len ≤ fuel)
    (hlow : first ≤ (l.takeWhile p).length)
    (hhigh : (l.takeWhile p).length ≤ first + len)
    (hlen : first + len ≤ l.length) :
    search p l fuel first len = (l.takeWhile p).length := by
  induction fuel generalizing first len with
  | zero =>
      rw [search]
      omega
  | succ fuel ih =>
      rw [search]
      split
      next => omega
      next hne =>
        have hmid : first + len / 2 < l.length := by omega
        have hside := h.getElem_iff hmid
        rw [List.getElem?_eq_getElem hmid]
        dsimp only
        split
        next hp =>
          have hfront := hside.mp hp
          exact ih (by omega) (by omega) (by omega) (by omega)
        next hp =>
          have hback : ¬ first + len / 2 < (l.takeWhile p).length :=
            fun hlt => hp (hside.mpr hlt)
          exact ih (by omega) hlow (by omega) (by omega)

theorem lowerBound_eq {p : α → Bool} {l : List α} (h : Partitioned p l) :
    lowerBound p l = (l.takeWhile p).length := by
  apply search_eq h (Nat.le_refl _) (Nat.zero_le _)
  · have := l.takeWhile_sublist p |>.length_le
    omega
  · omega

/-! ## Lists sorted by a key -/

variable [LinearOrder κ] (key : α → κ)

/-- Strictly sorted: every key occurs once. -/
def Sorted (l : List α) : Prop := l.Pairwise fun a b => key a < key b

/-- The position of a key. -/
def position (k : κ) (l : List α) : Nat :=
  lowerBound (fun x => decide (key x < k)) l

def find? (k : κ) (l : List α) : Option α :=
  match l[position key k l]? with
  | some x => if key x = k then some x else none
  | none => none

/-- Add an element; one with the same key is kept. -/
def insertNew (x : α) (l : List α) : List α :=
  match l[position key (key x) l]? with
  | some y =>
      if key y = key x then l else l.insertIdx (position key (key x) l) x
  | none => l.insertIdx (position key (key x) l) x

/-- Add an element; it takes the place of one with the same key. -/
def insertOrReplace (x : α) (l : List α) : List α :=
  match l[position key (key x) l]? with
  | some y =>
      if key y = key x then l.set (position key (key x) l) x
      else l.insertIdx (position key (key x) l) x
  | none => l.insertIdx (position key (key x) l) x

def erase (k : κ) (l : List α) : List α :=
  match l[position key k l]? with
  | some x => if key x = k then l.eraseIdx (position key k l) else l
  | none => l

section Operations

variable {key}

theorem Sorted.split {l : List α} (h : Sorted key l) (k : κ) :
    ∃ low high, l = low ++ high ∧ position key k l = low.length ∧
      (∀ x ∈ low, key x < k) ∧ ∀ x ∈ high, k ≤ key x := by
  have hpart : Partitioned (fun x => decide (key x < k)) l := by
    apply List.Pairwise.imp _ h
    intro a b hab hb
    rw [decide_eq_true_eq] at hb ⊢
    exact lt_trans hab hb
  refine ⟨_, _, List.takeWhile_append_dropWhile.symm, lowerBound_eq hpart, ?_, ?_⟩
  · intro x hx
    simpa using List.mem_takeWhile_imp hx
  · intro x hx
    simpa using hpart.of_mem_dropWhile hx

/-- A sorted list either holds the key at its position or misses it there. -/
theorem Sorted.holds_or_misses {l : List α} (h : Sorted key l) (k : κ) :
    (∃ low y high, l = low ++ y :: high ∧ position key k l = low.length ∧
        key y = k ∧ (∀ x ∈ low, key x < k) ∧ ∀ x ∈ high, k < key x) ∨
      ∃ low high, l = low ++ high ∧ position key k l = low.length ∧
        (∀ x ∈ low, key x < k) ∧ ∀ x ∈ high, k < key x := by
  obtain ⟨low, high, hl, hposition, hlow, hhigh⟩ := h.split k
  cases high with
  | nil => exact .inr ⟨low, [], hl, hposition, hlow, by simp⟩
  | cons y high =>
      have hafter : ∀ x ∈ high, key y < key x := by
        rw [Sorted, hl, List.pairwise_append, List.pairwise_cons] at h
        exact h.2.1.1
      rcases (hhigh y (List.mem_cons_self ..)).eq_or_lt with heq | hlt
      · exact .inl ⟨low, y, high, hl, hposition, heq.symm, hlow,
          fun x hx => heq ▸ hafter x hx⟩
      · refine .inr ⟨low, y :: high, hl, hposition, hlow, ?_⟩
        intro x hx
        rcases List.mem_cons.mp hx with rfl | hx
        · exact hlt
        · exact lt_trans hlt (hafter x hx)

/-- What the operations find at the position of a key that is missing. -/
theorem ne_of_getElem? {low high : List α} {k : κ}
    (hhigh : ∀ x ∈ high, k < key x) {y : α}
    (hy : (low ++ high)[low.length]? = some y) : key y ≠ k := by
  rw [List.getElem?_append_right (Nat.le_refl _), Nat.sub_self] at hy
  exact (hhigh y (List.mem_of_getElem? hy)).ne'

theorem find?_eq_some_iff {l : List α} (h : Sorted key l) (k : κ) (x : α) :
    find? key k l = some x ↔ x ∈ l ∧ key x = k := by
  unfold find?
  rcases h.holds_or_misses k with
    ⟨low, y, high, rfl, hposition, rfl, hlow, hhigh⟩ |
    ⟨low, high, rfl, hposition, hlow, hhigh⟩
  · rw [hposition, List.getElem?_append_right (Nat.le_refl _), Nat.sub_self,
      List.getElem?_cons_zero]
    dsimp only
    rw [if_pos rfl, Option.some.injEq]
    constructor
    · rintro rfl
      simp
    · rintro ⟨hx, hkey⟩
      rcases List.mem_append.mp hx with hx | hx
      · exact absurd hkey (hlow x hx).ne
      · rcases List.mem_cons.mp hx with rfl | hx
        · rfl
        · exact absurd hkey (hhigh x hx).ne'
  · have hmissing : ¬ (x ∈ low ++ high ∧ key x = k) := by
      rintro ⟨hx, hkey⟩
      rcases List.mem_append.mp hx with hx | hx
      · exact absurd hkey (hlow x hx).ne
      · exact absurd hkey (hhigh x hx).ne'
    rw [hposition]
    apply iff_of_false _ hmissing
    split
    next y hy => simp [ne_of_getElem? hhigh hy]
    next => simp

theorem sorted_insert {low high : List α} {x : α}
    (h : Sorted key (low ++ high)) (hlow : ∀ y ∈ low, key y < key x)
    (hhigh : ∀ y ∈ high, key x < key y) : Sorted key (low ++ x :: high) := by
  rw [Sorted, List.pairwise_append] at h ⊢
  rcases h with ⟨hl, hr, hlr⟩
  refine ⟨hl, List.pairwise_cons.mpr ⟨hhigh, hr⟩, ?_⟩
  intro a ha b hb
  rcases List.mem_cons.mp hb with rfl | hb
  · exact hlow a ha
  · exact hlr a ha b hb

theorem sorted_erase {low high : List α} {y : α}
    (h : Sorted key (low ++ y :: high)) : Sorted key (low ++ high) :=
  h.sublist ((List.sublist_cons_self y high).append_left low)

theorem insertIdx_length (low high : List α) (x : α) :
    (low ++ high).insertIdx low.length x = low ++ x :: high := by
  induction low with
  | nil => rfl
  | cons y low ih =>
      simp only [List.cons_append, List.length_cons, List.insertIdx_succ_cons, ih]

/-- `insertNew` changes nothing or puts the element in its place. -/
theorem insertNew_cases {l : List α} (h : Sorted key l) (x : α) :
    (insertNew key x l = l ∧ ∃ y ∈ l, key y = key x) ∨
      ∃ low high, l = low ++ high ∧ insertNew key x l = low ++ x :: high ∧
        (∀ y ∈ low, key y < key x) ∧ ∀ y ∈ high, key x < key y := by
  unfold insertNew
  rcases h.holds_or_misses (key x) with
    ⟨low, y, high, rfl, hposition, hkey, -, -⟩ |
    ⟨low, high, rfl, hposition, hlow, hhigh⟩
  · left
    refine ⟨?_, y, by simp, hkey⟩
    rw [hposition, List.getElem?_append_right (Nat.le_refl _), Nat.sub_self,
      List.getElem?_cons_zero]
    exact if_pos hkey
  · right
    refine ⟨low, high, rfl, ?_, hlow, hhigh⟩
    rw [hposition]
    split
    next y hy =>
      rw [if_neg (ne_of_getElem? hhigh hy), insertIdx_length]
    next => rw [insertIdx_length]

theorem Sorted.insertNew {l : List α} (h : Sorted key l) (x : α) :
    Sorted key (insertNew key x l) := by
  rcases insertNew_cases h x with ⟨heq, -⟩ | ⟨low, high, rfl, heq, hlow, hhigh⟩
  · rw [heq]
    exact h
  · rw [heq]
    exact sorted_insert h hlow hhigh

theorem insertOrReplace_cases {l : List α} (h : Sorted key l) (x : α) :
    (∃ low y high, l = low ++ y :: high ∧ key y = key x ∧
        insertOrReplace key x l = low ++ x :: high ∧
        (∀ y ∈ low, key y < key x) ∧ ∀ y ∈ high, key x < key y) ∨
      ∃ low high, l = low ++ high ∧
        insertOrReplace key x l = low ++ x :: high ∧
        (∀ y ∈ low, key y < key x) ∧ ∀ y ∈ high, key x < key y := by
  unfold insertOrReplace
  rcases h.holds_or_misses (key x) with
    ⟨low, y, high, rfl, hposition, hkey, hlow, hhigh⟩ |
    ⟨low, high, rfl, hposition, hlow, hhigh⟩
  · left
    refine ⟨low, y, high, rfl, hkey, ?_, hlow, hhigh⟩
    rw [hposition, List.getElem?_append_right (Nat.le_refl _), Nat.sub_self,
      List.getElem?_cons_zero]
    dsimp only
    rw [if_pos hkey, List.set_append_right _ _ (Nat.le_refl _), Nat.sub_self,
      List.set_cons_zero]
  · right
    refine ⟨low, high, rfl, ?_, hlow, hhigh⟩
    rw [hposition]
    split
    next y hy => rw [if_neg (ne_of_getElem? hhigh hy), insertIdx_length]
    next => rw [insertIdx_length]

theorem Sorted.insertOrReplace {l : List α} (h : Sorted key l) (x : α) :
    Sorted key (insertOrReplace key x l) := by
  rcases insertOrReplace_cases h x with
    ⟨low, y, high, rfl, -, heq, hlow, hhigh⟩ | ⟨low, high, rfl, heq, hlow, hhigh⟩
  · rw [heq]
    exact sorted_insert (sorted_erase h) hlow hhigh
  · rw [heq]
    exact sorted_insert h hlow hhigh

/-- The elements around a key, and the element put between them. -/
theorem mem_placed {low high : List α} {x : α} (hlow : ∀ y ∈ low, key y < key x)
    (hhigh : ∀ y ∈ high, key x < key y) (y : α) :
    y ∈ low ++ x :: high ↔ y = x ∨ (y ∈ low ++ high ∧ key y ≠ key x) := by
  constructor
  · intro hy
    rcases List.mem_append.mp hy with hy | hy
    · exact .inr ⟨by simp [hy], (hlow y hy).ne⟩
    · rcases List.mem_cons.mp hy with rfl | hy
      · exact .inl rfl
      · exact .inr ⟨by simp [hy], (hhigh y hy).ne'⟩
  · rintro (rfl | ⟨hy, -⟩)
    · simp
    · rcases List.mem_append.mp hy with hy | hy <;> simp [hy]

theorem mem_insertOrReplace {l : List α} (h : Sorted key l) (x y : α) :
    y ∈ insertOrReplace key x l ↔ y = x ∨ (y ∈ l ∧ key y ≠ key x) := by
  rcases insertOrReplace_cases h x with
    ⟨low, z, high, rfl, hkey, heq, hlow, hhigh⟩ |
    ⟨low, high, rfl, heq, hlow, hhigh⟩
  · rw [heq, mem_placed hlow hhigh]
    by_cases hyz : y = z
    · subst hyz
      simp [hkey]
    · simp [hyz]
  · rw [heq, mem_placed hlow hhigh]

theorem erase_cases {l : List α} (h : Sorted key l) (k : κ) :
    (∃ low y high, l = low ++ y :: high ∧ key y = k ∧
        erase key k l = low ++ high ∧
        (∀ x ∈ low, key x < k) ∧ ∀ x ∈ high, k < key x) ∨
      (erase key k l = l ∧ ∀ x ∈ l, key x ≠ k) := by
  unfold erase
  rcases h.holds_or_misses k with
    ⟨low, y, high, rfl, hposition, hkey, hlow, hhigh⟩ |
    ⟨low, high, rfl, hposition, hlow, hhigh⟩
  · left
    refine ⟨low, y, high, rfl, hkey, ?_, hlow, hhigh⟩
    rw [hposition, List.getElem?_append_right (Nat.le_refl _), Nat.sub_self,
      List.getElem?_cons_zero]
    dsimp only
    rw [if_pos hkey, List.eraseIdx_append_of_length_le (Nat.le_refl _),
      Nat.sub_self, List.eraseIdx_cons_zero]
  · right
    constructor
    · rw [hposition]
      split
      next y hy => rw [if_neg (ne_of_getElem? hhigh hy)]
      next => rfl
    · intro x hx
      rcases List.mem_append.mp hx with hx | hx
      · exact (hlow x hx).ne
      · exact (hhigh x hx).ne'

theorem Sorted.erase {l : List α} (h : Sorted key l) (k : κ) :
    Sorted key (erase key k l) := by
  rcases erase_cases h k with ⟨low, y, high, rfl, -, heq, -⟩ | ⟨heq, -⟩
  · rw [heq]
    exact sorted_erase h
  · rw [heq]
    exact h

theorem mem_erase {l : List α} (h : Sorted key l) (k : κ) (x : α) :
    x ∈ erase key k l ↔ x ∈ l ∧ key x ≠ k := by
  rcases erase_cases h k with
    ⟨low, y, high, rfl, hkey, heq, hlow, hhigh⟩ | ⟨heq, hmissing⟩
  · rw [heq]
    constructor
    · intro hx
      rcases List.mem_append.mp hx with hx | hx
      · exact ⟨by simp [hx], (hlow x hx).ne⟩
      · exact ⟨by simp [hx], (hhigh x hx).ne'⟩
    · rintro ⟨hx, hne⟩
      have hxy : x ≠ y := fun hxy => hne (hxy ▸ hkey)
      simpa [hxy] using hx
  · rw [heq]
    exact ⟨fun hx => ⟨hx, hmissing x hx⟩, And.left⟩

end Operations

/-! ## Finite maps and finite sets -/

section Maps

variable {key}

theorem find?_insertOrReplace {l : List α} (h : Sorted key l) (x : α) (k : κ) :
    find? key k (insertOrReplace key x l) =
      if key x = k then some x else find? key k l := by
  ext y
  rw [find?_eq_some_iff (h.insertOrReplace x), mem_insertOrReplace h]
  split
  next heq =>
    subst heq
    rw [Option.some.injEq]
    constructor
    · rintro ⟨rfl | ⟨-, hne⟩, hkey⟩
      · rfl
      · exact absurd hkey hne
    · rintro rfl
      exact ⟨.inl rfl, rfl⟩
  next hne =>
    rw [find?_eq_some_iff h]
    constructor
    · rintro ⟨rfl | ⟨hy, -⟩, hkey⟩
      · exact absurd hkey hne
      · exact ⟨hy, hkey⟩
    · rintro ⟨hy, rfl⟩
      exact ⟨.inr ⟨hy, Ne.symm hne⟩, rfl⟩

theorem find?_erase {l : List α} (h : Sorted key l) (k k' : κ) :
    find? key k' (erase key k l) = if k = k' then none else find? key k' l := by
  ext y
  rw [find?_eq_some_iff (h.erase k), mem_erase h]
  split
  next heq =>
    subst heq
    simp
  next hne =>
    rw [find?_eq_some_iff h]
    constructor
    · rintro ⟨⟨hy, -⟩, hkey⟩
      exact ⟨hy, hkey⟩
    · rintro ⟨hy, rfl⟩
      exact ⟨⟨hy, Ne.symm hne⟩, rfl⟩

section Transport

/-! ### Other elements with the same keys -/

variable {β : Type*} {key' : β → κ} {g : α → β}

theorem search_map (p : β → Bool) (l : List α) (fuel first len : Nat) :
    search p (l.map g) fuel first len = search (p ∘ g) l fuel first len := by
  induction fuel generalizing first len with
  | zero => rfl
  | succ fuel ih =>
      rw [search, search, List.getElem?_map]
      cases l[first + len / 2]? with
      | none => rfl
      | some x =>
          simp only [Option.map_some, Function.comp_apply, ih]

theorem position_map (hkey : ∀ x, key' (g x) = key x) (k : κ) (l : List α) :
    position key' k (l.map g) = position key k l := by
  simp only [position, lowerBound, List.length_map, search_map, Function.comp_def, hkey]

theorem insertOrReplace_map (hkey : ∀ x, key' (g x) = key x) (x : α) (l : List α) :
    insertOrReplace key' (g x) (l.map g) = (insertOrReplace key x l).map g := by
  unfold insertOrReplace
  rw [hkey, position_map hkey, List.getElem?_map]
  cases l[position key (key x) l]? with
  | none => simp only [Option.map_none, List.map_insertIdx]
  | some y =>
      simp only [Option.map_some, hkey]
      split
      next => exact List.map_set.symm
      next => exact (List.map_insertIdx ..).symm

end Transport

end Maps

section Sets

/-- A search that reports only whether the key was found. -/
def contains (k : κ) (l : List κ) : Bool := (find? id k l).isSome

theorem contains_iff {l : List κ} (h : Sorted id l) (k : κ) :
    contains k l = true ↔ k ∈ l := by
  rw [contains, Option.isSome_iff_exists]
  constructor
  · rintro ⟨x, hx⟩
    rcases (find?_eq_some_iff h k x).mp hx with ⟨hmem, rfl⟩
    exact hmem
  · intro hk
    exact ⟨k, (find?_eq_some_iff h k k).mpr ⟨hk, rfl⟩⟩

theorem mem_insertNew {l : List κ} (h : Sorted id l) (x y : κ) :
    y ∈ insertNew id x l ↔ y = x ∨ y ∈ l := by
  rcases insertNew_cases h x with ⟨heq, z, hz, rfl⟩ | ⟨low, high, rfl, heq, -⟩
  · rw [heq]
    constructor
    · exact .inr
    · rintro (rfl | hy)
      · exact hz
      · exact hy
  · rw [heq, List.mem_append, List.mem_cons, List.mem_append, or_left_comm]

end Sets

end LowerBound
