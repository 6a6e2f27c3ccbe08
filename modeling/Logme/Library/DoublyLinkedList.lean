import Mathlib.Data.List.Basic
import Mathlib.Data.List.Nodup
import Mathlib.Logic.Function.Basic

/-!
# Doubly linked lists

Every node has a pointer to each neighbour, and `none` is the slot of the head
and tail pointers: `forward none` is the head, `backward none` the tail.  The
pointers represent a list when at every cut of it they lead across the cut,
both ways.  A node is inserted or taken out by writing the four pointers around
it.
-/

namespace DoublyLinked

variable {ι : Type*}

def Represents (forward backward : Option ι → Option ι) (l : List ι) : Prop :=
  ∀ l₁ l₂, l₁ ++ l₂ = l →
    forward l₁.getLast? = l₂.head? ∧ backward l₂.head? = l₁.getLast?

/-! ## Cuts of a list -/

theorem getLast?_append_ne {l₁ l₂ : List ι} (hnodup : (l₁ ++ l₂).Nodup)
    (h : l₂ ≠ []) : (l₁ ++ l₂).getLast? ≠ l₁.getLast? := by
  intro heq
  rw [List.getLast?_append_of_ne_nil l₁ h] at heq
  cases hend : l₂.getLast? with
  | none => exact h (List.getLast?_eq_none_iff.mp hend)
  | some x =>
      have hfirst : x ∈ l₁ := List.mem_of_getLast? (heq ▸ hend)
      have hsecond : x ∈ l₂ := List.mem_of_getLast? hend
      exact (List.nodup_append.mp hnodup).2.2 x hfirst x hsecond rfl

/-- In a list without repetition a cut is known by the last node before it. -/
theorem cut_unique {l₁ l₂ k₁ k₂ : List ι} (hnodup : (l₁ ++ l₂).Nodup)
    (h : k₁ ++ k₂ = l₁ ++ l₂) (hlast : k₁.getLast? = l₁.getLast?) : k₁ = l₁ := by
  rcases List.append_eq_append_iff.mp h with ⟨c, rfl, rfl⟩ | ⟨c, rfl, rfl⟩
  · by_cases hc : c = []
    · simp [hc]
    · have hfirst := (List.nodup_append.mp hnodup).1
      exact absurd hlast.symm (getLast?_append_ne hfirst hc)
  · by_cases hc : c = []
    · simp [hc]
    · rw [← List.append_assoc] at hnodup
      have hfirst := (List.nodup_append.mp hnodup).1
      exact absurd hlast (getLast?_append_ne hfirst hc)

/-- A cut of a list with a node `x` in it is one of the two cuts beside `x`, or
has the ends of another cut of the list without `x`. -/
theorem cut_insert {l₁ l₂ m₁ m₂ : List ι} {x : ι}
    (h : m₁ ++ m₂ = l₁ ++ x :: l₂) :
    (m₁ = l₁ ∧ m₂ = x :: l₂) ∨ (m₁ = l₁ ++ [x] ∧ m₂ = l₂) ∨
      ∃ k₁ k₂, k₁ ++ k₂ = l₁ ++ l₂ ∧ k₁ ≠ l₁ ∧
        m₁.getLast? = k₁.getLast? ∧ m₂.head? = k₂.head? := by
  rcases List.append_eq_append_iff.mp h with ⟨c, rfl, rfl⟩ | ⟨c, rfl, hc⟩
  · by_cases hc : c = []
    · subst c
      exact .inl (by simp)
    · refine .inr (.inr ⟨m₁, c ++ l₂, by simp, ?_, rfl, ?_⟩)
      · simpa using hc
      · rw [List.head?_append_of_ne_nil _ hc, List.head?_append_of_ne_nil _ hc]
  · cases c with
    | nil =>
        rw [List.nil_append] at hc
        exact .inl ⟨List.append_nil l₁, hc.symm⟩
    | cons y c =>
        simp only [List.cons_append, List.cons.injEq] at hc
        obtain ⟨rfl, rfl⟩ := hc
        by_cases hc : c = []
        · subst c
          exact .inr (.inl ⟨rfl, rfl⟩)
        · refine .inr (.inr ⟨l₁ ++ c, m₂, by simp, by simpa using hc, ?_, rfl⟩)
          rw [List.getLast?_append_of_ne_nil l₁ hc,
            List.getLast?_append_of_ne_nil l₁ (List.cons_ne_nil _ _)]
          exact List.getLast?_append_of_ne_nil [x] hc

/-- A cut of a list other than the one between `l₁` and `l₂` has the ends of a
cut of the list with `x` there. -/
theorem cut_erase {l₁ l₂ k₁ k₂ : List ι} (x : ι) (h : k₁ ++ k₂ = l₁ ++ l₂)
    (hne : k₁ ≠ l₁) :
    ∃ m₁ m₂, m₁ ++ m₂ = l₁ ++ x :: l₂ ∧
      m₁.getLast? = k₁.getLast? ∧ m₂.head? = k₂.head? := by
  rcases List.append_eq_append_iff.mp h with ⟨c, rfl, rfl⟩ | ⟨c, rfl, rfl⟩
  · have hc : c ≠ [] := by
      rintro rfl
      exact hne (List.append_nil k₁).symm
    refine ⟨k₁, c ++ x :: l₂, by simp, rfl, ?_⟩
    rw [List.head?_append_of_ne_nil _ hc, List.head?_append_of_ne_nil _ hc]
  · have hc : c ≠ [] := by
      rintro rfl
      exact hne (List.append_nil l₁)
    refine ⟨l₁ ++ x :: c, k₂, by simp, ?_, rfl⟩
    rw [List.getLast?_append_of_ne_nil l₁ hc,
      List.getLast?_append_of_ne_nil l₁ (List.cons_ne_nil _ _)]
    exact List.getLast?_append_of_ne_nil [x] hc

theorem getLast?_ne_of_notMem {l : List ι} {x : ι} (h : x ∉ l) :
    l.getLast? ≠ some x :=
  fun hlast => h (List.mem_of_getLast? hlast)

theorem head?_ne_of_notMem {l : List ι} {x : ι} (h : x ∉ l) :
    l.head? ≠ some x :=
  fun hhead => h (List.mem_of_head? hhead)

/-! ## The pointers of a represented list -/

variable {forward backward : Option ι → Option ι} {l : List ι}

theorem represents_nil (hforward : forward none = none)
    (hbackward : backward none = none) : Represents forward backward [] := by
  intro l₁ l₂ h
  obtain ⟨rfl, rfl⟩ := List.append_eq_nil_iff.mp h
  exact ⟨hforward, hbackward⟩

theorem Represents.head (h : Represents forward backward l) :
    forward none = l.head? :=
  (h [] l rfl).1

theorem Represents.tail (h : Represents forward backward l) :
    backward none = l.getLast? :=
  (h l [] (List.append_nil l)).2

theorem Represents.neighbours {l₁ l₂ : List ι} {x : ι}
    (h : Represents forward backward (l₁ ++ x :: l₂)) :
    forward (some x) = l₂.head? ∧ backward (some x) = l₁.getLast? := by
  have hafter := (h (l₁ ++ [x]) l₂ (by simp)).1
  have hbefore := (h l₁ (x :: l₂) rfl).2
  rw [List.getLast?_concat] at hafter
  exact ⟨hafter, hbefore⟩

theorem Represents.cut_ends {l₁ l₂ k₁ k₂ : List ι}
    (h : Represents forward backward (l₁ ++ l₂)) (hnodup : (l₁ ++ l₂).Nodup)
    (hcut : k₁ ++ k₂ = l₁ ++ l₂) (hne : k₁ ≠ l₁) :
    k₁.getLast? ≠ l₁.getLast? ∧ k₂.head? ≠ l₂.head? := by
  have hlast : k₁.getLast? ≠ l₁.getLast? :=
    fun heq => hne (cut_unique hnodup hcut heq)
  refine ⟨hlast, fun heq => hlast ?_⟩
  rw [← (h k₁ k₂ hcut).2, ← (h l₁ l₂ rfl).2, heq]

variable [DecidableEq ι]

/-! ## Inserting a node -/

theorem Represents.insert {l₁ l₂ : List ι} {x : ι}
    (h : Represents forward backward (l₁ ++ l₂)) (hnodup : (l₁ ++ l₂).Nodup)
    (hx : x ∉ l₁ ++ l₂) :
    Represents
      (Function.update (Function.update forward (some x) l₂.head?)
        l₁.getLast? (some x))
      (Function.update (Function.update backward (some x) l₁.getLast?)
        l₂.head? (some x))
      (l₁ ++ x :: l₂) := by
  have hx' := hx
  rw [List.mem_append, not_or] at hx'
  have hlast := getLast?_ne_of_notMem hx'.1
  have hhead := head?_ne_of_notMem hx'.2
  intro m₁ m₂ hcut
  rcases cut_insert hcut with ⟨rfl, rfl⟩ | ⟨rfl, rfl⟩ | ⟨k₁, k₂, hk, hne, hm₁, hm₂⟩
  · refine ⟨Function.update_self _ _ _, ?_⟩
    rw [List.head?_cons, Function.update_of_ne hhead.symm, Function.update_self]
  · rw [List.getLast?_concat]
    refine ⟨?_, Function.update_self _ _ _⟩
    rw [Function.update_of_ne hlast.symm, Function.update_self]
  · have hends := h.cut_ends hnodup hk hne
    rw [← hk, List.mem_append, not_or] at hx
    rw [hm₁, hm₂, Function.update_of_ne hends.1, Function.update_of_ne hends.2,
      Function.update_of_ne (getLast?_ne_of_notMem hx.1),
      Function.update_of_ne (head?_ne_of_notMem hx.2)]
    exact h k₁ k₂ hk

/-! ## Taking a node out -/

theorem Represents.unlink {l₁ l₂ : List ι} {x : ι}
    (h : Represents forward backward (l₁ ++ x :: l₂))
    (hnodup : (l₁ ++ x :: l₂).Nodup) :
    Represents
      (Function.update (Function.update forward (backward (some x))
        (forward (some x))) (some x) none)
      (Function.update (Function.update backward (forward (some x))
        (backward (some x))) (some x) none)
      (l₁ ++ l₂) := by
  obtain ⟨hnext, hprev⟩ := h.neighbours
  rw [hnext, hprev]
  rw [List.nodup_middle, List.nodup_cons] at hnodup
  obtain ⟨hx, hnodup⟩ := hnodup
  intro k₁ k₂ hcut
  have hx' := hx
  rw [← hcut, List.mem_append, not_or] at hx'
  rw [Function.update_of_ne (getLast?_ne_of_notMem hx'.1),
    Function.update_of_ne (head?_ne_of_notMem hx'.2)]
  by_cases hne : k₁ = l₁
  · subst k₁
    rw [List.append_cancel_left hcut]
    exact ⟨Function.update_self _ _ _, Function.update_self _ _ _⟩
  · obtain ⟨m₁, m₂, hm, hlast, hhead⟩ := cut_erase x hcut hne
    have hold := h m₁ m₂ hm
    rw [hlast, hhead] at hold
    have hk₁ : k₁.getLast? ≠ l₁.getLast? :=
      fun heq => hne (cut_unique hnodup hcut heq)
    have hk₂ : k₂.head? ≠ l₂.head? := by
      intro heq
      have hafter := (h (l₁ ++ [x]) l₂ (by simp)).2
      rw [← heq, hold.2, List.getLast?_concat] at hafter
      exact getLast?_ne_of_notMem hx'.1 hafter
    rw [Function.update_of_ne hk₁, Function.update_of_ne hk₂]
    exact hold

end DoublyLinked
