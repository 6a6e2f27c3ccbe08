import Mathlib.Data.List.Nodup
import Mathlib.Logic.Function.Basic

/-!
# Program counters

Every thread has a program counter, and a step moves one of them.  This file
keeps track of two things over such moves: how many threads are inside a region
of the program, and which thread holds a lock.
-/

namespace Threads

variable {τ π : Type*}

/-- `n` threads are inside. -/
def Counted (n : Nat) (inside : π → Bool) (pc : τ → π) : Prop :=
  ∃ threads : List τ, threads.Nodup ∧
    (∀ t, t ∈ threads ↔ inside (pc t) = true) ∧ n = threads.length

/-- The owner of the lock is the one thread inside. -/
def Locked (lock : Option τ) (inside : π → Bool) (pc : τ → π) : Prop :=
  ∀ t, inside (pc t) = true ↔ lock = some t

variable {inside : π → Bool} {pc : τ → π} {lock : Option τ} {n : Nat}

theorem counted_zero (h : ∀ t, inside (pc t) = false) : Counted 0 inside pc :=
  ⟨[], by simp [h]⟩

theorem Counted.nobody (h : Counted 0 inside pc) (t : τ) :
    inside (pc t) = false := by
  obtain ⟨threads, -, hmem, hlength⟩ := h
  have hnil : threads = [] := List.length_eq_zero_iff.mp hlength.symm
  rw [Bool.eq_false_iff, Ne, ← hmem t, hnil]
  exact List.not_mem_nil

theorem Counted.pos (h : Counted n inside pc) {t : τ}
    (ht : inside (pc t) = true) : 0 < n := by
  obtain ⟨threads, -, hmem, rfl⟩ := h
  exact List.length_pos_of_mem ((hmem t).mpr ht)

theorem Counted.unique {m : Nat} (h : Counted n inside pc)
    (h' : Counted m inside pc) : n = m := by
  obtain ⟨threads, hnodup, hmem, rfl⟩ := h
  obtain ⟨threads', hnodup', hmem', rfl⟩ := h'
  have hperm : threads.Perm threads' :=
    (List.perm_ext_iff_of_nodup hnodup hnodup').mpr fun t => by rw [hmem, hmem']
  exact hperm.length_eq

theorem locked_none (h : ∀ t, inside (pc t) = false) : Locked none inside pc := by
  simp [Locked, h]

theorem Locked.alone (h : Locked lock inside pc) {t u : τ}
    (ht : inside (pc t) = true) (hu : inside (pc u) = true) : u = t := by
  have howner := (h t).mp ht
  rw [(h u).mp hu, Option.some.injEq] at howner
  exact howner

theorem Locked.outside (h : Locked lock inside pc) {t u : τ}
    (ht : inside (pc t) = true) (hne : u ≠ t) : inside (pc u) = false := by
  rw [Bool.eq_false_iff]
  exact fun hu => hne (h.alone ht hu)

theorem Locked.nobody (h : Locked none inside pc) (t : τ) :
    inside (pc t) = false := by
  rw [Bool.eq_false_iff, Ne, h t]
  simp

/-! ## Moving one thread -/

variable [DecidableEq τ] {t : τ} {next : π}

theorem forall_update {P : τ → π → Prop} (hnext : P t next)
    (h : ∀ u, u ≠ t → P u (pc u)) : ∀ u, P u (Function.update pc t next u) := by
  intro u
  by_cases hu : u = t
  · subst hu
    rw [Function.update_self]
    exact hnext
  · rw [Function.update_of_ne hu]
    exact h u hu

/-- Who is inside is not the moved thread. -/
theorem or_exists_update {fact : Prop} (h : fact ∨ ∃ u, inside (pc u) = true)
    (ht : inside (pc t) = false) :
    fact ∨ ∃ u, inside (Function.update pc t next u) = true := by
  rcases h with hfact | ⟨u, hu⟩
  · exact .inl hfact
  · have hne : u ≠ t := by
      rintro rfl
      rw [ht] at hu
      contradiction
    exact .inr ⟨u, by rwa [Function.update_of_ne hne]⟩

theorem exists_update_self (h : inside next = true) :
    ∃ u, inside (Function.update pc t next u) = true :=
  ⟨t, by rwa [Function.update_self]⟩

theorem Counted.keep (h : Counted n inside pc)
    (hsame : inside next = inside (pc t)) :
    Counted n inside (Function.update pc t next) := by
  obtain ⟨threads, hnodup, hmem, hlength⟩ := h
  refine ⟨threads, hnodup, ?_, hlength⟩
  refine forall_update (P := fun u p => u ∈ threads ↔ inside p = true) ?_ ?_
  · rw [hsame]
    exact hmem t
  · exact fun u _ => hmem u

theorem Counted.enter (h : Counted n inside pc)
    (hbefore : inside (pc t) = false) (hafter : inside next = true) :
    Counted (n + 1) inside (Function.update pc t next) := by
  obtain ⟨threads, hnodup, hmem, rfl⟩ := h
  have hnot : t ∉ threads := by simp [hmem, hbefore]
  refine ⟨t :: threads, List.nodup_cons.mpr ⟨hnot, hnodup⟩, ?_, rfl⟩
  refine forall_update (P := fun u p => u ∈ t :: threads ↔ inside p = true) ?_ ?_
  · simp [hafter]
  · intro u hu
    simp [hu, hmem]

theorem Counted.leave (h : Counted n inside pc)
    (hbefore : inside (pc t) = true) (hafter : inside next = false) :
    Counted (n - 1) inside (Function.update pc t next) := by
  obtain ⟨threads, hnodup, hmem, rfl⟩ := h
  refine ⟨threads.erase t, hnodup.erase t, ?_, ?_⟩
  · refine forall_update
      (P := fun u p => u ∈ threads.erase t ↔ inside p = true) ?_ ?_
    · simp [hafter, hnodup.mem_erase_iff]
    · intro u hu
      simp [hnodup.mem_erase_iff, hu, hmem]
  · rw [List.length_erase_of_mem ((hmem t).mpr hbefore)]

theorem Locked.keep (h : Locked lock inside pc)
    (hsame : inside next = inside (pc t)) :
    Locked lock inside (Function.update pc t next) := by
  refine forall_update (P := fun u p => inside p = true ↔ lock = some u) ?_ ?_
  · rw [hsame]
    exact h t
  · exact fun u _ => h u

theorem Locked.acquire (h : Locked none inside pc) (hnext : inside next = true) :
    Locked (some t) inside (Function.update pc t next) := by
  refine forall_update (P := fun u p => inside p = true ↔ some t = some u) ?_ ?_
  · simp [hnext]
  · intro u hu
    simp [h.nobody u, Ne.symm hu]

theorem Locked.release (h : Locked lock inside pc)
    (ht : inside (pc t) = true) (hnext : inside next = false) :
    Locked none inside (Function.update pc t next) := by
  refine locked_none (forall_update (P := fun _ p => inside p = false) hnext ?_)
  exact fun u hu => h.outside ht hu

end Threads
