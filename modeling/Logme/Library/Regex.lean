import Mathlib.Computability.Language

/-!
# Regular expressions over classes of letters

The atoms are decidable classes of letters, so that a wildcard over a large
alphabet is one atom.  The matcher takes derivatives; it decides membership
in the language.
-/

inductive Regex (α : Type*) where
  | zero
  | epsilon
  | letter (p : α → Bool)
  | plus (r s : Regex α)
  | comp (r s : Regex α)
  | star (r : Regex α)

namespace Regex

open Computability

variable {α : Type*}

def language : Regex α → Language α
  | zero => 0
  | epsilon => 1
  | letter p => {w | ∃ a, p a = true ∧ w = [a]}
  | plus r s => r.language + s.language
  | comp r s => r.language * s.language
  | star r => KStar.kstar r.language

/-- The expression accepts the empty word. -/
def matchEpsilon : Regex α → Bool
  | zero => false
  | epsilon => true
  | letter _ => false
  | plus r s => r.matchEpsilon || s.matchEpsilon
  | comp r s => r.matchEpsilon && s.matchEpsilon
  | star _ => true

/-- What is left to accept behind the letter `a`. -/
def deriv (a : α) : Regex α → Regex α
  | zero => zero
  | epsilon => zero
  | letter p => if p a then epsilon else zero
  | plus r s => plus (r.deriv a) (s.deriv a)
  | comp r s =>
      if r.matchEpsilon then plus (comp (r.deriv a) s) (s.deriv a)
      else comp (r.deriv a) s
  | star r => comp (r.deriv a) (star r)

def accepts (r : Regex α) : List α → Bool
  | [] => r.matchEpsilon
  | a :: w => (r.deriv a).accepts w

/-- `r` between `n` and `m` times. -/
def pow (r : Regex α) : Nat → Regex α
  | 0 => epsilon
  | n + 1 => comp r (r.pow n)

theorem mem_letter {p : α → Bool} {w : List α} :
    w ∈ (letter p).language ↔ ∃ a, p a = true ∧ w = [a] := Iff.rfl

theorem matchEpsilon_iff (r : Regex α) :
    r.matchEpsilon = true ↔ [] ∈ r.language := by
  induction r with
  | zero => simp [matchEpsilon, language]
  | epsilon => simp [matchEpsilon, language]
  | letter p => simp [matchEpsilon, mem_letter]
  | plus r s hr hs =>
      simp only [matchEpsilon, language, Language.mem_add, Bool.or_eq_true, hr,
        hs]
  | comp r s hr hs =>
      simp [matchEpsilon, language, Language.mem_mul, hr, hs]
  | star r =>
      simp only [matchEpsilon, language, Language.nil_mem_kstar]

theorem cons_mem_mul {L M : Language α} {a : α} {w : List α} :
    a :: w ∈ L * M ↔
      ([] ∈ L ∧ a :: w ∈ M) ∨ ∃ u v, a :: u ∈ L ∧ v ∈ M ∧ w = u ++ v := by
  rw [Language.mem_mul]
  constructor
  · rintro ⟨x, hx, v, hv, hsplit⟩
    cases x with
    | nil =>
        rw [List.nil_append] at hsplit
        exact .inl ⟨hx, hsplit ▸ hv⟩
    | cons b u =>
        rw [List.cons_append, List.cons.injEq] at hsplit
        rcases hsplit with ⟨rfl, hw⟩
        exact .inr ⟨u, v, hx, hv, hw.symm⟩
  · rintro (⟨hnil, hw⟩ | ⟨u, v, hu, hv, rfl⟩)
    · exact ⟨[], hnil, a :: w, hw, rfl⟩
    · exact ⟨a :: u, hu, v, hv, rfl⟩

theorem cons_mem_kstar {L : Language α} {a : α} {w : List α} :
    a :: w ∈ KStar.kstar L ↔
      ∃ u v, a :: u ∈ L ∧ v ∈ KStar.kstar L ∧ w = u ++ v := by
  constructor
  · intro hmem
    rcases Language.mem_kstar_iff_exists_nonempty.mp hmem with
      ⟨parts, hparts, hall⟩
    cases parts with
    | nil => simp at hparts
    | cons part rest =>
        rcases hall part (by simp) with ⟨hpart, hne⟩
        cases part with
        | nil => exact absurd rfl hne
        | cons b u =>
            rw [List.flatten_cons, List.cons_append, List.cons.injEq] at hparts
            rcases hparts with ⟨rfl, hw⟩
            exact ⟨u, rest.flatten, hpart,
              Language.join_mem_kstar fun y hy =>
                (hall y (List.mem_cons_of_mem _ hy)).1, hw⟩
  · rintro ⟨u, v, hu, hv, rfl⟩
    rcases Language.mem_kstar.mp hv with ⟨parts, rfl, hall⟩
    refine Language.mem_kstar.mpr ⟨(a :: u) :: parts, rfl, ?_⟩
    intro y hy
    rcases List.mem_cons.mp hy with rfl | hy
    · exact hu
    · exact hall y hy

theorem mem_deriv (r : Regex α) (a : α) (w : List α) :
    w ∈ (r.deriv a).language ↔ a :: w ∈ r.language := by
  induction r generalizing w with
  | zero => simp [deriv, language]
  | epsilon => simp [deriv, language, Language.mem_one]
  | letter p =>
      unfold deriv
      split
      next hp =>
        rw [mem_letter, language, Language.mem_one]
        simp [hp]
      next hp =>
        rw [mem_letter]
        simp [language, hp]
  | plus r s hr hs => simp only [deriv, language, Language.mem_add, hr, hs]
  | comp r s hr hs =>
      have hfirst : w ∈ (r.deriv a).language * s.language ↔
          ∃ u v, a :: u ∈ r.language ∧ v ∈ s.language ∧ w = u ++ v := by
        rw [Language.mem_mul]
        constructor
        · rintro ⟨u, hu, v, hv, rfl⟩
          exact ⟨u, v, (hr u).mp hu, hv, rfl⟩
        · rintro ⟨u, v, hu, hv, rfl⟩
          exact ⟨u, (hr u).mpr hu, v, hv, rfl⟩
      unfold deriv
      rw [language, cons_mem_mul, ← r.matchEpsilon_iff]
      split
      next hnil =>
        simp only [language, Language.mem_add, hfirst, hs, hnil, true_and]
        exact or_comm
      next hnil =>
        simp only [language, hfirst, hnil, Bool.false_eq_true, false_and,
          false_or]
  | star r hr =>
      rw [language, cons_mem_kstar, deriv, language, Language.mem_mul]
      constructor
      · rintro ⟨u, hu, v, hv, rfl⟩
        exact ⟨u, v, (hr u).mp hu, hv, rfl⟩
      · rintro ⟨u, v, hu, hv, rfl⟩
        exact ⟨u, (hr u).mpr hu, v, hv, rfl⟩

/-- The matcher decides the language. -/
theorem accepts_iff (r : Regex α) (w : List α) :
    r.accepts w = true ↔ w ∈ r.language := by
  induction w generalizing r with
  | nil => exact r.matchEpsilon_iff
  | cons a w ih => rw [accepts, ih, mem_deriv]

end Regex
