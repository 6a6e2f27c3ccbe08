import Mathlib.Data.List.Forall2

/-!
# Patterns with wildcards

One letter of a pattern stands for every text and one for every letter; every
other letter stands for itself.  Which text may replace the first of them, in
front of which text, is a parameter: all texts, or only itself where the text
has this very letter.
-/

namespace Glob

variable {α : Type*}

/-- The texts that a pattern stands for. -/
inductive Instance (many one : α) (replaces : List α → List α → Prop) :
    List α → List α → Prop
  | nil : Instance many one replaces [] []
  | many {w text pattern : List α} (hw : replaces w text)
      (h : Instance many one replaces text pattern) :
      Instance many one replaces (w ++ text) (many :: pattern)
  | one {c : α} {text pattern : List α} (h : Instance many one replaces text pattern) :
      Instance many one replaces (c :: text) (one :: pattern)
  | letter {c : α} {text pattern : List α} (hmany : c ≠ many) (hone : c ≠ one)
      (h : Instance many one replaces text pattern) :
      Instance many one replaces (c :: text) (c :: pattern)

/-- Any text may stand for the wildcard. -/
def Anything (_ _ : List α) : Prop := True

/-- A wildcard over its own letter stands for this letter alone. -/
def LetterAlone (many : α) (w text : List α) : Prop :=
  (w ++ text).head? = some many → w = [many]

theorem Instance.mono {many one : α} {replaces replaces' : List α → List α → Prop}
    (hreplaces : ∀ w text, replaces w text → replaces' w text) {text pattern : List α}
    (h : Instance many one replaces text pattern) : Instance many one replaces' text pattern := by
  induction h with
  | nil => exact .nil
  | many hw _ ih => exact .many (hreplaces _ _ hw) ih
  | one _ ih => exact .one ih
  | letter hmany hone _ ih => exact .letter hmany hone ih

theorem Instance.letters {many one : α} {replaces : List α → List α → Prop} {w : List α}
    (hw : ∀ c ∈ w, c ≠ many ∧ c ≠ one) {text pattern : List α}
    (h : Instance many one replaces text pattern) :
    Instance many one replaces (w ++ text) (w ++ pattern) := by
  induction w with
  | nil => exact h
  | cons c w ih =>
      obtain ⟨hc, hw⟩ := List.forall_mem_cons.mp hw
      exact .letter hc.1 hc.2 (ih hw)

/-- In a text without the letter of the wildcard nothing is kept alone. -/
theorem Instance.letterAlone {many one : α} {text pattern : List α}
    (h : Instance many one Anything text pattern) (htext : many ∉ text) :
    Instance many one (LetterAlone many) text pattern := by
  induction h with
  | nil => exact .nil
  | @many w text pattern _ _ ih =>
      rw [List.mem_append, not_or] at htext
      refine .many (fun hhead => ?_) (ih htext.2)
      exact absurd (List.mem_of_mem_head? hhead) (by simp [htext])
  | one _ ih => exact .one (ih fun hmem => htext (List.mem_cons_of_mem _ hmem))
  | letter hmany hone _ ih =>
      exact .letter hmany hone (ih fun hmem => htext (List.mem_cons_of_mem _ hmem))

section LetterAlone

variable {many one : α} {text pattern : List α}

/-- A letter that is the letter of the pattern, or that stands under a wildcard
for one letter. -/
def Agrees (one c q : α) : Prop := q = one ∨ q = c

theorem instance_nil_iff {replaces : List α → List α → Prop} (hnil : replaces [] []) :
    Instance many one replaces [] pattern ↔ ∀ q ∈ pattern, q = many := by
  constructor
  · intro h
    induction pattern with
    | nil => exact nofun
    | cons q pattern ih =>
        generalize htext : ([] : List α) = text at h
        cases h with
        | many hw h =>
            obtain ⟨rfl, rfl⟩ := List.append_eq_nil_iff.mp htext.symm
            exact List.forall_mem_cons.mpr ⟨rfl, ih h⟩
        | one | letter => exact absurd htext (by simp)
  · intro h
    induction pattern with
    | nil => exact .nil
    | cons q pattern ih =>
        obtain ⟨rfl, hpattern⟩ := List.forall_mem_cons.mp h
        exact .many (w := []) hnil (ih hpattern)

theorem Instance.eq_nil {replaces : List α → List α → Prop}
    (h : Instance many one replaces text []) : text = [] := by
  generalize hpattern : ([] : List α) = pattern at h
  cases h with
  | nil => rfl
  | many | one | letter => exact absurd hpattern (by simp)

/-- A letter that agrees with the pattern is taken with it, the wildcard over its
own letter included. -/
theorem instance_agrees_iff (hne : one ≠ many) {c q : α} (hagrees : Agrees one c q) :
    Instance many one (LetterAlone many) (c :: text) (q :: pattern) ↔
      Instance many one (LetterAlone many) text pattern := by
  constructor
  · intro h
    generalize htext : c :: text = whole at h
    cases h with
    | @many w rest _ hw h =>
        have hc : many = c := hagrees.resolve_left fun heq => hne heq.symm
        have hletter : w = [many] := hw (by rw [← htext, hc]; rfl)
        rw [hletter] at htext
        obtain ⟨-, rfl⟩ := List.cons.inj htext
        exact h
    | one h =>
        obtain ⟨-, rfl⟩ := List.cons.inj htext
        exact h
    | letter _ _ h =>
        obtain ⟨-, rfl⟩ := List.cons.inj htext
        exact h
  · intro h
    by_cases hone : q = one
    · subst q
      exact .one h
    · obtain rfl := hagrees.resolve_left hone
      by_cases hmany : q = many
      · exact hmany ▸ .many (w := [many]) (fun _ => rfl) h
      · exact .letter hmany hone h

/-- Only the wildcard stands for a text whose first letter does not agree. -/
theorem instance_cons_iff {c q : α} (hagrees : ¬ Agrees one c q) :
    Instance many one (LetterAlone many) (c :: text) (q :: pattern) ↔
      q = many ∧ ∃ rest, rest <:+ c :: text ∧ Instance many one (LetterAlone many) rest pattern := by
  constructor
  · intro h
    generalize htext : c :: text = whole at h
    cases h with
    | @many w rest _ _ h => exact ⟨rfl, rest, ⟨w, rfl⟩, h⟩
    | one h => exact absurd (.inl rfl) hagrees
    | letter _ _ h =>
        obtain ⟨rfl, -⟩ := List.cons.inj htext
        exact absurd (.inr rfl) hagrees
  · rintro ⟨rfl, rest, ⟨w, hw⟩, h⟩
    rw [← hw]
    refine .many (fun hhead => ?_) h
    rw [hw] at hhead
    exact absurd (.inr (Option.some.inj hhead).symm) hagrees

theorem Instance.tail {replaces : List α → List α → Prop} {q : α}
    (h : Instance many one replaces text (q :: pattern)) :
    ∃ rest, rest <:+ text ∧ Instance many one replaces rest pattern := by
  cases h with
  | many _ h => exact ⟨_, List.suffix_append _ _, h⟩
  | one h => exact ⟨_, List.suffix_cons _ _, h⟩
  | letter _ _ h => exact ⟨_, List.suffix_cons _ _, h⟩

/-- What is left of a pattern once its letters have agreed with a piece of text
is matched no earlier from a later place. -/
theorem Instance.later {read passed rest : List α}
    (hread : List.Forall₂ (Agrees one) read passed) (hne : one ≠ many)
    (hrest : rest <:+ read ++ text)
    (h : Instance many one (LetterAlone many) rest (passed ++ pattern)) :
    ∃ rest', rest' <:+ text ∧ Instance many one (LetterAlone many) rest' pattern := by
  induction hread generalizing rest with
  | nil => exact ⟨rest, hrest, h⟩
  | @cons c q read passed hagrees _ ih =>
      obtain rfl | hlater := List.suffix_cons_iff.mp hrest
      · exact ih (List.suffix_refl _) ((instance_agrees_iff hne hagrees).mp h)
      · obtain ⟨rest', hrest', h'⟩ := h.tail
        exact ih (hrest'.trans hlater) h'

end LetterAlone

end Glob
