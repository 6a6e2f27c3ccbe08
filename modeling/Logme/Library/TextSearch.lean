import Mathlib.Data.List.Basic

/-!
# Searching a text

The first and the last occurrence of a pattern, the replacement of all of
them, and the lines of a text, on lists.  A pattern that begins with a
character that the text before it does not contain is found where it stands.
-/

namespace TextSearch

variable {α : Type*} [DecidableEq α]

/-- What stands before the first occurrence of a pattern and behind it. -/
def splitFirst (pattern : List α) : List α → Option (List α × List α)
  | [] => if pattern = [] then some ([], []) else none
  | b :: rest =>
      if pattern.isPrefixOf (b :: rest) then some ([], (b :: rest).drop pattern.length)
      else (splitFirst pattern rest).map fun read => (b :: read.1, read.2)

/-- What stands before the last occurrence of a pattern and behind it. -/
def splitLast (pattern : List α) : List α → Option (List α × List α)
  | [] => if pattern = [] then some ([], []) else none
  | b :: rest =>
      match splitLast pattern rest with
      | some read => some (b :: read.1, read.2)
      | none =>
          if pattern.isPrefixOf (b :: rest) then some ([], (b :: rest).drop pattern.length)
          else none

/-- The occurrences of a pattern are replaced from left to right; `skip`
characters still belong to the last one. -/
def replaceFrom (pattern replacement : List α) : Nat → List α → List α
  | _, [] => []
  | skip + 1, _ :: rest => replaceFrom pattern replacement skip rest
  | 0, b :: rest =>
      if pattern.isPrefixOf (b :: rest) then
        replacement ++ replaceFrom pattern replacement (pattern.length - 1) rest
      else b :: replaceFrom pattern replacement 0 rest

def replaceAll (pattern replacement text : List α) : List α :=
  replaceFrom pattern replacement 0 text

/-- The lines of a text, without their ends; nothing follows the last end. -/
def splitLines (newline : α) : List α → List (List α)
  | [] => []
  | b :: rest =>
      if b = newline then [] :: splitLines newline rest
      else
        match splitLines newline rest with
        | [] => [[b]]
        | line :: lines => (b :: line) :: lines

/-! ## The first occurrence -/

theorem splitFirst_append {b : α} {before : List α} (h : b ∉ before)
    (pattern rest : List α) :
    splitFirst (b :: pattern) (before ++ (b :: pattern ++ rest)) = some (before, rest) := by
  induction before with
  | nil => simp [splitFirst]
  | cons c before ih =>
      rw [List.mem_cons, not_or] at h
      have hother : (b :: pattern).isPrefixOf
          (c :: (before ++ (b :: pattern ++ rest))) = false := by
        simp [List.isPrefixOf, h.1]
      rw [List.cons_append, splitFirst, hother, ih h.2]
      simp

theorem splitFirst_parts {pattern text before after : List α}
    (hfirst : splitFirst pattern text = some (before, after)) :
    text = before ++ pattern ++ after := by
  induction text generalizing before with
  | nil =>
      rw [splitFirst] at hfirst
      split at hfirst
      next hnil =>
        simp only [Option.some.injEq, Prod.mk.injEq] at hfirst
        simp [← hfirst.1, ← hfirst.2, hnil]
      next => simp at hfirst
  | cons b rest ih =>
      rw [splitFirst] at hfirst
      split at hfirst
      next hlabel =>
        rcases List.isPrefixOf_iff_prefix.mp hlabel with ⟨tail, htail⟩
        rw [← htail, List.drop_left] at hfirst
        simp only [Option.some.injEq, Prod.mk.injEq] at hfirst
        simp [← hfirst.1, ← hfirst.2, htail]
      next =>
        rw [Option.map_eq_some_iff] at hfirst
        rcases hfirst with ⟨⟨before', after'⟩, hrest, heq⟩
        simp only [Prod.mk.injEq] at heq
        rw [heq.2] at hrest
        rw [ih hrest, ← heq.1]
        simp

theorem splitFirst_eq_none {pattern : List α} (hpattern : pattern ≠ []) {text : List α} :
    splitFirst pattern text = none ↔ ¬ pattern <:+: text := by
  induction text with
  | nil => simp [splitFirst, hpattern]
  | cons b rest ih =>
      rw [splitFirst, List.infix_cons_iff, not_or, ← ih, ← List.isPrefixOf_iff_prefix]
      split
      next hlabel => simp [hlabel]
      next hlabel => simp [hlabel]

/-- An occurrence behind a part of the text is the first one behind it. -/
theorem splitFirst_behind {pattern front rest before after : List α}
    (hfirst : splitFirst pattern (front ++ rest) = some (front ++ before, after)) :
    splitFirst pattern rest = some (before, after) := by
  induction front with
  | nil => exact hfirst
  | cons b front ih =>
      rw [List.cons_append, splitFirst] at hfirst
      split at hfirst
      next => simp at hfirst
      next =>
        rw [Option.map_eq_some_iff] at hfirst
        rcases hfirst with ⟨⟨before', after'⟩, hrest, heq⟩
        simp only [List.cons_append, Prod.mk.injEq, List.cons.injEq, true_and] at heq
        exact ih (by rw [hrest, heq.1, heq.2])

/-! ## The last occurrence -/

theorem splitLast_append {b : α} {pattern rest : List α}
    (hlast : splitLast (b :: pattern) (pattern ++ rest) = none) (before : List α) :
    splitLast (b :: pattern) (before ++ (b :: pattern ++ rest)) = some (before, rest) := by
  induction before with
  | nil =>
      rw [List.nil_append, List.cons_append, splitLast, hlast]
      simp
  | cons c before ih => rw [List.cons_append, splitLast, ih]

/-! ## Replacement -/

theorem replaceFrom_skip (pattern replacement skipped rest : List α) :
    replaceFrom pattern replacement skipped.length (skipped ++ rest) =
      replaceFrom pattern replacement 0 rest := by
  induction skipped with
  | nil => rfl
  | cons b skipped ih => exact ih

theorem replaceAll_found {b : α} (pattern replacement rest : List α) :
    replaceAll (b :: pattern) replacement (b :: pattern ++ rest) =
      replacement ++ replaceAll (b :: pattern) replacement rest := by
  have hfound : (b :: pattern).isPrefixOf (b :: (pattern ++ rest)) = true := by simp
  rw [replaceAll, List.cons_append, replaceFrom, if_pos hfound]
  exact congrArg _ (replaceFrom_skip _ _ pattern rest)

theorem replaceAll_cons {pattern : List α} {b : α} {rest : List α}
    (h : pattern.isPrefixOf (b :: rest) = false) (replacement : List α) :
    replaceAll pattern replacement (b :: rest) =
      b :: replaceAll pattern replacement rest := by
  rw [replaceAll, replaceFrom, h]
  rfl

theorem replaceAll_of_none {pattern text : List α} (hpattern : pattern ≠ [])
    (hnone : splitFirst pattern text = none) (replacement : List α) :
    replaceAll pattern replacement text = text := by
  induction text with
  | nil => rfl
  | cons b rest ih =>
      rw [splitFirst_eq_none hpattern, List.infix_cons_iff, not_or] at hnone
      have hother : pattern.isPrefixOf (b :: rest) = false := by
        rw [← Bool.not_eq_true, List.isPrefixOf_iff_prefix]
        exact hnone.1
      rw [replaceAll_cons hother, ih ((splitFirst_eq_none hpattern).mpr hnone.2)]

theorem replaceAll_of_first {pattern text before after : List α} (hpattern : pattern ≠ [])
    (hfirst : splitFirst pattern text = some (before, after)) (replacement : List α) :
    replaceAll pattern replacement text =
      before ++ replacement ++ replaceAll pattern replacement after := by
  induction text generalizing before with
  | nil => simp [splitFirst, hpattern] at hfirst
  | cons b rest ih =>
      by_cases hlabel : pattern <+: b :: rest
      · rcases hlabel with ⟨tail, htail⟩
        cases pattern with
        | nil => exact absurd rfl hpattern
        | cons c pattern =>
            rw [splitFirst, ← htail, if_pos (by simp), List.drop_left] at hfirst
            simp only [Option.some.injEq, Prod.mk.injEq] at hfirst
            rw [← htail, replaceAll_found, ← hfirst.1, ← hfirst.2, List.nil_append]
      · have hother : pattern.isPrefixOf (b :: rest) = false := by
          rw [← Bool.not_eq_true, List.isPrefixOf_iff_prefix]
          exact hlabel
        rw [splitFirst, hother, if_neg Bool.false_ne_true, Option.map_eq_some_iff] at hfirst
        rcases hfirst with ⟨⟨before', after'⟩, hrest, heq⟩
        simp only [Prod.mk.injEq] at heq
        rw [heq.2] at hrest
        rw [replaceAll_cons hother, ih hrest, ← heq.1]
        simp

theorem replaceAll_self {pattern : List α} (hpattern : pattern ≠ []) (text : List α) :
    replaceAll pattern pattern text = text := by
  induction hlength : text.length using Nat.strongRecOn generalizing text with
  | _ length ih =>
      cases hfirst : splitFirst pattern text with
      | none => exact replaceAll_of_none hpattern hfirst pattern
      | some parts =>
          have htext := splitFirst_parts hfirst
          have hpos := List.length_pos_iff.mpr hpattern
          have hless : parts.2.length < length := by
            rw [← hlength, htext]
            simp only [List.length_append]
            omega
          rw [replaceAll_of_first hpattern hfirst, ih _ hless parts.2 rfl, ← htext]

/-- A text without the first character of the pattern is kept. -/
theorem replaceAll_append_of_notMem {b : α} {text : List α} (h : b ∉ text)
    (pattern replacement rest : List α) :
    replaceAll (b :: pattern) replacement (text ++ rest) =
      text ++ replaceAll (b :: pattern) replacement rest := by
  induction text with
  | nil => rfl
  | cons c text ih =>
      rw [List.mem_cons, not_or] at h
      rw [List.cons_append, replaceAll_cons (by simp [List.isPrefixOf, h.1]), ih h.2]
      rfl

/-! ## Lines -/

variable {newline : α}

theorem splitLines_line {line : List α} (h : newline ∉ line) (rest : List α) :
    splitLines newline (line ++ newline :: rest) = line :: splitLines newline rest := by
  induction line with
  | nil => simp [splitLines]
  | cons b line ih =>
      rw [List.mem_cons, not_or] at h
      rw [List.cons_append, splitLines, if_neg (Ne.symm h.1), ih h.2]

theorem splitLines_flatMap {lines : List (List α)} (h : ∀ line ∈ lines, newline ∉ line) :
    splitLines newline (lines.flatMap fun line => line ++ [newline]) = lines := by
  induction lines with
  | nil => rfl
  | cons line lines ih =>
      rw [List.forall_mem_cons] at h
      rw [List.flatMap_cons, List.append_assoc, List.singleton_append,
        splitLines_line h.1, ih h.2]

/-- A text can be cut behind the end of a line. -/
theorem splitLines_append (text rest : List α) :
    splitLines newline (text ++ newline :: rest) =
      splitLines newline (text ++ [newline]) ++ splitLines newline rest := by
  induction text with
  | nil => simp [splitLines]
  | cons b text ih =>
      simp only [List.cons_append, splitLines]
      split
      next => rw [ih, List.cons_append]
      next =>
        rw [ih]
        cases hlines : splitLines newline (text ++ [newline]) with
        | nil =>
            have hne : splitLines newline (text ++ [newline]) ≠ [] := by
              cases text with
              | nil => simp [splitLines]
              | cons c text =>
                  rw [List.cons_append, splitLines]
                  split
                  · simp
                  · split <;> simp
            exact absurd hlines hne
        | cons line lines => rfl

end TextSearch
