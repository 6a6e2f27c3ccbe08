import Logme.CmdSubsystem
import Logme.Library.Glob

/-!
# Trace point patterns

The matcher compares a letter of the pattern with one of the text before it
looks for a star.  A star that stands over a star of the text is therefore taken
for this letter, and no retry comes back to it: `operator*` is no pattern for
the methods whose names begin like this.
-/

namespace Logme

open Glob

/-- `WildcardMatchInternal` with a bound on the rounds, which it may exceed. -/
def wildcardRun : Nat → Name → Name → Option (Name × Name) → Option Bool
  | 0, _, _, _ => none
  | _ + 1, [], pattern, _ => some (pattern.all (· = 0x2A))
  | fuel + 1, c :: text, pattern, star =>
      if pattern.head? = some 0x3F ∨ pattern.head? = some c then
        wildcardRun fuel text pattern.tail star
      else if pattern.head? = some 0x2A then
        wildcardRun fuel (c :: text) pattern.tail (some (pattern.tail, c :: text))
      else
        match star with
        | none => some false
        | some (afterStar, retry) =>
            wildcardRun fuel retry.tail afterStar (some (afterStar, retry.tail))

theorem wildcardLoop_eq (fuel : Nat) (text pattern : Name) (star : Option (Name × Name)) :
    wildcardLoop fuel text pattern star = (wildcardRun fuel text pattern star).getD false := by
  fun_induction wildcardRun fuel text pattern star with
  | case1 => rfl
  | case2 => rfl
  | case3 fuel c text pattern star hagrees ih =>
      unfold wildcardLoop
      rw [if_pos hagrees, ih]
  | case4 fuel c text pattern star hagrees hstar ih =>
      unfold wildcardLoop
      rw [if_neg hagrees, if_pos hstar, ih]
  | case5 fuel c text pattern hagrees hstar =>
      unfold wildcardLoop
      rw [if_neg hagrees, if_neg hstar]
      rfl
  | case6 fuel c text pattern hagrees hstar afterStar retry ih =>
      unfold wildcardLoop
      rw [if_neg hagrees, if_neg hstar]
      exact ih

/-- The text comes from the pattern by the replacement of each `*` by some text
and of each `?` by one character. -/
def IsInstance (text pattern : Name) : Prop := Instance 0x2A 0x3F Anything text pattern

/-- And each `*` that falls on a `*` of the text is replaced by this character. -/
def IsLiteralInstance (text pattern : Name) : Prop :=
  Instance 0x2A 0x3F (LetterAlone 0x2A) text pattern

/-! ## What the matcher has seen -/

/-- Since the last star the text has agreed with the pattern letter by letter. -/
def Resumes (longest widest : Nat) (text pattern : Name) : Option (Name × Name) → Prop
  | none => text.length ≤ longest ∧ pattern.length ≤ widest
  | some (afterStar, retry) =>
      retry.length ≤ longest ∧ afterStar.length ≤ widest ∧
        ∃ read passed, List.Forall₂ (Agrees 0x3F) read passed ∧ retry = read ++ text ∧
          afterStar = passed ++ pattern

/-- A literal reading, with the last star as it stands or moved on. -/
def Accepts (text pattern : Name) : Option (Name × Name) → Prop
  | none => IsLiteralInstance text pattern
  | some (afterStar, retry) =>
      IsLiteralInstance text pattern ∨
        ∃ rest, rest <:+ retry.tail ∧ IsLiteralInstance rest afterStar

/-- How far a star can still move. -/
def retries (longest : Nat) : Option (Name × Name) → Nat
  | none => longest
  | some (_, retry) => retry.length

section Matcher

variable {longest widest : Nat} {text pattern afterStar retry : Name} {c q : UInt8}
  {star : Option (Name × Name)}

theorem exists_suffix_iff {P : Name → Prop} :
    (∃ rest, rest <:+ text ∧ P rest) ↔ P text ∨ ∃ rest, rest <:+ text.tail ∧ P rest := by
  constructor
  · rintro ⟨rest, hrest, h⟩
    cases text with
    | nil => exact .inl (List.suffix_nil.mp hrest ▸ h)
    | cons c text =>
        obtain rfl | hrest := List.suffix_cons_iff.mp hrest
        · exact .inl h
        · exact .inr ⟨rest, hrest, h⟩
  · rintro (h | ⟨rest, hrest, h⟩)
    · exact ⟨text, List.suffix_refl _, h⟩
    · exact ⟨rest, hrest.trans (List.tail_suffix text), h⟩

theorem agrees_iff :
    (q :: pattern).head? = some 0x3F ∨ (q :: pattern).head? = some c ↔ Agrees 0x3F c q := by
  simp [Agrees]

/-- What a moved star would match is matched from where the text stands. -/
theorem Resumes.later (h : Resumes longest widest text pattern (some (afterStar, retry)))
    {rest : Name} (hrest : rest <:+ retry.tail) (hinstance : IsLiteralInstance rest afterStar) :
    ∃ rest', rest' <:+ text ∧ IsLiteralInstance rest' pattern := by
  obtain ⟨-, -, read, passed, hread, rfl, rfl⟩ := h
  exact hinstance.later hread (by decide) (hrest.trans (List.tail_suffix _))

theorem Resumes.agree (h : Resumes longest widest (c :: text) (q :: pattern) star)
    (hagrees : Agrees 0x3F c q) : Resumes longest widest text pattern star := by
  cases star with
  | none => exact ⟨Nat.le_of_succ_le h.1, Nat.le_of_succ_le h.2⟩
  | some saved =>
      obtain ⟨hretry, hafter, read, passed, hread, hretryEq, hafterEq⟩ := h
      refine ⟨hretry, hafter, read ++ [c], passed ++ [q], ?_, ?_, ?_⟩
      · exact List.rel_append hread (.cons hagrees .nil)
      · rw [hretryEq, List.append_assoc, List.singleton_append]
      · rw [hafterEq, List.append_assoc, List.singleton_append]

theorem accepts_agree (hagrees : Agrees 0x3F c q) :
    Accepts (c :: text) (q :: pattern) star ↔ Accepts text pattern star := by
  have htaken : IsLiteralInstance (c :: text) (q :: pattern) ↔ IsLiteralInstance text pattern :=
    instance_agrees_iff (by decide) hagrees
  cases star with
  | none => exact htaken
  | some saved => exact or_congr_left htaken

theorem Resumes.sizes (h : Resumes longest widest text pattern star) :
    text.length ≤ retries longest star ∧ retries longest star ≤ longest ∧
      pattern.length ≤ widest := by
  cases star with
  | none => exact ⟨h.1, Nat.le_refl _, h.2⟩
  | some saved =>
      obtain ⟨hretry, hafter, read, passed, hread, hretryEq, hafterEq⟩ := h
      rw [hafterEq, List.length_append] at hafter
      refine ⟨?_, hretry, by omega⟩
      rw [retries, hretryEq, List.length_append]
      omega

/-- The star that is found replaces the one before: a literal reading that moves
the older one can as well keep it. -/
theorem accepts_star (h : Resumes longest widest (c :: text) (0x2A :: pattern) star)
    (hagrees : ¬ Agrees 0x3F c 0x2A) :
    Accepts (c :: text) (0x2A :: pattern) star ↔
      Accepts (c :: text) pattern (some (pattern, c :: text)) := by
  have hmoved : IsLiteralInstance (c :: text) (0x2A :: pattern) ↔
      Accepts (c :: text) pattern (some (pattern, c :: text)) := by
    rw [IsLiteralInstance, instance_cons_iff hagrees, and_iff_right rfl]
    exact exists_suffix_iff
  rw [← hmoved]
  cases star with
  | none => rfl
  | some saved =>
      refine or_iff_left_of_imp ?_
      rintro ⟨rest, hrest, hinstance⟩
      obtain ⟨rest, hrest, hinstance⟩ := h.later hrest hinstance
      obtain ⟨rest', hrest', hinstance⟩ := hinstance.tail
      exact (instance_cons_iff hagrees).mpr ⟨rfl, rest', hrest'.trans hrest, hinstance⟩

theorem not_isLiteralInstance (hagrees : ¬ (pattern.head? = some 0x3F ∨ pattern.head? = some c))
    (hstar : pattern.head? ≠ some 0x2A) : ¬ IsLiteralInstance (c :: text) pattern := by
  intro h
  cases pattern with
  | nil => exact absurd h.eq_nil (by simp)
  | cons q pattern =>
      rw [agrees_iff] at hagrees
      exact hstar (congrArg some ((instance_cons_iff hagrees).mp h).1)

/-- At the end of the text only stars may be left. -/
theorem accepts_nil (h : Resumes longest widest [] pattern star) :
    pattern.all (· = 0x2A) = true ↔ Accepts [] pattern star := by
  have hstars : pattern.all (· = 0x2A) = true ↔ IsLiteralInstance [] pattern := by
    rw [IsLiteralInstance, instance_nil_iff (fun hnone => absurd hnone (by simp))]
    simp
  rw [hstars]
  cases star with
  | none => rfl
  | some saved =>
      refine (or_iff_left_of_imp ?_).symm
      rintro ⟨rest, hrest, hinstance⟩
      obtain ⟨rest', hrest', hinstance⟩ := h.later hrest hinstance
      rw [List.suffix_nil.mp hrest'] at hinstance
      exact hinstance

/-- The matcher answers within a number of rounds, and what it is to answer. -/
theorem wildcardRun_spec {fuel : Nat} (h : Resumes longest widest text pattern star)
    (hfuel : retries longest star * (longest + widest + 2) + text.length + pattern.length < fuel) :
    ∃ result, wildcardRun fuel text pattern star = some result ∧
      (result = true ↔ Accepts text pattern star) := by
  fun_induction wildcardRun fuel text pattern star with
  | case1 => exact absurd hfuel (Nat.not_lt_zero _)
  | case2 fuel pattern star => exact ⟨_, rfl, accepts_nil h⟩
  | case3 fuel c text pattern star hagrees ih =>
      cases pattern with
      | nil => exact absurd hagrees (by simp)
      | cons q pattern =>
          rw [agrees_iff] at hagrees
          rw [accepts_agree hagrees]
          simp only [List.length_cons] at hfuel
          exact ih (h.agree hagrees) (by rw [List.tail_cons]; omega)
  | case4 fuel c text pattern star hagrees hstar ih =>
      cases pattern with
      | nil => exact absurd hstar (by simp)
      | cons q pattern =>
          obtain rfl := Option.some.inj hstar
          rw [agrees_iff] at hagrees
          obtain ⟨htext, hretries, hpattern⟩ := h.sizes
          rw [accepts_star h hagrees]
          refine ih ⟨by omega, Nat.le_of_succ_le hpattern, [], [], .nil, rfl, rfl⟩ ?_
          have hmoves := Nat.mul_le_mul_right (longest + widest + 2) htext
          have hshorter : (0x2A :: pattern).length = pattern.length + 1 := rfl
          rw [List.tail_cons, retries]
          omega
  | case5 fuel c text pattern hagrees hstar =>
      exact ⟨false, rfl, iff_of_false (by simp) (not_isLiteralInstance hagrees hstar)⟩
  | case6 fuel c text pattern hagrees hstar afterStar retry ih =>
      obtain ⟨hretry, hafter, read, passed, hread, hretryEq, hafterEq⟩ := h
      have hmoved : Accepts (c :: text) pattern (some (afterStar, retry)) ↔
          Accepts retry.tail afterStar (some (afterStar, retry.tail)) := by
        rw [Accepts, or_iff_right (not_isLiteralInstance hagrees hstar)]
        exact exists_suffix_iff
      have hlength : retry.tail.length + 1 = retry.length := by
        rw [hretryEq, List.length_tail, List.length_append, List.length_cons]
        omega
      rw [hmoved]
      refine ih ⟨by omega, hafter, [], [], .nil, rfl, rfl⟩ ?_
      rw [retries, ← hlength, Nat.add_mul, Nat.one_mul] at hfuel
      rw [retries]
      omega

end Matcher

/-! ## The matcher and patterns -/

/-- The rounds of `wildcardMatch` are enough. -/
theorem wildcardRun_answers (text pattern : Name) {fuel : Nat}
    (hfuel : (text.length + 1) * (text.length + pattern.length + 2) ≤ fuel) :
    ∃ result, wildcardRun fuel text pattern none = some result ∧
      (result = true ↔ IsLiteralInstance text pattern) := by
  have hstart : Resumes text.length pattern.length text pattern none :=
    ⟨Nat.le_refl _, Nat.le_refl _⟩
  rw [Nat.add_mul, Nat.one_mul] at hfuel
  exact wildcardRun_spec hstart (by rw [retries]; omega)

theorem wildcardMatch_iff (text pattern : Name) :
    wildcardMatch text pattern = true ↔ IsLiteralInstance text pattern := by
  obtain ⟨result, hresult, hliteral⟩ := wildcardRun_answers text pattern (Nat.le_refl _)
  rw [wildcardMatch, wildcardLoop_eq, hresult]
  exact hliteral

theorem IsLiteralInstance.isInstance {text pattern : Name} (h : IsLiteralInstance text pattern) :
    IsInstance text pattern :=
  h.mono fun _ _ _ => trivial

/-- A text without stars is matched as it should be. -/
theorem wildcardMatch_iff_isInstance {text : Name} (htext : 0x2A ∉ text) (pattern : Name) :
    wildcardMatch text pattern = true ↔ IsInstance text pattern :=
  (wildcardMatch_iff text pattern).trans
    ⟨IsLiteralInstance.isInstance, fun h => h.letterAlone htext⟩

/-- A trace point answers to a pattern by its key, both in lower case. -/
theorem tracePointMatch_iff (point : TracePoint) {pattern : Name} (hpattern : pattern ≠ []) :
    tracePointMatch point pattern = true ↔
      IsLiteralInstance (cString (toLowerAscii (makeTracePointKey point)))
        (cString (toLowerAscii pattern)) := by
  rw [tracePointMatch, decide_eq_false hpattern, Bool.false_or, wildcardMatch_iff]

/-- The matcher comes to an end, and its answer says whether the text is an
instance of the pattern. -/
def MatchesInstances (text pattern : Name) : Prop :=
  ∃ rounds, ∀ fuel, rounds ≤ fuel → ∃ result,
    wildcardRun fuel text pattern none = some result ∧ (result = true ↔ IsInstance text pattern)

/-- The answer is right unless the text is an instance only with a star that
falls on a star of the text and is replaced by more than it, or less. -/
theorem matchesInstances_iff (text pattern : Name) :
    MatchesInstances text pattern ↔
      (IsInstance text pattern → IsLiteralInstance text pattern) := by
  constructor
  · rintro ⟨rounds, h⟩ hinstance
    obtain ⟨result, hresult, hliteral⟩ := wildcardRun_answers text pattern
      (Nat.le_max_right rounds _)
    obtain ⟨result', hresult', hright⟩ := h _ (Nat.le_max_left rounds _)
    obtain rfl := Option.some.inj (hresult.symm.trans hresult')
    exact hliteral.mp (hright.mpr hinstance)
  · intro h
    refine ⟨(text.length + 1) * (text.length + pattern.length + 2), fun fuel hfuel => ?_⟩
    obtain ⟨result, hresult, hliteral⟩ := wildcardRun_answers text pattern hfuel
    exact ⟨result, hresult, hliteral.trans ⟨IsLiteralInstance.isInstance, h⟩⟩

/-- The methods that begin with `operator*` are not found. -/
theorem not_matchesInstances_operator :
    ¬ MatchesInstances (ascii "m:operator*:10") (ascii "m:operator*") := by
  rintro ⟨rounds, h⟩
  have hinstance : IsInstance (ascii "m:operator*:10") (ascii "m:operator*") := by
    have hrest : Instance 0x2A 0x3F Anything (ascii "*:10") (ascii "*") :=
      .many (w := ascii "*:10") trivial .nil
    have hletters : (ascii "m:operator").all (fun c => c ≠ 0x2A && c ≠ 0x3F) = true := by decide
    exact Instance.letters (w := ascii "m:operator") (by simpa using hletters) hrest
  obtain ⟨result, hresult, hright⟩ := h (rounds + 12) (Nat.le_add_right _ _)
  have hanswer : wildcardRun (rounds + 12) (ascii "m:operator*:10") (ascii "m:operator*") none =
      some false := rfl
  obtain rfl := Option.some.inj (hanswer.symm.trans hresult)
  exact absurd (hright.mpr hinstance) (by decide)

end Logme
