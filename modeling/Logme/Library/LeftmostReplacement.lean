import Logme.Library.TextSearch

/-!
# Replacing the first occurrence again and again

A text is searched from its beginning after every replacement.  As long as
every round replaces the next occurrence of the original text, the rounds
end with what the replacement from left to right gives.  Where they do not,
the results are different, for a replacement that the pattern does not begin
with and for a pattern that does not overlap itself.
-/

namespace LeftmostReplacement

open TextSearch

variable {α : Type*}

/-! ## The place where two texts part -/

/-- Where the texts part, the left one goes on with `x` and the right one
with `y`. -/
def Parts (x y : α) (left right : List α) : Prop :=
  ∃ common left' right', left = common ++ x :: left' ∧ right = common ++ y :: right'

theorem Parts.ne {x y : α} (hxy : x ≠ y) {left right : List α}
    (hparts : Parts x y left right) : left ≠ right := by
  rcases hparts with ⟨common, left', right', rfl, rfl⟩
  simp [hxy]

theorem Parts.trans {x y : α} (hxy : x ≠ y) {left middle right : List α}
    (hleft : Parts x y left middle) (hright : Parts x y middle right) :
    Parts x y left right := by
  rcases hleft with ⟨common, left', middle', rfl, rfl⟩
  rcases hright with ⟨common', middle'', right', hmiddle, rfl⟩
  rcases List.append_eq_append_iff.mp hmiddle with
    ⟨skipped, rfl, hskipped⟩ | ⟨skipped, rfl, hskipped⟩
  · cases skipped with
    | nil => exact absurd (List.cons.inj hskipped).1.symm hxy
    | cons c skipped =>
        rw [List.cons_append, List.cons.injEq] at hskipped
        refine ⟨common, left', skipped ++ y :: right', rfl, ?_⟩
        simp [hskipped.1]
  · cases skipped with
    | nil => exact absurd (List.cons.inj hskipped).1 hxy
    | cons c skipped =>
        rw [List.cons_append, List.cons.injEq] at hskipped
        refine ⟨common', skipped ++ x :: left', right', ?_, rfl⟩
        simp [hskipped.1]

theorem exists_parts {left right : List α} (hleft : ¬ left <+: right)
    (hright : ¬ right <+: left) :
    ∃ common x y left' right',
      x ≠ y ∧ left = common ++ x :: left' ∧ right = common ++ y :: right' := by
  induction left generalizing right with
  | nil => exact absurd List.nil_prefix hleft
  | cons b left ih =>
      cases right with
      | nil => exact absurd List.nil_prefix hright
      | cons c right =>
          by_cases hbc : b = c
          · subst hbc
            rw [List.cons_prefix_cons] at hleft hright
            rcases ih (fun h => hleft ⟨rfl, h⟩) (fun h => hright ⟨rfl, h⟩) with
              ⟨common, x, y, left', right', hxy, rfl, rfl⟩
            exact ⟨b :: common, x, y, left', right', hxy, rfl, rfl⟩
          · exact ⟨[], b, c, left, right, hbc, rfl, rfl⟩

/-! ## Patterns that overlap themselves -/

/-- An end of the pattern is also its beginning. -/
def Overlaps (what : List α) : Prop :=
  ∃ u v, u ≠ [] ∧ v ≠ [] ∧ what = u ++ v ∧ v <+: what

theorem overlap_of_prefix {what u after : List α} (hlabel : what <+: u ++ (what ++ after))
    (hnot : ¬ what <+: u) : ∃ v, v ≠ [] ∧ what = u ++ v ∧ v <+: what := by
  rcases List.prefix_or_prefix_of_prefix hlabel (List.prefix_append u _) with
    hprefix | ⟨v, hv⟩
  · exact absurd hprefix hnot
  · refine ⟨v, ?_, hv.symm, ?_⟩
    · rintro rfl
      exact hnot ⟨[], by simpa using hv.symm⟩
    · have hrest : v <+: what ++ after := by
        rw [← List.prefix_append_right_inj u, hv]
        exact hlabel
      have hlength : v.length ≤ what.length := by
        rw [← hv, List.length_append]
        omega
      exact List.prefix_of_prefix_length_le hrest (List.prefix_append what after) hlength

/-- The pattern overlaps itself, and the replacement stands at its second
occurrence. -/
theorem prefix_of_overlap {common what' u v : List α} {x : α} (hu : u ≠ [])
    (hwhat : common ++ x :: what' = u ++ v) (hv : v <+: common ++ x :: what') (y : α)
    (on' : List α) : common ++ [x] <+: u ++ (common ++ y :: on') := by
  have hleft : common ++ [x] <+: u ++ (common ++ x :: what') := by
    have hshort : common ++ [x] <+: common ++ x :: what' := ⟨what', by simp⟩
    rw [hwhat] at hshort
    exact hshort.trans ((List.prefix_append_right_inj u).mpr hv)
  have hlength : (common ++ [x]).length ≤ (u ++ common).length := by
    have hpos := List.length_pos_iff.mpr hu
    simp only [List.length_append, List.length_singleton]
    omega
  rw [← List.append_assoc] at hleft ⊢
  exact (List.prefix_of_prefix_length_le hleft (List.prefix_append _ _) hlength).trans
    (List.prefix_append _ _)

/-! ## Rounds -/

variable [DecidableEq α] {what on : List α}

def replaceOnce (what on text : List α) : Option (List α) :=
  (splitFirst what text).map fun parts => parts.1 ++ on ++ parts.2

/-- `none` where the rounds are not enough. -/
def rounds (what on : List α) : Nat → List α → Option (List α)
  | 0, _ => none
  | fuel + 1, text =>
      match replaceOnce what on text with
      | none => some text
      | some next => rounds what on fuel next

/-- Every round replaces the next occurrence of the original text; `done`
is what stands in front of it, `rest` is still as it was. -/
inductive Tracks (what on : List α) : List α → List α → Prop
  | last {done rest : List α} (hnone : splitFirst what (done ++ rest) = none) :
      Tracks what on done rest
  | next {done rest before after : List α}
      (hfirst : splitFirst what rest = some (before, after))
      (honce : replaceOnce what on (done ++ rest) = some (done ++ before ++ on ++ after))
      (htail : Tracks what on (done ++ before ++ on) after) : Tracks what on done rest

theorem rounds_mono {fuel : Nat} {text result : List α}
    (hrounds : rounds what on fuel text = some result) (more : Nat) :
    rounds what on (fuel + more) text = some result := by
  induction fuel generalizing text with
  | zero => simp [rounds] at hrounds
  | succ fuel ih =>
      rw [Nat.succ_add, rounds]
      rw [rounds] at hrounds
      cases honce : replaceOnce what on text with
      | none =>
          rw [honce] at hrounds
          exact hrounds
      | some next =>
          rw [honce] at hrounds
          exact ih hrounds

theorem rounds_unique {fuel fuel' : Nat} {text result result' : List α}
    (hrounds : rounds what on fuel text = some result)
    (hrounds' : rounds what on fuel' text = some result') : result = result' := by
  have hleft := rounds_mono hrounds fuel'
  have hright := rounds_mono hrounds' fuel
  rw [Nat.add_comm, hleft] at hright
  exact Option.some.inj hright

theorem replaceOnce_eq_none {text : List α} :
    replaceOnce what on text = none ↔ splitFirst what text = none := by
  simp [replaceOnce]

/-- What the rounds end with has no occurrence left. -/
theorem splitFirst_of_rounds {fuel : Nat} {text result : List α}
    (hrounds : rounds what on fuel text = some result) :
    splitFirst what result = none := by
  induction fuel generalizing text with
  | zero => simp [rounds] at hrounds
  | succ fuel ih =>
      rw [rounds] at hrounds
      cases honce : replaceOnce what on text with
      | none =>
          rw [honce] at hrounds
          rw [← Option.some.inj hrounds]
          exact replaceOnce_eq_none.mp honce
      | some next =>
          rw [honce] at hrounds
          exact ih hrounds

/-- A replacement that contains the pattern is replaced for ever. -/
theorem rounds_of_contained (hwhat : what ≠ []) (hon : what <:+: on) {text : List α}
    (htext : what <:+: text) (fuel : Nat) : rounds what on fuel text = none := by
  induction fuel generalizing text with
  | zero => rfl
  | succ fuel ih =>
      rw [rounds]
      cases honce : replaceOnce what on text with
      | none => exact absurd htext ((splitFirst_eq_none hwhat).mp (replaceOnce_eq_none.mp honce))
      | some next =>
          rw [replaceOnce, Option.map_eq_some_iff] at honce
          rcases honce with ⟨parts, -, rfl⟩
          exact ih (hon.trans (List.infix_append parts.1 on parts.2))

theorem rounds_of_tracks (hwhat : what ≠ []) {done rest : List α}
    (htracks : Tracks what on done rest) :
    ∃ fuel, rounds what on fuel (done ++ rest) = some (done ++ replaceAll what on rest) := by
  induction htracks with
  | @last done rest hnone =>
      have hrest : splitFirst what rest = none := by
        rw [splitFirst_eq_none hwhat] at hnone ⊢
        exact fun hinside => hnone (hinside.trans (List.suffix_append done rest).isInfix)
      refine ⟨1, ?_⟩
      rw [rounds, replaceOnce_eq_none.mpr hnone, replaceAll_of_none hwhat hrest]
  | @next done rest before after hfirst honce htail ih =>
      rcases ih with ⟨fuel, hrounds⟩
      refine ⟨fuel + 1, ?_⟩
      rw [rounds, honce, replaceAll_of_first hwhat hfirst]
      simpa using hrounds

/-! ## Where the rounds leave the original text -/

section Parting

variable {common : List α} {x y : α} {what' on' : List α}

theorem parts_replaceOnce {text next : List α}
    (honce : replaceOnce (common ++ x :: what') (common ++ y :: on') text = some next) :
    Parts x y text next := by
  rw [replaceOnce, Option.map_eq_some_iff] at honce
  rcases honce with ⟨⟨before, after⟩, hfirst, rfl⟩
  refine ⟨before ++ common, what' ++ after, on' ++ after, ?_, by simp⟩
  rw [splitFirst_parts hfirst]
  simp

theorem parts_rounds (hxy : x ≠ y) {fuel : Nat} {text result : List α}
    (hrounds : rounds (common ++ x :: what') (common ++ y :: on') fuel text = some result) :
    text = result ∨ Parts x y text result := by
  induction fuel generalizing text with
  | zero => simp [rounds] at hrounds
  | succ fuel ih =>
      rw [rounds] at hrounds
      cases honce : replaceOnce (common ++ x :: what') (common ++ y :: on') text with
      | none =>
          rw [honce] at hrounds
          exact Or.inl (Option.some.inj hrounds)
      | some next =>
          rw [honce] at hrounds
          have hstep := parts_replaceOnce honce
          rcases ih hrounds with rfl | hnext
          · exact Or.inr hstep
          · exact Or.inr (hstep.trans hxy hnext)

/-- What replaced the second of two overlapping occurrences is not what the
rounds end with. -/
theorem ne_of_overlap (hxy : x ≠ y) {before u v tail result : List α} (hu : u ≠ [])
    (hwhat : common ++ x :: what' = u ++ v) (hv : v <+: common ++ x :: what')
    {fuel : Nat}
    (hrounds : rounds (common ++ x :: what') (common ++ y :: on') fuel
      (before ++ (common ++ y :: on') ++ tail) = some result) (rest : List α) :
    result ≠ before ++ (u ++ (common ++ y :: on')) ++ rest := by
  intro hresult
  rcases prefix_of_overlap hu hwhat hv y on' with ⟨onward, honward⟩
  have hback : Parts x y result (before ++ (common ++ y :: on') ++ tail) := by
    refine ⟨before ++ common, onward ++ rest, on' ++ tail, ?_, by simp⟩
    rw [hresult, ← honward]
    simp
  rcases parts_rounds hxy hrounds with heq | hforth
  · exact hback.ne hxy heq.symm
  · exact (hback.trans hxy hforth).ne hxy rfl

end Parting

theorem rounds_ne_of_early (hwhat : what ≠ []) (hon : ¬ Overlaps what ∨ ¬ on <+: what)
    {before u tail rest : List α} (hu : u ≠ []) (htext : what ++ tail = u ++ rest)
    (hfree : ¬ what <:+: before ++ u ++ replaceAll what on rest) {fuel : Nat} :
    rounds what on fuel (before ++ on ++ tail) ≠
      some (before ++ u ++ replaceAll what on rest) := by
  intro hrounds
  cases hrest : splitFirst what rest with
  | none =>
      rw [replaceAll_of_none hwhat hrest, List.append_assoc, ← htext] at hfree
      exact hfree (List.infix_append' before what tail)
  | some parts =>
      rcases parts with ⟨between, after⟩
      rw [replaceAll_of_first hwhat hrest] at hfree hrounds
      have hlabel : what <+: (u ++ between) ++ (what ++ after) := by
        refine ⟨tail, ?_⟩
        rw [htext, splitFirst_parts hrest]
        simp
      have hnot : ¬ what <+: u ++ between := by
        rintro ⟨behind, hbehind⟩
        refine hfree ⟨before, behind ++ on ++ replaceAll what on after, ?_⟩
        have hmove : before ++ what ++ (behind ++ on ++ replaceAll what on after) =
            before ++ (what ++ behind) ++ on ++ replaceAll what on after := by simp
        rw [hmove, hbehind]
        simp
      have hne : u ++ between ≠ [] := by simp [hu]
      rcases overlap_of_prefix hlabel hnot with ⟨v, hv, hoverlap, hvprefix⟩
      rcases hon with hself | hon
      · exact hself ⟨u ++ between, v, hne, hv, hoverlap, hvprefix⟩
      · by_cases hinside : what <+: on
        · have hnever := rounds_of_contained hwhat hinside.isInfix
            (hinside.isInfix.trans (List.infix_append before on tail)) fuel
          rw [hnever] at hrounds
          exact absurd hrounds (by simp)
        · rcases exists_parts hinside hon with
            ⟨common, x, y, what', on', hxy, rfl, rfl⟩
          refine ne_of_overlap hxy hne hoverlap hvprefix hrounds
            (replaceAll (common ++ x :: what') (common ++ y :: on') after) ?_
          simp

theorem tracks_of_rounds (hwhat : what ≠ []) (hon : ¬ Overlaps what ∨ ¬ on <+: what)
    {fuel : Nat} {done rest : List α}
    (hrounds : rounds what on fuel (done ++ rest) = some (done ++ replaceAll what on rest)) :
    Tracks what on done rest := by
  induction fuel generalizing done rest with
  | zero => simp [rounds] at hrounds
  | succ fuel ih =>
      have hfree := splitFirst_of_rounds hrounds
      rw [splitFirst_eq_none hwhat] at hfree
      cases hfirst : splitFirst what (done ++ rest) with
      | none => exact Tracks.last hfirst
      | some parts =>
          rcases parts with ⟨before, tail⟩
          have honce : replaceOnce what on (done ++ rest) = some (before ++ on ++ tail) := by
            simp [replaceOnce, hfirst]
          rw [rounds, honce] at hrounds
          have htext := splitFirst_parts hfirst
          rw [List.append_assoc] at htext
          by_cases hplace : ∃ between, before = done ++ between
          · rcases hplace with ⟨between, rfl⟩
            have hrest := splitFirst_behind hfirst
            refine Tracks.next hrest honce (ih ?_)
            rw [replaceAll_of_first hwhat hrest] at hrounds
            simpa using hrounds
          · -- the occurrence begins in what was already replaced
            rcases List.append_eq_append_iff.mp htext with
              ⟨between, hbetween, -⟩ | ⟨u, rfl, hu⟩
            · exact absurd ⟨between, hbetween⟩ hplace
            · have hne : u ≠ [] := by
                rintro rfl
                exact hplace ⟨[], by simp⟩
              exact absurd hrounds (rounds_ne_of_early hwhat hon hne hu hfree)

end LeftmostReplacement
