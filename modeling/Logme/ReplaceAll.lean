import Logme.ArchiveNames
import Logme.Library.LeftmostReplacement

/-!
# `ReplaceAll` and the occurrences of the original text

The loop of `ReplaceAll` searches the changed text from its beginning.  It
gives what the replacement from left to right gives as long as every round
replaces the next occurrence of the original text; a replacement that
contains what it replaces keeps the loop running.
-/

namespace Logme

open LeftmostReplacement

/-- The loop of `ReplaceAll`; `none` while it still runs. -/
def replaceRounds (what on : List Char) : Nat → List Char → Option (List Char)
  | 0, _ => none
  | fuel + 1, str =>
      match replaceFirst what on str with
      | none => some str
      | some str => replaceRounds what on fuel str

def ReplaceAllReturns (str what on result : List Char) : Prop :=
  ∃ fuel, (if what = on then some str else replaceRounds what on fuel str) = some result

/-- The occurrences of the original text are replaced, each of them once. -/
def ReplacesEach (str what on : List Char) : Prop :=
  ReplaceAllReturns str what on (TextSearch.replaceAll what on str)

theorem replaceFirst_eq_replaceOnce (what on str : List Char) :
    replaceFirst what on str = replaceOnce what on str := by
  rw [replaceOnce]
  induction str with
  | nil =>
      rw [replaceFirst, TextSearch.splitFirst]
      split <;> simp
  | cons c rest ih =>
      rw [replaceFirst, TextSearch.splitFirst]
      split
      next => simp
      next =>
        rw [ih, Option.map_map, Option.map_map]
        rfl

theorem replaceRounds_eq_rounds (what on : List Char) (fuel : Nat) (str : List Char) :
    replaceRounds what on fuel str = rounds what on fuel str := by
  induction fuel generalizing str with
  | zero => rfl
  | succ fuel ih =>
      rw [replaceRounds, rounds, replaceFirst_eq_replaceOnce]
      cases replaceOnce what on str with
      | none => rfl
      | some next => exact ih next

theorem replaceRounds_ends {what on : List Char} {c : Char}
    (hfewer : on.count c < what.count c) {fuel : Nat} {str : List Char}
    (hfuel : str.count c < fuel) :
    replaceRounds what on fuel str = some (replaceLoop what on fuel str) := by
  induction fuel generalizing str with
  | zero => omega
  | succ fuel ih =>
      rw [replaceRounds, replaceLoop]
      cases hnext : replaceFirst what on str with
      | none => rfl
      | some next =>
          have hless := replaceFirst_count hfewer hnext
          exact ih (by omega)

theorem replaceAllReturns_iff {str what on result : List Char} (hne : what ≠ on) :
    ReplaceAllReturns str what on result ↔
      ∃ fuel, rounds what on fuel str = some result := by
  simp only [ReplaceAllReturns, if_neg hne, replaceRounds_eq_rounds]

theorem ReplaceAllReturns.unique {str what on result result' : List Char}
    (hresult : ReplaceAllReturns str what on result)
    (hresult' : ReplaceAllReturns str what on result') : result = result' := by
  by_cases heq : what = on
  · simp only [ReplaceAllReturns, if_pos heq, exists_const, Option.some.injEq] at hresult hresult'
    exact hresult.symm.trans hresult'
  · rcases (replaceAllReturns_iff heq).mp hresult with ⟨fuel, hrounds⟩
    rcases (replaceAllReturns_iff heq).mp hresult' with ⟨fuel', hrounds'⟩
    exact rounds_unique hrounds hrounds'

/-- What the templates take from `ReplaceAll` is what it returns. -/
theorem ReplaceAllReturns.eq_replaceAll {str what on result : List Char}
    (hresult : ReplaceAllReturns str what on result) {c : Char}
    (hfewer : on.count c < what.count c) : replaceAll str what on = result := by
  have hne : what ≠ on := by
    rintro rfl
    omega
  refine ReplaceAllReturns.unique ⟨str.length + 1, ?_⟩ hresult
  rw [if_neg hne, replaceAll, if_neg hne]
  exact replaceRounds_ends hfewer (Nat.lt_succ_of_le List.count_le_length)

/-! ## Every text -/

theorem replacesEach_self {what : List Char} (hwhat : what ≠ []) (str : List Char) :
    ReplacesEach str what what := by
  refine ⟨0, ?_⟩
  rw [if_pos rfl, TextSearch.replaceAll_self hwhat]

theorem replacesEach_of_tracks {str what on : List Char} (hwhat : what ≠ [])
    (htracks : what = on ∨ Tracks what on [] str) : ReplacesEach str what on := by
  by_cases heq : what = on
  · subst heq
    exact replacesEach_self hwhat str
  · rcases rounds_of_tracks hwhat (htracks.resolve_left heq) with ⟨fuel, hrounds⟩
    exact (replaceAllReturns_iff heq).mpr ⟨fuel, hrounds⟩

/-- A replacement that contains what it replaces is never finished. -/
theorem not_replaceAllReturns_of_infix {str what on : List Char} (hwhat : what ≠ [])
    (hne : what ≠ on) (hon : what <:+: on) (hstr : what <:+: str) (result : List Char) :
    ¬ ReplaceAllReturns str what on result := by
  rw [replaceAllReturns_iff hne]
  rintro ⟨fuel, hrounds⟩
  rw [rounds_of_contained hwhat hon hstr fuel] at hrounds
  exact absurd hrounds (by simp)

theorem not_infix_of_replacesEach {str what on : List Char} (hwhat : what ≠ [])
    (hne : what ≠ on) (heach : ReplacesEach str what on) :
    ¬ what <:+: TextSearch.replaceAll what on str := by
  rcases (replaceAllReturns_iff hne).mp heach with ⟨fuel, hrounds⟩
  exact (TextSearch.splitFirst_eq_none hwhat).mp (splitFirst_of_rounds hrounds)

theorem tracks_of_replacesEach {str what on : List Char} (hwhat : what ≠ [])
    (hne : what ≠ on) (hon : ¬ Overlaps what ∨ ¬ on <+: what)
    (heach : ReplacesEach str what on) : Tracks what on [] str := by
  rcases (replaceAllReturns_iff hne).mp heach with ⟨fuel, hrounds⟩
  exact tracks_of_rounds hwhat hon hrounds

theorem replacesEach_iff_tracks (str : List Char) {what : List Char} (hwhat : what ≠ [])
    (on : List Char) :
    (what = on ∨ Tracks what on [] str → ReplacesEach str what on) ∧
      (ReplacesEach str what on →
        (what = on ∨ ¬ what <:+: TextSearch.replaceAll what on str) ∧
          (¬ Overlaps what ∨ ¬ on <+: what → what = on ∨ Tracks what on [] str)) := by
  refine ⟨replacesEach_of_tracks hwhat, fun heach => ?_⟩
  by_cases hne : what = on
  · exact ⟨Or.inl hne, fun _ => Or.inl hne⟩
  · exact ⟨Or.inr (not_infix_of_replacesEach hwhat hne heach),
      fun hon => Or.inr (tracks_of_replacesEach hwhat hne hon heach)⟩

theorem replacesEach_iff_tracks_index :
    "{index}".toList ≠ [] ∧ Tracks "{index}".toList "7".toList [] "a{index}b".toList ∧
      ReplacesEach "a{index}b".toList "{index}".toList "7".toList := by
  have htracks : Tracks "{index}".toList "7".toList [] "a{index}b".toList :=
    @Tracks.next _ _ _ _ [] _ ['a'] ['b'] (by decide) (by decide) (Tracks.last (by decide))
  exact ⟨by decide, htracks,
    (replacesEach_iff_tracks "a{index}b".toList (by decide) "7".toList).1 (Or.inr htracks)⟩

/-- Every round leaves one occurrence more than it found. -/
theorem replaceAll_doubled_never_returns :
    "a".toList ≠ [] ∧
      (¬ ∃ result, ReplaceAllReturns "a".toList "a".toList "aa".toList result) ∧
        ¬ ReplacesEach "a".toList "a".toList "aa".toList := by
  have hnever : ∀ result, ¬ ReplaceAllReturns "a".toList "a".toList "aa".toList result :=
    not_replaceAllReturns_of_infix (by decide) (by decide) ⟨[], ['a'], rfl⟩ ⟨[], [], rfl⟩
  exact ⟨by decide, fun ⟨result, hreturns⟩ => hnever result hreturns, hnever _⟩

end Logme
