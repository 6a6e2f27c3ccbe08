import Logme.BackendConfigs
import Logme.RetentionPostcondition

/-!
# The age rule and the clock

The clock of files counts nanoseconds in 64 bits, and the age rule compares an
age with the limit in this unit.  A limit of milliseconds is first converted,
and 9223372036854 ms is the last one that fits: with every larger limit some
file is deleted before its time.
-/

namespace Logme
namespace RetentionCleaner

/-- The files whose age the rule compares with the limit. -/
def judged (keep : List Char) (files : List FileInfo) : List FileInfo :=
  files.filter fun f => !f.deleted && f.pathName != keep

/-- No conversion and no subtraction of the rule overflows. -/
structure ExactTimes (now : Int) (keep : List Char) (maxAgeMs : Nat)
    (files : List FileInfo) : Prop where
  milliseconds : toInt64 maxAgeMs = maxAgeMs
  nanoseconds : judged keep files ≠ [] →
    toInt64 (toInt64 maxAgeMs * 1000000) = maxAgeMs * 1000000
  ages : ∀ f ∈ judged keep files, toInt64 (now - f.lastWrite) = now - f.lastWrite

/-- Only old files are deleted, and the times are exact. -/
structure AgeRespected (now : Int) (keep : List Char) (maxAgeMs : Nat)
    (files : List FileInfo) : Prop where
  deleted_old : ∀ p ∈ files.zip (applyMaxAge now files keep maxAgeMs),
    p.1.deleted = false → p.2.deleted = true →
      p.1.pathName ≠ keep ∧ ¬ InAge now maxAgeMs p.1.lastWrite
  exact_times : maxAgeMs ≠ 0 → ExactTimes now keep maxAgeMs files

/-- The limit and the ages are within the range of the clock. -/
structure InClockRange (now : Int) (keep : List Char) (maxAgeMs : Nat)
    (files : List FileInfo) : Prop where
  milliseconds : maxAgeMs < 2 ^ 63
  nanoseconds : judged keep files ≠ [] → maxAgeMs ≤ 9223372036854
  ages : ∀ f ∈ judged keep files, now - f.lastWrite < 2 ^ 63

theorem toInt64_eq_self_iff {n : Int} : toInt64 n = n ↔ -2 ^ 63 ≤ n ∧ n < 2 ^ 63 := by
  have hlow := Int.le_bmod (x := n) (m := 2 ^ 64) (by decide)
  have hhigh := Int.bmod_lt (x := n) (m := 2 ^ 64) (by decide)
  constructor
  · intro h
    rw [toInt64] at h
    omega
  · rintro ⟨hmin, hmax⟩
    exact Int.bmod_eq_of_le (by omega) (by omega)

theorem mem_judged {keep : List Char} {files : List FileInfo} {f : FileInfo} :
    f ∈ judged keep files ↔ f ∈ files ∧ f.deleted = false ∧ f.pathName ≠ keep := by
  simp [judged]

theorem mem_zip_map {α β : Type} {g : α → β} {l : List α} {p : α × β}
    (hp : p ∈ l.zip (l.map g)) : p.1 ∈ l ∧ p.2 = g p.1 := by
  induction l with
  | nil => cases hp
  | cons a l ih =>
      rcases List.mem_cons.mp hp with rfl | hp
      · exact ⟨List.mem_cons_self, rfl⟩
      · exact ⟨List.mem_cons_of_mem _ (ih hp).1, (ih hp).2⟩

/-- Whatever the age rule deletes it has found too old. -/
theorem applyMaxAge_deleted {now : Int} {keep : List Char} {maxAgeMs : Nat}
    {files : List FileInfo} {p : FileInfo × FileInfo}
    (hp : p ∈ files.zip (applyMaxAge now files keep maxAgeMs))
    (hbefore : p.1.deleted = false) (hafter : p.2.deleted = true) :
    p.1 ∈ judged keep files ∧ maxAgeMs ≠ 0 ∧ isYoung now maxAgeMs p.1 = false := by
  unfold applyMaxAge at hp
  split at hp
  next =>
    have hsame : p.2 = p.1 := (mem_zip_map (g := id) (by rwa [List.map_id])).2
    rw [hsame, hbefore] at hafter
    cases hafter
  next hlimit =>
    obtain ⟨hf, hp⟩ := mem_zip_map hp
    rw [hp, if_neg (by simp [hbefore])] at hafter
    split at hafter
    next => rw [hbefore] at hafter; cases hafter
    next hkeep =>
      split at hafter
      next => rw [hbefore] at hafter; cases hafter
      next hold => exact ⟨mem_judged.mpr ⟨hf, hbefore, hkeep⟩, hlimit, by simpa using hold⟩

theorem ExactTimes.isYoung_iff {now : Int} {keep : List Char} {maxAgeMs : Nat}
    {files : List FileInfo} (h : ExactTimes now keep maxAgeMs files) {f : FileInfo}
    (hf : f ∈ judged keep files) :
    isYoung now maxAgeMs f = true ↔ InAge now maxAgeMs f.lastWrite := by
  rw [isYoung, decide_eq_true_iff, h.ages f hf, h.nanoseconds (List.ne_nil_of_mem hf)]
  exact Iff.rfl

theorem exactTimes_iff {now : Int} {keep : List Char} {maxAgeMs : Nat}
    {files : List FileInfo} (hpast : ∀ f ∈ files, f.lastWrite ≤ now) :
    ExactTimes now keep maxAgeMs files ↔ InClockRange now keep maxAgeMs files := by
  constructor
  · intro h
    have hms := toInt64_eq_self_iff.mp h.milliseconds
    refine ⟨by omega, fun hjudged => ?_, fun f hf => (toInt64_eq_self_iff.mp (h.ages f hf)).2⟩
    have hns := h.nanoseconds hjudged
    rw [h.milliseconds, toInt64_eq_self_iff] at hns
    omega
  · intro h
    have hrange := h.milliseconds
    have hms : toInt64 maxAgeMs = maxAgeMs := toInt64_eq_self_iff.mpr (by omega)
    refine ⟨hms, fun hjudged => ?_, fun f hf => ?_⟩
    · have hfits := h.nanoseconds hjudged
      rw [hms, toInt64_eq_self_iff]
      omega
    · have hage := h.ages f hf
      have hwritten := hpast f (mem_judged.mp hf).1
      rw [toInt64_eq_self_iff]
      omega

/-- The age rule keeps its promise exactly in the range of the clock. -/
theorem applyMaxAge_respects_iff (now : Int) (keep : List Char) (maxAgeMs : Nat)
    (files : List FileInfo) (hpast : ∀ f ∈ files, f.lastWrite ≤ now) :
    AgeRespected now keep maxAgeMs files ↔
      (maxAgeMs ≠ 0 → InClockRange now keep maxAgeMs files) := by
  constructor
  · exact fun h hlimit => (exactTimes_iff hpast).mp (h.exact_times hlimit)
  · intro h
    refine ⟨fun p hp hbefore hafter => ?_, fun hlimit => (exactTimes_iff hpast).mpr (h hlimit)⟩
    obtain ⟨hjudged, hlimit, hold⟩ := applyMaxAge_deleted hp hbefore hafter
    have hexact := (exactTimes_iff hpast).mpr (h hlimit)
    refine ⟨(mem_judged.mp hjudged).2.2, fun hage => ?_⟩
    rw [(hexact.isYoung_iff hjudged).mpr hage] at hold
    cases hold

theorem applyMaxAge_respects_thirty_days :
    AgeRespected (10 ^ 18) ['b'] 2592000000 [singleFile 0] := by
  refine (applyMaxAge_respects_iff _ _ _ _ (by simp [singleFile])).mpr fun _ => ?_
  constructor
  · decide
  · exact fun _ => by decide
  · simp [judged, singleFile]

theorem applyMaxAge_singleFile (now : Int) {maxAgeMs : Nat} (hlimit : maxAgeMs ≠ 0) {t : Int}
    (hold : isYoung now maxAgeMs (singleFile t) = false) :
    applyMaxAge now [singleFile t] ['b'] maxAgeMs =
      [{ singleFile t with deleted := true }] := by
  rw [applyMaxAge, if_neg hlimit, List.map_singleton, hold]
  rfl

/-- A limit of 30000 weeks is accepted, and a file of this moment is deleted. -/
theorem applyMaxAge_deletes_young :
    (JsonValue.parseRetentionValue parseInterval (.string (ascii "30000w"))
        (ascii "retention.max-age")).outcome = .value 18144000000000 ∧
      ¬ AgeRespected 0 ['b'] 18144000000000 [singleFile 0] := by
  refine ⟨rfl, fun h => ?_⟩
  have hdeleted : applyMaxAge 0 [singleFile 0] ['b'] 18144000000000 =
      [{ singleFile 0 with deleted := true }] :=
    applyMaxAge_singleFile 0 (by decide) (by decide)
  have hold := h.deleted_old (singleFile 0, { singleFile 0 with deleted := true })
    (by rw [hdeleted]; simp) rfl rfl
  exact hold.2 (by unfold InAge; decide)

end RetentionCleaner
end Logme
