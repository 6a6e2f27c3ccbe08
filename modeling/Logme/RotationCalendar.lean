import Logme.FileTimeRotationPolicy
import Logme.Library.Calendar

/-!
# Rotation by the calendar

In a zone that is always the same number of seconds ahead of UTC, the policy
is a detector of calendar periods: hours, days, weeks from Monday on, and
months.
-/

namespace Logme

open Calendar

/-! ## A fixed offset from UTC -/

/-- The fields of a time in seconds; 1970 began on a Thursday. -/
def brokenDown (s : Int) : Tm :=
  let day := s / 86400
  { sec := s % 60
    min := s / 60 % 60
    hour := s / 3600 % 24
    mday := day - monthStart (monthOf day) + 1
    mon := monthOf day % 12
    wday := (day + 4) % 7
    year := monthOf day / 12 - 1900 }

/-- Fields beyond their range count on into the next larger unit. -/
def fixedOffset (offset : Int) : TimeZone where
  localtime t := some (brokenDown (t + offset))
  mktime tm :=
    86400 * (monthStart (12 * (tm.year + 1900) + tm.mon) + tm.mday - 1) + 3600 * tm.hour +
      60 * tm.min + tm.sec - offset

/-- In local time the same calendar hour, day, week or month. -/
def SamePeriod (offset : Int) (mode : TimeRotationMode) (t u : Int) : Prop :=
  let a := brokenDown (t + offset)
  let b := brokenDown (u + offset)
  match mode with
  | .none => True
  | .hourly => a.year = b.year ∧ a.mon = b.mon ∧ a.mday = b.mday ∧ a.hour = b.hour
  | .daily => a.year = b.year ∧ a.mon = b.mon ∧ a.mday = b.mday
  | .weekly => ((t + offset) / 86400 + 3) / 7 = ((u + offset) / 86400 + 3) / 7
  | .monthly => a.year = b.year ∧ a.mon = b.mon

instance (offset : Int) :
    ∀ mode t u, Decidable (SamePeriod offset mode t u)
  | .none, _, _ => instDecidableTrue
  | .hourly, _, _ => instDecidableAnd
  | .daily, _, _ => instDecidableAnd
  | .weekly, _, _ => Int.instDecidableEq _ _
  | .monthly, _, _ => instDecidableAnd

/-- A week of `SamePeriod` begins with a Monday. -/
theorem week_begins_on_monday (week : Int) : (brokenDown (86400 * (7 * week - 3))).wday = 1 := by
  simp only [brokenDown]
  omega

/-- The periods of a mode in local time. -/
def calendarPeriods : TimeRotationMode → Periods
  | .hourly => .uniform 3600 0 (by decide)
  | .weekly => .uniform 604800 (-259200) (by decide)
  | .monthly => months
  | _ => .uniform 86400 0 (by decide)

/-! ## The bounds of a period -/

variable (offset : Int) (mode : TimeRotationMode)

theorem monthNumber (month : Int) : 12 * (month / 12 - 1900 + 1900) + month % 12 = month := by
  omega

/-- Another day and another time of day, counted in the same month. -/
theorem mktime_day (s mday hour min sec : Int) :
    (fixedOffset offset).mktime { brokenDown s with
        mday := mday, hour := hour, min := min, sec := sec } =
      86400 * (monthStart (monthOf (s / 86400)) + mday - 1) + 3600 * hour + 60 * min + sec -
        offset := by
  simp only [fixedOffset, brokenDown, monthNumber]

theorem mktime_month (s mon : Int) :
    (fixedOffset offset).mktime { brokenDown s with
        mday := 1, mon := mon, hour := 0, min := 0, sec := 0 } =
      86400 * monthStart (12 * (monthOf (s / 86400) / 12) + mon) - offset := by
  simp only [fixedOffset, brokenDown, Int.sub_add_cancel]
  omega

theorem buildPeriodStart_eq (t : Int) :
    buildPeriodStart (fixedOffset offset) mode t =
      ((calendarPeriods mode).ahead offset).start
        (((calendarPeriods mode).ahead offset).index t) := by
  cases mode with
  | hourly =>
      refine (mktime_day offset (t + offset) _ _ 0 0).trans ?_
      simp only [brokenDown, calendarPeriods, Periods.ahead, Periods.uniform]
      omega
  | weekly =>
      refine (mktime_day offset (t + offset) _ 0 0 0).trans ?_
      simp only [brokenDown, calendarPeriods, Periods.ahead, Periods.uniform]
      omega
  | monthly =>
      refine (mktime_month offset (t + offset) _).trans ?_
      simp only [brokenDown, calendarPeriods, Periods.ahead, months, Int.mul_ediv_add_emod]
  | daily =>
      refine (mktime_day offset (t + offset) _ 0 0 0).trans ?_
      simp only [brokenDown, calendarPeriods, Periods.ahead, Periods.uniform]
      omega
  | none =>
      refine (mktime_day offset (t + offset) _ 0 0 0).trans ?_
      simp only [brokenDown, calendarPeriods, Periods.ahead, Periods.uniform]
      omega

theorem buildNextPeriodStart_eq (k : Int) :
    buildNextPeriodStart (fixedOffset offset) mode
        (((calendarPeriods mode).ahead offset).start k) =
      ((calendarPeriods mode).ahead offset).start (k + 1) := by
  cases mode with
  | hourly =>
      refine (mktime_day offset _ _ _ _ _).trans ?_
      simp only [brokenDown, calendarPeriods, Periods.ahead, Periods.uniform]
      omega
  | weekly =>
      refine (mktime_day offset _ _ _ _ _).trans ?_
      simp only [brokenDown, calendarPeriods, Periods.ahead, Periods.uniform]
      omega
  | monthly =>
      have hlocal : 86400 * monthStart k - offset + offset = 86400 * monthStart k := by omega
      have hday : 86400 * monthStart k / 86400 = monthStart k :=
        Int.mul_ediv_cancel_left _ (by decide)
      have hmonth : monthOf (monthStart k) = k := monthOf_monthStart k
      have hnext : 12 * (k / 12 - 1900 + 1900) + (k % 12 + 1) = k + 1 := by omega
      simp only [buildNextPeriodStart, fixedOffset, brokenDown, calendarPeriods, Periods.ahead,
        months, hlocal, hday, hmonth, hnext, reduceCtorEq, if_false, if_true]
      omega
  | daily =>
      refine (mktime_day offset _ _ _ _ _).trans ?_
      simp only [brokenDown, calendarPeriods, Periods.ahead, Periods.uniform]
      omega
  | none =>
      refine (mktime_day offset _ _ _ _ _).trans ?_
      simp only [brokenDown, calendarPeriods, Periods.ahead, Periods.uniform]
      omega

/-! ## The policy -/

variable {offset mode}

/-- No period of a mode is longer than 31 days. -/
theorem next_le_start (k : Int) :
    ((calendarPeriods mode).ahead offset).start (k + 1) ≤
      ((calendarPeriods mode).ahead offset).start k + 31 * 86400 := by
  cases mode with
  | monthly =>
      have hmonth := monthStart_succ_le k
      simp only [calendarPeriods, Periods.ahead, months]
      omega
  | hourly =>
      simp only [calendarPeriods, Periods.ahead, Periods.uniform]
      omega
  | weekly =>
      simp only [calendarPeriods, Periods.ahead, Periods.uniform]
      omega
  | daily =>
      simp only [calendarPeriods, Periods.ahead, Periods.uniform]
      omega
  | none =>
      simp only [calendarPeriods, Periods.ahead, Periods.uniform]
      omega

theorem start_pos {t : Int} (hlate : 31 * 86400 ≤ t) :
    0 < ((calendarPeriods mode).ahead offset).start
      (((calendarPeriods mode).ahead offset).index t) := by
  let p := (calendarPeriods mode).ahead offset
  have hlt : t < p.start (p.index t + 1) := p.lt_next t
  have hlength : p.start (p.index t + 1) ≤ p.start (p.index t) + 31 * 86400 := next_le_start _
  change 0 < p.start (p.index t)
  omega

/-- The policy that remembers the bounds of a period. -/
def remembering (mode : TimeRotationMode) (b : Bounds) : FileTimeRotationPolicy :=
  ⟨mode, b.start, b.next⟩

theorem configure_eq (hmode : mode ≠ .none) {t : Int} (hlate : 31 * 86400 ≤ t) :
    FileTimeRotationPolicy.configure (fixedOffset offset) mode t =
      remembering mode (((calendarPeriods mode).ahead offset).boundsOf t) := by
  have hpos : 0 < ((calendarPeriods mode).ahead offset).start
      (((calendarPeriods mode).ahead offset).index t) := start_pos hlate
  have hlt := ((calendarPeriods mode).ahead offset).start_lt
    (((calendarPeriods mode).ahead offset).index t)
  unfold FileTimeRotationPolicy.configure FileTimeRotationPolicy.reset
  rw [if_neg hmode]
  dsimp only
  rw [buildPeriodStart_eq, if_neg (by omega), buildNextPeriodStart_eq, if_neg (by omega)]
  rfl

theorem shouldRotate_eq (hmode : mode ≠ .none) {last t : Int} (hlast : 31 * 86400 ≤ last)
    (hle : last ≤ t) :
    let p := (calendarPeriods mode).ahead offset
    (remembering mode (p.boundsOf last)).shouldRotate (fixedOffset offset) t =
      ((p.detect (p.boundsOf last) t).1, remembering mode (p.detect (p.boundsOf last) t).2) := by
  intro p
  have hpos : 0 < p.start (p.index last) := start_pos hlast
  have hlt := p.start_lt (p.index last)
  have hnext : (remembering mode (p.boundsOf last)).nextPeriodStart = p.start (p.index last + 1) :=
    rfl
  rw [Periods.detect]
  split
  next hbefore =>
    rw [FileTimeRotationPolicy.shouldRotate_before _ hmode (by rw [hnext]; omega) hbefore]
  next hafter =>
    rw [FileTimeRotationPolicy.shouldRotate_after _ hmode (by rw [hnext]; omega)
      (ne_of_gt hpos) (Int.not_lt.mp hafter)]
    exact Prod.ext rfl (configure_eq hmode (hlast.trans hle))

/-- What `ShouldRotate` answers at one time after another. -/
def rotations (zone : TimeZone) : FileTimeRotationPolicy → List Int → List (Option Int)
  | _, [] => []
  | p, t :: ts => (p.shouldRotate zone t).1 :: rotations zone (p.shouldRotate zone t).2 ts

theorem rotations_eq (hmode : mode ≠ .none) {last : Int} {ts : List Int}
    (hlast : 31 * 86400 ≤ last) (hsorted : (last :: ts).Pairwise (· ≤ ·)) :
    rotations (fixedOffset offset)
        (remembering mode (((calendarPeriods mode).ahead offset).boundsOf last)) ts =
      ((calendarPeriods mode).ahead offset).changes last ts := by
  rw [← Periods.detections_eq_changes _ hsorted]
  induction ts generalizing last with
  | nil => rfl
  | cons t ts ih =>
      rcases List.pairwise_cons.mp hsorted with ⟨hall, hrest⟩
      have hle := hall t List.mem_cons_self
      rw [rotations, Periods.detections, shouldRotate_eq hmode hlast hle,
        Periods.detect_boundsOf _ hle, ih (hlast.trans hle) hrest]

/-! ## Calendar periods -/

/-- The days of a month follow each other. -/
theorem sameDay_iff (s u : Int) :
    ((brokenDown s).year = (brokenDown u).year ∧ (brokenDown s).mon = (brokenDown u).mon ∧
      (brokenDown s).mday = (brokenDown u).mday) ↔ s / 86400 = u / 86400 := by
  simp only [brokenDown]
  constructor
  · rintro ⟨hyear, hmon, hmday⟩
    have hmonth : monthOf (s / 86400) = monthOf (u / 86400) := by omega
    rw [hmonth] at hmday
    omega
  · intro hday
    rw [hday]
    exact ⟨rfl, rfl, rfl⟩

theorem samePeriod_iff (hmode : mode ≠ .none) (t u : Int) :
    SamePeriod offset mode t u ↔
      ((calendarPeriods mode).ahead offset).index t =
        ((calendarPeriods mode).ahead offset).index u := by
  have hday := sameDay_iff (t + offset) (u + offset)
  cases mode with
  | none => exact absurd rfl hmode
  | hourly =>
      simp only [SamePeriod, calendarPeriods, Periods.ahead, Periods.uniform]
      rw [← and_assoc, ← and_assoc, and_assoc (c := (brokenDown (t + offset)).mday = _), hday]
      simp only [brokenDown]
      omega
  | daily =>
      simp only [SamePeriod, calendarPeriods, Periods.ahead, Periods.uniform]
      rw [hday]
      omega
  | weekly =>
      simp only [SamePeriod, calendarPeriods, Periods.ahead, Periods.uniform]
      omega
  | monthly =>
      simp only [SamePeriod, calendarPeriods, Periods.ahead, months, brokenDown]
      omega

/-- What is to be reported: the start of the period before, at each time that
is in another period than the time before. -/
def periodChanges (offset : Int) (mode : TimeRotationMode) : Int → List Int → List (Option Int)
  | _, [] => []
  | last, t :: ts =>
      (if SamePeriod offset mode last t then none
        else some (buildPeriodStart (fixedOffset offset) mode last)) ::
        periodChanges offset mode t ts

theorem periodChanges_eq (hmode : mode ≠ .none) (last : Int) (ts : List Int) :
    periodChanges offset mode last ts = ((calendarPeriods mode).ahead offset).changes last ts := by
  induction ts generalizing last with
  | nil => rfl
  | cons t ts ih =>
      rw [periodChanges, Periods.changes, ih, buildPeriodStart_eq]
      simp only [samePeriod_iff hmode]

theorem rotations_none (zone : TimeZone) {p : FileTimeRotationPolicy} (hmode : p.mode = .none)
    (ts : List Int) : rotations zone p ts = ts.map fun _ => none := by
  induction ts with
  | nil => rfl
  | cons t ts ih =>
      rw [rotations, FileTimeRotationPolicy.shouldRotate, if_pos hmode, List.map_cons, ih]

theorem periodChanges_none (last : Int) (ts : List Int) :
    periodChanges offset .none last ts = ts.map fun _ => none := by
  induction ts generalizing last with
  | nil => rfl
  | cons t ts ih =>
      have hsame : SamePeriod offset .none last t := trivial
      rw [periodChanges, if_pos hsame, List.map_cons, ih]

theorem rotations_configure {first : Int} {ts : List Int} (hfirst : 31 * 86400 ≤ first)
    (hsorted : (first :: ts).Pairwise (· ≤ ·)) :
    rotations (fixedOffset offset) (.configure (fixedOffset offset) mode first) ts =
      periodChanges offset mode first ts := by
  by_cases hmode : mode = .none
  · subst mode
    rw [rotations_none _ (FileTimeRotationPolicy.configure_mode _ _ _), periodChanges_none]
  · rw [configure_eq hmode hfirst, rotations_eq hmode hfirst hsorted, periodChanges_eq hmode]

/-- What the runs with a fixed offset need not assume. -/
theorem fixedOffset_regularPeriods (hmode : mode ≠ .none) {start : Int}
    (hstart : 31 * 86400 ≤ start) : RegularPeriods (fixedOffset offset) mode start where
  same t u ht hle hnext := by
    let p := (calendarPeriods mode).ahead offset
    unfold nextPeriodOf at hnext
    unfold periodOf
    rw [configure_eq hmode (hstart.trans ht)] at hnext
    rw [configure_eq hmode (hstart.trans ht), configure_eq hmode (hstart.trans (ht.trans hle))]
    have hsame : p.index t = p.index u := by
      by_contra hne
      exact absurd ((p.next_le_iff hle).mpr hne) (Int.not_le.mpr hnext)
    change p.start (p.index u) = p.start (p.index t)
    rw [hsame]
  nonzero t ht := by
    let p := (calendarPeriods mode).ahead offset
    have hpos : 0 < p.start (p.index t) := start_pos (hstart.trans ht)
    have hlt : p.start (p.index t) < p.start (p.index t + 1) := p.start_lt _
    unfold periodOf nextPeriodOf
    rw [configure_eq hmode (hstart.trans ht)]
    exact ⟨ne_of_gt hpos, ne_of_gt (hpos.trans hlt)⟩

/-- The policy follows the calendar from the second month of 1970 on. -/
theorem rotation_follows_calendar (offset : Int) (mode : TimeRotationMode) :
    (mode ≠ .none → ∀ t, 31 * 86400 ≤ t →
      let policy := FileTimeRotationPolicy.configure (fixedOffset offset) mode t
      policy.periodStart = buildPeriodStart (fixedOffset offset) mode t ∧
        policy.nextPeriodStart =
          buildNextPeriodStart (fixedOffset offset) mode policy.periodStart ∧
        policy.periodStart ≤ t ∧ t < policy.nextPeriodStart) ∧
    (mode ≠ .none → ∀ t u, 31 * 86400 ≤ t → 31 * 86400 ≤ u →
      (periodOf (fixedOffset offset) mode t = periodOf (fixedOffset offset) mode u ↔
        SamePeriod offset mode t u)) ∧
    (∀ first ts, 31 * 86400 ≤ first → (first :: ts).Pairwise (· ≤ ·) →
      rotations (fixedOffset offset) (.configure (fixedOffset offset) mode first) ts =
        periodChanges offset mode first ts) := by
  let p := (calendarPeriods mode).ahead offset
  refine ⟨fun hmode t ht => ?_, fun hmode t u ht hu => ?_,
    fun first ts hfirst hsorted => rotations_configure hfirst hsorted⟩
  · rw [configure_eq hmode ht]
    refine ⟨(buildPeriodStart_eq offset mode t).symm, ?_, p.start_le t, p.lt_next t⟩
    exact (buildNextPeriodStart_eq offset mode (p.index t)).symm
  · unfold periodOf
    rw [configure_eq hmode ht, configure_eq hmode hu, samePeriod_iff hmode]
    exact p.start_index_eq_iff t u

/-- The end of January and of a leap year's February, one hour ahead of UTC. -/
theorem rotation_follows_calendar_february :
    rotations (fixedOffset 3600) (.configure (fixedOffset 3600) .monthly 1706702400)
        [1706741999, 1706742000, 1709247599, 1709247600] =
      [none, some 1704063600, none, some 1706742000] := by
  have hrun := (rotation_follows_calendar 3600 .monthly).2.2 1706702400
    [1706741999, 1706742000, 1709247599, 1709247600] (by decide) (by decide)
  rw [hrun]
  decide

end Logme
