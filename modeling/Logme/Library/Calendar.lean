import Mathlib.Data.Int.Order.Basic
import Mathlib.Order.Monotone.Basic

/-!
# Calendar periods

A division of the time line into numbered periods, each of which ends where
the next one begins, and the divisions into periods of one length and into
the months of the Gregorian calendar.  A detector that remembers the bounds
of one period notices every change of period in a sequence of times that do
not go back.
-/

namespace Calendar

/-! ## Divisions into periods -/

structure Periods where
  start : Int → Int
  index : Int → Int
  start_le : ∀ t, start (index t) ≤ t
  lt_next : ∀ t, t < start (index t + 1)
  start_lt : ∀ k, start k < start (k + 1)

namespace Periods

variable (p : Periods)

theorem start_mono {j k : Int} (hle : j ≤ k) : p.start j ≤ p.start k :=
  monotone_int_of_le_succ (fun k => (p.start_lt k).le) hle

theorem index_eq {t k : Int} (hstart : p.start k ≤ t) (hnext : t < p.start (k + 1)) :
    p.index t = k := by
  have hle := p.start_le t
  have hlt := p.lt_next t
  by_contra hne
  rcases Int.lt_or_gt_of_ne hne with hless | hmore
  · have hmono := p.start_mono (Int.add_one_le_of_lt hless)
    omega
  · have hmono := p.start_mono (Int.add_one_le_of_lt hmore)
    omega

@[simp] theorem index_start (k : Int) : p.index (p.start k) = k :=
  p.index_eq (Int.le_refl _) (p.start_lt k)

theorem start_index_eq_iff (t u : Int) :
    p.start (p.index t) = p.start (p.index u) ↔ p.index t = p.index u := by
  constructor
  · intro heq
    rw [← p.index_start (p.index t), heq, index_start]
  · intro heq
    rw [heq]

theorem index_mono {t u : Int} (hle : t ≤ u) : p.index t ≤ p.index u := by
  by_contra hless
  have hmono := p.start_mono (Int.add_one_le_of_lt (Int.not_le.mp hless))
  have hstart := p.start_le t
  have hnext := p.lt_next u
  omega

/-- A later time is in another period from the start of the next one on. -/
theorem next_le_iff {t u : Int} (hle : t ≤ u) :
    p.start (p.index t + 1) ≤ u ↔ p.index t ≠ p.index u := by
  have hmono := p.index_mono hle
  constructor
  · intro hnext heq
    have hlt := p.lt_next u
    rw [← heq] at hlt
    omega
  · intro hne
    have hstart := p.start_mono (Int.add_one_le_of_lt (lt_of_le_of_ne hmono hne))
    have hbegun := p.start_le u
    omega

/-- The same division by a clock that is `offset` ahead. -/
def ahead (offset : Int) : Periods where
  start k := p.start k - offset
  index t := p.index (t + offset)
  start_le t := by
    have hle := p.start_le (t + offset)
    omega
  lt_next t := by
    have hlt := p.lt_next (t + offset)
    omega
  start_lt k := by
    have hlt := p.start_lt k
    omega

/-- Periods of one length, one of which begins at `origin`. -/
def uniform (length origin : Int) (hpos : 0 < length) : Periods where
  start k := length * k + origin
  index t := (t - origin) / length
  start_le t := by
    have hle := Int.mul_ediv_self_le (x := t - origin) hpos.ne'
    omega
  lt_next t := by
    have hlt := Int.lt_mul_ediv_self_add (x := t - origin) hpos
    rw [Int.mul_add, Int.mul_one]
    omega
  start_lt k := by
    rw [Int.mul_add, Int.mul_one]
    omega

end Periods

/-! ## A detector -/

/-- What is remembered: the bounds of a period. -/
structure Bounds where
  start : Int
  next : Int

/-- The bounds of the period of a time. -/
def Periods.boundsOf (p : Periods) (t : Int) : Bounds :=
  ⟨p.start (p.index t), p.start (p.index t + 1)⟩

/-- The start of the remembered period, when it has ended. -/
def Periods.detect (p : Periods) (b : Bounds) (t : Int) : Option Int × Bounds :=
  if t < b.next then (none, b) else (some b.start, p.boundsOf t)

def Periods.detections (p : Periods) : Bounds → List Int → List (Option Int)
  | _, [] => []
  | b, t :: ts => (p.detect b t).1 :: p.detections (p.detect b t).2 ts

/-- One report for each time that is not in the period of the one before. -/
def Periods.changes (p : Periods) : Int → List Int → List (Option Int)
  | _, [] => []
  | last, t :: ts =>
      (if p.index last = p.index t then none else some (p.start (p.index last))) ::
        p.changes t ts

theorem Periods.detect_boundsOf (p : Periods) {last t : Int} (hle : last ≤ t) :
    p.detect (p.boundsOf last) t =
      (if p.index last = p.index t then none else some (p.start (p.index last)),
        p.boundsOf t) := by
  have hnext := p.next_le_iff hle
  rw [detect, boundsOf]
  dsimp only
  by_cases hsame : p.index last = p.index t
  · rw [if_pos hsame, if_pos (by rw [← Int.not_le, hnext, not_not]; exact hsame), boundsOf,
      hsame]
  · rw [if_neg hsame, if_neg (by rw [Int.not_lt]; exact hnext.mpr hsame)]

/-- The detector reports every change of period. -/
theorem Periods.detections_eq_changes (p : Periods) {last : Int} {ts : List Int}
    (hsorted : (last :: ts).Pairwise (· ≤ ·)) :
    p.detections (p.boundsOf last) ts = p.changes last ts := by
  induction ts generalizing last with
  | nil => rfl
  | cons t ts ih =>
      rcases List.pairwise_cons.mp hsorted with ⟨hlast, hrest⟩
      rw [detections, changes, p.detect_boundsOf (hlast t List.mem_cons_self), ih hrest]

/-! ## The Gregorian calendar -/

def isLeap (year : Int) : Bool :=
  year % 4 == 0 && (year % 100 != 0 || year % 400 == 0)

/-- The days of a year beyond 365. -/
def leapDay (year : Int) : Int := if isLeap year then 1 else 0

/-- The days from the beginning of 1970 to the beginning of a year; 477 leap
years are before 1970. -/
def daysBeforeYear (year : Int) : Int :=
  365 * (year - 1970) + (year - 1) / 4 - (year - 1) / 100 + (year - 1) / 400 - 477

/-- The days of a year in front of a month, from 0 for January to 12 for the
end of the year. -/
def daysBeforeMonth (year month : Int) : Int :=
  (367 * month + 5) / 12 - if month ≤ 1 then 0 else 2 - leapDay year

example : (List.range 13).map (fun m : Nat => daysBeforeMonth 1970 m) =
    [0, 31, 59, 90, 120, 151, 181, 212, 243, 273, 304, 334, 365] := by decide

def yearOf (day : Int) : Int :=
  let year := 1970 + 400 * day / 146097
  if day < daysBeforeYear year then year - 1
  else if daysBeforeYear (year + 1) ≤ day then year + 1
  else year

/-- The month of a day of the year, which is counted from 0. -/
def monthInYear (year day : Int) : Int :=
  (12 * (day + if day < 59 + leapDay year then 0 else 2 - leapDay year) + 6) / 367

/-- The first day of a month; months are counted from the year 0. -/
def monthStart (month : Int) : Int :=
  daysBeforeYear (month / 12) + daysBeforeMonth (month / 12) (month % 12)

def monthOf (day : Int) : Int :=
  12 * yearOf day + monthInYear (yearOf day) (day - daysBeforeYear (yearOf day))

theorem leapDay_cases (year : Int) : leapDay year = 0 ∨ leapDay year = 1 := by
  unfold leapDay
  split <;> simp

theorem daysBeforeYear_succ (year : Int) :
    daysBeforeYear (year + 1) = daysBeforeYear year + 365 + leapDay year := by
  unfold daysBeforeYear leapDay isLeap
  split
  next hleap =>
    simp only [Bool.and_eq_true, Bool.or_eq_true, beq_iff_eq, bne_iff_ne] at hleap
    omega
  next hcommon =>
    simp only [Bool.and_eq_true, Bool.or_eq_true, beq_iff_eq, bne_iff_ne] at hcommon
    omega

theorem yearOf_spec (day : Int) :
    daysBeforeYear (yearOf day) ≤ day ∧ day < daysBeforeYear (yearOf day + 1) := by
  unfold yearOf
  dsimp only
  have hestimate : daysBeforeYear (1970 + 400 * day / 146097 - 1) ≤ day ∧
      day < daysBeforeYear (1970 + 400 * day / 146097 + 1 + 1) := by
    unfold daysBeforeYear
    omega
  split
  next hless => exact ⟨hestimate.1, by rwa [Int.sub_add_cancel]⟩
  next hle =>
    split
    next hmore => exact ⟨hmore, hestimate.2⟩
    next hless => exact ⟨by omega, by omega⟩

theorem monthInYear_spec {year day : Int} (hnonneg : 0 ≤ day)
    (hlt : day < 365 + leapDay year) :
    (0 ≤ monthInYear year day ∧ monthInYear year day < 12) ∧
      daysBeforeMonth year (monthInYear year day) ≤ day ∧
      day < daysBeforeMonth year (monthInYear year day + 1) := by
  unfold monthInYear daysBeforeMonth
  rcases leapDay_cases year with hleap | hleap <;> rw [hleap] at hlt ⊢ <;> split <;>
    refine ⟨by omega, ?_, ?_⟩ <;> split <;> omega

theorem daysBeforeMonth_lt (year : Int) {month : Int} (hnonneg : 0 ≤ month) :
    daysBeforeMonth year month < daysBeforeMonth year (month + 1) := by
  unfold daysBeforeMonth
  rcases leapDay_cases year with hleap | hleap <;> rw [hleap] <;> split <;> split <;> omega

theorem monthStart_eq (year : Int) {month : Int} (hnonneg : 0 ≤ month) (hle : month ≤ 12) :
    monthStart (12 * year + month) = daysBeforeYear year + daysBeforeMonth year month := by
  unfold monthStart
  by_cases hend : month = 12
  · have hyear : (12 * year + month) / 12 = year + 1 := by omega
    have hfirst : (12 * year + month) % 12 = 0 := by omega
    have hlast : daysBeforeMonth year 12 = 365 + leapDay year := by
      unfold daysBeforeMonth
      rw [if_neg (by omega)]
      omega
    rw [hyear, hfirst, hend, hlast, daysBeforeYear_succ]
    simp [daysBeforeMonth]
    omega
  · have hyear : (12 * year + month) / 12 = year := by omega
    have hmonth : (12 * year + month) % 12 = month := by omega
    rw [hyear, hmonth]

theorem monthStart_lt (month : Int) : monthStart month < monthStart (month + 1) := by
  have hsplit : month = 12 * (month / 12) + month % 12 := by omega
  have hnext : month + 1 = 12 * (month / 12) + (month % 12 + 1) := by omega
  have hnonneg : 0 ≤ month % 12 := by omega
  have hlt := daysBeforeMonth_lt (month / 12) hnonneg
  have hstart := monthStart_eq (month / 12) hnonneg (by omega)
  rw [hnext, monthStart_eq _ (by omega) (by omega)]
  rw [← hsplit] at hstart
  omega

theorem monthOf_spec (day : Int) :
    monthStart (monthOf day) ≤ day ∧ day < monthStart (monthOf day + 1) := by
  have hyear := yearOf_spec day
  rw [daysBeforeYear_succ] at hyear
  have hnonneg : 0 ≤ day - daysBeforeYear (yearOf day) := by omega
  have hlt : day - daysBeforeYear (yearOf day) < 365 + leapDay (yearOf day) := by omega
  rcases monthInYear_spec hnonneg hlt with ⟨hrange, hstart, hnext⟩
  rw [monthOf, Int.add_assoc, monthStart_eq _ hrange.1 (by omega),
    monthStart_eq _ (by omega) (by omega)]
  omega

theorem monthStart_succ_le (month : Int) : monthStart (month + 1) ≤ monthStart month + 31 := by
  have hnonneg : 0 ≤ month % 12 := by omega
  have hsplit : month = 12 * (month / 12) + month % 12 := by omega
  have hnext : month + 1 = 12 * (month / 12) + (month % 12 + 1) := by omega
  have hstart := monthStart_eq (month / 12) hnonneg (by omega)
  rw [hnext, monthStart_eq _ (by omega) (by omega)]
  rw [← hsplit] at hstart
  have hlength : daysBeforeMonth (month / 12) (month % 12 + 1) ≤
      daysBeforeMonth (month / 12) (month % 12) + 31 := by
    unfold daysBeforeMonth
    rcases leapDay_cases (month / 12) with hleap | hleap <;> rw [hleap] <;> split <;> split <;>
      omega
  omega

/-- The months as periods of days. -/
def monthsOfDays : Periods where
  start := monthStart
  index := monthOf
  start_le day := (monthOf_spec day).1
  lt_next day := (monthOf_spec day).2
  start_lt := monthStart_lt

theorem monthOf_monthStart (month : Int) : monthOf (monthStart month) = month :=
  monthsOfDays.index_start month

/-- The months as periods of seconds. -/
def months : Periods where
  start k := 86400 * monthStart k
  index t := monthOf (t / 86400)
  start_le t := by
    have hspec := monthOf_spec (t / 86400)
    omega
  lt_next t := by
    have hspec := monthOf_spec (t / 86400)
    omega
  start_lt k := by
    have hlt := monthStart_lt k
    omega

end Calendar
