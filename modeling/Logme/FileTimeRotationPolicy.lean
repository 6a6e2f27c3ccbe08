import Mathlib.Data.Int.Order.Basic

/-!
# Time rotation

The policy keeps the start of the current calendar period and of the next
one.  The C library's conversions between seconds and local time are a
parameter.
-/

namespace Logme

inductive TimeRotationMode where
  | none
  | hourly
  | daily
  | weekly
  | monthly
  deriving DecidableEq

/-- `struct tm`; `tm_isdst` is always set to `-1` before it is used. -/
structure Tm where
  sec : Int
  min : Int
  hour : Int
  mday : Int
  mon : Int
  wday : Int
  year : Int

/-- `localtime_r` and `mktime`. -/
structure TimeZone where
  localtime : Int → Option Tm
  mktime : Tm → Int

def buildPeriodStart (zone : TimeZone) (mode : TimeRotationMode)
    (now : Int) : Int :=
  match zone.localtime now with
  | none => now
  | some tm =>
      if mode = .hourly then zone.mktime { tm with min := 0, sec := 0 }
      else
        let tm := { tm with hour := 0, min := 0, sec := 0 }
        if mode = .weekly then
          zone.mktime { tm with mday := tm.mday - (tm.wday + 6) % 7 }
        else if mode = .monthly then zone.mktime { tm with mday := 1 }
        else zone.mktime tm

def safeNextTime (start fallbackPeriodSeconds : Int) : Int :=
  if start = -1 then -1 else start + fallbackPeriodSeconds

def buildNextPeriodStart (zone : TimeZone) (mode : TimeRotationMode)
    (periodStart : Int) : Int :=
  match zone.localtime periodStart with
  | none =>
      if mode = .hourly then safeNextTime periodStart (60 * 60)
      else if mode = .weekly then
        safeNextTime periodStart (7 * 24 * 60 * 60)
      else safeNextTime periodStart (24 * 60 * 60)
  | some tm =>
      if mode = .hourly then zone.mktime { tm with hour := tm.hour + 1 }
      else if mode = .weekly then zone.mktime { tm with mday := tm.mday + 7 }
      else if mode = .monthly then zone.mktime { tm with mon := tm.mon + 1 }
      else zone.mktime { tm with mday := tm.mday + 1 }

structure FileTimeRotationPolicy where
  mode : TimeRotationMode
  periodStart : Int
  nextPeriodStart : Int

namespace FileTimeRotationPolicy

def reset (zone : TimeZone) (p : FileTimeRotationPolicy) (now : Int) :
    FileTimeRotationPolicy :=
  if p.mode = .none then { p with periodStart := 0, nextPeriodStart := 0 }
  else
    let start := buildPeriodStart zone p.mode now
    let start := if start = -1 then now else start
    let next := buildNextPeriodStart zone p.mode start
    let next :=
      if next = -1 ∨ next ≤ start then
        if p.mode = .hourly then start + 60 * 60
        else if p.mode = .weekly then start + 7 * 24 * 60 * 60
        else start + 24 * 60 * 60
      else next
    { p with periodStart := start, nextPeriodStart := next }

def configure (zone : TimeZone) (mode : TimeRotationMode) (now : Int) :
    FileTimeRotationPolicy :=
  reset zone ⟨mode, 0, 0⟩ now

def getArchiveTime (p : FileTimeRotationPolicy) (now : Int) : Int :=
  if p.mode ≠ .none ∧ p.periodStart ≠ 0 then p.periodStart else now

/-- `ShouldRotate`: the time of the completed period, if it has ended. -/
def shouldRotate (zone : TimeZone) (p : FileTimeRotationPolicy) (now : Int) :
    Option Int × FileTimeRotationPolicy :=
  if p.mode = .none then (none, p)
  else if p.nextPeriodStart = 0 then (none, p.reset zone now)
  else if now < p.nextPeriodStart then (none, p)
  else (some (if p.periodStart ≠ 0 then p.periodStart else now),
    p.reset zone now)

theorem reset_mode (zone : TimeZone) (p : FileTimeRotationPolicy)
    (now : Int) : (p.reset zone now).mode = p.mode := by
  unfold reset
  split <;> rfl

theorem shouldRotate_mode (zone : TimeZone) (p : FileTimeRotationPolicy)
    (now : Int) : (p.shouldRotate zone now).2.mode = p.mode := by
  have hreset := reset_mode zone p now
  unfold shouldRotate
  split_ifs
  · rfl
  · exact hreset
  · rfl
  · exact hreset
  · exact hreset

/-- The state after a reset does not depend on the one before. -/
theorem reset_eq (zone : TimeZone) (p : FileTimeRotationPolicy)
    (now : Int) : p.reset zone now = configure zone p.mode now := by
  unfold configure reset
  split <;> rfl

theorem configure_mode (zone : TimeZone) (mode : TimeRotationMode)
    (now : Int) : (configure zone mode now).mode = mode :=
  reset_mode zone ⟨mode, 0, 0⟩ now

theorem getArchiveTime_eq {p : FileTimeRotationPolicy}
    (hmode : p.mode ≠ .none) (hstarted : p.periodStart ≠ 0) (now : Int) :
    p.getArchiveTime now = p.periodStart := by
  rw [getArchiveTime, if_pos ⟨hmode, hstarted⟩]

theorem shouldRotate_before {p : FileTimeRotationPolicy} (zone : TimeZone)
    {now : Int} (hmode : p.mode ≠ .none) (hnext : p.nextPeriodStart ≠ 0)
    (hnow : now < p.nextPeriodStart) : p.shouldRotate zone now = (none, p) := by
  rw [shouldRotate, if_neg hmode, if_neg hnext, if_pos hnow]

theorem shouldRotate_after {p : FileTimeRotationPolicy} (zone : TimeZone)
    {now : Int} (hmode : p.mode ≠ .none) (hnext : p.nextPeriodStart ≠ 0)
    (hstarted : p.periodStart ≠ 0) (hnow : p.nextPeriodStart ≤ now) :
    p.shouldRotate zone now =
      (some p.periodStart, configure zone p.mode now) := by
  rw [shouldRotate, if_neg hmode, if_neg hnext, if_neg (by omega),
    if_pos hstarted, reset_eq]

end FileTimeRotationPolicy

/-- The start of the calendar period of a time. -/
def periodOf (zone : TimeZone) (mode : TimeRotationMode) (t : Int) : Int :=
  (FileTimeRotationPolicy.configure zone mode t).periodStart

def nextPeriodOf (zone : TimeZone) (mode : TimeRotationMode) (t : Int) :
    Int :=
  (FileTimeRotationPolicy.configure zone mode t).nextPeriodStart

/-- From `start` on, a time before the next period belongs to the same one,
and no period starts at the epoch, whose number stands for no time. -/
structure RegularPeriods (zone : TimeZone) (mode : TimeRotationMode)
    (start : Int) : Prop where
  same : ∀ t u, start ≤ t → t ≤ u → u < nextPeriodOf zone mode t →
    periodOf zone mode u = periodOf zone mode t
  nonzero : ∀ t, start ≤ t →
    periodOf zone mode t ≠ 0 ∧ nextPeriodOf zone mode t ≠ 0

end Logme
