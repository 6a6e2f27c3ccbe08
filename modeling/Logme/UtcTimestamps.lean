import Logme.Timestamps

/-!
# UTC timestamps

`NowUtc` passes the fields in UTC to `mktime`, which takes them for local time,
and corrects the result by an offset that is sampled there.  The fields that
come out are those of the instant when the two local times that the offset is
the difference of belong to one offset.
-/

namespace Logme

/-- The fields of `NowUtc`, and the text of a new stamp, are those of the
instant in UTC. -/
structure DenotesUtc (c : CTime) (cache : StampCache) (r : TimeReading) : Prop where
  fields : (c.nowUtc r).time = c.gmtime r.seconds
  milliseconds : (c.nowUtc r).milliseconds = r.microseconds / 1000
  text : r.ticks ≠ cache.lastStampTicks →
    (c.initTimestampUtc cache r).timestamp =
      stampText (c.gmtime r.seconds) (r.microseconds / 1000)

namespace CTime

variable (c : CTime) {t : Int}

/-- `mktime` finds an instant `m` for the UTC fields of `t`.  Of `m`, it finds
one for the local time and one for the UTC fields: the offsets there are the
same, when no local time is missed.  The differences fit into an `int`. -/
structure OffsetsAgree (t : Int) : Prop where
  same : ((2 ^ 32 : Nat) : Int) ∣
    c.zone.offset (c.resolve 0 (c.zone.reading (c.resolve (-1) t))) +
        c.zone.missed (c.resolve 0) (c.resolve (-1) t) -
      (c.zone.offset (c.resolve 0 (c.resolve (-1) t)) + c.zone.missed (c.resolve (-1)) t)
  near : -2147483648 ≤ c.resolve (-1) t - t ∧ c.resolve (-1) t - t < 2147483648

theorem nowUtc_linearTime_iff (r : TimeReading) :
    (c.nowUtc r).linearTime = r.seconds ↔ c.OffsetsAgree r.seconds := by
  have hsampled := c.zone.sampled_eq (c.resolve (-1)) (c.resolves 0) r.seconds
  have hoffset : c.getUtcAndDstOffset (c.resolve (-1) r.seconds) =
      Int.bmod (c.resolve 0 (c.resolve (-1) r.seconds) -
        c.resolve 0 (c.zone.reading (c.resolve (-1) r.seconds))) (2 ^ 32) := rfl
  rw [c.nowUtc_linearTime, hoffset, hsampled]
  -- what is subtracted has to be what `mktime` added to the instant
  have hcorrected : ∀ offset : Int, c.resolve (-1) r.seconds - offset = r.seconds ↔
      offset = c.resolve (-1) r.seconds - r.seconds := by
    intro offset
    omega
  rw [hcorrected, LocalClock.bmod_add_eq_iff, bmod_int_eq_self_iff]
  exact ⟨fun h => ⟨h.1, h.2⟩, fun h => ⟨h.same, h.near⟩⟩

/-- In a zone whose offset never changes the offsets agree. -/
theorem offsetsAgree_fixed {offset : Int} (hfixed : ∀ u, c.zone.offset u = offset)
    (hnear : -2147483648 < offset ∧ offset ≤ 2147483648) (t : Int) : c.OffsetsAgree t := by
  have hresolve := c.zone.resolve_fixed hfixed (c.resolves (-1)) t
  have hmissed : ∀ isdst l, c.zone.missed (c.resolve isdst) l = 0 := by
    intro isdst l
    rw [LocalClock.missed, LocalClock.reading, hfixed,
      c.zone.resolve_fixed hfixed (c.resolves isdst) l]
    omega
  constructor
  · rw [hfixed, hfixed, hmissed, hmissed, Int.sub_self]
    exact Int.dvd_zero _
  · rw [hresolve]
    omega

end CTime

/-- The stamp denotes the instant exactly when the offsets that take part
agree. -/
theorem denotesUtc_iff (c : CTime) (cache : StampCache) (r : TimeReading) :
    DenotesUtc c cache r ↔ c.OffsetsAgree r.seconds := by
  rw [← c.nowUtc_linearTime_iff r]
  constructor
  · intro h
    have hfields := h.fields
    rw [c.nowUtc_time] at hfields
    exact brokenDown_inj.mp hfields
  · intro hinstant
    have hfields : (c.nowUtc r).time = c.gmtime r.seconds := by
      rw [c.nowUtc_time, hinstant]
    constructor
    · exact hfields
    · exact c.nowUtc_milliseconds r
    · intro hticks
      rw [CTime.initTimestampUtc, StampCache.refresh, if_pos hticks, hfields,
        c.nowUtc_milliseconds]

/-- A clock that is set from one hour ahead of UTC to two hours at the
instant 0. -/
private def setForward : LocalClock := ⟨fun u => if u < 0 then 3600 else 7200⟩

/-- The local times of the hour that is skipped are taken for the hour
before. -/
private def hourBefore (l : Int) : Int := if l < 3600 then l - 3600 else l - 7200

private theorem setForward_resolves : setForward.Resolves hourBefore := by
  intro u
  simp only [LocalClock.reading, setForward, hourBefore]
  split <;> split <;> omega

private def springForward : CTime where
  zone := setForward
  isdst u := if u < 0 then 0 else 1
  mktime _ tm := hourBefore ((fixedOffset 0).mktime tm)
  mktime_wday _ _ _ := rfl
  mktime_shown _ u := by
    simp only [mktime_brokenDown, Int.sub_zero]
    exact setForward_resolves u

/-- The local time that the UTC fields spell is skipped. -/
theorem not_denotesUtc_skipped : ¬ DenotesUtc springForward {} ⟨1, 5000, 0⟩ := by
  intro h
  have hfields := h.fields
  have hinstant : (springForward.nowUtc ⟨1, 5000, 0⟩).linearTime = 1400 := by decide
  rw [springForward.nowUtc_time, hinstant] at hfields
  exact absurd (brokenDown_inj.mp hfields) (by decide)

end Logme
