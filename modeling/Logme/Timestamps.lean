import Logme.ContextApply
import Logme.Library.LocalClock
import Logme.RotationCalendar

/-!
# Timestamps

`DateTime` keeps an instant in seconds and its fields in local time or in UTC.
`InitTimestamp` writes the fields of the present into a text, which it keeps
until the tick count changes.
-/

namespace Logme

/-! ## The C library -/

/-- The time functions of a zone.  `localtime_r` and `gmtime_r` are exact;
`mktime`, which is called with `tm_isdst`, finds an instant for fields that are
shown at one. -/
structure CTime where
  zone : LocalClock
  isdst : Int → Int
  mktime : Int → Tm → Int
  mktime_wday : ∀ isdst tm wday, mktime isdst { tm with wday := wday } = mktime isdst tm
  mktime_shown : ∀ isdst, zone.Resolves fun l => mktime isdst (brokenDown l)

namespace CTime

def gmtime (_ : CTime) (t : Int) : Tm := brokenDown t

def localtime (c : CTime) (t : Int) : Tm := brokenDown (c.zone.reading t)

/-- `mktime` of the fields of a reading. -/
def resolve (c : CTime) (isdst l : Int) : Int := c.mktime isdst (brokenDown l)

theorem resolves (c : CTime) (isdst : Int) : c.zone.Resolves (c.resolve isdst) :=
  c.mktime_shown isdst

/-- The offset is kept in an `int`. -/
def getUtcAndDstOffset (c : CTime) (myTime : Int) : Int :=
  Int.bmod (c.mktime 0 (c.gmtime myTime) - c.mktime 0 (c.localtime myTime)) (2 ^ 32)

end CTime

/-! ## `DateTime` -/

inductive DateTimeKind where
  | dtkLocal
  | dtkUtc
  deriving DecidableEq

structure DateTimeValue where
  time : Tm
  linearTime : Int
  milliseconds : Int
  kind : DateTimeKind
  valid : Bool

/-- What `gettimeofday` returns, or `time` with no microseconds where it fails,
and the tick count of the call. -/
structure TimeReading where
  ticks : UInt64
  seconds : Int
  microseconds : Int

namespace CTime

variable (c : CTime)

def fillComponent (d : DateTimeValue) : DateTimeValue :=
  { d with
    time := if d.kind = .dtkUtc then c.gmtime d.linearTime else c.localtime d.linearTime
    valid := true }

/-- `mktime` also normalises the fields, which are filled anew. -/
def fillLinear (d : DateTimeValue) : DateTimeValue :=
  let linearTime := c.mktime (-1) d.time
  let linearTime :=
    if d.kind = .dtkUtc then linearTime - c.getUtcAndDstOffset linearTime else linearTime
  c.fillComponent { d with linearTime := linearTime, valid := linearTime != -1 }

def fillDateTimes (d : DateTimeValue) (year month day hour minute second millisecond : Int) :
    DateTimeValue :=
  c.fillLinear
    { d with
      time :=
        { sec := second, min := minute, hour := hour, mday := day, mon := month - 1,
          wday := -1, year := year - 1900 }
      milliseconds := millisecond }

/-- The constructor of `DateTime`, whose other members get their values from
`FillDateTimes`. -/
def dateTime (kind : DateTimeKind) (year month day hour minute second millisecond : Int) :
    DateTimeValue :=
  c.fillDateTimes ⟨brokenDown 0, 0, 0, kind, true⟩ year month day hour minute second millisecond

def now (r : TimeReading) : DateTimeValue :=
  let tm := c.localtime r.seconds
  c.dateTime .dtkLocal (tm.year + 1900) (tm.mon + 1) tm.mday tm.hour tm.min tm.sec
    (r.microseconds / 1000)

def nowUtc (r : TimeReading) : DateTimeValue :=
  let tm := c.gmtime r.seconds
  c.dateTime .dtkUtc (tm.year + 1900) (tm.mon + 1) tm.mday tm.hour tm.min tm.sec
    (r.microseconds / 1000)

end CTime

/-! ## `InitTimestamp` -/

/-- `%0wi`. -/
def padInt (width : Nat) (i : Int) : Name :=
  if i < 0 then 0x2D :: padZero (width - 1) (decimalBytes i.natAbs)
  else padZero width (decimalBytes i.natAbs)

/-- `"%04i-%02i-%02i %02i:%02i:%02i:%03i "`, at most 30 bytes. -/
def stampText (tm : Tm) (milliseconds : Int) : Name :=
  (padInt 4 (tm.year + 1900) ++ [0x2D] ++ padInt 2 (tm.mon + 1) ++ [0x2D] ++
    padInt 2 tm.mday ++ [0x20] ++ padInt 2 tm.hour ++ [0x3A] ++ padInt 2 tm.min ++ [0x3A] ++
    padInt 2 tm.sec ++ [0x3A] ++ padInt 3 milliseconds ++ [0x20]).take 30

/-- The zone is put behind the seconds, in the buffer of 32 bytes. -/
def withZone (timestamp tzd : Name) : Name :=
  let buffer := (timestamp ++ List.replicate (32 - timestamp.length) 0).set 10 0x54
  BufferCursor.cString (buffer.take 19 ++ tzd.take 12 ++ [0])

/-- The static variables: the last stamp with its ticks and its text.  There is
no stamp at first. -/
structure StampCache where
  lastStamp : Option DateTimeValue := none
  lastStampTicks : UInt64 := 0
  timestamp : Name := []

/-- A new stamp is taken when the tick count has changed. -/
def StampCache.refresh (cache : StampCache) (ticks : UInt64) (stamp : DateTimeValue) :
    StampCache :=
  if ticks ≠ cache.lastStampTicks then
    ⟨some stamp, ticks, stampText stamp.time stamp.milliseconds⟩
  else cache

namespace CTime

variable (c : CTime)

/-- The cache for local time, with or without the zone. -/
def initTimestampLocal (cache : StampCache) (r : TimeReading) : StampCache :=
  cache.refresh r.ticks (c.now r)

def initTimestampUtc (cache : StampCache) (r : TimeReading) : StampCache :=
  cache.refresh r.ticks (c.nowUtc r)

/-- `CreateTZD` at the instant `t` that `time` returns to it. -/
def createTZD (t : Int) : Name :=
  let t1 := c.mktime (c.isdst t) (c.localtime t)
  let t2 := c.mktime 0 (c.gmtime t)
  MessageTime.createTZD (Int.bmod (t1 - t2) (2 ^ 32))

/-- The text with the zone, for which `CreateTZD` takes the time anew. -/
def timestampTZ (cache : StampCache) (r : TimeReading) (t : Int) : Name :=
  withZone (c.initTimestampLocal cache r).timestamp (c.createTZD t)

end CTime

/-! ## Fields and seconds -/

/-- The values of an `int`. -/
theorem bmod_int_eq_self_iff (i : Int) :
    i.bmod (2 ^ 32) = i ↔ -2147483648 ≤ i ∧ i < 2147483648 := by
  have hsize : ((2 ^ 32 : Nat) : Int) = 4294967296 := rfl
  rw [Int.bmod_eq_iff (by decide), Int.sub_self, hsize]
  omega

/-- The fields of a time are those of no other time. -/
theorem mktime_brokenDown (offset s : Int) :
    (fixedOffset offset).mktime (brokenDown s) = s - offset := by
  simp only [fixedOffset, brokenDown, monthNumber]
  omega

theorem brokenDown_inj {s u : Int} : brokenDown s = brokenDown u ↔ s = u := by
  constructor
  · intro hfields
    have hseconds := congrArg (fixedOffset 0).mktime hfields
    rw [mktime_brokenDown, mktime_brokenDown] at hseconds
    omega
  · intro hsame
    rw [hsame]

namespace CTime

variable (c : CTime)

/-- A `DateTime` made of the fields of a reading. -/
theorem dateTime_brokenDown (kind : DateTimeKind) (l milliseconds : Int) :
    c.dateTime kind ((brokenDown l).year + 1900) ((brokenDown l).mon + 1) (brokenDown l).mday
        (brokenDown l).hour (brokenDown l).min (brokenDown l).sec milliseconds =
      c.fillLinear ⟨brokenDown l, 0, milliseconds, kind, true⟩ := by
  unfold dateTime fillDateTimes fillLinear fillComponent
  rw [Int.add_sub_cancel, Int.add_sub_cancel]
  have hmktime := c.mktime_wday (-1) (brokenDown l) (-1)
  rw [hmktime]

theorem now_eq (r : TimeReading) :
    c.now r = c.fillComponent ⟨c.localtime r.seconds,
      c.resolve (-1) (c.zone.reading r.seconds), r.microseconds / 1000, .dtkLocal, true⟩ := by
  rw [now]
  exact c.dateTime_brokenDown .dtkLocal (c.zone.reading r.seconds) (r.microseconds / 1000)

/-- The fields in UTC are read as local time and corrected. -/
theorem nowUtc_eq (r : TimeReading) :
    c.nowUtc r = c.fillComponent ⟨c.gmtime r.seconds,
      c.resolve (-1) r.seconds - c.getUtcAndDstOffset (c.resolve (-1) r.seconds),
      r.microseconds / 1000, .dtkUtc, true⟩ := by
  rw [nowUtc]
  exact c.dateTime_brokenDown .dtkUtc r.seconds (r.microseconds / 1000)

/-- In every zone the local time of the present is its own. -/
theorem now_time (r : TimeReading) : (c.now r).time = c.localtime r.seconds := by
  rw [now_eq]
  change brokenDown (c.zone.reading (c.resolve (-1) (c.zone.reading r.seconds))) = _
  rw [c.resolves (-1) r.seconds]
  rfl

theorem nowUtc_time (r : TimeReading) : (c.nowUtc r).time = c.gmtime (c.nowUtc r).linearTime := by
  rw [nowUtc_eq]
  rfl

theorem nowUtc_milliseconds (r : TimeReading) :
    (c.nowUtc r).milliseconds = r.microseconds / 1000 := by
  rw [nowUtc_eq]
  rfl

theorem nowUtc_linearTime (r : TimeReading) :
    (c.nowUtc r).linearTime =
      c.resolve (-1) r.seconds - c.getUtcAndDstOffset (c.resolve (-1) r.seconds) := by
  rw [nowUtc_eq]
  rfl

end CTime

end Logme
