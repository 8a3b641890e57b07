import Unalix.Foundations.Calendar

/-!
# Times that are taken apart (`struct tm`)

`gmtime` takes a time apart in UTC, and `timegm` puts it together (`timegm_gmtime`). In a time zone
there are two local times for a moment: standard time, and while daylight saving is in force a time
that differs from it by what is saved. `mktime` reads its argument as local time, of the kind that
`tm_isdst` says, and replaces it by the local time of the moment it has found. So the fields of a UTC
time are kept if and only if daylight saving is not in force at the moment that has these fields in
standard time (`mktime_gmtime`).
-/

namespace Unalix.BrokenDownTime

open Calendar

/-- `struct tm`, without the day of the year; months count from 0, and years from 1900. -/
structure Tm where
  sec : ℤ := 0
  min : ℤ := 0
  hour : ℤ := 0
  mday : ℤ := 0
  mon : ℤ := 0
  year : ℤ := 0
  wday : ℤ := 0
  isdst : ℤ := 0
  deriving DecidableEq, Repr

/-- The days of the week from Sunday on; 1 January 1970 was a Thursday. -/
def weekday (days : ℤ) : ℤ := (days + 4) % 7

/-- The seconds of a day. -/
def secondsPerDay : ℤ := 86400

/-- `gmtime_r`. -/
def gmtime (t : ℤ) : Tm :=
  let days := t / secondsPerDay
  let rest := t % secondsPerDay
  { sec := rest % 60
    min := rest / 60 % 60
    hour := rest / 3600
    mday := (dateOf days).day
    mon := (dateOf days).month - 1
    year := (dateOf days).year - 1900
    wday := weekday days }

/-- The time whose UTC fields these are; fields outside of their ranges are carried over. -/
def timegm (tm : Tm) : ℤ :=
  secondsPerDay * dayNumber (tm.year + 1900 + tm.mon / 12) (tm.mon % 12 + 1) tm.mday +
    3600 * tm.hour + 60 * tm.min + tm.sec

example : gmtime 784111777 =
    { sec := 37, min := 49, hour := 8, mday := 6, mon := 10, year := 94, wday := 0 } := by decide

/-- **A time is put together** from its fields. -/
theorem timegm_gmtime (t : ℤ) : timegm (gmtime t) = t := by
  have hpos := (dateOf (t / secondsPerDay)).month_pos
  have hle := (dateOf (t / secondsPerDay)).month_le
  have hnumber := dayNumber_dateOf (t / secondsPerDay)
  have hyear : (dateOf (t / secondsPerDay)).year - 1900 + 1900 +
      ((dateOf (t / secondsPerDay)).month - 1) / 12 = (dateOf (t / secondsPerDay)).year := by omega
  have hmonth : ((dateOf (t / secondsPerDay)).month - 1) % 12 + 1 =
      (dateOf (t / secondsPerDay)).month := by omega
  simp only [timegm, gmtime]
  rw [hyear, hmonth, hnumber, secondsPerDay]
  omega

/-- Fields in their ranges. -/
structure Tm.InRange (tm : Tm) : Prop where
  sec : 0 ≤ tm.sec ∧ tm.sec ≤ 60
  min : 0 ≤ tm.min ∧ tm.min ≤ 59
  hour : 0 ≤ tm.hour ∧ tm.hour ≤ 23
  mday : 1 ≤ tm.mday ∧ tm.mday ≤ 31
  mon : 0 ≤ tm.mon ∧ tm.mon ≤ 11
  wday : 0 ≤ tm.wday ∧ tm.wday ≤ 6

theorem Tm.InRange.isdst {tm : Tm} (h : tm.InRange) (isdst : ℤ) :
    ({ tm with isdst := isdst } : Tm).InRange :=
  ⟨h.sec, h.min, h.hour, h.mday, h.mon, h.wday⟩

theorem inRange_gmtime (t : ℤ) : (gmtime t).InRange := by
  have hpos := (dateOf (t / secondsPerDay)).month_pos
  have hle := (dateOf (t / secondsPerDay)).month_le
  have hday := (dateOf (t / secondsPerDay)).day_pos
  have hlast := (dateOf (t / secondsPerDay)).day_le_31
  constructor <;> simp only [gmtime, weekday, secondsPerDay] at * <;> omega

/-! ## Time zones -/

/-- A time zone: the offset of its standard time, what its other time adds to it, and the moments at
which the other time is in force. -/
structure Zone where
  offset : ℤ
  saving : ℤ
  isDst : ℤ → Bool
  saving_ne : saving ≠ 0

/-- `localtime_r`. -/
def localtime (zone : Zone) (t : ℤ) : Tm :=
  if zone.isDst t then { gmtime (t + zone.offset + zone.saving) with isdst := 1 }
  else gmtime (t + zone.offset)

/-- `mktime`, for a `tm_isdst` that is not negative: the time, and what is left of the argument. -/
def mktime (zone : Zone) (tm : Tm) : ℤ × Tm :=
  let t := timegm tm - zone.offset - (if 0 < tm.isdst then zone.saving else 0)
  (t, localtime zone t)

/-- **UTC fields that are read as local time.** -/
theorem mktime_gmtime (zone : Zone) (t : ℤ) : mktime zone (gmtime t) =
    (t - zone.offset, if zone.isDst (t - zone.offset) then
      { gmtime (t + zone.saving) with isdst := 1 } else gmtime t) := by
  have hstandard : (gmtime t).isdst = 0 := rfl
  rw [mktime, timegm_gmtime, hstandard, if_neg (lt_irrefl 0), sub_zero, localtime, sub_add_cancel]

end Unalix.BrokenDownTime
