/-
  Base/UtcTime.lean --- broken-down UTC times: `gmtime_r` and `timegm` of the C library, and
  `TimeZone::toUtcTime` and `TimeZone::fromUtcTime` (src/muduo/base/TimeZone.cc).

  `gmtime` is the broken-down time of every integer: the day is found by the formulas of
  Base/Date.lean, which need no bounds over the integers, and the time of the day by
  division with rounding down.  `IsUtc` says what a broken-down time of `t` is without any
  formula: its date is `t / 86400` days from the first of January 1970.

  `toUtcTime` computes the same with truncating divisions and on `int`s
  (`toUtcTime_eq_gmtime`); `utc_conversions_inverse` is the round trip in both directions.
-/
import Muduo.Foundation.Bytes
import Muduo.Base.Date

set_option autoImplicit false

namespace Muduo.Base

open Muduo.Foundation

/-! ## The day of any number -/

/-- The calendar repeats itself every 400 years. -/
theorem julianDay_shift (x : CivilDate) (k : Int) :
    julianDay ⟨x.year + 400 * k, x.month, x.day⟩ = julianDay x + 146097 * k := by
  simp only [julianDay, marchYear, marchDay, daysBefore]
  omega

theorem valid_shift {x : CivilDate} (h : x.Valid) (k : Int) :
    (CivilDate.mk (x.year + 400 * k) x.month x.day).Valid := by
  have hleap : CivilDate.IsLeap (x.year + 400 * k) ↔ CivilDate.IsLeap x.year := by
    unfold CivilDate.IsLeap
    omega
  obtain ⟨hmonth, hday, hlast⟩ := h
  refine ⟨hmonth, hday, ?_⟩
  simp only [CivilDate.daysInMonth, hleap] at hlast ⊢
  exact hlast

/-- Every integer is the number of a day. -/
theorem exists_civil (n : Int) : ∃ x : CivilDate, x.Valid ∧ julianDay x = n := by
  -- some 400 years later, or earlier, it is one of the days that `exists_date` counts
  obtain ⟨x, hx, hnumber⟩ := exists_date ((n - julianDay firstDay) % 146097).toNat
  refine ⟨⟨x.year + 400 * ((n - julianDay firstDay) / 146097), x.month, x.day⟩,
    valid_shift hx _, ?_⟩
  rw [julianDay_shift, hnumber]
  omega

/-- The formulas of `getYearMonthDay` over the integers. -/
def civilOf (n : Int) : CivilDate :=
  let a := n + 32044
  let b := (4 * a + 3) / 146097
  let c := a - b * 146097 / 4
  let d := (4 * c + 3) / 1461
  civil (b * 100 + d) (c - 1461 * d / 4)

theorem civilOf_julianDay {x : CivilDate} (h : x.Valid) : civilOf (julianDay x) = x := by
  have hlocals : Locals (julianDay x) _ _ _ _ _ _ := ⟨rfl, rfl, rfl, rfl, rfl, rfl⟩
  obtain ⟨hyear, hday⟩ := (onDay_of_valid h).unique hlocals.onDay
  rw [civilOf, ← hyear, ← hday, civil_of_valid h]

theorem civilOf_spec (n : Int) : (civilOf n).Valid ∧ julianDay (civilOf n) = n := by
  obtain ⟨x, hx, rfl⟩ := exists_civil n
  rw [civilOf_julianDay hx]
  exact ⟨hx, rfl⟩

theorem daysFrom_iff_julianDay {x y : CivilDate} (hx : x.Valid) (hy : y.Valid) {n : Int} :
    x.DaysFrom n y ↔ julianDay y = julianDay x + n :=
  CivilDate.daysFrom_iff (fun _ _ => julianDay_injective) (fun _ => julianDay_next) hx hy

/-! ## Broken-down times -/

/-- `struct tm`. -/
structure Tm where
  tm_sec : Int
  tm_min : Int
  tm_hour : Int
  tm_mday : Int
  tm_mon : Int
  tm_year : Int
  tm_wday : Int
  tm_yday : Int
  tm_isdst : Int
  tm_gmtoff : Int
  /-- the text that `tm_zone` points to -/
  tm_zone : List UInt8
  deriving DecidableEq, Repr

namespace Tm

/-- `bzero(&tm, sizeof(tm))`. -/
def zero : Tm := ⟨0, 0, 0, 0, 0, 0, 0, 0, 0, 0, []⟩

/-- The date in the calendar. -/
def date (tm : Tm) : CivilDate := ⟨tm.tm_year + 1900, tm.tm_mon + 1, tm.tm_mday⟩

/-- The hour, minute and second are those of some time of the day. -/
structure ValidTime (tm : Tm) : Prop where
  sec : 0 ≤ tm.tm_sec ∧ tm.tm_sec ≤ 59
  min : 0 ≤ tm.tm_min ∧ tm.tm_min ≤ 59
  hour : 0 ≤ tm.tm_hour ∧ tm.tm_hour ≤ 23

/-- The second of the day. -/
def secondOfDay (tm : Tm) : Int := tm.tm_hour * 3600 + tm.tm_min * 60 + tm.tm_sec

end Tm

/-- The first of January 1970. -/
def epochDay : CivilDate := ⟨1970, 1, 1⟩

/-- `tm` is the broken-down UTC time of `t`, in the Gregorian calendar. -/
structure IsUtc (t : Int) (tm : Tm) : Prop where
  time : tm.ValidTime
  second : t % 86400 = tm.secondOfDay
  valid : tm.date.Valid
  day : epochDay.DaysFrom (t / 86400) tm.date
  wday : 0 ≤ tm.tm_wday ∧ tm.tm_wday ≤ 6
  /-- the first of January 1970 was a Thursday -/
  weekday : tm.tm_wday = (t / 86400 + 4) % 7
  /-- the days since the first of January of the year -/
  yday : 0 ≤ tm.tm_yday ∧ CivilDate.DaysFrom ⟨tm.date.year, 1, 1⟩ tm.tm_yday tm.date

/-- `gmtime_r`. -/
def gmtime (t : Int) : Tm where
  tm_sec := t % 60
  tm_min := t / 60 % 60
  tm_hour := t / 3600 % 24
  tm_mday := (civilOf (t / 86400 + julianDay epochDay)).day
  tm_mon := (civilOf (t / 86400 + julianDay epochDay)).month - 1
  tm_year := (civilOf (t / 86400 + julianDay epochDay)).year - 1900
  tm_wday := (t / 86400 + julianDay epochDay + 1) % 7
  tm_yday := t / 86400 + julianDay epochDay -
    julianDay ⟨(civilOf (t / 86400 + julianDay epochDay)).year, 1, 1⟩
  tm_isdst := 0
  tm_gmtoff := 0
  tm_zone := ascii "GMT"

/-- The date with the months beyond December, or before January, carried into the year. -/
def Tm.normalDate (tm : Tm) : CivilDate :=
  ⟨tm.tm_year + 1900 + tm.tm_mon / 12, tm.tm_mon % 12 + 1, tm.tm_mday⟩

/-- `timegm`; the days and the time of the day may be outside their ranges too. -/
def timegm (tm : Tm) : Int :=
  (julianDay tm.normalDate - julianDay epochDay) * 86400 + tm.secondOfDay

theorem timegm_of_month {tm : Tm} (hmonth : 1 ≤ tm.date.month ∧ tm.date.month ≤ 12) :
    timegm tm = (julianDay tm.date - julianDay epochDay) * 86400 + tm.secondOfDay := by
  have hdate : tm.normalDate = tm.date := by
    simp only [Tm.date] at hmonth
    simp only [Tm.normalDate, Tm.date, CivilDate.mk.injEq, and_true]
    omega
  rw [timegm, hdate]

theorem gmtime_date (t : Int) :
    (gmtime t).date = civilOf (t / 86400 + julianDay epochDay) := by
  simp only [gmtime, Tm.date, Int.sub_add_cancel]

theorem january_valid (year : Int) : (CivilDate.mk year 1 1).Valid := by
  simp [CivilDate.Valid, CivilDate.daysInMonth]

/-- The first of January is the first day of its year. -/
theorem january_le {x : CivilDate} (h : x.Valid) : julianDay ⟨x.year, 1, 1⟩ ≤ julianDay x := by
  by_contra hlt
  have hbefore := (julianDay_lt_iff h (january_valid x.year)).mp (Int.not_le.mp hlt)
  obtain ⟨hmonth, hday, _⟩ := h
  simp only [CivilDate.lt] at hbefore
  omega

theorem gmtime_isUtc (t : Int) : IsUtc t (gmtime t) := by
  obtain ⟨hvalid, hnumber⟩ := civilOf_spec (t / 86400 + julianDay epochDay)
  have hdate := gmtime_date t
  have hepoch : julianDay epochDay = 2440588 := by decide
  refine ⟨⟨?_, ?_, ?_⟩, ?_, hdate ▸ hvalid, ?_, ?_, ?_, ?_, ?_⟩
  · simp only [gmtime]
    omega
  · simp only [gmtime]
    omega
  · simp only [gmtime]
    omega
  · simp only [gmtime, Tm.secondOfDay]
    omega
  · rw [hdate, daysFrom_iff_julianDay (by decide) hvalid, hnumber, Int.add_comm]
  · simp only [gmtime]
    omega
  · simp only [gmtime, hepoch]
    omega
  · have hfirst := january_le hvalid
    rw [hnumber] at hfirst
    simp only [gmtime]
    omega
  · rw [hdate, daysFrom_iff_julianDay (january_valid _) hvalid, hnumber]
    simp only [gmtime]
    omega

theorem timegm_gmtime (t : Int) : timegm (gmtime t) = t := by
  have hutc := gmtime_isUtc t
  rw [timegm_of_month hutc.valid.1, gmtime_date, (civilOf_spec _).2, ← hutc.second]
  omega

/-- A valid broken-down time is that of the second it denotes. -/
theorem gmtime_timegm {tm : Tm} (hdate : tm.date.Valid) (htime : tm.ValidTime) :
    (gmtime (timegm tm)).date = tm.date ∧ (gmtime (timegm tm)).tm_hour = tm.tm_hour ∧
      (gmtime (timegm tm)).tm_min = tm.tm_min ∧ (gmtime (timegm tm)).tm_sec = tm.tm_sec := by
  obtain ⟨hsec, hmin, hhour⟩ := htime
  rw [timegm_of_month hdate.1, Tm.secondOfDay]
  refine ⟨?_, ?_, ?_, ?_⟩
  · have hday : ((julianDay tm.date - julianDay epochDay) * 86400 +
        (tm.tm_hour * 3600 + tm.tm_min * 60 + tm.tm_sec)) / 86400 =
          julianDay tm.date - julianDay epochDay := by
      omega
    rw [gmtime_date, hday, Int.sub_add_cancel, civilOf_julianDay hdate]
  · simp only [gmtime]
    omega
  · simp only [gmtime]
    omega
  · simp only [gmtime]
    omega

theorem julianDay_epochDay : julianDay epochDay = 2440588 := by decide

theorem gmtime_julianDay (t : Int) : julianDay (gmtime t).date = t / 86400 + 2440588 := by
  rw [gmtime_date, (civilOf_spec _).2, julianDay_epochDay]

theorem gmtime_year_ge {t : Int} (h : 0 ≤ t) : 1970 ≤ (gmtime t).date.year := by
  have hutc := gmtime_isUtc t
  have hnumber := gmtime_julianDay t
  have hlast : julianDay ⟨1969, 12, 31⟩ = 2440587 := by decide
  have hafter : CivilDate.lt ⟨1969, 12, 31⟩ (gmtime t).date :=
    (julianDay_lt_iff (by decide) hutc.valid).mp (by omega)
  obtain ⟨hmonth, hday, hdays⟩ := hutc.valid
  have hmonths := daysInMonth_le (gmtime t).date.year (gmtime t).date.month
  simp only [CivilDate.lt] at hafter
  omega

/-- The first second of the year 10000. -/
theorem gmtime_year_le {t : Int} (h : t < 253402300800) : (gmtime t).date.year ≤ 9999 := by
  have hutc := gmtime_isUtc t
  have hnumber := gmtime_julianDay t
  have hnext : julianDay ⟨10000, 1, 1⟩ = 5373485 := by decide
  have hbefore : (gmtime t).date.lt ⟨10000, 1, 1⟩ :=
    (julianDay_lt_iff hutc.valid (by decide)).mp (by omega)
  obtain ⟨hmonth, hday, -⟩ := hutc.valid
  simp only [CivilDate.lt] at hbefore
  omega

/-! ## `TimeZone::toUtcTime` and `TimeZone::fromUtcTime` -/

/-- `detail::kSecondsPerDay`. -/
def kSecondsPerDay : Int := 24 * 60 * 60

/-- `Date::kJulianDayOf1970_01_01`. -/
def kJulianDayOf1970_01_01 : Option Int := getJulianDayNumber 1970 1 1

/-- `detail::FillHMS(seconds, utc)`. -/
def fillHMS (seconds : Nat) (utc : Tm) : Tm :=
  let minutes := seconds / 60
  { utc with
    tm_sec := (seconds % 60 : Nat)
    tm_min := (minutes % 60 : Nat)
    tm_hour := (minutes / 60 : Nat) }

/-- The locals `seconds` and `days` of `toUtcTime`. -/
def secondsAndDays (secondsSinceEpoch : Int) : Option (Int × Int) :=
  let seconds := CInt.wrap (secondsSinceEpoch.tmod kSecondsPerDay)
  let days := CInt.wrap (secondsSinceEpoch.tdiv kSecondsPerDay)
  if seconds < 0 then do
    some (← CInt.add seconds kSecondsPerDay, ← CInt.sub days 1)
  else some (seconds, days)

/-- `toUtcTime`; it has no result where an `int` would overflow. -/
def toUtcTime (secondsSinceEpoch : Int) (yday : Bool) : Option Tm := do
  let utc := { Tm.zero with tm_zone := ascii "GMT" }
  let (seconds, days) ← secondsAndDays secondsSinceEpoch
  let utc := fillHMS (seconds % 4294967296).toNat utc
  let date : Date := ⟨← CInt.add days (← kJulianDayOf1970_01_01)⟩
  let ymd ← date.yearMonthDay
  let utc := { utc with
    tm_year := ← CInt.sub ymd.year 1900
    tm_mon := ← CInt.sub ymd.month 1
    tm_mday := ymd.day
    tm_wday := ← date.weekDay }
  if yday then
    let startOfYear ← Date.new ymd.year 1 1
    some { utc with tm_yday := ← CInt.sub date.julianDayNumber startOfYear.julianDayNumber }
  else some utc

/-- `fromUtcTime(year, month, day, hour, minute, seconds)`; the last line computes with `time_t`. -/
def fromUtcDateTime (year month day hour minute seconds : Int) : Option Int := do
  let date ← Date.new year month day
  let secondsInDay ←
    CInt.add (← CInt.add (← CInt.mul hour 3600) (← CInt.mul minute 60)) seconds
  let days ← CInt.sub date.julianDayNumber (← kJulianDayOf1970_01_01)
  some (days * kSecondsPerDay + secondsInDay)

/-- `fromUtcTime(utc)`. -/
def fromUtcTime (utc : Tm) : Option Int := do
  fromUtcDateTime (← CInt.add utc.tm_year 1900) (← CInt.add utc.tm_mon 1) utc.tm_mday utc.tm_hour
    utc.tm_min utc.tm_sec

theorem kJulianDayOf1970_01_01_eq : kJulianDayOf1970_01_01 = some (julianDay epochDay) := by
  decide

/-- The second of the day and the day, with the borrow for times before 1970. -/
theorem secondsAndDays_eq {t : Int} (hlo : -2440588 ≤ t / 86400) (hhi : t / 86400 ≤ 400000000) :
    secondsAndDays t = some (t % 86400, t / 86400) := by
  simp only [secondsAndDays]
  have hk : (0 : Int) < kSecondsPerDay := by decide
  obtain ⟨hneg, hpos⟩ := CInt.div_mod_of_borrow t hk
  have hday : t / kSecondsPerDay = t / 86400 := rfl
  have hsecond : t % kSecondsPerDay = t % 86400 := rfl
  rw [hday, hsecond] at hneg hpos
  have hrange : 0 ≤ t % 86400 ∧ t % 86400 < 86400 := by omega
  by_cases hsign : t.tmod kSecondsPerDay < 0
  · obtain ⟨hmod, hdiv⟩ := hneg hsign
    have hkval : kSecondsPerDay = 86400 := rfl
    rw [CInt.wrap_of (by omega) (by omega), CInt.wrap_of (by omega) (by omega), if_pos hsign]
    rw [CInt.add_of (by omega) (by omega), CInt.sub_of (by omega) (by omega), hmod, hdiv]
    rfl
  · obtain ⟨hmod, hdiv⟩ := hpos hsign
    rw [CInt.wrap_of (by omega) (by omega), CInt.wrap_of (by omega) (by omega), if_neg hsign,
      hmod, hdiv]

theorem fillHMS_eq {t : Int} (utc : Tm) :
    fillHMS (t % 86400 % 4294967296).toNat utc =
      { utc with tm_sec := t % 60, tm_min := t / 60 % 60, tm_hour := t / 3600 % 24 } := by
  have hrange : 0 ≤ t % 86400 ∧ t % 86400 < 86400 := by omega
  simp only [fillHMS, Tm.mk.injEq, and_true]
  omega

/-- The years before 4800 BC have negative day numbers. -/
theorem year_of_nonneg {x : CivilDate} (h : x.Valid) (hpos : 0 ≤ julianDay x) :
    -4799 ≤ x.year := by
  by_contra hlt
  have hbefore : x.lt firstDay := by
    simp only [CivilDate.lt, firstDay]
    omega
  have hnumber := (julianDay_lt_iff h (by decide)).mpr hbefore
  have hfirst : julianDay firstDay = -31738 := by decide
  omega

/-- In its range `toUtcTime` is `gmtime`; without `yday` it leaves `tm_yday` zero. -/
theorem toUtcTime_eq_gmtime {t : Int} {x : CivilDate} (hx : x.Valid)
    (hday : julianDay x = t / 86400 + julianDay epochDay) (hpos : 0 ≤ julianDay x)
    (hyear : x.year ≤ 1000000) (yday : Bool) :
    toUtcTime t yday =
      some { gmtime t with tm_yday := if yday then (gmtime t).tm_yday else 0 } := by
  have hlo := year_of_nonneg hx hpos
  obtain ⟨_, hhi⟩ := julianDay_bounds hx hlo hyear
  have hepoch := julianDay_epochDay
  have hcivil : civilOf (julianDay x) = x := civilOf_julianDay hx
  have hjanuary := january_le hx
  have hnew : Date.new x.year 1 1 = some ⟨julianDay ⟨x.year, 1, 1⟩⟩ :=
    @Date.new_eq ⟨x.year, 1, 1⟩ (january_valid x.year) hlo (Int.le_trans hyear (by decide))
  obtain ⟨hfirst, _⟩ := julianDay_bounds (january_valid x.year) hlo hyear
  obtain ⟨hmonth, hdays, hlast⟩ := hx
  have hadd : CInt.add (t / 86400) (julianDay epochDay) = some (julianDay x) := by
    rw [CInt.add_of (by omega) (by omega), hday]
  have hymd : Date.yearMonthDay ⟨julianDay x⟩ = some x :=
    getYearMonthDay_julianDay ⟨hmonth, hdays, hlast⟩ hlo hyear
  have hweek : Date.weekDay ⟨julianDay x⟩ = some ((julianDay x + 1) % 7) :=
    Date.weekDay_eq hpos (Int.le_trans hhi (by decide))
  have h1900 : CInt.sub x.year 1900 = some (x.year - 1900) := CInt.sub_of (by omega) (by omega)
  have hmon : CInt.sub x.month 1 = some (x.month - 1) := CInt.sub_of (by omega) (by omega)
  have hsub : CInt.sub (julianDay x) (julianDay ⟨x.year, 1, 1⟩) =
      some (julianDay x - julianDay ⟨x.year, 1, 1⟩) := CInt.sub_of (by omega) (by omega)
  have hborrow := @secondsAndDays_eq t (by omega) (by omega)
  cases yday with
  | true =>
      simp only [toUtcTime, Option.bind_eq_bind, hborrow, Option.bind_some, fillHMS_eq,
        kJulianDayOf1970_01_01_eq, hadd, hymd, h1900, hmon, hweek, hnew, Date.julianDayNumber, hsub,
        if_true, gmtime, hcivil, ← hday]
      rfl
  | false =>
      simp only [toUtcTime, Option.bind_eq_bind, hborrow, Option.bind_some, fillHMS_eq,
        kJulianDayOf1970_01_01_eq, hadd, hymd, h1900, hmon, hweek, gmtime, hcivil, ← hday]
      rfl

/-- In its range `fromUtcTime` is `timegm`. -/
theorem fromUtcTime_eq_timegm {tm : Tm} (hdate : tm.date.Valid) (htime : tm.ValidTime)
    (hpos : 0 ≤ julianDay tm.date) (hyear : tm.date.year ≤ 1000000) :
    fromUtcTime tm = some (timegm tm) := by
  have hlo := year_of_nonneg hdate hpos
  obtain ⟨_, hhi⟩ := julianDay_bounds hdate hlo hyear
  have hepoch := julianDay_epochDay
  have hnew : Date.new (tm.tm_year + 1900) (tm.tm_mon + 1) tm.tm_mday = some ⟨julianDay tm.date⟩ :=
    @Date.new_eq tm.date hdate hlo (Int.le_trans hyear (by decide))
  obtain ⟨hmonth, _⟩ := hdate
  rw [timegm_of_month hmonth]
  obtain ⟨hsec, hmin, hhour⟩ := htime
  simp only [Tm.date] at hlo hyear hmonth
  have h1900 : CInt.add tm.tm_year 1900 = some (tm.tm_year + 1900) :=
    CInt.add_of (by omega) (by omega)
  have hmon : CInt.add tm.tm_mon 1 = some (tm.tm_mon + 1) := CInt.add_of (by omega) (by omega)
  have h3600 : CInt.mul tm.tm_hour 3600 = some (tm.tm_hour * 3600) :=
    CInt.mul_of (by omega) (by omega)
  have h60 : CInt.mul tm.tm_min 60 = some (tm.tm_min * 60) := CInt.mul_of (by omega) (by omega)
  have hadd : CInt.add (tm.tm_hour * 3600) (tm.tm_min * 60) =
      some (tm.tm_hour * 3600 + tm.tm_min * 60) := CInt.add_of (by omega) (by omega)
  have hsum : CInt.add (tm.tm_hour * 3600 + tm.tm_min * 60) tm.tm_sec =
      some (tm.tm_hour * 3600 + tm.tm_min * 60 + tm.tm_sec) := CInt.add_of (by omega) (by omega)
  have hsub : CInt.sub (julianDay tm.date) (julianDay epochDay) =
      some (julianDay tm.date - julianDay epochDay) := CInt.sub_of (by omega) (by omega)
  simp only [fromUtcTime, fromUtcDateTime, Option.bind_eq_bind, Option.bind_some, h1900, hmon, hnew,
    h3600, h60, hadd, hsum, kJulianDayOf1970_01_01_eq, Date.julianDayNumber, hsub]
  rfl

/-- The UTC conversions are inverse to each other.  Every time has its day; if the Julian day
number of that day is not negative and its year at most 1000000, `toUtcTime` gives the
broken-down time, and `fromUtcTime` of it the time again.  A valid broken-down time in that
range comes back from the second it denotes. -/
theorem utc_conversions_inverse :
    (∀ t : Int, ∃ x : CivilDate, x.Valid ∧ epochDay.DaysFrom (t / 86400) x ∧
      (0 ≤ julianDay x → x.year ≤ 1000000 →
        ∃ tm, toUtcTime t true = some tm ∧ IsUtc t tm ∧ tm.date = x ∧
          fromUtcTime tm = some t)) ∧
    (∀ tm : Tm, tm.date.Valid → tm.ValidTime → 0 ≤ julianDay tm.date → tm.date.year ≤ 1000000 →
      ∃ t, fromUtcTime tm = some t ∧ ∀ yday, ∃ tm', toUtcTime t yday = some tm' ∧
        tm'.date = tm.date ∧ tm'.tm_hour = tm.tm_hour ∧ tm'.tm_min = tm.tm_min ∧
        tm'.tm_sec = tm.tm_sec) := by
  constructor
  · intro t
    have hutc := gmtime_isUtc t
    refine ⟨(gmtime t).date, hutc.valid, hutc.day, ?_⟩
    intro hpos hyear
    have hday : julianDay (gmtime t).date = t / 86400 + julianDay epochDay := by
      rw [gmtime_date]
      exact (civilOf_spec _).2
    refine ⟨gmtime t, ?_, hutc, rfl, ?_⟩
    · rw [toUtcTime_eq_gmtime hutc.valid hday hpos hyear true, if_pos rfl]
    · rw [fromUtcTime_eq_timegm hutc.valid hutc.time hpos hyear, timegm_gmtime]
  · intro tm hdate htime hpos hyear
    refine ⟨timegm tm, fromUtcTime_eq_timegm hdate htime hpos hyear, ?_⟩
    intro yday
    have hday : julianDay tm.date = timegm tm / 86400 + julianDay epochDay := by
      rw [← (gmtime_timegm hdate htime).1, gmtime_date]
      exact (civilOf_spec _).2
    exact ⟨_, toUtcTime_eq_gmtime hdate hday hpos hyear yday, gmtime_timegm hdate htime⟩

/-- The last second of 1969, a Wednesday. -/
def lastSecond : Tm := ⟨59, 59, 23, 31, 11, 69, 3, 364, 0, 0, ascii "GMT"⟩

theorem utc_conversions_inverse_lastSecond :
    fromUtcTime lastSecond = some (-1) ∧ toUtcTime (-1) true = some lastSecond ∧
    ∃ t, fromUtcTime lastSecond = some t ∧ ∀ yday, ∃ tm', toUtcTime t yday = some tm' ∧
      tm'.date = lastSecond.date ∧ tm'.tm_hour = 23 ∧ tm'.tm_min = 59 ∧ tm'.tm_sec = 59 :=
  ⟨by decide, by decide, utc_conversions_inverse.2 lastSecond (by decide)
    ⟨by decide, by decide, by decide⟩ (by decide) (by decide)⟩

end Muduo.Base
