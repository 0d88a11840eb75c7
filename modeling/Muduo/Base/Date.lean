/-
  Base/Date.lean --- `class Date` (src/muduo/base/Date.h, Date.cc): days by their Julian day
  number.

  The two conversions are chains of truncating divisions on `int`s; every operation is one
  of `CInt`, so that a result is also the statement that nothing has overflowed.
  `julianDay` and `civil` are the same formulas over the integers.

  Both formulas count years from March, so that a leap day is the last day of its year: the
  years come in groups of 400, 100, 4 and 1, and `marchDay` is the day of such a year.
-/
import Muduo.Foundation.CInt
import Muduo.Foundation.Calendar

set_option autoImplicit false

namespace Muduo.Base

open Muduo.Foundation

/-! ## The code -/

/-- `struct Date::YearMonthDay`. -/
abbrev YearMonthDay := CivilDate

/-- `detail::getJulianDayNumber(year, month, day)`; `none` where an `int` overflows. -/
def getJulianDayNumber (year month day : Int) : Option Int := do
  let a ← CInt.div (← CInt.sub 14 month) 12
  let y ← CInt.sub (← CInt.add year 4800) a
  let m ← CInt.sub (← CInt.add month (← CInt.mul 12 a)) 3
  let sum ← CInt.add day (← CInt.div (← CInt.add (← CInt.mul 153 m) 2) 5)
  let sum ← CInt.add sum (← CInt.mul y 365)
  let sum ← CInt.add sum (← CInt.div y 4)
  let sum ← CInt.sub sum (← CInt.div y 100)
  let sum ← CInt.add sum (← CInt.div y 400)
  CInt.sub sum 32045

/-- `detail::getYearMonthDay(julianDayNumber)`. -/
def getYearMonthDay (julianDayNumber : Int) : Option YearMonthDay := do
  let a ← CInt.add julianDayNumber 32044
  let b ← CInt.div (← CInt.add (← CInt.mul 4 a) 3) 146097
  let c ← CInt.sub a (← CInt.div (← CInt.mul b 146097) 4)
  let d ← CInt.div (← CInt.add (← CInt.mul 4 c) 3) 1461
  let e ← CInt.sub c (← CInt.div (← CInt.mul 1461 d) 4)
  let m ← CInt.div (← CInt.add (← CInt.mul 5 e) 2) 153
  let day ← CInt.add (← CInt.sub e (← CInt.div (← CInt.add (← CInt.mul 153 m) 2) 5)) 1
  let month ← CInt.sub (← CInt.add m 3) (← CInt.mul 12 (← CInt.div m 10))
  let year ← CInt.add (← CInt.sub (← CInt.add (← CInt.mul b 100) d) 4800) (← CInt.div m 10)
  some ⟨year, month, day⟩

/-- `class Date`. -/
structure Date where
  julianDayNumber_ : Int
  deriving DecidableEq, Repr

namespace Date

/-- `Date::kDaysPerWeek`. -/
def kDaysPerWeek : Int := 7

/-- `Date(year, month, day)`. -/
def new (year month day : Int) : Option Date := do some ⟨← getJulianDayNumber year month day⟩

/-- `julianDayNumber()`. -/
def julianDayNumber (x : Date) : Int := x.julianDayNumber_

/-- `yearMonthDay()`. -/
def yearMonthDay (x : Date) : Option YearMonthDay := getYearMonthDay x.julianDayNumber_

/-- `weekDay()`. -/
def weekDay (x : Date) : Option Int := do CInt.mod (← CInt.add x.julianDayNumber_ 1) kDaysPerWeek

/-- `operator<`. -/
def lt (x y : Date) : Bool := decide (x.julianDayNumber < y.julianDayNumber)

end Date

/-! ## Years that begin in March -/

/-- January and February belong to the year before. -/
def yearShift (month : Int) : Int := (14 - month) / 12

/-- The month counted from March, which is 0. -/
def monthFromMarch (month : Int) : Int := month + 12 * yearShift month - 3

/-- The days of the year before the month. -/
def monthStart (month : Int) : Int := (153 * monthFromMarch month + 2) / 5

/-- The year that begins in March, counted from the year -4800. -/
def marchYear (x : CivilDate) : Int := x.year + 4800 - yearShift x.month

/-- The day of that year, counted from 0. -/
def marchDay (x : CivilDate) : Int := monthStart x.month + x.day - 1

/-- The days of the years before year `y`. -/
def daysBefore (y : Int) : Int := 365 * y + y / 4 - y / 100 + y / 400

/-- The year ends with the February of the next civil year. -/
def daysInYear (y : Int) : Int := if CivilDate.IsLeap (y + 1) then 366 else 365

/-- The Julian day of a date, in unbounded integers. -/
def julianDay (x : CivilDate) : Int := daysBefore (marchYear x) + marchDay x - 32044

/-- The date of a day of a year. -/
def civil (y e : Int) : CivilDate :=
  let m := (5 * e + 2) / 153
  ⟨y - 4800 + m / 10, m + 3 - 12 * (m / 10), e - (153 * m + 2) / 5 + 1⟩

theorem yearShift_of_le {month : Int} (h : 1 ≤ month) (h' : month ≤ 2) : yearShift month = 1 := by
  unfold yearShift
  omega

theorem yearShift_of_lt {month : Int} (h : 2 < month) (h' : month ≤ 12) : yearShift month = 0 := by
  unfold yearShift
  omega

theorem daysBefore_succ (y : Int) : daysBefore (y + 1) = daysBefore y + daysInYear y := by
  unfold daysBefore daysInYear
  by_cases h : CivilDate.IsLeap (y + 1)
  · rw [if_pos h]
    unfold CivilDate.IsLeap at h
    omega
  · rw [if_neg h]
    unfold CivilDate.IsLeap at h
    omega

theorem daysBefore_mono {y y' : Int} (h : y ≤ y') : daysBefore y ≤ daysBefore y' := by
  unfold daysBefore
  omega

theorem monthStart_succ (year : Int) {month : Int} (h : 1 ≤ month ∧ month < 12) (hfeb : month ≠ 2) :
    monthStart (month + 1) = monthStart month + CivilDate.daysInMonth year month := by
  rw [CivilDate.daysInMonth, if_neg hfeb]
  have hmonth : month = 1 ∨ month = 3 ∨ month = 4 ∨ month = 5 ∨ month = 6 ∨ month = 7 ∨
      month = 8 ∨ month = 9 ∨ month = 10 ∨ month = 11 := by omega
  rcases hmonth with rfl | rfl | rfl | rfl | rfl | rfl | rfl | rfl | rfl | rfl <;> decide

/-- The last of February is the last day of the year. -/
theorem monthStart_feb (year : Int) :
    monthStart 2 + CivilDate.daysInMonth year 2 = daysInYear (year + 4799) := by
  have hstart : monthStart 2 = 337 := by decide
  have hleap : CivilDate.IsLeap (year + 4799 + 1) ↔ CivilDate.IsLeap year := by
    unfold CivilDate.IsLeap
    omega
  rw [hstart, CivilDate.daysInMonth, if_pos rfl, daysInYear]
  simp only [hleap]
  split <;> rfl

theorem daysInMonth_december (year : Int) : CivilDate.daysInMonth year 12 = 31 := by
  rw [CivilDate.daysInMonth, if_neg (by decide), if_neg (by decide)]

theorem julianDay_next {x : CivilDate} (h : x.Valid) : julianDay x.next = julianDay x + 1 := by
  obtain ⟨_, hnext⟩ | ⟨hday, hend, hnext⟩ | ⟨hday, hend, hnext⟩ := CivilDate.next_cases h
  · rw [hnext]
    simp only [julianDay, marchYear, marchDay]
    omega
  · have hmonth := h.1
    by_cases hfeb : x.month = 2
    · -- from the last day of February to the first day of the next year
      have hlast := monthStart_feb x.year
      have hyear := daysBefore_succ (x.year + 4799)
      rw [← hfeb, ← hday] at hlast
      have hshift : yearShift (x.month + 1) = 0 := yearShift_of_lt (by omega) (by omega)
      have hnew : marchYear x.next = x.year + 4799 + 1 := by
        simp only [marchYear, hnext, hshift]
        omega
      have hold : marchYear x = x.year + 4799 := by
        rw [marchYear, yearShift_of_le (by omega) (by omega)]
        omega
      have hmarch : marchDay x.next = 0 := by
        simp only [marchDay, hnext, hfeb]
        decide
      rw [julianDay, julianDay, hnew, hold, hmarch, hyear, ← hlast, marchDay]
      omega
    · have hstart := monthStart_succ x.year ⟨hmonth.1, hend⟩ hfeb
      have hshift : yearShift (x.month + 1) = yearShift x.month := by
        unfold yearShift
        omega
      rw [hnext]
      simp only [julianDay, marchYear, marchDay, hshift, hstart, ← hday]
      omega
  · have hshift : yearShift 1 = 1 := by decide
    have hshift' : yearShift 12 = 0 := by decide
    have hstart : monthStart 1 = monthStart 12 + 31 := by decide
    have hyear : x.year + 1 + 4800 - 1 = x.year + 4800 - 0 := by omega
    rw [hend, daysInMonth_december] at hday
    rw [hnext]
    simp only [julianDay, marchYear, marchDay, hshift, hshift', hstart, hend, hday, hyear]
    omega

/-! ## The day of a number -/

/-- Day number `n` is day `e` of year `y`. -/
structure OnDay (n y e : Int) : Prop where
  count : n + 32044 = daysBefore y + e
  nonneg : 0 ≤ e
  lt : e < daysInYear y

theorem OnDay.year_le {n y e y' e' : Int} (h : OnDay n y e) (h' : OnDay n y' e') : y ≤ y' := by
  by_contra hlt
  have hmono : daysBefore (y' + 1) ≤ daysBefore y := daysBefore_mono (by omega)
  have hyear := daysBefore_succ y'
  have hcount := h.count
  have hcount' := h'.count
  have hnonneg := h.nonneg
  have hend := h'.lt
  omega

theorem OnDay.unique {n y e y' e' : Int} (h : OnDay n y e) (h' : OnDay n y' e') :
    y = y' ∧ e = e' := by
  have hyear : y = y' := Int.le_antisymm (h.year_le h') (h'.year_le h)
  subst hyear
  have hcount := h.count
  have hcount' := h'.count
  exact ⟨rfl, by omega⟩

theorem daysInMonth_le (year month : Int) :
    CivilDate.daysInMonth year month ≤ 31 ∧ (month = 2 → CivilDate.daysInMonth year month ≤ 29) ∧
      (month = 4 ∨ month = 6 ∨ month = 9 ∨ month = 11 → CivilDate.daysInMonth year month ≤ 30) := by
  unfold CivilDate.daysInMonth
  split_ifs <;> omega

/-- The division by 153 finds the month of a day. -/
theorem month_of_marchDay {x : CivilDate} (h : x.Valid) :
    (5 * marchDay x + 2) / 153 = monthFromMarch x.month := by
  obtain ⟨hmonth, hday, hlast⟩ := h
  obtain ⟨hlong, hfeb, hshort⟩ := daysInMonth_le x.year x.month
  unfold marchDay monthStart monthFromMarch yearShift
  have hcases : x.month = 1 ∨ x.month = 2 ∨ x.month = 3 ∨ x.month = 4 ∨ x.month = 5 ∨
      x.month = 6 ∨ x.month = 7 ∨ x.month = 8 ∨ x.month = 9 ∨ x.month = 10 ∨ x.month = 11 ∨
      x.month = 12 := by omega
  rcases hcases with hm | hm | hm | hm | hm | hm | hm | hm | hm | hm | hm | hm <;>
    · rw [hm]
      omega

theorem civil_of_valid {x : CivilDate} (h : x.Valid) : civil (marchYear x) (marchDay x) = x := by
  have hshift : monthFromMarch x.month / 10 = yearShift x.month := by
    have hmonth := h.1
    unfold monthFromMarch yearShift
    omega
  obtain ⟨year, month, day⟩ := x
  simp only [civil, month_of_marchDay h, hshift, CivilDate.mk.injEq]
  simp only [marchYear, marchDay, monthStart, monthFromMarch]
  omega

theorem onDay_of_valid {x : CivilDate} (h : x.Valid) :
    OnDay (julianDay x) (marchYear x) (marchDay x) := by
  obtain ⟨hmonth, hday, hlast⟩ := h
  have hstart : 0 ≤ monthStart x.month := by
    unfold monthStart monthFromMarch yearShift
    omega
  refine ⟨by unfold julianDay; omega, by unfold marchDay; omega, ?_⟩
  by_cases hfeb : x.month = 2
  · have hend := monthStart_feb x.year
    have hyear : marchYear x = x.year + 4799 := by
      rw [marchYear, yearShift_of_le (by omega) (by omega)]
      omega
    rw [hyear, ← hend, marchDay]
    rw [hfeb] at hlast ⊢
    omega
  · have hdays := (daysInMonth_le x.year x.month).1
    have hbefore : monthStart x.month ≤ 306 := by
      unfold monthStart monthFromMarch yearShift
      omega
    have hyear : 365 ≤ daysInYear (marchYear x) := by
      unfold daysInYear
      split <;> decide
    rw [marchDay]
    omega

/-! ## The conversions -/

/-- The sum of `getJulianDayNumber`, from its year and month. -/
theorem julianDay_sum {day m y : Int} (hday : 1 ≤ day) (hday' : day ≤ 31) (hm : 0 ≤ m ∧ m ≤ 11)
    (hy : 0 ≤ y ∧ y ≤ 1004801) :
    (do
      let sum ← CInt.add day (← CInt.div (← CInt.add (← CInt.mul 153 m) 2) 5)
      let sum ← CInt.add sum (← CInt.mul y 365)
      let sum ← CInt.add sum (← CInt.div y 4)
      let sum ← CInt.sub sum (← CInt.div y 100)
      let sum ← CInt.add sum (← CInt.div y 400)
      CInt.sub sum 32045) =
      some (daysBefore y + ((153 * m + 2) / 5 + day - 1) - 32044) := by
  rw [CInt.mul_add_div_bind (by omega) (by omega) (by omega) (by omega)]
  have hstart : 0 ≤ (153 * m + 2) / 5 ∧ (153 * m + 2) / 5 ≤ 400 := by omega
  have h4 : 0 ≤ y / 4 ∧ y / 4 ≤ 1004801 := by omega
  have h100 : 0 ≤ y / 100 ∧ y / 100 ≤ 1004801 := by omega
  have h400 : 0 ≤ y / 400 ∧ y / 400 ≤ 1004801 := by omega
  have hdiv4 : CInt.div y 4 = some (y / 4) := CInt.div_of (by omega) (by omega) (by omega)
  have hdiv100 : CInt.div y 100 = some (y / 100) := CInt.div_of (by omega) (by omega) (by omega)
  have hdiv400 : CInt.div y 400 = some (y / 400) := CInt.div_of (by omega) (by omega) (by omega)
  have hmul : CInt.mul y 365 = some (y * 365) := CInt.mul_of (by omega) (by omega)
  unfold daysBefore
  revert hstart h4 h100 h400 hdiv4 hdiv100 hdiv400 hmul
  generalize (153 * m + 2) / 5 = start
  generalize y / 4 = y4
  generalize y / 100 = y100
  generalize y / 400 = y400
  intro hstart h4 h100 h400 hdiv4 hdiv100 hdiv400 hmul
  have hsum1 : CInt.add day start = some (day + start) := CInt.add_of (by omega) (by omega)
  have hsum2 : CInt.add (day + start) (y * 365) = some (day + start + y * 365) :=
    CInt.add_of (by omega) (by omega)
  have hsum3 : CInt.add (day + start + y * 365) y4 = some (day + start + y * 365 + y4) :=
    CInt.add_of (by omega) (by omega)
  have hsum4 : CInt.sub (day + start + y * 365 + y4) y100 =
      some (day + start + y * 365 + y4 - y100) := CInt.sub_of (by omega) (by omega)
  have hsum5 : CInt.add (day + start + y * 365 + y4 - y100) y400 =
      some (day + start + y * 365 + y4 - y100 + y400) := CInt.add_of (by omega) (by omega)
  have hsum6 : CInt.sub (day + start + y * 365 + y4 - y100 + y400) 32045 =
      some (day + start + y * 365 + y4 - y100 + y400 - 32045) := CInt.sub_of (by omega) (by omega)
  simp only [Option.bind_eq_bind, Option.bind_some, hdiv4, hdiv100, hdiv400, hmul, hsum1, hsum2,
    hsum3, hsum4, hsum5, hsum6]
  congr 1
  omega

theorem getJulianDayNumber_eq {x : CivilDate} (h : x.Valid) (hlo : -4799 ≤ x.year)
    (hhi : x.year ≤ 1000001) : getJulianDayNumber x.year x.month x.day = some (julianDay x) := by
  obtain ⟨hmonth, hday, hlast⟩ := h
  have hdays := (daysInMonth_le x.year x.month).1
  have hshift : 0 ≤ yearShift x.month ∧ yearShift x.month ≤ 1 := by
    unfold yearShift
    omega
  have hfrom : 0 ≤ monthFromMarch x.month ∧ monthFromMarch x.month ≤ 11 := by
    unfold monthFromMarch yearShift
    omega
  have hyear : 0 ≤ marchYear x ∧ marchYear x ≤ 1004801 := by
    unfold marchYear
    omega
  have h14 : CInt.sub 14 x.month = some (14 - x.month) := CInt.sub_of (by omega) (by omega)
  have ha : CInt.div (14 - x.month) 12 = some (yearShift x.month) :=
    CInt.div_of (by omega) (by omega) (by omega)
  have h4800 : CInt.add x.year 4800 = some (x.year + 4800) := CInt.add_of (by omega) (by omega)
  have hy : CInt.sub (x.year + 4800) (yearShift x.month) = some (marchYear x) :=
    CInt.sub_of (by omega) (by omega)
  have h12 : CInt.mul 12 (yearShift x.month) = some (12 * yearShift x.month) :=
    CInt.mul_of (by omega) (by omega)
  have hsum : CInt.add x.month (12 * yearShift x.month) = some (x.month + 12 * yearShift x.month) :=
    CInt.add_of (by omega) (by omega)
  have hm : CInt.sub (x.month + 12 * yearShift x.month) 3 = some (monthFromMarch x.month) :=
    CInt.sub_of (by omega) (by omega)
  rw [getJulianDayNumber, CInt.bind_of h14, CInt.bind_of ha, CInt.bind_of h4800, CInt.bind_of hy,
    CInt.bind_of h12, CInt.bind_of hsum, CInt.bind_of hm,
    julianDay_sum hday (by omega) hfrom hyear]
  rfl

theorem daysBefore_century (b d : Int) (hd : 0 ≤ d) (hd' : d < 100) :
    daysBefore (b * 100 + d) = b * 146097 / 4 + 1461 * d / 4 := by
  have h100 : (b * 100 + d) / 100 = b := by omega
  have h400 : (b * 100 + d) / 400 = b / 4 := by omega
  have h4 : (b * 100 + d) / 4 = 25 * b + d / 4 := by omega
  have hcentury : b * 146097 / 4 = 36524 * b + b / 4 := by omega
  have hyears : 1461 * d / 4 = 365 * d + d / 4 := by omega
  rw [daysBefore, h100, h400, h4, hcentury, hyears]
  omega

/-- The local variables of `getYearMonthDay`: `b` full centuries and `c` days, `d` full years
and `e` days, month `m` of the year. -/
structure Locals (n a b c d e m : Int) : Prop where
  ha : n + 32044 = a
  hb : (4 * a + 3) / 146097 = b
  hc : a - b * 146097 / 4 = c
  hd : (4 * c + 3) / 1461 = d
  he : c - 1461 * d / 4 = e
  hm : (5 * e + 2) / 153 = m

/-- What the local variables range over; the 29th of February comes only every fourth year, and
at the end of a century only every fourth time. -/
structure Ranges (a b c d e m : Int) : Prop where
  ha : 0 ≤ a ∧ a ≤ 500000000
  hb : 0 ≤ b ∧ b * 146097 ≤ 4 * a + 3
  hc : 0 ≤ c ∧ c ≤ 36524
  hd : 0 ≤ d ∧ d < 100
  he : 0 ≤ e ∧ e ≤ 365
  hm : 0 ≤ m ∧ m ≤ 11
  leap : e = 365 → d % 4 = 3 ∧ (d = 99 → b % 4 = 3)

/-- Full periods of `4 * k + 1` quarter days: their number `q` and the days `c` left over.  A
period has `k` days, and one more every fourth time. -/
theorem split_periods {x q k c : Int} (hk : 0 < k) (hq : (4 * x + 3) / (4 * k + 1) = q)
    (hc : x - q * (4 * k + 1) / 4 = c) :
    q * (4 * k + 1) ≤ 4 * x + 3 ∧ (0 ≤ c ∧ c ≤ k) ∧ (c = k → q % 4 = 3) := by
  have hle : q * (4 * k + 1) ≤ 4 * x + 3 := hq ▸ Int.ediv_mul_le _ (by omega)
  have hlt : 4 * x + 3 < (q + 1) * (4 * k + 1) := hq ▸ Int.lt_ediv_add_one_mul_self _ (by omega)
  have hdays : q * (4 * k + 1) = 4 * (q * k) + q := by
    rw [Int.mul_add, Int.mul_one, Int.mul_left_comm]
  rw [Int.add_mul, Int.one_mul] at hlt
  rw [hdays] at hle hlt hc ⊢
  omega

/-- What holds of the local variables whatever the number is. -/
theorem Locals.split {n a b c d e m : Int} (h : Locals n a b c d e m) :
    b * 146097 ≤ 4 * a + 3 ∧ (0 ≤ c ∧ c ≤ 36524) ∧ (0 ≤ d ∧ d < 100) ∧ (0 ≤ e ∧ e ≤ 365) ∧
      (e = 365 → d % 4 = 3 ∧ (d = 99 → b % 4 = 3)) := by
  obtain ⟨-, hb, hc, hd, he, -⟩ := h
  obtain ⟨hcenturies, hcrange, hcentury⟩ := @split_periods a b 36524 c (by decide) hb hc
  rw [Int.mul_comm] at he
  obtain ⟨_, herange, hyear⟩ := @split_periods c d 365 e (by decide) hd he
  have hd100 : 0 ≤ d ∧ d < 100 := by omega
  refine ⟨hcenturies, hcrange, hd100, herange, ?_⟩
  intro hlast
  refine ⟨hyear hlast, ?_⟩
  -- the last day of the last year is the last of the century
  intro h99
  exact hcentury (by omega)

theorem Locals.ranges {n a b c d e m : Int} (h : Locals n a b c d e m) (ha : 0 ≤ a)
    (ha' : a ≤ 500000000) : Ranges a b c d e m := by
  obtain ⟨hcenturies, hc, hd, he, hleap⟩ := h.split
  have hb0 : 0 ≤ b := h.hb ▸ Int.ediv_nonneg (by omega) (by omega)
  have hm := h.hm
  exact ⟨⟨ha, ha'⟩, ⟨hb0, hcenturies⟩, hc, hd, he, by omega, hleap⟩

theorem Locals.onDay {n a b c d e m : Int} (h : Locals n a b c d e m) :
    OnDay n (b * 100 + d) e := by
  obtain ⟨_, _, ⟨hd, hd'⟩, he, hleap⟩ := h.split
  refine ⟨?_, he.1, ?_⟩
  · rw [daysBefore_century b d hd hd', h.ha, ← h.he, ← h.hc]
    omega
  · unfold daysInYear
    by_cases hfeb : CivilDate.IsLeap (b * 100 + d + 1)
    · rw [if_pos hfeb]
      omega
    · rw [if_neg hfeb]
      unfold CivilDate.IsLeap at hfeb
      omega

/-- The date of `getYearMonthDay`, from its century, year, day and month. -/
theorem civil_run {b d e m : Int} (hb : 0 ≤ b ∧ b ≤ 20000) (hd : 0 ≤ d ∧ d < 100)
    (he : 0 ≤ e ∧ e ≤ 365) (hm : 0 ≤ m ∧ m ≤ 11) :
    (do
      let day ← CInt.add (← CInt.sub e (← CInt.div (← CInt.add (← CInt.mul 153 m) 2) 5)) 1
      let month ← CInt.sub (← CInt.add m 3) (← CInt.mul 12 (← CInt.div m 10))
      let year ← CInt.add (← CInt.sub (← CInt.add (← CInt.mul b 100) d) 4800) (← CInt.div m 10)
      some (⟨year, month, day⟩ : YearMonthDay)) =
      some ⟨b * 100 + d - 4800 + m / 10, m + 3 - 12 * (m / 10), e - (153 * m + 2) / 5 + 1⟩ := by
  have hstart : CInt.sub e ((153 * m + 2) / 5) = some (e - (153 * m + 2) / 5) :=
    CInt.sub_of (by omega) (by omega)
  have hday : CInt.add (e - (153 * m + 2) / 5) 1 = some (e - (153 * m + 2) / 5 + 1) :=
    CInt.add_of (by omega) (by omega)
  have hm3 : CInt.add m 3 = some (m + 3) := CInt.add_of (by omega) (by omega)
  have hm10 : CInt.div m 10 = some (m / 10) := CInt.div_of (by omega) (by omega) (by omega)
  have hm12 : CInt.mul 12 (m / 10) = some (12 * (m / 10)) := CInt.mul_of (by omega) (by omega)
  have hmonth : CInt.sub (m + 3) (12 * (m / 10)) = some (m + 3 - 12 * (m / 10)) :=
    CInt.sub_of (by omega) (by omega)
  have hb100 : CInt.mul b 100 = some (b * 100) := CInt.mul_of (by omega) (by omega)
  have hyears : CInt.add (b * 100) d = some (b * 100 + d) := CInt.add_of (by omega) (by omega)
  have h4800 : CInt.sub (b * 100 + d) 4800 = some (b * 100 + d - 4800) :=
    CInt.sub_of (by omega) (by omega)
  have hyear : CInt.add (b * 100 + d - 4800) (m / 10) = some (b * 100 + d - 4800 + m / 10) :=
    CInt.add_of (by omega) (by omega)
  rw [CInt.mul_add_div_bind (by omega) (by omega) (by omega) (by omega), CInt.bind_of hstart,
    CInt.bind_of hday, CInt.bind_of hm3, CInt.bind_of hm10, CInt.bind_of hm12, CInt.bind_of hmonth,
    CInt.bind_of hb100, CInt.bind_of hyears, CInt.bind_of h4800, CInt.bind_of hm10,
    CInt.bind_of hyear]

theorem Ranges.run {n a b c d e m : Int} (r : Ranges a b c d e m) (h : Locals n a b c d e m) :
    getYearMonthDay n = some (civil (b * 100 + d) e) := by
  obtain ⟨ha, hb, hc, hd, he, hm, -⟩ := r
  have hn : CInt.add n 32044 = some a := by
    have hsum := h.ha
    rw [CInt.add_of (by omega) (by omega), hsum]
  rw [getYearMonthDay, CInt.bind_of hn,
    CInt.mul_add_div_bind (by omega) (by omega) (by omega) (by omega), h.hb,
    CInt.mul_div_sub_bind (by omega) (by omega) (by omega) (by omega) (by omega), h.hc,
    CInt.mul_add_div_bind (by omega) (by omega) (by omega) (by omega), h.hd,
    CInt.mul_div_sub_bind (by omega) (by omega) (by omega) (by omega) (by omega), h.he,
    CInt.mul_add_div_bind (by omega) (by omega) (by omega) (by omega), h.hm,
    civil_run (by omega) hd he hm, civil, h.hm]

theorem getYearMonthDay_eq {n y e : Int} (h : OnDay n y e) (hlo : -32044 ≤ n)
    (hhi : n ≤ 400000000) : getYearMonthDay n = some (civil y e) := by
  have hlocals : Locals n _ _ _ _ _ _ := ⟨rfl, rfl, rfl, rfl, rfl, rfl⟩
  obtain ⟨rfl, rfl⟩ := h.unique hlocals.onDay
  exact (hlocals.ranges (by omega) (by omega)).run hlocals

/-! ## Dates and numbers -/

theorem julianDay_injective {x y : CivilDate} (hx : x.Valid) (hy : y.Valid)
    (h : julianDay x = julianDay y) : x = y := by
  have hday := onDay_of_valid hx
  rw [h] at hday
  obtain ⟨hyear, hday⟩ := hday.unique (onDay_of_valid hy)
  rw [← civil_of_valid hx, ← civil_of_valid hy, hyear, hday]

theorem julianDay_lt_iff {x y : CivilDate} (hx : x.Valid) (hy : y.Valid) :
    julianDay x < julianDay y ↔ x.lt y :=
  CivilDate.number_lt_iff (fun _ _ => julianDay_injective) (fun _ => julianDay_next) hx hy

/-- The first of the dates that the theorems below are about. -/
def firstDay : CivilDate := ⟨-4799, 1, 1⟩

/-- The last of them. -/
def lastDay : CivilDate := ⟨1000000, 12, 31⟩

/-- Every number from that of the first date on is the number of a date. -/
theorem exists_date (k : Nat) : ∃ x : CivilDate, x.Valid ∧
    julianDay x = julianDay firstDay + k := by
  induction k with
  | zero => exact ⟨firstDay, by decide, by simp⟩
  | succ k ih =>
      obtain ⟨x, hx, hnumber⟩ := ih
      refine ⟨x.next, CivilDate.next_valid hx, ?_⟩
      rw [julianDay_next hx, hnumber]
      omega

theorem year_of_julianDay {x : CivilDate} (h : x.Valid) (hlo : julianDay firstDay ≤ julianDay x)
    (hhi : julianDay x ≤ julianDay lastDay) : -4799 ≤ x.year ∧ x.year ≤ 1000000 := by
  have hfirst : ¬ x.lt firstDay := by
    intro hlt
    have := (julianDay_lt_iff h (by decide)).2 hlt
    omega
  have hlast : ¬ lastDay.lt x := by
    intro hlt
    have := (julianDay_lt_iff (by decide) h).2 hlt
    omega
  simp only [CivilDate.lt, firstDay, lastDay] at hfirst hlast
  omega

/-- The numbers of the dates up to the year 1000000 do not come near an overflow. -/
theorem julianDay_bounds {x : CivilDate} (h : x.Valid) (hlo : -4799 ≤ x.year)
    (hhi : x.year ≤ 1000000) : -32044 ≤ julianDay x ∧ julianDay x ≤ 400000000 := by
  obtain ⟨hcount, hnonneg, hend⟩ := onDay_of_valid h
  have hmonth := h.1
  have hyear : 0 ≤ marchYear x ∧ marchYear x ≤ 1004800 := by
    unfold marchYear yearShift
    omega
  have hbefore : 0 ≤ daysBefore (marchYear x) ∧ daysBefore (marchYear x) ≤ 366 * marchYear x := by
    unfold daysBefore
    omega
  have hdays : daysInYear (marchYear x) ≤ 366 := by
    unfold daysInYear
    split <;> decide
  omega

theorem getYearMonthDay_julianDay {x : CivilDate} (h : x.Valid) (hlo : -4799 ≤ x.year)
    (hhi : x.year ≤ 1000000) : getYearMonthDay (julianDay x) = some x := by
  obtain ⟨hle, hge⟩ := julianDay_bounds h hlo hhi
  rw [getYearMonthDay_eq (onDay_of_valid h) hle hge, civil_of_valid h]

/-- The conversions are inverse to each other, between the valid dates of the years from -4799
to 1000000 and the numbers from that of the first to that of the last of them; neither overflows. -/
theorem julianDay_conversions_inverse :
    (∀ year month day : Int, (CivilDate.mk year month day).Valid → -4799 ≤ year → year ≤ 1000000 →
      ∃ n, getJulianDayNumber year month day = some n ∧
        getYearMonthDay n = some ⟨year, month, day⟩) ∧
    (∀ lo hi n : Int, getJulianDayNumber (-4799) 1 1 = some lo →
      getJulianDayNumber 1000000 12 31 = some hi → lo ≤ n → n ≤ hi →
      ∃ x : YearMonthDay, getYearMonthDay n = some x ∧ x.Valid ∧
        (-4799 ≤ x.year ∧ x.year ≤ 1000000) ∧
        getJulianDayNumber x.year x.month x.day = some n) := by
  constructor
  · intro year month day h hlo hhi
    exact ⟨_, getJulianDayNumber_eq h hlo (Int.le_trans hhi (by decide)),
      getYearMonthDay_julianDay h hlo hhi⟩
  · intro lo hi n hfirst hlast hlo hhi
    have hfirst' : getJulianDayNumber (-4799) 1 1 = some (julianDay firstDay) :=
      @getJulianDayNumber_eq firstDay (by decide) (by decide) (by decide)
    have hlast' : getJulianDayNumber 1000000 12 31 = some (julianDay lastDay) :=
      @getJulianDayNumber_eq lastDay (by decide) (by decide) (by decide)
    rw [hfirst', Option.some.injEq] at hfirst
    rw [hlast', Option.some.injEq] at hlast
    subst hfirst hlast
    obtain ⟨x, hx, hnumber⟩ := exists_date (n - julianDay firstDay).toNat
    have hn : julianDay x = n := by omega
    subst hn
    obtain ⟨hle, hge⟩ := year_of_julianDay hx hlo hhi
    exact ⟨x, getYearMonthDay_julianDay hx hle hge, hx, ⟨hle, hge⟩,
      getJulianDayNumber_eq hx hle (Int.le_trans hge (by decide))⟩

theorem julianDay_conversions_inverse_epoch :
    (∃ n, getJulianDayNumber 1970 1 1 = some n ∧ getYearMonthDay n = some ⟨1970, 1, 1⟩) ∧
    ∃ x : YearMonthDay, getYearMonthDay 0 = some x ∧ x.Valid ∧
      (-4799 ≤ x.year ∧ x.year ≤ 1000000) ∧
      getJulianDayNumber x.year x.month x.day = some 0 :=
  ⟨julianDay_conversions_inverse.1 1970 1 1 (by decide) (by decide) (by decide),
    julianDay_conversions_inverse.2 (-31738) 366963925 0 (by decide) (by decide) (by decide)
      (by decide)⟩

/-! ## Order and days of the week -/

namespace Date

theorem new_eq {x : CivilDate} (h : x.Valid) (hlo : -4799 ≤ x.year) (hhi : x.year ≤ 1000001) :
    new x.year x.month x.day = some ⟨julianDay x⟩ := by
  rw [new, CInt.bind_of (getJulianDayNumber_eq h hlo hhi)]

theorem weekDay_eq {x : Date} (hlo : 0 ≤ x.julianDayNumber) (hhi : x.julianDayNumber ≤ 400000001) :
    x.weekDay = some ((x.julianDayNumber + 1) % 7) := by
  unfold julianDayNumber at *
  have hadd : CInt.add x.julianDayNumber_ 1 = some (x.julianDayNumber_ + 1) :=
    CInt.add_of (by omega) (by omega)
  rw [weekDay, CInt.bind_of hadd, kDaysPerWeek]
  exact CInt.mod_of (by omega) (by omega) (by omega)

/-- The day after has the next number and, for numbers that are not negative, the next day of the
week; one date is before another in the order of the numbers if it is in that of the calendar. -/
theorem consecutive_days :
    (∀ x : CivilDate, x.Valid → -4799 ≤ x.year → x.year ≤ 1000000 →
      ∃ d d' : Date, new x.year x.month x.day = some d ∧
        new x.next.year x.next.month x.next.day = some d' ∧
        d'.julianDayNumber = d.julianDayNumber + 1 ∧
        (0 ≤ d.julianDayNumber → ∃ w, d.weekDay = some w ∧ 0 ≤ w ∧ w ≤ 6 ∧
          d'.weekDay = some ((w + 1) % 7))) ∧
    (∀ x y : CivilDate, x.Valid → -4799 ≤ x.year → x.year ≤ 1000000 →
      y.Valid → -4799 ≤ y.year → y.year ≤ 1000000 →
      ∃ d e : Date, new x.year x.month x.day = some d ∧ new y.year y.month y.day = some e ∧
        (d.lt e = true ↔ x.lt y)) ∧
    (new 1900 1 1 >>= weekDay) = some 1 := by
  refine ⟨?_, ?_, by decide⟩
  · intro x h hlo hhi
    have hnext : -4799 ≤ x.next.year ∧ x.next.year ≤ 1000001 := by
      obtain ⟨_, hnext⟩ | ⟨_, _, hnext⟩ | ⟨_, _, hnext⟩ := CivilDate.next_cases h <;>
        · simp only [hnext]
          omega
    obtain ⟨_, hge⟩ := julianDay_bounds h hlo hhi
    refine ⟨⟨julianDay x⟩, ⟨julianDay x.next⟩, new_eq h hlo (Int.le_trans hhi (by decide)),
      new_eq (CivilDate.next_valid h) hnext.1 hnext.2, julianDay_next h, ?_⟩
    intro hpos
    simp only [julianDayNumber] at hpos
    have hnext' := julianDay_next h
    have hday : weekDay ⟨julianDay x⟩ = some ((julianDay x + 1) % 7) :=
      weekDay_eq hpos (Int.le_trans hge (by decide))
    have hafter : weekDay ⟨julianDay x.next⟩ = some ((julianDay x.next + 1) % 7) :=
      weekDay_eq (by simp only [julianDayNumber]; omega) (by simp only [julianDayNumber]; omega)
    refine ⟨_, hday, by omega, by omega, ?_⟩
    rw [hafter, hnext', Int.emod_add_emod]
  · intro x y hx hlo hhi hy hlo' hhi'
    refine ⟨⟨julianDay x⟩, ⟨julianDay y⟩, new_eq hx hlo (Int.le_trans hhi (by decide)),
      new_eq hy hlo' (Int.le_trans hhi' (by decide)), ?_⟩
    rw [lt, decide_eq_true_iff]
    exact julianDay_lt_iff hx hy

theorem consecutive_days_leap_day :
    (∃ d d' : Date, new 2000 2 28 = some d ∧ new 2000 2 29 = some d' ∧
      d'.julianDayNumber = d.julianDayNumber + 1 ∧
      (0 ≤ d.julianDayNumber → ∃ w, d.weekDay = some w ∧ 0 ≤ w ∧ w ≤ 6 ∧
        d'.weekDay = some ((w + 1) % 7))) ∧
    ∃ d e : Date, new 1999 12 31 = some d ∧ new 2000 1 1 = some e ∧
      (d.lt e = true ↔ CivilDate.lt ⟨1999, 12, 31⟩ ⟨2000, 1, 1⟩) :=
  ⟨consecutive_days.1 ⟨2000, 2, 28⟩ (by decide) (by decide) (by decide),
    consecutive_days.2.1 ⟨1999, 12, 31⟩ ⟨2000, 1, 1⟩ (by decide) (by decide) (by decide)
      (by decide) (by decide) (by decide)⟩

end Date

end Muduo.Base
