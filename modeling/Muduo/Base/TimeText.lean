/-
  Base/TimeText.lean --- the texts of times and days: `Timestamp::toString`,
  `Timestamp::toFormattedString` (src/muduo/base/Timestamp.cc) and `Date::toIsoString`
  (src/muduo/base/Date.cc).

  The formats are made of numbers of fixed widths, from the year down to the microsecond, so the
  texts sort like the times (`formatted_times_sort`, `iso_dates_sort`), as long as the year has at
  most four digits.  `toString` does not sort, but different times have different texts.
-/
import Muduo.Foundation.TextOrder
import Muduo.Base.Timestamp
import Muduo.Base.UtcTime

set_option autoImplicit false

namespace Muduo.Base

open Muduo.Foundation

/-! ## The code -/

namespace Timestamp

/-- `toString`: `"%ld.%06ld"` in 30 characters. -/
def toString (t : Timestamp) : List UInt8 :=
  let seconds := t.microSecondsSinceEpoch_.tdiv kMicroSecondsPerSecond
  let microseconds := t.microSecondsSinceEpoch_.tmod kMicroSecondsPerSecond
  (decimalText seconds ++ ([46] ++ zeroPadded 6 microseconds)).take 30

/-- `toFormattedString`: `"%4d%02d%02d %02d:%02d:%02d.%06d"` in 31 characters. -/
def toFormattedString (t : Timestamp) : List UInt8 :=
  let seconds := t.microSecondsSinceEpoch_.tdiv kMicroSecondsPerSecond
  let microseconds := t.microSecondsSinceEpoch_.tmod kMicroSecondsPerSecond
  let tm_time := gmtime seconds
  (spacePadded 4 (tm_time.tm_year + 1900) ++ (zeroPadded 2 (tm_time.tm_mon + 1) ++
    (zeroPadded 2 tm_time.tm_mday ++ ([32] ++ (zeroPadded 2 tm_time.tm_hour ++ ([58] ++
      (zeroPadded 2 tm_time.tm_min ++ ([58] ++ (zeroPadded 2 tm_time.tm_sec ++ ([46] ++
        zeroPadded 6 microseconds)))))))))).take 31

end Timestamp

/-- `toIsoString`: `"%4d-%02d-%02d"` in 31 characters. -/
def Date.toIsoString (x : Date) : Option (List UInt8) := do
  let ymd ← x.yearMonthDay
  return (spacePadded 4 ymd.year ++ ([45] ++ (zeroPadded 2 ymd.month ++ ([45] ++
    zeroPadded 2 ymd.day)))).take 31

/-! ## Broken-down times in order -/

/-- Year, month and day, as they are printed. -/
def Tm.dateFields (tm : Tm) : List Int := [tm.tm_year + 1900, tm.tm_mon + 1, tm.tm_mday]

/-- Hour, minute and second. -/
def Tm.clockFields (tm : Tm) : List Int := [tm.tm_hour, tm.tm_min, tm.tm_sec]

section Order

variable {t t' : Int}

theorem dateFields_lt_iff {tm tm' : Tm} : tm.dateFields < tm'.dateFields ↔ tm.date.lt tm'.date := by
  simp [Tm.dateFields, Tm.date, CivilDate.lt, List.cons_lt_cons_iff]

theorem dateFields_inj {tm tm' : Tm} : tm.dateFields = tm'.dateFields ↔ tm.date = tm'.date := by
  simp [Tm.dateFields, Tm.date]

/-- The days of the calendar are in the order of time. -/
theorem gmtime_date_lt_iff : (gmtime t).date.lt (gmtime t').date ↔ t / 86400 < t' / 86400 := by
  rw [← julianDay_lt_iff (gmtime_isUtc t).valid (gmtime_isUtc t').valid, gmtime_julianDay,
    gmtime_julianDay]
  omega

theorem gmtime_date_inj : (gmtime t).date = (gmtime t').date ↔ t / 86400 = t' / 86400 := by
  constructor
  · intro h
    have hday := congrArg julianDay h
    rw [gmtime_julianDay, gmtime_julianDay] at hday
    omega
  · intro h
    rw [gmtime_date, gmtime_date, h]

/-- So are the seconds of a day. -/
theorem gmtime_clockFields_lt_iff :
    (gmtime t).clockFields < (gmtime t').clockFields ↔ t % 86400 < t' % 86400 := by
  simp only [Tm.clockFields, gmtime, List.cons_lt_cons_iff, List.lt_irrefl, and_false, or_false]
  omega

/-- A broken-down time is earlier, field by field, exactly if it is that of an earlier second. -/
theorem gmtime_fields_lt_iff :
    (gmtime t).dateFields ++ (gmtime t).clockFields <
      (gmtime t').dateFields ++ (gmtime t').clockFields ↔ t < t' := by
  have hlen : (gmtime t).dateFields.length = (gmtime t').dateFields.length := rfl
  rw [append_lt_append_iff hlen, dateFields_lt_iff, dateFields_inj, gmtime_date_lt_iff,
    gmtime_date_inj, gmtime_clockFields_lt_iff]
  omega

theorem gmtime_fields_inj : (gmtime t).dateFields ++ (gmtime t).clockFields =
    (gmtime t').dateFields ++ (gmtime t').clockFields ↔ t = t' := by
  refine ⟨fun h => ?_, fun h => by rw [h]⟩
  have hlt := (@gmtime_fields_lt_iff t t').not.mp (by rw [h]; exact List.lt_irrefl _)
  have hgt := (@gmtime_fields_lt_iff t' t).not.mp (by rw [h]; exact List.lt_irrefl _)
  omega

end Order

/-! ## The formats -/

/-- `%4d%02d%02d` and `%02d%02d%02d` with the texts behind the numbers. -/
def dateFormat (behindYear behindMonth behindDay : List UInt8) : List Field :=
  [⟨32, 4, behindYear⟩, ⟨48, 2, behindMonth⟩, ⟨48, 2, behindDay⟩]

/-- Two digits for each, with text behind them. -/
def clockFormat (behindHour behindMinute behindSecond : List UInt8) : List Field :=
  [⟨48, 2, behindHour⟩, ⟨48, 2, behindMinute⟩, ⟨48, 2, behindSecond⟩]

section Formats

variable (a b c : List UInt8)

theorem fits_date {x : CivilDate} (h : x.Valid) (hlo : 0 ≤ x.year) (hhi : x.year ≤ 9999) :
    Fits (dateFormat a b c) [x.year, x.month, x.day] := by
  obtain ⟨hmonth, hday, hlast⟩ := h
  have hdays := (daysInMonth_le x.year x.month).1
  have hspace : (32 : UInt8) ≤ 48 := by decide
  refine .cons ⟨hspace, Nat.succ_pos _, hlo, ?_⟩
    (.cons ⟨UInt8.le_refl _, Nat.succ_pos _, ?_, ?_⟩
      (.cons ⟨UInt8.le_refl _, Nat.succ_pos _, ?_, ?_⟩ .nil))
  all_goals norm_num
  all_goals omega

theorem fits_clock {tm : Tm} (h : tm.ValidTime) : Fits (clockFormat a b c) tm.clockFields := by
  obtain ⟨hsec, hmin, hhour⟩ := h
  refine .cons ⟨UInt8.le_refl _, Nat.succ_pos _, hhour.1, ?_⟩
    (.cons ⟨UInt8.le_refl _, Nat.succ_pos _, hmin.1, ?_⟩
      (.cons ⟨UInt8.le_refl _, Nat.succ_pos _, hsec.1, ?_⟩ .nil))
  all_goals norm_num
  all_goals omega

theorem fits_gmtime {t : Int} (hlo : 0 ≤ t) (hhi : t < 253402300800) :
    Fits (dateFormat a b c) (gmtime t).dateFields := by
  have hyear := gmtime_year_ge hlo
  exact fits_date a b c (gmtime_isUtc t).valid (by omega) (gmtime_year_le hhi)

end Formats

/-! ## The texts of times -/

namespace Timestamp

/-- The numbers that `toFormattedString` prints. -/
def fields (t : Timestamp) : List Int :=
  (gmtime (t.microSecondsSinceEpoch_ / 1000000)).dateFields ++
    (gmtime (t.microSecondsSinceEpoch_ / 1000000)).clockFields ++
      [t.microSecondsSinceEpoch_ % 1000000]

/-- The format of those fields: `toFormattedString()`. -/
def format : List Field :=
  dateFormat [] [] [32] ++ clockFormat [58] [58] [46] ++ [⟨48, 6, []⟩]

/-- A time from 1970 to 9999. -/
def FourDigitYear (t : Timestamp) : Prop :=
  0 ≤ t.microSecondsSinceEpoch_ ∧ t.microSecondsSinceEpoch_ < 253402300800 * 1000000

theorem fields_lt_iff {t t' : Timestamp} : t.fields < t'.fields ↔ t < t' := by
  have hlen : ∀ u u' : Int, ((gmtime u).dateFields ++ (gmtime u).clockFields).length =
      ((gmtime u').dateFields ++ (gmtime u').clockFields).length := fun _ _ => rfl
  rw [fields, fields, append_lt_append_iff (hlen _ _), gmtime_fields_lt_iff, gmtime_fields_inj,
    List.cons_lt_cons_iff]
  have horder : t < t' ↔ t.microSecondsSinceEpoch_ < t'.microSecondsSinceEpoch_ := Iff.rfl
  simp only [List.lt_irrefl, and_false, or_false, horder]
  omega

theorem FourDigitYear.fits {t : Timestamp} (h : t.FourDigitYear) : Fits format t.fields := by
  obtain ⟨hlo, hhi⟩ := h
  refine ((fits_gmtime _ _ _ (by omega) (by omega)).append
    (fits_clock _ _ _ (gmtime_isUtc _).time)).append
      (.cons ⟨UInt8.le_refl _, Nat.succ_pos _, ?_, ?_⟩ .nil)
  all_goals norm_num
  all_goals omega

/-- The text is that of the numbers, and all of it. -/
theorem FourDigitYear.toFormattedString {t : Timestamp} (h : t.FourDigitYear) :
    t.toFormattedString = render format t.fields ∧ (render format t.fields).length = 24 := by
  have hlength := length_render h.fits
  obtain ⟨hlo, hhi⟩ := h
  have hdiv : t.microSecondsSinceEpoch_.tdiv kMicroSecondsPerSecond =
      t.microSecondsSinceEpoch_ / 1000000 := Int.tdiv_eq_ediv_of_nonneg hlo
  have hmod : t.microSecondsSinceEpoch_.tmod kMicroSecondsPerSecond =
      t.microSecondsSinceEpoch_ % 1000000 := Int.tmod_eq_emod_of_nonneg hlo
  have hutc := gmtime_isUtc (t.microSecondsSinceEpoch_ / 1000000)
  have hyear := @gmtime_year_ge (t.microSecondsSinceEpoch_ / 1000000) (by omega)
  have hmonth := hutc.valid.1.1
  have hday := hutc.valid.2.1
  obtain ⟨⟨hsec, -⟩, ⟨hmin, -⟩, ⟨hhour, -⟩⟩ := hutc.time
  simp only [Tm.date] at hyear hmonth hday
  have htext : t.toFormattedString = (render format t.fields).take 31 := by
    rw [Timestamp.toFormattedString, hdiv, hmod, spacePadded_eq (by omega),
      zeroPadded_eq (by omega), zeroPadded_eq (by omega), zeroPadded_eq hhour, zeroPadded_eq hmin,
      zeroPadded_eq hsec, zeroPadded_eq (by omega)]
    simp only [render, format, dateFormat, clockFormat, fields, Tm.dateFields, Tm.clockFields,
      List.cons_append, List.nil_append, List.append_nil]
  refine ⟨?_, hlength⟩
  rw [htext, List.take_of_length_le (by rw [hlength]; decide)]

/-- Numbers of either sign have different texts. -/
theorem zeroPadded_signed_inj {width : Nat} {v v' : Int}
    (h : zeroPadded width v = zeroPadded width v') :
    v = v' := by
  have hsign : ∀ {u u' : Int}, 0 ≤ u → u' < 0 → zeroPadded width u ≠ zeroPadded width u' := by
    intro u u' hu hu' heq
    have hminus : (45 : UInt8) ∈ zeroPadded width u := by
      rw [heq, zeroPadded, if_pos hu']
      exact List.mem_append_left _ (List.mem_singleton.mpr rfl)
    exact absurd (digit_of_mem_zeroPadded hu hminus).1 (by decide)
  rcases Int.lt_or_le v 0 with hv | hv <;> rcases Int.lt_or_le v' 0 with hv' | hv'
  · rw [zeroPadded, zeroPadded, if_pos hv, if_pos hv, if_pos hv', if_pos hv'] at h
    have hdigits := List.append_cancel_left h
    have habs : ∀ u : Int, (decimalDigits u.natAbs).leftpad (width - 1) 48 =
        zeroPadded (width - 1) (u.natAbs : Int) := fun u => by
      rw [zeroPadded_of_nonneg (Int.natCast_nonneg _), Int.natAbs_natCast]
    rw [habs, habs] at hdigits
    have heq := zeroPadded_injective (Int.natCast_nonneg _) (Int.natCast_nonneg _) hdigits
    omega
  · exact absurd h.symm (hsign hv' hv)
  · exact absurd h (hsign hv hv')
  · exact zeroPadded_injective hv hv' h

theorem dot_notMem_zeroPadded (width : Nat) (v : Int) : (46 : UInt8) ∉ zeroPadded width v := by
  rw [zeroPadded, List.leftpad, List.mem_append, List.mem_append]
  rintro (hsign | hzero | hdigit)
  · rcases Int.lt_or_le v 0 with hv | hv
    · rw [if_pos hv] at hsign
      exact absurd (List.mem_singleton.mp hsign) (by decide)
    · rw [if_neg (by omega)] at hsign
      exact absurd hsign List.not_mem_nil
  · exact absurd (List.eq_of_mem_replicate hzero) (by decide)
  · exact absurd (digit_of_mem hdigit).1 (by decide)

theorem decimalText_eq_zeroPadded (v : Int) : decimalText v = zeroPadded 0 v := by
  simp [decimalText, zeroPadded, List.leftpad]

theorem length_decimalText_le {v : Int} {k : Nat} (hk : 0 < k) (h : v.natAbs < 10 ^ k) :
    (decimalText v).length ≤ k + 1 := by
  have hdigits : (decimalDigits v.natAbs).length ≤ k := (length_digits_le_iff (by decide) hk).mpr h
  have hsign : (if v < 0 then [(45 : UInt8)] else []).length ≤ 1 := by
    split <;> simp
  rw [decimalText, List.length_append]
  omega

theorem length_zeroPadded_le {v : Int} {k : Nat} (hk : 0 < k) (h : v.natAbs < 10 ^ k) :
    (zeroPadded k v).length ≤ k + 1 := by
  have hdigits : (decimalDigits v.natAbs).length ≤ k := (length_digits_le_iff (by decide) hk).mpr h
  rw [zeroPadded, List.length_append, List.length_leftpad]
  split
  · rw [List.length_singleton]
    omega
  · rw [List.length_nil]
    omega

/-- Nothing of `toString` is cut off. -/
theorem toString_eq {t : Timestamp} (hlo : -2 ^ 63 ≤ t.microSecondsSinceEpoch_)
    (hhi : t.microSecondsSinceEpoch_ < 2 ^ 63) : t.toString =
      decimalText (t.microSecondsSinceEpoch_.tdiv kMicroSecondsPerSecond) ++
        (46 :: zeroPadded 6 (t.microSecondsSinceEpoch_.tmod kMicroSecondsPerSecond)) := by
  have hper : kMicroSecondsPerSecond.natAbs = 1000000 := rfl
  have hseconds :
      (t.microSecondsSinceEpoch_.tdiv kMicroSecondsPerSecond).natAbs < 10 ^ 13 := by
    rw [Int.natAbs_tdiv, hper]
    exact Nat.div_lt_of_lt_mul (by omega)
  have hmicroseconds : (t.microSecondsSinceEpoch_.tmod kMicroSecondsPerSecond).natAbs < 10 ^ 6 := by
    rw [Int.natAbs_tmod]
    exact Nat.mod_lt _ (by decide)
  have hlen₁ := length_decimalText_le (by decide) hseconds
  have hlen₂ := length_zeroPadded_le (by decide) hmicroseconds
  rw [Timestamp.toString, List.singleton_append, List.take_of_length_le]
  rw [List.length_append, List.length_cons]
  omega

/-- The two texts of a time.  From 1970 to 9999 every formatted text has 24 characters, and the
formatted texts are in the order of the times, byte by byte; the plain text, of seconds and
microseconds, is a different one for every time that the counter can hold, also before 1970. -/
theorem formatted_times_sort :
    (∀ t t' : Timestamp, t.FourDigitYear → t'.FourDigitYear →
      t.toFormattedString.length = 24 ∧ (t.toFormattedString < t'.toFormattedString ↔ t < t')) ∧
    (∀ t t' : Timestamp, t.microSecondsSinceEpoch_ ∈ Set.Ico (-2 ^ 63) (2 ^ 63) →
      t'.microSecondsSinceEpoch_ ∈ Set.Ico (-2 ^ 63) (2 ^ 63) →
      t.toString = t'.toString → t = t') := by
  constructor
  · intro t t' h h'
    obtain ⟨htext, hlen⟩ := h.toFormattedString
    rw [htext, h'.toFormattedString.1, render_lt_iff h.fits h'.fits, fields_lt_iff]
    exact ⟨hlen, Iff.rfl⟩
  · intro t t' h h' heq
    rw [toString_eq h.1 h.2, toString_eq h'.1 h'.2] at heq
    -- the dot stands in neither number
    obtain ⟨hseconds, -, hmicroseconds⟩ := (List.append_cons_inj_of_notMem
      (decimalText_eq_zeroPadded _ ▸ dot_notMem_zeroPadded 0 _) (dot_notMem_zeroPadded 6 _)).mp heq
    have hdiv := congrArg readDecimal hseconds
    rw [readDecimal_decimalText, readDecimal_decimalText, Option.some.injEq] at hdiv
    have hmod := zeroPadded_signed_inj hmicroseconds
    apply microSecondsSinceEpoch_injective
    rw [← Int.mul_tdiv_add_tmod t.microSecondsSinceEpoch_ kMicroSecondsPerSecond, hdiv, hmod,
      Int.mul_tdiv_add_tmod]

end Timestamp

/-- The second before and the first second of the year 2000. -/
theorem Timestamp.formatted_times_sort_millennium :
    (Timestamp.mk 946684799999999).toFormattedString <
    (Timestamp.mk 946684800000000).toFormattedString ∧
      (Timestamp.mk (-5)).toString ≠ (Timestamp.mk 5).toString := by
  constructor
  · exact ((Timestamp.formatted_times_sort.1 ⟨946684799999999⟩ ⟨946684800000000⟩
      ⟨by decide, by decide⟩ ⟨by decide, by decide⟩).2).mpr (by decide)
  · intro heq
    have hsame := Timestamp.formatted_times_sort.2 ⟨-5⟩ ⟨5⟩ ⟨by decide, by decide⟩
      ⟨by decide, by decide⟩ heq
    exact absurd hsame (by decide)

/-! ## The texts of days -/

/-- The text of a day with at most four digits in its year. -/
theorem Date.toIsoString_eq {x : CivilDate} (h : x.Valid) (hlo : 0 ≤ x.year) (hhi : x.year ≤ 9999) :
    Date.toIsoString ⟨julianDay x⟩ =
      some (render (dateFormat [45] [45] []) [x.year, x.month, x.day]) := by
  have hfits := fits_date [45] [45] [] h hlo hhi
  have hlength := length_render hfits
  have hymd : Date.yearMonthDay ⟨julianDay x⟩ = some x :=
    getYearMonthDay_julianDay h (by omega) (by omega)
  obtain ⟨hmonth, hday, -⟩ := h
  have htext : spacePadded 4 x.year ++ ([45] ++ (zeroPadded 2 x.month ++ ([45] ++
      zeroPadded 2 x.day))) = render (dateFormat [45] [45] []) [x.year, x.month, x.day] := by
    rw [spacePadded_eq hlo, zeroPadded_eq (by omega), zeroPadded_eq (by omega)]
    simp only [render, dateFormat, List.append_nil]
  rw [Date.toIsoString, hymd, Option.bind_eq_bind, Option.bind_some, htext,
    List.take_of_length_le (by rw [hlength]; decide)]
  rfl

/-- The ISO texts of days are in the order of the days.  For valid dates with years from 0 to 9999
the constructor succeeds, the text has 10 characters, and one text is before another exactly if
`operator<` says so of the dates, which it does exactly if the civil dates are in that order. -/
theorem Date.iso_dates_sort {x y : CivilDate} (hx : x.Valid) (hy : y.Valid)
    (hxyear : 0 ≤ x.year ∧ x.year ≤ 9999) (hyyear : 0 ≤ y.year ∧ y.year ≤ 9999) :
    ∃ d e text text', Date.new x.year x.month x.day = some d ∧
      Date.new y.year y.month y.day = some e ∧
      d.toIsoString = some text ∧ e.toIsoString = some text' ∧ text.length = 10 ∧
      (text < text' ↔ d.lt e = true) ∧ (text < text' ↔ x.lt y) := by
  have hfits := fits_date [45] [45] [] hx hxyear.1 hxyear.2
  have hfits' := fits_date [45] [45] [] hy hyyear.1 hyyear.2
  have hlt : render (dateFormat [45] [45] []) [x.year, x.month, x.day] <
      render (dateFormat [45] [45] []) [y.year, y.month, y.day] ↔ x.lt y := by
    rw [render_lt_iff hfits hfits']
    simp [CivilDate.lt, List.cons_lt_cons_iff]
  refine ⟨⟨julianDay x⟩, ⟨julianDay y⟩, _, _, new_eq hx (by omega) (by omega),
    new_eq hy (by omega) (by omega), toIsoString_eq hx hxyear.1 hxyear.2,
    toIsoString_eq hy hyyear.1 hyyear.2, length_render hfits, ?_, hlt⟩
  rw [hlt, Date.lt, decide_eq_true_iff]
  exact (julianDay_lt_iff hx hy).symm

/-- A year of two digits comes before one of four. -/
theorem Date.iso_dates_sort_years :
    ∃ d e text text', Date.new 99 12 31 = some d ∧ Date.new 1970 1 1 = some e ∧
      d.toIsoString = some text ∧ e.toIsoString = some text' ∧ text.length = 10 ∧
      (text < text' ↔ d.lt e = true) ∧
      (text < text' ↔ (CivilDate.mk 99 12 31).lt ⟨1970, 1, 1⟩) :=
  @Date.iso_dates_sort ⟨99, 12, 31⟩ ⟨1970, 1, 1⟩ (by decide) (by decide) ⟨by decide, by decide⟩
    ⟨by decide, by decide⟩

end Muduo.Base
