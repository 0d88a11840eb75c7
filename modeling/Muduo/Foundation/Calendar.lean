/-
  Foundation/Calendar.lean --- the Gregorian calendar, also for the years in which it was
  not yet in use.

  A date is valid if its month has that day; `next` is the day after it and `lt` the order
  of the dates.  Numbering the days one by one respects the order (`number_lt_iff`) and
  measures distances (`daysFrom_iff`).  Nothing here names the program that is modelled.
-/
import Mathlib.Logic.Function.Iterate
import Mathlib.Tactic.Common

set_option autoImplicit false

namespace Muduo.Foundation

/-- A date of the Gregorian calendar. -/
structure CivilDate where
  year : Int
  month : Int
  day : Int
  deriving DecidableEq, Repr

namespace CivilDate

/-- Every fourth year, but of the full centuries only every fourth. -/
def IsLeap (year : Int) : Prop := year % 4 = 0 ∧ (year % 100 ≠ 0 ∨ year % 400 = 0)

instance (year : Int) : Decidable (IsLeap year) := inferInstanceAs (Decidable (_ ∧ _))

/-- How many days a month has. -/
def daysInMonth (year month : Int) : Int :=
  if month = 2 then if IsLeap year then 29 else 28
  else if month = 4 ∨ month = 6 ∨ month = 9 ∨ month = 11 then 30
  else 31

/-- The date exists. -/
def Valid (x : CivilDate) : Prop :=
  (1 ≤ x.month ∧ x.month ≤ 12) ∧ 1 ≤ x.day ∧ x.day ≤ daysInMonth x.year x.month

instance (x : CivilDate) : Decidable x.Valid := inferInstanceAs (Decidable (_ ∧ _))

/-- The day after. -/
def next (x : CivilDate) : CivilDate :=
  if x.day < daysInMonth x.year x.month then ⟨x.year, x.month, x.day + 1⟩
  else if x.month < 12 then ⟨x.year, x.month + 1, 1⟩
  else ⟨x.year + 1, 1, 1⟩

/-- Earlier: in an earlier year, or in the same year in an earlier month, and so on. -/
def lt (x y : CivilDate) : Prop :=
  x.year < y.year ∨ (x.year = y.year ∧
    (x.month < y.month ∨ (x.month = y.month ∧ x.day < y.day)))

instance (x y : CivilDate) : Decidable (x.lt y) := inferInstanceAs (Decidable (_ ∨ _))

/-- `y` is `n` days after `x`, or `-n` days before it. -/
def DaysFrom (x : CivilDate) (n : Int) (y : CivilDate) : Prop :=
  next^[n.toNat] x = next^[(-n).toNat] y

theorem one_le_daysInMonth (year month : Int) : 1 ≤ daysInMonth year month := by
  unfold daysInMonth
  split
  · split <;> decide
  · split <;> decide

/-! ## The day after -/

/-- Inside of a month, at the end of a month, and at the end of a year. -/
theorem next_cases {x : CivilDate} (h : x.Valid) :
    (x.day < daysInMonth x.year x.month ∧ x.next = ⟨x.year, x.month, x.day + 1⟩) ∨
    (x.day = daysInMonth x.year x.month ∧ x.month < 12 ∧ x.next = ⟨x.year, x.month + 1, 1⟩) ∨
    (x.day = daysInMonth x.year x.month ∧ x.month = 12 ∧ x.next = ⟨x.year + 1, 1, 1⟩) := by
  obtain ⟨⟨_, hmonth⟩, _, hday⟩ := h
  unfold next
  by_cases hin : x.day < daysInMonth x.year x.month
  · exact .inl ⟨hin, if_pos hin⟩
  · rw [if_neg hin]
    by_cases hend : x.month < 12
    · exact .inr (.inl ⟨by omega, hend, if_pos hend⟩)
    · exact .inr (.inr ⟨by omega, by omega, if_neg hend⟩)

theorem next_valid {x : CivilDate} (h : x.Valid) : x.next.Valid := by
  obtain ⟨hin, hnext⟩ | ⟨_, hend, hnext⟩ | ⟨_, _, hnext⟩ := next_cases h
  · obtain ⟨hmonth, hday, _⟩ := h
    rw [hnext]
    exact ⟨hmonth, Int.le_add_one hday, hin⟩
  · obtain ⟨⟨hmonth, _⟩, _⟩ := h
    rw [hnext]
    exact ⟨⟨Int.le_add_one hmonth, hend⟩, Int.le_refl 1, one_le_daysInMonth _ _⟩
  · rw [hnext]
    exact ⟨⟨Int.le_refl 1, (by decide : (1 : Int) ≤ 12)⟩, Int.le_refl 1, one_le_daysInMonth _ _⟩

/-! ## The order -/

theorem lt_irrefl (x : CivilDate) : ¬ x.lt x := by
  simp only [lt]
  omega

theorem lt_trans {x y z : CivilDate} (hxy : x.lt y) (hyz : y.lt z) : x.lt z := by
  simp only [lt] at *
  omega

theorem lt_next {x : CivilDate} (h : x.Valid) : x.lt x.next := by
  obtain ⟨_, hnext⟩ | ⟨_, _, hnext⟩ | ⟨_, _, hnext⟩ := next_cases h
  · rw [hnext]
    exact .inr ⟨rfl, .inr ⟨rfl, Int.lt_succ x.day⟩⟩
  · rw [hnext]
    exact .inr ⟨rfl, .inl (Int.lt_succ x.month)⟩
  · rw [hnext]
    exact .inl (Int.lt_succ x.year)

section Numbering

variable {number : CivilDate → Int}

/-- If the days are numbered one by one, an earlier number is that of an earlier date. -/
theorem lt_of_number_lt (hinj : ∀ x y : CivilDate, x.Valid → y.Valid → number x = number y → x = y)
    (hnext : ∀ x : CivilDate, x.Valid → number x.next = number x + 1) {x y : CivilDate}
    (hx : x.Valid) (hy : y.Valid) (h : number x < number y) : x.lt y := by
  obtain ⟨k, hk⟩ : ∃ k : Nat, number y = number x + 1 + k :=
    ⟨(number y - (number x + 1)).toNat, by omega⟩
  clear h
  induction k generalizing x with
  | zero =>
      have heq : y = x.next := hinj y x.next hy (next_valid hx) (by rw [hnext x hx, hk]; simp)
      rw [heq]
      exact lt_next hx
  | succ k ih =>
      have hrest : x.next.lt y := ih (next_valid hx) (by rw [hnext x hx]; omega)
      exact lt_trans (lt_next hx) hrest

theorem number_lt_iff (hinj : ∀ x y : CivilDate, x.Valid → y.Valid → number x = number y → x = y)
    (hnext : ∀ x : CivilDate, x.Valid → number x.next = number x + 1) {x y : CivilDate}
    (hx : x.Valid) (hy : y.Valid) : number x < number y ↔ x.lt y := by
  constructor
  · exact lt_of_number_lt hinj hnext hx hy
  · intro h
    obtain hlt | heq | hgt := Int.lt_trichotomy (number x) (number y)
    · exact hlt
    · rw [hinj x y hx hy heq] at h
      exact (lt_irrefl y h).elim
    · exact (lt_irrefl x (lt_trans h (lt_of_number_lt hinj hnext hy hx hgt))).elim

theorem number_iterate (hnext : ∀ x : CivilDate, x.Valid → number x.next = number x + 1)
    {x : CivilDate} (hx : x.Valid) (k : Nat) :
    (next^[k] x).Valid ∧ number (next^[k] x) = number x + k := by
  induction k generalizing x with
  | zero => exact ⟨hx, (Int.add_zero _).symm⟩
  | succ k ih =>
      obtain ⟨hvalid, hnumber⟩ := ih (next_valid hx)
      refine ⟨hvalid, ?_⟩
      rw [Function.iterate_succ_apply, hnumber, hnext x hx]
      omega

/-- A numbering of the days one by one measures how far two dates are apart. -/
theorem daysFrom_iff (hinj : ∀ x y : CivilDate, x.Valid → y.Valid → number x = number y → x = y)
    (hnext : ∀ x : CivilDate, x.Valid → number x.next = number x + 1) {x y : CivilDate}
    (hx : x.Valid) (hy : y.Valid) {n : Int} : x.DaysFrom n y ↔ number y = number x + n := by
  obtain ⟨hvalid, hnumber⟩ := number_iterate hnext hx n.toNat
  obtain ⟨hvalid', hnumber'⟩ := number_iterate hnext hy (-n).toNat
  constructor
  · intro h
    rw [DaysFrom] at h
    rw [h, hnumber'] at hnumber
    omega
  · intro h
    exact hinj _ _ hvalid hvalid' (by omega)

end Numbering

end CivilDate

end Muduo.Foundation
