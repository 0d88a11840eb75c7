/-
  Foundation/Decimal.lean --- decimal texts of numbers, and what is left of one in a buffer
  that is too short.

  The first `k` characters of a decimal text are themselves a decimal text, of `leading k`
  of the number.  Two numbers have the same first `k` characters exactly when these agree.
  Nothing here names the program that is modelled.
-/
import Mathlib.Algebra.Group.Nat.Defs
import Mathlib.Tactic.Common

set_option autoImplicit false

namespace Muduo.Foundation

/-- `%u`, and `%d` of a number that is not negative. -/
def decimal (n : Nat) : List Char := Nat.toDigits 10 n

/-- `snprintf(buf, size, ...)`: what does not fit is cut off. -/
def snprintf (size : Nat) (text : List Char) : List Char := text.take (size - 1)

/-- The number of which only the first `k` digits are kept. -/
def leading (k n : Nat) : Nat := n / 10 ^ ((decimal n).length - k)

theorem decimal_injective : Function.Injective decimal := by
  intro m n h
  have hparsed := congrArg (fun digits => Nat.ofDigitChars 10 digits 0) h
  simpa [decimal] using hparsed

theorem length_decimal_le_iff {k n : Nat} (hk : 0 < k) : (decimal n).length ≤ k ↔ n < 10 ^ k :=
  Nat.length_toDigits_le_iff (by decide) hk

theorem length_decimal_pos (n : Nat) : 0 < (decimal n).length := Nat.length_toDigits_pos

/-- Without the last digit. -/
theorem decimal_div_ten {n : Nat} (h : 1 < (decimal n).length) :
    decimal (n / 10) = (decimal n).dropLast := by
  have hten : 10 ≤ n := by
    by_contra hlt
    have hle := (length_decimal_le_iff (n := n) Nat.one_pos).mpr (by omega)
    omega
  rw [decimal, decimal, Nat.toDigits_of_base_le (by decide) hten, List.dropLast_concat]

/-- Without the last `j` digits. -/
theorem decimal_div_pow {j n : Nat} (h : j < (decimal n).length) :
    decimal (n / 10 ^ j) = (decimal n).take ((decimal n).length - j) := by
  induction j with
  | zero => simp
  | succ j ih =>
      have hprev := ih (by omega)
      have hlength : (decimal (n / 10 ^ j)).length = (decimal n).length - j := by
        rw [hprev, List.length_take]
        omega
      rw [Nat.pow_succ, ← Nat.div_div_eq_div_mul, decimal_div_ten (by omega), hprev,
        List.dropLast_eq_take, List.length_take, List.take_take]
      congr 1
      omega

/-- The first `k` characters. -/
theorem take_decimal {k : Nat} (hk : 0 < k) (n : Nat) :
    (decimal n).take k = decimal (leading k n) := by
  have hpos := length_decimal_pos n
  rw [leading, decimal_div_pow (by omega)]
  by_cases hle : (decimal n).length ≤ k
  · rw [List.take_of_length_le hle, List.take_of_length_le (by omega)]
  · congr 1
    omega

theorem take_decimal_eq_iff {k : Nat} (hk : 0 < k) (m n : Nat) :
    (decimal m).take k = (decimal n).take k ↔ leading k m = leading k n := by
  rw [take_decimal hk, take_decimal hk]
  exact decimal_injective.eq_iff

/-- A short number is kept as it is. -/
theorem leading_of_lt {k n : Nat} (hk : 0 < k) (h : n < 10 ^ k) : leading k n = n := by
  have hle := (length_decimal_le_iff hk).mpr h
  rw [leading, Nat.sub_eq_zero_of_le hle, Nat.pow_zero, Nat.div_one]

end Muduo.Foundation
