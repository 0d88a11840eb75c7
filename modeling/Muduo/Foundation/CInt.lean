/-
  Foundation/CInt.lean --- arithmetic on a 32-bit `int`.

  An operation whose exact result is not an `int` has no result; division truncates
  towards zero.  `checked` is the only test, and each operator has one lemma: it has the
  exact result if that fits.  Nothing here names the program that is modelled.
-/
import Mathlib.Tactic.Common

set_option autoImplicit false

namespace Muduo.Foundation

namespace CInt

/-- The integer is the value of some `int`. -/
def Fits (x : Int) : Prop := -2147483648 ≤ x ∧ x ≤ 2147483647

instance (x : Int) : Decidable (Fits x) := inferInstanceAs (Decidable (_ ∧ _))

/-- The exact result of an operation, if it is an `int`. -/
def checked (x : Int) : Option Int := if Fits x then some x else none

/-- `x + y`. -/
def add (x y : Int) : Option Int := checked (x + y)

/-- `x - y`. -/
def sub (x y : Int) : Option Int := checked (x - y)

/-- `x * y`. -/
def mul (x y : Int) : Option Int := checked (x * y)

/-- `x / y`, rounded towards zero. -/
def div (x y : Int) : Option Int := if y = 0 then none else checked (x.tdiv y)

/-- `x % y`, with the sign of `x`. -/
def mod (x y : Int) : Option Int := if y = 0 then none else checked (x.tmod y)

/-- `static_cast<int>` of a wider integer. -/
def wrap (x : Int) : Int := x.bmod 4294967296

theorem wrap_of {x : Int} (hle : -2147483648 ≤ x) (hge : x ≤ 2147483647) : wrap x = x :=
  Int.bmod_eq_of_le (by omega) (by omega)

/-- Truncating division with a borrow for negative remainders is division with rounding down. -/
theorem div_mod_of_borrow (x : Int) {k : Int} (hk : 0 < k) :
    (x.tmod k < 0 → x.tmod k + k = x % k ∧ x.tdiv k - 1 = x / k) ∧
      (¬ x.tmod k < 0 → x.tmod k = x % k ∧ x.tdiv k = x / k) := by
  have hsum := Int.tmod_add_mul_tdiv x k
  have hlt : x.tmod k < k := Int.tmod_lt_of_pos x hk
  have hgt : -k < x.tmod k := Int.lt_tmod_of_pos x hk
  constructor
  · intro hneg
    have hborrow : x.tmod k + k + k * (x.tdiv k - 1) = x := by
      rw [Int.mul_sub, Int.mul_one]
      omega
    obtain ⟨hdiv, hmod⟩ := (Int.ediv_emod_unique hk).mpr ⟨hborrow, by omega, by omega⟩
    exact ⟨hmod.symm, hdiv.symm⟩
  · intro hpos
    obtain ⟨hdiv, hmod⟩ := (Int.ediv_emod_unique hk).mpr ⟨hsum, by omega, hlt⟩
    exact ⟨hmod.symm, hdiv.symm⟩

theorem checked_of {x : Int} (hle : -2147483648 ≤ x) (hge : x ≤ 2147483647) : checked x = some x :=
  if_pos ⟨hle, hge⟩

section Operators

variable {x y : Int}

theorem add_of (hle : -2147483648 ≤ x + y) (hge : x + y ≤ 2147483647) : add x y = some (x + y) :=
  checked_of hle hge

theorem sub_of (hle : -2147483648 ≤ x - y) (hge : x - y ≤ 2147483647) : sub x y = some (x - y) :=
  checked_of hle hge

theorem mul_of (hle : -2147483648 ≤ x * y) (hge : x * y ≤ 2147483647) : mul x y = some (x * y) :=
  checked_of hle hge

/-- For a dividend that is not negative truncation is rounding down. -/
theorem div_of (hx : 0 ≤ x) (hy : 0 < y) (hge : x ≤ 2147483647) : div x y = some (x / y) := by
  have hle : x / y ≤ x := Int.ediv_le_self y hx
  have hpos : 0 ≤ x / y := Int.ediv_nonneg hx (Int.le_of_lt hy)
  rw [div, if_neg (Int.ne_of_gt hy), Int.tdiv_eq_ediv_of_nonneg hx]
  exact checked_of (by omega) (by omega)

theorem mod_of (hx : 0 ≤ x) (hy : 0 < y) (hge : x ≤ 2147483647) : mod x y = some (x % y) := by
  have hle : x % y ≤ x := Int.emod_def x y ▸ Int.sub_le_self x
    (Int.mul_nonneg (Int.le_of_lt hy) (Int.ediv_nonneg hx (Int.le_of_lt hy)))
  have hpos : 0 ≤ x % y := Int.emod_nonneg x (Int.ne_of_gt hy)
  rw [mod, if_neg (Int.ne_of_gt hy), Int.tmod_eq_emod_of_nonneg hx]
  exact checked_of (by omega) (by omega)

/-! ### Chains of operations -/

variable {β : Type} {f : Int → Option β} {p q k z : Int}

theorem bind_of {r : Option Int} (h : r = some x) : (r >>= f) = f x := by
  rw [h]
  rfl

theorem mul_add_div_bind (hx : 0 ≤ p * x) (hq : 0 ≤ q) (hk : 0 < k)
    (hge : p * x + q ≤ 2147483647) :
    (mul p x >>= fun u => add u q >>= fun v => div v k >>= f) = f ((p * x + q) / k) := by
  have hmul : mul p x = some (p * x) := mul_of (by omega) (by omega)
  have hadd : add (p * x) q = some (p * x + q) := add_of (by omega) hge
  have hdiv : div (p * x + q) k = some ((p * x + q) / k) := div_of (by omega) hk hge
  simp only [Option.bind_eq_bind, Option.bind_some, hmul, hadd, hdiv]

theorem mul_div_sub_bind (hx : 0 ≤ p * x) (hk : 0 < k) (hge : p * x ≤ 2147483647) (hz : 0 ≤ z)
    (hz' : z ≤ 2147483647) :
    (mul p x >>= fun u => div u k >>= fun v => sub z v >>= f) = f (z - p * x / k) := by
  have hpos : 0 ≤ p * x / k := Int.ediv_nonneg hx (Int.le_of_lt hk)
  have hle : p * x / k ≤ p * x := Int.ediv_le_self k hx
  have hmul : mul p x = some (p * x) := mul_of (by omega) hge
  have hdiv : div (p * x) k = some (p * x / k) := div_of hx hk hge
  have hsub : sub z (p * x / k) = some (z - p * x / k) := sub_of (by omega) (by omega)
  simp only [Option.bind_eq_bind, Option.bind_some, hmul, hdiv, hsub]

end Operators

end CInt

end Muduo.Foundation
