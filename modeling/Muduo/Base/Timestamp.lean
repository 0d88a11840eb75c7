/-
  Base/Timestamp.lean --- `muduo/base/Timestamp.h`: a time in UTC, in microseconds.

  The count of microseconds is an `int64_t`; the places that compute with it wrap
  around as the machine does (`int64`).
-/
import Mathlib.Algebra.Group.Int.Defs
import Mathlib.Algebra.Group.Nat.Defs
import Mathlib.Data.Int.Order.Basic
import Mathlib.Order.Defs.LinearOrder
import Mathlib.Order.Basic
import Mathlib.Order.Lattice
import Mathlib.Tactic.Common

set_option autoImplicit false

namespace Muduo.Base

/-- The `int64_t` with the same residue. -/
def int64 (x : Int) : Int := x.bmod (2 ^ 64)

/-- Nothing happens to a number that is in range. -/
theorem int64_of_mem {x : Int} (hlow : -2 ^ 63 ≤ x) (hhigh : x < 2 ^ 63) : int64 x = x :=
  Int.bmod_eq_of_le (by omega) (by omega)

/-- `class Timestamp`. -/
structure Timestamp where
  microSecondsSinceEpoch_ : Int
  deriving DecidableEq, Repr, Inhabited

namespace Timestamp

/-- `Timestamp()`, the invalid time. -/
def new : Timestamp := ⟨0⟩

/-- `valid()`. -/
def valid (t : Timestamp) : Bool := decide (0 < t.microSecondsSinceEpoch_)

theorem microSecondsSinceEpoch_injective : Function.Injective microSecondsSinceEpoch_ := by
  rintro ⟨a⟩ ⟨b⟩ h
  cases h
  rfl

/-- `operator<` compares the counts. -/
instance : LinearOrder Timestamp :=
  LinearOrder.lift' microSecondsSinceEpoch_ microSecondsSinceEpoch_injective

theorem le_iff {a b : Timestamp} :
    a ≤ b ↔ a.microSecondsSinceEpoch_ ≤ b.microSecondsSinceEpoch_ := Iff.rfl

/-- `Timestamp::kMicroSecondsPerSecond`. -/
def kMicroSecondsPerSecond : Int := 1000 * 1000

/-- `addTime(timestamp, seconds)`; `delta` is `seconds` in whole microseconds. -/
def addTime (timestamp : Timestamp) (delta : Int) : Timestamp :=
  ⟨int64 (timestamp.microSecondsSinceEpoch_ + delta)⟩

end Timestamp

end Muduo.Base
