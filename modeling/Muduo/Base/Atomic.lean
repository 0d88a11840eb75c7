/-
  Base/Atomic.lean --- `muduo/base/Atomic.h`: integers with atomic operations.

  Every operation is one `__sync` builtin, so it is one step of an interleaving; the
  arithmetic wraps around.  Each function returns its result and the new value.
-/
import Mathlib.Tactic.Common

set_option autoImplicit false

namespace Muduo.Base.AtomicInteger

variable {w : Nat}

/-- `getAndAdd(x)`: what it returns, and the new value. -/
def getAndAdd (value x : BitVec w) : BitVec w × BitVec w := (value, value + x)

/-- `addAndGet(x)`. -/
def addAndGet (value x : BitVec w) : BitVec w × BitVec w :=
  let (old, value) := getAndAdd value x
  (old + x, value)

/-- `incrementAndGet()`. -/
def incrementAndGet (value : BitVec w) : BitVec w × BitVec w := addAndGet value 1

theorem incrementAndGet_eq (value : BitVec w) : incrementAndGet value = (value + 1, value + 1) :=
  rfl

end Muduo.Base.AtomicInteger
