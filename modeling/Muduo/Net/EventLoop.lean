/-
  Net/EventLoop.lean --- the functor queue of an `EventLoop`
  (src/muduo/net/EventLoop.cc, `queueInLoop` and `doPendingFunctors`).

  `pendingFunctors_` is shared and guarded by `mutex_`; each critical section is
  one step here.  `functors` is the local vector of `doPendingFunctors`: the part
  of the current batch that has not run yet.  What a functor is, and what running
  one does, is up to the client, so the loop is generic in it.
-/
import Mathlib.Tactic.Common

set_option autoImplicit false

namespace Muduo.Net

/-- The part of `class EventLoop` that concerns queued functors. -/
structure EventLoop (F : Type) where
  pendingFunctors_ : List F
  callingPendingFunctors_ : Bool
  /-- the rest of the batch that `doPendingFunctors` is executing -/
  functors : List F
  deriving DecidableEq, Repr

namespace EventLoop

variable {F : Type}

/-- A loop with nothing queued. -/
def idle : EventLoop F := ⟨[], false, []⟩

/-- The critical section of `queueInLoop`. -/
def queueInLoop (loop : EventLoop F) (cb : F) : EventLoop F :=
  { loop with pendingFunctors_ := loop.pendingFunctors_ ++ [cb] }

/-- `doPendingFunctors` up to the end of its critical section: set the flag and
take the whole queue. -/
def swapPending (loop : EventLoop F) : EventLoop F :=
  { pendingFunctors_ := [], callingPendingFunctors_ := true, functors := loop.pendingFunctors_ }

/-- The end of `doPendingFunctors`. -/
def finishPending (loop : EventLoop F) : EventLoop F :=
  { loop with callingPendingFunctors_ := false }

/-- Everything that is still to run, in the order in which it will. -/
def backlog (loop : EventLoop F) : List F := loop.functors ++ loop.pendingFunctors_

@[simp] theorem backlog_queueInLoop (loop : EventLoop F) (cb : F) :
    (loop.queueInLoop cb).backlog = loop.backlog ++ [cb] := by
  simp [backlog, queueInLoop]

theorem backlog_swapPending {loop : EventLoop F} (h : loop.functors = []) :
    loop.swapPending.backlog = loop.backlog := by
  simp [backlog, swapPending, h]

end EventLoop

end Muduo.Net
