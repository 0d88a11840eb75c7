/-
  Net/LoopFunctors.lean --- the functor queue of an `EventLoop` under concurrency
  (src/muduo/net/EventLoop.cc, `loop`, `queueInLoop`, `doPendingFunctors`, `wakeup`).

  The loop thread goes round: it polls, handles events, takes the queue and runs it.
  Any number of other threads push functors, and so do the event callbacks and the
  functors themselves.  A step is one access to shared data: the push under `mutex_`, the
  write to the eventfd, the swap under `mutex_`, the two changes of
  `callingPendingFunctors_`.  What the functors are is left open.

  Each functor is queued together with a record of its push, so that the histories
  `pushed` and `started` can be compared with the queue: who pushed it, and how often the
  queue had been taken before.  The code has no such record.
-/
import Muduo.Foundation.Machine
import Muduo.Net.EventLoop

set_option autoImplicit false

namespace Muduo.Net

open Muduo.Foundation

/-! ## The loop thread and the others -/

/-- Who pushed a functor. -/
inductive Origin where
  | thread (t : Nat)
  /-- the loop thread, outside of `loop()` -/
  | outside
  /-- an event callback -/
  | callback
  /-- a functor of the given batch -/
  | functor (batch : Nat)
  deriving DecidableEq, Repr

/-- A functor with the record of its push. -/
structure Queued (F : Type) where
  functor : F
  origin : Origin
  /-- how often the queue had been taken before -/
  after : Nat
  deriving DecidableEq, Repr

/-- Where the loop thread is. -/
inductive LoopPc where
  /-- not in `loop()` -/
  | outside
  /-- about to call `poll`, or blocked in it -/
  | polling
  /-- in the event callbacks -/
  | handling
  /-- in `doPendingFunctors`, `callingPendingFunctors_` is set -/
  | calling
  /-- in `doPendingFunctors`, the queue is taken -/
  | running
  /-- at the end of `doPendingFunctors`, `callingPendingFunctors_` is cleared -/
  | cleared
  deriving DecidableEq, Repr

/-- A loop and the threads that queue functors. -/
structure LoopSystem (F : Type) where
  loop : EventLoop (Queued F)
  pc : LoopPc
  /-- the loop thread is in `queueInLoop` and has pushed -/
  testing : Bool
  /-- the other threads that are in `queueInLoop` and have pushed -/
  owing : List Nat
  /-- the counter of `wakeupFd_` -/
  counter : Nat
  /-- how often the queue has been taken -/
  swaps : Nat
  pushed : List (Queued F)
  /-- the functors that were called, each with the number of its batch -/
  started : List (Queued F × Nat)
  deriving DecidableEq, Repr

namespace LoopSystem

/-- A step of the loop thread, or of another one in `queueInLoop`. -/
inductive Action (F : Type) where
  /-- `loop()` is called -/
  | enter
  | pollReturns
  /-- `handleRead`, the callback of `wakeupChannel_` -/
  | handleRead
  /-- `queueInLoop` in the loop thread: the push -/
  | push (cb : F)
  /-- `queueInLoop` in the loop thread: the rest -/
  | test
  /-- `doPendingFunctors`: set `callingPendingFunctors_` -/
  | beginPending
  | swap
  /-- `doPendingFunctors` calls the next functor -/
  | runFunctor
  /-- `doPendingFunctors`: clear `callingPendingFunctors_` -/
  | endPending
  /-- `while (!quit_)` goes round -/
  | next
  /-- `loop()` returns -/
  | leave
  /-- `queueInLoop` in another thread: the push -/
  | pushElsewhere (t : Nat) (cb : F)
  /-- `queueInLoop` in another thread: `wakeup()` -/
  | wakeupElsewhere (t : Nat)
  /-- `wakeup()` of another thread's `quit()` -/
  | quitElsewhere
  deriving DecidableEq, Repr

variable {F : Type}

/-- Before `loop()`. -/
def start : LoopSystem F := ⟨.idle, .outside, false, [], 0, 0, [], []⟩

/-- `wakeup()`. -/
def wakeup (s : LoopSystem F) : LoopSystem F := { s with counter := s.counter + 1 }

/-- The push of `queueInLoop`. -/
def queueInLoop (s : LoopSystem F) (cb : F) (origin : Origin) : LoopSystem F :=
  { s with
    loop := s.loop.queueInLoop ⟨cb, origin, s.swaps⟩
    pushed := s.pushed ++ [⟨cb, origin, s.swaps⟩] }

/-- Whose code the loop thread is executing. -/
def caller (s : LoopSystem F) : Origin :=
  match s.pc with
  | .outside => .outside
  | .running => .functor s.swaps
  | _ => .callback

/-- What a step does. -/
def step (s : LoopSystem F) : Action F → LoopSystem F
  | .enter => { s with pc := .polling }
  | .pollReturns => { s with pc := .handling }
  | .handleRead => { s with counter := 0 }
  | .push cb => { s.queueInLoop cb s.caller with testing := true }
  | .test =>
      let s := { s with testing := false }
      if s.loop.callingPendingFunctors_ then s.wakeup else s
  | .beginPending =>
      { s with loop := { s.loop with callingPendingFunctors_ := true }, pc := .calling }
  | .swap => { s with loop := s.loop.swapPending, pc := .running, swaps := s.swaps + 1 }
  | .runFunctor =>
      match s.loop.functors with
      | [] => s
      | q :: rest =>
          { s with
            loop := { s.loop with functors := rest }
            started := s.started ++ [(q, s.swaps)] }
  | .endPending => { s with loop := s.loop.finishPending, pc := .cleared }
  | .next => { s with pc := .polling }
  | .leave => { s with pc := .outside }
  | .pushElsewhere t cb => { s.queueInLoop cb (.thread t) with owing := t :: s.owing }
  | .wakeupElsewhere t => { s.wakeup with owing := s.owing.erase t }
  | .quitElsewhere => s.wakeup

/-- The loop thread takes its steps in the order of the source; user code runs outside of
`loop()`, in callbacks and in functors.  Another thread is in one `queueInLoop` at a
time. -/
def Legal (s : LoopSystem F) : Action F → Prop
  | .enter => s.pc = .outside ∧ s.testing = false
  | .pollReturns => s.pc = .polling
  | .handleRead => s.pc = .handling ∧ s.testing = false
  | .push _ => (s.pc = .outside ∨ s.pc = .handling ∨ s.pc = .running) ∧ s.testing = false
  | .test => s.testing = true
  | .beginPending => s.pc = .handling ∧ s.testing = false
  | .swap => s.pc = .calling
  | .runFunctor => s.pc = .running ∧ s.testing = false ∧ s.loop.functors ≠ []
  | .endPending => s.pc = .running ∧ s.testing = false ∧ s.loop.functors = []
  | .next => s.pc = .cleared
  | .leave => s.pc = .cleared
  | .pushElsewhere t _ => t ∉ s.owing
  | .wakeupElsewhere t => t ∈ s.owing
  | .quitElsewhere => True

instance (s : LoopSystem F) (a : Action F) : Decidable (Legal s a) :=
  match a with
  | .enter => inferInstanceAs (Decidable (_ ∧ _))
  | .pollReturns => inferInstanceAs (Decidable (_ = _))
  | .handleRead => inferInstanceAs (Decidable (_ ∧ _))
  | .push _ => inferInstanceAs (Decidable (_ ∧ _))
  | .test => inferInstanceAs (Decidable (_ = _))
  | .beginPending => inferInstanceAs (Decidable (_ ∧ _))
  | .swap => inferInstanceAs (Decidable (_ = _))
  | .runFunctor =>
      match hfunctors : s.loop.functors with
      | [] => isFalse fun h => h.2.2 hfunctors
      | _ :: _ =>
          decidable_of_iff (s.pc = .running ∧ s.testing = false) (by simp [Legal, hfunctors])
  | .endPending =>
      match hfunctors : s.loop.functors with
      | [] => decidable_of_iff (s.pc = .running ∧ s.testing = false) (by simp [Legal, hfunctors])
      | _ :: _ => isFalse fun h => absurd (hfunctors.symm.trans h.2.2) (by simp)
  | .next => inferInstanceAs (Decidable (_ = _))
  | .leave => inferInstanceAs (Decidable (_ = _))
  | .pushElsewhere _ _ => inferInstanceAs (Decidable (_ ∉ _))
  | .wakeupElsewhere _ => inferInstanceAs (Decidable (_ ∈ _))
  | .quitElsewhere => isTrue trivial

/-- The interleavings of the loop thread with the others. -/
def machine (F : Type) : Machine (LoopSystem F) (Action F) := ⟨fun s a => .ok (s.step a), Legal⟩

instance (s : LoopSystem F) (a : Action F) : Decidable ((machine F).legal s a) :=
  inferInstanceAs (Decidable (Legal s a))

/-! ## Order and batches -/

/-- Every functor runs once, in the order of the pushes, and in the first batch that is
taken after its push. -/
structure InOrder (s : LoopSystem F) : Prop where
  /-- started, rest of the batch, queue -/
  order : s.started.map Prod.fst ++ s.loop.functors ++ s.loop.pendingFunctors_ = s.pushed
  /-- a functor is run in the batch of the next swap -/
  batch : ∀ q k, (q, k) ∈ s.started → k = q.after + 1
  /-- when a batch is done, everything pushed before its swap has been run -/
  done : s.loop.functors = [] → ∀ q ∈ s.pushed, q.after < s.swaps → (q, q.after + 1) ∈ s.started
  /-- what a functor of batch `k` pushes runs in a later batch -/
  later : ∀ q k k', (q, k') ∈ s.started → q.origin = .functor k → k < k'

/-- The records of the pushes agree with the places where the functors are. -/
structure OrderInv (s : LoopSystem F) : Prop where
  order : s.started.map Prod.fst ++ s.loop.functors ++ s.loop.pendingFunctors_ = s.pushed
  pending : ∀ q ∈ s.loop.pendingFunctors_, q.after = s.swaps
  functors : ∀ q ∈ s.loop.functors, q.after + 1 = s.swaps
  started : ∀ q k, (q, k) ∈ s.started → k = q.after + 1
  origin : ∀ q ∈ s.pushed, ∀ k, q.origin = .functor k → k = q.after
  idle : s.pc ≠ .running → s.loop.functors = []

section Steps

variable {s : LoopSystem F}

theorem orderInv_start : OrderInv (start : LoopSystem F) where
  order := rfl
  pending _ h := absurd h List.not_mem_nil
  functors _ h := absurd h List.not_mem_nil
  started _ _ h := absurd h List.not_mem_nil
  origin _ h := absurd h List.not_mem_nil
  idle _ := rfl

theorem mem_pending_queueInLoop {cb : F} {origin : Origin} {q : Queued F}
    (h : q ∈ (s.queueInLoop cb origin).loop.pendingFunctors_) :
    q ∈ s.loop.pendingFunctors_ ∨ q = ⟨cb, origin, s.swaps⟩ := by
  simpa only [LoopSystem.queueInLoop, EventLoop.queueInLoop, List.mem_append,
    List.mem_singleton] using h

/-- Steps that leave the queue, the histories and the count of swaps alone. -/
theorem OrderInv.congr (h : OrderInv s) {s' : LoopSystem F}
    (hpending : s'.loop.pendingFunctors_ = s.loop.pendingFunctors_)
    (hfunctors : s'.loop.functors = s.loop.functors) (hswaps : s'.swaps = s.swaps)
    (hpushed : s'.pushed = s.pushed) (hstarted : s'.started = s.started)
    (hidle : s'.pc ≠ .running → s.loop.functors = []) : OrderInv s' := by
  refine ⟨?_, ?_, ?_, ?_, ?_, fun hpc => hfunctors.trans (hidle hpc)⟩
  · rw [hstarted, hfunctors, hpending, hpushed]
    exact h.order
  · rw [hpending, hswaps]
    exact h.pending
  · rw [hfunctors, hswaps]
    exact h.functors
  · rw [hstarted]
    exact h.started
  · rw [hpushed]
    exact h.origin

/-- A push joins the end of the queue and of the history. -/
theorem OrderInv.queueInLoop (h : OrderInv s) (cb : F) {origin : Origin}
    (horigin : ∀ k, origin = .functor k → k = s.swaps) : OrderInv (s.queueInLoop cb origin) := by
  refine ⟨?_, ?_, h.functors, h.started, ?_, h.idle⟩
  · simp only [LoopSystem.queueInLoop, EventLoop.queueInLoop]
    rw [← List.append_assoc, h.order]
  · intro q hq
    rcases mem_pending_queueInLoop hq with hq | rfl
    · exact h.pending q hq
    · rfl
  · intro q hq
    simp only [LoopSystem.queueInLoop, List.mem_append, List.mem_singleton] at hq
    rcases hq with hq | rfl
    · exact h.origin q hq
    · exact horigin

/-- The queue becomes the next batch. -/
theorem OrderInv.swap (h : OrderInv s) (hbatch : s.loop.functors = []) :
    OrderInv (s.step .swap) := by
  refine ⟨?_, fun q hq => absurd hq List.not_mem_nil, ?_, h.started, h.origin,
    fun hpc => absurd rfl hpc⟩
  · have horder := h.order
    rw [hbatch, List.append_nil] at horder
    show s.started.map Prod.fst ++ s.loop.pendingFunctors_ ++ [] = s.pushed
    rw [List.append_nil]
    exact horder
  · intro q hq
    exact congrArg (· + 1) (h.pending q hq)

/-- The first functor of the batch is called. -/
theorem OrderInv.runFunctor (h : OrderInv s) (hpc : s.pc = .running) {q : Queued F}
    {rest : List (Queued F)} (hfunctors : s.loop.functors = q :: rest) :
    OrderInv (s.step .runFunctor) := by
  have hstep : s.step .runFunctor =
      { s with
        loop := { s.loop with functors := rest }
        started := s.started ++ [(q, s.swaps)] } := by
    simp only [step, hfunctors]
  rw [hstep]
  refine ⟨?_, h.pending, ?_, ?_, h.origin, fun hnot => absurd hpc hnot⟩
  · have horder := h.order
    rw [hfunctors] at horder
    simpa using horder
  · intro q' hq'
    exact h.functors q' (hfunctors ▸ List.mem_cons_of_mem q hq')
  · intro q' k hmem
    simp only [List.mem_append, List.mem_singleton, Prod.mk.injEq] at hmem
    rcases hmem with hmem | ⟨rfl, rfl⟩
    · exact h.started q' k hmem
    · exact (h.functors q' (hfunctors ▸ List.mem_cons_self)).symm

theorem caller_functor {k : Nat} (h : s.caller = .functor k) : k = s.swaps := by
  unfold caller at h
  split at h
  · exact absurd h (by simp)
  · exact (Origin.functor.inj h).symm
  · exact absurd h (by simp)

theorem OrderInv.step (h : OrderInv s) {a : Action F} (hlegal : Legal s a) :
    OrderInv (s.step a) := by
  cases a with
  | enter => exact h.congr rfl rfl rfl rfl rfl fun _ => h.idle (by simp [hlegal.1])
  | pollReturns =>
      have hpc : s.pc = .polling := hlegal
      exact h.congr rfl rfl rfl rfl rfl fun _ => h.idle (by simp [hpc])
  | handleRead => exact h.congr rfl rfl rfl rfl rfl h.idle
  | push cb =>
      have hpush := h.queueInLoop cb (fun k hk => caller_functor hk)
      exact hpush.congr rfl rfl rfl rfl rfl hpush.idle
  | test =>
      simp only [LoopSystem.step]
      split
      · exact h.congr rfl rfl rfl rfl rfl h.idle
      · exact h.congr rfl rfl rfl rfl rfl h.idle
  | beginPending => exact h.congr rfl rfl rfl rfl rfl fun _ => h.idle (by simp [hlegal.1])
  | swap =>
      have hpc : s.pc = .calling := hlegal
      exact h.swap (h.idle (by simp [hpc]))
  | runFunctor =>
      obtain ⟨hpc, _, hne⟩ := hlegal
      obtain ⟨q, rest, hfunctors⟩ := List.exists_cons_of_ne_nil hne
      exact h.runFunctor hpc hfunctors
  | endPending => exact h.congr rfl rfl rfl rfl rfl fun _ => hlegal.2.2
  | next =>
      have hpc : s.pc = .cleared := hlegal
      exact h.congr rfl rfl rfl rfl rfl fun _ => h.idle (by simp [hpc])
  | leave =>
      have hpc : s.pc = .cleared := hlegal
      exact h.congr rfl rfl rfl rfl rfl fun _ => h.idle (by simp [hpc])
  | pushElsewhere t cb =>
      have hpush := h.queueInLoop cb (fun k hk => absurd (hk : Origin.thread t = _) (by simp))
      exact hpush.congr rfl rfl rfl rfl rfl hpush.idle
  | wakeupElsewhere t => exact h.congr rfl rfl rfl rfl rfl h.idle
  | quitElsewhere => exact h.congr rfl rfl rfl rfl rfl h.idle

theorem OrderInv.inOrder (h : OrderInv s) : InOrder s := by
  refine ⟨h.order, h.started, ?_, ?_⟩
  · intro hbatch q hq hafter
    have horder := h.order
    rw [hbatch, List.append_nil] at horder
    rw [← horder, List.mem_append] at hq
    rcases hq with hq | hq
    · obtain ⟨⟨q', k⟩, hmem, rfl⟩ := List.mem_map.mp hq
      exact h.started q' k hmem ▸ hmem
    · exact absurd (h.pending q hq) (Nat.ne_of_lt hafter)
  · intro q k k' hmem horigin
    have hpushed : q ∈ s.pushed := by
      rw [← h.order, List.append_assoc]
      exact List.mem_append_left _ (List.mem_map.mpr ⟨(q, k'), hmem, rfl⟩)
    rw [h.started q k' hmem, h.origin q hpushed k horigin]
    exact Nat.lt_succ_self q.after

end Steps

/-- In every interleaving, queued functors run exactly once, in the order of the pushes,
each in the first batch taken after its push. -/
theorem functors_run_in_order (F : Type) (actions : List (Action F))
    (hlegal : (machine F).LegalRun start actions) :
    ∃ s, (machine F).run start actions = .ok s ∧ InOrder s := by
  have hstep : ∀ (s : LoopSystem F) a, OrderInv s → (machine F).legal s a →
      ∃ s', (machine F).step s a = .ok s' ∧ OrderInv s' := by
    intro s a hs ha
    exact ⟨_, rfl, hs.step ha⟩
  obtain ⟨s, hrun, hinv⟩ := Machine.run_invariant OrderInv hstep orderInv_start hlegal
  exact ⟨s, hrun, hinv.inOrder⟩

/-- Two threads and a callback push; the functor of the callback pushes another one. -/
def sampleRun : List (Action Nat) :=
  [.enter, .pushElsewhere 1 10, .pollReturns, .push 20, .test, .beginPending, .pushElsewhere 2 30,
    .swap, .wakeupElsewhere 1, .runFunctor, .runFunctor, .push 40, .test, .runFunctor,
    .wakeupElsewhere 2, .endPending, .next, .pollReturns, .handleRead, .beginPending, .swap,
    .runFunctor]

theorem functors_run_in_order_sampleRun :
    (machine Nat).LegalRun start sampleRun ∧
      ∃ s, (machine Nat).run start sampleRun = .ok s ∧ InOrder s := by
  have hlegal : (machine Nat).LegalRun start sampleRun := by decide +kernel
  exact ⟨hlegal, functors_run_in_order Nat sampleRun hlegal⟩

end LoopSystem

end Muduo.Net
