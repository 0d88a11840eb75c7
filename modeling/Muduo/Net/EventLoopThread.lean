/-
  Net/EventLoopThread.lean --- `EventLoopThread` (src/muduo/net/EventLoopThread.cc) and the
  entry and exit of `EventLoop::loop()` (src/muduo/net/EventLoop.cc).

  `threadFunc` constructs the `EventLoop`, calls `callback_`, publishes `loop_` and calls
  `loop()`.  The owner calls `startLoop()`, and `quit()` and `join()` in the destructor.
  Other threads may queue functors at any time.  The loop itself is `LoopSystem`; here are
  added the flag `quit_`, the test of it in front of each `poll`, and the two threads.
-/
import Muduo.Net.LoopWakeup

set_option autoImplicit false

namespace Muduo.Net

open Muduo.Foundation

/-! ## Functors of the loop thread -/

namespace LoopSystem

variable {F : Type} {s : LoopSystem F}

/-- The queue has a functor that the loop thread queued before `loop()`. -/
def OwnPending (s : LoopSystem F) : Prop := ∃ q ∈ s.loop.pendingFunctors_, q.origin = .outside

instance (s : LoopSystem F) : Decidable s.OwnPending :=
  inferInstanceAs (Decidable (∃ q ∈ s.loop.pendingFunctors_, q.origin = .outside))

instance (s : LoopSystem F) : Decidable s.Awake :=
  inferInstanceAs (Decidable (0 < s.counter ∨ s.owing ≠ []))

theorem ownPending_queueInLoop {cb : F} {origin : Origin}
    (h : (s.queueInLoop cb origin).OwnPending) : s.OwnPending ∨ origin = .outside := by
  obtain ⟨q, hq, horigin⟩ := h
  rcases mem_pending_queueInLoop hq with hq | rfl
  · exact .inl ⟨q, hq, horigin⟩
  · exact .inr horigin

theorem step_test (s : LoopSystem F) :
    (s.step .test).pc = s.pc ∧ (s.step .test).testing = false ∧
      (s.step .test).loop = s.loop ∧ s.counter ≤ (s.step .test).counter := by
  simp only [LoopSystem.step]
  split
  · exact ⟨rfl, rfl, rfl, Nat.le_succ s.counter⟩
  · exact ⟨rfl, rfl, rfl, Nat.le_refl s.counter⟩

/-- Outside of `loop()` the loop thread stays there until it calls it. -/
theorem outside_step (hpc : s.pc = .outside) {a : Action F} (hlegal : Legal s a)
    (henter : a ≠ .enter) : (s.step a).pc = .outside := by
  cases a with
  | enter => exact absurd rfl henter
  | pollReturns => exact absurd (hpc.symm.trans hlegal) (by simp)
  | handleRead => exact hpc
  | push cb => exact hpc
  | test => exact (step_test s).1.trans hpc
  | beginPending => exact absurd (hpc.symm.trans hlegal.1) (by simp)
  | swap => exact absurd (hpc.symm.trans hlegal) (by simp)
  | runFunctor => exact absurd (hpc.symm.trans hlegal.1) (by simp)
  | endPending => exact absurd (hpc.symm.trans hlegal.1) (by simp)
  | next => exact absurd (hpc.symm.trans hlegal) (by simp)
  | leave => rfl
  | pushElsewhere t cb => exact hpc
  | wakeupElsewhere t => exact hpc
  | quitElsewhere => exact hpc

/-- Back there it comes only by leaving `loop()`. -/
theorem outside_of_step {a : Action F} (hlegal : Legal s a) (hleave : a ≠ .leave)
    (hpc : (s.step a).pc = .outside) : s.pc = .outside := by
  cases a with
  | leave => exact absurd rfl hleave
  | handleRead => exact hpc
  | push cb => exact hpc
  | test => exact (step_test s).1.symm.trans hpc
  | runFunctor =>
      have hrunning : (s.step .runFunctor).pc = s.pc := by
        simp only [LoopSystem.step]
        split <;> rfl
      exact hrunning.symm.trans hpc
  | pushElsewhere t cb => exact hpc
  | wakeupElsewhere t => exact hpc
  | quitElsewhere => exact hpc
  | _ => exact absurd hpc (by simp [LoopSystem.step])

/-- Only a push leads into the middle of `queueInLoop`. -/
theorem testing_step {a : Action F} (hpush : ∀ cb, a ≠ .push cb) (h : s.testing = false) :
    (s.step a).testing = false := by
  cases a with
  | push cb => exact absurd rfl (hpush cb)
  | test => exact (step_test s).2.1
  | runFunctor =>
      simp only [LoopSystem.step]
      split <;> exact h
  | _ => exact h

/-- Nothing reads the eventfd while the loop thread is in `poll`. -/
theorem polling_step {a : Action F} (hlegal : Legal s a) (henter : a ≠ .enter) (hnext : a ≠ .next)
    (hpc : (s.step a).pc = .polling) : s.pc = .polling ∧ s.counter ≤ (s.step a).counter := by
  cases a with
  | enter => exact absurd rfl henter
  | next => exact absurd rfl hnext
  | handleRead => exact absurd (hlegal.1.symm.trans hpc) (by simp)
  | push cb => exact ⟨hpc, Nat.le_refl s.counter⟩
  | test => exact ⟨(step_test s).1.symm.trans hpc, (step_test s).2.2.2⟩
  | runFunctor =>
      have hrunning : (s.step .runFunctor).pc = s.pc := by
        simp only [LoopSystem.step]
        split <;> rfl
      exact absurd (hlegal.1.symm.trans (hrunning.symm.trans hpc)) (by simp)
  | pushElsewhere t cb => exact ⟨hpc, Nat.le_refl s.counter⟩
  | wakeupElsewhere t => exact ⟨hpc, Nat.le_succ s.counter⟩
  | quitElsewhere => exact ⟨hpc, Nat.le_succ s.counter⟩
  | pollReturns => exact absurd hpc (by simp [LoopSystem.step])
  | beginPending => exact absurd hpc (by simp [LoopSystem.step])
  | swap => exact absurd hpc (by simp [LoopSystem.step])
  | endPending => exact absurd hpc (by simp [LoopSystem.step])
  | leave => exact absurd hpc (by simp [LoopSystem.step])

/-- In `poll` such a functor has a wakeup, and the first swap takes all of them. -/
structure OwnInv (s : LoopSystem F) : Prop where
  polling : s.pc = .polling → s.OwnPending → s.Awake
  clean : s.pc = .running ∨ s.pc = .cleared → ¬ s.OwnPending

theorem ownInv_of_pc (h : s.pc = .outside ∨ s.pc = .handling ∨ s.pc = .calling) : OwnInv s := by
  rcases h with h | h | h
  · exact ⟨by simp [h], by simp [h]⟩
  · exact ⟨by simp [h], by simp [h]⟩
  · exact ⟨by simp [h], by simp [h]⟩

theorem OwnInv.step (h : OwnInv s) (hwake : WakeInv s) {a : Action F} (hlegal : Legal s a)
    (henter : a = .enter → s.OwnPending → s.Awake) : OwnInv (s.step a) := by
  cases a with
  | enter => exact ⟨fun _ => henter rfl, by simp [LoopSystem.step]⟩
  | pollReturns => exact ownInv_of_pc (.inr (.inl rfl))
  | handleRead => exact ownInv_of_pc (.inr (.inl hlegal.1))
  | push cb =>
      rcases hlegal.1 with hpc | hpc | hpc
      · exact ownInv_of_pc (.inl hpc)
      · exact ownInv_of_pc (.inr (.inl hpc))
      · have hpc' : (s.step (.push cb)).pc = .running := hpc
        refine ⟨by simp [hpc'], fun _ hown => ?_⟩
        -- a functor's push is no push before `loop()`
        rcases ownPending_queueInLoop hown with hown | horigin
        · exact h.clean (.inl hpc) hown
        · simp [caller, hpc] at horigin
  | test =>
      have hpc := hwake.testing hlegal
      obtain ⟨hsame, -, hloop, -⟩ := step_test s
      refine ⟨fun hpolling => ?_, fun hrunning => ?_⟩
      · rw [hsame] at hpolling
        simp [hpolling] at hpc
      · rw [hsame] at hrunning
        rw [OwnPending, hloop]
        exact h.clean hrunning
  | beginPending => exact ownInv_of_pc (.inr (.inr rfl))
  | swap =>
      refine ⟨by simp [LoopSystem.step], ?_⟩
      rintro _ ⟨q, hq, _⟩
      exact absurd hq List.not_mem_nil
  | runFunctor =>
      obtain ⟨hpc, _, hne⟩ := hlegal
      obtain ⟨q, rest, hfunctors⟩ := List.exists_cons_of_ne_nil hne
      simp only [LoopSystem.step, hfunctors]
      exact ⟨by simp [hpc], fun _ => h.clean (.inl hpc)⟩
  | endPending => exact ⟨by simp [LoopSystem.step], fun _ => h.clean (.inl hlegal.1)⟩
  | next =>
      have hpc : s.pc = .cleared := hlegal
      exact ⟨fun _ hown => absurd hown (h.clean (.inr hpc)), by simp [LoopSystem.step]⟩
  | leave => exact ownInv_of_pc (.inl rfl)
  | pushElsewhere t cb =>
      refine ⟨fun _ _ => .inr (List.cons_ne_nil _ _), fun hpc hown => ?_⟩
      rcases ownPending_queueInLoop hown with hown | horigin
      · exact h.clean hpc hown
      · exact absurd horigin (by simp)
  | wakeupElsewhere t => exact ⟨fun _ _ => .inl (Nat.succ_pos s.counter), h.clean⟩
  | quitElsewhere => exact ⟨fun _ _ => .inl (Nat.succ_pos s.counter), h.clean⟩

end LoopSystem

/-! ## The two threads -/

/-- Where `threadFunc` is. -/
inductive ThreadPc where
  /-- not started, or before the `EventLoop` is constructed -/
  | idle
  /-- in `callback_` -/
  | callback
  /-- `loop_` is set -/
  | published
  /-- in `loop()`, behind `quit_ = false` -/
  | looping
  /-- `loop()` has returned -/
  | left
  deriving DecidableEq, Repr

/-- Where the owner is. -/
inductive OwnerPc where
  | created
  /-- in `startLoop()` -/
  | starting
  | started
  /-- in `quit()`, `quit_` is set -/
  | quitting
  /-- `quit()` has returned -/
  | joining
  | joined
  deriving DecidableEq, Repr

/-- `class EventLoopThread`, with its loop and the thread that owns it. -/
structure EventLoopThread (F : Type) where
  loop : LoopSystem F
  quit_ : Bool
  thread : ThreadPc
  owner : OwnerPc
  /-- how many times `poll` was started after `quit()` had set `quit_` -/
  latePolls : Nat
  deriving DecidableEq, Repr

namespace EventLoopThread

/-- A step of the owner, of the new thread or of its loop. -/
inductive Action (F : Type) where
  /-- `startLoop()` starts the thread -/
  | startLoop
  /-- `EventLoop loop` -/
  | construct
  /-- `loop_ = &loop` -/
  | publish
  | startLoopReturns
  /-- `loop()` is called, up to `quit_ = false` -/
  | callLoop
  /-- `while (!quit_)` -/
  | testQuit
  /-- a step inside of the loop, in `callback_` or of another thread -/
  | loop (a : LoopSystem.Action F)
  /-- `quit()` of the owner: `quit_ = true` -/
  | setQuit
  /-- `quit()` of the owner: `wakeup()` -/
  | wakeup
  /-- `join()` returns -/
  | join
  deriving DecidableEq, Repr

variable {F : Type}

/-- Before `startLoop()`. -/
def start : EventLoopThread F := ⟨.start, false, .idle, .created, 0⟩

/-- `quit()` has set `quit_`. -/
def QuitSet (s : EventLoopThread F) : Prop :=
  s.owner = .quitting ∨ s.owner = .joining ∨ s.owner = .joined

instance (s : EventLoopThread F) : Decidable s.QuitSet := inferInstanceAs (Decidable (_ ∨ _ ∨ _))

/-- The loop goes on to `poll`, for the first time or again. -/
def poll (s : EventLoopThread F) : EventLoopThread F :=
  { s with
    loop := s.loop.step (if s.loop.pc = .outside then .enter else .next)
    latePolls := if s.QuitSet then s.latePolls + 1 else s.latePolls }

/-- `loop()` returns, before the first iteration or after one. -/
def leave (s : EventLoopThread F) : EventLoopThread F :=
  { s with
    loop := if s.loop.pc = .outside then s.loop else s.loop.step .leave
    thread := .left }

/-- What a step does. -/
def step (s : EventLoopThread F) : Action F → EventLoopThread F
  | .startLoop => { s with owner := .starting }
  | .construct => { s with loop := .start, quit_ := false, thread := .callback }
  | .publish => { s with thread := .published }
  | .startLoopReturns => { s with owner := .started }
  | .callLoop => { s with quit_ := false, thread := .looping }
  | .testQuit => if s.quit_ then s.leave else s.poll
  | .loop a => { s with loop := s.loop.step a }
  | .setQuit => { s with quit_ := true, owner := .quitting }
  | .wakeup => { s with loop := s.loop.step .quitElsewhere, owner := .joining }
  | .join => { s with owner := .joined }

/-- Which steps of the loop are steps of this system: entry and exit are `testQuit`, and
before `loop()` the loop thread runs user code only in `callback_`. -/
def Inner (s : EventLoopThread F) : LoopSystem.Action F → Prop
  | .enter => False
  | .next => False
  | .leave => False
  | .quitElsewhere => False
  | .push _ => s.loop.pc = .outside → s.thread = .callback
  | _ => s.thread ≠ .idle

/-- Program order of the owner and of the thread. -/
def Legal (s : EventLoopThread F) : Action F → Prop
  | .startLoop => s.owner = .created
  | .construct => s.thread = .idle ∧ s.owner ≠ .created
  | .publish => s.thread = .callback ∧ s.loop.testing = false
  | .startLoopReturns => s.owner = .starting ∧ s.thread ≠ .idle ∧ s.thread ≠ .callback
  | .callLoop => s.thread = .published
  | .testQuit => s.thread = .looping ∧ (s.loop.pc = .outside ∨ s.loop.pc = .cleared)
  | .loop a => LoopSystem.Legal s.loop a ∧ s.Inner a
  | .setQuit => s.owner = .started
  | .wakeup => s.owner = .quitting
  | .join => s.owner = .joining ∧ s.thread = .left

instance (s : EventLoopThread F) (a : LoopSystem.Action F) : Decidable (s.Inner a) :=
  match a with
  | .enter => isFalse id
  | .next => isFalse id
  | .leave => isFalse id
  | .quitElsewhere => isFalse id
  | .push _ => inferInstanceAs (Decidable (_ = _ → _ = _))
  | .pollReturns => inferInstanceAs (Decidable (_ ≠ _))
  | .handleRead => inferInstanceAs (Decidable (_ ≠ _))
  | .test => inferInstanceAs (Decidable (_ ≠ _))
  | .beginPending => inferInstanceAs (Decidable (_ ≠ _))
  | .swap => inferInstanceAs (Decidable (_ ≠ _))
  | .runFunctor => inferInstanceAs (Decidable (_ ≠ _))
  | .endPending => inferInstanceAs (Decidable (_ ≠ _))
  | .pushElsewhere _ _ => inferInstanceAs (Decidable (_ ≠ _))
  | .wakeupElsewhere _ => inferInstanceAs (Decidable (_ ≠ _))

instance (s : EventLoopThread F) (a : Action F) : Decidable (Legal s a) :=
  match a with
  | .startLoop => inferInstanceAs (Decidable (_ = _))
  | .construct => inferInstanceAs (Decidable (_ ∧ _))
  | .publish => inferInstanceAs (Decidable (_ ∧ _))
  | .startLoopReturns => inferInstanceAs (Decidable (_ ∧ _ ∧ _))
  | .callLoop => inferInstanceAs (Decidable (_ = _))
  | .testQuit => inferInstanceAs (Decidable (_ ∧ _))
  | .loop a => inferInstanceAs (Decidable (LoopSystem.Legal s.loop a ∧ s.Inner a))
  | .setQuit => inferInstanceAs (Decidable (_ = _))
  | .wakeup => inferInstanceAs (Decidable (_ = _))
  | .join => inferInstanceAs (Decidable (_ ∧ _))

/-- The interleavings of the loop thread, the owner and other threads. -/
def machine (F : Type) : Machine (EventLoopThread F) (Action F) :=
  ⟨fun s a => .ok (s.step a), Legal⟩

/-! ## Requests that come before `loop()` -/

/-- Steps that the loop thread takes by itself; `poll` returns because the eventfd is
readable. -/
def Prompt (s : EventLoopThread F) : Action F → Prop
  | .testQuit => True
  | .loop .pollReturns => 0 < s.loop.counter
  | .loop .test => True
  | .loop .beginPending => True
  | .loop .swap => True
  | .loop .runFunctor => True
  | .loop .endPending => True
  | _ => False

/-- The loop thread gets out of `loop()`, without waiting for anything. -/
def Leaves (s : EventLoopThread F) : Prop :=
  ∃ actions s', ((machine F).restrict Prompt).LegalRun s actions ∧
    (machine F).run s actions = .ok s' ∧ s'.thread = .left

/-- What becomes of a `quit()` and of the functors that the loop thread queues before
`loop()`. -/
structure Honoured (s : EventLoopThread F) : Prop where
  /-- no `poll` is started after `quit_` was set -/
  quit : s.latePolls = 0
  /-- and none blocks -/
  woken : s.QuitSet → s.loop.pc = .polling → 0 < s.loop.counter ∨ s.owner = .quitting
  /-- so that `join()` returns -/
  leaves : s.owner = .joining → s.Leaves
  functors : s.loop.pc = .polling → s.loop.OwnPending → s.loop.Awake

/-- `quit()` comes after `quit_ = false`, and before the first `poll` the queue has no
functor of the loop thread without a wakeup. -/
def InTime (s : EventLoopThread F) : Action F → Prop
  | .setQuit => s.thread = .looping
  | .testQuit => s.loop.pc = .outside → s.loop.OwnPending → s.loop.Awake
  | _ => True

instance (s : EventLoopThread F) (a : Action F) : Decidable (s.InTime a) :=
  match a with
  | .setQuit => inferInstanceAs (Decidable (_ = _))
  | .testQuit =>
      inferInstanceAs (Decidable (s.loop.pc = .outside → s.loop.OwnPending → s.loop.Awake))
  | .startLoop => isTrue trivial
  | .construct => isTrue trivial
  | .publish => isTrue trivial
  | .startLoopReturns => isTrue trivial
  | .callLoop => isTrue trivial
  | .loop _ => isTrue trivial
  | .wakeup => isTrue trivial
  | .join => isTrue trivial

instance (s : EventLoopThread F) (a : Action F) : Decidable ((machine F).legal s a) :=
  inferInstanceAs (Decidable (Legal s a))

instance (s : EventLoopThread F) (a : Action F) :
    Decidable (((machine F).restrict InTime).legal s a) :=
  inferInstanceAs (Decidable (Legal s a ∧ s.InTime a))

/-- What holds in every state. -/
structure Inv (s : EventLoopThread F) : Prop where
  wake : s.loop.WakeInv
  own : s.loop.OwnInv
  quit : s.QuitSet → s.quit_ = true ∧ (s.thread = .looping ∨ s.thread = .left)
  polls : s.latePolls = 0
  woken : s.owner = .joining → s.loop.pc = .polling → 0 < s.loop.counter
  joined : s.owner = .joined → s.thread = .left
  outside : s.thread ≠ .looping → s.loop.pc = .outside
  /-- user code of the loop thread ends before `loop()` -/
  quiet : s.thread ≠ .callback → s.loop.pc = .outside → s.loop.testing = false

section Leave

variable {s : EventLoopThread F}

theorem Leaves.of_step (a : Action F) (hlegal : Legal s a) (hprompt : s.Prompt a)
    (h : (s.step a).Leaves) : s.Leaves := by
  obtain ⟨actions, s', hrest, hrun, hleft⟩ := h
  exact ⟨a :: actions, s', ⟨⟨hlegal, hprompt⟩, hrest⟩, hrun, hleft⟩

theorem leaves_of_left (hthread : s.thread = .left) : s.Leaves :=
  ⟨[], s, trivial, rfl, hthread⟩

/-- `quit_` is set, and the loop thread is in `loop()`. -/
structure Quitting (s : EventLoopThread F) : Prop where
  thread : s.thread = .looping
  quit : s.quit_ = true

namespace Quitting

theorem inner (h : Quitting s) {a : LoopSystem.Action F} (hinner : s.Inner a ↔ s.thread ≠ .idle) :
    s.Inner a :=
  hinner.mpr (by simp [h.thread])

/-- The iteration is over, or there was none. -/
theorem leaves_of_test (h : Quitting s) (hpc : s.loop.pc = .outside ∨ s.loop.pc = .cleared) :
    s.Leaves := by
  refine Leaves.of_step .testQuit ⟨h.thread, hpc⟩ trivial (leaves_of_left ?_)
  rw [show s.step .testQuit = s.leave from if_pos h.quit]
  rfl

/-- The batch is finite. -/
theorem leaves_of_running (h : Quitting s) (hpc : s.loop.pc = .running)
    (htesting : s.loop.testing = false) : s.Leaves := by
  induction hfunctors : s.loop.loop.functors generalizing s with
  | nil =>
      refine Leaves.of_step (.loop .endPending)
        ⟨⟨hpc, htesting, hfunctors⟩, h.inner Iff.rfl⟩ trivial ?_
      exact leaves_of_test ⟨h.thread, h.quit⟩ (.inr rfl)
  | cons q rest ih =>
      have hne : s.loop.loop.functors ≠ [] := by simp [hfunctors]
      refine Leaves.of_step (.loop .runFunctor) ⟨⟨hpc, htesting, hne⟩, h.inner Iff.rfl⟩ trivial ?_
      have hstep : s.loop.step .runFunctor =
          { s.loop with
            loop := { s.loop.loop with functors := rest }
            started := s.loop.started ++ [(q, s.loop.swaps)] } := by
        simp only [LoopSystem.step, hfunctors]
      refine ih ⟨h.thread, h.quit⟩ ?_ ?_ ?_
      · simp only [step, hstep, hpc]
      · simp only [step, hstep, htesting]
      · simp only [step, hstep]

theorem leaves_of_calling (h : Quitting s) (hpc : s.loop.pc = .calling)
    (htesting : s.loop.testing = false) : s.Leaves := by
  refine Leaves.of_step (.loop .swap) ⟨hpc, h.inner Iff.rfl⟩ trivial ?_
  exact leaves_of_running ⟨h.thread, h.quit⟩ rfl htesting

theorem leaves_of_handling (h : Quitting s) (hpc : s.loop.pc = .handling)
    (htesting : s.loop.testing = false) : s.Leaves := by
  refine Leaves.of_step (.loop .beginPending) ⟨⟨hpc, htesting⟩, h.inner Iff.rfl⟩ trivial ?_
  exact leaves_of_calling ⟨h.thread, h.quit⟩ rfl htesting

theorem leaves_of_polling (h : Quitting s) (hpc : s.loop.pc = .polling)
    (htesting : s.loop.testing = false) (hcounter : 0 < s.loop.counter) : s.Leaves := by
  refine Leaves.of_step (.loop .pollReturns) ⟨hpc, h.inner Iff.rfl⟩ hcounter ?_
  exact leaves_of_handling ⟨h.thread, h.quit⟩ rfl htesting

/-- From wherever it is in the iteration, the loop thread gets out. -/
theorem leaves_of_not_testing (h : Quitting s)
    (hcounter : s.loop.pc = .polling → 0 < s.loop.counter) (htesting : s.loop.testing = false) :
    s.Leaves := by
  cases hpc : s.loop.pc with
  | outside => exact h.leaves_of_test (.inl hpc)
  | polling => exact h.leaves_of_polling hpc htesting (hcounter hpc)
  | handling => exact h.leaves_of_handling hpc htesting
  | calling => exact h.leaves_of_calling hpc htesting
  | running => exact h.leaves_of_running hpc htesting
  | cleared => exact h.leaves_of_test (.inr hpc)

theorem leaves (h : Quitting s) (hwake : s.loop.WakeInv)
    (hcounter : s.loop.pc = .polling → 0 < s.loop.counter) : s.Leaves := by
  cases htesting : s.loop.testing with
  | false => exact h.leaves_of_not_testing hcounter htesting
  | true =>
      -- a callback or a functor is in `queueInLoop`
      have hpc : s.loop.pc ≠ .polling := by
        rcases hwake.testing htesting with hpc | hpc | hpc <;> simp [hpc]
      obtain ⟨hsame, hdone, -, -⟩ := LoopSystem.step_test s.loop
      refine Leaves.of_step (.loop .test) ⟨htesting, h.inner Iff.rfl⟩ trivial ?_
      refine leaves_of_not_testing ⟨h.thread, h.quit⟩ (fun hpolling => ?_) hdone
      exact absurd (hsame.symm.trans hpolling) hpc

end Quitting

end Leave

section Steps

variable {s : EventLoopThread F}

theorem Inv.honoured (h : Inv s) : Honoured s := by
  refine ⟨h.polls, fun hquit hpc => ?_, fun howner => ?_, h.own.polling⟩
  · rcases hquit with howner | howner | howner
    · exact .inr howner
    · exact .inl (h.woken howner hpc)
    · have houtside := h.outside (by simp [h.joined howner])
      exact absurd (houtside.symm.trans hpc) (by simp)
  · obtain ⟨hquit, hthread⟩ := h.quit (.inr (.inl howner))
    rcases hthread with hthread | hthread
    · exact Quitting.leaves ⟨hthread, hquit⟩ h.wake (h.woken howner)
    · exact leaves_of_left hthread

theorem inv_start : Inv (start : EventLoopThread F) where
  wake := LoopSystem.wakeInv_start
  own := LoopSystem.ownInv_of_pc (.inl rfl)
  quit h := absurd h (by simp [start, QuitSet])
  polls := rfl
  woken h := absurd h (by simp [start])
  joined h := absurd h (by simp [start])
  outside _ := rfl
  quiet _ _ := rfl

/-- Before the owner is in `quit()`. -/
theorem Inv.not_quitSet (h : Inv s) (hthread : s.thread ≠ .looping) (hleft : s.thread ≠ .left) :
    ¬ s.QuitSet := by
  intro hquit
  rcases (h.quit hquit).2 with hlooping | hthread'
  · exact hthread hlooping
  · exact hleft hthread'

/-- The loop thread is in front of its loop, and goes on in `threadFunc`. -/
theorem Inv.before (h : Inv s) {s' : EventLoopThread F} (hthread : s.thread ≠ .looping)
    (hleft : s.thread ≠ .left) (hloop : s'.loop = s.loop) (howner : s'.owner = s.owner)
    (hpolls : s'.latePolls = s.latePolls)
    (hquiet : s'.thread ≠ .callback → s.loop.testing = false) : Inv s' := by
  have hnot : ¬ s'.QuitSet := by
    rw [QuitSet, howner]
    exact h.not_quitSet hthread hleft
  refine ⟨hloop ▸ h.wake, hloop ▸ h.own, fun hquit => absurd hquit hnot, hpolls.trans h.polls,
    fun hjoining => absurd (.inr (.inl hjoining)) hnot,
    fun hjoined => absurd (.inr (.inr hjoined)) hnot, fun _ => ?_, fun hcallback _ => ?_⟩
  · rw [hloop]
    exact h.outside hthread
  · rw [hloop]
    exact hquiet hcallback

/-- The owner is in `startLoop()`. -/
theorem Inv.owner (h : Inv s) {owner : OwnerPc} (hnot : ¬ { s with owner := owner }.QuitSet) :
    Inv { s with owner := owner } :=
  ⟨h.wake, h.own, fun hset => absurd hset hnot, h.polls,
    fun howner => absurd (.inr (.inl howner)) hnot,
    fun howner => absurd (.inr (.inr howner)) hnot, h.outside, h.quiet⟩

/-- A step of the loop, of `callback_` or of another thread. -/
theorem Inv.loop (h : Inv s) {a : LoopSystem.Action F} (hlegal : LoopSystem.Legal s.loop a)
    (hinner : s.Inner a) : Inv (s.step (.loop a)) := by
  have henter : a ≠ .enter := by
    rintro rfl
    exact hinner
  have hnext : a ≠ .next := by
    rintro rfl
    exact hinner
  have hleave : a ≠ .leave := by
    rintro rfl
    exact hinner
  refine ⟨h.wake.step hlegal, h.own.step h.wake hlegal (fun heq => absurd heq henter), h.quit,
    h.polls, fun howner hpc => ?_, h.joined, fun hthread => ?_, fun hcallback hpc => ?_⟩
  · obtain ⟨hpolling, hle⟩ := LoopSystem.polling_step hlegal henter hnext hpc
    exact Nat.lt_of_lt_of_le (h.woken howner hpolling) hle
  · exact LoopSystem.outside_step (h.outside hthread) hlegal henter
  · have houtside : s.loop.pc = .outside := LoopSystem.outside_of_step hlegal hleave hpc
    refine LoopSystem.testing_step (fun cb heq => ?_) (h.quiet hcallback houtside)
    subst heq
    exact hcallback (hinner houtside)

/-- `while (!quit_)`: after `quit()` it leaves. -/
theorem Inv.testQuit (h : Inv s) (hlegal : Legal s .testQuit) (hintime : s.InTime .testQuit) :
    Inv (s.step .testQuit) := by
  obtain ⟨hthread, hpc⟩ := hlegal
  cases hquit : s.quit_ with
  | true =>
      rw [show s.step .testQuit = s.leave from if_pos hquit]
      have hloop : s.leave.loop.WakeInv ∧ s.leave.loop.pc = .outside ∧
          s.leave.loop.testing = false := by
        rcases hpc with hpc | hpc
        · simp only [leave, if_pos hpc]
          exact ⟨h.wake, hpc, h.quiet (by simp [hthread]) hpc⟩
        · simp only [leave, hpc, if_neg (by simp : ¬ LoopPc.cleared = .outside)]
          exact ⟨h.wake.step hpc, rfl, h.wake.not_testing hpc⟩
      refine ⟨hloop.1, LoopSystem.ownInv_of_pc (.inl hloop.2.1), fun _ => ⟨hquit, .inr rfl⟩,
        h.polls,
        fun _ hpolling => ?_, fun _ => rfl, fun _ => hloop.2.1, fun _ _ => hloop.2.2⟩
      exact absurd (hloop.2.1.symm.trans hpolling) (by simp)
  | false =>
      have hnot : ¬ s.QuitSet := fun hset => absurd (hquit.symm.trans (h.quit hset).1) (by simp)
      rw [show s.step .testQuit = s.poll from if_neg (by simp [hquit])]
      have hloop : s.poll.loop.WakeInv ∧ s.poll.loop.OwnInv ∧ s.poll.loop.pc = .polling := by
        rcases hpc with hpc | hpc
        · have henter : LoopSystem.Legal s.loop .enter := ⟨hpc, h.quiet (by simp [hthread]) hpc⟩
          simp only [poll, if_pos hpc]
          exact ⟨h.wake.step henter, h.own.step h.wake henter fun _ => hintime hpc, rfl⟩
        · have hnext : LoopSystem.Legal s.loop .next := hpc
          simp only [poll, hpc, if_neg (by simp : ¬ LoopPc.cleared = .outside)]
          exact ⟨h.wake.step hnext, h.own.step h.wake hnext (by simp), rfl⟩
      refine ⟨hloop.1, hloop.2.1, fun hset => absurd hset hnot, ?_,
        fun howner => absurd (.inr (.inl howner)) hnot,
        fun howner => absurd (.inr (.inr howner)) hnot, fun hne => absurd hthread hne,
        fun _ houtside => absurd (hloop.2.2.symm.trans houtside) (by simp)⟩
      simp only [poll, if_neg hnot]
      exact h.polls

theorem Inv.step (h : Inv s) {a : Action F} (hlegal : Legal s a) (hintime : s.InTime a) :
    Inv (s.step a) := by
  cases a with
  | startLoop => exact h.owner (by simp [QuitSet])
  | construct =>
      have hnot : ¬ s.QuitSet := h.not_quitSet (by simp [hlegal.1]) (by simp [hlegal.1])
      exact ⟨LoopSystem.wakeInv_start, LoopSystem.ownInv_of_pc (.inl rfl),
        fun hset => absurd hset hnot, h.polls, fun howner => absurd (.inr (.inl howner)) hnot,
        fun howner => absurd (.inr (.inr howner)) hnot, fun _ => rfl, fun _ _ => rfl⟩
  | publish =>
      obtain ⟨hthread, htesting⟩ := hlegal
      exact h.before (by simp [hthread]) (by simp [hthread]) rfl rfl rfl fun _ => htesting
  | startLoopReturns => exact h.owner (by simp [QuitSet])
  | callLoop =>
      have hthread : s.thread = .published := hlegal
      have hpc := h.outside (by simp [hthread])
      exact h.before (by simp [hthread]) (by simp [hthread]) rfl rfl rfl
        fun _ => h.quiet (by simp [hthread]) hpc
  | testQuit => exact h.testQuit hlegal hintime
  | loop a => exact h.loop hlegal.1 hlegal.2
  | setQuit =>
      refine ⟨h.wake, h.own, fun _ => ⟨rfl, .inl hintime⟩, h.polls, fun howner => ?_,
        fun howner => ?_, h.outside, h.quiet⟩
      · exact absurd howner (by simp [EventLoopThread.step])
      · exact absurd howner (by simp [EventLoopThread.step])
  | wakeup =>
      have hset : s.QuitSet := .inl hlegal
      refine ⟨h.wake.step (a := .quitElsewhere) trivial, h.own.step h.wake (a := .quitElsewhere)
        trivial (by simp), fun _ => h.quit hset, h.polls, fun _ _ => Nat.succ_pos _,
        fun howner => ?_, h.outside, h.quiet⟩
      exact absurd howner (by simp [EventLoopThread.step])
  | join =>
      obtain ⟨howner, hleft⟩ := hlegal
      refine ⟨h.wake, h.own, fun _ => h.quit (.inr (.inl howner)), h.polls, fun howner => ?_,
        fun _ => hleft, h.outside, h.quiet⟩
      exact absurd howner (by simp [EventLoopThread.step])

end Steps

/-- In every interleaving in which `quit()` comes after `quit_ = false` and no functor of
the loop thread is left without a wakeup at the first `poll`, what was requested before
`loop()` is honoured. -/
theorem requests_honoured_in_time (F : Type) (actions : List (Action F))
    (hlegal : ((machine F).restrict InTime).LegalRun start actions) :
    ∃ s, (machine F).run start actions = .ok s ∧ Honoured s := by
  have hstep : ∀ (s : EventLoopThread F) a, Inv s → ((machine F).restrict InTime).legal s a →
      ∃ s', ((machine F).restrict InTime).step s a = .ok s' ∧ Inv s' := by
    intro s a hs ha
    exact ⟨_, rfl, hs.step ha.1 ha.2⟩
  obtain ⟨s, hrun, hinv⟩ := Machine.run_invariant Inv hstep inv_start hlegal
  rw [Machine.run_restrict] at hrun
  exact ⟨s, hrun, hinv.honoured⟩

/-- The owner quits while the loop is in its first `poll`. -/
def quitInPoll : List (Action Nat) :=
  [.startLoop, .construct, .publish, .startLoopReturns, .callLoop, .testQuit, .setQuit, .wakeup]

theorem requests_honoured_quitInPoll :
    ((machine Nat).restrict InTime).LegalRun start quitInPoll ∧
      ∃ s, (machine Nat).run start quitInPoll = .ok s ∧ Honoured s := by
  have hlegal : ((machine Nat).restrict InTime).LegalRun start quitInPoll := by decide +kernel
  exact ⟨hlegal, requests_honoured_in_time Nat quitInPoll hlegal⟩

/-- `loop()` has overwritten the `quit_` of the owner. -/
structure Lost (s : EventLoopThread F) : Prop where
  owner : s.owner = .joining
  quit : s.quit_ = false
  thread : s.thread = .looping

theorem Lost.step {s : EventLoopThread F} (h : Lost s) {a : Action F} (hlegal : Legal s a) :
    Lost (s.step a) := by
  cases a with
  | startLoop => exact absurd (h.owner.symm.trans hlegal) (by simp)
  | construct => exact absurd (h.thread.symm.trans hlegal.1) (by simp)
  | publish => exact absurd (h.thread.symm.trans hlegal.1) (by simp)
  | startLoopReturns => exact absurd (h.owner.symm.trans hlegal.1) (by simp)
  | callLoop => exact absurd (h.thread.symm.trans hlegal) (by simp)
  | testQuit =>
      rw [show s.step .testQuit = s.poll from if_neg (by simp [h.quit])]
      exact ⟨h.owner, h.quit, h.thread⟩
  | loop a => exact ⟨h.owner, h.quit, h.thread⟩
  | setQuit => exact absurd (h.owner.symm.trans hlegal) (by simp)
  | wakeup => exact absurd (h.owner.symm.trans hlegal) (by simp)
  | join => exact absurd (h.thread.symm.trans hlegal.2) (by simp)

/-- Then the owner waits for ever. -/
theorem Lost.never_leaves {s : EventLoopThread F} (h : Lost s) {actions : List (Action F)}
    (hlegal : (machine F).LegalRun s actions) :
    ∃ s', (machine F).run s actions = .ok s' ∧ s'.thread = .looping := by
  obtain ⟨s', hrun, hlost⟩ :=
    Machine.run_invariant Lost (fun s a hs ha => ⟨_, rfl, hs.step ha⟩) h hlegal
  exact ⟨s', hrun, hlost.thread⟩

/-- The owner quits before `loop()` is called. -/
def quitBeforeLoop : List (Action Nat) :=
  [.startLoop, .construct, .publish, .startLoopReturns, .setQuit, .wakeup, .callLoop, .testQuit]

/-- `callback_` queues a functor. -/
def queuedBeforeLoop : List (Action Nat) :=
  [.startLoop, .construct, .loop (.push 1), .loop .test, .publish, .callLoop, .testQuit]

/-- After an early `quit()` the loop polls and never leaves, and it blocks in its first
`poll` with an early functor in the queue. -/
theorem early_requests_lost :
    ((machine Nat).LegalRun start quitBeforeLoop ∧
      ∃ s, (machine Nat).run start quitBeforeLoop = .ok s ∧ ¬ Honoured s ∧
        ∀ actions, (machine Nat).LegalRun s actions →
          ∃ s', (machine Nat).run s actions = .ok s' ∧ s'.thread = .looping) ∧
    ((machine Nat).LegalRun start queuedBeforeLoop ∧
      ∃ s, (machine Nat).run start queuedBeforeLoop = .ok s ∧ ¬ Honoured s) := by
  refine ⟨⟨by decide +kernel, ?_⟩, ⟨by decide +kernel, ?_⟩⟩
  · refine ⟨_, rfl, fun h => absurd h.quit (by decide), fun actions hlegal => ?_⟩
    exact Lost.never_leaves ⟨rfl, rfl, rfl⟩ hlegal
  · refine ⟨_, rfl, fun h => absurd (h.functors rfl (by decide)) (by decide)⟩

end EventLoopThread

end Muduo.Net
