/-
  Net/LoopWakeup.lean --- a queued functor does not wait for the next event.

  `queueInLoop` writes to the eventfd unless it runs in an event callback, where
  `doPendingFunctors` is still to come in the same iteration.  The eventfd is read in the
  event callbacks, before the queue is taken.  So from the swap on, through the next
  `poll`, a functor in the queue has a wakeup that is written or about to be.
-/
import Muduo.Net.LoopFunctors

set_option autoImplicit false

namespace Muduo.Net.LoopSystem

open Muduo.Foundation

variable {F : Type}

/-- The queue has a functor that was pushed by another thread or inside `loop()`. -/
def Due (s : LoopSystem F) : Prop := ∃ q ∈ s.loop.pendingFunctors_, q.origin ≠ .outside

/-- The eventfd is readable, or another thread is about to write to it. -/
def Awake (s : LoopSystem F) : Prop := 0 < s.counter ∨ s.owing ≠ []

/-- Where the loop thread may only leave functors in the queue if it will be woken. -/
structure WakeInv (s : LoopSystem F) : Prop where
  flag : s.pc = .running → s.loop.callingPendingFunctors_ = true
  testing : s.testing = true → s.pc = .outside ∨ s.pc = .handling ∨ s.pc = .running
  awake : s.pc ≠ .handling → s.pc ≠ .calling → s.Due →
    s.Awake ∨ s.testing = true ∧ s.pc = .running

section Steps

variable {s : LoopSystem F}

theorem wakeInv_start : WakeInv (start : LoopSystem F) := by
  refine ⟨fun h => absurd h (by simp [start]), fun h => absurd h (by simp [start]), ?_⟩
  rintro _ _ ⟨q, hq, _⟩
  exact absurd hq List.not_mem_nil

/-- While the loop thread is in a callback, the swap is still to come. -/
theorem wakeInv_of_handling (hpc : s.pc = .handling ∨ s.pc = .calling)
    (htesting : s.testing = true → s.pc = .handling) : WakeInv s := by
  refine ⟨?_, fun h => .inr (.inl (htesting h)), ?_⟩
  · intro hrunning
    rcases hpc with hpc | hpc
    · exact absurd (hpc.symm.trans hrunning) (by simp)
    · exact absurd (hpc.symm.trans hrunning) (by simp)
  · intro hhandling hcalling
    rcases hpc with hpc | hpc
    · exact absurd hpc hhandling
    · exact absurd hpc hcalling

/-- The loop thread goes on to a place where it is not in user code. -/
theorem WakeInv.move (h : WakeInv s) {s' : LoopSystem F} (hpc : s.pc ≠ .handling)
    (hpc' : s.pc ≠ .calling) (htesting : s.testing = false) (htesting' : s'.testing = false)
    (hpending : s'.loop.pendingFunctors_ = s.loop.pendingFunctors_)
    (hcounter : s'.counter = s.counter) (howing : s'.owing = s.owing)
    (hflag : s'.pc = .running → s'.loop.callingPendingFunctors_ = true) : WakeInv s' := by
  refine ⟨hflag, fun ht => absurd (htesting'.symm.trans ht) (by simp), fun _ _ hdue => .inl ?_⟩
  rw [Due, hpending] at hdue
  rw [Awake, hcounter, howing]
  refine (h.awake hpc hpc' hdue).resolve_right fun hmid => ?_
  exact absurd (htesting.symm.trans hmid.1) (by simp)

/-- A wakeup makes everything awake. -/
theorem WakeInv.of_counter (h : WakeInv s) {s' : LoopSystem F} (hloop : s'.loop = s.loop)
    (hpc : s'.pc = s.pc) (htesting : s'.testing = true → s.testing = true)
    (hcounter : 0 < s'.counter) : WakeInv s' := by
  refine ⟨?_, ?_, fun _ _ _ => .inl (.inl hcounter)⟩
  · rw [hpc, hloop]
    exact h.flag
  · rw [hpc]
    exact fun ht => h.testing (htesting ht)

theorem due_queueInLoop {cb : F} {origin : Origin} (h : (s.queueInLoop cb origin).Due) :
    s.Due ∨ origin ≠ .outside := by
  obtain ⟨q, hq, horigin⟩ := h
  rcases mem_pending_queueInLoop hq with hq | rfl
  · exact .inl ⟨q, hq, horigin⟩
  · exact .inr horigin

/-- The loop thread pushes: outside of `loop()` nothing becomes due, in a functor the
test follows. -/
theorem WakeInv.push (h : WakeInv s) {cb : F} (hlegal : Legal s (.push cb)) :
    WakeInv (s.step (.push cb)) := by
  obtain ⟨hpc, htesting⟩ := hlegal
  refine ⟨h.flag, fun _ => hpc, fun hhandling hcalling hdue => ?_⟩
  have hold : s.Due → s.Awake := by
    intro hdue
    refine (h.awake hhandling hcalling hdue).resolve_right fun hmid => ?_
    exact absurd (htesting.symm.trans hmid.1) (by simp)
  rcases hpc with hpc | hpc | hpc
  · have hcaller : s.caller = .outside := by simp [caller, hpc]
    exact .inl (hold ((due_queueInLoop hdue).resolve_right fun hne => hne hcaller))
  · exact absurd hpc hhandling
  · exact .inr ⟨rfl, hpc⟩

/-- The rest of `queueInLoop` writes to the eventfd when functors are being called. -/
theorem WakeInv.test (h : WakeInv s) : WakeInv (s.step .test) := by
  by_cases hflag : s.loop.callingPendingFunctors_ = true
  · have hstep : s.step .test = { s with testing := false, counter := s.counter + 1 } := by
      simp only [LoopSystem.step, hflag, if_true]
      rfl
    rw [hstep]
    exact h.of_counter rfl rfl (fun ht => absurd ht (by simp)) (Nat.succ_pos s.counter)
  · have hstep : s.step .test = { s with testing := false } := by
      simp only [LoopSystem.step, if_neg hflag]
    rw [hstep]
    refine ⟨h.flag, fun ht => absurd ht (by simp), fun hhandling hcalling hdue => .inl ?_⟩
    exact (h.awake hhandling hcalling hdue).resolve_right fun hmid => hflag (h.flag hmid.2)

theorem WakeInv.not_testing (h : WakeInv s) (hpc : s.pc = .cleared) : s.testing = false := by
  rw [Bool.eq_false_iff]
  intro ht
  rcases h.testing ht with hn | hn | hn
  · exact absurd (hpc.symm.trans hn) (by simp)
  · exact absurd (hpc.symm.trans hn) (by simp)
  · exact absurd (hpc.symm.trans hn) (by simp)

/-- The iteration is over. -/
theorem WakeInv.of_cleared (h : WakeInv s) (hpc : s.pc = .cleared) {pc : LoopPc}
    (hpc' : pc ≠ .running) : WakeInv { s with pc := pc } := by
  have htesting := h.not_testing hpc
  exact h.move (by simp [hpc]) (by simp [hpc]) htesting htesting rfl rfl rfl
    fun hrunning => absurd hrunning hpc'

theorem WakeInv.step (h : WakeInv s) {a : Action F} (hlegal : Legal s a) : WakeInv (s.step a) := by
  cases a with
  | enter =>
      obtain ⟨hpc, htesting⟩ := hlegal
      exact h.move (by simp [hpc]) (by simp [hpc]) htesting htesting rfl rfl rfl
        fun hrunning => absurd hrunning (by simp [LoopSystem.step])
  | pollReturns => exact wakeInv_of_handling (.inl rfl) fun _ => rfl
  | handleRead => exact wakeInv_of_handling (.inl hlegal.1) fun _ => hlegal.1
  | push cb => exact h.push hlegal
  | test => exact h.test
  | beginPending =>
      exact wakeInv_of_handling (.inr rfl) fun ht => absurd (hlegal.2.symm.trans ht) (by simp)
  | swap =>
      have hpc : s.pc = .calling := hlegal
      refine ⟨fun _ => rfl, fun _ => .inr (.inr rfl), ?_⟩
      -- the queue is empty
      rintro _ _ ⟨q, hq, _⟩
      exact absurd hq List.not_mem_nil
  | runFunctor =>
      obtain ⟨hpc, htesting, hne⟩ := hlegal
      obtain ⟨q, rest, hfunctors⟩ := List.exists_cons_of_ne_nil hne
      simp only [LoopSystem.step, hfunctors]
      exact h.move (by simp [hpc]) (by simp [hpc]) htesting htesting rfl rfl rfl h.flag
  | endPending =>
      obtain ⟨hpc, htesting, _⟩ := hlegal
      exact h.move (by simp [hpc]) (by simp [hpc]) htesting htesting rfl rfl rfl
        fun hrunning => absurd hrunning (by simp [LoopSystem.step])
  | next => exact h.of_cleared hlegal (by simp)
  | leave => exact h.of_cleared hlegal (by simp)
  | pushElsewhere t cb =>
      exact ⟨h.flag, h.testing, fun _ _ _ => .inl (.inr (List.cons_ne_nil _ _))⟩
  | wakeupElsewhere t =>
      exact h.of_counter rfl rfl id (Nat.succ_pos s.counter)
  | quitElsewhere => exact h.of_counter rfl rfl id (Nat.succ_pos s.counter)

end Steps

/-- In every interleaving, when the loop thread enters `poll` or is blocked in it and the
queue has a functor that is due, the eventfd is readable or another thread has pushed and
not written to it yet. -/
theorem no_lost_wakeup (F : Type) (actions : List (Action F))
    (hlegal : (machine F).LegalRun start actions) :
    ∃ s, (machine F).run start actions = .ok s ∧ (s.pc = .polling → s.Due → s.Awake) := by
  have hstep : ∀ (s : LoopSystem F) a, WakeInv s → (machine F).legal s a →
      ∃ s', (machine F).step s a = .ok s' ∧ WakeInv s' := by
    intro s a hs ha
    exact ⟨_, rfl, hs.step ha⟩
  obtain ⟨s, hrun, hinv⟩ := Machine.run_invariant WakeInv hstep wakeInv_start hlegal
  refine ⟨s, hrun, fun hpc hdue => ?_⟩
  refine (hinv.awake (by simp [hpc]) (by simp [hpc]) hdue).resolve_right fun hmid => ?_
  exact absurd (hpc.symm.trans hmid.2) (by simp)

/-- A functor pushes another one, and the eventfd was read before. -/
def busyRun : List (Action Nat) :=
  [.enter, .pushElsewhere 1 10, .wakeupElsewhere 1, .pollReturns, .handleRead, .beginPending, .swap,
    .runFunctor, .push 20, .test, .endPending, .next]

theorem no_lost_wakeup_busyRun :
    (machine Nat).LegalRun start busyRun ∧
      ∃ s, (machine Nat).run start busyRun = .ok s ∧ (s.pc = .polling → s.Due → s.Awake) := by
  have hlegal : (machine Nat).LegalRun start busyRun := by decide +kernel
  exact ⟨hlegal, no_lost_wakeup Nat busyRun hlegal⟩

end Muduo.Net.LoopSystem
