/-
  Base/BlockingQueue.lean --- `BlockingQueue<T>` (src/muduo/base/BlockingQueue.h).

  The queue without a bound differs from `BoundedBlockingQueue<T>` in what it lacks: `put`
  never waits, and `take` notifies nobody.  So it is the bounded queue with a capacity that
  a run never reaches: `expand` turns each step into the steps of the bounded queue, and
  every run of the one is a run of the other (`simulates_bounded`).  What holds of the
  bounded queue then holds here.
-/
import Muduo.Base.BoundedBlockingQueue

set_option autoImplicit false

namespace Muduo.Base

open Muduo.Foundation

/-- `class BlockingQueue<T>` and the threads; the places of a thread are those of
`BoundedBlockingQueue`.  `pushed` and `taken` are the values so far. -/
structure BlockingQueue (T : Type) where
  queue_ : List T
  threads : List (Pc T)
  pushed : List T
  taken : List T
  deriving DecidableEq, Repr

namespace BlockingQueue

variable {T : Type}

/-- A new queue for the given number of threads. -/
def start (threads : Nat) : BlockingQueue T := ⟨[], List.replicate threads .outside, [], []⟩

/-- The steps of the bounded queue. -/
abbrev Action (T : Type) : Type := BoundedBlockingQueue.Action T

/-- The thread comes to another place. -/
def goto (s : BlockingQueue T) (thread : Nat) (pc : Pc T) : BlockingQueue T :=
  { s with threads := s.threads.set thread pc }

/-- `put(x)` under the mutex. -/
def put (s : BlockingQueue T) (thread : Nat) (x : T) : BlockingQueue T :=
  { s.goto thread .notifyingNotEmpty with
    queue_ := s.queue_ ++ [x]
    pushed := s.pushed ++ [x] }

/-- `take()` under the mutex. -/
def take (s : BlockingQueue T) (thread : Nat) : Exec (BlockingQueue T) :=
  if s.queue_.isEmpty then .ok (s.goto thread (.taking .blocked))
  else do
    assertThat (¬ s.queue_.isEmpty)
    match s.queue_ with
    | [] => .error .outOfBounds
    | front :: rest =>
        .ok { s.goto thread .outside with queue_ := rest, taken := s.taken ++ [front] }

/-- A thread leaves `wait()`. -/
def wake (s : BlockingQueue T) (stage : Stage) (thread : Nat) : BlockingQueue T :=
  match s.threads[thread]? with
  | some pc => s.goto thread (pc.wake stage)
  | none => s

/-- What a step does. -/
def step (s : BlockingQueue T) : Action T → Exec (BlockingQueue T)
  | .call thread c => .ok (s.goto thread c.start)
  | .enter thread =>
      match s.threads[thread]? with
      | some (.putting x _) => .ok (s.put thread x)
      | some (.taking _) => s.take thread
      | _ => .ok s
  | .notify thread waiter => .ok ((waiter.elim s (s.wake .signalled)).goto thread .outside)
  | .wakeUp thread => .ok (s.wake .awake thread)

/-- The place of the thread passes the test. -/
def isAt (s : BlockingQueue T) (thread : Nat) (p : Pc T → Bool) : Bool :=
  s.threads[thread]?.any p

/-- What the threads may do next; a notification is lost only when nobody waits. -/
def Legal (s : BlockingQueue T) : Action T → Prop
  | .call thread _ => s.isAt thread (fun pc => pc matches .outside) = true
  | .enter thread => s.isAt thread Pc.ready = true
  | .notify thread none =>
      s.isAt thread (Pc.notifies .notEmpty_) = true ∧
        s.threads.countP (Pc.standsAt .notEmpty_ .blocked) = 0
  | .notify thread (some w) =>
      s.isAt thread (Pc.notifies .notEmpty_) = true ∧
        s.isAt w (Pc.standsAt .notEmpty_ .blocked) = true
  | .wakeUp thread => s.isAt thread (Pc.standsAt .notEmpty_ .blocked) = true

/-- The threads in any order. -/
def machine : Machine (BlockingQueue T) (Action T) := ⟨step, Legal⟩

instance (s : BlockingQueue T) (a : Action T) : Decidable (machine.legal s a) :=
  match a with
  | .call _ _ => inferInstanceAs (Decidable (_ = _))
  | .enter _ => inferInstanceAs (Decidable (_ = _))
  | .notify _ none => inferInstanceAs (Decidable (_ = _ ∧ _ = _))
  | .notify _ (some _) => inferInstanceAs (Decidable (_ = _ ∧ _ = _))
  | .wakeUp _ => inferInstanceAs (Decidable (_ = _))

/-! ## The bounded queue takes the same steps -/

/-- The bounded queue in the same state. -/
def bounded (maxSize : Nat) (s : BlockingQueue T) : BoundedBlockingQueue T :=
  ⟨⟨s.queue_, maxSize⟩, none, s.threads, s.pushed, s.taken⟩

/-- What the bounded queue does meanwhile: after `take` has popped an element, it notifies
somebody who waits for a free place, and there is nobody. -/
def expand (s : BlockingQueue T) : Action T → List (Action T)
  | .enter thread =>
      match s.threads[thread]?, s.queue_ with
      | some (.taking _), _ :: _ => [.enter thread, .notify thread none]
      | _, _ => [.enter thread]
  | a => [a]

/-- All steps of a run, expanded. -/
def expandRun (s : BlockingQueue T) : List (Action T) → List (Action T)
  | [] => []
  | a :: as =>
      s.expand a ++
        match s.step a with
        | .ok s' => expandRun s' as
        | .error _ => []

/-- Nobody waits for a free place, or is about to announce one. -/
def Unbounded (s : BlockingQueue T) : Prop :=
  ∀ pc ∈ s.threads, pc.notifies .notFull_ = false ∧ ∀ stage, stage ≠ .entering →
    pc.standsAt .notFull_ stage = false

section Steps

variable {s s' : BlockingQueue T} {maxSize thread : Nat} {pc : Pc T}

theorem exists_of_isAt {p : Pc T → Bool} (h : s.isAt thread p = true) :
    ∃ pc, s.threads[thread]? = some pc ∧ p pc = true := by
  simpa [isAt, Option.any_eq_true] using h

theorem unbounded_goto (h : s.Unbounded) (hnotifies : pc.notifies .notFull_ = false)
    (hstands : ∀ stage, stage ≠ .entering → pc.standsAt .notFull_ stage = false) :
    (s.goto thread pc).Unbounded := by
  intro pc' hmem
  rcases List.mem_or_eq_of_mem_set hmem with hmem | rfl
  · exact h pc' hmem
  · exact ⟨hnotifies, hstands⟩

/-- Whoever is woken waited for an element. -/
theorem unbounded_wake (h : s.Unbounded) {stage : Stage} (hpc : s.threads[thread]? = some pc)
    (hblocked : pc.standsAt .notEmpty_ .blocked = true) : (s.wake stage thread).Unbounded := by
  simp only [wake, hpc]
  cases pc with
  | taking stage' =>
      obtain rfl : stage' = .blocked := by simpa [Pc.standsAt] using hblocked
      exact unbounded_goto h rfl fun _ _ => rfl
  | _ => simp [Pc.standsAt] at hblocked

theorem bounded_wake (stage : Stage) (thread : Nat) :
    (s.bounded maxSize).wake stage thread = (s.wake stage thread).bounded maxSize := by
  unfold wake BoundedBlockingQueue.wake
  cases hpc : s.threads[thread]? with
  | none => simp only [bounded, hpc]
  | some pc =>
      simp only [bounded, hpc]
      rfl

/-- The step of `put` is the same as long as there is room. -/
theorem bounded_put (hroom : s.queue_.length < maxSize) (x : T) :
    (s.bounded maxSize).put thread x = .ok ((s.put thread x).bounded maxSize) := by
  have hfull : ¬ (s.bounded maxSize).queue_.full = true :=
    CircularBuffer.not_full_iff.mpr (Nat.ne_of_lt hroom)
  rw [BoundedBlockingQueue.put, if_neg hfull, assertThat_of hfull, ok_bind,
    CircularBuffer.push_back_of_not_full hfull]
  rfl

/-- An empty queue makes both wait. -/
theorem bounded_take_nil (hqueue : s.queue_ = []) :
    (s.bounded maxSize).take thread = .ok ((s.goto thread (.taking .blocked)).bounded maxSize) := by
  rw [BoundedBlockingQueue.take, if_pos (by simp [bounded, CircularBuffer.empty, hqueue])]
  rfl

/-- With an element in the queue the bounded one pops it, notifies nobody and unlocks. -/
theorem bounded_take_cons (h : s.Unbounded) {front : T} {rest : List T} {stage : Stage}
    (hpc : s.threads[thread]? = some (.taking stage)) (hstage : stage ≠ .blocked)
    (hqueue : s.queue_ = front :: rest) :
    BoundedBlockingQueue.machine.LegalRun (s.bounded maxSize)
        [.enter thread, .notify thread none] ∧
      BoundedBlockingQueue.machine.run (s.bounded maxSize)
          [.enter thread, .notify thread none] =
        .ok (({ s.goto thread .outside with
          queue_ := rest, taken := s.taken ++ [front] } : BlockingQueue T).bounded maxSize) := by
  have hthread : thread < s.threads.length := (List.getElem?_eq_some_iff.mp hpc).1
  have henter : BoundedBlockingQueue.machine.step (s.bounded maxSize) (.enter thread) =
      .ok { (s.bounded maxSize).goto thread (.notifyingNotFull front) with
        queue_ := ⟨rest, maxSize⟩, mutex_ := some thread, taken := s.taken ++ [front] } := by
    have hempty : ¬ (s.bounded maxSize).queue_.empty = true := by
      simp [bounded, CircularBuffer.empty, hqueue]
    have hstep : BoundedBlockingQueue.step (s.bounded maxSize) (.enter thread) =
        (s.bounded maxSize).take thread := by
      simp only [BoundedBlockingQueue.step,
        show (s.bounded maxSize).threads[thread]? = some (.taking stage) from hpc]
    refine hstep.trans ?_
    rw [BoundedBlockingQueue.take, if_neg hempty, assertThat_of (by simpa using hempty), ok_bind]
    simp only [bounded, hqueue, CircularBuffer.pop_front, List.tail_cons]
  have hnobody : (s.threads.set thread (.notifyingNotFull front)).countP
      (Pc.standsAt .notFull_ .blocked) = 0 := by
    refine List.countP_eq_zero.mpr fun pc hmem => ?_
    rcases List.mem_or_eq_of_mem_set hmem with hmem | rfl
    · simp [(h pc hmem).2 .blocked (by decide)]
    · simp [Pc.standsAt]
  constructor
  · refine (Machine.legalRun_cons_of_step henter).mpr ⟨⟨rfl, ?_⟩, ?_, ?_⟩
    · simp [BoundedBlockingQueue.isAt, bounded, hpc, Pc.ready, hstage]
    · refine .inr ⟨?_, hnobody⟩
      simp [BoundedBlockingQueue.isAt, BoundedBlockingQueue.goto, bounded, hthread, Pc.notifies]
    · trivial
  · refine Machine.run_cons_of_step henter (Machine.run_cons_of_step ?_ rfl)
    simp [BoundedBlockingQueue.machine, BoundedBlockingQueue.step, BoundedBlockingQueue.goto, goto,
      bounded]

/-- One step of the queue is what the bounded queue does meanwhile. -/
theorem expand_step (h : s.Unbounded) (hroom : s.queue_.length < maxSize) {a : Action T}
    (hlegal : s.Legal a) :
    ∃ s', s.step a = .ok s' ∧ s'.Unbounded ∧ s'.queue_.length ≤ s.queue_.length + 1 ∧
      BoundedBlockingQueue.machine.LegalRun (s.bounded maxSize) (s.expand a) ∧
      BoundedBlockingQueue.machine.run (s.bounded maxSize) (s.expand a) =
        .ok (s'.bounded maxSize) := by
  have hsingle : ∀ {a : Action T} {s' : BlockingQueue T}, (s.bounded maxSize).Legal a →
      (s.bounded maxSize).step a = .ok (s'.bounded maxSize) →
      BoundedBlockingQueue.machine.LegalRun (s.bounded maxSize) [a] ∧
        BoundedBlockingQueue.machine.run (s.bounded maxSize) [a] = .ok (s'.bounded maxSize) :=
    fun hlegal hstep => ⟨(Machine.legalRun_cons_of_step hstep).mpr ⟨hlegal, trivial⟩,
      Machine.run_cons_of_step hstep rfl⟩
  cases a with
  | call thread c =>
      refine ⟨_, rfl, ?_, Nat.le_succ _, hsingle hlegal rfl⟩
      cases c with
      | put x =>
          refine unbounded_goto h rfl fun stage hstage => ?_
          simpa [Call.start, Pc.standsAt] using Ne.symm hstage
      | take => exact unbounded_goto h rfl fun _ _ => rfl
  | enter thread =>
      obtain ⟨pc, hpc, hready⟩ := exists_of_isAt hlegal
      have hlegal' : (s.bounded maxSize).Legal (.enter thread) := ⟨rfl, hlegal⟩
      cases pc with
      | putting x stage =>
          refine ⟨s.put thread x, by simp only [step, hpc], ?_, ?_, ?_⟩
          · exact @unbounded_goto _ s thread .notifyingNotEmpty h rfl fun _ _ => rfl
          · simp [put]
          · simp only [expand, hpc]
            refine hsingle hlegal' ?_
            simp only [BoundedBlockingQueue.step]
            rw [show (s.bounded maxSize).threads[thread]? = some (.putting x stage) from hpc]
            exact bounded_put hroom x
      | taking stage =>
          have hstage : stage ≠ .blocked := by simpa [Pc.ready] using hready
          cases hqueue : s.queue_ with
          | nil =>
              refine ⟨s.goto thread (.taking .blocked), ?_,
                unbounded_goto h rfl fun _ _ => rfl, ?_, ?_⟩
              · simp [step, hpc, take, hqueue]
              · simp [goto, hqueue]
              · simp only [expand, hpc, hqueue]
                refine hsingle hlegal' ?_
                simp only [BoundedBlockingQueue.step]
                rw [show (s.bounded maxSize).threads[thread]? = some (.taking stage) from hpc]
                exact bounded_take_nil hqueue
          | cons front rest =>
              refine ⟨_, by simp only [step, hpc, take, hqueue]; rfl, ?_, ?_, ?_⟩
              · exact @unbounded_goto _ s thread .outside h rfl fun _ _ => rfl
              · simp only [List.length_cons]
                omega
              · simp only [expand, hpc, hqueue]
                exact bounded_take_cons h hpc hstage hqueue
      | _ => simp [Pc.ready] at hready
  | notify thread waiter =>
      cases waiter with
      | none =>
          refine ⟨_, rfl, unbounded_goto h rfl fun _ _ => rfl, Nat.le_succ _, ?_⟩
          exact hsingle (.inl ⟨hlegal.1, hlegal.2⟩) rfl
      | some w =>
          obtain ⟨pc, hpc, hblocked⟩ := exists_of_isAt hlegal.2
          refine ⟨_, rfl, ?_, ?_, hsingle (.inl ⟨hlegal.1, hlegal.2⟩) ?_⟩
          · exact unbounded_goto (unbounded_wake h hpc hblocked) rfl fun _ _ => rfl
          · simp [goto, wake, hpc]
          · simp only [BoundedBlockingQueue.step, Option.elim_some, bounded_wake]
            rfl
  | wakeUp thread =>
      obtain ⟨pc, hpc, hblocked⟩ := exists_of_isAt hlegal
      refine ⟨_, rfl, unbounded_wake h hpc hblocked, ?_, hsingle (.inl hlegal) ?_⟩
      · simp [goto, wake, hpc]
      · exact congrArg Except.ok (bounded_wake _ _)

end Steps

/-! ## Whole runs -/

/-- A run of the queue, expanded, is a run of the bounded queue, if there is room for one
element more in each step. -/
theorem expandRun_of_room {s : BlockingQueue T} (h : s.Unbounded) {maxSize : Nat}
    {actions : List (Action T)} (hroom : s.queue_.length + actions.length ≤ maxSize)
    (hlegal : machine.LegalRun s actions) :
    ∃ s', machine.run s actions = .ok s' ∧
      BoundedBlockingQueue.machine.LegalRun (s.bounded maxSize) (s.expandRun actions) ∧
      BoundedBlockingQueue.machine.run (s.bounded maxSize) (s.expandRun actions) =
        .ok (s'.bounded maxSize) := by
  induction actions generalizing s with
  | nil => exact ⟨s, rfl, trivial, rfl⟩
  | cons a actions ih =>
      obtain ⟨ha, hrest⟩ := hlegal
      rw [List.length_cons] at hroom
      obtain ⟨s₁, hs₁, h₁, hlength, hlegal₁, hrun₁⟩ := @expand_step _ s maxSize h (by omega) _ ha
      rw [show machine.step s a = .ok s₁ from hs₁] at hrest
      obtain ⟨s', hrun, hlegal', hrun'⟩ := ih h₁ (by omega) hrest
      refine ⟨s', Machine.run_cons_of_step hs₁ hrun, ?_, ?_⟩
      · simp only [expandRun, hs₁]
        refine Machine.legalRun_append.mpr ⟨hlegal₁, fun s₂ hs₂ => ?_⟩
        obtain rfl := Except.ok.inj (hrun₁.symm.trans hs₂)
        exact hlegal'
      · simp only [expandRun, hs₁]
        rw [Machine.run_append, hrun₁, ok_bind]
        exact hrun'

/-- Every run of the unbounded queue is a run of the bounded one with the same threads and a
capacity of at least the number of steps: it ends with the same elements, the same values
pushed and taken, and every thread at the same place.  So the values leave in the order in
which they came, no assertion fails, and nobody is left waiting for an element that is
there. -/
theorem simulates_bounded (threads maxSize : Nat) (actions : List (Action T))
    (hroom : actions.length ≤ maxSize) (hlegal : machine.LegalRun (start threads) actions) :
    ∃ s, machine.run (start threads) actions = .ok s ∧
      BoundedBlockingQueue.machine.LegalRun (BoundedBlockingQueue.start maxSize threads)
        ((start threads).expandRun actions) ∧
      BoundedBlockingQueue.machine.run (BoundedBlockingQueue.start maxSize threads)
          ((start threads).expandRun actions) =
        .ok ⟨⟨s.queue_, maxSize⟩, none, s.threads, s.pushed, s.taken⟩ ∧
      s.taken ++ s.queue_ = s.pushed ∧ ¬ (s.bounded maxSize).Stuck .notEmpty_ := by
  have hstart : (start threads : BlockingQueue T).Unbounded := by
    intro pc hmem
    rw [List.eq_of_mem_replicate hmem]
    exact ⟨rfl, fun _ _ => rfl⟩
  obtain ⟨s, hrun, hlegal', hrun'⟩ :=
    @expandRun_of_room _ _ hstart maxSize _ (by simpa [start] using hroom) hlegal
  obtain ⟨b, hb, hinv⟩ := Machine.run_invariant (BoundedBlockingQueue.Inv maxSize)
    (fun _ _ h hop => BoundedBlockingQueue.inv_step h hop)
    (BoundedBlockingQueue.inv_start maxSize threads) hlegal'
  obtain rfl := Except.ok.inj (hrun'.symm.trans hb)
  exact ⟨s, hrun, hlegal', hrun', hinv.fifo,
    BoundedBlockingQueue.not_stuck_of_covered (hinv.covered .notEmpty_)⟩

/-- A consumer waits, two values are put, and it wakes up between them. -/
def twoValues : List (Action Nat) :=
  [.call 0 .take, .enter 0, .call 1 (.put 7), .enter 1, .call 2 (.put 8), .enter 2, .wakeUp 0,
    .notify 1 none, .enter 0, .notify 2 none]

theorem simulates_bounded_twoValues :
    twoValues.length ≤ 10 ∧ machine.LegalRun (start 3) twoValues ∧
      ∃ s, machine.run (start 3) twoValues = .ok s ∧
        BoundedBlockingQueue.machine.LegalRun (BoundedBlockingQueue.start 10 3)
          ((start 3).expandRun twoValues) ∧
        BoundedBlockingQueue.machine.run (BoundedBlockingQueue.start 10 3)
            ((start 3).expandRun twoValues) =
          .ok ⟨⟨s.queue_, 10⟩, none, s.threads, s.pushed, s.taken⟩ ∧
        s.taken ++ s.queue_ = s.pushed ∧ ¬ (s.bounded 10).Stuck .notEmpty_ := by
  have hlegal : machine.LegalRun (start 3) twoValues := by decide +kernel
  exact ⟨by decide, hlegal, simulates_bounded 3 10 twoValues (by decide) hlegal⟩

end BlockingQueue

end Muduo.Base
