/-
  Base/ThreadPool.lean --- `ThreadPool` (src/muduo/base/ThreadPool.h, ThreadPool.cc).

  Any threads call `run`; the workers of the pool loop in `runInThread`.  What is done under
  the mutex is one step, `notify` and `notifyAll` included, because both are called before
  the lock is released.  Between its steps a worker may be delayed for as long as one likes:
  between the test of `running_` and `take`, between `take` and the call of the task, and
  inside the task, which may itself call `run`.

  The tasks leave the queue in the order of `run`, and each is called once
  (`tasks_begin_once_in_order`).  `stop` does not wait for the queue to drain: a worker
  begins at most one more task, and then every worker returns, so that `join` comes back
  (`stop_releases_every_worker`).
-/
import Muduo.Base.BoundedBlockingQueue
import Muduo.Foundation.Threads

set_option autoImplicit false

namespace Muduo.Base

open Muduo.Foundation

/-- Where a worker is in `runInThread`.  A `boost::function` may be empty: that is `none`. -/
inductive Worker (τ : Type) where
  /-- `while (running_)` -/
  | testing
  /-- in `take()` -/
  | taking (stage : Stage)
  /-- `take()` has returned the task -/
  | holding (task : Option τ)
  /-- in `task()` -/
  | executing (task : τ)
  | returned
  deriving DecidableEq, Repr

namespace Worker

variable {τ : Type}

/-- The worker is in `wait()`. -/
def waits : Worker τ → Bool
  | .taking .blocked => true
  | _ => false

/-- The task that was taken and is not begun. -/
def held : Worker τ → List τ
  | .holding task => task.toList
  | _ => []

/-- The place after `wait()`. -/
def wake (stage : Stage) : Worker τ → Worker τ
  | .taking .blocked => .taking stage
  | w => w

/-- `cond_`. -/
def cond_ : Threads.Condition (Worker τ) where
  waits := waits
  announces
    | .taking .signalled => 1
    | _ => 0

/-- An upper bound on the steps that are left once `running_` is false. -/
def effort : Worker τ → Nat
  | .testing => 1
  | .taking _ => 4
  | .holding _ => 3
  | .executing _ => 2
  | .returned => 0

/-- Whether the worker may still take a task without testing `running_` first. -/
def takes : Worker τ → Nat
  | .taking _ => 1
  | _ => 0

theorem eq_blocked_of_waits {w : Worker τ} (h : w.waits = true) : w = .taking .blocked := by
  cases w with
  | taking stage => cases stage <;> first | rfl | simp [waits] at h
  | _ => simp [waits] at h

theorem waits_wake (stage : Stage) (hstage : stage ≠ .blocked) (w : Worker τ) :
    (w.wake stage).waits = false := by
  cases w with
  | taking stage' => cases stage' <;> cases stage <;> first | rfl | exact absurd rfl hstage
  | _ => rfl

@[simp] theorem held_wake (stage : Stage) (w : Worker τ) : (w.wake stage).held = w.held := by
  cases w with
  | taking stage' => cases stage' <;> rfl
  | _ => rfl

@[simp] theorem effort_wake (stage : Stage) (w : Worker τ) : (w.wake stage).effort = w.effort := by
  cases w with
  | taking stage' => cases stage' <;> rfl
  | _ => rfl

@[simp] theorem takes_wake (stage : Stage) (w : Worker τ) : (w.wake stage).takes = w.takes := by
  cases w with
  | taking stage' => cases stage' <;> rfl
  | _ => rfl

theorem effort_le (w : Worker τ) : w.effort ≤ 4 := by
  cases w <;> simp [effort]

theorem takes_le (w : Worker τ) : w.takes ≤ 1 := by
  cases w <;> simp [takes]

end Worker

/-- `class ThreadPool`.  `submitted` are the tasks given to `run`, `taken` those that left
the queue, and `begun` those that were called, each in the order of the steps. -/
structure ThreadPool (τ : Type) where
  threads_ : List (Worker τ)
  queue_ : List (Option τ)
  running_ : Bool
  submitted : List (Option τ)
  taken : List (Option τ)
  begun : List τ
  deriving DecidableEq, Repr

namespace ThreadPool

variable {τ : Type}

/-- `ThreadPool(name)`. -/
def new : ThreadPool τ := ⟨[], [], false, [], [], []⟩

/-- A worker comes to another place. -/
def goto (s : ThreadPool τ) (i : Nat) (w : Worker τ) : ThreadPool τ :=
  { s with threads_ := s.threads_.set i w }

/-- A worker leaves `wait()`. -/
def wake (s : ThreadPool τ) (stage : Stage) (i : Nat) : ThreadPool τ :=
  match s.threads_[i]? with
  | some w => s.goto i (w.wake stage)
  | none => s

/-- `start(numThreads)`. -/
def start (s : ThreadPool τ) (numThreads : Nat) : Exec (ThreadPool τ) := do
  assertThat (s.threads_.isEmpty)
  .ok { s with running_ := true, threads_ := List.replicate numThreads .testing }

/-- `stop()`, up to the `join`s. -/
def stop (s : ThreadPool τ) : ThreadPool τ :=
  { s with running_ := false, threads_ := s.threads_.map (Worker.wake .signalled) }

/-- `run(task)`; `waiter` is the worker that `notify()` wakes.  Without workers the task is
called here. -/
def run (s : ThreadPool τ) (task : Option τ) (waiter : Option Nat) : ThreadPool τ :=
  if s.threads_.isEmpty then
    { s with
      submitted := s.submitted ++ [task]
      taken := s.taken ++ [task]
      begun := s.begun ++ task.toList }
  else
    let s := { s with queue_ := s.queue_ ++ [task], submitted := s.submitted ++ [task] }
    waiter.elim s (s.wake .signalled)

/-- `take()`. -/
def take (s : ThreadPool τ) (i : Nat) : ThreadPool τ :=
  if s.queue_.isEmpty ∧ s.running_ then s.goto i (.taking .blocked)
  else
    match s.queue_ with
    | [] => s.goto i (.holding none)
    | front :: rest =>
        { s.goto i (.holding front) with queue_ := rest, taken := s.taken ++ [front] }

/-- The next step of a worker in `runInThread`. -/
def runInThread (s : ThreadPool τ) (i : Nat) : ThreadPool τ :=
  match s.threads_[i]? with
  | some .testing => s.goto i (if s.running_ then .taking .entering else .returned)
  | some (.taking _) => s.take i
  | some (.holding (some task)) => { s.goto i (.executing task) with begun := s.begun ++ [task] }
  | some (.holding none) => s.goto i .testing
  | some (.executing _) => s.goto i .testing
  | some .returned => s
  | none => s

/-- A step of a worker, of a caller of `run` or of the owner. -/
inductive Action (τ : Type) where
  | start (numThreads : Nat)
  | run (task : Option τ) (waiter : Option Nat)
  | stop
  | runInThread (i : Nat)
  /-- a worker leaves `wait()` without a notification -/
  | wakeUp (i : Nat)
  deriving DecidableEq, Repr

/-- What a step does. -/
def step (s : ThreadPool τ) : Action τ → Exec (ThreadPool τ)
  | .start numThreads => s.start numThreads
  | .run task waiter => .ok (s.run task waiter)
  | .stop => .ok s.stop
  | .runInThread i => .ok (s.runInThread i)
  | .wakeUp i => .ok (s.wake .awake i)

/-- The worker is there and passes the test. -/
def isAt (s : ThreadPool τ) (i : Nat) (p : Worker τ → Bool) : Bool := s.threads_[i]?.any p

/-- A worker can take a step when it does not wait and has not returned. -/
def runs : Worker τ → Bool
  | .taking .blocked => false
  | .returned => false
  | _ => true

/-- `start` is called once; a notification is lost only when no worker waits. -/
def Legal (s : ThreadPool τ) : Action τ → Prop
  | .start _ => s.threads_ = []
  | .run _ none => Worker.cond_.waiting s.threads_ = 0
  | .run _ (some w) => s.isAt w Worker.waits = true
  | .stop => True
  | .runInThread i => s.isAt i runs = true
  | .wakeUp i => s.isAt i Worker.waits = true

/-- The threads in any order. -/
def machine : Machine (ThreadPool τ) (Action τ) := ⟨step, Legal⟩

instance (s : ThreadPool τ) (a : Action τ) : Decidable (machine.legal s a) :=
  match a with
  | .start _ => inferInstanceAs (Decidable (s.threads_ = []))
  | .run _ none => inferInstanceAs (Decidable (_ = _))
  | .run _ (some _) => inferInstanceAs (Decidable (_ = _))
  | .stop => isTrue trivial
  | .runInThread _ => inferInstanceAs (Decidable (_ = _))
  | .wakeUp _ => inferInstanceAs (Decidable (_ = _))

/-! ## The invariant -/

/-- What holds of a pool in every state. -/
structure Inv (s : ThreadPool τ) : Prop where
  fifo : s.taken ++ s.queue_ = s.submitted
  once : (s.begun ++ Threads.held Worker.held s.threads_).Perm (s.taken.filterMap id)
  covered : Worker.cond_.Covered s.queue_.length s.threads_
  /-- without workers nothing is queued -/
  idle : s.threads_ = [] → s.queue_ = []
  /-- nobody waits when the pool is stopped -/
  stopped : s.running_ = false → Worker.cond_.waiting s.threads_ = 0

theorem inv_new : Inv (new : ThreadPool τ) where
  fifo := rfl
  once := List.Perm.nil
  covered := Threads.Condition.covered_zero _
  idle _ := rfl
  stopped _ := rfl

section Steps

variable {s : ThreadPool τ} {i : Nat} {w w' : Worker τ}

theorem exists_of_isAt {p : Worker τ → Bool} (h : s.isAt i p = true) :
    ∃ w, s.threads_[i]? = some w ∧ p w = true := by
  simpa [isAt, Option.any_eq_true] using h

theorem waiting_set (h : s.threads_[i]? = some w) (hwaits : w'.waits = false)
    (hnone : Worker.cond_.waiting s.threads_ = 0) :
    Worker.cond_.waiting (s.threads_.set i w') = 0 := by
  have hset := Threads.total_set h (fun w => (Worker.cond_.waits w).toNat) w'
  have hw' : (Worker.cond_.waits w').toNat = 0 := congrArg Bool.toNat hwaits
  simp only [Threads.Condition.waiting] at hnone ⊢
  omega

theorem threads_ne_nil (h : s.threads_[i]? = some w) : s.threads_ ≠ [] := by
  intro hnil
  simp [hnil] at h

theorem idle_set (h : s.threads_[i]? = some w) {queue_ : List (Option τ)} :
    s.threads_.set i w' = [] → queue_ = [] := by
  intro hnil
  have hlength := congrArg List.length hnil
  rw [List.length_set, List.length_nil] at hlength
  exact absurd (List.length_eq_zero_iff.mp hlength) (threads_ne_nil h)

/-- A worker moves, without beginning to wait.  It neither takes nor begins a task. -/
theorem inv_goto (h : Inv s) (hw : s.threads_[i]? = some w) (hheld : w'.held = w.held)
    (hwaits : w'.waits = false)
    (hannounces : Worker.cond_.announces w ≤ Worker.cond_.announces w') : Inv (s.goto i w') where
  fifo := h.fifo
  once := by
    have hset := Threads.held_set hw Worker.held w'
    rw [hheld] at hset
    exact (List.Perm.append_left _ ((List.perm_append_right_iff _).mp hset)).trans h.once
  covered := Threads.Condition.covered_set h.covered hw
    (fun hcase => absurd (hwaits.symm.trans hcase) Bool.false_ne_true)
    (Nat.add_le_add_left hannounces _)
  idle := idle_set hw
  stopped hrunning := waiting_set hw hwaits (h.stopped hrunning)

/-- `take` waits when the pool runs and there is no task, and otherwise takes the first one. -/
theorem inv_take (h : Inv s) {stage : Stage} (hw : s.threads_[i]? = some (.taking stage)) :
    Inv (s.take i) := by
  unfold take
  by_cases hwait : s.queue_.isEmpty = true ∧ s.running_ = true
  · have hqueue : s.queue_ = [] := List.isEmpty_iff.mp hwait.1
    rw [if_pos hwait]
    refine ⟨h.fifo, ?_, ?_, idle_set hw, fun hrunning => ?_⟩
    · have hset := Threads.held_set hw Worker.held (.taking .blocked)
      exact (List.Perm.append_left _ ((List.perm_append_right_iff _).mp hset)).trans h.once
    · simp only [goto, hqueue]
      exact Threads.Condition.covered_zero _
    · exact absurd (hrunning.symm.trans hwait.2) Bool.false_ne_true
  · rw [if_neg hwait]
    have hset : ∀ w', (Threads.held Worker.held (s.threads_.set i w')).Perm
        (Threads.held Worker.held s.threads_ ++ w'.held) := by
      intro w'
      have hset := Threads.held_set hw Worker.held w'
      rwa [show (Worker.taking stage : Worker τ).held = [] from rfl, List.append_nil] at hset
    split
    · rename_i hqueue
      refine ⟨h.fifo, (List.Perm.append_left _ (hset _)).trans ?_, ?_, idle_set hw,
        fun hrunning => waiting_set hw rfl (h.stopped hrunning)⟩
      · simpa [Worker.held, goto] using h.once
      · simp only [goto, hqueue]
        exact Threads.Condition.covered_zero _
    · rename_i front rest hqueue
      refine ⟨?_, (List.Perm.append_left _ (hset _)).trans ?_, ?_, idle_set hw,
        fun hrunning => waiting_set hw rfl (h.stopped hrunning)⟩
      · simp only [goto, ← h.fifo, hqueue, List.append_assoc, List.singleton_append]
      · rw [← List.append_assoc, List.filterMap_append]
        refine List.Perm.append h.once (List.Perm.of_eq ?_)
        cases front <;> rfl
      · refine Threads.Condition.covered_set h.covered hw (fun hcase => by cases hcase) ?_
        rw [hqueue, List.length_cons]
        cases stage <;> simp [Worker.cond_]

/-- Whoever is woken is announced to. -/
theorem wake_eq (hw : s.threads_[i]? = some w) (stage : Stage) :
    s.wake stage i = s.goto i (w.wake stage) := by
  simp only [wake, hw]

/-- `run` queues a task, and tells a worker that waits. -/
theorem inv_run (h : Inv s) {task : Option τ} {waiter : Option Nat}
    (hlegal : s.Legal (.run task waiter)) : Inv (s.run task waiter) := by
  unfold run
  by_cases hempty : s.threads_.isEmpty = true
  · have hthreads : s.threads_ = [] := List.isEmpty_iff.mp hempty
    have hqueue := h.idle hthreads
    rw [if_pos hempty]
    refine ⟨?_, ?_, h.covered, h.idle, h.stopped⟩
    · rw [hqueue, List.append_nil, ← h.fifo, hqueue, List.append_nil]
    · have honce := h.once
      simp only [hthreads, Threads.held, List.flatMap_nil, List.append_nil] at honce ⊢
      rw [List.filterMap_append]
      refine List.Perm.append honce (List.Perm.of_eq ?_)
      cases task <;> rfl
  · rw [if_neg hempty]
    have hne : s.threads_ ≠ [] := fun hnil => hempty (List.isEmpty_iff.mpr hnil)
    have hfifo : s.taken ++ (s.queue_ ++ [task]) = s.submitted ++ [task] := by
      rw [← List.append_assoc, h.fifo]
    cases waiter with
    | none =>
        exact ⟨hfifo, h.once, Threads.Condition.covered_of_waiting_eq_zero hlegal,
          fun hnil => absurd hnil hne, h.stopped⟩
    | some i =>
        obtain ⟨w, hw, hwaits⟩ := exists_of_isAt hlegal
        obtain rfl := Worker.eq_blocked_of_waits hwaits
        simp only [Option.elim_some, wake, hw]
        refine ⟨hfifo, ?_, ?_, idle_set hw, fun hrunning => waiting_set hw rfl (h.stopped hrunning)⟩
        · have hset := Threads.held_set hw Worker.held (.taking .signalled)
          exact (List.Perm.append_left _ ((List.perm_append_right_iff _).mp hset)).trans h.once
        · refine Threads.Condition.covered_set h.covered hw (fun _ => rfl) ?_
          simp [Worker.cond_, Worker.wake, goto]

/-- `stop` leaves nobody waiting. -/
theorem waiting_stop : Worker.cond_.waiting s.stop.threads_ = 0 := by
  refine (Threads.total_eq_zero_iff _).mpr fun w hw => ?_
  obtain ⟨w, -, rfl⟩ := List.mem_map.mp hw
  exact congrArg Bool.toNat (Worker.waits_wake .signalled (by decide) w)

theorem inv_stop (h : Inv s) : Inv s.stop where
  fifo := h.fifo
  once := by
    have hheld : Threads.held Worker.held s.stop.threads_ =
      Threads.held Worker.held s.threads_ := by
      simp [Threads.held, stop, List.flatMap_map]
    rw [hheld]
    exact h.once
  covered := Threads.Condition.covered_of_waiting_eq_zero waiting_stop
  idle hnil := h.idle (List.map_eq_nil_iff.mp hnil)
  stopped _ := waiting_stop

theorem inv_runInThread (h : Inv s) (hlegal : s.isAt i runs = true) : Inv (s.runInThread i) := by
  obtain ⟨w, hw, -⟩ := exists_of_isAt hlegal
  unfold runInThread
  rw [hw]
  cases w with
  | testing =>
      by_cases hrunning : s.running_ = true
      · rw [if_pos hrunning]
        exact inv_goto h hw rfl rfl (Nat.zero_le _)
      · rw [if_neg hrunning]
        exact inv_goto h hw rfl rfl (Nat.zero_le _)
  | taking stage => exact inv_take h hw
  | holding task =>
      cases task with
      | none => exact inv_goto h hw rfl rfl (Nat.zero_le _)
      | some task =>
          refine ⟨h.fifo, ?_, ?_, idle_set hw,
            fun hrunning => waiting_set hw rfl (h.stopped hrunning)⟩
          · have hset := Threads.held_set hw Worker.held (.executing task)
            simp only [Worker.held, Option.toList_some, List.append_nil] at hset
            calc (s.begun ++ [task] ++ Threads.held Worker.held
              (s.threads_.set i (.executing task)))
                _ = s.begun ++ ([task] ++ Threads.held Worker.held
                      (s.threads_.set i (.executing task))) := List.append_assoc _ _ _
                List.Perm _ (s.begun ++ Threads.held Worker.held s.threads_) :=
                    List.Perm.append_left _ (List.perm_append_comm.trans hset)
                List.Perm _ (s.taken.filterMap id) := h.once
          · exact Threads.Condition.covered_set h.covered hw (fun hcase => by cases hcase)
              (Nat.le_refl _)
  | executing task => exact inv_goto h hw rfl rfl (Nat.zero_le _)
  | returned => exact h

theorem inv_step (h : Inv s) {a : Action τ} (hlegal : s.Legal a) :
    ∃ s', s.step a = .ok s' ∧ Inv s' := by
  cases a with
  | start numThreads =>
      have hthreads : s.threads_ = [] := hlegal
      refine ⟨{ s with running_ := true, threads_ := List.replicate numThreads .testing }, ?_,
        h.fifo, ?_, ?_, fun _ => h.idle hthreads, fun hrunning => by cases hrunning⟩
      · rw [step, start, assertThat_of (by simp [hthreads]), ok_bind]
      · have hheld : Threads.held Worker.held
          (List.replicate numThreads (.testing : Worker τ)) = [] := by
          simp [Threads.held, Worker.held]
        rw [hheld]
        have honce := h.once
        rwa [hthreads] at honce
      · simp only [h.idle hthreads]
        exact Threads.Condition.covered_zero _
  | run task waiter => exact ⟨_, rfl, inv_run h hlegal⟩
  | stop => exact ⟨_, rfl, inv_stop h⟩
  | runInThread i => exact ⟨_, rfl, inv_runInThread h hlegal⟩
  | wakeUp i =>
      obtain ⟨w, hw, hwaits⟩ := exists_of_isAt hlegal
      obtain rfl := Worker.eq_blocked_of_waits hwaits
      refine ⟨_, rfl, ?_⟩
      rw [wake_eq hw]
      exact inv_goto h hw rfl rfl (Nat.zero_le _)

end Steps

/-! ## Whole runs -/

/-- The tasks that a worker has taken and not begun. -/
def held (s : ThreadPool τ) : List τ := Threads.held Worker.held s.threads_

/-- When no worker has anything to do, the queue is empty. -/
theorem queue_eq_nil_of_waits {s : ThreadPool τ} (h : Inv s)
    (hwaits : ∀ w ∈ s.threads_, w.waits = true) : s.queue_ = [] := by
  cases hthreads : s.threads_ with
  | nil => exact h.idle hthreads
  | cons w rest =>
      have hmem : w ∈ s.threads_ := hthreads ▸ List.mem_cons_self
      have hpending : Worker.cond_.pending s.threads_ = 0 := by
        refine (Threads.total_eq_zero_iff _).mpr fun w hw => ?_
        rw [Worker.eq_blocked_of_waits (hwaits w hw)]
        rfl
      have hwaiting : 0 < Worker.cond_.waiting s.threads_ :=
        Threads.total_pos_of_mem hmem (by simp [Worker.cond_, hwaits w hmem])
      have hle := h.covered hwaiting
      rw [hpending] at hle
      exact List.length_eq_zero_iff.mp (Nat.eq_zero_of_le_zero hle)

theorem held_eq_nil_of_waits {s : ThreadPool τ} (hwaits : ∀ w ∈ s.threads_, w.waits = true) :
    s.held = [] := by
  refine List.flatMap_eq_nil_iff.mpr fun w hw => ?_
  rw [Worker.eq_blocked_of_waits (hwaits w hw)]
  rfl

/-- However the threads are scheduled, the tasks leave the queue in the order of `run`, and
each task that left it is called once or is about to be called by the one worker that took
it.  No worker waits while a task is queued and nobody was told; and when all workers wait,
every task that was given to `run` has been called. -/
theorem tasks_begin_once_in_order (actions : List (Action τ))
    (hlegal : machine.LegalRun new actions) :
    ∃ s, machine.run new actions = .ok s ∧ s.taken ++ s.queue_ = s.submitted ∧
      (s.begun ++ s.held).Perm (s.taken.filterMap id) ∧
      ¬ Worker.cond_.Stuck s.queue_.length s.threads_ ∧
      ((∀ w ∈ s.threads_, w.waits = true) → s.begun.Perm (s.submitted.filterMap id)) := by
  obtain ⟨s, hrun, h⟩ := Machine.run_invariant Inv (fun _ _ h hop => inv_step h hop)
    (inv_new (τ := τ)) hlegal
  refine ⟨s, hrun, h.fifo, h.once, Threads.Condition.not_stuck_of_covered h.covered,
    fun hwaits => ?_⟩
  have honce : (s.begun ++ s.held).Perm (s.taken.filterMap id) := h.once
  have hfifo := h.fifo
  rw [held_eq_nil_of_waits hwaits, List.append_nil] at honce
  rw [queue_eq_nil_of_waits h hwaits, List.append_nil] at hfifo
  rwa [hfifo] at honce

/-- Two workers wait.  The second one is woken for the first task, but the first one is
woken after it and comes before it. -/
def twoTasks : List (Action Nat) :=
  [.start 2, .runInThread 0, .runInThread 0, .runInThread 1, .runInThread 1,
    .run (some 7) (some 1), .run (some 8) (some 0), .runInThread 0, .runInThread 1,
    .runInThread 1, .runInThread 0, .run none none, .runInThread 1, .runInThread 1]

theorem tasks_begin_once_twoTasks :
    machine.LegalRun new twoTasks ∧
      ∃ s, machine.run new twoTasks = .ok s ∧ s.taken ++ s.queue_ = s.submitted ∧
        (s.begun ++ s.held).Perm (s.taken.filterMap id) ∧
        ¬ Worker.cond_.Stuck s.queue_.length s.threads_ ∧
        ((∀ w ∈ s.threads_, w.waits = true) → s.begun.Perm (s.submitted.filterMap id)) := by
  have hlegal : machine.LegalRun new twoTasks := by decide +kernel
  exact ⟨hlegal, tasks_begin_once_in_order twoTasks hlegal⟩

/-! ## After `stop` -/

/-- The step of a worker. -/
def Action.isWorker : Action τ → Bool
  | .runInThread _ => true
  | _ => false

/-- The pool with workers has been stopped in state `s₁`, and these steps were taken since. -/
structure Stopped (s₁ : ThreadPool τ) (done : List (Action τ)) (s : ThreadPool τ) : Prop where
  inv : Inv s
  running : s.running_ = false
  workers : s.threads_ ≠ []
  length : s.threads_.length = s₁.threads_.length
  effort : done.countP Action.isWorker + Threads.total Worker.effort s.threads_ ≤
    Threads.total Worker.effort s₁.threads_
  taken : s.taken.length + Threads.total Worker.takes s.threads_ ≤
    s₁.taken.length + Threads.total Worker.takes s₁.threads_

section AfterStop

variable {s s₁ : ThreadPool τ} {done : List (Action τ)} {i : Nat} {w w' : Worker τ}

theorem not_isAt_waits (hnone : Worker.cond_.waiting s.threads_ = 0) :
    ¬ s.isAt i Worker.waits = true := by
  intro hat
  obtain ⟨w, hw, hwaits⟩ := exists_of_isAt hat
  have hle := Threads.le_total_of_get hw fun w => (Worker.cond_.waits w).toNat
  simp only [Threads.Condition.waiting] at hnone
  rw [hnone, show Worker.cond_.waits w = true from hwaits] at hle
  exact absurd hle (by decide)

theorem runs_of_ne_returned (hnone : Worker.cond_.waiting s.threads_ = 0)
    (hw : s.threads_[i]? = some w) (hne : w ≠ .returned) : s.isAt i runs = true := by
  have hwaits : (w.waits).toNat = 0 :=
    (Threads.total_eq_zero_iff _).mp hnone w (List.mem_of_getElem? hw)
  cases w with
  | taking stage => cases stage <;> simp_all [isAt, runs, Worker.waits]
  | returned => exact absurd rfl hne
  | _ => simp [isAt, hw, runs]

/-- A worker moves on: it has less to do, and may take fewer tasks. -/
theorem stopped_goto (h : Stopped s₁ done s) (hw : s.threads_[i]? = some w)
    {s' : ThreadPool τ} (hinv : Inv s') (hrunning : s'.running_ = s.running_)
    (hthreads : s'.threads_ = s.threads_.set i w') (heffort : w'.effort < w.effort)
    (htaken : s'.taken.length + w'.takes ≤ s.taken.length + w.takes) :
    Stopped s₁ (done ++ [.runInThread i]) s' := by
  have hsum := Threads.total_set hw Worker.effort w'
  have htakes := Threads.total_set hw Worker.takes w'
  have hmeasure := h.effort
  have hbound := h.taken
  have hlength := h.length
  refine ⟨hinv, hrunning.trans h.running, ?_, ?_, ?_, ?_⟩
  · intro hnil
    have hzero := congrArg List.length (hthreads.symm.trans hnil)
    rw [List.length_set, List.length_nil] at hzero
    exact h.workers (List.length_eq_zero_iff.mp hzero)
  · rw [hthreads, List.length_set, hlength]
  · rw [hthreads, List.countP_append]
    simp only [List.countP_cons, List.countP_nil, Action.isWorker, if_true]
    omega
  · rw [hthreads]
    omega

theorem stopped_runInThread (h : Stopped s₁ done s) (hlegal : s.isAt i runs = true) :
    Stopped s₁ (done ++ [.runInThread i]) (s.runInThread i) := by
  have hinv := inv_runInThread h.inv hlegal
  obtain ⟨w, hw, hruns⟩ := exists_of_isAt hlegal
  have hstopped := h.running
  unfold runInThread at hinv ⊢
  rw [hw] at hinv ⊢
  cases w with
  | testing =>
      simp only [hstopped, Bool.false_eq_true, if_false] at hinv ⊢
      exact stopped_goto h hw hinv rfl rfl (by simp [Worker.effort]) (Nat.le_refl _)
  | taking stage =>
      simp only [take, hstopped, Bool.false_eq_true, and_false, if_false] at hinv ⊢
      cases hqueue : s.queue_ with
      | nil =>
          simp only [hqueue] at hinv ⊢
          exact stopped_goto h hw hinv rfl rfl (by simp [Worker.effort])
            (by simp [goto, Worker.takes])
      | cons front rest =>
          simp only [hqueue] at hinv ⊢
          exact stopped_goto h hw hinv rfl rfl (by simp [Worker.effort]) (by simp [Worker.takes])
  | holding task =>
      cases task with
      | none => exact stopped_goto h hw hinv rfl rfl (by simp [Worker.effort]) (Nat.le_refl _)
      | some task => exact stopped_goto h hw hinv rfl rfl (by simp [Worker.effort]) (Nat.le_refl _)
  | executing task => exact stopped_goto h hw hinv rfl rfl (by simp [Worker.effort]) (Nat.le_refl _)
  | returned => simp [runs] at hruns

/-- What is left to do does not depend on the steps that are no worker's. -/
theorem effort_append (h : Stopped s₁ done s) {a : Action τ} (ha : a.isWorker = false) :
    (done ++ [a]).countP Action.isWorker + Threads.total Worker.effort s.threads_ ≤
      Threads.total Worker.effort s₁.threads_ := by
  simpa [ha] using h.effort

theorem stopped_step (h : Stopped s₁ done s) {a : Action τ} (hlegal : s.Legal a) :
    ∃ s', s.step a = .ok s' ∧ Stopped s₁ (done ++ [a]) s' := by
  have hwaiting := h.inv.stopped h.running
  cases a with
  | start numThreads => exact absurd hlegal h.workers
  | run task waiter =>
      have hempty : ¬ s.threads_.isEmpty = true := fun hnil => h.workers (List.isEmpty_iff.mp hnil)
      cases waiter with
      | some i => exact absurd hlegal (not_isAt_waits hwaiting)
      | none =>
          have hinv := inv_run h.inv hlegal
          refine ⟨s.run task none, rfl, ?_⟩
          rw [run, if_neg hempty] at hinv ⊢
          exact ⟨hinv, h.running, h.workers, h.length, effort_append h rfl, h.taken⟩
  | stop =>
      refine ⟨s.stop, rfl, inv_stop h.inv, rfl, ?_, ?_, ?_, ?_⟩
      · exact fun hnil => h.workers (List.map_eq_nil_iff.mp hnil)
      · rw [stop, List.length_map, h.length]
      · rw [stop, Threads.total_map]
        simpa [Function.comp_def] using effort_append h (a := .stop) rfl
      · rw [stop, Threads.total_map]
        simpa [Function.comp_def] using h.taken
  | runInThread i => exact ⟨_, rfl, stopped_runInThread h hlegal⟩
  | wakeUp i => exact absurd hlegal (not_isAt_waits hwaiting)

end AfterStop

/-- After `stop`, whatever else is called: a worker that has not returned can always take its
next step, and all of them together take at most four steps each, of which at most one takes
a task.  So every `join` returns, provided that the tasks do. -/
theorem stop_releases_every_worker {before after : List (Action τ)} {s₁ : ThreadPool τ}
    (hbefore : machine.run new before = .ok s₁) (hworkers : s₁.threads_ ≠ [])
    (hlegal : machine.LegalRun new (before ++ .stop :: after)) :
    ∃ s, machine.run new (before ++ .stop :: after) = .ok s ∧
      s.threads_.length = s₁.threads_.length ∧
      after.countP Action.isWorker ≤ 4 * s₁.threads_.length ∧
      s.taken.length ≤ s₁.taken.length + s₁.threads_.length ∧
      ∀ i w, s.threads_[i]? = some w → w ≠ .returned → s.Legal (.runInThread i) := by
  obtain ⟨hfirst, hsecond⟩ := Machine.legalRun_append.mp hlegal
  obtain ⟨s₂, hrun₂, h₁⟩ := Machine.run_invariant Inv (fun _ _ h hop => inv_step h hop)
    (inv_new (τ := τ)) hfirst
  obtain rfl : s₁ = s₂ := Except.ok.inj (hbefore.symm.trans hrun₂)
  have hstart : Stopped s₁ [] s₁.stop := by
    refine ⟨inv_stop h₁, rfl, fun hnil => hworkers (List.map_eq_nil_iff.mp hnil),
      List.length_map _, ?_, ?_⟩
    · rw [stop, Threads.total_map]
      simp [Function.comp_def]
    · rw [stop, Threads.total_map]
      simp [Function.comp_def]
  have hrest : machine.LegalRun s₁.stop after :=
    ((Machine.legalRun_cons_of_step rfl).mp (hsecond s₁ hbefore)).2
  obtain ⟨s, hrun, h⟩ := Machine.run_of_step (Stopped s₁)
    (fun _ _ _ h hop => stopped_step h hop) hstart hrest
  have heffort := h.effort
  have htaken := h.taken
  have hmost := Threads.total_le Worker.effort_le s₁.threads_
  have hone := Threads.total_le Worker.takes_le s₁.threads_
  rw [List.nil_append] at heffort
  refine ⟨s, ?_, h.length, by omega, by omega, fun i w hw hne => ?_⟩
  · rw [Machine.run_append, hbefore, ok_bind]
    exact Machine.run_cons_of_step rfl hrun
  · exact runs_of_ne_returned (h.inv.stopped h.running) hw hne

/-- What happens after `stop` while one worker is in a task, the other one waits, and two
tasks are queued: one of them is begun. -/
def drained : List (Action Nat) :=
  [.run (some 8) none, .runInThread 1, .run (some 9) none, .runInThread 1, .runInThread 0,
    .runInThread 0, .runInThread 1, .runInThread 1]

/-- One worker is in a task, and the other one waits. -/
def oneBusy : List (Action Nat) :=
  [.start 2, .run (some 7) none, .runInThread 0, .runInThread 0, .runInThread 0, .runInThread 1,
    .runInThread 1]

theorem stop_releases_drained :
    ∃ s₁, machine.run new oneBusy = .ok s₁ ∧ s₁.threads_ ≠ [] ∧
      machine.LegalRun new (oneBusy ++ .stop :: drained) ∧
      ∃ s, machine.run new (oneBusy ++ .stop :: drained) = .ok s ∧
        s.threads_.length = s₁.threads_.length ∧
        drained.countP Action.isWorker ≤ 4 * s₁.threads_.length ∧
        s.taken.length ≤ s₁.taken.length + s₁.threads_.length ∧
        ∀ i w, s.threads_[i]? = some w → w ≠ .returned → s.Legal (.runInThread i) := by
  have hbefore : machine.run new oneBusy =
      .ok ⟨[.executing 7, .taking .blocked], [], true, [some 7], [some 7], [7]⟩ := by
    decide +kernel
  have hlegal : machine.LegalRun new (oneBusy ++ .stop :: drained) := by decide +kernel
  exact ⟨_, hbefore, by decide, hlegal, stop_releases_every_worker hbefore (by decide) hlegal⟩

end ThreadPool

end Muduo.Base
