/-
  Net/TimerRuns.lean --- a `TimerQueue` in its event loop.

  `addTimer` and `cancel` may be called by any thread: the thread that runs the loop
  executes `addTimerInLoop` and `cancelInLoop` at once, the others queue them as
  functors.  `handleRead` runs the callbacks of the expired timers one after the
  other; while a callback runs, the steps of the loop thread are what it does.  The
  allocator may give a new `Timer` any address at which none is alive.  That `addTimer`
  reads the number of its timer once more before it returns changes nothing in the queue;
  Net/TimerCancel.lean has that step.

  `indexes_agree` is the invariant of the two sets over all such runs.
-/
import Muduo.Foundation.Machine
import Muduo.Net.TimerQueue

set_option autoImplicit false

namespace Muduo.Net

open Muduo.Foundation Muduo.Base

/-! ## Ownership -/

namespace TimerQueue

/-- Every live timer is scheduled, as `m` says, or is one of `out`: those that are not
handed over yet, and those of an expired batch.  Sequence numbers up to `n` are
given out, each to one timer. -/
structure Sound (q : TimerQueue) (out : List Nat) (n : Int) (m : Nat → Option Timer) : Prop where
  indexes : q.Indexes m
  outside : ∀ a ∈ out, m a = none ∧ ∃ t, q.heap a = some t
  nodup : out.Nodup
  owned : ∀ a t, q.heap a = some t → m a = some t ∨ a ∈ out
  addr : ∀ a t, q.heap a = some t → a < UINTPTR_MAX
  seq_le : ∀ a t, q.heap a = some t → t.sequence_ ≤ n
  seq_inj : ∀ a t b u, q.heap a = some t → q.heap b = some u → t.sequence_ = u.sequence_ → a = b

section Sound

variable {q : TimerQueue} {out : List Nat} {n : Int} {m : Nat → Option Timer} {a : Nat} {t : Timer}

theorem sound_new : Sound new [] 0 fun _ => none where
  indexes := indexes_new
  outside _ h := absurd h List.not_mem_nil
  nodup := .nil
  owned _ _ h := absurd h (by simp [new])
  addr _ _ h := absurd h (by simp [new])
  seq_le _ _ h := absurd h (by simp [new])
  seq_inj _ _ _ _ h := absurd h (by simp [new])

theorem Sound.perm {out' : List Nat} (h : Sound q out n m) (hperm : out.Perm out') :
    Sound q out' n m :=
  { h with
    outside := fun a ha => h.outside a (hperm.mem_iff.mpr ha)
    nodup := hperm.nodup_iff.mp h.nodup
    owned := fun a t ht => (h.owned a t ht).imp_right hperm.mem_iff.mp }

/-- `new Timer`. -/
theorem Sound.alloc (h : Sound q out n m) (hfree : q.heap a = none) (haddr : a < UINTPTR_MAX)
    (ht : t.sequence_ = n + 1) : Sound (q.store a (some t)) (a :: out) (n + 1) m := by
  have ha : m a = none := by
    rcases hm : m a with _ | u
    · rfl
    · exact absurd (hfree.symm.trans (h.indexes.live a u hm)) (by simp)
  have hnot : a ∉ out := by
    intro hmem
    obtain ⟨_, u, hu⟩ := h.outside a hmem
    exact absurd (hfree.symm.trans hu) (by simp)
  refine ⟨h.indexes.store ha _, ?_, List.nodup_cons.mpr ⟨hnot, h.nodup⟩, ?_, ?_, ?_, ?_⟩
  · intro b hb
    rcases List.mem_cons.mp hb with rfl | hb
    · exact ⟨ha, t, store_heap_self q b _⟩
    · have hba : b ≠ a := fun heq => hnot (heq ▸ hb)
      obtain ⟨hmb, u, hu⟩ := h.outside b hb
      exact ⟨hmb, u, by rw [store_heap_of_ne q hba, hu]⟩
  · intro b u hb
    obtain ⟨rfl, _⟩ | ⟨_, hb⟩ := of_store_some hb
    · exact .inr List.mem_cons_self
    · exact (h.owned b u hb).imp_right (List.mem_cons_of_mem a)
  · intro b u hb
    obtain ⟨rfl, _⟩ | ⟨_, hb⟩ := of_store_some hb
    · exact haddr
    · exact h.addr b u hb
  · intro b u hb
    obtain ⟨_, rfl⟩ | ⟨_, hb⟩ := of_store_some hb
    · exact le_of_eq ht
    · have := h.seq_le b u hb
      omega
  · intro b u c v hb hc hseq
    obtain ⟨rfl, rfl⟩ | ⟨_, hb'⟩ := of_store_some hb
    · obtain ⟨rfl, _⟩ | ⟨_, hc'⟩ := of_store_some hc
      · rfl
      · have := h.seq_le c v hc'
        omega
    · obtain ⟨rfl, rfl⟩ | ⟨_, hc'⟩ := of_store_some hc
      · have := h.seq_le b u hb'
        omega
      · exact h.seq_inj b u c v hb' hc' hseq

/-- The queue after `addTimerInLoop`. -/
def added (q : TimerQueue) (a : Nat) (t : Timer) (now : Timestamp) : TimerQueue :=
  if q.earliestChanged t.expiration_ then (q.schedule a t).resetTimerfd t.expiration_ now
  else q.schedule a t

theorem added_eq (q : TimerQueue) (a : Nat) (t : Timer) (now : Timestamp) :
    ∃ fd, q.added a t now = { q.schedule a t with timerfd := fd } := by
  unfold added
  split
  · exact ⟨_, rfl⟩
  · exact ⟨q.timerfd, rfl⟩

theorem Sound.add (h : Sound q (a :: out) n m) (ht : q.heap a = some t) (now : Timestamp) :
    q.addTimerInLoop a now = .ok (q.added a t now) ∧
      Sound (q.added a t now) out n (Function.update m a (some t)) := by
  obtain ⟨ha, _⟩ := h.outside a List.mem_cons_self
  obtain ⟨hnot, hnodup⟩ := List.nodup_cons.mp h.nodup
  have hderef : (q.schedule a t).deref a = .ok t := deref_of ht
  constructor
  · unfold addTimerInLoop added
    simp only [insert_eq h.indexes ha ht, ok_bind]
    split
    · rw [hderef]
      rfl
    · rfl
  · have hindexes := h.indexes.schedule ha ht
    obtain ⟨fd, hfd⟩ := added_eq q a t now
    rw [hfd]
    refine ⟨⟨hindexes.timers, hindexes.active, hindexes.live⟩, ?_, hnodup, ?_, h.addr, h.seq_le,
      h.seq_inj⟩
    · intro b hb
      have hba : b ≠ a := fun heq => hnot (heq ▸ hb)
      rw [Function.update_of_ne hba]
      exact h.outside b (List.mem_cons_of_mem a hb)
    · intro b u hb
      by_cases hba : b = a
      · subst hba
        rw [Function.update_self]
        exact .inl (ht.symm.trans hb)
      · rw [Function.update_of_ne hba]
        refine (h.owned b u hb).imp_right fun hmem => ?_
        exact (List.mem_cons.mp hmem).resolve_left hba

/-- `cancelInLoop` of a scheduled timer. -/
theorem Sound.cancel_scheduled (h : Sound q out n m) (ha : m a = some t) :
    Sound ((q.unschedule a t).store a none) out n (Function.update m a none) := by
  have hindexes := (h.indexes.unschedule ha).store (Function.update_self a none m) none
  refine ⟨hindexes, ?_, h.nodup, ?_, ?_, ?_, ?_⟩
  · intro b hb
    obtain ⟨hmb, u, hu⟩ := h.outside b hb
    have hba : b ≠ a := by
      rintro rfl
      exact absurd (hmb.symm.trans ha) (by simp)
    exact ⟨by rw [Function.update_of_ne hba, hmb], u, by rw [store_heap_of_ne _ hba]; exact hu⟩
  · intro b u hb
    obtain ⟨hba, hb⟩ := store_none_heap.mp hb
    rw [Function.update_of_ne hba]
    exact h.owned b u hb
  · intro b u hb
    exact h.addr b u (store_none_heap.mp hb).2
  · intro b u hb
    exact h.seq_le b u (store_none_heap.mp hb).2
  · intro b u c v hb hc
    exact h.seq_inj b u c v (store_none_heap.mp hb).2 (store_none_heap.mp hc).2

/-- `cancelInLoop` of anything else. -/
theorem Sound.cancel_other (h : Sound q out n m) (canceling : SortedSet TimerId) :
    Sound { q with cancelingTimers_ := canceling } out n m :=
  ⟨⟨h.indexes.timers, h.indexes.active, h.indexes.live⟩, h.outside, h.nodup, h.owned, h.addr,
    h.seq_le, h.seq_inj⟩

/-- `handleRead` up to its loop: the timers that are due leave both sets. -/
theorem Sound.beginRead (h : Sound q out n m) (now : Timestamp) (fired : Bool) :
    ∃ expired timers active fd,
      q.beginRead now fired = .ok (expired, { q with
        timers_ := timers, activeTimers_ := active, callingExpiredTimers_ := true,
        cancelingTimers_ := .empty, timerfd := fd }) ∧
      Sound { q with
        timers_ := timers, activeTimers_ := active, callingExpiredTimers_ := true,
        cancelingTimers_ := .empty, timerfd := fd }
        (expired.map Entry.timer ++ out) n (without m (expired.map Entry.timer)) ∧
      ∀ a, a ∈ expired.map Entry.timer ↔ ∃ t, m a = some t ∧ t.expiration_ ≤ now := by
  obtain ⟨fd, hfd⟩ : ∃ fd, q.readTimerfd fired = { q with timerfd := fd } := by
    unfold readTimerfd
    split
    · exact ⟨_, rfl⟩
    · exact ⟨q.timerfd, rfl⟩
  have hindexes : Indexes { q with timerfd := fd } m :=
    ⟨h.indexes.timers, h.indexes.active, h.indexes.live⟩
  obtain ⟨expired, timers, active, hrun, hindexes', hnodup, hdue⟩ :=
    getExpired_spec hindexes (fun a t ha => h.addr a t (h.indexes.live a t ha)) now
  refine ⟨expired, timers, active, fd, ?_, ⟨⟨hindexes'.timers, hindexes'.active, hindexes'.live⟩,
    ?_, ?_, ?_, h.addr, h.seq_le, h.seq_inj⟩, hdue⟩
  · unfold TimerQueue.beginRead
    rw [hfd, hrun]
    rfl
  · intro a ha
    rcases List.mem_append.mp ha with ha | ha
    · obtain ⟨t, ht, _⟩ := (hdue a).mp ha
      exact ⟨without_of_mem ha, t, h.indexes.live a t ht⟩
    · obtain ⟨hma, t, ht⟩ := h.outside a ha
      refine ⟨?_, t, ht⟩
      by_cases hmem : a ∈ expired.map Entry.timer
      · exact without_of_mem hmem
      · rw [without_of_not_mem hmem, hma]
  · refine List.Nodup.append hnodup h.nodup ?_
    intro a ha hout
    obtain ⟨t, ht, _⟩ := (hdue a).mp ha
    exact absurd ((h.outside a hout).1.symm.trans ht) (by simp)
  · intro a t ht
    by_cases hmem : a ∈ expired.map Entry.timer
    · exact .inr (List.mem_append_left _ hmem)
    · rw [without_of_not_mem hmem]
      exact (h.owned a t ht).imp_right (List.mem_append_right _)

/-- `handleRead` behind its loop: the timers of the batch are scheduled again or
deleted. -/
theorem Sound.finishRead {expired : List Entry} (h : Sound q (expired.map Entry.timer ++ out) n m)
    (now clock : Timestamp) :
    ∃ heap timers active fd m',
      q.finishRead expired now clock = .ok { q with
        heap := heap, timers_ := timers, activeTimers_ := active, callingExpiredTimers_ := false,
        timerfd := fd } ∧
      Sound { q with
        heap := heap, timers_ := timers, activeTimers_ := active, callingExpiredTimers_ := false,
        timerfd := fd } out n m' ∧
      Resets q.cancelingTimers_ now (expired.map Entry.timer) q.heap m heap m' ∧
      fd = rearmed q.timerfd timers clock := by
  obtain ⟨hnodupE, hnodup, hdisjoint⟩ := List.nodup_append'.mp h.nodup
  have hindexes : Indexes { q with callingExpiredTimers_ := false } m :=
    ⟨h.indexes.timers, h.indexes.active, h.indexes.live⟩
  obtain ⟨heap, timers, active, m', hrun, hindexes', hresets⟩ :=
    foldlM_resetEntry_spec expired now hindexes
      (fun e he => h.outside e.timer (List.mem_append_left _ (List.mem_map_of_mem he))) hnodupE
  refine ⟨heap, timers, active, rearmed q.timerfd timers clock, m', ?_,
    ⟨⟨hindexes'.timers, hindexes'.active, hindexes'.live⟩, ?_, hnodup, ?_, ?_, ?_, ?_⟩, hresets,
    rfl⟩
  · unfold TimerQueue.finishRead reset
    rw [hrun, ok_bind, rearm_eq hindexes']
  · intro a ha
    have hnot : a ∉ expired.map Entry.timer := fun hmem => hdisjoint hmem ha
    obtain ⟨hma, t, ht⟩ := h.outside a (List.mem_append_right _ ha)
    obtain ⟨hheap, hm'⟩ := hresets.other a hnot
    exact ⟨hm'.trans hma, t, hheap.trans ht⟩
  · intro a t' ht'
    by_cases hmem : a ∈ expired.map Entry.timer
    · obtain ⟨_, _, hheap, hm'⟩ := hresets.batch a hmem
      exact .inl (hm'.trans (hheap.symm.trans ht'))
    · obtain ⟨hheap, hm'⟩ := hresets.other a hmem
      rw [hm']
      refine (h.owned a t' (hheap.symm.trans ht')).imp_right fun hout => ?_
      exact (List.mem_append.mp hout).resolve_left hmem
  · intro a t' ht'
    obtain ⟨t, ht, _⟩ := hresets.sequence ht'
    exact h.addr a t ht
  · intro a t' ht'
    obtain ⟨t, ht, hseq⟩ := hresets.sequence ht'
    rw [hseq]
    exact h.seq_le a t ht
  · intro a t' b u' ht' hu' heq
    obtain ⟨t, ht, hseq⟩ := hresets.sequence ht'
    obtain ⟨u, hu, hseq'⟩ := hresets.sequence hu'
    exact h.seq_inj a t b u ht hu (by rw [← hseq, ← hseq', heq])

end Sound

end TimerQueue

/-! ## The system -/

/-- What `runInLoop` queues for the loop thread. -/
inductive TimerFunctor where
  | addTimerInLoop (timer : Nat)
  | cancelInLoop (timerId : TimerId)
  deriving DecidableEq, Repr

/-- The timer that a functor is going to insert. -/
def TimerFunctor.adds : TimerFunctor → Option Nat
  | .addTimerInLoop timer => some timer
  | .cancelInLoop _ => none

/-- A call of `handleRead`: the expired timers, those of them whose callback has not
been started, and the time at which the call began. -/
structure Batch where
  expired : List Entry
  todo : List Entry
  now : Timestamp
  deriving DecidableEq, Repr

/-- What is worth remembering of a run. -/
inductive TimerEvent where
  /-- `cancelInLoop(timerId)` was executed -/
  | cancelled (timerId : TimerId)
  /-- the callback of the timer was started -/
  | started (timerId : TimerId)
  deriving DecidableEq, Repr

/-- The queue, what other threads have queued for it, and the history of the run. -/
structure TimerSystem where
  queue : TimerQueue
  /-- `Timer::s_numCreated_` -/
  numCreated : Int
  /-- timers of `addTimer` calls that have not come to `runInLoop` yet -/
  created : List Nat
  /-- functors that the loop has not run yet, in order (`EventLoop.backlog`) -/
  queued : List TimerFunctor
  /-- the call of `handleRead` in progress -/
  batch : Option Batch
  /-- the timers that `addTimer` calls have given to `runInLoop` -/
  handedOver : List TimerId
  log : List TimerEvent

namespace TimerSystem

/-- A new queue. -/
def start : TimerSystem := ⟨.new, 0, [], [], none, [], []⟩

/-- A step of some thread. -/
inductive Action where
  /-- `new Timer(cb, when, interval)`, in any thread -/
  | newTimer (timer : Nat) (when : Timestamp) (interval : Nat) (repeats : Bool)
  /-- `runInLoop` of `addTimer`, in another thread -/
  | queueAdd (timer : Nat)
  /-- `runInLoop` of `addTimer`, in the loop thread at the time `now` -/
  | addNow (timer : Nat) (now : Timestamp)
  /-- `cancel`, in another thread -/
  | queueCancel (timerId : TimerId)
  /-- `cancel`, in the loop thread -/
  | cancelNow (timerId : TimerId)
  /-- `doPendingFunctors` runs the next functor, at the time `now` -/
  | runFunctor (now : Timestamp)
  /-- `handleRead` begins -/
  | handleRead (now : Timestamp) (fired : Bool)
  /-- `handleRead` starts the next callback -/
  | runNext
  /-- the last callback has returned, and `handleRead` ends at the time `clock` -/
  | finishRead (clock : Timestamp)
  deriving DecidableEq, Repr

/-- `addTimerInLoop`, whoever calls it. -/
def addInLoop (s : TimerSystem) (timer : Nat) (now : Timestamp) : Exec TimerSystem := do
  let queue ← s.queue.addTimerInLoop timer now
  .ok { s with queue := queue }

/-- `cancelInLoop`, whoever calls it. -/
def cancelInLoop (s : TimerSystem) (timerId : TimerId) : Exec TimerSystem := do
  let queue ← s.queue.cancelInLoop timerId
  .ok { s with queue := queue, log := s.log ++ [.cancelled timerId] }

/-- The identity of the timer at an address. -/
def idAt (s : TimerSystem) (timer : Nat) : Option TimerId :=
  (s.queue.heap timer).map (TimerQueue.idOf timer)

/-- `addTimer` gives its timer to `runInLoop`. -/
def handOver (s : TimerSystem) (timer : Nat) : TimerSystem :=
  { s with
    created := s.created.erase timer
    handedOver := (s.idAt timer).toList ++ s.handedOver }

/-- What a step does. -/
def step (s : TimerSystem) : Action → Exec TimerSystem
  | .newTimer timer when interval repeats =>
      .ok { s with
        queue := s.queue.store timer (some ⟨when, interval, repeats, s.numCreated + 1⟩)
        numCreated := s.numCreated + 1
        created := timer :: s.created }
  | .queueAdd timer =>
      .ok { s.handOver timer with queued := s.queued ++ [.addTimerInLoop timer] }
  | .addNow timer now => (s.handOver timer).addInLoop timer now
  | .queueCancel timerId => .ok { s with queued := s.queued ++ [.cancelInLoop timerId] }
  | .cancelNow timerId => s.cancelInLoop timerId
  | .runFunctor now =>
      match s.queued with
      | [] => .ok s
      | .addTimerInLoop timer :: queued => { s with queued := queued }.addInLoop timer now
      | .cancelInLoop timerId :: queued => { s with queued := queued }.cancelInLoop timerId
  | .handleRead now fired => do
      let (expired, queue) ← s.queue.beginRead now fired
      .ok { s with queue := queue, batch := some ⟨expired, expired, now⟩ }
  | .runNext =>
      match s.batch with
      | some ⟨expired, it :: todo, now⟩ => do
          let t ← s.queue.deref it.timer
          .ok { s with
            batch := some ⟨expired, todo, now⟩
            log := s.log ++ [.started (TimerQueue.idOf it.timer t)] }
      | _ => .ok s
  | .finishRead clock =>
      match s.batch with
      | some b => do
          let queue ← s.queue.finishRead b.expired b.now clock
          .ok { s with queue := queue, batch := none }
      | none => .ok s

/-- What the threads and the allocator may do.  Functors are not run from inside
`handleRead`, and `handleRead` does not call itself. -/
def Legal (s : TimerSystem) : Action → Prop
  | .newTimer timer when _ _ =>
      s.queue.heap timer = none ∧ timer < UINTPTR_MAX ∧
        -2 ^ 63 ≤ when.microSecondsSinceEpoch_ ∧ when.microSecondsSinceEpoch_ < 2 ^ 63
  | .queueAdd timer => timer ∈ s.created
  | .addNow timer _ => timer ∈ s.created
  | .queueCancel _ => True
  | .cancelNow _ => True
  | .runFunctor _ => s.batch = none ∧ s.queued ≠ []
  | .handleRead _ _ => s.batch = none
  | .runNext => (s.batch.elim [] Batch.todo) ≠ []
  | .finishRead _ => s.batch ≠ none ∧ s.batch.elim [] Batch.todo = []

instance (s : TimerSystem) : ∀ a : Action, Decidable (s.Legal a)
  | .newTimer _ _ _ _ => inferInstanceAs (Decidable (_ ∧ _ ∧ _ ∧ _))
  | .queueAdd timer => inferInstanceAs (Decidable (timer ∈ s.created))
  | .addNow timer _ => inferInstanceAs (Decidable (timer ∈ s.created))
  | .queueCancel _ => inferInstanceAs (Decidable True)
  | .cancelNow _ => inferInstanceAs (Decidable True)
  | .runFunctor _ => inferInstanceAs (Decidable (_ ∧ _ ≠ _))
  | .handleRead _ _ => inferInstanceAs (Decidable (s.batch = none))
  | .runNext => inferInstanceAs (Decidable (s.batch.elim [] Batch.todo ≠ []))
  | .finishRead _ => inferInstanceAs (Decidable (_ ≠ _ ∧ _ = _))

/-- The interleavings of the loop thread and the others. -/
def machine : Machine TimerSystem Action := ⟨step, Legal⟩

/-! ## The invariant -/

/-- The expired timers of the call of `handleRead` in progress. -/
def expiredTimers (s : TimerSystem) : List Nat :=
  s.batch.elim [] fun b => b.expired.map Entry.timer

/-- The timers that queued functors are going to insert. -/
def queuedTimers (s : TimerSystem) : List Nat := s.queued.filterMap TimerFunctor.adds

/-- The timers that are alive and not scheduled. -/
def outside (s : TimerSystem) : List Nat := s.expiredTimers ++ (s.queuedTimers ++ s.created)

/-- Every timer has its place, and `handleRead` has started a front part of its
batch.  The timers of `held` are on their way from one place to another. -/
structure Inv (held : List Nat) (s : TimerSystem) (m : Nat → Option Timer) : Prop where
  sound : s.queue.Sound (held ++ s.outside) s.numCreated m
  calling : s.queue.callingExpiredTimers_ = s.batch.isSome
  todo : ∀ b ∈ s.batch, b.todo <:+ b.expired

theorem inv_start : Inv [] start fun _ => none :=
  ⟨TimerQueue.sound_new, rfl, fun b h => absurd h (by simp [start])⟩

section Steps

variable {s : TimerSystem} {m : Nat → Option Timer} {held : List Nat} {a : Nat}

/-! ### What legal steps find -/

theorem Legal.runFunctor {now : Timestamp} (h : s.Legal (.runFunctor now)) :
    (∃ a queued, s.queued = .addTimerInLoop a :: queued ∧
      s.step (.runFunctor now) = { s with queued := queued }.addInLoop a now) ∨
    (∃ id queued, s.queued = .cancelInLoop id :: queued ∧
      s.step (.runFunctor now) = { s with queued := queued }.cancelInLoop id) := by
  obtain ⟨f, queued, hqueued⟩ := List.exists_cons_of_ne_nil h.2
  cases f with
  | addTimerInLoop a => exact .inl ⟨a, queued, hqueued, by simp only [step, hqueued]⟩
  | cancelInLoop id => exact .inr ⟨id, queued, hqueued, by simp only [step, hqueued]⟩

theorem Legal.runNext (h : s.Legal .runNext) :
    ∃ expired e todo now, s.batch = some ⟨expired, e :: todo, now⟩ := by
  rcases hbatch : s.batch with _ | ⟨expired, todo, now⟩
  · simp [Legal, hbatch] at h
  · cases todo with
    | nil => simp [Legal, hbatch] at h
    | cons e todo => exact ⟨expired, e, todo, now, rfl⟩

theorem Legal.finishRead {clock : Timestamp} (h : s.Legal (.finishRead clock)) :
    ∃ b, s.batch = some b :=
  Option.ne_none_iff_exists'.mp h.1

/-! ### Each step keeps the invariant -/

theorem expiredTimers_of_batch {b : Batch} (hbatch : s.batch = some b) :
    s.expiredTimers = b.expired.map Entry.timer := by
  rw [expiredTimers, hbatch]
  rfl

/-- A timer of the batch is alive and not scheduled. -/
theorem Inv.batch_outside (h : Inv [] s m) {b : Batch} (hbatch : s.batch = some b)
    (ha : a ∈ b.expired.map Entry.timer) : m a = none ∧ ∃ t, s.queue.heap a = some t := by
  refine h.sound.outside a (List.mem_append_right [] (List.mem_append_left _ ?_))
  rw [expiredTimers_of_batch hbatch]
  exact ha

theorem Inv.batch_nodup (h : Inv [] s m) {b : Batch} (hbatch : s.batch = some b) :
    (b.expired.map Entry.timer).Nodup := by
  have hnodup := h.sound.nodup
  rw [List.nil_append, outside, expiredTimers_of_batch hbatch] at hnodup
  exact (List.nodup_append'.mp hnodup).1

/-- A timer that is on its way is alive. -/
theorem Inv.held_live (h : Inv [a] s m) : ∃ t, s.queue.heap a = some t :=
  (h.sound.outside a (List.mem_append_left _ List.mem_cons_self)).2

theorem perm_outside (expired queued created : List Nat) :
    (a :: (expired ++ (queued ++ created))).Perm (expired ++ (queued ++ a :: created)) :=
  ((List.perm_middle.append_left expired).trans List.perm_middle).symm

theorem inv_newTimer (h : Inv [] s m) (hfree : s.queue.heap a = none) (haddr : a < UINTPTR_MAX)
    (when : Timestamp) (interval : Nat) (repeats : Bool) :
    Inv [] { s with
      queue := s.queue.store a (some ⟨when, interval, repeats, s.numCreated + 1⟩)
      numCreated := s.numCreated + 1
      created := a :: s.created } m := by
  refine ⟨(h.sound.alloc hfree haddr rfl).perm ?_, h.calling, h.todo⟩
  exact perm_outside s.expiredTimers s.queuedTimers s.created

theorem inv_handOver (h : Inv [] s m) (ha : a ∈ s.created) : Inv [a] (s.handOver a) m := by
  refine ⟨h.sound.perm ?_, h.calling, h.todo⟩
  have hcreated := ((List.perm_cons_erase ha).append_left s.queuedTimers).append_left
    s.expiredTimers
  exact hcreated.trans (perm_outside _ _ _).symm

theorem inv_queueAdd (h : Inv [a] s m) :
    Inv [] { s with queued := s.queued ++ [.addTimerInLoop a] } m := by
  refine ⟨h.sound.perm ?_, h.calling, h.todo⟩
  have hqueued : ({ s with queued := s.queued ++ [.addTimerInLoop a] } : TimerSystem).outside =
      s.expiredTimers ++ (s.queuedTimers ++ a :: s.created) := by
    simp [outside, expiredTimers, queuedTimers, TimerFunctor.adds]
  rw [List.nil_append, hqueued]
  exact perm_outside s.expiredTimers s.queuedTimers s.created

theorem inv_queueCancel (h : Inv [] s m) (id : TimerId) :
    Inv [] { s with queued := s.queued ++ [.cancelInLoop id] } m := by
  have hqueued : (s.queued ++ [TimerFunctor.cancelInLoop id]).filterMap TimerFunctor.adds =
    s.queuedTimers := by
    rw [List.filterMap_append, List.filterMap_cons_none rfl, List.filterMap_nil, List.append_nil]
    rfl
  refine ⟨?_, h.calling, h.todo⟩
  rw [outside, queuedTimers, hqueued]
  exact h.sound

theorem inv_takeAdd (h : Inv [] s m) {queued : List TimerFunctor}
    (hqueued : s.queued = .addTimerInLoop a :: queued) : Inv [a] { s with queued := queued } m := by
  refine ⟨h.sound.perm ?_, h.calling, h.todo⟩
  have hout : s.outside = s.expiredTimers ++ (a ::
    (queued.filterMap TimerFunctor.adds ++ s.created)) := by
    simp [outside, queuedTimers, hqueued, TimerFunctor.adds]
  rw [List.nil_append, hout]
  exact List.perm_middle

theorem inv_takeCancel (h : Inv [] s m) {id : TimerId} {queued : List TimerFunctor}
    (hqueued : s.queued = .cancelInLoop id :: queued) : Inv [] { s with queued := queued } m := by
  have hsound := h.sound
  rw [outside, queuedTimers, hqueued, List.filterMap_cons_none rfl] at hsound
  exact ⟨hsound, h.calling, h.todo⟩

/-- `addTimerInLoop` schedules the timer. -/
theorem inv_addInLoop (h : Inv [a] s m) {t : Timer} (ht : s.queue.heap a = some t)
    (now : Timestamp) :
    s.addInLoop a now = .ok { s with queue := s.queue.added a t now } ∧
      Inv [] { s with queue := s.queue.added a t now } (Function.update m a (some t)) := by
  obtain ⟨hrun, hsound⟩ := TimerQueue.Sound.add h.sound ht now
  refine ⟨by rw [addInLoop, hrun, ok_bind], hsound, ?_, h.todo⟩
  obtain ⟨fd, hfd⟩ := TimerQueue.added_eq s.queue a t now
  rw [hfd]
  exact h.calling

/-- `cancelInLoop` of a scheduled timer. -/
theorem inv_cancel_scheduled (h : Inv [] s m) {t : Timer} (ha : m a = some t) :
    s.cancelInLoop (TimerQueue.idOf a t) = .ok { s with
        queue := (s.queue.unschedule a t).store a none
        log := s.log ++ [.cancelled (TimerQueue.idOf a t)] } ∧
      Inv [] { s with
        queue := (s.queue.unschedule a t).store a none
        log := s.log ++ [.cancelled (TimerQueue.idOf a t)] } (Function.update m a none) := by
  refine ⟨?_, h.sound.cancel_scheduled ha, h.calling, h.todo⟩
  rw [cancelInLoop, TimerQueue.cancelInLoop_of_scheduled h.sound.indexes ha, ok_bind]

/-- `cancelInLoop` of a timer that is not scheduled. -/
theorem inv_cancel_other (h : Inv [] s m) {id : TimerId} (hid : id ∉ s.queue.activeTimers_) :
    s.cancelInLoop id = .ok { s with
        queue := { s.queue with cancelingTimers_ := s.queue.noted id }
        log := s.log ++ [.cancelled id] } ∧
      Inv [] { s with
        queue := { s.queue with cancelingTimers_ := s.queue.noted id }
        log := s.log ++ [.cancelled id] } m := by
  refine ⟨?_, h.sound.cancel_other _, h.calling, h.todo⟩
  rw [cancelInLoop, TimerQueue.cancelInLoop_of_not_scheduled h.sound.indexes hid, ok_bind]

/-- `handleRead` begins. -/
theorem inv_handleRead (h : Inv [] s m) (hbatch : s.batch = none) (now : Timestamp) (fired : Bool) :
    ∃ expired timers active fd,
      s.step (.handleRead now fired) = .ok { s with
        queue := { s.queue with
          timers_ := timers, activeTimers_ := active, callingExpiredTimers_ := true,
          cancelingTimers_ := .empty, timerfd := fd }
        batch := some ⟨expired, expired, now⟩ } ∧
      Inv [] { s with
        queue := { s.queue with
          timers_ := timers, activeTimers_ := active, callingExpiredTimers_ := true,
          cancelingTimers_ := .empty, timerfd := fd }
        batch := some ⟨expired, expired, now⟩ }
        (TimerQueue.without m (expired.map Entry.timer)) ∧
      ∀ a, a ∈ expired.map Entry.timer ↔ ∃ t, m a = some t ∧ t.expiration_ ≤ now := by
  obtain ⟨expired, timers, active, fd, hrun, hsound, hdue⟩ := h.sound.beginRead now fired
  refine ⟨expired, timers, active, fd, ?_, ⟨?_, rfl, ?_⟩, hdue⟩
  · simp only [step, hrun, ok_bind]
  · have hout : s.outside = s.queuedTimers ++ s.created := by
      simp [outside, expiredTimers, hbatch]
    rw [List.nil_append, hout] at hsound
    exact hsound
  · intro b hb
    obtain rfl := Option.some.inj hb
    exact List.suffix_refl _

/-- `handleRead` starts a callback. -/
theorem inv_runNext (h : Inv [] s m) {expired todo : List Entry} {e : Entry} {now : Timestamp}
    (hbatch : s.batch = some ⟨expired, e :: todo, now⟩) :
    ∃ t, s.queue.heap e.timer = some t ∧
      s.step .runNext = .ok { s with
        batch := some ⟨expired, todo, now⟩
        log := s.log ++ [.started (TimerQueue.idOf e.timer t)] } ∧
      Inv [] { s with
        batch := some ⟨expired, todo, now⟩
        log := s.log ++ [.started (TimerQueue.idOf e.timer t)] } m := by
  have hsuffix : e :: todo <:+ expired := h.todo _ hbatch
  obtain ⟨_, t, ht⟩ := h.batch_outside hbatch
    (List.mem_map_of_mem (hsuffix.subset List.mem_cons_self))
  refine ⟨t, ht, ?_, ?_, ?_, ?_⟩
  · simp only [step, hbatch, TimerQueue.deref_of ht, ok_bind]
  · have hsound := h.sound
    simp only [outside, expiredTimers, hbatch] at hsound
    exact hsound
  · rw [h.calling, hbatch]
    rfl
  · intro b hb
    obtain rfl := Option.some.inj hb
    exact (List.suffix_cons e todo).trans hsuffix

/-- `handleRead` ends. -/
theorem inv_finishRead (h : Inv [] s m) {b : Batch} (hbatch : s.batch = some b)
    (clock : Timestamp) :
    ∃ heap timers active m',
      s.step (.finishRead clock) = .ok { s with
        queue := { s.queue with
          heap := heap, timers_ := timers, activeTimers_ := active, callingExpiredTimers_ := false,
          timerfd := TimerQueue.rearmed s.queue.timerfd timers clock }
        batch := none } ∧
      Inv [] { s with
        queue := { s.queue with
          heap := heap, timers_ := timers, activeTimers_ := active, callingExpiredTimers_ := false,
          timerfd := TimerQueue.rearmed s.queue.timerfd timers clock }
        batch := none } m' ∧
      TimerQueue.Resets s.queue.cancelingTimers_ b.now (b.expired.map Entry.timer) s.queue.heap m
        heap m' := by
  have hsound := h.sound
  simp only [outside, expiredTimers, hbatch] at hsound
  obtain ⟨heap, timers, active, fd, m', hrun, hsound', hresets, rfl⟩ :=
    TimerQueue.Sound.finishRead hsound b.now clock
  refine ⟨heap, timers, active, m', ?_, ⟨hsound', rfl, fun _ h => absurd h (by simp)⟩, hresets⟩
  simp only [step, hbatch, hrun, ok_bind]

/-- `cancelInLoop` never fails, and keeps the invariant. -/
theorem inv_cancelInLoop (h : Inv [] s m) (id : TimerId) :
    ∃ s' m', s.cancelInLoop id = .ok s' ∧ Inv [] s' m' := by
  by_cases hid : id ∈ s.queue.activeTimers_
  · obtain ⟨a, t, ha, rfl⟩ := (h.sound.indexes.active id).mp hid
    exact ⟨_, _, inv_cancel_scheduled h ha⟩
  · exact ⟨_, _, inv_cancel_other h hid⟩

/-- Every legal step succeeds and keeps the invariant. -/
theorem inv_step (h : Inv [] s m) {action : Action} (hlegal : s.Legal action) :
    ∃ s' m', s.step action = .ok s' ∧ Inv [] s' m' := by
  cases action with
  | newTimer timer when interval repeats =>
      exact ⟨_, m, rfl, inv_newTimer h hlegal.1 hlegal.2.1 when interval repeats⟩
  | queueAdd timer => exact ⟨_, m, rfl, inv_queueAdd (inv_handOver h hlegal)⟩
  | addNow timer now =>
      have hheld := inv_handOver h hlegal
      obtain ⟨t, ht⟩ := hheld.held_live
      exact ⟨_, _, inv_addInLoop hheld ht now⟩
  | queueCancel id => exact ⟨_, m, rfl, inv_queueCancel h id⟩
  | cancelNow id => exact inv_cancelInLoop h id
  | runFunctor now =>
      rcases hlegal.runFunctor with ⟨a, queued, hqueued, hstep⟩ | ⟨id, queued, hqueued, hstep⟩
      · have hheld := inv_takeAdd h hqueued
        obtain ⟨t, ht⟩ := hheld.held_live
        rw [hstep]
        exact ⟨_, _, inv_addInLoop hheld ht now⟩
      · rw [hstep]
        exact inv_cancelInLoop (inv_takeCancel h hqueued) id
  | handleRead now fired =>
      obtain ⟨_, _, _, _, hrun, hinv, _⟩ := inv_handleRead h hlegal now fired
      exact ⟨_, _, hrun, hinv⟩
  | runNext =>
      obtain ⟨expired, e, todo, now, hbatch⟩ := hlegal.runNext
      obtain ⟨_, _, hrun, hinv⟩ := inv_runNext h hbatch
      exact ⟨_, m, hrun, hinv⟩
  | finishRead clock =>
      obtain ⟨b, hbatch⟩ := hlegal.finishRead
      obtain ⟨_, _, _, m', hrun, hinv, _⟩ := inv_finishRead h hbatch clock
      exact ⟨_, m', hrun, hinv⟩

end Steps

/-! ## The two indexes -/

/-- `timers_` and `activeTimers_` agree: they list the same timers, which are alive. -/
structure Agree (q : TimerQueue) (m : Nat → Option Timer) : Prop where
  live : ∀ a t, m a = some t → q.heap a = some t
  timers : ∀ e : Entry, e ∈ q.timers_ ↔ ∃ a t, m a = some t ∧ e = ⟨t.expiration_, a⟩
  active : ∀ i : TimerId, i ∈ q.activeTimers_ ↔ ∃ a t, m a = some t ∧ i = ⟨a, t.sequence_⟩

theorem Inv.agree {s : TimerSystem} {m : Nat → Option Timer} (h : Inv [] s m) :
    Agree s.queue m where
  live := h.sound.indexes.live
  timers e := by
    rw [h.sound.indexes.timers e]
    simp only [TimerQueue.entryOf, eq_comm]
  active i := by
    rw [h.sound.indexes.active i]
    simp only [TimerQueue.idOf, eq_comm]

/-- In every run no assertion fails, and in every state it comes to the two sets list
one and the same set of live timers; and there, the cancellation of anything that is
not one of them leaves both sets unchanged. -/
theorem indexes_agree {actions : List Action} (hlegal : machine.LegalRun start actions) :
    ∃ s, machine.run start actions = .ok s ∧ ∃ m, Agree s.queue m ∧
      ∀ id : TimerId, (¬ ∃ t, m id.timer_ = some t ∧ t.sequence_ = id.sequence_) →
        ∃ q, s.queue.cancelInLoop id = .ok q ∧ q.timers_ = s.queue.timers_ ∧
          q.activeTimers_ = s.queue.activeTimers_ := by
  obtain ⟨s, hrun, m, hinv⟩ := Machine.run_invariant (fun s => ∃ m, Inv [] s m)
    (by
      rintro s action ⟨m, h⟩ hlegal
      obtain ⟨s', m', hstep, h'⟩ := inv_step h hlegal
      exact ⟨s', hstep, m', h'⟩)
    ⟨_, inv_start⟩ hlegal
  refine ⟨s, hrun, m, hinv.agree, ?_⟩
  intro id hid
  have hnot : id ∉ s.queue.activeTimers_ := by
    rw [hinv.agree.active]
    rintro ⟨a, t, ha, rfl⟩
    exact hid ⟨t, ha, rfl⟩
  exact ⟨_, TimerQueue.cancelInLoop_of_not_scheduled hinv.sound.indexes hnot, rfl, rfl⟩

instance (s : TimerSystem) (a : Action) : Decidable (machine.legal s a) :=
  inferInstanceAs (Decidable (s.Legal a))

/-- A repeating timer whose callback adds a timer and cancels its own; then its
address is used again by another thread, and the stale identifier is cancelled. -/
def sampleRun : List Action :=
  [.newTimer 8 ⟨5⟩ 3 true, .addNow 8 ⟨1⟩, .handleRead ⟨10⟩ true, .runNext,
  .newTimer 16 ⟨40⟩ 0 false,
    .addNow 16 ⟨11⟩, .cancelNow ⟨8, 1⟩, .finishRead ⟨12⟩, .newTimer 8 ⟨30⟩ 0 false, .queueAdd 8,
    .runFunctor ⟨13⟩, .cancelNow ⟨8, 1⟩]

theorem indexes_agree_sampleRun :
    machine.LegalRun start sampleRun ∧
      ∃ s, machine.run start sampleRun = .ok s ∧ ∃ m, Agree s.queue m ∧
        ∀ id : TimerId, (¬ ∃ t, m id.timer_ = some t ∧ t.sequence_ = id.sequence_) →
          ∃ q, s.queue.cancelInLoop id = .ok q ∧ q.timers_ = s.queue.timers_ ∧
            q.activeTimers_ = s.queue.activeTimers_ := by
  have hlegal : machine.LegalRun start sampleRun := by decide +kernel
  exact ⟨hlegal, indexes_agree hlegal⟩

end TimerSystem

end Muduo.Net
