/-
  Base/BoundedBlockingQueue.lean --- `BoundedBlockingQueue<T>`
  (src/muduo/base/BoundedBlockingQueue.h), with the threads that use it.

  Any number of threads call `put` and `take`.  What a thread does under the mutex is one
  step: it tests the queue and then waits, pushes or pops.  `put` notifies after it has
  unlocked; `take` notifies before, so nobody else is under the mutex between its two
  steps.  A thread that waits may be woken by a notification or for no reason; it then
  tests the queue again, in competition with threads that have just come.

  The values leave in the order in which they were pushed, and no thread is left waiting
  for something that is there (`fifo_without_lost_wakeups`).  Behind the second half is a
  count: as long as somebody waits, there are no more elements than notifications that are
  still to be issued or still to be acted upon; and the same for free places.
-/
import Muduo.Foundation.Machine

set_option autoImplicit false

namespace Muduo.Base

open Muduo.Foundation

/-! ## The queue -/

/-- `boost::circular_buffer<T>`. -/
structure CircularBuffer (T : Type) where
  elems : List T
  capacity : Nat
  deriving DecidableEq, Repr

namespace CircularBuffer

variable {T : Type}

/-- `full()`. -/
def full (q : CircularBuffer T) : Bool := q.elems.length == q.capacity

/-- `empty()`. -/
def empty (q : CircularBuffer T) : Bool := q.elems.isEmpty

/-- `push_back(x)`: the first element is overwritten when there is no room. -/
def push_back (q : CircularBuffer T) (x : T) : CircularBuffer T :=
  if q.full then
    if q.capacity = 0 then q else { q with elems := q.elems.tail ++ [x] }
  else { q with elems := q.elems ++ [x] }

/-- `pop_front()`. -/
def pop_front (q : CircularBuffer T) : CircularBuffer T := { q with elems := q.elems.tail }

theorem push_back_of_not_full {q : CircularBuffer T} (h : ¬ q.full = true) (x : T) :
    q.push_back x = { q with elems := q.elems ++ [x] } := if_neg h

theorem not_full_iff {q : CircularBuffer T} : ¬ q.full = true ↔ q.elems.length ≠ q.capacity := by
  simp [full]

end CircularBuffer

/-! ## The threads -/

/-- The two condition variables. -/
inductive Condition where
  | notEmpty_
  | notFull_
  deriving DecidableEq, Repr

/-- How far a thread is in front of the lock. -/
inductive Stage where
  /-- it is about to lock the mutex for the first time -/
  | entering
  /-- it is in `wait()` -/
  | blocked
  /-- a notification has woken it -/
  | signalled
  /-- it woke up without a notification -/
  | awake
  deriving DecidableEq, Repr

/-- Where a thread is. -/
inductive Pc (T : Type) where
  | outside
  | putting (x : T) (stage : Stage)
  /-- `put` has unlocked the mutex and is about to notify -/
  | notifyingNotEmpty
  | taking (stage : Stage)
  /-- `take` has popped an element and is about to notify, under the mutex -/
  | notifyingNotFull (front : T)
  deriving DecidableEq, Repr

namespace Pc

variable {T : Type}

/-- The thread needs the condition, and is at the given stage. -/
def standsAt (c : Condition) (stage : Stage) : Pc T → Bool
  | .putting _ stage' => c = .notFull_ ∧ stage' = stage
  | .taking stage' => c = .notEmpty_ ∧ stage' = stage
  | _ => false

/-- The thread is about to notify the condition. -/
def notifies (c : Condition) : Pc T → Bool
  | .notifyingNotEmpty => c = .notEmpty_
  | .notifyingNotFull _ => c = .notFull_
  | _ => false

/-- The announcements that the thread is going to make or has received. -/
def announces (c : Condition) (pc : Pc T) : Nat :=
  (pc.notifies c).toNat + (pc.standsAt c .signalled).toNat

theorem announces_le (c : Condition) (pc : Pc T) : pc.announces c ≤ 1 := by
  unfold announces
  cases pc with
  | notifyingNotEmpty => simpa [standsAt] using Bool.toNat_le _
  | notifyingNotFull front => simpa [standsAt] using Bool.toNat_le _
  | _ => simpa [notifies] using Bool.toNat_le _

/-- The thread is in front of the lock and does not wait. -/
def ready : Pc T → Bool
  | .putting _ stage => stage ≠ .blocked
  | .taking stage => stage ≠ .blocked
  | _ => false

/-- The place after `wait()`. -/
def wake (stage : Stage) : Pc T → Pc T
  | .putting x .blocked => .putting x stage
  | .taking .blocked => .taking stage
  | pc => pc

/-- A thread that notifies announces one thing, and does not wait. -/
theorem announces_of_notifies {c : Condition} {pc : Pc T} (h : pc.notifies c = true)
    (c' : Condition) : pc.announces c' = if c' = c then 1 else 0 := by
  cases pc with
  | notifyingNotEmpty => cases c <;> cases c' <;> simp_all [announces, notifies, standsAt]
  | notifyingNotFull front => cases c <;> cases c' <;> simp_all [announces, notifies, standsAt]
  | _ => simp [notifies] at h

theorem standsAt_of_notifies {c : Condition} {pc : Pc T} (h : pc.notifies c = true)
    (c' : Condition) (stage : Stage) : pc.standsAt c' stage = false := by
  cases pc with
  | notifyingNotEmpty => rfl
  | notifyingNotFull front => rfl
  | _ => simp [notifies] at h

/-- A thread that waits announces nothing; when it is signalled, it has received one
announcement and does not wait any more. -/
theorem wake_of_blocked {c : Condition} {pc : Pc T} (h : pc.standsAt c .blocked = true)
    (c' : Condition) : pc.announces c' = 0 ∧
      (pc.wake .signalled).announces c' = (if c' = c then 1 else 0) ∧
      (pc.wake .signalled).standsAt c' .blocked = false := by
  cases pc with
  | putting x stage =>
      obtain ⟨rfl, rfl⟩ : c = .notFull_ ∧ stage = .blocked := by simpa [standsAt] using h
      cases c' <;> exact ⟨rfl, rfl, rfl⟩
  | taking stage =>
      obtain ⟨rfl, rfl⟩ : c = .notEmpty_ ∧ stage = .blocked := by simpa [standsAt] using h
      cases c' <;> exact ⟨rfl, rfl, rfl⟩
  | _ => simp [standsAt] at h

end Pc

/-- What a thread calls. -/
inductive Call (T : Type) where
  | put (x : T)
  | take
  deriving DecidableEq, Repr

/-- Where a call begins. -/
def Call.start {T : Type} : Call T → Pc T
  | .put x => .putting x .entering
  | .take => .taking .entering

/-- `class BoundedBlockingQueue<T>` and the threads; `pushed` and `taken` are the values
so far, in the order of the steps. -/
structure BoundedBlockingQueue (T : Type) where
  queue_ : CircularBuffer T
  /-- the thread that holds the mutex between two steps -/
  mutex_ : Option Nat
  threads : List (Pc T)
  pushed : List T
  taken : List T
  deriving DecidableEq, Repr

namespace BoundedBlockingQueue

variable {T : Type}

/-- A new queue for the given number of threads. -/
def start (maxSize threads : Nat) : BoundedBlockingQueue T :=
  ⟨⟨[], maxSize⟩, none, List.replicate threads .outside, [], []⟩

/-- A step of one thread. -/
inductive Action (T : Type) where
  | call (thread : Nat) (c : Call T)
  /-- lock the mutex, test the queue, then wait or push or pop -/
  | enter (thread : Nat)
  /-- `notify()`; `waiter` is the thread that it wakes -/
  | notify (thread : Nat) (waiter : Option Nat)
  /-- a thread leaves `wait()` without a notification -/
  | wakeUp (thread : Nat)
  deriving DecidableEq, Repr

/-- The thread comes to another place. -/
def goto (s : BoundedBlockingQueue T) (thread : Nat) (pc : Pc T) : BoundedBlockingQueue T :=
  { s with threads := s.threads.set thread pc }

/-- `put(x)` under the mutex. -/
def put (s : BoundedBlockingQueue T) (thread : Nat) (x : T) : Exec (BoundedBlockingQueue T) :=
  if s.queue_.full then .ok (s.goto thread (.putting x .blocked))
  else do
    assertThat (¬ s.queue_.full)
    .ok { s.goto thread .notifyingNotEmpty with
      queue_ := s.queue_.push_back x
      pushed := s.pushed ++ [x] }

/-- `take()` under the mutex, up to `notify()`. -/
def take (s : BoundedBlockingQueue T) (thread : Nat) : Exec (BoundedBlockingQueue T) :=
  if s.queue_.empty then .ok (s.goto thread (.taking .blocked))
  else do
    assertThat (¬ s.queue_.empty)
    match s.queue_.elems with
    | [] => .error .outOfBounds
    | front :: _ =>
        .ok { s.goto thread (.notifyingNotFull front) with
          queue_ := s.queue_.pop_front
          mutex_ := some thread
          taken := s.taken ++ [front] }

/-- A thread leaves `wait()`. -/
def wake (s : BoundedBlockingQueue T) (stage : Stage) (thread : Nat) : BoundedBlockingQueue T :=
  match s.threads[thread]? with
  | some pc => s.goto thread (pc.wake stage)
  | none => s

/-- What a step does. -/
def step (s : BoundedBlockingQueue T) : Action T → Exec (BoundedBlockingQueue T)
  | .call thread c => .ok (s.goto thread c.start)
  | .enter thread =>
      match s.threads[thread]? with
      | some (.putting x _) => s.put thread x
      | some (.taking _) => s.take thread
      | _ => .ok s
  | .notify thread waiter =>
      let s := waiter.elim s (s.wake .signalled)
      -- `take` unlocks the mutex behind `notify()`
      let mutex := if s.mutex_ = some thread then none else s.mutex_
      .ok { s.goto thread .outside with mutex_ := mutex }
  | .wakeUp thread => .ok (s.wake .awake thread)

/-- The threads for which the test holds. -/
def count (s : BoundedBlockingQueue T) (p : Pc T → Bool) : Nat := s.threads.countP p

/-- The place of the thread passes the test. -/
def isAt (s : BoundedBlockingQueue T) (thread : Nat) (p : Pc T → Bool) : Bool :=
  s.threads[thread]?.any p

/-- The notification is for a condition, wakes a thread that waits for it, and is lost
only when there is none. -/
def Notifies (s : BoundedBlockingQueue T) (thread : Nat) (waiter : Option Nat) (c : Condition) :
    Prop :=
  s.isAt thread (Pc.notifies c) = true ∧
    match waiter with
    | some w => s.isAt w (Pc.standsAt c .blocked) = true
    | none => s.count (Pc.standsAt c .blocked) = 0

/-- What the threads may do next. -/
def Legal (s : BoundedBlockingQueue T) : Action T → Prop
  | .call thread _ => s.isAt thread (fun pc => pc matches .outside) = true
  | .enter thread => s.mutex_ = none ∧ s.isAt thread Pc.ready = true
  | .notify thread waiter => s.Notifies thread waiter .notEmpty_ ∨
      s.Notifies thread waiter .notFull_
  | .wakeUp thread =>
      s.isAt thread (Pc.standsAt .notEmpty_ .blocked) = true ∨
        s.isAt thread (Pc.standsAt .notFull_ .blocked) = true

/-- The threads in any order. -/
def machine : Machine (BoundedBlockingQueue T) (Action T) := ⟨step, Legal⟩

/-! ## The invariant -/

/-- How much there is of what a condition is about: elements, or free places. -/
def available (s : BoundedBlockingQueue T) : Condition → Nat
  | .notEmpty_ => s.queue_.elems.length
  | .notFull_ => s.queue_.capacity - s.queue_.elems.length

/-- Notifications that are still to be issued or to be acted upon. -/
def pending (s : BoundedBlockingQueue T) (c : Condition) : Nat :=
  s.count (Pc.notifies c) + s.count (Pc.standsAt c .signalled)

/-- As long as somebody waits, everything that is available is announced. -/
def Covered (s : BoundedBlockingQueue T) (c : Condition) : Prop :=
  0 < s.count (Pc.standsAt c .blocked) → s.available c ≤ s.pending c

/-- What holds of a queue that was constructed with `maxSize`. -/
structure Inv (maxSize : Nat) (s : BoundedBlockingQueue T) : Prop where
  capacity : s.queue_.capacity = maxSize
  bound : s.queue_.elems.length ≤ maxSize
  fifo : s.taken ++ s.queue_.elems = s.pushed
  covered : ∀ c, s.Covered c

theorem count_start (maxSize threads : Nat) (p : Pc T → Bool) (h : p .outside = false) :
    (start maxSize threads : BoundedBlockingQueue T).count p = 0 := by
  refine List.countP_eq_zero.mpr fun pc hpc => ?_
  rw [List.eq_of_mem_replicate hpc, h]
  simp

theorem inv_start (maxSize threads : Nat) :
    Inv maxSize (start maxSize threads : BoundedBlockingQueue T) where
  capacity := rfl
  bound := Nat.zero_le _
  fifo := rfl
  covered c h := by
    rw [count_start maxSize threads _ rfl] at h
    exact absurd h (Nat.lt_irrefl 0)

section Steps

variable {s : BoundedBlockingQueue T} {i : Nat} {pc : Pc T}

/-- What a thread counts, it counts at its new place. -/
theorem count_goto (h : s.threads[i]? = some pc) (pc' : Pc T) (p : Pc T → Bool) :
    (s.goto i pc').count p + (p pc).toNat = s.count p + (p pc').toNat := by
  obtain ⟨hi, rfl⟩ := List.getElem?_eq_some_iff.mp h
  have hpos : p s.threads[i] = true → 0 < s.threads.countP p :=
    fun hp => List.countP_pos_iff.mpr ⟨_, List.getElem_mem hi, hp⟩
  unfold count goto
  rw [List.countP_set hi]
  cases hp : p s.threads[i] with
  | false => cases p pc' <;> simp
  | true =>
      have := hpos hp
      cases p pc' <;> simp <;> omega

theorem pending_goto (h : s.threads[i]? = some pc) (pc' : Pc T) (c : Condition) :
    (s.goto i pc').pending c + pc.announces c = s.pending c + pc'.announces c := by
  have hnotifies := count_goto h pc' (Pc.notifies c)
  have hsignalled := count_goto h pc' (Pc.standsAt c .signalled)
  unfold pending Pc.announces
  omega

/-- One thread moves, without beginning to wait.  If what becomes available is not more
than what the thread announces, everything stays announced. -/
theorem covered_move (h : s.threads[i]? = some pc) {pc' : Pc T} {s' : BoundedBlockingQueue T}
    (hthreads : s'.threads = s.threads.set i pc') {c : Condition} (hcovered : s.Covered c)
    (hblocked : (pc'.standsAt c .blocked).toNat ≤ (pc.standsAt c .blocked).toNat)
    (havailable : s'.available c + pc.announces c ≤ s.available c + pc'.announces c) :
    s'.Covered c := by
  have hsame : ∀ p, s'.count p = (s.goto i pc').count p := by
    intro p
    rw [count, hthreads]
    rfl
  have hcount := count_goto h pc' (Pc.standsAt c .blocked)
  have hpending := pending_goto h pc' c
  intro hpos
  rw [hsame] at hpos
  have hle := hcovered (by omega)
  have heq : s'.pending c = (s.goto i pc').pending c := by rw [pending, pending, hsame, hsame]
  omega

/-- `put` waits when there is no free place, and otherwise announces one element more. -/
theorem inv_put {maxSize : Nat} (h : Inv maxSize s) {x : T} {stage : Stage}
    (hpc : s.threads[i]? = some (.putting x stage)) (hready : stage ≠ .blocked) :
    ∃ s', s.put i x = .ok s' ∧ Inv maxSize s' := by
  have hbound := h.bound
  have hcapacity := h.capacity
  unfold put
  by_cases hfull : s.queue_.full = true
  · rw [if_pos hfull]
    refine ⟨_, rfl, h.capacity, h.bound, h.fifo, fun c => ?_⟩
    have hlength : s.queue_.elems.length = s.queue_.capacity := by
      simpa [CircularBuffer.full] using hfull
    cases c with
    | notEmpty_ =>
        exact covered_move hpc rfl (h.covered _) (by simp [Pc.standsAt])
          (by simp [available, goto, Pc.announces, Pc.standsAt, Pc.notifies])
    | notFull_ =>
        intro _
        simp only [available, goto]
        omega
  · rw [if_neg hfull, assertThat_of (by simpa using hfull), ok_bind,
      CircularBuffer.push_back_of_not_full hfull]
    have hroom := CircularBuffer.not_full_iff.mp hfull
    refine ⟨_, rfl, hcapacity, ?_, ?_, fun c => ?_⟩
    · simp only [List.length_append, List.length_singleton]
      omega
    · simp only [goto, ← h.fifo, List.append_assoc]
    · refine covered_move hpc rfl (h.covered c) (by cases c <;> simp [Pc.standsAt, hready]) ?_
      cases c with
      | notEmpty_ => simp [available, Pc.announces, Pc.standsAt, Pc.notifies]
      | notFull_ =>
          have hone := (Pc.putting x stage).announces_le .notFull_
          simp only [available, List.length_append, List.length_singleton]
          omega

/-- `take` waits when there is no element, and otherwise announces one free place more. -/
theorem inv_take {maxSize : Nat} (h : Inv maxSize s) {stage : Stage}
    (hpc : s.threads[i]? = some (.taking stage)) (hready : stage ≠ .blocked) :
    ∃ s', s.take i = .ok s' ∧ Inv maxSize s' := by
  have hbound := h.bound
  have hcapacity := h.capacity
  unfold take
  cases hqueue : s.queue_.elems with
  | nil =>
      have hempty : s.queue_.empty = true := by simp [CircularBuffer.empty, hqueue]
      rw [if_pos hempty]
      refine ⟨_, rfl, h.capacity, h.bound, h.fifo, fun c => ?_⟩
      cases c with
      | notEmpty_ =>
          intro _
          simp [available, goto, hqueue]
      | notFull_ =>
          exact covered_move hpc rfl (h.covered _) (by simp [Pc.standsAt])
            (by simp [available, goto, Pc.announces, Pc.standsAt, Pc.notifies])
  | cons front rest =>
      have hempty : ¬ s.queue_.empty = true := by simp [CircularBuffer.empty, hqueue]
      rw [hqueue, List.length_cons] at hbound
      rw [if_neg hempty, assertThat_of (by simpa using hempty), ok_bind]
      refine ⟨_, rfl, hcapacity, ?_, ?_, fun c => ?_⟩
      · simp only [CircularBuffer.pop_front, hqueue, List.tail_cons]
        omega
      · simp only [goto, CircularBuffer.pop_front, hqueue, List.tail_cons, ← h.fifo,
          List.append_assoc, List.singleton_append]
      · refine covered_move hpc rfl (h.covered c) (by cases c <;> simp [Pc.standsAt, hready]) ?_
        have hone := (Pc.taking stage : Pc T).announces_le c
        cases c with
        | notEmpty_ =>
            simp only [available, CircularBuffer.pop_front, hqueue, List.tail_cons,
              List.length_cons]
            omega
        | notFull_ =>
            have hbefore : (Pc.taking stage : Pc T).announces .notFull_ = 0 := rfl
            have hafter : (Pc.notifyingNotFull front).announces .notFull_ = 1 := rfl
            simp only [available, CircularBuffer.pop_front, hqueue, List.tail_cons,
              List.length_cons]
            omega

/-- Somebody is woken up. -/
theorem wake_eq (h : s.threads[i]? = some pc) (stage : Stage) :
    s.wake stage i = s.goto i (pc.wake stage) := by
  simp only [wake, h]

/-- A thread leaves `wait()`. -/
theorem inv_wakeUp {maxSize : Nat} (h : Inv maxSize s) (hpc : s.threads[i]? = some pc) :
    Inv maxSize (s.wake .awake i) := by
  rw [wake_eq hpc]
  refine ⟨h.capacity, h.bound, h.fifo, fun c => covered_move hpc rfl (h.covered c) ?_ ?_⟩
  · cases pc with
    | putting x stage => cases stage <;> cases c <;> simp [Pc.wake, Pc.standsAt]
    | taking stage => cases stage <;> cases c <;> simp [Pc.wake, Pc.standsAt]
    | _ => exact le_rfl
  · have hsame : pc.announces c ≤ (pc.wake .awake).announces c := by
      cases pc with
      | putting x stage => cases stage <;> simp [Pc.wake, Pc.announces, Pc.standsAt, Pc.notifies]
      | taking stage => cases stage <;> simp [Pc.wake, Pc.announces, Pc.standsAt, Pc.notifies]
      | _ => exact le_rfl
    exact Nat.add_le_add_left hsame _

theorem exists_of_isAt {p : Pc T → Bool} (h : s.isAt i p = true) :
    ∃ pc, s.threads[i]? = some pc ∧ p pc = true := by
  simpa [isAt, Option.any_eq_true] using h

/-- A notification without a waiter. -/
theorem covered_notify_none {c : Condition} (hpc : s.threads[i]? = some pc)
    (hnotifies : pc.notifies c = true) (hnone : s.count (Pc.standsAt c .blocked) = 0)
    {c' : Condition} (hcovered : s.Covered c') : (s.goto i .outside).Covered c' := by
  by_cases hc : c' = c
  · subst hc
    intro hpos
    have hcount := count_goto hpc .outside (Pc.standsAt c' .blocked)
    have hout : (Pc.outside : Pc T).standsAt c' .blocked = false := rfl
    rw [hout, Bool.toNat_false] at hcount
    omega
  · refine covered_move hpc rfl hcovered (Nat.zero_le _) ?_
    rw [Pc.announces_of_notifies hnotifies, if_neg hc]
    exact Nat.add_le_add_left (Nat.zero_le _) _

/-- A notification goes from the thread that issues it to the one that it wakes. -/
theorem covered_notify_some {c : Condition} (hpc : s.threads[i]? = some pc)
    (hnotifies : pc.notifies c = true) {w : Nat} {pcw : Pc T} (hw : s.threads[w]? = some pcw)
    (hblocked : pcw.standsAt c .blocked = true) {c' : Condition} (hcovered : s.Covered c') :
    ((s.goto w (pcw.wake .signalled)).goto i .outside).Covered c' := by
  have hne : w ≠ i := by
    rintro rfl
    obtain rfl : pc = pcw := Option.some.inj (hpc.symm.trans hw)
    rw [Pc.standsAt_of_notifies hnotifies] at hblocked
    exact absurd hblocked (by simp)
  have hpc' : (s.goto w (pcw.wake .signalled)).threads[i]? = some pc := by
    rw [goto, List.getElem?_set_ne hne]
    exact hpc
  obtain ⟨hbefore, hafter, hgone⟩ := Pc.wake_of_blocked hblocked c'
  have hfirst := pending_goto hw (pcw.wake .signalled) c'
  have hsecond := pending_goto hpc' .outside c'
  have hcount := count_goto hw (pcw.wake .signalled) (Pc.standsAt c' .blocked)
  have hcount' := count_goto hpc' .outside (Pc.standsAt c' .blocked)
  have hout : (Pc.outside : Pc T).standsAt c' .blocked = false := rfl
  have hzero : (Pc.outside : Pc T).announces c' = 0 := rfl
  rw [hbefore, hafter] at hfirst
  rw [Pc.announces_of_notifies hnotifies, hzero] at hsecond
  rw [hgone, Bool.toNat_false] at hcount
  rw [hout, Bool.toNat_false] at hcount'
  intro hpos
  have hle := hcovered (by omega)
  have hsame : ((s.goto w (pcw.wake .signalled)).goto i .outside).available c' =
    s.available c' := rfl
  omega

theorem inv_notify {maxSize : Nat} (h : Inv maxSize s) {waiter : Option Nat} {c : Condition}
    (hnotifies : s.Notifies i waiter c) :
    Inv maxSize ((waiter.elim s (s.wake .signalled)).goto i .outside) := by
  obtain ⟨hat, hwaiter⟩ := hnotifies
  obtain ⟨pc, hpc, hpc'⟩ := exists_of_isAt hat
  cases waiter with
  | none =>
      exact ⟨h.capacity, h.bound, h.fifo,
        fun c' => covered_notify_none hpc hpc' hwaiter (h.covered c')⟩
  | some w =>
      obtain ⟨pcw, hw, hblocked⟩ := exists_of_isAt hwaiter
      simp only [Option.elim_some, wake_eq hw]
      exact ⟨h.capacity, h.bound, h.fifo,
        fun c' => covered_notify_some hpc hpc' hw hblocked (h.covered c')⟩

theorem inv_step {maxSize : Nat} (h : Inv maxSize s) {action : Action T}
    (hlegal : s.Legal action) : ∃ s', s.step action = .ok s' ∧ Inv maxSize s' := by
  cases action with
  | call i c =>
      obtain ⟨pc, hpc, hout⟩ := exists_of_isAt hlegal
      refine ⟨_, rfl, h.capacity, h.bound, h.fifo, fun c' => ?_⟩
      obtain rfl : pc = .outside := by
        cases pc <;> simp_all
      refine covered_move hpc rfl (h.covered c') ?_ ?_
      · cases c <;> cases c' <;> exact le_rfl
      · cases c <;> cases c' <;> exact le_rfl
  | enter i =>
      obtain ⟨pc, hpc, hready⟩ := exists_of_isAt hlegal.2
      cases pc with
      | putting x stage =>
          simp only [step, hpc]
          exact inv_put h hpc (by simpa [Pc.ready] using hready)
      | taking stage =>
          simp only [step, hpc]
          exact inv_take h hpc (by simpa [Pc.ready] using hready)
      | _ => simp [Pc.ready] at hready
  | notify i waiter =>
      have hinv : Inv maxSize ((waiter.elim s (s.wake .signalled)).goto i .outside) := by
        rcases hlegal with hnotifies | hnotifies
        · exact inv_notify h hnotifies
        · exact inv_notify h hnotifies
      exact ⟨_, rfl, hinv.capacity, hinv.bound, hinv.fifo, hinv.covered⟩
  | wakeUp i =>
      have hat : ∃ pc, s.threads[i]? = some pc := by
        rcases hlegal with hat | hat
        · obtain ⟨pc, hpc, _⟩ := exists_of_isAt hat
          exact ⟨pc, hpc⟩
        · obtain ⟨pc, hpc, _⟩ := exists_of_isAt hat
          exact ⟨pc, hpc⟩
      obtain ⟨pc, hpc⟩ := hat
      exact ⟨_, rfl, inv_wakeUp h hpc⟩

end Steps

/-! ## Whole runs -/

/-- A thread waits for the condition although it holds, and nobody is going to tell
anyone. -/
def Stuck (s : BoundedBlockingQueue T) (c : Condition) : Prop :=
  (∃ pc ∈ s.threads, pc.standsAt c .blocked = true) ∧ 0 < s.available c ∧
    (∀ pc ∈ s.threads, pc.notifies c = false) ∧
    ∀ pc ∈ s.threads, pc.standsAt c .signalled = false

theorem not_stuck_of_covered {s : BoundedBlockingQueue T} {c : Condition} (h : s.Covered c) :
    ¬ s.Stuck c := by
  rintro ⟨⟨pc, hpc, hblocked⟩, havailable, hnotifies, hsignalled⟩
  have hle := h (List.countP_pos_iff.mpr ⟨pc, hpc, hblocked⟩)
  have hno : s.count (Pc.notifies c) = 0 :=
    List.countP_eq_zero.mpr fun pc hpc => by simp [hnotifies pc hpc]
  have hnone : s.count (Pc.standsAt c .signalled) = 0 :=
    List.countP_eq_zero.mpr fun pc hpc => by simp [hsignalled pc hpc]
  rw [pending, hno, hnone] at hle
  omega

/-- However the threads are scheduled, the values taken and then those in the queue are
the values pushed, in order; the queue is never longer than it may be; and nobody waits
for an element that is there, or for a place that is free, with no notification on its
way. -/
theorem fifo_without_lost_wakeups (maxSize threads : Nat) (actions : List (Action T))
    (hlegal : machine.LegalRun (start maxSize threads) actions) :
    ∃ s, machine.run (start maxSize threads) actions = .ok s ∧
      s.taken ++ s.queue_.elems = s.pushed ∧ s.queue_.elems.length ≤ maxSize ∧
      ¬ s.Stuck .notEmpty_ ∧ ¬ s.Stuck .notFull_ := by
  obtain ⟨s, hrun, hinv⟩ := Machine.run_invariant (Inv maxSize)
    (fun _ _ h hop => inv_step h hop) (inv_start maxSize threads) hlegal
  exact ⟨s, hrun, hinv.fifo, hinv.bound, not_stuck_of_covered (hinv.covered _),
    not_stuck_of_covered (hinv.covered _)⟩

instance (s : BoundedBlockingQueue T) (thread : Nat) (waiter : Option Nat) (c : Condition) :
    Decidable (s.Notifies thread waiter c) :=
  match waiter with
  | some _ => inferInstanceAs (Decidable (_ = _ ∧ _ = _))
  | none => inferInstanceAs (Decidable (_ = _ ∧ _ = _))

instance (s : BoundedBlockingQueue T) (a : Action T) : Decidable (machine.legal s a) :=
  match a with
  | .call _ _ => inferInstanceAs (Decidable (_ = _))
  | .enter _ => inferInstanceAs (Decidable (_ = _ ∧ _ = _))
  | .notify _ _ => inferInstanceAs (Decidable (_ ∨ _))
  | .wakeUp _ => inferInstanceAs (Decidable (_ = _ ∨ _ = _))

/-- One place, and three threads.  The consumer waits; two producers come, and the second
one has to wait until the element is taken. -/
def oneSlot : List (Action Nat) :=
  [.call 0 .take, .enter 0, .call 1 (.put 7), .enter 1, .call 2 (.put 8), .enter 2,
    .notify 1 (some 0), .wakeUp 2, .enter 2, .enter 0, .notify 0 (some 2), .enter 2,
    .notify 2 none]

theorem fifo_without_lost_wakeups_oneSlot :
    machine.LegalRun (start 1 3) oneSlot ∧
      ∃ s, machine.run (start 1 3) oneSlot = .ok s ∧
        s.taken ++ s.queue_.elems = s.pushed ∧ s.queue_.elems.length ≤ 1 ∧
        ¬ s.Stuck .notEmpty_ ∧ ¬ s.Stuck .notFull_ := by
  have hlegal : machine.LegalRun (start 1 3) oneSlot := by decide +kernel
  exact ⟨hlegal, fifo_without_lost_wakeups 1 3 oneSlot hlegal⟩

end BoundedBlockingQueue

end Muduo.Base
