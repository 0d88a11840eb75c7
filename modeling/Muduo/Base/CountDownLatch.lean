/-
  Base/CountDownLatch.lean --- `CountDownLatch`
  (src/muduo/base/CountDownLatch.h, CountDownLatch.cc).

  Any threads call `wait`, `countDown` and `getCount`.  What is done under the mutex is one
  step; `countDown` broadcasts before it unlocks.  The broadcast comes when the count is
  exactly zero, and not when it goes below.

  Nobody gets through before the count is used up, and after that nobody is left behind
  (`passes_exactly_when_counted_down`).
-/
import Muduo.Base.BoundedBlockingQueue
import Muduo.Foundation.CInt
import Muduo.Foundation.Threads

set_option autoImplicit false

namespace Muduo.Base

open Muduo.Foundation

/-- Where a thread is. -/
inductive LatchWaiter where
  | outside
  /-- in `wait()` of the latch -/
  | waiting (stage : Stage)
  /-- `wait()` has returned -/
  | passed
  deriving DecidableEq, Repr

namespace LatchWaiter

/-- The place after `wait()` of the condition variable. -/
def wake (stage : Stage) : LatchWaiter → LatchWaiter
  | .waiting .blocked => .waiting stage
  | t => t

/-- `condition_`; a broadcast leaves nobody who would have to be told later. -/
def condition_ : Threads.Condition LatchWaiter where
  waits
    | .waiting .blocked => true
    | _ => false
  announces _ := 0

/-- The thread is inside `wait()` and can lock the mutex. -/
def ready : LatchWaiter → Bool
  | .waiting stage => stage ≠ .blocked
  | _ => false

theorem waits_wake {stage : Stage} (hstage : stage ≠ .blocked) (t : LatchWaiter) :
    condition_.waits (t.wake stage) = false := by
  cases t with
  | waiting stage' => cases stage' <;> cases stage <;> first | rfl | exact absurd rfl hstage
  | _ => rfl

end LatchWaiter

/-- `class CountDownLatch` and the threads that wait; `downs` counts the calls of
`countDown`, and `seen` are the results of `getCount`, the last one first. -/
structure CountDownLatch where
  count_ : Int
  threads : List LatchWaiter
  downs : Nat
  seen : List Int
  deriving DecidableEq, Repr

namespace CountDownLatch

/-- `CountDownLatch(count)`, with so many threads that have not called `wait` yet. -/
def new (count : Int) (threads : Nat) : CountDownLatch :=
  ⟨count, List.replicate threads .outside, 0, []⟩

/-- A thread is somewhere else. -/
def goto (s : CountDownLatch) (i : Nat) (t : LatchWaiter) : CountDownLatch :=
  { s with threads := s.threads.set i t }

/-- A thread leaves `wait()` of the condition variable. -/
def wake (s : CountDownLatch) (stage : Stage) (i : Nat) : CountDownLatch :=
  match s.threads[i]? with
  | some t => s.goto i (t.wake stage)
  | none => s

/-- `wait()` under the mutex. -/
def wait (s : CountDownLatch) (i : Nat) : CountDownLatch :=
  if 0 < s.count_ then s.goto i (.waiting .blocked) else s.goto i .passed

/-- `countDown()`; `none` when the count is out of range. -/
def countDown (s : CountDownLatch) : Option CountDownLatch :=
  (CInt.sub s.count_ 1).map fun count_ =>
    let s := { s with count_, downs := s.downs + 1 }
    if count_ = 0 then { s with threads := s.threads.map (LatchWaiter.wake .signalled) } else s

/-- `getCount()`. -/
def getCount (s : CountDownLatch) : CountDownLatch := { s with seen := s.count_ :: s.seen }

/-- A step of a thread that waits, or of one that counts down. -/
inductive Action where
  /-- a thread calls `wait` -/
  | call (i : Nat)
  /-- it locks the mutex and tests the count -/
  | wait (i : Nat)
  /-- it leaves `wait()` of the condition variable without a notification -/
  | wakeUp (i : Nat)
  | countDown
  | getCount
  deriving DecidableEq, Repr

/-- What a step does. -/
def step (s : CountDownLatch) : Action → Exec CountDownLatch
  | .call i => .ok (s.goto i (.waiting .entering))
  | .wait i => .ok (s.wait i)
  | .wakeUp i => .ok (s.wake .awake i)
  | .countDown =>
      match s.countDown with
      | some s => .ok s
      | none => .error .outOfBounds
  | .getCount => .ok s.getCount

/-- The thread is there and passes the test. -/
def isAt (s : CountDownLatch) (i : Nat) (p : LatchWaiter → Bool) : Bool := s.threads[i]?.any p

/-- A thread calls `wait` again only after it has got through. -/
def Legal (s : CountDownLatch) : Action → Prop
  | .call i => s.isAt i (fun t => t matches .outside | .passed) = true
  | .wait i => s.isAt i LatchWaiter.ready = true
  | .wakeUp i => s.isAt i LatchWaiter.condition_.waits = true
  | .countDown => -2147483648 < s.count_
  | .getCount => True

/-- The threads in any order. -/
def machine : Machine CountDownLatch Action := ⟨step, Legal⟩

instance (s : CountDownLatch) (a : Action) : Decidable (machine.legal s a) :=
  match a with
  | .call _ => inferInstanceAs (Decidable (_ = _))
  | .wait _ => inferInstanceAs (Decidable (_ = _))
  | .wakeUp _ => inferInstanceAs (Decidable (_ = _))
  | .countDown => inferInstanceAs (Decidable (_ < _))
  | .getCount => isTrue trivial

/-! ## The invariant -/

/-- What holds of a latch of `count` for which `n` threads may wait. -/
structure Inv (count : Int) (n : Nat) (s : CountDownLatch) : Prop where
  counted : s.count_ = count - s.downs
  top : s.count_ ≤ 2147483647
  length : s.threads.length = n
  /-- who got through did so when the count was used up -/
  passed : .passed ∈ s.threads → s.count_ ≤ 0
  /-- nobody waits for a count that is used up -/
  released : s.count_ ≤ 0 → LatchWaiter.condition_.waiting s.threads = 0
  /-- what was seen was the count after some of the calls -/
  seen : ∀ c ∈ s.seen, s.count_ ≤ c ∧ c ≤ count

theorem inv_new {count : Int} (hcount : count ≤ 2147483647) (n : Nat) :
    Inv count n (new count n) where
  counted := by simp [new]
  top := hcount
  length := List.length_replicate
  passed hmem := by cases List.eq_of_mem_replicate hmem
  released _ := by
    refine (Threads.total_eq_zero_iff _).mpr fun t ht => ?_
    rw [List.eq_of_mem_replicate ht]
    rfl
  seen _ h := absurd h List.not_mem_nil

section Steps

variable {s : CountDownLatch} {count : Int} {n : Nat} {i : Nat} {t : LatchWaiter}

theorem exists_of_isAt {p : LatchWaiter → Bool} (h : s.isAt i p = true) :
    ∃ t, s.threads[i]? = some t ∧ p t = true := by
  simpa [isAt, Option.any_eq_true] using h

/-- A thread goes somewhere, where it waits only if the count is not used up. -/
theorem inv_goto (h : Inv count n s) (ht : s.threads[i]? = some t) {t' : LatchWaiter}
    (hwaits : s.count_ ≤ 0 → LatchWaiter.condition_.waits t' = false)
    (hpassed : t' = .passed → s.count_ ≤ 0) : Inv count n (s.goto i t') where
  counted := h.counted
  top := h.top
  length := (List.length_set).trans h.length
  passed hmem := by
    rcases List.mem_or_eq_of_mem_set hmem with hmem | rfl
    · exact h.passed hmem
    · exact hpassed rfl
  released hzero := by
    have hset := Threads.total_set ht (fun t => (LatchWaiter.condition_.waits t).toNat) t'
    have hnone := h.released hzero
    have ht' := hwaits hzero
    simp only [Threads.Condition.waiting, goto] at hnone ⊢
    rw [hnone, ht', Bool.toNat_false] at hset
    omega
  seen := h.seen

theorem inv_wait (h : Inv count n s) (ht : s.threads[i]? = some t) : Inv count n (s.wait i) := by
  unfold wait
  split
  · exact inv_goto h ht (fun hzero => by omega) (fun heq => by cases heq)
  · exact inv_goto h ht (fun _ => rfl) (fun _ => by omega)

/-- At zero everybody is woken, and below zero nobody waits any more. -/
theorem inv_countDown (h : Inv count n s) (hlegal : -2147483648 < s.count_) :
    ∃ s', s.countDown = some s' ∧ Inv count n s' := by
  have htop := h.top
  have hcount := h.counted
  have hsub : CInt.sub s.count_ 1 = some (s.count_ - 1) := CInt.checked_of (by omega) (by omega)
  have hseen : ∀ c ∈ s.seen, s.count_ - 1 ≤ c ∧ c ≤ count := by
    intro c hc
    have hbounds := h.seen c hc
    omega
  refine ⟨_, by rw [countDown, hsub]; rfl, ?_⟩
  dsimp only
  split
  · rename_i hzero
    refine ⟨?_, ?_, ?_, fun _ => ?_, fun _ => ?_, hseen⟩
    · simp only
      omega
    · simp only
      omega
    · exact (List.length_map _).trans h.length
    · simp only
      omega
    · refine (Threads.total_eq_zero_iff _).mpr fun t ht => ?_
      obtain ⟨t, -, rfl⟩ := List.mem_map.mp ht
      exact congrArg Bool.toNat (LatchWaiter.waits_wake (by decide) t)
  · rename_i hzero
    refine ⟨?_, ?_, h.length, fun hmem => ?_, fun hle => h.released ?_, hseen⟩
    · simp only
      omega
    · simp only
      omega
    · have hle := h.passed hmem
      simp only
      omega
    · -- the count was not one, so it was used up already
      simp only at hle
      omega

theorem inv_step (h : Inv count n s) {a : Action} (hlegal : s.Legal a) :
    ∃ s', s.step a = .ok s' ∧ Inv count n s' := by
  cases a with
  | call i =>
      obtain ⟨t, ht, -⟩ := exists_of_isAt hlegal
      exact ⟨_, rfl, inv_goto h ht (fun _ => rfl) (fun heq => by cases heq)⟩
  | wait i =>
      obtain ⟨t, ht, -⟩ := exists_of_isAt hlegal
      exact ⟨_, rfl, inv_wait h ht⟩
  | wakeUp i =>
      obtain ⟨t, ht, hwaits⟩ := exists_of_isAt hlegal
      refine ⟨_, rfl, ?_⟩
      rw [wake, ht]
      refine inv_goto h ht (fun _ => LatchWaiter.waits_wake (by decide) t) fun heq => ?_
      cases t with
      | waiting stage => cases stage <;> cases heq
      | _ => cases hwaits
  | countDown =>
      obtain ⟨s', hs', h'⟩ := inv_countDown h hlegal
      exact ⟨s', by rw [step, hs'], h'⟩
  | getCount =>
      have hcount := h.counted
      refine ⟨_, rfl, h.counted, h.top, h.length, h.passed, h.released, fun c hc => ?_⟩
      rcases List.mem_cons.mp hc with rfl | hc
      · simp only [getCount]
        omega
      · exact h.seen c hc

end Steps

/-! ## Whole runs -/

/-- For every initial count, however the threads are scheduled: as long as `countDown` has
been called fewer times than the count says, no thread has got through `wait`; and as soon
as it has been called so often, no thread is asleep, and each one inside `wait` gets through
with its next step.  What `getCount` returned lies between the initial and the present
count. -/
theorem passes_exactly_when_counted_down (count : Int) (n : Nat) (actions : List Action)
    (hcount : count ≤ 2147483647) (hlegal : machine.LegalRun (new count n) actions) :
    ∃ s, machine.run (new count n) actions = .ok s ∧ s.threads.length = n ∧
      ((s.downs : Int) < count → .passed ∉ s.threads) ∧
      (count ≤ s.downs → ∀ i stage, s.threads[i]? = some (.waiting stage) →
        stage ≠ .blocked ∧ s.Legal (.wait i) ∧ (s.wait i).threads[i]? = some .passed) ∧
      ∀ c ∈ s.seen, count - s.downs ≤ c ∧ c ≤ count := by
  obtain ⟨s, hrun, h⟩ := Machine.run_invariant (Inv count n) (fun _ _ h hop => inv_step h hop)
    (inv_new hcount n) hlegal
  have hdowns := h.counted
  refine ⟨s, hrun, h.length, fun hlt hmem => ?_, fun hle i stage ht => ?_, fun c hc => ?_⟩
  · have hzero := h.passed hmem
    omega
  · have hzero : s.count_ ≤ 0 := by omega
    have hawake := (Threads.total_eq_zero_iff _).mp (h.released hzero) _ (List.mem_of_getElem? ht)
    have hstage : stage ≠ .blocked := by
      rintro rfl
      exact absurd hawake (by decide)
    have hi : i < s.threads.length := (List.getElem?_eq_some_iff.mp ht).1
    refine ⟨hstage, by simp [Legal, isAt, ht, LatchWaiter.ready, hstage], ?_⟩
    rw [wait, if_neg (by omega)]
    exact List.getElem?_set_self hi
  · rw [← hdowns]
    exact h.seen c hc

/-- Two threads wait for two others; the first one wakes up too early. -/
def twoAndTwo : List Action :=
  [.call 0, .wait 0, .countDown, .getCount, .wakeUp 0, .wait 0, .call 1, .countDown, .wait 1,
    .countDown, .wait 0]

theorem passes_twoAndTwo :
    machine.LegalRun (new 2 2) twoAndTwo ∧
      ∃ s, machine.run (new 2 2) twoAndTwo = .ok s ∧ s.threads.length = 2 ∧
        ((s.downs : Int) < 2 → .passed ∉ s.threads) ∧
        (2 ≤ s.downs → ∀ i stage, s.threads[i]? = some (.waiting stage) →
          stage ≠ .blocked ∧ s.Legal (.wait i) ∧ (s.wait i).threads[i]? = some .passed) ∧
        ∀ c ∈ s.seen, 2 - (s.downs : Int) ≤ c ∧ c ≤ 2 := by
  have hlegal : machine.LegalRun (new 2 2) twoAndTwo := by decide +kernel
  obtain ⟨s, hrun, hlength, hnobody, hall, hseen⟩ :=
    passes_exactly_when_counted_down 2 2 twoAndTwo (by decide) hlegal
  exact ⟨hlegal, s, hrun, hlength, hnobody, fun hle => hall (by omega), hseen⟩

end CountDownLatch

end Muduo.Base
