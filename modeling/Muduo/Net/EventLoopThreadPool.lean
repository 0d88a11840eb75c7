/-
  Net/EventLoopThreadPool.lean --- `EventLoopThreadPool`
  (src/muduo/net/EventLoopThreadPool.h, EventLoopThreadPool.cc).

  The loops are numbered: `baseLoop_` is number 0, and those of the threads are 1, 2 and so
  on, in the order in which `start` makes them.  `startLoop` comes back when the thread has
  called the callback, so the callbacks are called in that order too.

  `getNextLoop` deals the loops out in turn: after any number of calls, how often each loop
  was chosen is known exactly (`loads_are_even`).
-/
import Mathlib.Data.Int.CardIntervalMod
import Muduo.Foundation.Exec

set_option autoImplicit false

namespace Muduo.Net

open Muduo.Foundation

/-- `class EventLoopThreadPool`; `initialised` are the loops for which the callback was
called. -/
structure EventLoopThreadPool where
  started_ : Bool
  numThreads_ : Nat
  next_ : Nat
  loops_ : List Nat
  initialised : List Nat
  deriving DecidableEq, Repr

namespace EventLoopThreadPool

/-- `baseLoop_`. -/
def baseLoop_ : Nat := 0

/-- `EventLoopThreadPool(baseLoop)` and `setThreadNum(numThreads)`. -/
def new (numThreads : Nat) : EventLoopThreadPool := ⟨false, numThreads, 0, [], []⟩

/-- `startLoop` of the next thread, in which the callback is called if there is one. -/
def startLoop (cb : Bool) (s : EventLoopThreadPool) : EventLoopThreadPool :=
  let loop := s.loops_.length + 1
  { s with
    loops_ := s.loops_ ++ [loop]
    initialised := if cb then s.initialised ++ [loop] else s.initialised }

/-- `start(cb)`. -/
def start (s : EventLoopThreadPool) (cb : Bool) : Exec EventLoopThreadPool := do
  assertThat (¬ s.started_)
  let s := (startLoop cb)^[s.numThreads_] { s with started_ := true }
  .ok (if s.numThreads_ = 0 ∧ cb then { s with initialised := s.initialised ++ [baseLoop_] } else s)

/-- `getNextLoop()`. -/
def getNextLoop (s : EventLoopThreadPool) : Exec (Nat × EventLoopThreadPool) :=
  if s.loops_.isEmpty then .ok (baseLoop_, s)
  else do
    let loop ← readAt s.loops_ s.next_
    let next_ := s.next_ + 1
    .ok (loop, { s with next_ := if s.loops_.length ≤ next_ then 0 else next_ })

/-- So many calls of `getNextLoop`. -/
def nextLoops (s : EventLoopThreadPool) : Nat → Exec (List Nat × EventLoopThreadPool)
  | 0 => .ok ([], s)
  | m + 1 => do
      let (loops, s) ← s.nextLoops m
      let (loop, s) ← s.getNextLoop
      .ok (loops ++ [loop], s)

/-! ## In turn -/

/-- The loop of the call with the given number, counted from zero. -/
def turn (numThreads m : Nat) : Nat := if numThreads = 0 then baseLoop_ else m % numThreads + 1

/-- The pool was started with so many threads, and `getNextLoop` was called so often. -/
structure Serving (numThreads m : Nat) (s : EventLoopThreadPool) : Prop where
  loops : s.loops_ = (List.range numThreads).map (· + 1)
  next : numThreads ≠ 0 → s.next_ = m % numThreads

section Calls

variable {numThreads m : Nat} {s : EventLoopThreadPool}

/-- There is one loop for each thread, and `baseLoop_` is none of them. -/
theorem Serving.loops_distinct (h : Serving numThreads m s) :
    s.loops_.length = numThreads ∧ s.loops_.Nodup ∧ baseLoop_ ∉ s.loops_ := by
  rw [h.loops]
  refine ⟨by rw [List.length_map, List.length_range], ?_, ?_⟩
  · exact List.nodup_range.map fun _ _ heq => Nat.succ.inj heq
  · intro hmem
    obtain ⟨k, -, hk⟩ := List.mem_map.mp hmem
    exact Nat.succ_ne_zero k hk

/-- The threads are started one after the other. -/
theorem iterate_startLoop (cb : Bool) (s : EventLoopThreadPool) (hloops : s.loops_ = [])
    (hinitialised : s.initialised = []) (n : Nat) :
    (startLoop cb)^[n] s =
      { s with
        loops_ := (List.range n).map (· + 1)
        initialised := if cb then (List.range n).map (· + 1) else [] } := by
  induction n with
  | zero =>
      obtain ⟨started_, numThreads_, next_, loops_, initialised⟩ := s
      obtain rfl : loops_ = [] := hloops
      obtain rfl : initialised = [] := hinitialised
      cases cb <;> rfl
  | succ n ih =>
      rw [Function.iterate_succ_apply', ih]
      cases cb <;> simp [startLoop, List.range_succ]

theorem start_new (numThreads : Nat) (cb : Bool) :
    ∃ s, (new numThreads).start cb = .ok s ∧ Serving numThreads 0 s ∧
      s.initialised = if cb then (if numThreads = 0 then [baseLoop_] else s.loops_) else [] := by
  have hstart : (new numThreads).start cb =
      .ok (let s := (startLoop cb)^[numThreads] { new numThreads with started_ := true }
        if s.numThreads_ = 0 ∧ cb then { s with initialised := s.initialised ++ [baseLoop_] }
        else s) := rfl
  rw [hstart, iterate_startLoop cb { new numThreads with started_ := true } rfl rfl numThreads]
  by_cases hzero : numThreads = 0
  · subst hzero
    cases cb
    · exact ⟨_, rfl, ⟨rfl, fun h => absurd rfl h⟩, rfl⟩
    · exact ⟨_, rfl, ⟨rfl, fun h => absurd rfl h⟩, rfl⟩
  · have hthreads : ¬ ((new numThreads).numThreads_ = 0 ∧ cb = true) := fun h => hzero h.1
    refine ⟨_, congrArg Except.ok (if_neg hthreads), ⟨rfl, fun _ => (Nat.zero_mod _).symm⟩, ?_⟩
    rw [if_neg hzero]

/-- `next_` goes round. -/
theorem succ_mod_eq {n : Nat} (hpos : 0 < n) (m : Nat) :
    (m + 1) % n = if n ≤ m % n + 1 then 0 else m % n + 1 := by
  have hlt := Nat.mod_lt m hpos
  rw [Nat.add_mod]
  split
  · rename_i hle
    have heq : m % n + 1 = n := by omega
    by_cases hone : n = 1
    · rw [hone, Nat.mod_one]
    · rw [Nat.mod_eq_of_lt (show 1 < n by omega), heq, Nat.mod_self]
  · rw [Nat.mod_eq_of_lt (show 1 < n by omega), Nat.mod_eq_of_lt (by omega)]

/-- One call takes the loop whose turn it is. -/
theorem getNextLoop_of_serving (h : Serving numThreads m s) :
    ∃ s', s.getNextLoop = .ok (turn numThreads m, s') ∧ Serving numThreads (m + 1) s' ∧
      s'.loops_ = s.loops_ ∧ s'.initialised = s.initialised := by
  by_cases hzero : numThreads = 0
  · subst hzero
    refine ⟨s, ?_, ⟨h.loops, fun hne => absurd rfl hne⟩, rfl, rfl⟩
    rw [getNextLoop, if_pos (by simp [h.loops]), turn, if_pos rfl]
  · have hnext := h.next hzero
    have hlt : m % numThreads < numThreads := Nat.mod_lt _ (Nat.pos_of_ne_zero hzero)
    have hlength : s.loops_.length = numThreads := by simp [h.loops]
    have hread : readAt s.loops_ s.next_ = .ok (m % numThreads + 1) := by
      refine readAt_eq_ok_iff.mpr ⟨Int.natCast_nonneg _, ?_⟩
      rw [Int.toNat_natCast, hnext, h.loops, List.getElem?_map, List.getElem?_range hlt]
      rfl
    have hempty : ¬ s.loops_.isEmpty = true := by
      rw [List.isEmpty_iff, ← List.length_eq_zero_iff, hlength]
      exact hzero
    refine ⟨{ s with next_ := if s.loops_.length ≤ s.next_ + 1 then 0 else s.next_ + 1 }, ?_,
      ⟨h.loops, fun _ => ?_⟩, rfl, rfl⟩
    · rw [getNextLoop, if_neg hempty, hread, ok_bind, turn, if_neg hzero]
    · simp only [hlength, hnext]
      exact (succ_mod_eq (Nat.pos_of_ne_zero hzero) m).symm

theorem nextLoops_of_serving (h : Serving numThreads 0 s) (m : Nat) :
    ∃ s', s.nextLoops m = .ok ((List.range m).map (turn numThreads), s') ∧
      Serving numThreads m s' ∧ s'.loops_ = s.loops_ ∧ s'.initialised = s.initialised := by
  induction m with
  | zero => exact ⟨s, rfl, h, rfl, rfl⟩
  | succ m ih =>
      obtain ⟨s₁, hcalls, h₁, hloops, hinitialised⟩ := ih
      obtain ⟨s₂, hcall, h₂, hloops', hinitialised'⟩ := getNextLoop_of_serving h₁
      refine ⟨s₂, ?_, h₂, hloops'.trans hloops, hinitialised'.trans hinitialised⟩
      rw [nextLoops, hcalls, ok_bind]
      simp only [hcall, ok_bind, List.range_succ, List.map_append, List.map_cons, List.map_nil]

/-- How often a loop has its turn. -/
theorem count_turn (hpos : 0 < numThreads) (m : Nat) {k : Nat} (hk : k < numThreads) :
    ((List.range m).map (turn numThreads)).count (k + 1) =
      m / numThreads + if k < m % numThreads then 1 else 0 := by
  have hcount := Nat.count_modEq_card m hpos k
  rw [Nat.mod_eq_of_lt hk] at hcount
  rw [← hcount, Nat.count, List.count, List.countP_map]
  refine List.countP_congr fun i _ => ?_
  simp only [Function.comp_apply, turn, if_neg (Nat.ne_of_gt hpos), beq_iff_eq,
    Nat.add_right_cancel_iff,
    decide_eq_true_eq, Nat.ModEq, Nat.mod_eq_of_lt hk]

end Calls

/-- For every number of threads, with or without a callback, and for every number of calls of
`getNextLoop`: each thread has a loop of its own, different from `baseLoop_`; the callback was
called exactly once for each loop that connections can get; the calls return the loops in turn,
and only those; and after `m` calls on `n` threads the first `m % n` loops were chosen `m / n +
1` times and the others `m / n` times. -/
theorem loads_are_even (numThreads m : Nat) (cb : Bool) :
    ∃ s₀ s, (new numThreads).start cb = .ok s₀ ∧
      s₀.nextLoops m = .ok ((List.range m).map (turn numThreads), s) ∧
      (s.loops_.length = numThreads ∧ s.loops_.Nodup ∧ baseLoop_ ∉ s.loops_) ∧
      s.initialised = (if cb then (if numThreads = 0 then [baseLoop_] else s.loops_) else []) ∧
      (∀ loop ∈ (List.range m).map (turn numThreads),
        loop ∈ if numThreads = 0 then [baseLoop_] else s.loops_) ∧
      ∀ k, k < numThreads → ((List.range m).map (turn numThreads)).count (k + 1) =
        m / numThreads + if k < m % numThreads then 1 else 0 := by
  obtain ⟨s₀, hstart, hserving, hinitialised⟩ := start_new numThreads cb
  obtain ⟨s, hcalls, h, hloops, hsame⟩ := nextLoops_of_serving hserving m
  refine ⟨s₀, s, hstart, hcalls, h.loops_distinct, ?_, fun loop hloop => ?_, fun k hk => ?_⟩
  · rw [hsame, hinitialised, hloops]
  · obtain ⟨i, -, rfl⟩ := List.mem_map.mp hloop
    unfold turn
    split
    · exact List.mem_singleton.mpr rfl
    · rename_i hzero
      rw [h.loops]
      exact List.mem_map.mpr
        ⟨_, List.mem_range.mpr (Nat.mod_lt i (Nat.pos_of_ne_zero hzero)), rfl⟩
  · exact count_turn (Nat.lt_of_le_of_lt (Nat.zero_le k) hk) m hk

/-- Three threads, eight connections. -/
example : ((new 3).start true >>= fun s => s.nextLoops 8).map Prod.fst =
    .ok [1, 2, 3, 1, 2, 3, 1, 2] := by decide

end EventLoopThreadPool

end Muduo.Net
