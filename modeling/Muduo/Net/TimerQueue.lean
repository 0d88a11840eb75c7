/-
  Net/TimerQueue.lean --- `TimerQueue`, `Timer` and `TimerId`
  (src/muduo/net/TimerQueue.cc, Timer.h, Timer.cc, TimerId.h).

  A `Timer*` is an address; `heap` holds the `Timer` objects that are alive.  A timer
  that is scheduled stands in two sets, `timers_` in the order of expirations and
  `activeTimers_` in the order of addresses.  `Indexes q m` says that both list
  the timers of one partial map `m` from addresses to timers, and each operation
  has one lemma that says what it does to that map.

  `handleRead` calls back into user code, which may call `addTimer` and `cancel`, so
  it is cut into three: up to the first callback (`beginRead`), the callbacks, and
  `reset`.  In `cancelInLoop` the source reads `it->first` once more after
  `erase(it)`; here the address is the one that was found.  Net/TimerDeletion.lean models
  the read, and says where the two agree.
-/
import Mathlib.Order.Lattice
import Mathlib.Data.Prod.Lex
import Mathlib.Logic.Function.Basic
import Muduo.Base.Timestamp
import Muduo.Foundation.Exec
import Muduo.Foundation.SortedSet

set_option autoImplicit false

namespace Muduo.Net

open Muduo.Foundation Muduo.Base

/-! ## Timers -/

/-- `class Timer`, without its callback.  Of `interval_` only the sign, which is
`repeat_`, and the whole microseconds are ever used. -/
structure Timer where
  expiration_ : Timestamp
  interval_ : Nat
  repeat_ : Bool
  sequence_ : Int
  deriving DecidableEq, Repr

/-- `restart(now)`. -/
def Timer.restart (t : Timer) (now : Timestamp) : Timer :=
  if t.repeat_ then { t with expiration_ := now.addTime t.interval_ }
  else { t with expiration_ := .new }

/-- `class TimerId`, and also `ActiveTimer`: an address and a sequence number. -/
structure TimerId where
  timer_ : Nat
  sequence_ : Int
  deriving DecidableEq, Repr

theorem TimerId.toLex_injective :
    Function.Injective fun i : TimerId => toLex (i.timer_, i.sequence_) := by
  rintro ⟨a, b⟩ ⟨c, d⟩ h
  cases h
  rfl

instance : LinearOrder TimerId := LinearOrder.lift' _ TimerId.toLex_injective

/-- `std::pair<Timestamp, Timer *>`. -/
structure Entry where
  expiration : Timestamp
  timer : Nat
  deriving DecidableEq, Repr

theorem Entry.toLex_injective :
    Function.Injective fun e : Entry => toLex (e.expiration, e.timer) := by
  rintro ⟨a, b⟩ ⟨c, d⟩ h
  cases h
  rfl

instance : LinearOrder Entry := LinearOrder.lift' _ Entry.toLex_injective

theorem Entry.lt_iff {e f : Entry} :
    e < f ↔ e.expiration < f.expiration ∨ e.expiration = f.expiration ∧ e.timer < f.timer :=
  Prod.Lex.lt_iff

theorem Entry.expiration_le {e f : Entry} (h : e ≤ f) : e.expiration ≤ f.expiration := by
  rcases lt_or_eq_of_le h with hlt | rfl
  · rcases Entry.lt_iff.mp hlt with h | ⟨h, _⟩
    · exact le_of_lt h
    · exact le_of_eq h
  · exact le_rfl

/-- The largest address. -/
def UINTPTR_MAX : Nat := 2 ^ 64 - 1

/-! ## The timerfd -/

/-- `struct timespec`. -/
structure Timespec where
  tv_sec : Int
  tv_nsec : Int
  deriving DecidableEq, Repr

/-- A timerfd: when it fires, and when it was last set.  There is no deadline while
it is disarmed, or once it has fired and was read. -/
structure Timerfd where
  deadline : Option Int
  armedAt : Int
  deriving DecidableEq, Repr

/-- `timerfd_settime` with a relative time, at the time `now`. -/
def Timerfd.settime (now : Timestamp) (value : Timespec) : Timerfd where
  deadline := some (now.microSecondsSinceEpoch_ + value.tv_sec * 1000000 + value.tv_nsec / 1000)
  armedAt := now.microSecondsSinceEpoch_

/-- `howMuchTimeFromNow(when)` at the time `now`. -/
def howMuchTimeFromNow (when now : Timestamp) : Timespec :=
  let microseconds := int64 (when.microSecondsSinceEpoch_ - now.microSecondsSinceEpoch_)
  let microseconds := if microseconds < 100 then 100 else microseconds
  ⟨microseconds / Timestamp.kMicroSecondsPerSecond,
    microseconds % Timestamp.kMicroSecondsPerSecond * 1000⟩

/-! ## `class TimerQueue` -/

/-- `class TimerQueue`, with the objects and the timerfd. -/
structure TimerQueue where
  /-- the `Timer` objects that are alive -/
  heap : Nat → Option Timer
  timers_ : SortedSet Entry
  activeTimers_ : SortedSet TimerId
  callingExpiredTimers_ : Bool
  cancelingTimers_ : SortedSet TimerId
  timerfd : Timerfd

namespace TimerQueue

/-- `TimerQueue(loop)`. -/
def new : TimerQueue where
  heap := fun _ => none
  timers_ := .empty
  activeTimers_ := .empty
  callingExpiredTimers_ := false
  cancelingTimers_ := .empty
  timerfd := ⟨none, 0⟩

/-- Access to a `Timer` through a pointer. -/
def deref (q : TimerQueue) (timer : Nat) : Exec Timer :=
  match q.heap timer with
  | some t => .ok t
  | none => .error .outOfBounds

/-- Change or delete the object at an address. -/
def store (q : TimerQueue) (timer : Nat) (t : Option Timer) : TimerQueue :=
  { q with heap := Function.update q.heap timer t }

/-- The assertion that the two sets have the same size. -/
def assertSameSize (q : TimerQueue) : Exec Unit :=
  assertThat (q.timers_.size = q.activeTimers_.size)

/-- `detail::resetTimerfd(timerfd, expiration)`. -/
def resetTimerfd (q : TimerQueue) (expiration now : Timestamp) : TimerQueue :=
  { q with timerfd := .settime now (howMuchTimeFromNow expiration now) }

/-- `readTimerfd`; `fired` tells whether the deadline has passed when the descriptor
is read.  Otherwise the read fails, and the timerfd stays armed. -/
def readTimerfd (q : TimerQueue) (fired : Bool) : TimerQueue :=
  if fired then { q with timerfd := { q.timerfd with deadline := none } } else q

/-- A timer that expires then becomes the earliest. -/
def earliestChanged (q : TimerQueue) (when : Timestamp) : Bool :=
  match q.timers_.first with
  | none => true
  | some it => decide (when < it.expiration)

/-- `insert(timer)`. -/
def insert (q : TimerQueue) (timer : Nat) : Exec (Bool × TimerQueue) := do
  q.assertSameSize
  let t ← q.deref timer
  let earliestChanged := q.earliestChanged t.expiration_
  let (timers, inserted) := q.timers_.insert ⟨t.expiration_, timer⟩
  assertThat (inserted = true)
  let (activeTimers, inserted) := q.activeTimers_.insert ⟨timer, t.sequence_⟩
  assertThat (inserted = true)
  let q := { q with timers_ := timers, activeTimers_ := activeTimers }
  q.assertSameSize
  .ok (earliestChanged, q)

/-- `addTimerInLoop(timer)`; `now` is the time at which the timerfd is set. -/
def addTimerInLoop (q : TimerQueue) (timer : Nat) (now : Timestamp) : Exec TimerQueue := do
  let (earliestChanged, q) ← q.insert timer
  if earliestChanged then
    let t ← q.deref timer
    .ok (q.resetTimerfd t.expiration_ now)
  else .ok q

/-- `cancelInLoop(timerId)`. -/
def cancelInLoop (q : TimerQueue) (timerId : TimerId) : Exec TimerQueue := do
  q.assertSameSize
  let q ←
    if timerId ∈ q.activeTimers_ then do
      let t ← q.deref timerId.timer_
      let (timers, n) := q.timers_.erase ⟨t.expiration_, timerId.timer_⟩
      assertThat (n = 1)
      let q := { q with timers_ := timers, activeTimers_ := (q.activeTimers_.erase timerId).1 }
      .ok (q.store timerId.timer_ none)
    else if q.callingExpiredTimers_ then
      .ok { q with cancelingTimers_ := (q.cancelingTimers_.insert timerId).1 }
    else .ok q
  q.assertSameSize
  .ok q

/-- The loop of `getExpired` over the expired timers. -/
def eraseActive (q : TimerQueue) : List Entry → Exec TimerQueue
  | [] => .ok q
  | it :: expired => do
      let t ← q.deref it.timer
      let (activeTimers, n) := q.activeTimers_.erase ⟨it.timer, t.sequence_⟩
      assertThat (n = 1)
      eraseActive { q with activeTimers_ := activeTimers } expired

/-- `getExpired(now)`. -/
def getExpired (q : TimerQueue) (now : Timestamp) : Exec (List Entry × TimerQueue) := do
  q.assertSameSize
  let sentry : Entry := ⟨now, UINTPTR_MAX⟩
  let rest := q.timers_.notBelow sentry
  assertThat (rest.first.all fun e => decide (now < e.expiration))
  let expired := (q.timers_.below sentry).elems
  let q ← eraseActive { q with timers_ := rest } expired
  q.assertSameSize
  .ok (expired, q)

/-- `handleRead` up to its loop: the expired timers are out of both sets, and
their callbacks are about to run. -/
def beginRead (q : TimerQueue) (now : Timestamp) (fired : Bool) :
    Exec (List Entry × TimerQueue) := do
  let (expired, q) ← (q.readTimerfd fired).getExpired now
  .ok (expired, { q with callingExpiredTimers_ := true, cancelingTimers_ := .empty })

/-- One round of the loop of `reset`: restart the timer, or delete it. -/
def resetEntry (now : Timestamp) (q : TimerQueue) (it : Entry) : Exec TimerQueue := do
  let t ← q.deref it.timer
  if t.repeat_ = true ∧ (⟨it.timer, t.sequence_⟩ : TimerId) ∉ q.cancelingTimers_ then
    let (_, q) ← (q.store it.timer (some (t.restart now))).insert it.timer
    .ok q
  else .ok (q.store it.timer none)

/-- The end of `reset`: set the timerfd for the earliest timer, at the time `clock`. -/
def rearm (q : TimerQueue) (clock : Timestamp) : Exec TimerQueue := do
  let nextExpire ←
    match q.timers_.first with
    | none => .ok Timestamp.new
    | some it => do
        let t ← q.deref it.timer
        .ok t.expiration_
  if nextExpire.valid then .ok (q.resetTimerfd nextExpire clock) else .ok q

/-- `reset(expired, now)`. -/
def reset (q : TimerQueue) (expired : List Entry) (now clock : Timestamp) : Exec TimerQueue := do
  let q ← expired.foldlM (resetEntry now) q
  q.rearm clock

/-- `handleRead` behind its loop. -/
def finishRead (q : TimerQueue) (expired : List Entry) (now clock : Timestamp) : Exec TimerQueue :=
  { q with callingExpiredTimers_ := false }.reset expired now clock

/-! ## The scheduled timers -/

/-- How a timer stands in `timers_`. -/
def entryOf (a : Nat) (t : Timer) : Entry := ⟨t.expiration_, a⟩

/-- How a timer stands in `activeTimers_`. -/
def idOf (a : Nat) (t : Timer) : TimerId := ⟨a, t.sequence_⟩

theorem keyed_entryOf : SortedSet.Keyed entryOf Entry.timer := fun _ _ => rfl

theorem keyed_idOf : SortedSet.Keyed idOf TimerId.timer_ := fun _ _ => rfl

/-- Both sets list the timers of the map `m`, which are alive. -/
structure Indexes (q : TimerQueue) (m : Nat → Option Timer) : Prop where
  timers : q.timers_.Index entryOf m
  active : q.activeTimers_.Index idOf m
  live : ∀ a t, m a = some t → q.heap a = some t

theorem deref_of {q : TimerQueue} {a : Nat} {t : Timer} (h : q.heap a = some t) :
    q.deref a = .ok t := by
  simp [deref, h]

@[simp] theorem store_heap_self (q : TimerQueue) (a : Nat) (t : Option Timer) :
    (q.store a t).heap a = t := Function.update_self _ _ _

theorem store_heap_of_ne (q : TimerQueue) {a b : Nat} (h : b ≠ a) (t : Option Timer) :
    (q.store a t).heap b = q.heap b := Function.update_of_ne h _ _

/-- After a deletion only the other objects are alive. -/
theorem store_none_heap {q : TimerQueue} {a b : Nat} {t : Timer} :
    (q.store a none).heap b = some t ↔ b ≠ a ∧ q.heap b = some t :=
  SortedSet.update_none_eq_some

/-- An object that is alive after an allocation is the new one, or was alive before. -/
theorem of_store_some {q : TimerQueue} {a b : Nat} {t u : Timer}
    (h : (q.store a (some t)).heap b = some u) : b = a ∧ u = t ∨ b ≠ a ∧ q.heap b = some u := by
  by_cases hba : b = a
  · subst hba
    rw [store_heap_self] at h
    exact .inl ⟨rfl, (Option.some.inj h).symm⟩
  · rw [store_heap_of_ne q hba] at h
    exact .inr ⟨hba, h⟩

/-- The queue with one more timer in both sets. -/
def schedule (q : TimerQueue) (a : Nat) (t : Timer) : TimerQueue :=
  { q with
    timers_ := (q.timers_.insert (entryOf a t)).1
    activeTimers_ := (q.activeTimers_.insert (idOf a t)).1 }

/-- The queue with one timer less in both sets. -/
def unschedule (q : TimerQueue) (a : Nat) (t : Timer) : TimerQueue :=
  { q with
    timers_ := (q.timers_.erase (entryOf a t)).1
    activeTimers_ := (q.activeTimers_.erase (idOf a t)).1 }

section Operations

variable {q : TimerQueue} {m : Nat → Option Timer} {a : Nat} {t : Timer}

theorem Indexes.assertSameSize (h : Indexes q m) : q.assertSameSize = .ok () :=
  assertThat_of (h.timers.size_eq h.active keyed_entryOf keyed_idOf)

theorem indexes_new : Indexes new fun _ => none :=
  ⟨SortedSet.index_empty _, SortedSet.index_empty _, fun _ _ h => absurd h (by simp)⟩

/-- Objects that are not scheduled may be changed and deleted. -/
theorem Indexes.store (h : Indexes q m) (ha : m a = none) (t : Option Timer) :
    Indexes (q.store a t) m := by
  refine ⟨h.timers, h.active, ?_⟩
  intro b u hb
  have hne : b ≠ a := by
    rintro rfl
    exact absurd (ha.symm.trans hb) (by simp)
  rw [store_heap_of_ne q hne]
  exact h.live b u hb

theorem Indexes.schedule (h : Indexes q m) (ha : m a = none) (ht : q.heap a = some t) :
    Indexes (q.schedule a t) (Function.update m a (some t)) := by
  refine ⟨h.timers.insert ha t, h.active.insert ha t, ?_⟩
  intro b u hb
  by_cases hne : b = a
  · subst hne
    rw [Function.update_self] at hb
    exact ht.trans hb
  · rw [Function.update_of_ne hne] at hb
    exact h.live b u hb

theorem Indexes.unschedule (h : Indexes q m) (ha : m a = some t) :
    Indexes (q.unschedule a t) (Function.update m a none) := by
  refine ⟨h.timers.erase keyed_entryOf ha, h.active.erase keyed_idOf ha, ?_⟩
  intro b u hb
  exact h.live b u (SortedSet.update_none_eq_some.mp hb).2

/-- `insert` of a timer that is alive and not scheduled. -/
theorem insert_eq (h : Indexes q m) (ha : m a = none) (ht : q.heap a = some t) :
    q.insert a = .ok (q.earliestChanged t.expiration_, q.schedule a t) := by
  have htimers : (q.timers_.insert ⟨t.expiration_, a⟩).2 = true :=
    SortedSet.insert_snd (h.timers.not_mem keyed_entryOf ha t)
  have hactive : (q.activeTimers_.insert ⟨a, t.sequence_⟩).2 = true :=
    SortedSet.insert_snd (h.active.not_mem keyed_idOf ha t)
  have hsize := (h.schedule ha ht).assertSameSize
  unfold TimerQueue.insert
  simp only [h.assertSameSize, deref_of ht, ok_bind, htimers, hactive, assertThat_of]
  unfold TimerQueue.schedule entryOf idOf at hsize ⊢
  rw [hsize]
  rfl

/-- `cancelInLoop` of a scheduled timer: it is removed from both sets and deleted. -/
theorem cancelInLoop_of_scheduled (h : Indexes q m) (ha : m a = some t) :
    q.cancelInLoop (idOf a t) = .ok ((q.unschedule a t).store a none) := by
  have hmem : idOf a t ∈ q.activeTimers_ := h.active.mem ha
  have hderef : q.deref (idOf a t).timer_ = .ok t := deref_of (h.live a t ha)
  have herase : (q.timers_.erase ⟨t.expiration_, (idOf a t).timer_⟩).2 = 1 :=
    SortedSet.erase_snd (h.timers.mem ha)
  have hsize := ((h.unschedule ha).store (Function.update_self _ _ _) none).assertSameSize
  unfold cancelInLoop
  simp only [h.assertSameSize, if_pos hmem, hderef, ok_bind, herase, assertThat_of]
  exact congrArg (· >>= fun _ => _) hsize

/-- `cancelingTimers_` after `cancelInLoop` of a timer that is not scheduled. -/
def noted (q : TimerQueue) (id : TimerId) : SortedSet TimerId :=
  if q.callingExpiredTimers_ then (q.cancelingTimers_.insert id).1 else q.cancelingTimers_

/-- `cancelInLoop` of anything else: at most the identifier is noted down. -/
theorem cancelInLoop_of_not_scheduled (h : Indexes q m) {id : TimerId}
    (hid : id ∉ q.activeTimers_) :
    q.cancelInLoop id = .ok { q with cancelingTimers_ := q.noted id } := by
  have hsize := h.assertSameSize
  unfold cancelInLoop noted
  simp only [hsize, if_neg hid, ok_bind]
  cases hcalling : q.callingExpiredTimers_ with
  | false => rw [if_neg (by simp), if_neg (by simp), ← hcalling]
  | true =>
      rw [if_pos rfl, if_pos rfl]
      exact congrArg (· >>= fun _ => _) hsize

/-! ## Expired timers -/

/-- The map without some addresses. -/
def without (m : Nat → Option Timer) (as : List Nat) : Nat → Option Timer :=
  fun a => if a ∈ as then none else m a

theorem without_of_mem {as : List Nat} (h : a ∈ as) : without m as a = none := if_pos h

theorem without_of_not_mem {as : List Nat} (h : a ∉ as) : without m as a = m a := if_neg h

@[simp] theorem without_nil : without m [] = m := by
  funext a
  simp [without]

theorem without_cons (as : List Nat) :
    without m (a :: as) = without (Function.update m a none) as := by
  funext b
  by_cases hb : b ∈ as
  · rw [without_of_mem (List.mem_cons_of_mem a hb), without_of_mem hb]
  · rw [without_of_not_mem hb]
    by_cases hba : b = a
    · subst hba
      rw [Function.update_self, without_of_mem List.mem_cons_self]
    · rw [Function.update_of_ne hba, without_of_not_mem (by simp [hba, hb])]

theorem without_eq_some {as : List Nat} :
    without m as a = some t ↔ a ∉ as ∧ m a = some t := by
  by_cases h : a ∈ as
  · simp [without_of_mem h, h]
  · simp [without_of_not_mem h, h]

/-- The loop of `getExpired` takes the expired timers out of `activeTimers_`. -/
theorem eraseActive_spec (expired : List Entry) (hactive : q.activeTimers_.Index idOf m)
    (hlive : ∀ a t, m a = some t → q.heap a = some t)
    (hmem : ∀ e ∈ expired, ∃ t, m e.timer = some t) (hnodup : (expired.map Entry.timer).Nodup) :
    ∃ active, q.eraseActive expired = .ok { q with activeTimers_ := active } ∧
      active.Index idOf (without m (expired.map Entry.timer)) := by
  induction expired generalizing q m with
  | nil => exact ⟨q.activeTimers_, rfl, by simpa using hactive⟩
  | cons e expired ih =>
      obtain ⟨t, ht⟩ := hmem e List.mem_cons_self
      obtain ⟨hnot, hnodup⟩ := List.nodup_cons.mp hnodup
      have hne : ∀ f ∈ expired, f.timer ≠ e.timer := by
        intro f hf heq
        exact hnot (heq ▸ List.mem_map_of_mem hf)
      have herase : (q.activeTimers_.erase ⟨e.timer, t.sequence_⟩).2 = 1 :=
        SortedSet.erase_snd (hactive.mem ht)
      obtain ⟨active, hrun, hindex⟩ :=
        @ih { q with activeTimers_ := (q.activeTimers_.erase (idOf e.timer t)).1 }
          (Function.update m e.timer none) (hactive.erase keyed_idOf ht)
          (fun b u hb => hlive b u (SortedSet.update_none_eq_some.mp hb).2)
          (by
            intro f hf
            rw [Function.update_of_ne (hne f hf)]
            exact hmem f (List.mem_cons_of_mem e hf))
          hnodup
      refine ⟨active, ?_, ?_⟩
      · unfold eraseActive
        simp only [deref_of (hlive _ _ ht), ok_bind, herase, assertThat_of]
        exact hrun
      · rw [List.map_cons, without_cons]
        exact hindex

/-- The sentry stands behind the timers that are due. -/
theorem lt_sentry_iff {now : Timestamp} {e : Entry} (h : e.timer < UINTPTR_MAX) :
    e < ⟨now, UINTPTR_MAX⟩ ↔ e.expiration ≤ now := by
  rw [Entry.lt_iff, le_iff_lt_or_eq]
  constructor
  · rintro (hlt | ⟨heq, _⟩)
    · exact .inl hlt
    · exact .inr heq
  · rintro (hlt | heq)
    · exact .inl hlt
    · exact .inr ⟨heq, h⟩

section Expired

variable {now : Timestamp}

/-- An entry stands before the sentry exactly if its timer is due. -/
theorem Indexes.lt_sentry_iff (h : Indexes q m) (haddr : ∀ a t, m a = some t → a < UINTPTR_MAX)
    {e : Entry} (he : e ∈ q.timers_) : e < ⟨now, UINTPTR_MAX⟩ ↔ e.expiration ≤ now := by
  obtain ⟨a, t, ha, rfl⟩ := (h.timers e).mp he
  exact TimerQueue.lt_sentry_iff (haddr a t ha)

/-- The timers before the sentry. -/
theorem Indexes.mem_expired_iff (h : Indexes q m) (haddr : ∀ a t, m a = some t → a < UINTPTR_MAX) :
    a ∈ (q.timers_.below ⟨now, UINTPTR_MAX⟩).elems.map Entry.timer ↔
      ∃ t, m a = some t ∧ t.expiration_ ≤ now := by
  rw [List.mem_map]
  constructor
  · rintro ⟨e, he, rfl⟩
    obtain ⟨hmem, hlt⟩ := SortedSet.mem_below.mp he
    have hle := (h.lt_sentry_iff haddr hmem).mp hlt
    obtain ⟨a, t, ha, rfl⟩ := (h.timers e).mp hmem
    exact ⟨t, ha, hle⟩
  · rintro ⟨t, ha, hle⟩
    have hmem : entryOf a t ∈ q.timers_ := h.timers.mem ha
    exact ⟨entryOf a t, SortedSet.mem_below.mpr ⟨hmem, (h.lt_sentry_iff haddr hmem).mpr hle⟩, rfl⟩

/-- What is left in `timers_` behind the sentry. -/
theorem Indexes.mem_rest_iff (h : Indexes q m) (haddr : ∀ a t, m a = some t → a < UINTPTR_MAX)
    {e : Entry} :
    e ∈ q.timers_.notBelow ⟨now, UINTPTR_MAX⟩ ↔ e ∈ q.timers_ ∧ now < e.expiration := by
  refine SortedSet.mem_notBelow.trans (and_congr_right fun he => ?_)
  rw [h.lt_sentry_iff haddr he, not_le]

/-- `timers_` behind the sentry lists the timers that are not due. -/
theorem Indexes.index_rest (h : Indexes q m) (haddr : ∀ a t, m a = some t → a < UINTPTR_MAX) :
    (q.timers_.notBelow ⟨now, UINTPTR_MAX⟩).Index entryOf
      (without m ((q.timers_.below ⟨now, UINTPTR_MAX⟩).elems.map Entry.timer)) := by
  intro e
  rw [h.mem_rest_iff haddr, h.timers e]
  constructor
  · rintro ⟨⟨a, t, ha, rfl⟩, hlt⟩
    refine ⟨a, t, without_eq_some.mpr ⟨?_, ha⟩, rfl⟩
    rw [h.mem_expired_iff haddr]
    rintro ⟨u, hu, hle⟩
    obtain rfl : t = u := Option.some.inj (ha.symm.trans hu)
    exact absurd hlt (not_lt.mpr hle)
  · rintro ⟨a, t, ha, rfl⟩
    obtain ⟨hnot, ha⟩ := without_eq_some.mp ha
    refine ⟨⟨a, t, ha, rfl⟩, ?_⟩
    by_contra hle
    exact hnot ((h.mem_expired_iff haddr).mpr ⟨t, ha, not_lt.mp hle⟩)

/-- `getExpired(now)` takes the timers that are due out of both sets. -/
theorem getExpired_spec (h : Indexes q m) (haddr : ∀ a t, m a = some t → a < UINTPTR_MAX)
    (now : Timestamp) :
    ∃ expired timers active,
      q.getExpired now = .ok (expired, { q with timers_ := timers, activeTimers_ := active }) ∧
      Indexes { q with timers_ := timers, activeTimers_ := active }
        (without m (expired.map Entry.timer)) ∧
      (expired.map Entry.timer).Nodup ∧
      ∀ a, a ∈ expired.map Entry.timer ↔ ∃ t, m a = some t ∧ t.expiration_ ≤ now := by
  set sentry : Entry := ⟨now, UINTPTR_MAX⟩ with hsentry
  have hnodup : ((q.timers_.below sentry).elems.map Entry.timer).Nodup :=
    (h.timers.map_key keyed_entryOf).1.sublist ((List.takeWhile_sublist _).map _)
  obtain ⟨active, hrun, hactive⟩ :=
    @eraseActive_spec { q with timers_ := q.timers_.notBelow sentry } m
      (q.timers_.below sentry).elems h.active h.live
      (fun e he => by
        obtain ⟨t, ht, _⟩ := (h.mem_expired_iff haddr).mp (List.mem_map_of_mem he)
        exact ⟨t, ht⟩)
      hnodup
  have hindexes : Indexes { q with timers_ := q.timers_.notBelow sentry, activeTimers_ := active }
      (without m ((q.timers_.below sentry).elems.map Entry.timer)) :=
    ⟨h.index_rest haddr, hactive, fun a t ha => h.live a t (without_eq_some.mp ha).2⟩
  have hassert : (q.timers_.notBelow sentry).first.all
    (fun e => decide (now < e.expiration)) = true := by
    rw [Option.all_eq_true]
    intro e he
    exact decide_eq_true ((h.mem_rest_iff haddr).mp (SortedSet.mem_of_first he)).2
  refine ⟨(q.timers_.below sentry).elems, q.timers_.notBelow sentry, active, ?_, hindexes, hnodup,
    fun a => h.mem_expired_iff haddr⟩
  unfold getExpired
  simp only [h.assertSameSize, ok_bind, ← hsentry, assertThat_of hassert, hrun,
    hindexes.assertSameSize]

end Expired

/-! ## `reset` -/

/-- What `reset` leaves of an expired timer. -/
def renewed (canceling : SortedSet TimerId) (now : Timestamp) (a : Nat) (t : Timer) :
    Option Timer :=
  if t.repeat_ = true ∧ idOf a t ∉ canceling then some (t.restart now) else none

/-- One round of the loop of `reset`: the timer is scheduled again or deleted. -/
theorem resetEntry_spec (h : Indexes q m) {e : Entry} (he : m e.timer = none)
    (ht : q.heap e.timer = some t) (now : Timestamp) :
    ∃ timers active,
      resetEntry now q e = .ok ({ q with timers_ := timers, activeTimers_ := active }.store e.timer
        (renewed q.cancelingTimers_ now e.timer t)) ∧
      Indexes ({ q with timers_ := timers, activeTimers_ := active }.store e.timer
          (renewed q.cancelingTimers_ now e.timer t))
        (Function.update m e.timer (renewed q.cancelingTimers_ now e.timer t)) := by
  have hid : (⟨e.timer, t.sequence_⟩ : TimerId) = idOf e.timer t := rfl
  unfold resetEntry renewed
  by_cases hrepeat : t.repeat_ = true ∧ idOf e.timer t ∉ q.cancelingTimers_
  · have hindexes := h.store he (some (t.restart now))
    have hheap := store_heap_self q e.timer (some (t.restart now))
    have hinsert := insert_eq hindexes he hheap
    refine ⟨(q.timers_.insert (entryOf e.timer (t.restart now))).1,
      (q.activeTimers_.insert (idOf e.timer (t.restart now))).1, ?_, ?_⟩
    · simp only [deref_of ht, ok_bind, hid, if_pos hrepeat, hinsert]
      rfl
    · rw [if_pos hrepeat]
      exact hindexes.schedule he hheap
  · refine ⟨q.timers_, q.activeTimers_, ?_, ?_⟩
    · simp only [deref_of ht, ok_bind, hid, if_neg hrepeat]
    · rw [if_neg hrepeat]
      have hsame : Function.update m e.timer none = m := by
        rw [← he, Function.update_eq_self]
      rw [hsame]
      exact h.store he none

theorem renewed_eq_some {canceling : SortedSet TimerId} {now : Timestamp} {t' : Timer} :
    renewed canceling now a t = some t' ↔
      (t.repeat_ = true ∧ idOf a t ∉ canceling) ∧ t.restart now = t' := by
  unfold renewed
  split
  · rename_i hkept
    rw [Option.some_inj]
    exact (and_iff_right hkept).symm
  · rename_i hgone
    exact ⟨fun h => absurd h (by simp), fun h => absurd h.1 hgone⟩

theorem restart_sequence (t : Timer) (now : Timestamp) :
    (t.restart now).sequence_ = t.sequence_ := by
  unfold Timer.restart
  split <;> rfl

/-- What `reset` does to the objects and to the scheduled timers `m`: the timers at the
addresses of the batch are scheduled again or deleted, the others stay as they are. -/
structure Resets (canceling : SortedSet TimerId) (now : Timestamp) (batch : List Nat)
    (heap m heap' m' : Nat → Option Timer) : Prop where
  other : ∀ a ∉ batch, heap' a = heap a ∧ m' a = m a
  batch : ∀ a ∈ batch, ∃ t, heap a = some t ∧
    heap' a = renewed canceling now a t ∧ m' a = renewed canceling now a t

namespace Resets

variable {canceling : SortedSet TimerId} {now : Timestamp} {batch : List Nat}
  {heap m heap' m' : Nat → Option Timer} {t' : Timer}

theorem of_live (h : Resets canceling now batch heap m heap' m') (ha : a ∈ batch)
    (ht : heap a = some t) :
    heap' a = renewed canceling now a t ∧ m' a = renewed canceling now a t := by
  obtain ⟨u, hu, hrenewed⟩ := h.batch a ha
  obtain rfl : t = u := Option.some.inj (ht.symm.trans hu)
  exact hrenewed

/-- A timer that is alive behind `reset` was not in the batch, or was restarted. -/
theorem survivor (h : Resets canceling now batch heap m heap' m') (ht' : heap' a = some t') :
    (a ∉ batch ∧ heap a = some t') ∨
      (a ∈ batch ∧ ∃ t, heap a = some t ∧ t.repeat_ = true ∧ idOf a t ∉ canceling ∧
        t.restart now = t') := by
  by_cases ha : a ∈ batch
  · obtain ⟨t, ht, hheap, _⟩ := h.batch a ha
    obtain ⟨⟨hrepeat, hcanceling⟩, hrestart⟩ := renewed_eq_some.mp (hheap.symm.trans ht')
    exact .inr ⟨ha, t, ht, hrepeat, hcanceling, hrestart⟩
  · exact .inl ⟨ha, (h.other a ha).1.symm.trans ht'⟩

/-- A timer that is alive behind `reset` was alive before, with the same number. -/
theorem sequence (h : Resets canceling now batch heap m heap' m') (ht' : heap' a = some t') :
    ∃ t, heap a = some t ∧ t'.sequence_ = t.sequence_ := by
  rcases h.survivor ht' with ⟨_, ht⟩ | ⟨_, t, ht, _, _, rfl⟩
  · exact ⟨t', ht, rfl⟩
  · exact ⟨t, ht, restart_sequence t now⟩

/-- The first timer of a batch, and then the rest. -/
theorem cons {e : Nat} (ht : heap e = some t) (he : e ∉ batch)
    (h : Resets canceling now batch (Function.update heap e (renewed canceling now e t))
      (Function.update m e (renewed canceling now e t)) heap' m') :
    Resets canceling now (e :: batch) heap m heap' m' := by
  refine ⟨fun a ha => ?_, fun a ha => ?_⟩
  · obtain ⟨hae, ha⟩ := List.ne_and_not_mem_of_not_mem_cons ha
    obtain ⟨hheap, hm'⟩ := h.other a ha
    rw [hheap, hm', Function.update_of_ne hae, Function.update_of_ne hae]
    exact ⟨rfl, rfl⟩
  · rcases List.mem_cons.mp ha with rfl | ha
    · obtain ⟨hheap, hm'⟩ := h.other _ he
      rw [Function.update_self] at hheap hm'
      exact ⟨t, ht, hheap, hm'⟩
    · obtain ⟨u, hu, hrenewed⟩ := h.batch a ha
      have hae : a ≠ e := fun heq => he (heq ▸ ha)
      rw [Function.update_of_ne hae] at hu
      exact ⟨u, hu, hrenewed⟩

end Resets

/-- The loop of `reset`. -/
theorem foldlM_resetEntry_spec (expired : List Entry) (now : Timestamp) (h : Indexes q m)
    (hout : ∀ e ∈ expired, m e.timer = none ∧ ∃ t, q.heap e.timer = some t)
    (hnodup : (expired.map Entry.timer).Nodup) :
    ∃ heap timers active m',
      expired.foldlM (resetEntry now) q =
        .ok { q with heap := heap, timers_ := timers, activeTimers_ := active } ∧
      Indexes { q with heap := heap, timers_ := timers, activeTimers_ := active } m' ∧
      Resets q.cancelingTimers_ now (expired.map Entry.timer) q.heap m heap m' := by
  induction expired generalizing q m with
  | nil => exact ⟨q.heap, q.timers_, q.activeTimers_, m, rfl, h, fun _ _ => ⟨rfl, rfl⟩,
      fun a ha => absurd ha List.not_mem_nil⟩
  | cons e expired ih =>
      obtain ⟨he, t, ht⟩ := hout e List.mem_cons_self
      obtain ⟨hnot, hnodup⟩ := List.nodup_cons.mp hnodup
      obtain ⟨timers₁, active₁, hrun₁, hindexes₁⟩ := resetEntry_spec h he ht now
      set q₁ := { q with timers_ := timers₁, activeTimers_ := active₁ }.store e.timer
        (renewed q.cancelingTimers_ now e.timer t) with hq₁
      obtain ⟨heap, timers, active, m', hrun, hindexes, hresets⟩ :=
        @ih q₁ (Function.update m e.timer (renewed q.cancelingTimers_ now e.timer t)) hindexes₁
          (by
            intro f hf
            have hfe : f.timer ≠ e.timer := fun heq => hnot (heq ▸ List.mem_map_of_mem hf)
            obtain ⟨hf', u, hu⟩ := hout f (List.mem_cons_of_mem e hf)
            exact ⟨by rw [Function.update_of_ne hfe, hf'],
              u, by rw [hq₁, store_heap_of_ne _ hfe]; exact hu⟩)
          hnodup
      refine ⟨heap, timers, active, m', ?_, hindexes, hresets.cons ht hnot⟩
      rw [List.foldlM_cons, hrun₁, ok_bind, hrun]
      rfl

/-- The timerfd after `reset`: it is set if the earliest timer has a valid time. -/
def rearmed (fd : Timerfd) (timers : SortedSet Entry) (clock : Timestamp) : Timerfd :=
  match timers.first with
  | none => fd
  | some e =>
      if e.expiration.valid then .settime clock (howMuchTimeFromNow e.expiration clock) else fd

theorem rearm_eq (h : Indexes q m) (clock : Timestamp) :
    q.rearm clock = .ok { q with timerfd := rearmed q.timerfd q.timers_ clock } := by
  unfold rearm rearmed
  cases hfirst : q.timers_.first with
  | none => rfl
  | some e =>
      obtain ⟨a, t, ha, rfl⟩ := (h.timers e).mp (SortedSet.mem_of_first hfirst)
      have hderef : q.deref (entryOf a t).timer = .ok t := deref_of (h.live a t ha)
      simp only [hderef, ok_bind]
      by_cases hvalid : t.expiration_.valid = true
      · simp only [entryOf, hvalid, if_true]
        rfl
      · simp only [entryOf, hvalid]
        rfl

end Operations

end TimerQueue

end Muduo.Net
