/-
  Net/TimerDeletion.lean --- who deletes a `Timer`.

  `cancelInLoop` deletes a timer that it finds scheduled, and `reset` deletes the timers
  of a batch that are not scheduled again.  Here each `delete` is recorded and must meet
  a live object, and `activeTimers_` is read through iterators: one whose element was
  erased cannot be read any more.  `cancelInLoop` does just that, whenever it finds the
  timer, by `erase(it)` in front of `delete it->first`.  The `cancelInLoop` of
  Net/TimerQueue.lean, which deletes the timer that was found, agrees with this one where
  none is found (`cancelInLoop_agree_iff`).  Apart from it every timer is deleted once
  (`deleted_once_iff_none_cancelled`).
-/
import Muduo.Net.TimerRuns

set_option autoImplicit false

namespace Muduo.Net

open Muduo.Foundation Muduo.Base

/-! ## The queue with its deletions -/

/-- A `TimerQueue` and the timers for which `delete` was executed. -/
structure DeletingQueue where
  queue : TimerQueue
  deleted : List TimerId

namespace DeletingQueue

/-- `*it` for an iterator of `activeTimers_`; `it` is the element to which it was
obtained.  An iterator is good until its element is erased. -/
def readIterator (activeTimers : SortedSet TimerId) (it : TimerId) : Exec TimerId :=
  if it ∈ activeTimers then .ok it else .error .outOfBounds

/-- `delete timer`. -/
def delete (d : DeletingQueue) (timer : Nat) : Exec DeletingQueue := do
  let t ← d.queue.deref timer
  .ok ⟨d.queue.store timer none, d.deleted ++ [TimerQueue.idOf timer t]⟩

/-- `cancelInLoop(timerId)`. -/
def cancelInLoop (d : DeletingQueue) (timerId : TimerId) : Exec DeletingQueue := do
  d.queue.assertSameSize
  let d ←
    if timerId ∈ d.queue.activeTimers_ then do
      let it := timerId
      let first := (← readIterator d.queue.activeTimers_ it).timer_
      let t ← d.queue.deref first
      let (timers, n) := d.queue.timers_.erase ⟨t.expiration_, first⟩
      assertThat (n = 1)
      let activeTimers := (d.queue.activeTimers_.erase it).1
      let d := { d with queue := { d.queue with timers_ := timers, activeTimers_ := activeTimers } }
      -- `delete it->first`
      let first := (← readIterator d.queue.activeTimers_ it).timer_
      d.delete first
    else if d.queue.callingExpiredTimers_ then
      let canceling := (d.queue.cancelingTimers_.insert timerId).1
      .ok { d with queue := { d.queue with cancelingTimers_ := canceling } }
    else .ok d
  d.queue.assertSameSize
  .ok d

/-- One round of the loop of `reset`. -/
def resetEntry (now : Timestamp) (d : DeletingQueue) (it : Entry) : Exec DeletingQueue := do
  let t ← d.queue.deref it.timer
  if t.repeat_ = true ∧ (⟨it.timer, t.sequence_⟩ : TimerId) ∉ d.queue.cancelingTimers_ then
    let (_, queue) ← (d.queue.store it.timer (some (t.restart now))).insert it.timer
    .ok { d with queue := queue }
  else d.delete it.timer

/-- `reset(expired, now)`. -/
def reset (d : DeletingQueue) (expired : List Entry) (now clock : Timestamp) :
    Exec DeletingQueue := do
  let d ← expired.foldlM (resetEntry now) d
  let queue ← d.queue.rearm clock
  .ok { d with queue := queue }

/-- `handleRead` behind its loop. -/
def finishRead (d : DeletingQueue) (expired : List Entry) (now clock : Timestamp) :
    Exec DeletingQueue :=
  { d with queue := { d.queue with callingExpiredTimers_ := false } }.reset expired now clock

section Operations

variable {d : DeletingQueue} {m : Nat → Option Timer}

theorem readIterator_of_mem {activeTimers : SortedSet TimerId} {it : TimerId}
    (h : it ∈ activeTimers) : readIterator activeTimers it = .ok it := if_pos h

theorem readIterator_erase (activeTimers : SortedSet TimerId) (it : TimerId) :
    readIterator (activeTimers.erase it).1 it = .error .outOfBounds :=
  if_neg fun h => (SortedSet.mem_erase.mp h).1 rfl

/-- The timer was found, and its iterator is read after the element was erased. -/
theorem cancelInLoop_of_mem (h : d.queue.Indexes m) {id : TimerId}
    (hid : id ∈ d.queue.activeTimers_) : d.cancelInLoop id = .error .outOfBounds := by
  obtain ⟨a, t, ha, rfl⟩ := (h.active id).mp hid
  have hderef : d.queue.deref (TimerQueue.idOf a t).timer_ = .ok t :=
    TimerQueue.deref_of (h.live a t ha)
  have herase : (d.queue.timers_.erase ⟨t.expiration_, (TimerQueue.idOf a t).timer_⟩).2 = 1 :=
    SortedSet.erase_snd (h.timers.mem ha)
  unfold cancelInLoop
  simp only [h.assertSameSize, if_pos hid, readIterator_of_mem hid, hderef, ok_bind, herase,
    assertThat_of, readIterator_erase, error_bind]

/-- Otherwise nothing is deleted. -/
theorem cancelInLoop_of_not_mem (h : d.queue.Indexes m) {id : TimerId}
    (hid : id ∉ d.queue.activeTimers_) :
    d.cancelInLoop id =
      .ok { d with queue := { d.queue with cancelingTimers_ := d.queue.noted id } } := by
  have hsize := h.assertSameSize
  unfold cancelInLoop TimerQueue.noted
  simp only [hsize, if_neg hid, ok_bind]
  cases hcalling : d.queue.callingExpiredTimers_ with
  | false =>
      rw [if_neg (by simp), if_neg (by simp), ← hcalling]
  | true =>
      rw [if_pos rfl, if_pos rfl]
      exact congrArg (· >>= fun _ => _) hsize

/-- Where this model and that of Net/TimerQueue.lean agree: unless the timer is found, both do the
same, and when it is found, only this one fails. -/
theorem cancelInLoop_agree_iff (h : d.queue.Indexes m) {id : TimerId} :
    (∃ d', d.cancelInLoop id = .ok d' ∧ d.queue.cancelInLoop id = .ok d'.queue) ↔
      id ∉ d.queue.activeTimers_ := by
  constructor
  · rintro ⟨d', hd', -⟩ hid
    rw [cancelInLoop_of_mem h hid] at hd'
    exact absurd hd' (by simp)
  · intro hid
    exact ⟨_, cancelInLoop_of_not_mem h hid, TimerQueue.cancelInLoop_of_not_scheduled h hid⟩

/-- The timer that `reset` deletes for an entry. -/
def dropped (q : TimerQueue) (e : Entry) : Option TimerId :=
  (q.heap e.timer).bind fun t =>
    if t.repeat_ = true ∧ TimerQueue.idOf e.timer t ∉ q.cancelingTimers_ then none
    else some (TimerQueue.idOf e.timer t)

theorem dropped_eq_some {q : TimerQueue} {e : Entry} {id : TimerId} :
    dropped q e = some id ↔ ∃ t, q.heap e.timer = some t ∧ TimerQueue.idOf e.timer t = id ∧
      ¬ (t.repeat_ = true ∧ TimerQueue.idOf e.timer t ∉ q.cancelingTimers_) := by
  unfold dropped
  rw [Option.bind_eq_some_iff]
  refine exists_congr fun t => and_congr_right fun _ => ?_
  split
  · rename_i hkept
    exact ⟨fun h => absurd h (by simp), fun h => absurd hkept h.2⟩
  · rename_i hgone
    rw [Option.some_inj]
    exact ⟨fun h => ⟨h, hgone⟩, And.left⟩

theorem timers_dropped (q : TimerQueue) (expired : List Entry) :
    ((expired.filterMap (dropped q)).map TimerId.timer_).Sublist (expired.map Entry.timer) := by
  induction expired with
  | nil => exact List.Sublist.slnil
  | cons e expired ih =>
      cases hdrop : dropped q e with
      | none =>
          rw [List.filterMap_cons_none hdrop]
          exact ih.cons _
      | some id =>
          obtain ⟨t, _, rfl, _⟩ := dropped_eq_some.mp hdrop
          rw [List.filterMap_cons_some hdrop]
          exact ih.cons_cons _

section Resets

variable {q : TimerQueue} {expired : List Entry} {now : Timestamp}
  {heap m m' : Nat → Option Timer} {id : TimerId}

/-- What is dropped was alive, and is not any more. -/
theorem dead_of_dropped
    (h : TimerQueue.Resets q.cancelingTimers_ now (expired.map Entry.timer) q.heap m heap m')
    (hid : id ∈ expired.filterMap (dropped q)) :
    ∃ t, q.heap id.timer_ = some t ∧ t.sequence_ = id.sequence_ ∧ heap id.timer_ = none := by
  obtain ⟨e, he, hdrop⟩ := List.mem_filterMap.mp hid
  obtain ⟨t, ht, rfl, hgone⟩ := dropped_eq_some.mp hdrop
  exact ⟨t, ht, rfl, (h.of_live (List.mem_map_of_mem he) ht).1.trans (if_neg hgone)⟩

/-- A timer of the batch is dropped, or scheduled again. -/
theorem dropped_or_scheduled
    (h : TimerQueue.Resets q.cancelingTimers_ now (expired.map Entry.timer) q.heap m heap m')
    (hmem : id.timer_ ∈ expired.map Entry.timer) {t : Timer} (ht : q.heap id.timer_ = some t)
    (hseq : t.sequence_ = id.sequence_) :
    id ∈ expired.filterMap (dropped q) ∨
      ∃ t', heap id.timer_ = some t' ∧ t'.sequence_ = id.sequence_ ∧ m' id.timer_ = some t' := by
  obtain ⟨hheap, hm'⟩ := h.of_live hmem ht
  by_cases hkept : t.repeat_ = true ∧ TimerQueue.idOf id.timer_ t ∉ q.cancelingTimers_
  · rw [TimerQueue.renewed, if_pos hkept] at hheap hm'
    exact .inr ⟨_, hheap, (TimerQueue.restart_sequence t now).trans hseq, hm'⟩
  · obtain ⟨e, he, heq⟩ := List.mem_map.mp hmem
    refine .inl (List.mem_filterMap.mpr ⟨e, he, dropped_eq_some.mpr ?_⟩)
    rw [heq]
    exact ⟨t, ht, by rw [TimerQueue.idOf, hseq], hkept⟩

end Resets

theorem resetEntry_eq {now : Timestamp} {e : Entry} {t : Timer}
    (ht : d.queue.heap e.timer = some t) {q : TimerQueue}
    (hrun : TimerQueue.resetEntry now d.queue e = .ok q) :
    resetEntry now d e = .ok ⟨q, d.deleted ++ (dropped d.queue e).toList⟩ := by
  have hid : (⟨e.timer, t.sequence_⟩ : TimerId) = TimerQueue.idOf e.timer t := rfl
  have hderef := TimerQueue.deref_of ht
  unfold TimerQueue.resetEntry at hrun
  unfold resetEntry delete dropped
  simp only [hderef, ok_bind, hid, ht, Option.bind_some] at hrun ⊢
  split at hrun
  · rename_i hkept
    obtain ⟨⟨_, q₁⟩, hinsert, hq⟩ := bind_eq_ok_iff.mp hrun
    obtain rfl : q₁ = q := Except.ok.inj hq
    rw [if_pos hkept, if_pos hkept, hinsert]
    simp
  · rename_i hgone
    rw [if_neg hgone, if_neg hgone]
    simp only [Except.ok.injEq] at hrun
    rw [← hrun]
    rfl

/-- The loop of `reset` does what it did before, and deletes what it drops. -/
theorem foldlM_resetEntry_eq (expired : List Entry) (now : Timestamp) (h : d.queue.Indexes m)
    (hout : ∀ e ∈ expired, m e.timer = none ∧ ∃ t, d.queue.heap e.timer = some t)
    (hnodup : (expired.map Entry.timer).Nodup) {q : TimerQueue}
    (hrun : expired.foldlM (TimerQueue.resetEntry now) d.queue = .ok q) :
    expired.foldlM (resetEntry now) d = .ok ⟨q,
      d.deleted ++ expired.filterMap (dropped d.queue)⟩ := by
  induction expired generalizing d m with
  | nil =>
      obtain rfl : d.queue = q := Except.ok.inj hrun
      simp only [List.foldlM_nil, List.filterMap_nil, List.append_nil]
      rfl
  | cons e expired ih =>
      obtain ⟨he, t, ht⟩ := hout e List.mem_cons_self
      obtain ⟨hnot, hnodup⟩ := List.nodup_cons.mp hnodup
      obtain ⟨timers, active, hrun₁, hindexes⟩ := TimerQueue.resetEntry_spec h he ht now
      rw [List.foldlM_cons, hrun₁, ok_bind] at hrun
      rw [List.foldlM_cons, resetEntry_eq ht hrun₁, ok_bind]
      set q₁ := { d.queue with timers_ := timers, activeTimers_ := active }.store e.timer
        (TimerQueue.renewed d.queue.cancelingTimers_ now e.timer t) with hq₁
      have hother : ∀ f ∈ expired, f.timer ≠ e.timer := by
        intro f hf heq
        exact hnot (heq ▸ List.mem_map_of_mem hf)
      have hheap : ∀ f ∈ expired, q₁.heap f.timer = d.queue.heap f.timer :=
        fun f hf => TimerQueue.store_heap_of_ne _ (hother f hf) _
      have hsame : expired.filterMap (dropped q₁) = expired.filterMap (dropped d.queue) :=
        List.filterMap_congr fun f hf => by simp only [dropped, hheap f hf]; rfl
      rw [@ih ⟨q₁, d.deleted ++ (dropped d.queue e).toList⟩
        (Function.update m e.timer (TimerQueue.renewed d.queue.cancelingTimers_ now e.timer t))
        hindexes
        (by
          intro f hf
          rw [Function.update_of_ne (hother f hf), hheap f hf]
          exact hout f (List.mem_cons_of_mem e hf))
        hnodup hrun, hsame]
      cases hdrop : dropped d.queue e with
      | none => simp [hdrop]
      | some id => simp [hdrop]

/-- `handleRead` behind its loop. -/
theorem finishRead_eq {expired : List Entry} {now clock : Timestamp} (h : d.queue.Indexes m)
    (hout : ∀ e ∈ expired, m e.timer = none ∧ ∃ t, d.queue.heap e.timer = some t)
    (hnodup : (expired.map Entry.timer).Nodup) {q : TimerQueue}
    (hrun : d.queue.finishRead expired now clock = .ok q) :
    d.finishRead expired now clock = .ok ⟨q, d.deleted ++ expired.filterMap (dropped d.queue)⟩ := by
  unfold TimerQueue.finishRead TimerQueue.reset at hrun
  obtain ⟨q₁, hfold, hrearm⟩ := bind_eq_ok_iff.mp hrun
  unfold finishRead reset
  rw [@foldlM_resetEntry_eq ⟨{ d.queue with callingExpiredTimers_ := false }, d.deleted⟩ m
    expired now
    ⟨h.timers, h.active, h.live⟩ hout hnodup q₁ hfold, ok_bind]
  simp only [hrearm, ok_bind]
  rfl

end Operations

end DeletingQueue

/-! ## The system -/

/-- The system of `TimerRuns`, with the timers for which `addTimerInLoop` was executed and
those for which `delete` was. -/
structure TimerDeletion where
  system : TimerSystem
  added : List TimerId
  deleted : List TimerId

namespace TimerDeletion

open TimerSystem (Action)

/-- Without timers. -/
def start : TimerDeletion := ⟨.start, [], []⟩

/-- `addTimerInLoop`, whoever calls it. -/
def addInLoop (s : TimerDeletion) (timer : Nat) (now : Timestamp) : Exec TimerDeletion := do
  let system ← s.system.addInLoop timer now
  .ok { s with system := system, added := (s.system.idAt timer).toList ++ s.added }

/-- `cancelInLoop`, whoever calls it. -/
def cancelInLoop (s : TimerDeletion) (timerId : TimerId) : Exec TimerDeletion := do
  let d ← DeletingQueue.cancelInLoop ⟨s.system.queue, s.deleted⟩ timerId
  let log := s.system.log ++ [.cancelled timerId]
  .ok { s with system := { s.system with queue := d.queue, log := log }, deleted := d.deleted }

/-- What a step does. -/
def step (s : TimerDeletion) : Action → Exec TimerDeletion
  | .addNow timer now => { s with system := s.system.handOver timer }.addInLoop timer now
  | .cancelNow timerId => s.cancelInLoop timerId
  | .runFunctor now =>
      match s.system.queued with
      | [] => .ok s
      | .addTimerInLoop timer :: queued =>
          { s with system := { s.system with queued := queued } }.addInLoop timer now
      | .cancelInLoop timerId :: queued =>
          { s with system := { s.system with queued := queued } }.cancelInLoop timerId
  | .finishRead clock =>
      match s.system.batch with
      | some b => do
          let d ← DeletingQueue.finishRead ⟨s.system.queue, s.deleted⟩ b.expired b.now clock
          .ok { s with
            system := { s.system with queue := d.queue, batch := none }
            deleted := d.deleted }
      | none => .ok s
  | action => do
      let system ← s.system.step action
      .ok { s with system := system }

/-- The steps of Net/TimerRuns.lean. -/
def machine : Machine TimerDeletion Action := ⟨step, fun s action => s.system.Legal action⟩

/-- No timer is cancelled while it is scheduled. -/
def NoneScheduled (s : TimerDeletion) : Action → Prop
  | .cancelNow timerId => timerId ∉ s.system.queue.activeTimers_
  | .runFunctor _ =>
      match s.system.queued with
      | .cancelInLoop timerId :: _ => timerId ∉ s.system.queue.activeTimers_
      | _ => True
  | _ => True

/-! ## Where a timer is -/

/-- Where a timer is. -/
inductive Place where
  | scheduled
  | expired
  | deleted
  deriving DecidableEq, Repr

/-- The timer is in both sets, or in the batch in progress, or `delete` was executed for
it. -/
def At (s : TimerDeletion) (id : TimerId) : Place → Prop
  | .scheduled => id ∈ s.system.queue.activeTimers_ ∧ ∃ e ∈ s.system.queue.timers_,
      e.timer = id.timer_
  | .expired => some id ∈ s.system.expiredTimers.map s.system.idAt
  | .deleted => id ∈ s.deleted

/-- Every timer that was added is in one place, and none is deleted twice. -/
structure Accounted (s : TimerDeletion) : Prop where
  place : ∀ id ∈ s.added, ∃! p, s.At id p
  once : ∀ id, s.deleted.count id ≤ 1

/-- The timer is alive, scheduled or in the batch in progress. -/
def Kept (s : TimerDeletion) (m : Nat → Option Timer) (id : TimerId) : Prop :=
  ∃ t, s.system.queue.heap id.timer_ = some t ∧ t.sequence_ = id.sequence_ ∧
    (m id.timer_ = some t ∨ id.timer_ ∈ s.system.expiredTimers)

/-- What holds of the objects in every state. -/
structure Inv (s : TimerDeletion) (m : Nat → Option Timer) : Prop where
  inv : TimerSystem.Inv [] s.system m
  nodup : s.deleted.Nodup
  deleted_le : ∀ id ∈ s.deleted, id.sequence_ ≤ s.system.numCreated
  /-- the objects that were deleted are not alive -/
  dead : ∀ id ∈ s.deleted, ∀ t, s.system.queue.heap id.timer_ = some t → t.sequence_ ≠ id.sequence_
  place : ∀ id ∈ s.added, id ∈ s.deleted ∨ s.Kept m id

theorem inv_start : Inv start fun _ => none where
  inv := TimerSystem.inv_start
  nodup := .nil
  deleted_le _ h := absurd h List.not_mem_nil
  dead _ h := absurd h List.not_mem_nil
  place _ h := absurd h List.not_mem_nil

section Steps

variable {s : TimerDeletion} {m : Nat → Option Timer}

/-- A timer of the batch is not scheduled. -/
theorem Inv.expired_none (h : Inv s m) {a : Nat} (ha : a ∈ s.system.expiredTimers) : m a = none :=
  (h.inv.sound.outside a (List.mem_append_right [] (List.mem_append_left _ ha))).1

theorem Inv.accounted (h : Inv s m) : Accounted s := by
  have hindexes := h.inv.sound.indexes
  have hscheduled : ∀ id, s.At id .scheduled → ∃ t, m id.timer_ = some t ∧
      s.system.queue.heap id.timer_ = some t ∧ t.sequence_ = id.sequence_ := by
    rintro id ⟨hmem, _⟩
    obtain ⟨a, t, ha, rfl⟩ := (hindexes.active id).mp hmem
    exact ⟨t, ha, hindexes.live a t ha, rfl⟩
  have hexpired : ∀ id, s.At id .expired → id.timer_ ∈ s.system.expiredTimers ∧
      ∃ t, s.system.queue.heap id.timer_ = some t ∧ t.sequence_ = id.sequence_ := by
    intro id hmem
    obtain ⟨a, ha, hid⟩ := List.mem_map.mp hmem
    obtain ⟨t, ht, rfl⟩ := Option.map_eq_some_iff.mp hid
    exact ⟨ha, t, ht, rfl⟩
  refine ⟨fun id hid => ?_, fun id => List.nodup_iff_count_le_one.mp h.nodup id⟩
  rcases h.place id hid with hdeleted | ⟨t, ht, hseq, hm | hm⟩
  · refine ⟨.deleted, hdeleted, fun p hp => ?_⟩
    cases p with
    | scheduled =>
        obtain ⟨t, _, ht, hseq⟩ := hscheduled id hp
        exact absurd hseq (h.dead id hdeleted t ht)
    | expired =>
        obtain ⟨_, t, ht, hseq⟩ := hexpired id hp
        exact absurd hseq (h.dead id hdeleted t ht)
    | deleted => rfl
  · have hidOf : TimerQueue.idOf id.timer_ t = id := by rw [TimerQueue.idOf, hseq]
    refine ⟨.scheduled, ⟨?_, _, hindexes.timers.mem hm, rfl⟩, fun p hp => ?_⟩
    · rw [← hidOf]
      exact hindexes.active.mem hm
    · cases p with
      | scheduled => rfl
      | expired => exact absurd ((h.expired_none (hexpired id hp).1).symm.trans hm) (by simp)
      | deleted => exact absurd hseq (h.dead id hp t ht)
  · refine ⟨.expired, List.mem_map.mpr ⟨id.timer_, hm, ?_⟩, fun p hp => ?_⟩
    · rw [TimerSystem.idAt, ht, Option.map_some, TimerQueue.idOf, hseq]
    · cases p with
      | scheduled =>
          obtain ⟨_, hm', _⟩ := hscheduled id hp
          exact absurd ((h.expired_none hm).symm.trans hm') (by simp)
      | expired => rfl
      | deleted => exact absurd hseq (h.dead id hp t ht)

/-- A step that leaves the objects as they are, and every timer scheduled or in the
batch. -/
theorem Inv.frame (h : Inv s m) {system : TimerSystem} {m' : Nat → Option Timer}
    (hinv : TimerSystem.Inv [] system m') (hnum : system.numCreated = s.system.numCreated)
    (hheap : system.queue.heap = s.system.queue.heap)
    (hkept : ∀ a t, m a = some t ∨ a ∈ s.system.expiredTimers →
      m' a = some t ∨ a ∈ system.expiredTimers) :
    Inv { s with system := system } m' where
  inv := hinv
  nodup := h.nodup
  deleted_le id hid := by
    rw [hnum]
    exact h.deleted_le id hid
  dead id hid t ht := h.dead id hid t (hheap ▸ ht)
  place id hid := by
    refine (h.place id hid).imp_right fun ⟨t, ht, hseq, hm⟩ => ?_
    refine ⟨t, ?_, hseq, hkept _ t hm⟩
    rw [hheap]
    exact ht

theorem inv_newTimer (h : Inv s m) {a : Nat} (hfree : s.system.queue.heap a = none)
    (haddr : a < UINTPTR_MAX) (when : Timestamp) (interval : Nat) (repeats : Bool) :
    Inv { s with system := { s.system with
      queue := s.system.queue.store a (some ⟨when, interval, repeats, s.system.numCreated + 1⟩)
      numCreated := s.system.numCreated + 1
      created := a :: s.system.created } } m := by
  refine ⟨TimerSystem.inv_newTimer h.inv hfree haddr when interval repeats, h.nodup,
    fun id hid => (h.deleted_le id hid).trans (Int.le_add_one le_rfl), fun id hid t ht => ?_,
    fun id hid => (h.place id hid).imp_right fun ⟨t, ht, hkept⟩ => ⟨t, ?_, hkept⟩⟩
  · rcases TimerQueue.of_store_some ht with ⟨_, rfl⟩ | ⟨_, ht⟩
    · -- the number of the new object was never used before
      have hle := h.deleted_le id hid
      simp only
      omega
    · exact h.dead id hid t ht
  · have heq : id.timer_ ≠ a := by
      rintro rfl
      exact absurd (hfree.symm.trans ht) (by simp)
    simp only [TimerQueue.store_heap_of_ne _ heq]
    exact ht

/-- `addTimerInLoop` schedules the timer. -/
theorem inv_addInLoop (h : Inv s m) {system : TimerSystem} {a : Nat}
    (hheld : TimerSystem.Inv [a] system m) (hnum : system.numCreated = s.system.numCreated)
    (hqueue : system.queue = s.system.queue) (hbatch : system.batch = s.system.batch)
    (now : Timestamp) :
    ∃ s' m', { s with system := system }.addInLoop a now = .ok s' ∧
      system.addInLoop a now = .ok s'.system ∧ Inv s' m' := by
  obtain ⟨t, ht⟩ := hheld.held_live
  obtain ⟨hrun, hinv⟩ := TimerSystem.inv_addInLoop hheld ht now
  obtain ⟨fd, hfd⟩ := TimerQueue.added_eq system.queue a t now
  have hma : m a = none := (hheld.sound.outside a List.mem_cons_self).1
  have hheap : (system.queue.added a t now).heap = s.system.queue.heap := by
    rw [hfd, ← hqueue]
    rfl
  have hexpired : ({ system with queue := system.queue.added a t now } :
    TimerSystem).expiredTimers =
      s.system.expiredTimers := by
    unfold TimerSystem.expiredTimers
    rw [← hbatch]
  have hframe : Inv { s with system := { system with queue := system.queue.added a t now } }
      (Function.update m a (some t)) := by
    refine h.frame hinv hnum hheap fun b u hb => ?_
    rw [hexpired]
    refine hb.imp_left fun hb => ?_
    have hba : b ≠ a := by
      rintro rfl
      exact absurd (hma.symm.trans hb) (by simp)
    rw [Function.update_of_ne hba]
    exact hb
  have hrun' : { s with system := system }.addInLoop a now = .ok
      ⟨{ system with queue := system.queue.added a t now }, (system.idAt a).toList ++ s.added,
        s.deleted⟩ := by
    rw [addInLoop, hrun, ok_bind]
  refine ⟨_, _, hrun', hrun, hframe.inv, hframe.nodup, hframe.deleted_le, hframe.dead,
    fun id hid => ?_⟩
  rcases List.mem_append.mp hid with hid | hid
  · obtain rfl : id = TimerQueue.idOf a t := by
      simpa [TimerSystem.idAt, ht] using hid
    refine .inr ⟨t, ?_, rfl, .inl (Function.update_self _ _ _)⟩
    exact (congrFun hheap a).trans (hqueue ▸ ht)
  · exact hframe.place id hid

/-- `cancelInLoop` of a timer that is not scheduled deletes nothing. -/
theorem inv_cancelInLoop (h : Inv s m) {id : TimerId} (hid : id ∉ s.system.queue.activeTimers_) :
    ∃ s' m', s.cancelInLoop id = .ok s' ∧ s.system.cancelInLoop id = .ok s'.system ∧ Inv s' m' := by
  have hrun := @DeletingQueue.cancelInLoop_of_not_mem ⟨s.system.queue, s.deleted⟩ m
    h.inv.sound.indexes id hid
  obtain ⟨hsystem, hinv⟩ := TimerSystem.inv_cancel_other h.inv hid
  exact ⟨_, _, by rw [cancelInLoop, hrun, ok_bind], hsystem, h.frame hinv rfl rfl fun _ _ ha => ha⟩

theorem cancelInLoop_of_mem (h : Inv s m) {id : TimerId} (hid : id ∈ s.system.queue.activeTimers_) :
    s.cancelInLoop id = .error .outOfBounds := by
  have hrun := @DeletingQueue.cancelInLoop_of_mem ⟨s.system.queue, s.deleted⟩ m
    h.inv.sound.indexes id hid
  rw [cancelInLoop, hrun, error_bind]

theorem inv_handleRead (h : Inv s m) (hbatch : s.system.batch = none) (now : Timestamp)
    (fired : Bool) : ∃ system m', s.system.step (.handleRead now fired) = .ok system ∧
      Inv { s with system := system } m' := by
  obtain ⟨expired, timers, active, fd, hrun, hinv, _⟩ :=
    TimerSystem.inv_handleRead h.inv hbatch now fired
  refine ⟨_, _, hrun, h.frame hinv rfl rfl fun a t ha => ?_⟩
  have hnone : s.system.expiredTimers = [] := by rw [TimerSystem.expiredTimers, hbatch]; rfl
  rw [hnone] at ha
  by_cases hmem : a ∈ expired.map Entry.timer
  · exact .inr hmem
  · rw [TimerQueue.without_of_not_mem hmem]
    exact .inl (ha.resolve_right List.not_mem_nil)

theorem inv_runNext (h : Inv s m) (hlegal : s.system.Legal .runNext) :
    ∃ system, s.system.step .runNext = .ok system ∧ Inv { s with system := system } m := by
  obtain ⟨expired, e, todo, now, hbatch⟩ := hlegal.runNext
  obtain ⟨t, _, hrun, hinv⟩ := TimerSystem.inv_runNext h.inv hbatch
  refine ⟨_, hrun, h.frame hinv rfl rfl fun a t ha => ?_⟩
  simpa [TimerSystem.expiredTimers, hbatch] using ha

/-- `finishRead` does what it does without the deletions, and deletes what `reset` drops. -/
theorem Inv.step_finishRead (h : Inv s m) {b : Batch} (hbatch : s.system.batch = some b)
    {clock : Timestamp} {system : TimerSystem}
    (hrun : s.system.step (.finishRead clock) = .ok system) :
    s.step (.finishRead clock) = .ok ⟨system, s.added,
      s.deleted ++ b.expired.filterMap (DeletingQueue.dropped s.system.queue)⟩ := by
  simp only [TimerSystem.step, hbatch] at hrun
  obtain ⟨q, hqueue, heq⟩ := bind_eq_ok_iff.mp hrun
  have hfinish := @DeletingQueue.finishRead_eq ⟨s.system.queue, s.deleted⟩ m _ _ clock
    h.inv.sound.indexes (fun e he => h.inv.batch_outside hbatch (List.mem_map_of_mem he))
    (h.inv.batch_nodup hbatch) _ hqueue
  simp only [step, hbatch, hfinish, ok_bind]
  rw [← Except.ok.inj heq]

/-- A timer of the batch that is not scheduled again is deleted. -/
theorem inv_finishRead (h : Inv s m) {b : Batch} (hbatch : s.system.batch = some b)
    (clock : Timestamp) : ∃ s' m', s.step (.finishRead clock) = .ok s' ∧
      s.system.step (.finishRead clock) = .ok s'.system ∧ Inv s' m' := by
  obtain ⟨heap, timers, active, m', hrun, hinv, hresets⟩ :=
    TimerSystem.inv_finishRead h.inv hbatch clock
  refine ⟨_, m', h.step_finishRead hbatch hrun, hrun, hinv, ?_, fun id hid => ?_,
    fun id hid t' ht' => ?_, fun id hid => ?_⟩
  · refine List.Nodup.append h.nodup
      (((DeletingQueue.timers_dropped _ _).nodup (h.inv.batch_nodup hbatch)).of_map _)
      fun id hid hdrop => ?_
    obtain ⟨t, ht, hseq, _⟩ := DeletingQueue.dead_of_dropped hresets hdrop
    exact h.dead id hid t ht hseq
  · rcases List.mem_append.mp hid with hid | hid
    · exact h.deleted_le id hid
    · obtain ⟨t, ht, hseq, _⟩ := DeletingQueue.dead_of_dropped hresets hid
      rw [← hseq]
      exact h.inv.sound.seq_le _ t ht
  · rcases List.mem_append.mp hid with hid | hid
    · obtain ⟨t, ht, hseq⟩ := hresets.sequence ht'
      rw [hseq]
      exact h.dead id hid t ht
    · obtain ⟨_, _, _, hnone⟩ := DeletingQueue.dead_of_dropped hresets hid
      exact absurd (hnone.symm.trans ht') (by simp)
  · rcases h.place id hid with hdeleted | ⟨t, ht, hseq, hm⟩
    · exact .inl (List.mem_append_left _ hdeleted)
    · by_cases hmem : id.timer_ ∈ b.expired.map Entry.timer
      · rcases DeletingQueue.dropped_or_scheduled hresets hmem ht
          hseq with hdrop | ⟨t', ht', hseq', hm'⟩
        · exact .inl (List.mem_append_right _ hdrop)
        · exact .inr ⟨t', ht', hseq', .inl hm'⟩
      · obtain ⟨hheap', hm'⟩ := hresets.other id.timer_ hmem
        rw [TimerSystem.expiredTimers_of_batch hbatch] at hm
        exact .inr ⟨t, hheap'.trans ht, hseq, .inl (hm'.trans (hm.resolve_right hmem))⟩

/-- Every legal step that cancels no scheduled timer succeeds, as it does in the system
without the deletions. -/
theorem inv_step (h : Inv s m) {action : Action} (hlegal : s.system.Legal action)
    (hnone : s.NoneScheduled action) :
    ∃ s' m', s.step action = .ok s' ∧ s.system.step action = .ok s'.system ∧ Inv s' m' := by
  cases action with
  | newTimer a when interval repeats =>
      exact ⟨_, m, rfl, rfl, inv_newTimer h hlegal.1 hlegal.2.1 when interval repeats⟩
  | queueAdd a =>
      have hinv := TimerSystem.inv_queueAdd (TimerSystem.inv_handOver h.inv hlegal)
      exact ⟨_, m, rfl, rfl, h.frame hinv rfl rfl fun _ _ ha => ha⟩
  | addNow a now =>
      exact inv_addInLoop h (TimerSystem.inv_handOver h.inv hlegal) rfl rfl rfl now
  | queueCancel id =>
      have hinv := TimerSystem.inv_queueCancel h.inv id
      exact ⟨_, m, rfl, rfl, h.frame hinv rfl rfl fun _ _ ha => ha⟩
  | cancelNow id => exact inv_cancelInLoop h hnone
  | runFunctor now =>
      rcases hlegal.runFunctor with ⟨a, queued, hqueued, hstep⟩ | ⟨id, queued, hqueued, hstep⟩
      · rw [hstep]
        simp only [step, hqueued]
        exact inv_addInLoop h (TimerSystem.inv_takeAdd h.inv hqueued) rfl rfl rfl now
      · rw [hstep]
        simp only [NoneScheduled, hqueued] at hnone
        simp only [step, hqueued]
        have htaken := h.frame (TimerSystem.inv_takeCancel h.inv hqueued) rfl rfl fun _ _ ha => ha
        exact inv_cancelInLoop htaken hnone
  | handleRead now fired =>
      obtain ⟨system, m', hrun, hinv⟩ := inv_handleRead h hlegal now fired
      exact ⟨_, m', by simp only [step, hrun, ok_bind], hrun, hinv⟩
  | runNext =>
      obtain ⟨system, hrun, hinv⟩ := inv_runNext h hlegal
      exact ⟨_, m, by simp only [step, hrun, ok_bind], hrun, hinv⟩
  | finishRead clock =>
      obtain ⟨b, hbatch⟩ := hlegal.finishRead
      exact inv_finishRead h hbatch clock

/-- A step that cancels a scheduled timer reads an iterator that is not good any more. -/
theorem step_of_scheduled (h : Inv s m) {action : Action} (hnone : ¬ s.NoneScheduled action) :
    s.step action = .error .outOfBounds := by
  cases action with
  | cancelNow id => exact cancelInLoop_of_mem h (not_not.mp hnone)
  | runFunctor now =>
      simp only [NoneScheduled] at hnone
      split at hnone
      · rename_i id queued hqueued
        simp only [step, hqueued]
        have htaken := h.frame (TimerSystem.inv_takeCancel h.inv hqueued) rfl rfl fun _ _ ha => ha
        exact cancelInLoop_of_mem htaken (not_not.mp hnone)
      · exact absurd trivial hnone
  | _ => exact absurd trivial hnone

end Steps

/-! ## Whole runs -/

/-- Along the runs in which no scheduled timer is cancelled, the deletions change nothing
that the system of `TimerRuns` does. -/
theorem system_run {actions : List Action}
    (hlegal : (machine.restrict NoneScheduled).LegalRun start actions) :
    ∃ s, machine.run start actions = .ok s ∧
      TimerSystem.machine.run .start actions = .ok s.system ∧ ∃ m, Inv s m := by
  obtain ⟨s, _, hrun, hsystem, hinv, rfl⟩ :=
    @Machine.run_of_simulation _ _ (machine.restrict NoneScheduled) _ TimerSystem.machine
      (fun s t => (∃ m, Inv s m) ∧ s.system = t)
      (by
        rintro s _ a ⟨⟨m, h⟩, rfl⟩ hlegal
        obtain ⟨s', m', hstep, hsystem, h'⟩ := inv_step h hlegal.1 hlegal.2
        exact ⟨s', s'.system, hstep, hsystem, ⟨m', h'⟩, rfl⟩)
      start TimerSystem.start ⟨⟨_, inv_start⟩, rfl⟩ actions hlegal
  rw [Machine.run_restrict] at hrun
  exact ⟨s, hrun, hsystem, hinv⟩

/-- A run meets no error, and every timer that was added is scheduled, in the batch in
progress or deleted, once, if and only if no timer is cancelled in it while it is
scheduled. -/
theorem deleted_once_iff_none_cancelled (actions : List Action)
    (hlegal : machine.LegalRun start actions) :
    (∃ s, machine.run start actions = .ok s ∧ Accounted s) ↔
      (machine.restrict NoneScheduled).LegalRun start actions := by
  constructor
  · rintro ⟨s, hrun, _⟩
    refine (Machine.exists_run_iff_legalRun (fun s => ∃ m, Inv s m) ?_ ?_ ⟨_, inv_start⟩ hlegal).mp
      ⟨s, hrun⟩
    · rintro s a ⟨m, h⟩ hlegal hnone
      obtain ⟨s', m', hstep, _, h'⟩ := inv_step h hlegal hnone
      exact ⟨s', hstep, m', h'⟩
    · rintro s a ⟨m, h⟩ _ hnone
      exact ⟨_, step_of_scheduled h hnone⟩
  · intro hrestricted
    obtain ⟨s, hrun, _, m, hinv⟩ := system_run hrestricted
    exact ⟨s, hrun, hinv.accounted⟩

instance (s : TimerDeletion) (a : Action) : Decidable (machine.legal s a) :=
  inferInstanceAs (Decidable (s.system.Legal a))

instance (s : TimerDeletion) : ∀ a : Action, Decidable (s.NoneScheduled a)
  | .cancelNow timerId => inferInstanceAs (Decidable (timerId ∉ s.system.queue.activeTimers_))
  | .runFunctor _ =>
      match h : s.system.queued with
      | .cancelInLoop timerId :: _ =>
          decidable_of_iff (timerId ∉ s.system.queue.activeTimers_)
            (by simp only [NoneScheduled, h])
      | [] => isTrue (by simp only [NoneScheduled, h])
      | .addTimerInLoop _ :: _ => isTrue (by simp only [NoneScheduled, h])
  | .newTimer _ _ _ _ | .queueAdd _ | .addNow _ _ | .queueCancel _ | .handleRead _ _ | .runNext
  | .finishRead _ => isTrue trivial

instance (s : TimerDeletion) (a : Action) :
    Decidable ((machine.restrict NoneScheduled).legal s a) :=
  inferInstanceAs (Decidable (s.system.Legal a ∧ s.NoneScheduled a))

/-- A timer that repeats cancels itself in its callback, beside a one-shot timer. -/
def cancelledByItself : List Action :=
  [.newTimer 8 ⟨5⟩ 3 true, .addNow 8 ⟨1⟩, .newTimer 16 ⟨6⟩ 0 false, .queueAdd 16, .runFunctor ⟨2⟩,
    .handleRead ⟨10⟩ true, .runNext, .cancelNow ⟨8, 1⟩, .runNext, .finishRead ⟨12⟩]

theorem deleted_once_cancelledByItself :
    machine.LegalRun start cancelledByItself ∧
      ∃ s, machine.run start cancelledByItself = .ok s ∧ Accounted s := by
  have hlegal : machine.LegalRun start cancelledByItself := by decide +kernel
  refine ⟨hlegal, (deleted_once_iff_none_cancelled cancelledByItself hlegal).mpr ?_⟩
  decide +kernel

/-- A timer is added and cancelled before it expires. -/
def cancelledInTime : List Action :=
  [.newTimer 8 ⟨5⟩ 0 false, .addNow 8 ⟨1⟩, .cancelNow ⟨8, 1⟩]

/-- `cancelInLoop` reads the iterator that it has just erased. -/
theorem reads_erased_iterator_cancelledInTime :
    machine.LegalRun start cancelledInTime ∧
      machine.run start cancelledInTime = .error .outOfBounds :=
  ⟨by decide +kernel, rfl⟩

end TimerDeletion

end Muduo.Net
