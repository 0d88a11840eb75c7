/-
  Net/TimerCancel.lean --- what `cancel` promises.

  A cancelled timer should not fire any more.  `cancelInLoop` keeps that promise for a
  timer that is scheduled, which it deletes, and for one whose callback is running or
  has run in the current batch, which `reset` deletes.  It does not for a timer of the
  batch whose turn is still to come, nor for one whose insertion is still queued when
  the loop thread cancels it: the callback starts all the same
  (`cancelled_timer_fires`).

  There is a third way.  `addTimer` in another thread queues the pointer and only then
  reads `timer->sequence()`.  The loop may have fired and deleted the timer before that,
  and the address may be that of a new one: the identity that `addTimer` returns is then
  that of another timer, whose insertion may be queued behind its cancellation
  (`late_number_is_another_timers`).  `cancelled_never_starts` says that there is no fourth.
-/
import Muduo.Net.TimerRuns

set_option autoImplicit false

namespace Muduo.Net.TimerSystem

open Muduo.Foundation Muduo.Base

/-! ## The promise -/

/-- No callback is started after `cancelInLoop` of its timer. -/
def NeverStartsCancelled (log : List TimerEvent) : Prop :=
  ∀ before after id, log = before ++ .started id :: after → .cancelled id ∉ before

theorem neverStartsCancelled_append {log : List TimerEvent} (h : NeverStartsCancelled log)
    {event : TimerEvent} (hevent : ∀ id, event = .started id → .cancelled id ∉ log) :
    NeverStartsCancelled (log ++ [event]) := by
  intro before after id hlog
  rcases List.eq_nil_or_concat after with rfl | ⟨after', last, rfl⟩
  · obtain ⟨rfl, hlast⟩ := List.append_inj' hlog rfl
    exact hevent id (by simpa using hlast)
  · rw [List.concat_eq_append, ← List.cons_append, ← List.append_assoc] at hlog
    exact h before after' id (List.append_inj' hlog rfl).1

/-- Only timers that were given to the loop are cancelled. -/
def CancelsHandedOver (s : TimerSystem) : Action → Prop
  | .queueCancel id => id ∈ s.handedOver
  | .cancelNow id => id ∈ s.handedOver
  | _ => True

/-- The insertion of the timer is still queued. -/
def AwaitsInsertion (s : TimerSystem) (id : TimerId) : Prop :=
  some id ∈ s.queuedTimers.map s.idAt

/-- The timer is in the expired batch, and its callback has not been started. -/
def StillToRun (s : TimerSystem) (id : TimerId) : Prop :=
  some id ∈ (s.batch.elim [] Batch.todo).map fun e => s.idAt e.timer

/-- The loop thread cancels no timer whose insertion is still queued, and none whose
turn in the current batch is still to come. -/
def Timely (s : TimerSystem) : Action → Prop
  | .cancelNow id => ¬ s.AwaitsInsertion id ∧ ¬ s.StillToRun id
  | _ => True

/-! ## Identities -/

/-- The identities that are in use, and the order of the queue: no timer's
cancellation is queued in front of its insertion. -/
structure Known (s : TimerSystem) : Prop where
  handedOver_le : ∀ id ∈ s.handedOver, id.sequence_ ≤ s.numCreated
  fresh : ∀ a ∈ s.created, ∀ id ∈ s.idAt a, id ∉ s.handedOver
  queued : ∀ id, .cancelInLoop id ∈ s.queued → id ∈ s.handedOver
  cancelled : ∀ id, .cancelled id ∈ s.log → id ∈ s.handedOver
  fifo : ∀ before after id, s.queued = before ++ .cancelInLoop id :: after →
    ∀ a ∈ after.filterMap TimerFunctor.adds, s.idAt a ≠ some id

theorem idAt_timer {s : TimerSystem} {a : Nat} {id : TimerId} (h : s.idAt a = some id) :
    id.timer_ = a ∧ ∃ t, s.queue.heap a = some t ∧ TimerQueue.idOf a t = id := by
  obtain ⟨t, ht, rfl⟩ := Option.map_eq_some_iff.mp h
  exact ⟨rfl, t, ht, rfl⟩

theorem known_start : Known start where
  handedOver_le _ h := absurd h List.not_mem_nil
  fresh _ h := absurd h List.not_mem_nil
  queued _ h := absurd h List.not_mem_nil
  cancelled _ h := absurd h List.not_mem_nil
  fifo before after id h := absurd h (by simp [start])

/-- A state in which no timer has come to life, and which differs in nothing else that
matters. -/
theorem Known.mono {s s' : TimerSystem} (h : Known s)
    (hids : ∀ a id, s'.idAt a = some id → s.idAt a = some id)
    (hhanded : s'.handedOver = s.handedOver)
    (hnum : s'.numCreated = s.numCreated) (hcreated : s'.created = s.created)
    (hqueued : s'.queued = s.queued) (hlog : ∀ id, .cancelled id ∈ s'.log → id ∈ s.handedOver) :
    Known s' where
  handedOver_le := by
    rw [hhanded, hnum]
    exact h.handedOver_le
  fresh := by
    rw [hhanded, hcreated]
    exact fun a ha id hid => h.fresh a ha id (hids a id hid)
  queued := by
    rw [hhanded, hqueued]
    exact h.queued
  cancelled := by
    rw [hhanded]
    exact hlog
  fifo := by
    rw [hqueued]
    exact fun before after id hq a ha hid => h.fifo before after id hq a ha (hids a id hid)

section Known

variable {s : TimerSystem} {m : Nat → Option Timer} {a : Nat}

/-- A new timer has a new identity. -/
theorem Known.newTimer (h : Known s) (hinv : Inv [] s m) (hfree : s.queue.heap a = none) (t : Timer)
    (ht : t.sequence_ = s.numCreated + 1) :
    Known { s with
      queue := s.queue.store a (some t)
      numCreated := s.numCreated + 1
      created := a :: s.created } := by
  have hne : ∀ b, (∃ u, s.queue.heap b = some u) → b ≠ a := by
    rintro b ⟨u, hu⟩ rfl
    exact absurd (hfree.symm.trans hu) (by simp)
  have hsame : ∀ b, b ≠ a → ((s.queue.store a (some t)).heap b).map
    (TimerQueue.idOf b) = s.idAt b :=
    fun b hb => by rw [TimerQueue.store_heap_of_ne _ hb]; rfl
  refine ⟨?_, ?_, h.queued, h.cancelled, ?_⟩
  · intro id hid
    have := h.handedOver_le id hid
    show id.sequence_ ≤ s.numCreated + 1
    omega
  · intro b hb id hid hhanded
    by_cases hba : b = a
    · subst hba
      obtain ⟨_, u, hu, rfl⟩ := idAt_timer hid
      rw [TimerQueue.store_heap_self] at hu
      obtain rfl : t = u := Option.some.inj hu
      have hle : t.sequence_ ≤ s.numCreated := h.handedOver_le _ hhanded
      omega
    · have hbc : b ∈ s.created := (List.mem_cons.mp hb).resolve_left hba
      exact h.fresh b hbc id ((hsame b hba).symm.trans hid) hhanded
  · intro before after id hq b hb hid
    have hlive : ∃ u, s.queue.heap b = some u := by
      refine (hinv.sound.outside b (List.mem_append_right [] ?_)).2
      have hqueued : b ∈ s.queuedTimers := by
        have hq' : s.queued = before ++ .cancelInLoop id :: after := hq
        rw [queuedTimers, hq', List.filterMap_append, List.filterMap_cons_none rfl]
        exact List.mem_append_right _ hb
      exact List.mem_append_right _ (List.mem_append_left _ hqueued)
    exact h.fifo before after id hq b hb ((hsame b (hne b hlive)).symm.trans hid)

/-- The identity of a timer that is handed over is a new one. -/
theorem Known.handOver (h : Known s) (hinv : Inv [] s m) (a : Nat) : Known (s.handOver a) := by
  have hmem : ∀ id, id ∈ (s.handOver a).handedOver ↔ s.idAt a = some id ∨ id ∈ s.handedOver := by
    intro id
    rw [TimerSystem.handOver, List.mem_append, Option.mem_toList]
  refine ⟨?_, ?_, ?_, ?_, h.fifo⟩
  · intro id hid
    rcases (hmem id).mp hid with hid | hid
    · obtain ⟨_, t, ht, rfl⟩ := idAt_timer hid
      exact hinv.sound.seq_le a t ht
    · exact h.handedOver_le id hid
  · intro b hb id hid hhanded
    have hout : s.outside.Nodup := hinv.sound.nodup
    have hnodup : s.created.Nodup :=
      (List.nodup_append'.mp (List.nodup_append'.mp hout).2.1).2.1
    obtain ⟨hba, hb⟩ := hnodup.mem_erase_iff.mp hb
    rcases (hmem id).mp hhanded with hida | hhanded
    · exact hba ((idAt_timer hid).1.symm.trans (idAt_timer hida).1)
    · exact h.fresh b hb id hid hhanded
  · exact fun id hid => (hmem id).mpr (.inr (h.queued id hid))
  · exact fun id hid => (hmem id).mpr (.inr (h.cancelled id hid))

/-- A front part of a longer queue. -/
theorem fifo_append {queued before after : List TimerFunctor} {f : TimerFunctor} {id : TimerId}
    (h : queued ++ [f] = before ++ .cancelInLoop id :: after) :
    f = .cancelInLoop id ∧ after = [] ∨
      ∃ after', after = after' ++ [f] ∧ queued = before ++ .cancelInLoop id :: after' := by
  rcases List.eq_nil_or_concat after with rfl | ⟨after', last, rfl⟩
  · have hlast := (List.append_inj' h rfl).2
    exact .inl ⟨by simpa using hlast, rfl⟩
  · rw [List.concat_eq_append, ← List.cons_append, ← List.append_assoc] at h
    obtain ⟨hqueued, hlast⟩ := List.append_inj' h rfl
    obtain rfl : f = last := by simpa using hlast
    exact .inr ⟨after', by rw [List.concat_eq_append], hqueued⟩

/-- The insertion of a timer that was not handed over yet may be queued behind anything. -/
theorem Known.queueAdd (h : Known s) (hinv : Inv [] s m) (ha : a ∈ s.created) :
    Known { s.handOver a with queued := s.queued ++ [.addTimerInLoop a] } := by
  have hover := h.handOver hinv a
  refine ⟨hover.handedOver_le, hover.fresh, ?_, hover.cancelled, ?_⟩
  · intro id hid
    have hid' : .cancelInLoop id ∈ s.queued := by simpa using hid
    exact hover.queued id hid'
  · intro before after id hq b hb hid
    rcases fifo_append hq with ⟨hf, _⟩ | ⟨after', rfl, hq'⟩
    · exact absurd hf (by simp)
    · rw [List.filterMap_append, List.mem_append] at hb
      rcases hb with hb | hb
      · exact h.fifo before after' id hq' b hb hid
      · obtain rfl : b = a := by simpa [TimerFunctor.adds] using hb
        exact h.fresh b ha id hid (h.queued id (by rw [hq']; simp))

theorem Known.queueCancel (h : Known s) {id : TimerId} (hid : id ∈ s.handedOver) :
    Known { s with queued := s.queued ++ [.cancelInLoop id] } := by
  refine ⟨h.handedOver_le, h.fresh, ?_, h.cancelled, ?_⟩
  · intro i hi
    rcases List.mem_append.mp hi with hi | hi
    · exact h.queued i hi
    · obtain rfl : i = id := by simpa using hi
      exact hid
  · intro before after i hq b hb
    rcases fifo_append hq with ⟨_, rfl⟩ | ⟨after', rfl, hq'⟩
    · exact absurd hb List.not_mem_nil
    · rw [List.filterMap_append, List.mem_append] at hb
      rcases hb with hb | hb
      · exact h.fifo before after' i hq' b hb
      · exact absurd hb (by simp [TimerFunctor.adds])

/-- The front of the queue is taken off. -/
theorem Known.take (h : Known s) {f : TimerFunctor} {queued : List TimerFunctor}
    (hqueued : s.queued = f :: queued) : Known { s with queued := queued } where
  handedOver_le := h.handedOver_le
  fresh := h.fresh
  queued id hid := h.queued id (by rw [hqueued]; exact List.mem_cons_of_mem f hid)
  cancelled := h.cancelled
  fifo before after id hq := h.fifo (f :: before) after id (by
    have hq' : queued = before ++ .cancelInLoop id :: after := hq
    rw [hqueued, hq', List.cons_append])

end Known

/-! ## Cancelled timers -/

/-- A cancelled timer that is still alive has had its turn in the current batch, and
`reset` will delete it. -/
def Doomed (s : TimerSystem) (id : TimerId) : Prop :=
  ∃ b ∈ s.batch, id.timer_ ∈ b.expired.map Entry.timer ∧ id.timer_ ∉ b.todo.map Entry.timer ∧
    id ∈ s.queue.cancelingTimers_

/-- The timers for which `cancelInLoop` was executed are dead or doomed. -/
def Gone (s : TimerSystem) : Prop :=
  ∀ id, .cancelled id ∈ s.log → s.idAt id.timer_ = some id → s.Doomed id

/-- What `cancelled_never_starts` is proved from. -/
structure CancelInv (s : TimerSystem) (m : Nat → Option Timer) : Prop where
  inv : Inv [] s m
  known : Known s
  gone : Gone s
  never : NeverStartsCancelled s.log

theorem cancelInv_start : CancelInv start fun _ => none :=
  ⟨inv_start, known_start, fun _ h => absurd h List.not_mem_nil,
    fun before after id h => absurd h (by simp [start])⟩

section Gone

variable {s : TimerSystem} {m : Nat → Option Timer} {a : Nat}

/-- A timer that is alive, not scheduled, and neither new nor awaiting its insertion
nor its turn is one whose callback was started in the current batch. -/
theorem CancelInv.doomed_of_not_scheduled (h : CancelInv s m) {id : TimerId}
    (hhanded : id ∈ s.handedOver) (hactive : id ∉ s.queue.activeTimers_)
    (hqueued : ¬ s.AwaitsInsertion id)
    (htodo : ¬ s.StillToRun id) (halive : s.idAt id.timer_ = some id) :
    ∃ b ∈ s.batch, id.timer_ ∈ b.expired.map Entry.timer ∧ id.timer_ ∉ b.todo.map Entry.timer := by
  obtain ⟨_, t, ht, hid⟩ := idAt_timer halive
  have hout : id.timer_ ∈ s.outside := by
    refine (h.inv.sound.owned id.timer_ t ht).resolve_left fun hm => hactive ?_
    rw [← hid]
    exact h.inv.sound.indexes.active.mem hm
  rcases List.mem_append.mp hout with hexpired | hout
  · rcases hbatch : s.batch with _ | b
    · simp [expiredTimers, hbatch] at hexpired
    · refine ⟨b, rfl, by simpa [expiredTimers, hbatch] using hexpired, ?_⟩
      intro hmem
      obtain ⟨e, he, hte⟩ := List.mem_map.mp hmem
      refine htodo (List.mem_map.mpr ⟨e, ?_, by rw [hte, halive]⟩)
      rw [hbatch]
      exact he
  · rcases List.mem_append.mp hout with hin | hcreated
    · exact absurd (List.mem_map.mpr ⟨_, hin, halive⟩) hqueued
    · exact absurd hhanded (h.known.fresh _ hcreated id halive)

/-- `cancelInLoop` of a timer that does not await its insertion, nor its turn. -/
theorem cancelInv_cancelInLoop (h : CancelInv s m) {id : TimerId} (hhanded : id ∈ s.handedOver)
    (hqueued : ¬ s.AwaitsInsertion id) (htodo : ¬ s.StillToRun id) :
    ∃ s' m', s.cancelInLoop id = .ok s' ∧ CancelInv s' m' := by
  have hlog : ∀ i, .cancelled i ∈ s.log ++ [.cancelled id] → i ∈ s.handedOver := by
    intro i hi
    rcases List.mem_append.mp hi with hi | hi
    · exact h.known.cancelled i hi
    · obtain rfl : i = id := by simpa using hi
      exact hhanded
  have hnever : NeverStartsCancelled (s.log ++ [.cancelled id]) :=
    neverStartsCancelled_append h.never (by simp)
  by_cases hactive : id ∈ s.queue.activeTimers_
  · obtain ⟨a, t, ha, rfl⟩ := (h.inv.sound.indexes.active id).mp hactive
    obtain ⟨hrun, hinv⟩ := inv_cancel_scheduled h.inv ha
    have hids : ∀ b i, (((s.queue.unschedule a t).store a none).heap b).map (TimerQueue.idOf b) =
        some i → b ≠ a ∧ s.idAt b = some i := by
      intro b i hi
      obtain ⟨u, hu, rfl⟩ := Option.map_eq_some_iff.mp hi
      obtain ⟨hba, hu⟩ := TimerQueue.store_none_heap.mp hu
      exact ⟨hba, Option.map_eq_some_iff.mpr ⟨u, hu, rfl⟩⟩
    refine ⟨_, _, hrun, hinv,
      h.known.mono (fun b i hi => (hids b i hi).2) rfl rfl rfl rfl hlog, ?_, hnever⟩
    intro i hi halive
    obtain ⟨hia, halive⟩ := hids i.timer_ i halive
    rcases List.mem_append.mp hi with hi | hi
    · exact h.gone i hi halive
    · obtain rfl : i = TimerQueue.idOf a t := by simpa using hi
      exact absurd rfl hia
  · obtain ⟨hrun, hinv⟩ := inv_cancel_other h.inv hactive
    refine ⟨_, _, hrun, hinv, h.known.mono (fun _ _ hi => hi) rfl rfl rfl rfl hlog, ?_, hnever⟩
    intro i hi halive
    rcases List.mem_append.mp hi with hi | hi
    · obtain ⟨b, hb, hexpired, hdone, hcanceling⟩ := h.gone i hi halive
      refine ⟨b, hb, hexpired, hdone, ?_⟩
      show i ∈ s.queue.noted id
      unfold TimerQueue.noted
      split
      · exact SortedSet.mem_insert.mpr (.inr hcanceling)
      · exact hcanceling
    · obtain rfl : i = id := by simpa using hi
      obtain ⟨b, hb, hexpired, hdone⟩ :=
        h.doomed_of_not_scheduled hhanded hactive hqueued htodo halive
      refine ⟨b, hb, hexpired, hdone, ?_⟩
      have hcalling : s.queue.callingExpiredTimers_ = true := by
        rw [h.inv.calling, Option.mem_def.mp hb]
        rfl
      show i ∈ s.queue.noted i
      rw [TimerQueue.noted, if_pos hcalling]
      exact SortedSet.mem_insert.mpr (.inl rfl)

/-- A new timer is none that was cancelled. -/
theorem cancelInv_newTimer (h : CancelInv s m) (hfree : s.queue.heap a = none)
    (haddr : a < UINTPTR_MAX) (when : Timestamp) (interval : Nat) (repeats : Bool) :
    CancelInv { s with
      queue := s.queue.store a (some ⟨when, interval, repeats, s.numCreated + 1⟩)
      numCreated := s.numCreated + 1
      created := a :: s.created } m := by
  refine ⟨inv_newTimer h.inv hfree haddr when interval repeats, h.known.newTimer h.inv hfree _ rfl,
    ?_, h.never⟩
  intro id hid halive
  by_cases hia : id.timer_ = a
  · -- its number is larger than that of any cancelled one
    have hle := h.known.handedOver_le id (h.known.cancelled id hid)
    obtain ⟨_, t, ht, hidt⟩ := idAt_timer halive
    rw [hia, TimerQueue.store_heap_self] at ht
    have hseq : id.sequence_ = s.numCreated + 1 := by
      rw [← hidt, ← Option.some.inj ht]
      rfl
    omega
  · refine h.gone id hid ?_
    rwa [idAt, TimerQueue.store_heap_of_ne _ hia] at halive

/-- The queue is first in, first out: when a queued cancellation is executed, the
insertion of its timer has been executed before. -/
theorem cancelInv_takeCancel (h : CancelInv s m) (hbatch : s.batch = none) {id : TimerId}
    {queued : List TimerFunctor} (hqueued : s.queued = .cancelInLoop id :: queued) :
    ∃ s' m', { s with queued := queued }.cancelInLoop id = .ok s' ∧ CancelInv s' m' := by
  have h₁ : CancelInv { s with queued := queued } m :=
    ⟨inv_takeCancel h.inv hqueued, h.known.take hqueued, h.gone, h.never⟩
  have hhanded : id ∈ s.handedOver := h.known.queued id (by rw [hqueued]; exact List.mem_cons_self)
  have hnot : ¬ ({ s with queued := queued } : TimerSystem).AwaitsInsertion id := by
    intro hawaits
    obtain ⟨a, ha, hid⟩ := List.mem_map.mp hawaits
    exact h.known.fifo [] queued id hqueued a ha hid
  have htodo : ¬ ({ s with queued := queued } : TimerSystem).StillToRun id := by
    simp [StillToRun, hbatch]
  exact cancelInv_cancelInLoop h₁ hhanded hnot htodo

/-- `addTimerInLoop` of a timer that is on its way brings none to life. -/
theorem cancelInv_addInLoop (hinv : Inv [a] s m) (hknown : Known s) (hgone : Gone s)
    (hnever : NeverStartsCancelled s.log) (now : Timestamp) :
    ∃ s' m', s.addInLoop a now = .ok s' ∧ CancelInv s' m' := by
  obtain ⟨t, ht⟩ := hinv.held_live
  obtain ⟨hrun, hinv'⟩ := inv_addInLoop hinv ht now
  obtain ⟨fd, hfd⟩ := TimerQueue.added_eq s.queue a t now
  rw [hfd] at hrun hinv'
  exact ⟨_, _, hrun, hinv', hknown.mono (fun _ _ hi => hi) rfl rfl rfl rfl hknown.cancelled, hgone,
    hnever⟩

theorem cancelInv_handleRead (h : CancelInv s m) (hbatch : s.batch = none) (now : Timestamp)
    (fired : Bool) : ∃ s' m', s.step (.handleRead now fired) = .ok s' ∧ CancelInv s' m' := by
  obtain ⟨expired, timers, active, fd, hrun, hinv, _⟩ := inv_handleRead h.inv hbatch now fired
  refine ⟨_, _, hrun, hinv, h.known.mono (fun _ _ hi => hi) rfl rfl rfl rfl h.known.cancelled, ?_,
    h.never⟩
  -- outside `handleRead` every cancelled timer is dead
  intro id hid halive
  obtain ⟨b, hb, _⟩ := h.gone id hid halive
  exact absurd (hbatch.symm.trans hb) (by simp)

theorem cancelInv_runNext (h : CancelInv s m) {expired todo : List Entry} {e : Entry}
    {now : Timestamp} (hbatch : s.batch = some ⟨expired, e :: todo, now⟩) :
    ∃ s' m', s.step .runNext = .ok s' ∧ CancelInv s' m' := by
  obtain ⟨t, ht, hrun, hinv⟩ := inv_runNext h.inv hbatch
  have hlog : ∀ id, .cancelled id ∈ s.log ++ [.started (TimerQueue.idOf e.timer t)] →
      .cancelled id ∈ s.log := by
    intro id hid
    simpa using hid
  refine ⟨_, _, hrun, hinv, h.known.mono (fun _ _ hi => hi) rfl rfl rfl rfl
    (fun id hid => h.known.cancelled id (hlog id hid)), ?_, ?_⟩
  · intro id hid halive
    obtain ⟨b, hb, hexpired, hdone, hcanceling⟩ := h.gone id (hlog id hid) halive
    obtain rfl := Option.some.inj (hbatch.symm.trans hb)
    refine ⟨_, rfl, hexpired, fun hmem => hdone ?_, hcanceling⟩
    exact List.mem_cons_of_mem _ hmem
  · refine neverStartsCancelled_append h.never ?_
    -- a cancelled timer of the batch has had its turn
    rintro id heq hcancelled
    obtain rfl : TimerQueue.idOf e.timer t = id := by simpa using heq
    have halive : s.idAt e.timer = some (TimerQueue.idOf e.timer t) := by
      simp [idAt, ht]
    obtain ⟨b, hb, _, hdone, _⟩ := h.gone _ hcancelled halive
    obtain rfl := Option.some.inj (hbatch.symm.trans hb)
    exact hdone List.mem_cons_self

theorem cancelInv_finishRead (h : CancelInv s m) {b : Batch} (hbatch : s.batch = some b)
    (clock : Timestamp) : ∃ s' m', s.step (.finishRead clock) = .ok s' ∧ CancelInv s' m' := by
  obtain ⟨heap, timers, active, m', hrun, hinv, hresets⟩ := inv_finishRead h.inv hbatch clock
  -- no timer comes to life, and a cancelled timer of the batch dies
  have hold : ∀ a id, (heap a).map (TimerQueue.idOf a) = some id →
      s.idAt a = some id ∧ (a ∈ b.expired.map Entry.timer → id ∉ s.queue.cancelingTimers_) := by
    intro a id hid
    obtain ⟨t', ht', rfl⟩ := Option.map_eq_some_iff.mp hid
    rcases hresets.survivor ht' with ⟨hmem, ht⟩ | ⟨_, t, ht, _, hcanceling, rfl⟩
    · exact ⟨by simp [idAt, ht], fun h => absurd h hmem⟩
    · have hsame : TimerQueue.idOf a (t.restart b.now) = TimerQueue.idOf a t := by
        rw [TimerQueue.idOf, TimerQueue.restart_sequence, TimerQueue.idOf]
      rw [hsame]
      exact ⟨by simp [idAt, ht], fun _ => hcanceling⟩
  refine ⟨_, m', hrun, hinv, h.known.mono (fun a id hid => (hold a id hid).1) rfl rfl rfl rfl
    h.known.cancelled, ?_, h.never⟩
  intro id hid halive
  obtain ⟨halive, hcanceling⟩ := hold id.timer_ id halive
  obtain ⟨b', hb', hexpired, _, hmem⟩ := h.gone id hid halive
  obtain rfl := Option.some.inj (hbatch.symm.trans hb')
  exact absurd hmem (hcanceling hexpired)

end Gone

/-- Every timely step succeeds and keeps the invariant. -/
theorem cancelInv_step {s : TimerSystem} {m : Nat → Option Timer} (h : CancelInv s m)
    {action : Action} (hlegal : s.Legal action) (hhanded : s.CancelsHandedOver action)
    (htimely : s.Timely action) : ∃ s' m', s.step action = .ok s' ∧ CancelInv s' m' := by
  cases action with
  | newTimer timer when interval repeats =>
      exact ⟨_, m, rfl, cancelInv_newTimer h hlegal.1 hlegal.2.1 when interval repeats⟩
  | queueAdd timer =>
      exact ⟨_, m, rfl, inv_queueAdd (inv_handOver h.inv hlegal), h.known.queueAdd h.inv hlegal,
        h.gone, h.never⟩
  | addNow timer now =>
      exact cancelInv_addInLoop (inv_handOver h.inv hlegal) (h.known.handOver h.inv timer) h.gone
        h.never now
  | queueCancel id =>
      exact ⟨_, m, rfl, inv_queueCancel h.inv id, h.known.queueCancel hhanded, h.gone, h.never⟩
  | cancelNow id => exact cancelInv_cancelInLoop h hhanded htimely.1 htimely.2
  | runFunctor now =>
      rcases hlegal.runFunctor with ⟨a, queued, hqueued, hstep⟩ | ⟨id, queued, hqueued, hstep⟩
      · rw [hstep]
        exact cancelInv_addInLoop (inv_takeAdd h.inv hqueued)
          (h.known.take hqueued) h.gone h.never now
      · rw [hstep]
        exact cancelInv_takeCancel h hlegal.1 hqueued
  | handleRead now fired => exact cancelInv_handleRead h hlegal now fired
  | runNext =>
      obtain ⟨expired, e, todo, now, hbatch⟩ := hlegal.runNext
      exact cancelInv_runNext h hbatch
  | finishRead clock =>
      obtain ⟨b, hbatch⟩ := hlegal.finishRead
      exact cancelInv_finishRead h hbatch clock

end Muduo.Net.TimerSystem

namespace Muduo.Net

open Muduo.Foundation Muduo.Base

/-! ## What `addTimer` returns -/

/-- The queue and the threads that call `addTimer` and `cancel`. -/
structure TimerCallers where
  system : TimerSystem
  /-- the timers of the `addTimer` calls of other threads that have queued their pointer and
  have not read its number yet -/
  returning : List TimerId
  /-- what `addTimer` has returned -/
  issued : List TimerId

namespace TimerCallers

/-- A new queue. -/
def start : TimerCallers := ⟨.start, [], []⟩

/-- A step of some thread. -/
inductive Action where
  | ofSystem (action : TimerSystem.Action)
  /-- `addTimer` in another thread reads `timer->sequence()` and returns; `id` is the timer
  that it has created, of which it only has the address -/
  | returnId (id : TimerId)
  deriving DecidableEq, Repr

/-- The timer that a step queues for the loop. -/
def queues (s : TimerSystem) : TimerSystem.Action → List TimerId
  | .queueAdd timer => (s.idAt timer).toList
  | _ => []

/-- The timer that `addTimer` in the loop thread inserts, and returns in the same step: no
other step of the loop comes between. -/
def inserts (s : TimerSystem) : TimerSystem.Action → List TimerId
  | .addNow timer _ => (s.idAt timer).toList
  | _ => []

/-- What a step does. -/
def step (s : TimerCallers) : Action → Exec TimerCallers
  | .ofSystem action => do
      let system ← s.system.step action
      .ok ⟨system, queues s.system action ++ s.returning, inserts s.system action ++ s.issued⟩
  | .returnId id => do
      let t ← s.system.queue.deref id.timer_
      .ok { s with
        returning := s.returning.erase id
        issued := TimerQueue.idOf id.timer_ t :: s.issued }

/-- A timer is cancelled only after `addTimer` has returned it. -/
def IssuedOnly (s : TimerCallers) : TimerSystem.Action → Prop
  | .queueCancel id => id ∈ s.issued
  | .cancelNow id => id ∈ s.issued
  | _ => True

/-- What the threads may do. -/
def Legal (s : TimerCallers) : Action → Prop
  | .ofSystem action => s.system.Legal action ∧ s.IssuedOnly action
  | .returnId id => id ∈ s.returning

/-- The interleavings of the loop thread and the others. -/
def machine : Machine TimerCallers Action := ⟨step, Legal⟩

/-- The cancellations of the loop thread are timely, and `addTimer` reads the number of its
timer while that timer is alive. -/
def Timely (s : TimerCallers) : Action → Prop
  | .ofSystem action => s.system.Timely action
  | .returnId id => s.system.idAt id.timer_ = some id

/-- What is handed over stays so; a step adds the timer that it queues or inserts. -/
theorem handedOver_of_step {s s' : TimerSystem} {action : TimerSystem.Action}
    (h : s.step action = .ok s') :
    s'.handedOver = queues s action ++ inserts s action ++ s.handedOver := by
  have hadd : ∀ {r r' : TimerSystem} {timer : Nat} {now : Timestamp},
      r.addInLoop timer now = .ok r' → r'.handedOver = r.handedOver := by
    intro r r' timer now hr
    obtain ⟨queue, _, hr⟩ := bind_eq_ok_iff.mp hr
    rw [← Except.ok.inj hr]
  have hcancel : ∀ {r r' : TimerSystem} {id : TimerId},
      r.cancelInLoop id = .ok r' → r'.handedOver = r.handedOver := by
    intro r r' id hr
    obtain ⟨queue, _, hr⟩ := bind_eq_ok_iff.mp hr
    rw [← Except.ok.inj hr]
  cases action with
  | newTimer timer when interval repeats => rw [← Except.ok.inj h]; rfl
  | queueAdd timer =>
      rw [← Except.ok.inj h]
      simp [queues, inserts, TimerSystem.handOver]
  | addNow timer now => rw [hadd h]; rfl
  | queueCancel id => rw [← Except.ok.inj h]; rfl
  | cancelNow id => rw [hcancel h]; rfl
  | runFunctor now =>
      simp only [TimerSystem.step] at h
      split at h
      · rw [← Except.ok.inj h]; rfl
      · rw [hadd h]; rfl
      · rw [hcancel h]; rfl
  | handleRead now fired =>
      obtain ⟨_, _, h⟩ := bind_eq_ok_iff.mp h
      rw [← Except.ok.inj h]; rfl
  | runNext =>
      simp only [TimerSystem.step] at h
      split at h
      · obtain ⟨_, _, h⟩ := bind_eq_ok_iff.mp h
        rw [← Except.ok.inj h]; rfl
      · rw [← Except.ok.inj h]; rfl
  | finishRead clock =>
      simp only [TimerSystem.step] at h
      split at h
      · obtain ⟨_, _, h⟩ := bind_eq_ok_iff.mp h
        rw [← Except.ok.inj h]; rfl
      · rw [← Except.ok.inj h]; rfl

/-- The callers only know timers that were handed over. -/
structure Inv (s : TimerCallers) (m : Nat → Option Timer) : Prop where
  cancel : s.system.CancelInv m
  returning : ∀ id ∈ s.returning, id ∈ s.system.handedOver
  issued : ∀ id ∈ s.issued, id ∈ s.system.handedOver

theorem IssuedOnly.cancelsHandedOver {s : TimerCallers} {m : Nat → Option Timer} (h : Inv s m)
    {action : TimerSystem.Action} (hissued : s.IssuedOnly action) :
    s.system.CancelsHandedOver action := by
  cases action with
  | queueCancel id => exact h.issued id hissued
  | cancelNow id => exact h.issued id hissued
  | newTimer | queueAdd | addNow | runFunctor | handleRead | runNext | finishRead => exact trivial

/-- Every timely step succeeds and keeps the invariant. -/
theorem inv_step {s : TimerCallers} {m : Nat → Option Timer} (h : Inv s m) {action : Action}
    (hlegal : s.Legal action) (htimely : s.Timely action) :
    ∃ s' m', s.step action = .ok s' ∧ Inv s' m' := by
  cases action with
  | ofSystem action =>
      obtain ⟨system, m', hstep, hcancel⟩ :=
        TimerSystem.cancelInv_step h.cancel hlegal.1 (hlegal.2.cancelsHandedOver h) htimely
      have hhanded := handedOver_of_step hstep
      refine ⟨_, m', by rw [step, hstep, ok_bind], hcancel, fun id hid => ?_, fun id hid => ?_⟩
      · rw [hhanded]
        rcases List.mem_append.mp hid with hid | hid
        · exact List.mem_append_left _ (List.mem_append_left _ hid)
        · exact List.mem_append_right _ (h.returning id hid)
      · rw [hhanded]
        rcases List.mem_append.mp hid with hid | hid
        · exact List.mem_append_left _ (List.mem_append_right _ hid)
        · exact List.mem_append_right _ (h.issued id hid)
  | returnId id =>
      -- the number that is read is that of the timer itself
      obtain ⟨_, t, ht, hid⟩ := TimerSystem.idAt_timer htimely
      have hstep : s.step (.returnId id) =
          .ok { s with returning := s.returning.erase id, issued := id :: s.issued } := by
        rw [step, TimerQueue.deref_of ht, ok_bind, hid]
      refine ⟨_, m, hstep, h.cancel, fun i hi => ?_, fun i hi => ?_⟩
      · exact h.returning i (List.mem_of_mem_erase hi)
      · rcases List.mem_cons.mp hi with rfl | hi
        · exact h.returning i hlegal
        · exact h.issued i hi

/-! ## Runs -/

/-- In every run in which the loop thread cancels no timer whose insertion is still queued,
and none of the current batch whose turn is still to come, and in which `addTimer` reads the
number of its timer before the loop has deleted it, no callback is started after
`cancelInLoop` of its timer. -/
theorem cancelled_never_starts {actions : List Action}
    (h : (machine.restrict Timely).LegalRun start actions) :
    ∃ s, machine.run start actions = .ok s ∧
      TimerSystem.NeverStartsCancelled s.system.log := by
  have hstart : Inv start fun _ => none :=
    ⟨TimerSystem.cancelInv_start, fun _ h => absurd h List.not_mem_nil,
      fun _ h => absurd h List.not_mem_nil⟩
  obtain ⟨s, hrun, m, hinv⟩ := Machine.run_invariant (fun s => ∃ m, Inv s m)
    (by
      rintro s action ⟨m, h⟩ ⟨hlegal, htimely⟩
      obtain ⟨s', m', hstep, h'⟩ := inv_step h hlegal htimely
      exact ⟨s', hstep, m', h'⟩)
    ⟨_, hstart⟩ h
  rw [Machine.run_restrict] at hrun
  exact ⟨s, hrun, hinv.cancel.never⟩

instance (s : TimerCallers) (a : TimerSystem.Action) : Decidable (s.IssuedOnly a) :=
  match a with
  | .queueCancel id => inferInstanceAs (Decidable (id ∈ s.issued))
  | .cancelNow id => inferInstanceAs (Decidable (id ∈ s.issued))
  | .newTimer _ _ _ _ | .queueAdd _ | .addNow _ _ | .runFunctor _ | .handleRead _ _ | .runNext
  | .finishRead _ => inferInstanceAs (Decidable True)

instance (s : TimerSystem) (a : TimerSystem.Action) : Decidable (s.Timely a) :=
  match a with
  | .cancelNow id =>
      inferInstanceAs (Decidable (¬ some id ∈ s.queuedTimers.map s.idAt ∧
        ¬ some id ∈ (s.batch.elim [] Batch.todo).map fun e => s.idAt e.timer))
  | .newTimer _ _ _ _ | .queueAdd _ | .addNow _ _ | .queueCancel _ | .runFunctor _ | .handleRead _ _
  | .runNext | .finishRead _ => inferInstanceAs (Decidable True)

instance (s : TimerCallers) (a : Action) : Decidable (machine.legal s a) :=
  match a with
  | .ofSystem action => inferInstanceAs (Decidable (s.system.Legal action ∧ s.IssuedOnly action))
  | .returnId id => inferInstanceAs (Decidable (id ∈ s.returning))

instance (s : TimerCallers) (a : Action) : Decidable (s.Timely a) :=
  match a with
  | .ofSystem action => inferInstanceAs (Decidable (s.system.Timely action))
  | .returnId id => inferInstanceAs (Decidable (s.system.idAt id.timer_ = some id))

instance (s : TimerCallers) (a : Action) : Decidable ((machine.restrict Timely).legal s a) :=
  inferInstanceAs (Decidable (machine.legal s a ∧ s.Timely a))

/-- A repeating timer that cancels itself, and one that another thread adds and cancels
before it is due. -/
def timelyRun : List Action :=
  [.ofSystem (.newTimer 8 ⟨5⟩ 3 true), .ofSystem (.addNow 8 ⟨1⟩),
    .ofSystem (.newTimer 16 ⟨40⟩ 0 false), .ofSystem (.queueAdd 16), .returnId ⟨16, 2⟩,
    .ofSystem (.queueCancel ⟨16, 2⟩), .ofSystem (.handleRead ⟨10⟩ true), .ofSystem .runNext,
    .ofSystem (.cancelNow ⟨8, 1⟩), .ofSystem (.finishRead ⟨12⟩), .ofSystem (.runFunctor ⟨13⟩),
    .ofSystem (.runFunctor ⟨14⟩), .ofSystem (.handleRead ⟨50⟩ false), .ofSystem (.finishRead ⟨51⟩)]

theorem cancelled_never_starts_timelyRun :
    (machine.restrict Timely).LegalRun start timelyRun ∧
      ∃ s, machine.run start timelyRun = .ok s ∧
        TimerSystem.NeverStartsCancelled s.system.log := by
  have hlegal : (machine.restrict Timely).LegalRun start timelyRun := by decide +kernel
  exact ⟨hlegal, cancelled_never_starts hlegal⟩

/-! ## Cancelled timers that fire -/

/-- A log with a callback that is started after its timer was cancelled. -/
theorem not_neverStartsCancelled {before after : List TimerEvent} {id : TimerId}
    (h : .cancelled id ∈ before) :
    ¬ TimerSystem.NeverStartsCancelled (before ++ .started id :: after) :=
  fun hnever => hnever before after id rfl h

/-- The loop thread cancels timer 1, whose insertion another thread has queued, and
the callback of timer 2 cancels timer 3, which has expired with it. -/
def untimelyRun : List Action :=
  [.ofSystem (.newTimer 24 ⟨40⟩ 0 false), .ofSystem (.queueAdd 24), .returnId ⟨24, 1⟩,
    .ofSystem (.newTimer 8 ⟨5⟩ 0 false), .ofSystem (.addNow 8 ⟨1⟩),
    .ofSystem (.newTimer 16 ⟨6⟩ 0 false), .ofSystem (.addNow 16 ⟨1⟩),
      .ofSystem (.cancelNow ⟨24, 1⟩),
    .ofSystem (.handleRead ⟨10⟩ true), .ofSystem .runNext, .ofSystem (.cancelNow ⟨16, 3⟩),
    .ofSystem .runNext, .ofSystem (.finishRead ⟨12⟩), .ofSystem (.runFunctor ⟨13⟩),
    .ofSystem (.handleRead ⟨50⟩ true), .ofSystem .runNext]

/-- Both callbacks are started afterwards. -/
theorem cancelled_timer_fires :
    machine.LegalRun start untimelyRun ∧
      ∃ s, machine.run start untimelyRun = .ok s ∧
        s.system.log = [.cancelled ⟨24, 1⟩, .started ⟨8, 2⟩, .cancelled ⟨16, 3⟩, .started ⟨16, 3⟩,
          .started ⟨24, 1⟩] ∧
        ¬ TimerSystem.NeverStartsCancelled s.system.log := by
  have hlegal : machine.LegalRun start untimelyRun := by decide +kernel
  obtain ⟨s, hrun, hlog⟩ := machine.exists_of_endsWith start untimelyRun
    (fun s => s.system.log = [.cancelled ⟨24, 1⟩, .started ⟨8, 2⟩, .cancelled ⟨16, 3⟩,
      .started ⟨16, 3⟩, .started ⟨24, 1⟩]) (by decide +kernel)
  have hlog' := of_decide_eq_true hlog
  refine ⟨hlegal, s, hrun, hlog', ?_⟩
  rw [hlog']
  exact @not_neverStartsCancelled [.cancelled ⟨24, 1⟩, .started ⟨8, 2⟩, .cancelled ⟨16, 3⟩]
    [.started ⟨24, 1⟩] ⟨16, 3⟩ (by simp)

/-- Another thread adds timer 1, which fires and is deleted before that thread reads its
number; its address is then that of timer 2, which a third thread is about to queue.  The
first thread cancels what `addTimer` has returned to it. -/
def lateRun : List Action :=
  [.ofSystem (.newTimer 8 ⟨5⟩ 0 false), .ofSystem (.queueAdd 8), .ofSystem (.runFunctor ⟨1⟩),
    .ofSystem (.handleRead ⟨10⟩ true), .ofSystem .runNext, .ofSystem (.finishRead ⟨12⟩),
    .ofSystem (.newTimer 8 ⟨40⟩ 0 false), .returnId ⟨8, 1⟩, .ofSystem (.queueCancel ⟨8, 2⟩),
    .ofSystem (.queueAdd 8), .returnId ⟨8, 2⟩, .ofSystem (.runFunctor ⟨13⟩),
    .ofSystem (.runFunctor ⟨14⟩), .ofSystem (.handleRead ⟨50⟩ true), .ofSystem .runNext]

/-- Timer 2 is cancelled before it is inserted, and fires. -/
theorem late_number_is_another_timers :
    machine.LegalRun start lateRun ∧
      ∃ s, machine.run start lateRun = .ok s ∧
        s.system.log = [.started ⟨8, 1⟩, .cancelled ⟨8, 2⟩, .started ⟨8, 2⟩] ∧
        ¬ TimerSystem.NeverStartsCancelled s.system.log := by
  have hlegal : machine.LegalRun start lateRun := by decide +kernel
  obtain ⟨s, hrun, hlog⟩ := machine.exists_of_endsWith start lateRun
    (fun s => s.system.log = [.started ⟨8, 1⟩, .cancelled ⟨8, 2⟩, .started ⟨8, 2⟩])
    (by decide +kernel)
  have hlog' := of_decide_eq_true hlog
  refine ⟨hlegal, s, hrun, hlog', ?_⟩
  rw [hlog']
  exact @not_neverStartsCancelled [.started ⟨8, 1⟩, .cancelled ⟨8, 2⟩] [] ⟨8, 2⟩ (by simp)

end TimerCallers

end Muduo.Net
