/-
  Net/TimerFiring.lean --- which callbacks `handleRead` runs, and when.

  `getExpired` returns the timers that are due, in order, and takes them out of both
  sets.  Over whole runs a one-shot timer fires at most once, not before its time, and
  `reset` schedules again what repeats and was not cancelled in the meantime.

  For that the system is run with a record: the timers as `new Timer` left them, the
  callbacks that were started, and where in the log the last `handleRead` began.
-/
import Muduo.Net.TimerRuns

set_option autoImplicit false

namespace Muduo.Net

open Muduo.Foundation Muduo.Base

/-! ## `getExpired` -/

namespace TimerQueue

/-- What `getExpired(now)` returns and leaves, when `m` has the scheduled timers. -/
structure TakesDue (q : TimerQueue) (m : Nat → Option Timer) (now : Timestamp)
    (expired : List Entry) (q' : TimerQueue) : Prop where
  sorted : expired.Pairwise (· < ·)
  due : ∀ e, e ∈ expired ↔ ∃ a t, m a = some t ∧ t.expiration_ ≤ now ∧ e = ⟨t.expiration_, a⟩
  timers : ∀ e, e ∈ q'.timers_ ↔ e ∈ q.timers_ ∧ e ∉ expired
  active : ∀ id, id ∈ q'.activeTimers_ ↔ id ∈ q.activeTimers_ ∧ id.timer_ ∉ expired.map Entry.timer

section GetExpired

variable {q q' : TimerQueue} {m : Nat → Option Timer} {now : Timestamp} {expired : List Entry}

theorem getExpired_fst (h : q.getExpired now = .ok (expired, q')) :
    expired = (q.timers_.below ⟨now, UINTPTR_MAX⟩).elems := by
  unfold getExpired at h
  obtain ⟨_, _, h⟩ := bind_eq_ok_iff.mp h
  obtain ⟨_, _, h⟩ := bind_eq_ok_iff.mp h
  obtain ⟨_, _, h⟩ := bind_eq_ok_iff.mp h
  obtain ⟨_, _, h⟩ := bind_eq_ok_iff.mp h
  exact (congrArg Prod.fst (Except.ok.inj h)).symm

/-- The entries before the sentry are those of the timers that are due. -/
theorem Indexes.mem_below_iff (h : Indexes q m) (haddr : ∀ a t, m a = some t → a < UINTPTR_MAX)
    {e : Entry} : e ∈ q.timers_.below ⟨now, UINTPTR_MAX⟩ ↔
      ∃ a t, m a = some t ∧ t.expiration_ ≤ now ∧ e = ⟨t.expiration_, a⟩ := by
  rw [SortedSet.mem_below]
  constructor
  · rintro ⟨hmem, hlt⟩
    have hle := (h.lt_sentry_iff haddr hmem).mp hlt
    obtain ⟨a, t, ha, rfl⟩ := (h.timers e).mp hmem
    exact ⟨a, t, ha, hle, rfl⟩
  · rintro ⟨a, t, ha, hle, rfl⟩
    have hmem : entryOf a t ∈ q.timers_ := h.timers.mem ha
    exact ⟨hmem, (h.lt_sentry_iff haddr hmem).mpr hle⟩

theorem getExpired_takesDue (h : Indexes q m) (haddr : ∀ a t, m a = some t → a < UINTPTR_MAX)
    (now : Timestamp) :
    ∃ expired q', q.getExpired now = .ok (expired, q') ∧ TakesDue q m now expired q' := by
  obtain ⟨expired, timers, active, hrun, hindexes, _, _⟩ := getExpired_spec h haddr now
  have hexpired := getExpired_fst hrun
  have hmem : ∀ e, e ∈ expired ↔
      ∃ a t, m a = some t ∧ t.expiration_ ≤ now ∧ e = ⟨t.expiration_, a⟩ := by
    intro e
    rw [hexpired]
    exact h.mem_below_iff haddr
  refine ⟨expired, _, hrun, ?_, hmem, fun e => ?_, fun id => ?_⟩
  · rw [hexpired]
    exact (q.timers_.below ⟨now, UINTPTR_MAX⟩).sorted
  · rw [hindexes.timers e, h.timers e]
    constructor
    · rintro ⟨a, t, ha, rfl⟩
      obtain ⟨hnot, ha⟩ := without_eq_some.mp ha
      exact ⟨⟨a, t, ha, rfl⟩, fun he => hnot (List.mem_map_of_mem he)⟩
    · rintro ⟨⟨a, t, ha, rfl⟩, hnot⟩
      refine ⟨a, t, without_eq_some.mpr ⟨fun hin => ?_, ha⟩, rfl⟩
      -- an expired entry with this address is the entry of this very timer
      obtain ⟨e, he, hea⟩ := List.mem_map.mp hin
      obtain ⟨b, u, hb, hle, rfl⟩ := (hmem e).mp he
      obtain rfl : b = a := hea
      obtain rfl : u = t := Option.some.inj (hb.symm.trans ha)
      exact hnot he
  · rw [hindexes.active id, h.active id]
    constructor
    · rintro ⟨a, t, ha, rfl⟩
      obtain ⟨hnot, ha⟩ := without_eq_some.mp ha
      exact ⟨⟨a, t, ha, rfl⟩, hnot⟩
    · rintro ⟨⟨a, t, ha, rfl⟩, hnot⟩
      exact ⟨a, t, without_eq_some.mpr ⟨hnot, ha⟩, rfl⟩

end GetExpired

/-! ## Scheduled or not -/

/-- Both sets have the timer, under its time and once. -/
def ScheduledOnce (q : TimerQueue) (a : Nat) (t : Timer) : Prop :=
  (∀ e, e ∈ q.timers_ ∧ e.timer = a ↔ e = ⟨t.expiration_, a⟩) ∧
    ∀ id, id ∈ q.activeTimers_ ∧ id.timer_ = a ↔ id = ⟨a, t.sequence_⟩

/-- Neither set has a timer at the address. -/
def NotScheduled (q : TimerQueue) (a : Nat) : Prop :=
  (∀ e ∈ q.timers_, e.timer ≠ a) ∧ ∀ id ∈ q.activeTimers_, id.timer_ ≠ a

section Scheduled

variable {q : TimerQueue} {m : Nat → Option Timer} {a : Nat} {t : Timer}

theorem Indexes.scheduledOnce (h : Indexes q m) (ha : m a = some t) : ScheduledOnce q a t := by
  refine ⟨fun e => ⟨?_, ?_⟩, fun id => ⟨?_, ?_⟩⟩
  · rintro ⟨hmem, rfl⟩
    obtain ⟨b, u, hb, rfl⟩ := (h.timers e).mp hmem
    obtain rfl : u = t := Option.some.inj (hb.symm.trans ha)
    rfl
  · rintro rfl
    exact ⟨h.timers.mem ha, rfl⟩
  · rintro ⟨hmem, rfl⟩
    obtain ⟨b, u, hb, rfl⟩ := (h.active id).mp hmem
    obtain rfl : u = t := Option.some.inj (hb.symm.trans ha)
    rfl
  · rintro rfl
    exact ⟨h.active.mem ha, rfl⟩

theorem Indexes.notScheduled (h : Indexes q m) (ha : m a = none) : NotScheduled q a := by
  constructor
  · rintro e hmem rfl
    obtain ⟨b, u, hb, rfl⟩ := (h.timers e).mp hmem
    exact absurd (ha.symm.trans hb) (by simp)
  · rintro id hmem rfl
    obtain ⟨b, u, hb, rfl⟩ := (h.active id).mp hmem
    exact absurd (ha.symm.trans hb) (by simp)

end Scheduled

end TimerQueue

/-! ## The system and its record -/

/-- A callback that was started: the `Timer` as `run()` found it, and the time at which
its `handleRead` began. -/
structure Fire where
  timer : Nat
  object : Timer
  now : Timestamp
  deriving DecidableEq, Repr

/-- The timers with what was made of them. -/
structure TimerFiring where
  system : TimerSystem
  /-- the timers as `new Timer` left them -/
  made : List (Nat × Timer)
  fires : List Fire
  /-- the length of the log when `handleRead` last began -/
  begun : Nat

namespace TimerFiring

open TimerSystem (Action)

/-- Without timers. -/
def start : TimerFiring := ⟨.start, [], [], 0⟩

/-- The callback that `handleRead` starts next. -/
def nextFire (s : TimerSystem) : Option Fire :=
  match s.batch with
  | some ⟨_, it :: _, now⟩ => (s.queue.heap it.timer).map fun t => ⟨it.timer, t, now⟩
  | _ => none

/-- The record of one step. -/
def record (s : TimerFiring) (system : TimerSystem) : Action → TimerFiring
  | .newTimer timer when interval repeats =>
      { s with
        system := system
        made := (timer, ⟨when, interval, repeats, s.system.numCreated + 1⟩) :: s.made }
  | .handleRead _ _ => { s with system := system, begun := s.system.log.length }
  | .runNext => { s with system := system, fires := s.fires ++ (nextFire s.system).toList }
  | _ => { s with system := system }

/-- What a step does, with its record. -/
def step (s : TimerFiring) (action : Action) : Exec TimerFiring := do
  let system ← s.system.step action
  .ok (s.record system action)

/-- The steps of Net/TimerRuns.lean. -/
def machine : Machine TimerFiring Action := ⟨step, fun s action => s.system.Legal action⟩

/-- `cancelInLoop(timerId)` was executed since `handleRead` last began. -/
def Cancelled (s : TimerFiring) (id : TimerId) : Prop :=
  .cancelled id ∈ s.system.log.drop s.begun

/-! ## The invariant -/

/-- What a `Timer` keeps in common with the object that was made: all of it, unless it
repeats. -/
structure Descends (made t : Timer) : Prop where
  sequence : t.sequence_ = made.sequence_
  repeats : t.repeat_ = made.repeat_
  same : t.repeat_ = false → t = made

theorem Descends.refl (t : Timer) : Descends t t := ⟨rfl, rfl, fun _ => rfl⟩

/-- What holds of the record in every state. -/
structure Inv (s : TimerFiring) (m : Nat → Option Timer) : Prop where
  inv : TimerSystem.Inv [] s.system m
  made_le : ∀ x ∈ s.made, x.2.sequence_ ≤ s.system.numCreated
  made_inj : ∀ x ∈ s.made, ∀ y ∈ s.made, x.2.sequence_ = y.2.sequence_ → x = y
  live : ∀ a t, s.system.queue.heap a = some t → ∃ t₀, (a, t₀) ∈ s.made ∧ Descends t₀ t
  /-- the timers of the batch were due -/
  due : ∀ b ∈ s.system.batch, ∀ e ∈ b.expired, ∀ t, s.system.queue.heap e.timer = some t →
    t.expiration_ ≤ b.now
  /-- a cancellation in a callback is noted down -/
  noted : ∀ b ∈ s.system.batch, ∀ e ∈ b.expired, ∀ t, s.system.queue.heap e.timer = some t →
    (TimerQueue.idOf e.timer t ∈ s.system.queue.cancelingTimers_ ↔
      s.Cancelled (TimerQueue.idOf e.timer t))
  begun_le : s.begun ≤ s.system.log.length
  fired : ∀ f ∈ s.fires, f.object.expiration_ ≤ f.now ∧
    ∃ t₀, (f.timer, t₀) ∈ s.made ∧ Descends t₀ f.object
  /-- a one-shot timer that has fired is deleted, or waits in the batch for that -/
  past : ∀ f ∈ s.fires, f.object.repeat_ = false → ∀ t, s.system.queue.heap f.timer = some t →
    t.sequence_ = f.object.sequence_ →
      ∃ b ∈ s.system.batch, f.timer ∈ b.expired.map Entry.timer ∧ f.timer ∉ b.todo.map Entry.timer
  once : s.fires.Pairwise fun f g => f.object.repeat_ = false →
    f.object.sequence_ ≠ g.object.sequence_

theorem inv_start : Inv start fun _ => none where
  inv := TimerSystem.inv_start
  made_le _ h := absurd h List.not_mem_nil
  made_inj _ h := absurd h List.not_mem_nil
  live _ _ h := absurd h (by simp [start, TimerSystem.start, TimerQueue.new])
  due _ h := absurd h (by simp [start, TimerSystem.start])
  noted _ h := absurd h (by simp [start, TimerSystem.start])
  begun_le := Nat.zero_le _
  fired _ h := absurd h List.not_mem_nil
  past _ h := absurd h List.not_mem_nil
  once := .nil

section Steps

variable {s : TimerFiring} {m : Nat → Option Timer}

/-- A step in which nothing comes to life, and the batch stays as it is. -/
theorem Inv.frame (h : Inv s m) {system : TimerSystem} {m' : Nat → Option Timer}
    (hinv : TimerSystem.Inv [] system m') (hnum : system.numCreated = s.system.numCreated)
    (hbatch : system.batch = s.system.batch)
    (hheap : ∀ a t, system.queue.heap a = some t → s.system.queue.heap a = some t)
    (hnoted : ∀ b ∈ s.system.batch, ∀ e ∈ b.expired, ∀ t, system.queue.heap e.timer = some t →
      (TimerQueue.idOf e.timer t ∈ system.queue.cancelingTimers_ ↔
        .cancelled (TimerQueue.idOf e.timer t) ∈ system.log.drop s.begun))
    (hlog : s.system.log.length ≤ system.log.length) :
    Inv { s with system := system } m' where
  inv := hinv
  made_le x hx := by
    rw [hnum]
    exact h.made_le x hx
  made_inj := h.made_inj
  live a t ht := h.live a t (hheap a t ht)
  due b hb e he t ht := by
    rw [hbatch] at hb
    exact h.due b hb e he t (hheap _ t ht)
  noted b hb e he t ht := by
    rw [hbatch] at hb
    exact hnoted b hb e he t ht
  begun_le := h.begun_le.trans hlog
  fired := h.fired
  past f hf hrepeat t ht hseq := by
    rw [hbatch]
    exact h.past f hf hrepeat t (hheap _ t ht) hseq
  once := h.once

theorem mem_drop_append {log : List TimerEvent} {n : Nat} (hn : n ≤ log.length)
    {event last : TimerEvent} :
    event ∈ (log ++ [last]).drop n ↔ event ∈ log.drop n ∨ event = last := by
  rw [List.drop_append_of_le_length hn, List.mem_append, List.mem_singleton]

/-- A timer of the batch is alive and not scheduled. -/
theorem Inv.fired_le (h : Inv s m) {f : Fire} (hf : f ∈ s.fires) :
    f.object.sequence_ ≤ s.system.numCreated := by
  obtain ⟨_, t₀, hmade, hdesc⟩ := h.fired f hf
  rw [hdesc.sequence]
  exact h.made_le _ hmade

/-- A live timer with the number of one that has fired is that timer. -/
theorem Inv.same_of_sequence (h : Inv s m) {f : Fire} (hf : f ∈ s.fires) {a : Nat} {t : Timer}
    (ht : s.system.queue.heap a = some t) (hseq : t.sequence_ = f.object.sequence_) :
    f.timer = a ∧ t.repeat_ = f.object.repeat_ := by
  obtain ⟨_, t₀, hmade, hdesc⟩ := h.fired f hf
  obtain ⟨t₁, hmade', hdesc'⟩ := h.live a t ht
  have hsame := h.made_inj _ hmade _ hmade'
    (hdesc.sequence.symm.trans (hseq.symm.trans hdesc'.sequence))
  obtain ⟨rfl, rfl⟩ := Prod.mk.inj hsame
  exact ⟨rfl, hdesc'.repeats.trans hdesc.repeats.symm⟩

theorem inv_newTimer (h : Inv s m) {a : Nat} (hfree : s.system.queue.heap a = none)
    (haddr : a < UINTPTR_MAX) (when : Timestamp) (interval : Nat) (repeats : Bool) :
    Inv { s with
      system := { s.system with
        queue := s.system.queue.store a (some ⟨when, interval, repeats, s.system.numCreated + 1⟩)
        numCreated := s.system.numCreated + 1
        created := a :: s.system.created }
      made := (a, ⟨when, interval, repeats, s.system.numCreated + 1⟩) :: s.made } m := by
  set t₁ : Timer := ⟨when, interval, repeats, s.system.numCreated + 1⟩ with ht₁
  have hbatch : ∀ b ∈ s.system.batch, ∀ e ∈ b.expired, ∀ t,
      (s.system.queue.store a (some t₁)).heap e.timer = some t →
        s.system.queue.heap e.timer = some t := by
    intro b hb e he t ht
    obtain ⟨_, u, hu⟩ := h.inv.batch_outside hb (List.mem_map_of_mem he)
    rcases TimerQueue.of_store_some ht with ⟨hea, _⟩ | ⟨_, ht⟩
    · rw [hea, hfree] at hu
      exact absurd hu (by simp)
    · exact ht
  refine ⟨TimerSystem.inv_newTimer h.inv hfree haddr when interval repeats, fun x hx => ?_,
    fun x hx y hy hseq => ?_, fun b t ht => ?_, fun b hb e he t ht => ?_, fun b hb e he t ht => ?_,
    h.begun_le, fun f hf => ?_, fun f hf hrepeat t ht hseq => ?_, h.once⟩
  · rcases List.mem_cons.mp hx with rfl | hx
    · exact le_rfl
    · exact (h.made_le x hx).trans (Int.le_add_one le_rfl)
  · -- the new number is larger than all others
    rcases List.mem_cons.mp hx with rfl | hx <;> rcases List.mem_cons.mp hy with rfl | hy
    · rfl
    · have := h.made_le y hy
      simp only [ht₁] at hseq
      omega
    · have := h.made_le x hx
      simp only [ht₁] at hseq
      omega
    · exact h.made_inj x hx y hy hseq
  · rcases TimerQueue.of_store_some ht with ⟨rfl, rfl⟩ | ⟨_, ht⟩
    · exact ⟨_, List.mem_cons_self, .refl _⟩
    · obtain ⟨t₀, hmade, hdesc⟩ := h.live b t ht
      exact ⟨t₀, List.mem_cons_of_mem _ hmade, hdesc⟩
  · exact h.due b hb e he t (hbatch b hb e he t ht)
  · exact h.noted b hb e he t (hbatch b hb e he t ht)
  · obtain ⟨hle, t₀, hmade, hdesc⟩ := h.fired f hf
    exact ⟨hle, t₀, List.mem_cons_of_mem _ hmade, hdesc⟩
  · rcases TimerQueue.of_store_some ht with ⟨_, rfl⟩ | ⟨_, ht⟩
    · have := h.fired_le hf
      simp only [ht₁] at hseq
      omega
    · exact h.past f hf hrepeat t ht hseq

/-- `cancelInLoop` of a scheduled timer leaves the batch alone; any other identifier is
noted down while a batch is processed. -/
theorem inv_cancelInLoop (h : Inv s m) (id : TimerId) :
    ∃ system m', s.system.cancelInLoop id = .ok system ∧ Inv { s with system := system } m' := by
  by_cases hid : id ∈ s.system.queue.activeTimers_
  · obtain ⟨a, t, ha, rfl⟩ := (h.inv.sound.indexes.active id).mp hid
    obtain ⟨hrun, hinv⟩ := TimerSystem.inv_cancel_scheduled h.inv ha
    refine ⟨_, _, hrun, h.frame hinv rfl rfl (fun b u hu => (TimerQueue.store_none_heap.mp hu).2)
      (fun b hb e he u hu => ?_) (by simp)⟩
    have hne : TimerQueue.idOf e.timer u ≠ TimerQueue.idOf a t := by
      intro heq
      have hea : e.timer = a := congrArg TimerId.timer_ heq
      exact absurd (hea ▸ (h.inv.batch_outside hb (List.mem_map_of_mem he)).1) (by rw [ha]; simp)
    have hnoted := h.noted b hb e he u (TimerQueue.store_none_heap.mp hu).2
    rw [mem_drop_append h.begun_le, TimerEvent.cancelled.injEq]
    exact hnoted.trans ⟨.inl, fun hor => hor.resolve_right hne⟩
  · obtain ⟨hrun, hinv⟩ := TimerSystem.inv_cancel_other h.inv hid
    refine ⟨_, _, hrun, h.frame hinv rfl rfl (fun _ _ hu => hu) (fun b hb e he u hu => ?_)
      (by simp)⟩
    have hcalling : s.system.queue.callingExpiredTimers_ = true := by
      rw [h.inv.calling, Option.mem_def.mp hb]
      rfl
    have hnoted := h.noted b hb e he u hu
    rw [mem_drop_append h.begun_le, TimerEvent.cancelled.injEq, TimerQueue.noted, if_pos hcalling,
      SortedSet.mem_insert, or_comm]
    exact or_congr_left hnoted

theorem inv_handleRead (h : Inv s m) (hbatch : s.system.batch = none) (now : Timestamp)
    (fired : Bool) : ∃ system m', s.system.step (.handleRead now fired) = .ok system ∧
      Inv { s with system := system, begun := s.system.log.length } m' := by
  obtain ⟨expired, timers, active, fd, hrun, hinv, hdue⟩ :=
    TimerSystem.inv_handleRead h.inv hbatch now fired
  refine ⟨_, _, hrun, hinv, h.made_le, h.made_inj, h.live, ?_, ?_, le_rfl, h.fired, ?_, h.once⟩
  · rintro b hb e he t ht
    obtain rfl := Option.some.inj hb
    obtain ⟨u, hu, hle⟩ := (hdue e.timer).mp (List.mem_map_of_mem he)
    obtain rfl : u = t := Option.some.inj ((h.inv.sound.indexes.live _ u hu).symm.trans ht)
    exact hle
  · rintro b hb e he t ht
    simp [Cancelled]
  · intro f hf hrepeat t ht hseq
    obtain ⟨b, hb, _⟩ := h.past f hf hrepeat t ht hseq
    rw [hbatch] at hb
    exact absurd hb (by simp)

theorem inv_runNext (h : Inv s m) (hlegal : s.system.Legal .runNext) :
    ∃ system, s.system.step .runNext = .ok system ∧
      Inv { s with system := system, fires := s.fires ++ (nextFire s.system).toList } m := by
  obtain ⟨expired, e, todo, now, hbatch⟩ := hlegal.runNext
  obtain ⟨t, ht, hrun, hinv⟩ := TimerSystem.inv_runNext h.inv hbatch
  have hnext : nextFire s.system = some ⟨e.timer, t, now⟩ := by
    simp [nextFire, hbatch, ht]
  have hsuffix : e :: todo <:+ expired := h.inv.todo _ hbatch
  have he : e ∈ expired := hsuffix.subset List.mem_cons_self
  -- the timers of a batch are different, so this one does not come again
  have hnodup : (e.timer :: todo.map Entry.timer).Nodup :=
    (h.inv.batch_nodup hbatch).sublist (hsuffix.sublist.map Entry.timer)
  refine ⟨_, hrun, hinv, h.made_le, h.made_inj, h.live, ?_, ?_, ?_, ?_, ?_, ?_⟩
  · rintro b hb e' he' u hu
    obtain rfl := Option.some.inj hb
    exact h.due _ hbatch e' he' u hu
  · rintro b hb e' he' u hu
    obtain rfl := Option.some.inj hb
    have hnoted := h.noted _ hbatch e' he' u hu
    unfold Cancelled at hnoted ⊢
    rw [mem_drop_append h.begun_le]
    exact hnoted.trans ⟨.inl, fun hor => hor.resolve_right (by simp)⟩
  · simpa using h.begun_le.trans (Nat.le_succ _)
  · intro f hf
    rw [hnext] at hf
    rcases List.mem_append.mp hf with hf | hf
    · exact h.fired f hf
    · obtain rfl : f = ⟨e.timer, t, now⟩ := by simpa using hf
      exact ⟨h.due _ hbatch e he t ht, h.live _ t ht⟩
  · intro f hf hrepeat u hu hseq
    rw [hnext] at hf
    rcases List.mem_append.mp hf with hf | hf
    · obtain ⟨b, hb, hin, hnot⟩ := h.past f hf hrepeat u hu hseq
      obtain rfl := Option.some.inj (hbatch.symm.trans hb)
      exact ⟨_, rfl, hin, fun hmem => hnot (List.mem_cons_of_mem _ hmem)⟩
    · obtain rfl : f = ⟨e.timer, t, now⟩ := by simpa using hf
      exact ⟨_, rfl, List.mem_map_of_mem he, (List.nodup_cons.mp hnodup).1⟩
  · rw [hnext, List.pairwise_append]
    refine ⟨h.once, List.pairwise_singleton _ _, fun f hf g hg hrepeat hseq => ?_⟩
    obtain rfl : g = ⟨e.timer, t, now⟩ := by simpa using hg
    -- one that has fired before would be behind in the batch
    have htimer := (h.same_of_sequence hf ht hseq.symm).1
    obtain ⟨b, hb, _, hnot⟩ := h.past f hf hrepeat t (by rw [htimer]; exact ht) hseq.symm
    obtain rfl := Option.some.inj (hbatch.symm.trans hb)
    rw [htimer] at hnot
    exact hnot List.mem_cons_self

theorem inv_finishRead (h : Inv s m) {b : Batch} (hbatch : s.system.batch = some b)
    (clock : Timestamp) : ∃ system m', s.system.step (.finishRead clock) = .ok system ∧
      Inv { s with system := system } m' := by
  obtain ⟨heap, timers, active, m', hrun, hinv, hresets⟩ :=
    TimerSystem.inv_finishRead h.inv hbatch clock
  refine ⟨_, m', hrun, hinv, h.made_le, h.made_inj, fun a t' ht' => ?_,
    fun _ hb => absurd hb (by simp),
    fun _ hb => absurd hb (by simp), h.begun_le, h.fired, fun f hf hrepeat t' ht' hseq =>
      ?_, h.once⟩
  · rcases hresets.survivor ht' with ⟨_, ht⟩ | ⟨_, t, ht, hrepeat, _, rfl⟩
    · exact h.live a t' ht
    · obtain ⟨t₀, hmade, hdesc⟩ := h.live a t ht
      have hrestart : t.restart b.now = { t with expiration_ := b.now.addTime t.interval_ } :=
        if_pos hrepeat
      rw [hrestart]
      refine ⟨t₀, hmade, hdesc.sequence, hdesc.repeats, fun hone => ?_⟩
      exact absurd (hrepeat.symm.trans hone) (by simp)
  · exfalso
    rcases hresets.survivor ht' with ⟨hnot, ht⟩ | ⟨_, t, ht, hrep, _, rfl⟩
    · obtain ⟨b', hb', hin, _⟩ := h.past f hf hrepeat t' ht hseq
      obtain rfl := Option.some.inj (hbatch.symm.trans hb')
      exact hnot hin
    · -- a timer that repeats is not the one-shot timer that has fired
      have hseq' : t.sequence_ = f.object.sequence_ := by
        rw [← hseq, TimerQueue.restart_sequence]
      have hrep' := (h.same_of_sequence hf ht hseq').2
      exact absurd (hrep.symm.trans (hrep'.trans hrepeat)) (by simp)

theorem step_eq {system : TimerSystem} {action : Action} (h : s.system.step action = .ok system) :
    s.step action = .ok (s.record system action) := by
  rw [step, h, ok_bind]

/-- A step that leaves the objects, the batch and the log as they are. -/
theorem Inv.frame_same (h : Inv s m) {system : TimerSystem} {m' : Nat → Option Timer}
    (hinv : TimerSystem.Inv [] system m') (hnum : system.numCreated = s.system.numCreated)
    (hbatch : system.batch = s.system.batch) (hheap : system.queue.heap = s.system.queue.heap)
    (hcanceling : system.queue.cancelingTimers_ = s.system.queue.cancelingTimers_)
    (hlog : system.log = s.system.log) : Inv { s with system := system } m' := by
  refine h.frame hinv hnum hbatch (fun a t ht => hheap ▸ ht) (fun b hb e he t ht => ?_)
    (by rw [hlog])
  rw [hcanceling, hlog]
  exact h.noted b hb e he t (hheap ▸ ht)

/-- `addTimerInLoop` brings nothing to life. -/
theorem inv_addInLoop (h : Inv s m) {system : TimerSystem} {a : Nat}
    (hheld : TimerSystem.Inv [a] system m) (hnum : system.numCreated = s.system.numCreated)
    (hbatch : system.batch = s.system.batch) (hqueue : system.queue = s.system.queue)
    (hlog : system.log = s.system.log) (now : Timestamp) :
    ∃ system' m', system.addInLoop a now = .ok system' ∧ Inv { s with system := system' } m' := by
  obtain ⟨t, ht⟩ := hheld.held_live
  obtain ⟨hrun, hinv⟩ := TimerSystem.inv_addInLoop hheld ht now
  obtain ⟨fd, hfd⟩ := TimerQueue.added_eq system.queue a t now
  rw [hfd] at hrun hinv
  have hheap : system.queue.heap = s.system.queue.heap := by rw [hqueue]
  have hcanceling : system.queue.cancelingTimers_ = s.system.queue.cancelingTimers_ := by
    rw [hqueue]
  exact ⟨_, _, hrun, h.frame_same hinv hnum hbatch hheap hcanceling hlog⟩

theorem inv_step (h : Inv s m) {action : Action} (hlegal : s.system.Legal action) :
    ∃ s' m', s.step action = .ok s' ∧ Inv s' m' := by
  cases action with
  | newTimer a when interval repeats =>
      exact ⟨_, m, rfl, inv_newTimer h hlegal.1 hlegal.2.1 when interval repeats⟩
  | queueAdd a =>
      have hinv := TimerSystem.inv_queueAdd (TimerSystem.inv_handOver h.inv hlegal)
      exact ⟨_, m, rfl, h.frame_same hinv rfl rfl rfl rfl rfl⟩
  | addNow a now =>
      obtain ⟨_, m', hrun, hinv⟩ := inv_addInLoop h (TimerSystem.inv_handOver h.inv hlegal)
        rfl rfl rfl rfl now
      exact ⟨_, m', step_eq hrun, hinv⟩
  | queueCancel id =>
      exact ⟨_, m, rfl, h.frame_same (TimerSystem.inv_queueCancel h.inv id) rfl rfl rfl rfl rfl⟩
  | cancelNow id =>
      obtain ⟨_, m', hrun, hinv⟩ := inv_cancelInLoop h id
      exact ⟨_, m', step_eq hrun, hinv⟩
  | runFunctor now =>
      rcases hlegal.runFunctor with ⟨a, queued, hqueued, hstep⟩ | ⟨id, queued, hqueued, hstep⟩
      · obtain ⟨_, m', hrun, hinv⟩ := inv_addInLoop h (TimerSystem.inv_takeAdd h.inv hqueued)
          rfl rfl rfl rfl now
        exact ⟨_, m', step_eq (hstep.trans hrun), hinv⟩
      · have htaken := h.frame_same (TimerSystem.inv_takeCancel h.inv hqueued) rfl rfl rfl rfl rfl
        obtain ⟨_, m', hrun, hinv⟩ := inv_cancelInLoop htaken id
        exact ⟨_, m', step_eq (hstep.trans hrun), hinv⟩
  | handleRead now fired =>
      obtain ⟨_, m', hrun, hinv⟩ := inv_handleRead h hlegal now fired
      exact ⟨_, m', step_eq hrun, hinv⟩
  | runNext =>
      obtain ⟨_, hrun, hinv⟩ := inv_runNext h hlegal
      exact ⟨_, m, step_eq hrun, hinv⟩
  | finishRead clock =>
      obtain ⟨b, hbatch⟩ := hlegal.finishRead
      obtain ⟨_, m', hrun, hinv⟩ := inv_finishRead h hbatch clock
      exact ⟨_, m', step_eq hrun, hinv⟩

end Steps

/-! ## What is promised -/

/-- A one-shot timer fires at most once, and not before its time; nothing fires that was
not made. -/
structure OneShots (s : TimerFiring) : Prop where
  made : ∀ f ∈ s.fires, ∃ t, (f.timer, t) ∈ s.made ∧ t.sequence_ = f.object.sequence_
  once : ∀ a t, (a, t) ∈ s.made → t.repeat_ = false →
    (s.fires.filter fun f => f.timer = a ∧ f.object.sequence_ = t.sequence_).length ≤ 1
  due : ∀ a t, (a, t) ∈ s.made → t.repeat_ = false →
    ∀ f ∈ s.fires, f.timer = a → f.object.sequence_ = t.sequence_ → t.expiration_ ≤ f.now

/-- How `reset` leaves the timers of a batch. -/
def ResetExactly (s : TimerFiring) (b : Batch) (q : TimerQueue) : Prop :=
  ∀ e ∈ b.expired, ∃ t, s.system.queue.heap e.timer = some t ∧
    (t.repeat_ = true ∧ ¬ s.Cancelled ⟨e.timer, t.sequence_⟩ →
      q.ScheduledOnce e.timer { t with expiration_ := b.now.addTime t.interval_ }) ∧
    (¬ (t.repeat_ = true ∧ ¬ s.Cancelled ⟨e.timer, t.sequence_⟩) → q.NotScheduled e.timer)

section Promises

variable {s : TimerFiring} {m : Nat → Option Timer}

theorem length_le_one_of_pairwise {α : Type} {l : List α} (h : l.Pairwise fun _ _ => False) :
    l.length ≤ 1 := by
  cases l with
  | nil => simp
  | cons a l =>
      cases l with
      | nil => simp
      | cons b l => exact absurd ((List.pairwise_cons.mp h).1 b List.mem_cons_self) not_false

theorem Inv.oneShots (h : Inv s m) : OneShots s := by
  -- what has the number of a one-shot timer is the object that was made
  have hsame : ∀ a t, (a, t) ∈ s.made → t.repeat_ = false → ∀ f ∈ s.fires,
      f.object.sequence_ = t.sequence_ → f.object = t := by
    intro a t hmade hrepeat f hf hseq
    obtain ⟨_, t₀, hmade₀, hdesc⟩ := h.fired f hf
    have heq := h.made_inj _ hmade₀ _ hmade (hdesc.sequence.symm.trans hseq)
    obtain ⟨_, rfl⟩ := Prod.mk.inj heq
    exact hdesc.same (hdesc.repeats.trans hrepeat)
  refine ⟨fun f hf => ?_, fun a t hmade hrepeat => ?_, fun a t hmade hrepeat f hf _ hseq => ?_⟩
  · obtain ⟨_, t₀, hmade, hdesc⟩ := h.fired f hf
    exact ⟨t₀, hmade, hdesc.sequence.symm⟩
  · refine length_le_one_of_pairwise ?_
    rw [List.pairwise_filter]
    refine h.once.imp_of_mem fun {f g} hf hg hfg hpf hpg => ?_
    have hpf := of_decide_eq_true hpf
    have hpg := of_decide_eq_true hpg
    refine hfg ?_ (hpf.2.trans hpg.2.symm)
    rw [hsame a t hmade hrepeat f hf hpf.2]
    exact hrepeat
  · have hle := (h.fired f hf).1
    rwa [hsame a t hmade hrepeat f hf hseq] at hle

theorem Inv.resetExactly (h : Inv s m) {b : Batch} (hbatch : s.system.batch = some b)
    (clock : Timestamp) :
    ∃ system, s.system.step (.finishRead clock) = .ok system ∧ ResetExactly s b system.queue := by
  obtain ⟨heap, timers, active, m', hrun, hinv, hresets⟩ :=
    TimerSystem.inv_finishRead h.inv hbatch clock
  refine ⟨_, hrun, fun e he => ?_⟩
  obtain ⟨_, t, ht⟩ := h.inv.batch_outside hbatch (List.mem_map_of_mem he)
  have hm' := (hresets.of_live (List.mem_map_of_mem he) ht).2
  have hnoted := h.noted b hbatch e he t ht
  refine ⟨t, ht, fun hagain => ?_, fun hgone => ?_⟩
  · have hkept : t.repeat_ = true ∧
        TimerQueue.idOf e.timer t ∉ s.system.queue.cancelingTimers_ :=
      ⟨hagain.1, fun hmem => hagain.2 (hnoted.mp hmem)⟩
    rw [TimerQueue.renewed, if_pos hkept, Timer.restart, if_pos hagain.1] at hm'
    exact hinv.sound.indexes.scheduledOnce hm'
  · have hdropped : ¬ (t.repeat_ = true ∧
        TimerQueue.idOf e.timer t ∉ s.system.queue.cancelingTimers_) :=
      fun hkept => hgone ⟨hkept.1, fun hc => hkept.2 (hnoted.mpr hc)⟩
    rw [TimerQueue.renewed, if_neg hdropped] at hm'
    exact hinv.sound.indexes.notScheduled hm'

end Promises

/-- In every run: whatever the time, `getExpired` takes exactly the timers that are due;
one-shot timers have fired at most once and not before their time; and when the callbacks
of a batch are through, `handleRead` schedules again, for the time it began plus their
interval, those timers of the batch that repeat and were not cancelled, and no others. -/
theorem fires_exactly_due (actions : List Action) (hlegal : machine.LegalRun start actions) :
    ∃ s, machine.run start actions = .ok s ∧
      (∃ m, TimerSystem.Agree s.system.queue m ∧ ∀ now, ∃ expired q,
        s.system.queue.getExpired now = .ok (expired, q) ∧
          s.system.queue.TakesDue m now expired q) ∧
      OneShots s ∧
      ∀ b, s.system.batch = some b → b.todo = [] → ∀ clock,
        ∃ system, s.system.step (.finishRead clock) = .ok system ∧
          ResetExactly s b system.queue := by
  obtain ⟨s, hrun, m, hinv⟩ := Machine.run_invariant (fun s => ∃ m, Inv s m)
    (by
      rintro s action ⟨m, h⟩ hlegal
      obtain ⟨s', m', hstep, h'⟩ := inv_step h hlegal
      exact ⟨s', hstep, m', h'⟩)
    ⟨_, inv_start⟩ hlegal
  have hsound := hinv.inv.sound
  refine ⟨s, hrun, ⟨m, hinv.inv.agree, fun now => ?_⟩, hinv.oneShots,
    fun b hb _ clock => hinv.resetExactly hb clock⟩
  exact TimerQueue.getExpired_takesDue hsound.indexes
    (fun a t ha => hsound.addr a t (hsound.indexes.live a t ha)) now

instance (s : TimerFiring) (a : Action) : Decidable (machine.legal s a) :=
  inferInstanceAs (Decidable (s.system.Legal a))

/-- A timer that repeats and a one-shot timer expire together; the callback of the first
adds a timer. -/
def firingRun : List Action :=
  [.newTimer 8 ⟨5⟩ 3 true, .addNow 8 ⟨1⟩, .newTimer 16 ⟨10⟩ 0 false, .queueAdd 16, .runFunctor ⟨2⟩,
    .handleRead ⟨10⟩ true, .runNext, .newTimer 24 ⟨40⟩ 0 false, .addNow 24 ⟨11⟩, .runNext]

theorem fires_exactly_due_firingRun :
    machine.LegalRun start firingRun ∧ ∃ s, machine.run start firingRun = .ok s ∧ OneShots s ∧
      ∀ b, s.system.batch = some b → b.todo = [] → ∀ clock,
        ∃ system, s.system.step (.finishRead clock) = .ok system ∧
          ResetExactly s b system.queue := by
  have hlegal : machine.LegalRun start firingRun := by decide +kernel
  obtain ⟨s, hrun, _, hones, hreset⟩ := fires_exactly_due firingRun hlegal
  exact ⟨hlegal, s, hrun, hones, hreset⟩

end TimerFiring

end Muduo.Net
