/-
  Net/TimerIntervals.lean --- the callbacks of a timer that repeats.

  `restart` counts the interval from the time at which `handleRead` began, not from the time
  for which the timer was scheduled: a callback that is late delays all that follow, and no
  round is made up for.  So the callbacks of one timer are never closer than its interval,
  and in every state of every run the timer waits for the last one plus the interval,
  unless it was cancelled.
-/
import Muduo.Net.TimerFiring

set_option autoImplicit false

namespace Muduo.Net

open Muduo.Foundation Muduo.Base

namespace TimerFiring

open TimerSystem (Action)

/-! ## Callbacks in rounds -/

/-- Each callback was scheduled for the time that the one before left, beginning with `due`,
and was not started earlier. -/
def Spaced (interval : Nat) : Timestamp → List Fire → Prop
  | _, [] => True
  | due, f :: fires =>
      f.object.expiration_ = due ∧ due ≤ f.now ∧ Spaced interval (f.now.addTime interval) fires

/-- The time for which a timer is scheduled when its callback was started as `fires` says. -/
def dueAfter (interval : Nat) : Timestamp → List Fire → Timestamp
  | due, [] => due
  | _, f :: fires => dueAfter interval (f.now.addTime interval) fires

section Rounds

variable {interval : Nat} {due : Timestamp} {fires : List Fire} {f : Fire}

theorem dueAfter_concat : dueAfter interval due (fires ++ [f]) = f.now.addTime interval := by
  induction fires generalizing due with
  | nil => rfl
  | cons g fires ih => exact ih

theorem Spaced.concat (h : Spaced interval due fires)
    (hdue : f.object.expiration_ = dueAfter interval due fires)
    (hle : f.object.expiration_ ≤ f.now) :
    Spaced interval due (fires ++ [f]) := by
  induction fires generalizing due with
  | nil =>
      rw [hdue] at hle
      exact ⟨hdue, hle, trivial⟩
  | cons g fires ih =>
      obtain ⟨hexpiration, hlate, hrest⟩ := h
      exact ⟨hexpiration, hlate, ih hrest hdue⟩

/-- As long as the sums fit, round `i` begins `i` intervals after the first was due, or later. -/
theorem Spaced.not_early (h : Spaced interval due fires)
    (hfit : ∀ f ∈ fires, -2 ^ 63 ≤ f.now.microSecondsSinceEpoch_ ∧
      f.now.microSecondsSinceEpoch_ + interval < 2 ^ 63) (i : Nat) (hi : i < fires.length) :
    due.microSecondsSinceEpoch_ + i * interval ≤ (fires[i]).now.microSecondsSinceEpoch_ := by
  induction fires generalizing due i with
  | nil => exact absurd hi (Nat.not_lt_zero i)
  | cons g fires ih =>
      obtain ⟨_, hlate, hrest⟩ := h
      rw [Timestamp.le_iff] at hlate
      cases i with
      | zero => simpa using hlate
      | succ i =>
          have hnext := ih hrest (fun f hf => hfit f (List.mem_cons_of_mem g hf)) i
            (Nat.lt_of_succ_lt_succ hi)
          have hg := hfit g List.mem_cons_self
          have hsum : (g.now.addTime interval).microSecondsSinceEpoch_ =
              g.now.microSecondsSinceEpoch_ + interval :=
            int64_of_mem (by omega) hg.2
          rw [hsum] at hnext
          rw [List.getElem_cons_succ]
          push_cast
          rw [Int.add_mul, Int.one_mul]
          omega

end Rounds

/-! ## The invariant -/

/-- The callbacks of one timer, in the order in which they were started. -/
def firesOf (s : TimerFiring) (a : Nat) (t : Timer) : List Fire :=
  s.fires.filter fun f => f.timer = a ∧ f.object.sequence_ = t.sequence_

/-- The callback of the timer was started in the batch that is processed. -/
def StartedIn (b : Batch) (a : Nat) : Prop :=
  a ∈ b.expired.map Entry.timer ∧ a ∉ b.todo.map Entry.timer

/-- What is known of a timer that repeats: its callbacks keep the interval; while it is
alive its time is the next one, which `restart` has still to set if it is in the batch and
was started; and only a cancellation deletes it. -/
structure Paced (s : TimerFiring) (a : Nat) (t : Timer) : Prop where
  spaced : Spaced t.interval_ t.expiration_ (s.firesOf a t)
  interval : ∀ u, s.system.queue.heap a = some u → u.sequence_ = t.sequence_ →
    u.interval_ = t.interval_
  waiting : ∀ u, s.system.queue.heap a = some u → u.sequence_ = t.sequence_ →
    (∀ b ∈ s.system.batch, ¬ StartedIn b a) →
      u.expiration_ = dueAfter t.interval_ t.expiration_ (s.firesOf a t)
  started : ∀ u, s.system.queue.heap a = some u → u.sequence_ = t.sequence_ →
    ∀ b ∈ s.system.batch, StartedIn b a →
      b.now.addTime t.interval_ = dueAfter t.interval_ t.expiration_ (s.firesOf a t)
  alive : .cancelled ⟨a, t.sequence_⟩ ∉ s.system.log →
    ∃ u, s.system.queue.heap a = some u ∧ u.sequence_ = t.sequence_

/-- All timers that repeat are paced. -/
def AllPaced (s : TimerFiring) : Prop :=
  ∀ x ∈ s.made, x.2.repeat_ = true → Paced s x.1 x.2

section Steps

variable {s : TimerFiring} {m : Nat → Option Timer}

/-- A live timer with the number of one that was made is that timer. -/
theorem Inv.same_of_made (h : Inv s m) {a b : Nat} {t u : Timer} (hmade : (a, t) ∈ s.made)
    (hu : s.system.queue.heap b = some u) (hseq : u.sequence_ = t.sequence_) :
    b = a ∧ u.repeat_ = t.repeat_ := by
  obtain ⟨t₀, hmade₀, hdesc⟩ := h.live b u hu
  obtain ⟨rfl, rfl⟩ := Prod.mk.inj (h.made_inj _ hmade₀ _ hmade (hdesc.sequence.symm.trans hseq))
  exact ⟨rfl, hdesc.repeats⟩

/-- A step that starts no callback, keeps the batch, and deletes only what it notes down as
cancelled. -/
theorem AllPaced.frame (h : AllPaced s) {system : TimerSystem}
    (hbatch : system.batch = s.system.batch)
    (hheap : ∀ a u, system.queue.heap a = some u → s.system.queue.heap a = some u)
    (hlog : ∀ event ∈ s.system.log, event ∈ system.log)
    (hkept : ∀ a u, s.system.queue.heap a = some u →
      .cancelled (TimerQueue.idOf a u) ∉ system.log → system.queue.heap a = some u) :
    AllPaced { s with system := system } := by
  intro x hx hrepeat
  have hpaced := h x hx hrepeat
  refine ⟨hpaced.spaced, fun u hu => hpaced.interval u (hheap _ u hu), fun u hu hseq hnone => ?_,
    fun u hu hseq b hb => ?_, fun hnot => ?_⟩
  · rw [hbatch] at hnone
    exact hpaced.waiting u (hheap _ u hu) hseq hnone
  · rw [hbatch] at hb
    exact hpaced.started u (hheap _ u hu) hseq b hb
  · obtain ⟨u, hu, hseq⟩ := hpaced.alive fun hmem => hnot (hlog _ hmem)
    refine ⟨u, hkept _ u hu ?_, hseq⟩
    rw [TimerQueue.idOf, hseq]
    exact hnot

/-- A step that changes neither the objects nor the log. -/
theorem AllPaced.frame_same (h : AllPaced s) {system : TimerSystem}
    (hbatch : system.batch = s.system.batch) (hheap : system.queue.heap = s.system.queue.heap)
    (hlog : system.log = s.system.log) : AllPaced { s with system := system } := by
  refine h.frame hbatch (fun a u hu => hheap ▸ hu) (fun event he => ?_) fun a u hu _ => ?_
  · rw [hlog]
    exact he
  · rw [hheap]
    exact hu

theorem allPaced_newTimer (hinv : Inv s m) (h : AllPaced s) {a : Nat}
    (hfree : s.system.queue.heap a = none) (when : Timestamp) (interval : Nat) (repeats : Bool) :
    AllPaced { s with
      system := { s.system with
        queue := s.system.queue.store a (some ⟨when, interval, repeats, s.system.numCreated + 1⟩)
        numCreated := s.system.numCreated + 1
        created := a :: s.system.created }
      made := (a, ⟨when, interval, repeats, s.system.numCreated + 1⟩) :: s.made } := by
  intro x hx hrepeat
  rcases List.mem_cons.mp hx with rfl | hx
  · -- the new timer: its number is larger than those of all callbacks
    have hnone : s.firesOf a ⟨when, interval, repeats, s.system.numCreated + 1⟩ = [] := by
      refine List.filter_eq_nil_iff.mpr fun f hf heq => ?_
      have hle := hinv.fired_le hf
      have hseq := (of_decide_eq_true heq).2
      simp only at hseq
      omega
    have hself := TimerQueue.store_heap_self s.system.queue a
      (some ⟨when, interval, repeats, s.system.numCreated + 1⟩)
    refine ⟨?_, fun u hu _ => ?_, fun u hu _ _ => ?_, fun u hu hseq b hb hstarted => ?_,
      fun _ => ⟨_, hself, rfl⟩⟩
    · change Spaced _ _ (s.firesOf a _)
      rw [hnone]
      trivial
    · obtain rfl := Option.some.inj (hself.symm.trans hu)
      rfl
    · obtain rfl := Option.some.inj (hself.symm.trans hu)
      change when = dueAfter _ _ (s.firesOf a _)
      rw [hnone]
      rfl
    · -- its address was free, so it is not in the batch
      obtain ⟨_, v, hv⟩ := hinv.inv.batch_outside hb hstarted.1
      exact absurd (hfree.symm.trans hv) (by simp)
  · have hpaced := h x hx hrepeat
    -- what has the old number is not the new object
    have hold : ∀ u, (s.system.queue.store a
        (some ⟨when, interval, repeats, s.system.numCreated + 1⟩)).heap x.1 = some u →
        u.sequence_ = x.2.sequence_ → s.system.queue.heap x.1 = some u := by
      intro u hu hseq
      rcases TimerQueue.of_store_some hu with ⟨_, rfl⟩ | ⟨_, hu⟩
      · have hle := hinv.made_le x hx
        simp only at hseq
        omega
      · exact hu
    refine ⟨hpaced.spaced, fun u hu hseq => hpaced.interval u (hold u hu hseq) hseq,
      fun u hu hseq => hpaced.waiting u (hold u hu hseq) hseq,
      fun u hu hseq => hpaced.started u (hold u hu hseq) hseq, fun hnot => ?_⟩
    obtain ⟨u, hu, hseq⟩ := hpaced.alive hnot
    have hne : x.1 ≠ a := by
      intro heq
      rw [heq, hfree] at hu
      exact absurd hu (by simp)
    exact ⟨u, (TimerQueue.store_heap_of_ne s.system.queue hne _).trans hu, hseq⟩

/-- `cancelInLoop` deletes at most the timer that it notes down. -/
theorem allPaced_cancelInLoop (hinv : Inv s m) (h : AllPaced s) {id : TimerId}
    {system : TimerSystem}
    (hrun : s.system.cancelInLoop id = .ok system) : AllPaced { s with system := system } := by
  by_cases hid : id ∈ s.system.queue.activeTimers_
  · obtain ⟨a, t, ha, rfl⟩ := (hinv.inv.sound.indexes.active id).mp hid
    obtain rfl := Except.ok.inj ((TimerSystem.inv_cancel_scheduled hinv.inv ha).1.symm.trans hrun)
    refine h.frame rfl (fun b u hu => (TimerQueue.store_none_heap.mp hu).2)
      (fun event he => List.mem_append_left _ he) fun b u hu hnot => ?_
    refine TimerQueue.store_none_heap.mpr ⟨?_, hu⟩
    rintro rfl
    obtain rfl := Option.some.inj ((hinv.inv.sound.indexes.live b t ha).symm.trans hu)
    exact hnot (List.mem_append_right _ (List.mem_singleton.mpr rfl))
  · obtain rfl := Except.ok.inj ((TimerSystem.inv_cancel_other hinv.inv hid).1.symm.trans hrun)
    exact h.frame rfl (fun _ _ hu => hu) (fun event he => List.mem_append_left _ he)
      fun _ _ hu _ => hu

theorem allPaced_addInLoop (h : AllPaced s) {system system' : TimerSystem} {a : Nat}
    (hheld : TimerSystem.Inv [a] system m) (hbatch : system.batch = s.system.batch)
    (hqueue : system.queue = s.system.queue) (hlog : system.log = s.system.log) {now : Timestamp}
    (hrun : system.addInLoop a now = .ok system') : AllPaced { s with system := system' } := by
  obtain ⟨t, ht⟩ := hheld.held_live
  obtain ⟨fd, hfd⟩ := TimerQueue.added_eq system.queue a t now
  have hadd := (TimerSystem.inv_addInLoop hheld ht now).1
  rw [hfd] at hadd
  obtain rfl := Except.ok.inj (hadd.symm.trans hrun)
  have hheap : system.queue.heap = s.system.queue.heap := by rw [hqueue]
  exact h.frame_same hbatch hheap hlog

/-- At the beginning of `handleRead` no timer of the batch has been started. -/
theorem allPaced_handleRead (hinv : Inv s m) (h : AllPaced s) (hbatch : s.system.batch = none)
    {now : Timestamp} {fired : Bool} {system : TimerSystem}
    (hrun : s.system.step (.handleRead now fired) = .ok system) :
    AllPaced { s with system := system, begun := s.system.log.length } := by
  obtain ⟨expired, timers, active, fd, hstep, _, _⟩ :=
    TimerSystem.inv_handleRead hinv.inv hbatch now fired
  obtain rfl := Except.ok.inj (hstep.symm.trans hrun)
  intro x hx hrepeat
  have hpaced := h x hx hrepeat
  refine ⟨hpaced.spaced, hpaced.interval, fun u hu hseq _ => hpaced.waiting u hu hseq ?_,
    fun u hu hseq b hb hstarted => ?_, hpaced.alive⟩
  · rw [hbatch]
    exact fun b hb => absurd hb (by simp)
  · obtain rfl := Option.some.inj hb
    exact absurd hstarted.1 hstarted.2

/-- A callback is started: it is the next one of its timer. -/
theorem allPaced_runNext (hinv : Inv s m) (h : AllPaced s) (hlegal : s.system.Legal .runNext)
    {system : TimerSystem} (hrun : s.system.step .runNext = .ok system) :
    AllPaced { s with system := system, fires := s.fires ++ (nextFire s.system).toList } := by
  obtain ⟨expired, e, todo, now, hbatch⟩ := hlegal.runNext
  obtain ⟨t, ht, hstep, _⟩ := TimerSystem.inv_runNext hinv.inv hbatch
  obtain rfl := Except.ok.inj (hstep.symm.trans hrun)
  have hnext : nextFire s.system = some ⟨e.timer, t, now⟩ := by
    simp [nextFire, hbatch, ht]
  have hsuffix : e :: todo <:+ expired := hinv.inv.todo _ hbatch
  have he : e ∈ expired := hsuffix.subset List.mem_cons_self
  have hnodup : (e.timer :: todo.map Entry.timer).Nodup :=
    (hinv.inv.batch_nodup hbatch).sublist (hsuffix.sublist.map Entry.timer)
  intro x hx hrepeat
  have hpaced := h x hx hrepeat
  have halive : TimerEvent.cancelled ⟨x.1, x.2.sequence_⟩ ∉
      s.system.log ++ [.started (TimerQueue.idOf e.timer t)] →
      ∃ u, s.system.queue.heap x.1 = some u ∧ u.sequence_ = x.2.sequence_ :=
    fun hnot => hpaced.alive fun hmem => hnot (List.mem_append_left _ hmem)
  by_cases hself : e.timer = x.1 ∧ t.sequence_ = x.2.sequence_
  · obtain ⟨haddr, hseq⟩ := hself
    have hlive : s.system.queue.heap x.1 = some t := haddr ▸ ht
    have hfires : firesOf { s with fires := s.fires ++ (nextFire s.system).toList } x.1 x.2 =
        s.firesOf x.1 x.2 ++ [⟨e.timer, t, now⟩] := by
      simp [firesOf, hnext, haddr, hseq]
    have hexpiration : t.expiration_ = dueAfter x.2.interval_ x.2.expiration_
      (s.firesOf x.1 x.2) := by
      refine hpaced.waiting t hlive hseq fun b hb hstarted => hstarted.2 ?_
      obtain rfl := Option.some.inj (hbatch.symm.trans hb)
      exact haddr ▸ List.mem_cons_self
    refine ⟨?_, hpaced.interval, fun u hu _ hnone => ?_, fun u hu _ b hb _ => ?_, halive⟩
    · change Spaced _ _ (firesOf { s with fires := _ } x.1 x.2)
      rw [hfires]
      exact hpaced.spaced.concat hexpiration (hinv.due _ hbatch e he t ht)
    · -- it is in the batch and no longer to do
      refine absurd ⟨haddr ▸ List.mem_map_of_mem he, ?_⟩ (hnone _ rfl)
      exact haddr ▸ (List.nodup_cons.mp hnodup).1
    · obtain rfl := Option.some.inj hb
      change _ = dueAfter _ _ (firesOf { s with fires := _ } x.1 x.2)
      rw [hfires, dueAfter_concat]
  · have hfires : firesOf { s with fires := s.fires ++ (nextFire s.system).toList } x.1 x.2 =
        s.firesOf x.1 x.2 := by
      simp [firesOf, hnext, hself]
    -- another timer of the batch is to do as before
    have hother : ∀ u, s.system.queue.heap x.1 = some u → u.sequence_ = x.2.sequence_ →
        (StartedIn ⟨expired, todo, now⟩ x.1 ↔ StartedIn ⟨expired, e :: todo, now⟩ x.1) := by
      intro u hu hseq
      have hne : x.1 ≠ e.timer := by
        intro heq
        refine hself ⟨heq.symm, ?_⟩
        rw [heq, ht] at hu
        rw [Option.some.inj hu, hseq]
      simp [StartedIn, hne]
    refine ⟨?_, hpaced.interval, fun u hu hseq hnone => ?_,
      fun u hu hseq b hb hstarted => ?_, halive⟩
    · change Spaced _ _ (firesOf { s with fires := _ } x.1 x.2)
      rw [hfires]
      exact hpaced.spaced
    · change _ = dueAfter _ _ (firesOf { s with fires := _ } x.1 x.2)
      rw [hfires]
      refine hpaced.waiting u hu hseq fun b hb hstarted => ?_
      obtain rfl := Option.some.inj (hbatch.symm.trans hb)
      exact hnone _ rfl ((hother u hu hseq).mpr hstarted)
    · obtain rfl := Option.some.inj hb
      change _ = dueAfter _ _ (firesOf { s with fires := _ } x.1 x.2)
      rw [hfires]
      have hbefore := hpaced.started u hu hseq _ hbatch ((hother u hu hseq).mp hstarted)
      exact hbefore

/-- `reset`: `restart` sets the time that the callback left. -/
theorem allPaced_finishRead (hinv : Inv s m) (h : AllPaced s) {clock : Timestamp}
    (hlegal : s.system.Legal (.finishRead clock)) {system : TimerSystem}
    (hrun : s.system.step (.finishRead clock) = .ok system) :
    AllPaced { s with system := system } := by
  obtain ⟨b, hbatch⟩ := hlegal.finishRead
  have htodo : b.todo = [] := by
    have htodo := hlegal.2
    rw [hbatch] at htodo
    exact htodo
  obtain ⟨heap, timers, active, m', hstep, _, hresets⟩ :=
    TimerSystem.inv_finishRead hinv.inv hbatch clock
  obtain rfl := Except.ok.inj (hstep.symm.trans hrun)
  intro x hx hrepeat
  have hpaced := h x hx hrepeat
  have hnone : ∀ b' ∈ s.system.batch, x.1 ∉ b.expired.map Entry.timer → ¬ StartedIn b' x.1 := by
    intro b' hb' hnot hstarted
    obtain rfl := Option.some.inj (hbatch.symm.trans hb')
    exact hnot hstarted.1
  refine ⟨hpaced.spaced, fun u hu hseq => ?_, fun u hu hseq _ => ?_,
    fun _ _ _ _ hb => absurd hb (by simp),
    fun hnot => ?_⟩
  · rcases hresets.survivor hu with ⟨_, hu⟩ | ⟨_, v, hv, hrep, _, rfl⟩
    · exact hpaced.interval u hu hseq
    · rw [TimerQueue.restart_sequence] at hseq
      rw [Timer.restart, if_pos hrep]
      exact hpaced.interval v hv hseq
  · rcases hresets.survivor hu with ⟨hout, hu⟩ | ⟨hin, v, hv, hrep, _, rfl⟩
    · exact hpaced.waiting u hu hseq fun b' hb' => hnone b' hb' hout
    · rw [TimerQueue.restart_sequence] at hseq
      rw [Timer.restart, if_pos hrep]
      change b.now.addTime v.interval_ = _
      rw [hpaced.interval v hv hseq]
      exact hpaced.started v hv hseq b hbatch ⟨hin, by rw [htodo]; exact List.not_mem_nil⟩
  · obtain ⟨u, hu, hseq⟩ := hpaced.alive hnot
    by_cases hin : x.1 ∈ b.expired.map Entry.timer
    · obtain ⟨e, he, hea⟩ := List.mem_map.mp hin
      have hrep : u.repeat_ = true := (hinv.same_of_made hx hu hseq).2.trans hrepeat
      have hkept : TimerQueue.idOf x.1 u ∉ s.system.queue.cancelingTimers_ := by
        intro hmem
        have hcancelled := (hinv.noted b hbatch e he u (hea ▸ hu)).mp (hea ▸ hmem)
        rw [TimerQueue.idOf, hea, hseq] at hcancelled
        exact hnot (List.mem_of_mem_drop hcancelled)
      refine ⟨u.restart b.now, (hresets.of_live hin hu).1.trans ?_,
        (TimerQueue.restart_sequence u b.now).trans hseq⟩
      rw [TimerQueue.renewed, if_pos ⟨hrep, hkept⟩]
    · exact ⟨u, (hresets.other x.1 hin).1.trans hu, hseq⟩

theorem allPaced_step (hinv : Inv s m) (h : AllPaced s) {action : Action}
    (hlegal : s.system.Legal action) {s' : TimerFiring} (hstep : s.step action = .ok s') :
    AllPaced s' := by
  obtain ⟨system, hrun, hrecord⟩ := bind_eq_ok_iff.mp hstep
  obtain rfl := Except.ok.inj hrecord
  cases action with
  | newTimer a when interval repeats =>
      obtain rfl := Except.ok.inj hrun
      exact allPaced_newTimer hinv h hlegal.1 when interval repeats
  | queueAdd a =>
      obtain rfl := Except.ok.inj hrun
      exact h.frame_same rfl rfl rfl
  | addNow a now =>
      exact allPaced_addInLoop h (TimerSystem.inv_handOver hinv.inv hlegal) rfl rfl rfl hrun
  | queueCancel id =>
      obtain rfl := Except.ok.inj hrun
      exact h.frame_same rfl rfl rfl
  | cancelNow id => exact allPaced_cancelInLoop hinv h hrun
  | runFunctor now =>
      rcases hlegal.runFunctor with ⟨a, queued, hqueued, hfunctor⟩ | ⟨id, queued, hqueued, hfunctor⟩
      · have hheld := TimerSystem.inv_takeAdd hinv.inv hqueued
        exact allPaced_addInLoop h hheld rfl rfl rfl (hfunctor.symm.trans hrun)
      · have htaken := TimerSystem.inv_takeCancel hinv.inv hqueued
        have hinv' : Inv { s with system := { s.system with queued := queued } } m :=
          hinv.frame_same htaken rfl rfl rfl rfl rfl
        have h' : AllPaced { s with system := { s.system with queued := queued } } :=
          h.frame_same rfl rfl rfl
        exact allPaced_cancelInLoop hinv' h' (hfunctor.symm.trans hrun)
  | handleRead now fired => exact allPaced_handleRead hinv h hlegal hrun
  | runNext => exact allPaced_runNext hinv h hlegal hrun
  | finishRead clock => exact allPaced_finishRead hinv h hlegal hrun

end Steps

/-! ## What is promised -/

/-- How a timer recurs that was made as `t` at the address `a`.  Unless it was cancelled it is
alive, and is on its way to the loop, in the batch, or scheduled once, for its next round. -/
structure Recurs (s : TimerFiring) (a : Nat) (t : Timer) : Prop where
  spaced : Spaced t.interval_ t.expiration_ (s.firesOf a t)
  notEarly : (∀ f ∈ s.firesOf a t, -2 ^ 63 ≤ f.now.microSecondsSinceEpoch_ ∧
      f.now.microSecondsSinceEpoch_ + t.interval_ < 2 ^ 63) →
    ∀ (i : Nat) (hi : i < (s.firesOf a t).length),
      t.expiration_.microSecondsSinceEpoch_ + i * t.interval_ ≤
        ((s.firesOf a t)[i]).now.microSecondsSinceEpoch_
  waits : .cancelled ⟨a, t.sequence_⟩ ∉ s.system.log →
    ∃ u, s.system.queue.heap a = some u ∧ u.sequence_ = t.sequence_ ∧
      (a ∈ s.system.outside ∨
        s.system.queue.ScheduledOnce a u ∧
          u.expiration_ = dueAfter t.interval_ t.expiration_ (s.firesOf a t))

theorem AllPaced.recurs {s : TimerFiring} {m : Nat → Option Timer} (hinv : Inv s m) (h : AllPaced s)
    {a : Nat} {t : Timer} (hmade : (a, t) ∈ s.made) (hrepeat : t.repeat_ = true) :
    Recurs s a t := by
  have hpaced : Paced s a t := h (a, t) hmade hrepeat
  refine ⟨hpaced.spaced, hpaced.spaced.not_early, fun hnot => ?_⟩
  obtain ⟨u, hu, hseq⟩ := hpaced.alive hnot
  refine ⟨u, hu, hseq, ?_⟩
  rcases hinv.inv.sound.owned a u hu with hm | hout
  · refine .inr ⟨hinv.inv.sound.indexes.scheduledOnce hm,
      hpaced.waiting u hu hseq fun b hb hstarted => ?_⟩
    -- a timer of the batch is not scheduled
    have houtside := (hinv.inv.batch_outside hb hstarted.1).1
    exact absurd (houtside.symm.trans hm) (by simp)
  · exact .inl hout

/-- In every run, for every timer that repeats: each callback is started for the time that the
one before left, `handleRead`'s time plus the interval, and not earlier; so, while the sums
fit, callback `i` is not started before `i` intervals have passed since the first was due.
And unless the timer was cancelled, it goes on. -/
theorem repeating_timers_recur (actions : List Action) (hlegal : machine.LegalRun start actions) :
    ∃ s, machine.run start actions = .ok s ∧
      ∀ a t, (a, t) ∈ s.made → t.repeat_ = true → Recurs s a t := by
  obtain ⟨s, hrun, ⟨m, hinv⟩, hpaced⟩ := Machine.run_invariant
    (fun s => (∃ m, Inv s m) ∧ AllPaced s)
    (by
      rintro s action ⟨⟨m, hinv⟩, hpaced⟩ hlegal
      obtain ⟨s', m', hstep, hinv'⟩ := inv_step hinv hlegal
      exact ⟨s', hstep, ⟨m', hinv'⟩, allPaced_step hinv hpaced hlegal hstep⟩)
    ⟨⟨_, inv_start⟩, fun _ hx => absurd hx List.not_mem_nil⟩ hlegal
  exact ⟨s, hrun, fun a t hmade hrepeat => hpaced.recurs hinv hmade hrepeat⟩

/-- A timer with the interval 3 that was due at 5: its callback is started at 10 and, though a
round was due at 13, at 20; meanwhile a timer is added and cancelled in a callback. -/
def recurringRun : List Action :=
  [.newTimer 8 ⟨5⟩ 3 true, .addNow 8 ⟨1⟩, .handleRead ⟨10⟩ true, .runNext, .newTimer 16 ⟨15⟩ 2 true,
    .addNow 16 ⟨11⟩, .finishRead ⟨12⟩, .handleRead ⟨20⟩ true, .runNext, .cancelNow ⟨16, 2⟩,
      .runNext,
    .finishRead ⟨21⟩]

theorem repeating_timers_recur_late :
    machine.LegalRun start recurringRun ∧ ∃ s, machine.run start recurringRun = .ok s ∧
      (∀ a t, (a, t) ∈ s.made → t.repeat_ = true → Recurs s a t) := by
  have hlegal : machine.LegalRun start recurringRun := by decide +kernel
  exact ⟨hlegal, repeating_timers_recur recurringRun hlegal⟩

end TimerFiring

end Muduo.Net
