/-
  Net/TimerDeadline.lean --- the timerfd and the earliest timer.

  The timerfd is set in two places: by `addTimerInLoop`, when the new timer becomes
  the earliest, and at the end of `reset`, when the earliest timer has a valid time.
  Cancelling never sets it.  `timerfd_covers_earliest` says that this is enough: outside
  `handleRead` the timerfd fires in time for the earliest timer.

  `howMuchTimeFromNow` subtracts two `int64_t`.  The difference of a time far in the
  past and the present leaves their range and comes out as a time far in the future:
  a timer added with such a time is forgotten (`far_past_timer_is_forgotten`).
-/
import Mathlib.Algebra.Order.Group.Int
import Muduo.Net.TimerRuns

set_option autoImplicit false

namespace Muduo.Net

open Muduo.Foundation Muduo.Base

/-! ## Setting the timerfd -/

/-- The deadline is at most `expiration`, or 100 microseconds after the last arming. -/
def Timerfd.Covers (fd : Timerfd) (expiration : Timestamp) : Prop :=
  ∃ d, fd.deadline = some d ∧ d ≤ max expiration.microSecondsSinceEpoch_ (fd.armedAt + 100)

theorem Timerfd.Covers.mono {fd : Timerfd} {e e' : Timestamp} (h : fd.Covers e) (hle : e ≤ e') :
    fd.Covers e' := by
  obtain ⟨d, hd, hdle⟩ := h
  exact ⟨d, hd, hdle.trans (max_le_max_right _ (Timestamp.le_iff.mp hle))⟩

/-- A time is not so far in the past that its distance leaves the range of
`int64_t`. -/
def Representable (when now : Timestamp) : Prop :=
  -2 ^ 63 ≤ when.microSecondsSinceEpoch_ - now.microSecondsSinceEpoch_

instance (when now : Timestamp) : Decidable (Representable when now) :=
  inferInstanceAs (Decidable (_ ≤ _))

/-- The timerfd is set for the time that it was asked for. -/
theorem settime_covers {when now : Timestamp} (hwhen : when.microSecondsSinceEpoch_ < 2 ^ 63)
    (hnow : 0 < now.microSecondsSinceEpoch_) (h : Representable when now) :
    (Timerfd.settime now (howMuchTimeFromNow when now)).Covers when := by
  have hdiff : int64 (when.microSecondsSinceEpoch_ - now.microSecondsSinceEpoch_) =
      when.microSecondsSinceEpoch_ - now.microSecondsSinceEpoch_ := by
    refine int64_of_mem h ?_
    omega
  refine ⟨_, rfl, ?_⟩
  simp only [howMuchTimeFromNow, hdiff, Timestamp.kMicroSecondsPerSecond, Timerfd.settime]
  split <;> omega

namespace TimerSystem

/-! ## Runs -/

/-- A reading of the clock. -/
def IsClock (now : Timestamp) : Prop :=
  0 < now.microSecondsSinceEpoch_ ∧ now.microSecondsSinceEpoch_ < 2 ^ 63

instance (now : Timestamp) : Decidable (IsClock now) := inferInstanceAs (Decidable (_ ∧ _))

/-- `now + interval` does not overflow for the timers that `reset` restarts. -/
def IntervalsFit (s : TimerSystem) : Prop :=
  ∀ b ∈ s.batch, ∀ e ∈ b.expired, ∀ t ∈ s.queue.heap e.timer, t.repeat_ = true →
    b.now.microSecondsSinceEpoch_ + t.interval_ < 2 ^ 63

instance (s : TimerSystem) : Decidable s.IntervalsFit :=
  inferInstanceAs (Decidable (∀ b ∈ s.batch, ∀ e ∈ b.expired, ∀ t ∈ s.queue.heap e.timer,
    t.repeat_ = true → b.now.microSecondsSinceEpoch_ + t.interval_ < 2 ^ 63))

/-- The clock is past the Epoch, and additions of intervals do not overflow. -/
def ClockSane (s : TimerSystem) : Action → Prop
  | .addNow _ now => IsClock now
  | .runFunctor now => IsClock now
  | .handleRead now _ => IsClock now
  | .finishRead clock => IsClock clock ∧ s.IntervalsFit
  | _ => True

/-- A timer that becomes the earliest when it is inserted is not too far in the
past. -/
def InsertsRepresentable (s : TimerSystem) (timer : Nat) (now : Timestamp) : Prop :=
  ∀ t ∈ s.queue.heap timer, s.queue.earliestChanged t.expiration_ = true →
    Representable t.expiration_ now

instance (s : TimerSystem) (timer : Nat) (now : Timestamp) :
    Decidable (s.InsertsRepresentable timer now) :=
  inferInstanceAs (Decidable (∀ t ∈ s.queue.heap timer, _ → _))

/-- `addTimerInLoop` is executed only in such states. -/
def NotFarPast (s : TimerSystem) : Action → Prop
  | .addNow timer now => s.InsertsRepresentable timer now
  | .runFunctor now => ∀ timer ∈ s.queued.head?.bind TimerFunctor.adds,
      s.InsertsRepresentable timer now
  | _ => True

/-! ## The invariant -/

/-- The timerfd covers the earliest timer.  While callbacks run this is only needed
for timers with an invalid time, since `reset` sets the timerfd for the others. -/
structure DeadlineInv (s : TimerSystem) (m : Nat → Option Timer) : Prop where
  inv : Inv [] s m
  range : ∀ a t, s.queue.heap a = some t → t.expiration_.microSecondsSinceEpoch_ < 2 ^ 63
  batch : ∀ b ∈ s.batch, 0 < b.now.microSecondsSinceEpoch_
  covered : ∀ e, s.queue.timers_.first = some e → (s.batch = none ∨ e.expiration.valid = false) →
    s.queue.timerfd.Covers e.expiration

theorem deadlineInv_start : DeadlineInv start fun _ => none where
  inv := inv_start
  range _ _ h := absurd h (by simp [start, TimerQueue.new])
  batch _ h := absurd h (by simp [start])
  covered _ h := absurd h (by simp [start, TimerQueue.new, SortedSet.first, SortedSet.empty])

theorem valid_eq_false_iff {t : Timestamp} : t.valid = false ↔ t.microSecondsSinceEpoch_ ≤ 0 := by
  simp [Timestamp.valid]

section Steps

variable {s : TimerSystem} {m : Nat → Option Timer} {a : Nat}

/-- An earlier timer that is covered covers a later one. -/
theorem DeadlineInv.covers_of_le (h : DeadlineInv s m) {e : Entry} {when : Timestamp}
    (he : e ∈ s.queue.timers_) (hle : e.expiration ≤ when)
    (hcase : s.batch = none ∨ when.valid = false) : s.queue.timerfd.Covers when := by
  obtain ⟨e₀, hfirst⟩ := SortedSet.exists_first he
  have hle₀ : e₀.expiration ≤ when := (Entry.expiration_le (SortedSet.first_le hfirst he)).trans hle
  refine (h.covered e₀ hfirst (hcase.imp_right fun hinvalid => ?_)).mono hle₀
  rw [valid_eq_false_iff] at hinvalid ⊢
  exact (Timestamp.le_iff.mp hle₀).trans hinvalid

/-- The earliest timer after an insertion is the new one, or one that was there. -/
theorem first_schedule {q : TimerQueue} {t : Timer} {e : Entry}
    (h : (q.schedule a t).timers_.first = some e) :
    e = TimerQueue.entryOf a t ∨ e ∈ q.timers_ :=
  SortedSet.mem_insert.mp (SortedSet.mem_of_first h)

/-- `addTimerInLoop` keeps the earliest timer covered. -/
theorem DeadlineInv.added_covers (h : DeadlineInv s m) {t : Timer} (ht : s.queue.heap a = some t)
    {now : Timestamp} (hnow : IsClock now) (hfit : s.InsertsRepresentable a now) {e : Entry}
    (hfirst : (s.queue.added a t now).timers_.first = some e)
    (hcase : s.batch = none ∨ e.expiration.valid = false) :
    (s.queue.added a t now).timerfd.Covers e.expiration := by
  have hrange := h.range a t ht
  cases hchanged : s.queue.earliestChanged t.expiration_ with
  | true =>
      have hadded : s.queue.added a t now =
          (s.queue.schedule a t).resetTimerfd t.expiration_ now := by
        simp [TimerQueue.added, hchanged]
      rw [hadded] at hfirst ⊢
      -- the timer is earlier than all others
      have hle : t.expiration_ ≤ e.expiration := by
        rcases first_schedule hfirst with rfl | hmem
        · exact le_rfl
        · obtain ⟨e₀, hfirst₀⟩ := SortedSet.exists_first hmem
          have hlt : t.expiration_ < e₀.expiration := by
            simpa [TimerQueue.earliestChanged, hfirst₀] using hchanged
          exact (le_of_lt hlt).trans (Entry.expiration_le (SortedSet.first_le hfirst₀ hmem))
      exact (settime_covers hrange hnow.1 (hfit t ht hchanged)).mono hle
  | false =>
      have hadded : s.queue.added a t now = s.queue.schedule a t := by
        simp [TimerQueue.added, hchanged]
      rw [hadded] at hfirst ⊢
      rcases first_schedule hfirst with rfl | hmem
      · -- another timer is as early as the new one
        cases hfirst₀ : s.queue.timers_.first with
        | none => simp [TimerQueue.earliestChanged, hfirst₀] at hchanged
        | some e₀ =>
            have hle : e₀.expiration ≤ t.expiration_ := by
              simpa [TimerQueue.earliestChanged, hfirst₀] using hchanged
            exact h.covers_of_le (SortedSet.mem_of_first hfirst₀) hle hcase
      · exact h.covers_of_le hmem le_rfl hcase

theorem deadlineInv_newTimer (h : DeadlineInv s m) {when : Timestamp} {interval : Nat}
    {repeats : Bool} (hlegal : s.Legal (.newTimer a when interval repeats)) :
    DeadlineInv { s with
      queue := s.queue.store a (some ⟨when, interval, repeats, s.numCreated + 1⟩)
      numCreated := s.numCreated + 1
      created := a :: s.created } m := by
  obtain ⟨hfree, haddr, _, hwhen⟩ := hlegal
  refine ⟨inv_newTimer h.inv hfree haddr when interval repeats, ?_, h.batch, h.covered⟩
  intro b t ht
  rcases TimerQueue.of_store_some ht with ⟨_, rfl⟩ | ⟨_, ht⟩
  · exact hwhen
  · exact h.range b t ht

theorem deadlineInv_addInLoop (h : DeadlineInv s m) {s₁ : TimerSystem} (hinv : Inv [a] s₁ m)
    (hqueue : s₁.queue = s.queue) (hbatch : s₁.batch = s.batch) {now : Timestamp}
    (hnow : IsClock now)
    (hfit : s.InsertsRepresentable a now) :
    ∃ s' m', s₁.addInLoop a now = .ok s' ∧ DeadlineInv s' m' := by
  obtain ⟨t, ht⟩ := hinv.held_live
  obtain ⟨hrun, hinv'⟩ := inv_addInLoop hinv ht now
  rw [hqueue] at ht
  rw [hqueue] at hrun hinv'
  refine ⟨_, _, hrun, hinv', ?_, ?_, ?_⟩
  · obtain ⟨fd, hfd⟩ := TimerQueue.added_eq s.queue a t now
    rw [hfd]
    exact h.range
  · exact hbatch ▸ h.batch
  · intro e hfirst hcase
    exact h.added_covers ht hnow hfit hfirst (hbatch ▸ hcase)

theorem deadlineInv_cancelInLoop (h : DeadlineInv s m) (id : TimerId) :
    ∃ s' m', s.cancelInLoop id = .ok s' ∧ DeadlineInv s' m' := by
  by_cases hid : id ∈ s.queue.activeTimers_
  · obtain ⟨a, t, ha, rfl⟩ := (h.inv.sound.indexes.active id).mp hid
    obtain ⟨hrun, hinv⟩ := inv_cancel_scheduled h.inv ha
    refine ⟨_, _, hrun, hinv, ?_, h.batch, ?_⟩
    · exact fun b u hb => h.range b u (TimerQueue.store_none_heap.mp hb).2
    · intro e hfirst hcase
      have hmem : e ∈ s.queue.timers_ := (SortedSet.mem_erase.mp (SortedSet.mem_of_first hfirst)).2
      exact h.covers_of_le hmem le_rfl hcase
  · obtain ⟨hrun, hinv⟩ := inv_cancel_other h.inv hid
    exact ⟨_, _, hrun, hinv, h.range, h.batch, h.covered⟩

/-- What is left after `getExpired` is in the future, and has a valid time. -/
theorem deadlineInv_handleRead (h : DeadlineInv s m) (hbatch : s.batch = none) {now : Timestamp}
    (hnow : IsClock now) (fired : Bool) :
    ∃ s' m', s.step (.handleRead now fired) = .ok s' ∧ DeadlineInv s' m' := by
  obtain ⟨expired, timers, active, fd, hrun, hinv, hdue⟩ := inv_handleRead h.inv hbatch now fired
  refine ⟨_, _, hrun, hinv, h.range, ?_, ?_⟩
  · intro b hb
    obtain rfl := Option.some.inj hb
    exact hnow.1
  · rintro e hfirst (hnone | hinvalid)
    · exact absurd hnone (by simp)
    · obtain ⟨a, t, ha, rfl⟩ := (hinv.sound.indexes.timers e).mp (SortedSet.mem_of_first hfirst)
      obtain ⟨hnot, ha⟩ := TimerQueue.without_eq_some.mp ha
      have hpast : t.expiration_ ≤ now := by
        rw [Timestamp.le_iff]
        exact (valid_eq_false_iff.mp hinvalid).trans (le_of_lt hnow.1)
      exact absurd ((hdue a).mpr ⟨t, ha, hpast⟩) hnot

theorem deadlineInv_runNext (h : DeadlineInv s m) {expired todo : List Entry} {e : Entry}
    {now : Timestamp} (hbatch : s.batch = some ⟨expired, e :: todo, now⟩) :
    ∃ s' m', s.step .runNext = .ok s' ∧ DeadlineInv s' m' := by
  obtain ⟨_, _, hrun, hinv⟩ := inv_runNext h.inv hbatch
  refine ⟨_, m, hrun, hinv, h.range, ?_, ?_⟩
  · intro b hb
    obtain rfl := Option.some.inj hb
    exact h.batch ⟨expired, e :: todo, now⟩ hbatch
  · rintro e' hfirst (hnone | hinvalid)
    · exact absurd hnone (by simp)
    · exact h.covered e' hfirst (.inr hinvalid)

/-- A restarted timer has a valid time. -/
theorem restart_expiration {now : Timestamp} {t : Timer} (hnow : 0 < now.microSecondsSinceEpoch_)
    (hrepeat : t.repeat_ = true) (hfit : now.microSecondsSinceEpoch_ + t.interval_ < 2 ^ 63) :
    (t.restart now).expiration_.valid = true ∧
      (t.restart now).expiration_.microSecondsSinceEpoch_ < 2 ^ 63 := by
  have hsum : int64 (now.microSecondsSinceEpoch_ + t.interval_) =
      now.microSecondsSinceEpoch_ + t.interval_ := int64_of_mem (by omega) hfit
  simp only [Timer.restart, hrepeat, if_true, Timestamp.addTime, hsum, Timestamp.valid,
    decide_eq_true_eq]
  omega

theorem deadlineInv_finishRead (h : DeadlineInv s m) {b : Batch} (hbatch : s.batch = some b)
    {clock : Timestamp} (hclock : IsClock clock) (hfit : s.IntervalsFit) :
    ∃ s' m', s.step (.finishRead clock) = .ok s' ∧ DeadlineInv s' m' := by
  obtain ⟨heap, timers, active, m', hrun, hinv, hresets⟩ := inv_finishRead h.inv hbatch clock
  have hnow := h.batch b hbatch
  -- a timer of the batch that is alive afterwards was restarted
  have hrestarted : ∀ a ∈ b.expired.map Entry.timer, ∀ t', heap a = some t' →
      t'.expiration_.valid = true ∧ t'.expiration_.microSecondsSinceEpoch_ < 2 ^ 63 := by
    intro a ha t' ht'
    rcases hresets.survivor ht' with ⟨hnot, _⟩ | ⟨_, t, ht, hrepeat, _, rfl⟩
    · exact absurd ha hnot
    · obtain ⟨e, he, rfl⟩ := List.mem_map.mp ha
      exact restart_expiration hnow hrepeat (hfit b hbatch e he t ht hrepeat)
  have hrange : ∀ a t, heap a = some t → t.expiration_.microSecondsSinceEpoch_ < 2 ^ 63 := by
    intro a t ht
    by_cases ha : a ∈ b.expired.map Entry.timer
    · exact (hrestarted a ha t ht).2
    · exact h.range a t ((hresets.other a ha).1.symm.trans ht)
  refine ⟨_, m', hrun, hinv, hrange, fun _ hb => absurd hb (by simp), ?_⟩
  intro e hfirst _
  obtain ⟨a, t, ha, rfl⟩ := (hinv.sound.indexes.timers e).mp (SortedSet.mem_of_first hfirst)
  have hlive : heap a = some t := hinv.sound.indexes.live a t ha
  have hfirst' : timers.first = some (TimerQueue.entryOf a t) := hfirst
  show (TimerQueue.rearmed s.queue.timerfd timers clock).Covers t.expiration_
  cases hvalid : t.expiration_.valid with
  | true =>
      have hpos : 0 < t.expiration_.microSecondsSinceEpoch_ := by
        simpa [Timestamp.valid] using hvalid
      have hlt := hclock.2
      simp only [TimerQueue.rearmed, hfirst', TimerQueue.entryOf, hvalid, if_true]
      refine settime_covers (hrange a t hlive) hclock.1 ?_
      unfold Representable
      omega
  | false =>
      -- it was there before, so the timerfd was set when it was inserted
      have hnot : a ∉ b.expired.map Entry.timer := by
        intro hmem
        exact absurd ((hrestarted a hmem t hlive).1.symm.trans hvalid) (by simp)
      have hold : TimerQueue.entryOf a t ∈ s.queue.timers_ :=
        h.inv.sound.indexes.timers.mem ((hresets.other a hnot).2.symm.trans ha)
      simp only [TimerQueue.rearmed, hfirst', TimerQueue.entryOf, hvalid]
      exact h.covers_of_le hold le_rfl (.inr hvalid)

end Steps

/-- Every step that adds no timer from too far in the past succeeds and keeps the
invariant. -/
theorem deadlineInv_step {s : TimerSystem} {m : Nat → Option Timer} (h : DeadlineInv s m)
    {action : Action} (hlegal : s.Legal action) (hclock : s.ClockSane action)
    (hpast : s.NotFarPast action) : ∃ s' m', s.step action = .ok s' ∧ DeadlineInv s' m' := by
  cases action with
  | newTimer timer when interval repeats =>
      exact ⟨_, m, rfl, deadlineInv_newTimer h hlegal⟩
  | queueAdd timer =>
      exact ⟨_, m, rfl, inv_queueAdd (inv_handOver h.inv hlegal), h.range, h.batch, h.covered⟩
  | addNow timer now =>
      exact deadlineInv_addInLoop h (inv_handOver h.inv hlegal) rfl rfl hclock hpast
  | queueCancel id => exact ⟨_, m, rfl, inv_queueCancel h.inv id, h.range, h.batch, h.covered⟩
  | cancelNow id => exact deadlineInv_cancelInLoop h id
  | runFunctor now =>
      rcases hlegal.runFunctor with ⟨a, queued, hqueued, hstep⟩ | ⟨id, queued, hqueued, hstep⟩
      · have hfit : s.InsertsRepresentable a now := hpast a (by rw [hqueued]; rfl)
        rw [hstep]
        exact deadlineInv_addInLoop h (inv_takeAdd h.inv hqueued) rfl rfl hclock hfit
      · have h₁ : DeadlineInv { s with queued := queued } m :=
          ⟨inv_takeCancel h.inv hqueued, h.range, h.batch, h.covered⟩
        rw [hstep]
        exact deadlineInv_cancelInLoop h₁ id
  | handleRead now fired => exact deadlineInv_handleRead h hlegal hclock fired
  | runNext =>
      obtain ⟨expired, e, todo, now, hbatch⟩ := hlegal.runNext
      exact deadlineInv_runNext h hbatch
  | finishRead clock =>
      obtain ⟨b, hbatch⟩ := hlegal.finishRead
      exact deadlineInv_finishRead h hbatch hclock.1 hclock.2

/-- One clock past the Epoch serves `Timestamp::now` and the timerfd. -/
def clockedMachine : Machine TimerSystem Action := machine.restrict ClockSane

/-- In every run that adds no timer from so far in the past that its distance to the
present overflows, in every state outside `handleRead`: if there are timers, the timerfd
is armed or has fired unread, and its deadline is at most the earliest expiration or
100 microseconds after the last arming. -/
theorem timerfd_covers_earliest {actions : List Action}
    (h : (clockedMachine.restrict NotFarPast).LegalRun start actions) :
    ∃ s, machine.run start actions = .ok s ∧
      (s.batch = none → ∀ e, s.queue.timers_.first = some e →
        ∃ d, s.queue.timerfd.deadline = some d ∧
          d ≤ max e.expiration.microSecondsSinceEpoch_ (s.queue.timerfd.armedAt + 100)) := by
  obtain ⟨s, hrun, m, hinv⟩ := Machine.run_invariant (fun s => ∃ m, DeadlineInv s m)
    (by
      rintro s action ⟨m, h⟩ ⟨⟨hlegal, hclock⟩, hpast⟩
      obtain ⟨s', m', hstep, h'⟩ := deadlineInv_step h hlegal hclock hpast
      exact ⟨s', hstep, m', h'⟩)
    ⟨_, deadlineInv_start⟩ h
  refine ⟨s, by simpa [clockedMachine] using hrun, ?_⟩
  intro hbatch e hfirst
  exact hinv.covered e hfirst (.inl hbatch)

instance (s : TimerSystem) (a : Action) : Decidable (s.ClockSane a) :=
  match a with
  | .addNow _ now | .runFunctor now | .handleRead now _ => inferInstanceAs (Decidable (IsClock now))
  | .finishRead clock => inferInstanceAs (Decidable (IsClock clock ∧ s.IntervalsFit))
  | .newTimer _ _ _ _ | .queueAdd _ | .queueCancel _ | .cancelNow _ | .runNext =>
      inferInstanceAs (Decidable True)

instance (s : TimerSystem) (a : Action) : Decidable (s.NotFarPast a) :=
  match a with
  | .addNow timer now => inferInstanceAs (Decidable (s.InsertsRepresentable timer now))
  | .runFunctor now =>
      inferInstanceAs (Decidable (∀ timer ∈ s.queued.head?.bind TimerFunctor.adds,
        s.InsertsRepresentable timer now))
  | .newTimer _ _ _ _ | .queueAdd _ | .queueCancel _ | .cancelNow _ | .handleRead _ _ | .runNext
  | .finishRead _ => inferInstanceAs (Decidable True)

instance (s : TimerSystem) (a : Action) : Decidable (clockedMachine.legal s a) :=
  inferInstanceAs (Decidable (s.Legal a ∧ s.ClockSane a))

instance (s : TimerSystem) (a : Action) :
    Decidable ((clockedMachine.restrict NotFarPast).legal s a) :=
  inferInstanceAs (Decidable ((s.Legal a ∧ s.ClockSane a) ∧ s.NotFarPast a))

/-- A callback adds a timer with a negative time and cancels the earliest timer. -/
def coveredRun : List Action :=
  [.newTimer 8 ⟨5⟩ 3 true, .addNow 8 ⟨1⟩, .newTimer 16 ⟨40⟩ 0 false, .addNow 16 ⟨2⟩,
    .handleRead ⟨10⟩ true, .runNext, .newTimer 24 ⟨-7⟩ 0 false, .addNow 24 ⟨11⟩, .cancelNow ⟨16, 2⟩,
    .finishRead ⟨12⟩]

theorem timerfd_covers_earliest_coveredRun :
    (clockedMachine.restrict NotFarPast).LegalRun start coveredRun ∧
      ∃ s, machine.run start coveredRun = .ok s ∧
        (s.batch = none → ∀ e, s.queue.timers_.first = some e →
          ∃ d, s.queue.timerfd.deadline = some d ∧
            d ≤ max e.expiration.microSecondsSinceEpoch_ (s.queue.timerfd.armedAt + 100)) := by
  have hlegal : (clockedMachine.restrict NotFarPast).LegalRun start coveredRun := by decide +kernel
  exact ⟨hlegal, timerfd_covers_earliest hlegal⟩

/-- A timer with the least time that a `Timestamp` can hold. -/
def farPastRun : List Action :=
  [.newTimer 8 ⟨-2 ^ 63⟩ 0 false, .addNow 8 ⟨1700000000000000⟩]

/-- The timerfd is set for 2^63 microseconds after the Epoch. -/
theorem far_past_timer_is_forgotten :
    clockedMachine.LegalRun start farPastRun ∧
      ∃ s, machine.run start farPastRun = .ok s ∧ s.batch = none ∧
        s.queue.timers_.first = some ⟨⟨-2 ^ 63⟩, 8⟩ ∧ s.queue.timerfd.deadline = some (2 ^ 63) ∧
        ¬ (2 : Int) ^ 63 ≤ max (-2 ^ 63) (s.queue.timerfd.armedAt + 100) := by
  have hlegal : clockedMachine.LegalRun start farPastRun := by decide +kernel
  obtain ⟨s, hrun, hs⟩ := machine.exists_of_endsWith start farPastRun
    (fun s => decide (s.batch = none) && decide (s.queue.timers_.first = some ⟨⟨-2 ^ 63⟩, 8⟩) &&
      decide (s.queue.timerfd = ⟨some (2 ^ 63), 1700000000000000⟩)) (by decide +kernel)
  simp only [Bool.and_eq_true, decide_eq_true_eq] at hs
  obtain ⟨⟨hbatch, hfirst⟩, hfd⟩ := hs
  refine ⟨hlegal, s, hrun, hbatch, hfirst, by rw [hfd], ?_⟩
  rw [hfd]
  decide

end TimerSystem

end Muduo.Net
