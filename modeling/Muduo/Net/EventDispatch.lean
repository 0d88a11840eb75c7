/-
  Net/EventDispatch.lean --- how `EventLoop::loop` hands out events (src/muduo/net/EventLoop.cc),
  with the `poll` of src/muduo/net/poller/EPollPoller.cc.

  `poll` fills `activeChannels_` with pointers, and the loop calls `handleEvent` through one
  after the other.  In between, the callbacks create, update, remove and destroy channels, so a
  pointer that the loop has not come to yet could have become invalid.  Two things prevent it:
  who destroys a channel has removed it before (`Removed`), and `removeChannel` asserts that no
  channel is removed that the loop has still to call.  `~Channel` checks nothing of the first,
  so it is a condition on the users.  A call through a pointer to no object is the fault
  `outOfBounds`.

  The poller is `EPollKernel`, whose assertions fail on their own where the methods of the channels
  are misused (`EPollKernel.Books.of_step`).
-/
import Muduo.Net.EPollKernel

set_option autoImplicit false

namespace Muduo.Net

open Muduo.Foundation

/-! ## The poller when its assertions hold -/

namespace EPollKernel

variable {p p' : EPollKernel} {i : Interest} {op : ChannelOp}

/-- A channel whose descriptor another registered channel has cannot be updated. -/
theorem Books.update_error {c : Nat} (h : Books p i) (hshared : ¬ i.Unshared c)
    (u : ChannelUpdate) :
    p.step (.update c u) = .error .assertion := by
  simp only [Interest.Unshared, not_forall] at hshared
  obtain ⟨c', hstatus', hfd, hne⟩ := hshared
  have hmap : p.channels_ (i.channel c).fd_ = some c' := (h.map _ _).mpr ⟨hstatus', hfd⟩
  have hstatus : i.status c ≠ .registered :=
    fun hstatus => hne (h.toMirrors.inj hstatus' hstatus hfd)
  unfold EPollKernel.step updateChannel
  simp only [ChannelTable.change_index, ChannelTable.change_self, ChannelUpdate.apply_fd,
    h.outside c hstatus, h.heap, hmap, true_or, if_true]
  rfl

/-- Only a registered channel without interest can be removed. -/
theorem Books.remove_error {c : Nat} (h : Books p i)
    (hnot : ¬ ((i.channel c).isNoneEvent = true ∧ i.status c = .registered)) :
    p.step (.remove c) = .error .assertion := by
  unfold EPollKernel.step removeChannel
  by_cases hnone : (i.channel c).isNoneEvent = true
  · have hmap : p.channels_ (i.channel c).fd_ ≠ some c :=
      fun hmap => hnot ⟨hnone, ((h.map _ _).mp hmap).1⟩
    simp only [h.heap, hnone, assertThat_of, ok_bind]
    by_cases hsome : p.channels_ (i.channel c).fd_ ≠ none
    · rw [assertThat_of hsome, ok_bind, assertThat_of_not hmap]
      rfl
    · rw [assertThat_of_not hsome]
      rfl
  · simp only [h.heap, assertThat_of_not hnone]
    rfl

/-- So the books are right as long as no assertion fails. -/
theorem Books.of_step (h : Books p i) (hstep : p.step op = .ok p') :
    ∃ i', i.step op = .ok i' ∧ Books p' i' ∧ Exclusive i op := by
  cases op with
  | update c u =>
      by_cases hfree : i.Unshared c
      · obtain ⟨p₁, hp₁, hbooks⟩ := step_update h hfree u
        obtain rfl : p₁ = p' := Except.ok.inj (hp₁.symm.trans hstep)
        exact ⟨_, rfl, hbooks, hfree⟩
      · rw [h.update_error hfree] at hstep
        exact absurd hstep (by simp)
  | remove c =>
      by_cases hboth : (i.channel c).isNoneEvent = true ∧ i.status c = .registered
      · obtain ⟨p₁, hp₁, hbooks⟩ := step_remove h hboth.2 hboth.1
        obtain rfl : p₁ = p' := Except.ok.inj (hp₁.symm.trans hstep)
        exact ⟨_, rfl, hbooks, hboth.2⟩
      · rw [h.remove_error hboth] at hstep
        exact absurd hstep (by simp)

/-- A poller reports no fault but a failed assertion. -/
theorem Books.step_error (h : Books p i) {e : Fault} (hstep : p.step op = .error e) :
    e = .assertion := by
  cases op with
  | update c u =>
      by_cases hfree : i.Unshared c
      · obtain ⟨p₁, hp₁, -⟩ := step_update h hfree u
        exact absurd (hp₁.symm.trans hstep) (by simp)
      · exact (Except.error.inj ((h.update_error hfree u).symm.trans hstep)).symm
  | remove c =>
      by_cases hboth : (i.channel c).isNoneEvent = true ∧ i.status c = .registered
      · obtain ⟨p₁, hp₁, -⟩ := step_remove h hboth.2 hboth.1
        exact absurd (hp₁.symm.trans hstep) (by simp)
      · exact (Except.error.inj ((h.remove_error hboth).symm.trans hstep)).symm

/-- A new `Channel` at an address where none is registered. -/
def construct (p : EPollKernel) (c : Nat) (fd : Int) : EPollKernel :=
  { p with heap := Function.update p.heap c ⟨Channel.new fd, -1⟩ }

theorem Books.construct (h : Books p i) {c : Nat} (hstatus : i.status c ≠ .registered) (fd : Int) :
    Books (p.construct c fd)
      ⟨Function.update i.channel c (Channel.new fd), Function.update i.status c .fresh⟩ := by
  have hother : ∀ {c'}, Function.update i.status c .fresh c' = .registered →
      c' ≠ c ∧ i.status c' = .registered := by
    intro c' hc'
    by_cases hc : c' = c
    · rw [hc, Function.update_self] at hc'
      exact absurd hc' (by simp)
    · rw [Function.update_of_ne hc] at hc'
      exact ⟨hc, hc'⟩
  refine ⟨⟨fun c' => ?_, fun fd' c' => ?_⟩, fun c' hc' => ?_, fun c' hc' => ?_,
    fun fd' event hevent => ?_, h.calls⟩
  · by_cases hc : c' = c
    · subst hc
      simp [EPollKernel.construct]
    · simp [EPollKernel.construct, Function.update_of_ne hc, h.heap]
  · rw [show (p.construct c fd).channels_ = p.channels_ from rfl, h.map]
    by_cases hc : c' = c
    · subst hc
      simp [hstatus]
    · simp [Function.update_of_ne hc]
  · by_cases hc : c' = c
    · subst hc
      simp [EPollKernel.construct, kNew]
    · simp only [Function.update_of_ne hc] at hc'
      simp [EPollKernel.construct, Function.update_of_ne hc, h.outside c' hc']
  · obtain ⟨hc, hregistered⟩ := hother hc'
    simp only [EPollKernel.construct, Function.update_of_ne hc]
    exact h.placed c' hregistered
  · obtain ⟨howner, hfd⟩ := h.owner fd' event hevent
    have hc : event.ptr ≠ c := by
      intro hc
      exact hstatus (hc ▸ howner)
    simp only [Function.update_of_ne hc]
    exact ⟨howner, hfd⟩

end EPollKernel

/-! ## `EventLoop::loop` -/

/-- Where the loop is. -/
inductive DispatchPhase where
  /-- before `loop()`, or in `doPendingFunctors` -/
  | functors
  /-- in `poll` -/
  | polling
  /-- in the `for`, between two calls of `handleEvent` -/
  | dispatching
  /-- in `handleEvent` -/
  | handling
  deriving DecidableEq, Repr

/-- The part of `EventLoop`, its poller and the channels that the dispatch of events uses. -/
structure EventDispatch where
  poller_ : EPollKernel
  /-- the `Channel` objects that exist -/
  live : Nat → Bool
  revents_ : Nat → BitVec 32
  /-- `events_.size()` of the poller -/
  capacity : Nat
  activeChannels_ : List Nat
  /-- how far the iterator of the `for` is -/
  it : Nat
  currentActiveChannel_ : Option Nat
  eventHandling_ : Bool
  phase : DispatchPhase
  /-- what the last `epoll_wait` returned -/
  reported : List EpollEvent
  /-- the calls of `handleEvent` since then, with `revents_` -/
  handled : List EpollEvent

namespace EventDispatch

/-- `EPollPoller::kInitEventListSize`. -/
def kInitEventListSize : Nat := 16

/-- Without channels, at any addresses. -/
def new : EventDispatch where
  poller_ := .new fun _ => 0
  live := fun _ => false
  revents_ := fun _ => 0#32
  capacity := kInitEventListSize
  activeChannels_ := []
  it := 0
  currentActiveChannel_ := none
  eventHandling_ := false
  phase := .functors
  reported := []
  handled := []

/-- Use of an object through a pointer. -/
def deref (s : EventDispatch) (c : Nat) : Exec Unit :=
  if s.live c = true then .ok () else .error .outOfBounds

/-- One round of `fillActiveChannels`. -/
def fillActiveChannel (s : EventDispatch) (event : EpollEvent) : Exec EventDispatch := do
  s.deref event.ptr
  let fd := (s.poller_.heap event.ptr).fd_
  assertThat (s.poller_.channels_ fd ≠ none)
  assertThat (s.poller_.channels_ fd = some event.ptr)
  .ok { s with
    revents_ := Function.update s.revents_ event.ptr event.events
    activeChannels_ := s.activeChannels_ ++ [event.ptr] }

/-- `activeChannels_.clear()` and `poll`, up to the `for`. -/
def poll (s : EventDispatch) (events : List EpollEvent) : Exec EventDispatch := do
  assertThat (events.length ≤ s.capacity)
  let s ← events.foldlM fillActiveChannel { s with activeChannels_ := [] }
  let capacity := if events.length = s.capacity then s.capacity * 2 else s.capacity
  .ok { s with
    capacity := capacity
    it := 0
    eventHandling_ := true
    phase := .dispatching
    reported := events
    handled := [] }

/-- The head of the `for`: the next channel is called, or the loop goes on to the functors. -/
def next (s : EventDispatch) : Exec EventDispatch :=
  match s.activeChannels_[s.it]? with
  | some c => do
      s.deref c
      .ok { s with
        currentActiveChannel_ := some c
        handled := s.handled ++ [⟨s.revents_ c, c⟩]
        phase := .handling }
  | none =>
      .ok { s with currentActiveChannel_ := none, eventHandling_ := false, phase := .functors }

/-- `removeChannel(channel)`, called by `Channel::remove`. -/
def removeChannel (s : EventDispatch) (c : Nat) : Exec EventDispatch := do
  assertThat ((s.poller_.heap c).isNoneEvent = true)
  if s.eventHandling_ then
    assertThat (s.currentActiveChannel_ = some c ∨ c ∉ s.activeChannels_)
  .ok { s with poller_ := ← s.poller_.step (.remove c) }

/-- `~Channel`, with its assertion that the channel is not in `handleEvent`. -/
def destroy (s : EventDispatch) (c : Nat) : Exec EventDispatch := do
  assertThat (¬ (s.phase = .handling ∧ s.currentActiveChannel_ = some c))
  .ok { s with live := Function.update s.live c false }

/-! ## Runs -/

/-- A step of the loop thread. -/
inductive Action where
  /-- `epoll_wait` returns -/
  | poll (events : List EpollEvent)
  | next
  /-- `handleEvent` returns -/
  | handled
  /-- `doPendingFunctors` returns, or `loop()` is entered -/
  | loop
  /-- a callback or a functor calls a method of a channel -/
  | update (c : Nat) (u : ChannelUpdate)
  | remove (c : Nat)
  | construct (c : Nat) (fd : Int)
  | destroy (c : Nat)

/-- What a step does. -/
def step (s : EventDispatch) : Action → Exec EventDispatch
  | .poll events => s.poll events
  | .next => s.next
  | .handled => .ok { s with it := s.it + 1, phase := .dispatching }
  | .loop => .ok { s with phase := .polling }
  | .update c u => do .ok { s with poller_ := ← s.poller_.step (.update c u) }
  | .remove c => s.removeChannel c
  | .construct c fd =>
      .ok { s with
        poller_ := s.poller_.construct c fd
        live := Function.update s.live c true
        revents_ := Function.update s.revents_ c 0#32 }
  | .destroy c => s.destroy c

/-- User code runs. -/
def Calling (s : EventDispatch) : Prop := s.phase = .handling ∨ s.phase = .functors

/-- What `epoll_wait(2)` can report: events of watched descriptors, each of them once, of those the
descriptor is watched for or an error or a hang-up. -/
structure Reportable (p : EPollKernel) (events : List EpollEvent) : Prop where
  once : (events.map EpollEvent.ptr).Nodup
  watched : ∀ event ∈ events, ∃ fd asked, p.epollfd_ fd = some ⟨asked, event.ptr⟩ ∧
    event.events &&& ~~~(asked ||| POLLERR ||| POLLHUP) = 0#32

/-- What the kernel and the callbacks may do.  Nobody calls a method of a channel that does not
exist. -/
def Legal (s : EventDispatch) : Action → Prop
  | .poll events =>
      s.phase = .polling ∧ events.length ≤ s.capacity ∧ Reportable s.poller_ events
  | .next => s.phase = .dispatching
  | .handled => s.phase = .handling
  | .loop => s.phase = .functors
  | .update c _ | .remove c => s.Calling ∧ s.live c = true
  | .construct c _ => s.Calling ∧ s.live c = false
  | .destroy c => s.Calling ∧ s.live c = true

/-- The loop, its poller and the channels. -/
def machine : Machine EventDispatch Action := ⟨step, Legal⟩

/-- A channel that is destroyed is not in the poller's map. -/
def Removed (s : EventDispatch) : Action → Prop
  | .destroy c => ∀ fd, s.poller_.channels_ fd ≠ some c
  | _ => True

-- `~Channel` does not check it
example : machine.run new [.construct 0 5, .update 0 .enableReading, .destroy 0, .loop,
    .poll [⟨POLLIN, 0⟩]] = .error .outOfBounds := rfl

/-! ## The invariant -/

/-- The channels that the loop has still to call. -/
def remaining (s : EventDispatch) : List Nat :=
  match s.phase with
  | .dispatching => s.activeChannels_.drop s.it
  | .handling => s.activeChannels_.drop (s.it + 1)
  | .functors | .polling => []

/-- What holds beside the abstract poller. -/
structure Inv (s : EventDispatch) (i : Interest) : Prop where
  books : EPollKernel.Books s.poller_ i
  live : ∀ c, i.status c = .registered → s.live c = true
  nodup : s.activeChannels_.Nodup
  flag : s.eventHandling_ = true ↔ s.phase = .dispatching ∨ s.phase = .handling
  current : s.phase = .handling →
    ∃ c, s.activeChannels_[s.it]? = some c ∧ s.currentActiveChannel_ = some c
  waiting : ∀ c ∈ s.remaining, i.status c = .registered
  dispatched : s.reported = s.handled ++ s.remaining.map fun c => ⟨s.revents_ c, c⟩

/-- The books are right for some interests of the channels. -/
def Good (s : EventDispatch) : Prop := ∃ i, Inv s i

theorem good_new : new.Good := by
  refine ⟨_, EPollKernel.books_new fun _ => 0, fun c hc => ?_, List.nodup_nil, ?_, ?_, ?_, rfl⟩
  · exact absurd hc (by simp [Interest.new])
  · simp [new]
  · simp [new]
  · simp [new, remaining]

/-- A call of a method after which no assertion fails. -/
def Careful (s : EventDispatch) : Action → Prop
  | .update c _ =>
      ∀ c', s.poller_.channels_ (s.poller_.heap c).fd_ = some c' → c' = c
  | .remove c =>
      (s.poller_.heap c).isNoneEvent = true ∧
        s.poller_.channels_ (s.poller_.heap c).fd_ = some c ∧
        (s.eventHandling_ = true → s.currentActiveChannel_ = some c ∨ c ∉ s.activeChannels_)
  | .destroy c => ¬ (s.phase = .handling ∧ s.currentActiveChannel_ = some c)
  | _ => True

section Step

variable {s : EventDispatch} {i : Interest}

theorem Inv.mem_map (h : Inv s i) {c : Nat} (hc : i.status c = .registered) :
    s.poller_.channels_ (s.poller_.heap c).fd_ = some c := by
  rw [h.books.heap]
  exact h.books.channels_eq hc

/-- What the kernel reports belongs to a registered channel. -/
theorem Inv.reportable (h : Inv s i) {events : List EpollEvent}
    (hevents : Reportable s.poller_ events) :
    ∀ event ∈ events, i.status event.ptr = .registered := by
  intro event hevent
  obtain ⟨fd, asked, hentry, -⟩ := hevents.watched event hevent
  exact (h.books.owner fd _ hentry).1

/-- The whole `fillActiveChannels`. -/
theorem fill_spec {events : List EpollEvent} (hnodup : (events.map EpollEvent.ptr).Nodup)
    (hmap : ∀ event ∈ events, s.live event.ptr = true ∧
      s.poller_.channels_ (s.poller_.heap event.ptr).fd_ = some event.ptr) :
    ∃ revents, events.foldlM fillActiveChannel s = .ok { s with
        revents_ := revents, activeChannels_ := s.activeChannels_ ++ events.map EpollEvent.ptr } ∧
      (∀ c ∉ events.map EpollEvent.ptr, revents c = s.revents_ c) ∧
      ∀ event ∈ events, revents event.ptr = event.events := by
  induction events generalizing s with
  | nil =>
      refine ⟨s.revents_, ?_, fun _ _ => rfl, fun _ hmem => absurd hmem List.not_mem_nil⟩
      rw [List.map_nil, List.append_nil]
      rfl
  | cons event events ih =>
      rw [List.map_cons, List.nodup_cons] at hnodup
      obtain ⟨hlive, hfound⟩ := hmap event List.mem_cons_self
      have hone : s.fillActiveChannel event = .ok { s with
          revents_ := Function.update s.revents_ event.ptr event.events
          activeChannels_ := s.activeChannels_ ++ [event.ptr] } := by
        simp only [fillActiveChannel, deref, hlive, if_true, ok_bind, hfound, assertThat_of, ne_eq,
          reduceCtorEq, not_false_eq_true]
      obtain ⟨revents, hfold, hother, hset⟩ := @ih { s with
        revents_ := Function.update s.revents_ event.ptr event.events
        activeChannels_ := s.activeChannels_ ++ [event.ptr] } hnodup.2
        fun event' hmem => hmap event' (List.mem_cons_of_mem _ hmem)
      refine ⟨revents, ?_, fun c hc => ?_, fun event' hmem => ?_⟩
      · rw [List.foldlM_cons, hone, ok_bind, hfold]
        simp
      · rw [List.map_cons, List.mem_cons, not_or] at hc
        rw [hother c hc.2]
        exact Function.update_of_ne hc.1 _ _
      · rcases List.mem_cons.mp hmem with rfl | hmem
        · rw [hother _ hnodup.1]
          exact Function.update_self _ _ _
        · exact hset event' hmem

theorem Inv.poll (h : Inv s i) {events : List EpollEvent} (hlen : events.length ≤ s.capacity)
    (hevents : Reportable s.poller_ events) : ∃ s', s.poll events = .ok s' ∧ Inv s' i := by
  have hregistered := h.reportable hevents
  obtain ⟨revents, hfold, hother, hset⟩ := @fill_spec { s with activeChannels_ := [] } events
    hevents.once fun event hmem =>
      ⟨h.live _ (hregistered event hmem), h.mem_map (hregistered event hmem)⟩
  refine ⟨_, by rw [EventDispatch.poll, assertThat_of hlen, ok_bind, hfold, ok_bind], ?_⟩
  refine ⟨h.books, h.live, ?_, by simp, by simp, ?_, ?_⟩
  · simpa using hevents.once
  · intro c hc
    obtain ⟨event, hmem, rfl⟩ := List.mem_map.mp (by simpa [remaining] using hc)
    exact hregistered event hmem
  · simp only [remaining, List.nil_append, List.drop_zero, List.map_map]
    rw [← List.map_id events]
    simp only [List.map_map]
    refine List.map_congr_left fun event hmem => ?_
    simp [hset event hmem]

/-- The channel that is called is registered, so it exists. -/
theorem Inv.next (h : Inv s i) (hphase : s.phase = .dispatching) :
    ∃ s', s.next = .ok s' ∧ Inv s' i := by
  have hwaiting := h.waiting
  have hdispatched := h.dispatched
  simp only [remaining, hphase] at hwaiting hdispatched
  rcases hget : s.activeChannels_[s.it]? with _ | c
  · rw [List.drop_eq_nil_of_le (List.getElem?_eq_none_iff.mp hget)] at hdispatched
    refine ⟨{ s with currentActiveChannel_ := none, eventHandling_ := false, phase := .functors },
      by rw [EventDispatch.next, hget], h.books, h.live, h.nodup, by simp, by simp, ?_, hdispatched⟩
    exact fun _ hc => absurd hc List.not_mem_nil
  · obtain ⟨hlt, hc⟩ := List.getElem?_eq_some_iff.mp hget
    have hdrop : s.activeChannels_.drop s.it = c :: s.activeChannels_.drop (s.it + 1) := by
      rw [List.drop_eq_getElem_cons hlt, hc]
    rw [hdrop] at hwaiting hdispatched
    have hlive := h.live c (hwaiting c List.mem_cons_self)
    refine ⟨{ s with
      currentActiveChannel_ := some c
      handled := s.handled ++ [⟨s.revents_ c, c⟩]
      phase := .handling }, ?_, h.books, h.live, h.nodup, ?_, fun _ => ⟨c, hget, rfl⟩, ?_, ?_⟩
    · simp only [EventDispatch.next, hget, deref, hlive, if_true, ok_bind]
    · rw [h.flag, hphase]
      simp
    · exact fun c' hc' => hwaiting c' (List.mem_cons_of_mem _ hc')
    · rw [hdispatched, List.map_cons, List.append_cons]
      rfl

theorem Inv.handled (h : Inv s i) (hphase : s.phase = .handling) :
    Inv { s with it := s.it + 1, phase := .dispatching } i := by
  have hwaiting := h.waiting
  have hdispatched := h.dispatched
  simp only [remaining, hphase] at hwaiting hdispatched
  refine ⟨h.books, h.live, h.nodup, ?_, by simp, hwaiting, hdispatched⟩
  rw [h.flag, hphase]
  simp

theorem Inv.loop (h : Inv s i) (hphase : s.phase = .functors) :
    Inv { s with phase := .polling } i := by
  have hdispatched := h.dispatched
  simp only [remaining, hphase] at hdispatched
  refine ⟨h.books, h.live, h.nodup, ?_, by simp, by simp [remaining], hdispatched⟩
  rw [h.flag, hphase]
  simp

theorem Inv.unshared_iff (h : Inv s i) {c : Nat} : i.Unshared c ↔
    ∀ c', s.poller_.channels_ (s.poller_.heap c).fd_ = some c' → c' = c := by
  rw [h.books.heap]
  simp only [Interest.Unshared, h.books.map, and_imp]

theorem Inv.update (h : Inv s i) {c : Nat} (hlive : s.live c = true) (u : ChannelUpdate)
    (hfree : i.Unshared c) :
    ∃ s', s.step (.update c u) = .ok s' ∧ Inv s' (i.updated c u) := by
  obtain ⟨p, hp, hbooks⟩ := EPollKernel.step_update h.books hfree u
  refine ⟨{ s with poller_ := p }, by rw [step, hp, ok_bind], hbooks, fun c' hc' => ?_,
    h.nodup, h.flag,
    h.current, fun c' hc' => ?_, h.dispatched⟩
  · by_cases hc : c' = c
    · rw [hc]
      exact hlive
    · exact h.live c' ((Interest.updated_status_of_ne hc).symm.trans hc')
  · by_cases hc : c' = c
    · rw [hc]
      exact Interest.updated_status_self
    · exact (Interest.updated_status_of_ne hc).trans (h.waiting c' hc')

/-- The assertion of `removeChannel` keeps the channels that the loop has still to call. -/
theorem Inv.not_mem_remaining (h : Inv s i) {c : Nat}
    (hassert : s.eventHandling_ = true → s.currentActiveChannel_ = some c ∨ c ∉ s.activeChannels_)
    (hcalling : s.Calling) : c ∉ s.remaining := by
  rcases hcalling with hphase | hphase
  · rw [remaining, hphase]
    rcases hassert (h.flag.mpr (.inr hphase)) with hcurrent | hnot
    · obtain ⟨c', hget, hcurrent'⟩ := h.current hphase
      obtain rfl : c = c' := Option.some.inj (hcurrent.symm.trans hcurrent')
      obtain ⟨hlt, hc⟩ := List.getElem?_eq_some_iff.mp hget
      have hnodup := (List.drop_sublist s.it _).nodup h.nodup
      rw [List.drop_eq_getElem_cons hlt, hc, List.nodup_cons] at hnodup
      exact hnodup.1
    · exact fun hmem => hnot (List.mem_of_mem_drop hmem)
  · rw [remaining, hphase]
    exact List.not_mem_nil

theorem Inv.remove (h : Inv s i) {c : Nat} (hcalling : s.Calling)
    (hcareful : s.Careful (.remove c)) :
    ∃ s', s.removeChannel c = .ok s' ∧ Inv s' (i.removed c) := by
  obtain ⟨hnone, hmap, hassert⟩ := hcareful
  have hstatus : i.status c = .registered := ((h.books.map _ _).mp hmap).1
  obtain ⟨p, hp, hbooks⟩ :=
    EPollKernel.step_remove h.books hstatus (by rw [← h.books.heap]; exact hnone)
  have hstep : s.removeChannel c = .ok { s with poller_ := p } := by
    rw [removeChannel, assertThat_of hnone, ok_bind]
    by_cases hflag : s.eventHandling_ = true
    · rw [if_pos hflag, assertThat_of (hassert hflag), hp]
      rfl
    · rw [if_neg hflag, hp]
      rfl
  refine ⟨_, hstep, hbooks, fun c' hc' => ?_, h.nodup, h.flag, h.current, fun c' hc' => ?_,
    h.dispatched⟩
  · have hc : c' ≠ c := by
      rintro rfl
      exact absurd hc' (by simp)
    exact h.live c' ((Interest.removed_status_of_ne hc).symm.trans hc')
  · have hc : c' ≠ c := by
      rintro rfl
      exact h.not_mem_remaining hassert hcalling hc'
    exact (Interest.removed_status_of_ne hc).trans (h.waiting c' hc')

theorem Inv.construct (h : Inv s i) {c : Nat} (hlive : s.live c = false) (fd : Int) :
    Good { s with
      poller_ := s.poller_.construct c fd
      live := Function.update s.live c true
      revents_ := Function.update s.revents_ c 0#32 } := by
  have hstatus : ∀ {c'}, i.status c' = .registered → c' ≠ c := by
    rintro c' hc' rfl
    exact absurd (hlive.symm.trans (h.live _ hc')) (by simp)
  refine ⟨_, h.books.construct (fun hc => hstatus hc rfl) fd, fun c' hc' => ?_, h.nodup, h.flag,
    h.current, fun c' hc' => ?_, ?_⟩
  · by_cases hc : c' = c
    · rw [hc]
      exact Function.update_self _ _ _
    · simp only [Function.update_of_ne hc] at hc' ⊢
      exact h.live c' hc'
  · have hregistered := h.waiting c' hc'
    simpa only [Function.update_of_ne (hstatus hregistered)] using hregistered
  · rw [h.dispatched]
    refine congrArg (s.handled ++ ·) (List.map_congr_left fun c' hc' => ?_)
    simp only [Function.update_of_ne (hstatus (h.waiting c' hc'))]

theorem Inv.destroy (h : Inv s i) {c : Nat} (hout : ∀ fd, s.poller_.channels_ fd ≠ some c) :
    Inv { s with live := Function.update s.live c false } i := by
  refine ⟨h.books, fun c' hc' => ?_, h.nodup, h.flag, h.current, h.waiting, h.dispatched⟩
  have hc : c' ≠ c := by
    rintro rfl
    exact hout _ (h.mem_map hc')
  simp only [Function.update_of_ne hc]
  exact h.live c' hc'

theorem step_ok {a : Action} (hgood : s.Good) (hboth : (machine.restrict Removed).legal s a)
    (hcareful : s.Careful a) : ∃ s', s.step a = .ok s' ∧ s'.Good := by
  obtain ⟨i, h⟩ := hgood
  obtain ⟨hlegal, hremoved⟩ : s.Legal a ∧ s.Removed a := hboth
  cases a with
  | poll events =>
      obtain ⟨s', hs', hinv⟩ := h.poll hlegal.2.1 hlegal.2.2
      exact ⟨s', hs', i, hinv⟩
  | next =>
      obtain ⟨s', hs', hinv⟩ := h.next hlegal
      exact ⟨s', hs', i, hinv⟩
  | handled => exact ⟨_, rfl, i, h.handled hlegal⟩
  | loop => exact ⟨_, rfl, i, h.loop hlegal⟩
  | update c u =>
      obtain ⟨s', hs', hinv⟩ := h.update hlegal.2 u (h.unshared_iff.mpr hcareful)
      exact ⟨s', hs', _, hinv⟩
  | remove c =>
      obtain ⟨s', hs', hinv⟩ := h.remove hlegal.1 hcareful
      exact ⟨s', hs', _, hinv⟩
  | construct c fd => exact ⟨_, rfl, h.construct hlegal.2 fd⟩
  | destroy c =>
      have hassert : ¬ (s.phase = .handling ∧ s.currentActiveChannel_ = some c) := hcareful
      refine ⟨_, ?_, i, h.destroy hremoved⟩
      rw [step, EventDispatch.destroy, assertThat_of hassert, ok_bind]

theorem step_error {a : Action} (hgood : s.Good) (hcareful : ¬ s.Careful a) :
    s.step a = .error .assertion := by
  obtain ⟨i, h⟩ := hgood
  cases a with
  | update c u =>
      have hshared : ¬ i.Unshared c := fun hfree => hcareful (h.unshared_iff.mp hfree)
      rw [step, h.books.update_error hshared u]
      rfl
  | remove c =>
      rw [step, removeChannel]
      by_cases hnone : (s.poller_.heap c).isNoneEvent = true
      · rw [assertThat_of hnone, ok_bind]
        by_cases hassert :
            s.eventHandling_ = true → s.currentActiveChannel_ = some c ∨ c ∉ s.activeChannels_
        · have herror : s.poller_.step (.remove c) = .error .assertion := by
            refine h.books.remove_error fun hboth => hcareful ⟨hnone, ?_, hassert⟩
            exact h.mem_map hboth.2
          by_cases hflag : s.eventHandling_ = true
          · rw [if_pos hflag, assertThat_of (hassert hflag), herror]
            rfl
          · rw [if_neg hflag, herror]
            rfl
        · obtain ⟨hflag, hnot⟩ := Classical.not_imp.mp hassert
          rw [if_pos hflag, assertThat_of_not hnot]
          rfl
      · rw [assertThat_of_not hnone]
        rfl
  | destroy c =>
      have hassert : ¬ ¬ (s.phase = .handling ∧ s.currentActiveChannel_ = some c) := hcareful
      rw [step, EventDispatch.destroy, assertThat_of_not hassert]
      rfl
  | poll events => exact absurd trivial hcareful
  | next => exact absurd trivial hcareful
  | handled => exact absurd trivial hcareful
  | loop => exact absurd trivial hcareful
  | construct c fd => exact absurd trivial hcareful

end Step

/-- No event is handed to an object that is gone, and none is lost.  In every run in which
nobody uses a channel that does not exist or destroys one that is still in the poller's map,
which `~Channel` does not check, no pointer to a destroyed channel is followed: the run goes on
until an assertion fails, and it fails exactly at the first step that is not `Careful`.  In
every state that is reached the calls of `handleEvent` are the first of the events that the
last `epoll_wait` reported, in order and with what was reported, and all of them when the loop
has left the `for`; the channels of the others exist and are in the map. -/
theorem events_reach_live_channels {as : List Action}
    (hlegal : (machine.restrict Removed).LegalRun new as) :
    ((∃ s, machine.run new as = .ok s) ∨ machine.run new as = .error .assertion) ∧
      ((∃ s, machine.run new as = .ok s) ↔
        ((machine.restrict Removed).restrict Careful).LegalRun new as) ∧
      ∀ s, machine.run new as = .ok s →
        s.handled <+: s.reported ∧ (s.eventHandling_ = false → s.handled = s.reported) ∧
        ∀ event ∈ s.reported.drop s.handled.length, s.live event.ptr = true ∧
          s.poller_.channels_ (s.poller_.heap event.ptr).fd_ = some event.ptr := by
  have hstep : ∀ s a, Good s → (machine.restrict Removed).legal s a →
      (∃ s', machine.step s a = .ok s' ∧ Good s') ∨ machine.step s a = .error .assertion := by
    intro s a hgood ha
    by_cases hcareful : s.Careful a
    · exact .inl (step_ok hgood ha hcareful)
    · exact .inr (step_error hgood hcareful)
  have hrun := Machine.run_or_error Good hstep good_new hlegal
  rw [Machine.run_restrict] at hrun
  refine ⟨hrun.imp_left fun ⟨s, hs, _⟩ => ⟨s, hs⟩, ?_, fun s hs => ?_⟩
  · have hiff := Machine.exists_run_iff_legalRun Good (fun _ _ => step_ok)
      (fun _ _ hgood _ hnot => ⟨_, step_error hgood hnot⟩) good_new hlegal
    rwa [Machine.run_restrict] at hiff
  · obtain ⟨i, h⟩ : s.Good := by
      rcases hrun with ⟨s', hs', hgood⟩ | herror
      · obtain rfl : s = s' := Except.ok.inj (hs.symm.trans hs')
        exact hgood
      · exact absurd (hs.symm.trans herror) (by simp)
    refine ⟨⟨_, h.dispatched.symm⟩, fun hflag => ?_, fun event hevent => ?_⟩
    · have hnone : s.remaining = [] := by
        have hphase := h.flag.not.mp (by simp [hflag])
        rcases hs : s.phase with _ | _ | _ | _ <;> simp [remaining, hs] at hphase ⊢
      rw [h.dispatched, hnone, List.map_nil, List.append_nil]
    · rw [h.dispatched, List.drop_left] at hevent
      obtain ⟨c, hc, rfl⟩ := List.mem_map.mp hevent
      have hregistered := h.waiting c hc
      exact ⟨h.live c hregistered, h.mem_map hregistered⟩

/-- The callback of a channel removes the channel. -/
def selfRemoval : List Action :=
  [.construct 0 5, .update 0 .enableReading, .loop, .poll [⟨POLLIN, 0⟩], .next,
    .update 0 .disableAll, .remove 0, .handled, .next]

theorem events_reach_live_channels_selfRemoval :
    (machine.restrict Removed).LegalRun new selfRemoval ∧ ∃ s, machine.run new selfRemoval = .ok s ∧
      s.handled = [⟨POLLIN, 0⟩] := by
  have hlegal : (machine.restrict Removed).LegalRun new selfRemoval := by
    refine ⟨⟨⟨.inr rfl, rfl⟩, trivial⟩, ⟨⟨.inr rfl, rfl⟩, trivial⟩, ⟨rfl, trivial⟩,
      ⟨⟨rfl, by decide, by decide, ?_⟩, trivial⟩, ⟨rfl, trivial⟩, ⟨⟨.inl rfl, rfl⟩, trivial⟩,
      ⟨⟨.inl rfl, rfl⟩, trivial⟩, ⟨rfl, trivial⟩, ⟨rfl, trivial⟩, trivial⟩
    intro event hevent
    rw [List.mem_singleton.mp hevent]
    exact ⟨5, Channel.kReadEvent, rfl, by decide⟩
  obtain ⟨s, hrun, hend⟩ := machine.exists_of_endsWith new selfRemoval
    (fun s => !s.eventHandling_ && decide (s.reported = [⟨POLLIN, 0⟩])) (by decide +kernel)
  obtain ⟨hflag, hreported⟩ := Bool.and_eq_true_iff.mp hend
  obtain ⟨-, hall, -⟩ := (events_reach_live_channels hlegal).2.2 s hrun
  exact ⟨hlegal, s, hrun, (hall (by simpa using hflag)).trans (of_decide_eq_true hreported)⟩

end EventDispatch

end Muduo.Net
