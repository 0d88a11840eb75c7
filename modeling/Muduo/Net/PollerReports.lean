/-
  Net/PollerReports.lean --- what the two pollers report (`poll` and `fillActiveChannels` of
  src/muduo/net/poller/EPollPoller.cc and PollPoller.cc).

  `ready` says for which events each descriptor is ready.  `poll(2)` looks at every slot and sets
  its `revents`; `epoll_wait(2)` reports as many of the ready descriptors as there is room for in
  `events_`, in any order, and the poller doubles `events_` when it was full.

  After the same calls of the methods of channels, `PollPoller::poll` has every active channel once,
  and `EPollPoller::poll` has some of the same, with the same `revents_`, and all of them when
  there is room (`pollers_report_the_same`).
-/
import Mathlib.Data.List.Nodup
import Mathlib.Data.List.Perm.Subperm
import Muduo.Net.EPollKernel
import Muduo.Net.PollerAgreement

set_option autoImplicit false

namespace Muduo.Net

open Muduo.Foundation

/-! ## Events -/

/-- A channel in `activeChannels`, with its `revents_`. -/
structure ActiveChannel where
  revents_ : BitVec 32
  channel : Nat
  deriving DecidableEq, Repr

/-- What is reported of a descriptor that is watched for some events: those, errors and
hang-ups. -/
def reported (ready asked : BitVec 32) : BitVec 32 := ready &&& (asked ||| POLLERR ||| POLLHUP)

/-- The channel asks for something, and there is something to report. -/
def Interest.Active (s : Interest) (ready : Int → BitVec 32) (a : ActiveChannel) : Prop :=
  s.status a.channel = .registered ∧ (s.channel a.channel).events_ ≠ 0#32 ∧
    a.revents_ = reported (ready (s.channel a.channel).fd_) (s.channel a.channel).events_ ∧
    a.revents_ ≠ 0#32

/-! ## `PollPoller::poll` -/

namespace PollPoller

/-- `poll(2)`: the `revents` of a slot, none when its descriptor is negative. -/
def revents (ready : Int → BitVec 32) (pfd : Pollfd) : BitVec 16 :=
  if pfd.fd < 0 then 0#16
  else (ready pfd.fd &&& (pfd.events.signExtend 32 ||| POLLERR ||| POLLHUP |||
    POLLNVAL)).setWidth 16

/-- `fillActiveChannels(numEvents, activeChannels)`, over the slots with their `revents`. -/
def fillActiveChannels (p : PollPoller) : Nat → List (Pollfd × BitVec 16) →
    Exec (List ActiveChannel)
  | 0, _ => .ok []
  | _ + 1, [] => .ok []
  | numEvents + 1, (pfd, revents) :: pollfds =>
      if 0 < revents.toInt then
        match p.channels_ pfd.fd with
        | none => .error .assertion
        | some channel => do
            assertThat ((p.heap channel).fd_ = pfd.fd)
            let active ← p.fillActiveChannels numEvents pollfds
            .ok (⟨revents.signExtend 32, channel⟩ :: active)
      else p.fillActiveChannels (numEvents + 1) pollfds

/-- `poll(timeoutMs, activeChannels)`, when the descriptors are `ready`. -/
def poll (p : PollPoller) (ready : Int → BitVec 32) : Exec (List ActiveChannel) :=
  let pollfds := p.pollfds_.map fun pfd => (pfd, revents ready pfd)
  let numEvents := pollfds.countP fun slot => slot.2 ≠ 0#16
  p.fillActiveChannels numEvents pollfds

end PollPoller

/-! ## `EPollPoller::poll` -/

namespace EPollKernel

/-- An event that `epoll_wait(2)` can report. -/
def Ready (p : EPollKernel) (ready : Int → BitVec 32) (event : EpollEvent) : Prop :=
  ∃ fd asked, p.epollfd_ fd = some ⟨asked, event.ptr⟩ ∧ event.events = reported (ready fd) asked ∧
    event.events ≠ 0#32

/-- `epoll_wait(2)` with room for some events: each is reported once, and all of them if there is
still room. -/
structure Waits (p : EPollKernel) (ready : Int → BitVec 32) (maxevents : Nat)
    (events : List EpollEvent) : Prop where
  once : (events.map EpollEvent.ptr).Nodup
  possible : ∀ event ∈ events, p.Ready ready event
  room : events.length ≤ maxevents
  all : events.length < maxevents → ∀ event, p.Ready ready event → event ∈ events

/-- One round of `fillActiveChannels`. -/
def fillActiveChannel (p : EPollKernel) (event : EpollEvent) : Exec ActiveChannel := do
  let fd := (p.heap event.ptr).fd_
  assertThat (p.channels_ fd ≠ none)
  assertThat (p.channels_ fd = some event.ptr)
  .ok ⟨event.events, event.ptr⟩

/-- `poll`, with what `epoll_wait` reports and the size of `events_`; the size behind it. -/
def poll (p : EPollKernel) (size : Nat) (events : List EpollEvent) :
    Exec (List ActiveChannel × Nat) :=
  if 0 < events.length then do
    assertThat (events.length ≤ size)
    let active ← events.mapM p.fillActiveChannel
    .ok (active, if events.length = size then size * 2 else size)
  else .ok ([], size)

/-- Call after call of `poll`, while the same descriptors are ready. -/
inductive Polls (p : EPollKernel) (ready : Int → BitVec 32) : Nat → List (List ActiveChannel) → Prop
  | nil (size : Nat) : Polls p ready size []
  | cons {size size' : Nat} {events : List EpollEvent} {active : List ActiveChannel}
      {reports : List (List ActiveChannel)} (hwaits : p.Waits ready size events)
      (hpoll : p.poll size events = .ok (active, size')) (hrest : Polls p ready size' reports) :
      Polls p ready size (active :: reports)

end EPollKernel

/-! ## The channels of the slots -/

namespace PollPoller

section Poll

variable {p : PollPoller} {s : Interest} {ready : Int → BitVec 32}

/-- What is reported of what a channel can ask for is a positive `short`. -/
theorem reported_lt {r asked : BitVec 32} (h : Requested asked) :
    (reported r asked).toNat < 2 ^ 15 := by
  have hle : (reported r asked).toNat ≤ (asked ||| POLLERR ||| POLLHUP).toNat := by
    rw [reported, BitVec.toNat_and]
    exact Nat.and_le_right
  refine Nat.lt_of_le_of_lt hle ?_
  rcases h with rfl | rfl | rfl | rfl <;> decide

theorem toInt_setWidth {r : BitVec 32} (h : r.toNat < 2 ^ 15) :
    (r.setWidth 16).toInt = r.toNat := by
  rw [BitVec.toInt_eq_toNat_of_lt, BitVec.toNat_setWidth, Nat.mod_eq_of_lt (by omega)]
  rw [BitVec.toNat_setWidth, Nat.mod_eq_of_lt (by omega)]
  omega

theorem signExtend_setWidth_of_lt {r : BitVec 32} (h : r.toNat < 2 ^ 15) :
    (r.setWidth 16).signExtend 32 = r := by
  apply BitVec.eq_of_toInt_eq
  rw [BitVec.toInt_signExtend_of_le (by decide), toInt_setWidth h,
    BitVec.toInt_eq_toNat_of_lt (by omega)]

/-- `fillActiveChannels` finds the channel of every slot that has events. -/
theorem fillActiveChannels_spec {n : Nat} {pollfds : List (Pollfd × BitVec 16)}
    (hcount : pollfds.countP (fun slot => slot.2 ≠ 0#16) ≤ n)
    (hfound : ∀ slot ∈ pollfds, slot.2 ≠ 0#16 → 0 < slot.2.toInt ∧
      ∃ c, p.channels_ slot.1.fd = some c ∧ (p.heap c).fd_ = slot.1.fd) :
    p.fillActiveChannels n pollfds = .ok (pollfds.filterMap fun slot =>
      if slot.2 = 0#16 then none
      else (p.channels_ slot.1.fd).map fun c => ⟨slot.2.signExtend 32, c⟩) := by
  induction pollfds generalizing n with
  | nil => cases n <;> rfl
  | cons slot pollfds ih =>
      obtain ⟨pfd, revents⟩ := slot
      have hrest := fun slot hmem => hfound slot (List.mem_cons_of_mem _ hmem)
      by_cases hnone : revents = 0#16
      · rw [List.countP_cons_of_neg (by simp [hnone])] at hcount
        rw [List.filterMap_cons_none (by simp [hnone]), ← ih hcount hrest]
        cases n with
        | zero => rw [fillActiveChannels, fillActiveChannels]
        | succ n => rw [fillActiveChannels, if_neg (by simp [hnone])]
      · rw [List.countP_cons_of_pos (by simp [hnone])] at hcount
        obtain ⟨n, rfl⟩ : ∃ m, n = m + 1 := ⟨n - 1, by omega⟩
        obtain ⟨hpos, c, hc, hfd⟩ := hfound _ List.mem_cons_self hnone
        rw [List.filterMap_cons_some (b := ⟨revents.signExtend 32, c⟩) (by simp [hnone, hc]),
          fillActiveChannels, if_pos hpos, hc]
        simp only [hfd, assertThat_of, ok_bind, ih (Nat.le_of_succ_le_succ hcount) hrest]

/-- What `poll` makes of a slot. -/
def activeOf (p : PollPoller) (ready : Int → BitVec 32) (pfd : Pollfd) : Option ActiveChannel :=
  if revents ready pfd = 0#16 then none
  else (p.channels_ pfd.fd).map fun c => ⟨(revents ready pfd).signExtend 32, c⟩

/-- `poll(2)` says of an open descriptor what `epoll_wait(2)` says. -/
theorem revents_slotOf (h : Tracks p s) {c : Nat}
    (hopen : ready (s.channel c).fd_ &&& POLLNVAL = 0#32) (hsome : (s.channel c).events_ ≠ 0#32) :
    revents ready (slotOf (s.channel c)) =
      (reported (ready (s.channel c).fd_) (s.channel c).events_).setWidth 16 := by
  have hnonneg := h.nonneg c
  rw [revents, slotOf, if_neg hsome]
  simp only [if_neg (Int.not_lt.mpr hnonneg), signExtend_setWidth (h.requested c), reported]
  rw [BitVec.and_or_distrib_left, hopen, BitVec.or_zero]

/-- A slot that is switched off has no events. -/
theorem revents_slotOf_of_none (h : Tracks p s) {c : Nat} (hnone : (s.channel c).events_ = 0#32) :
    revents ready (slotOf (s.channel c)) = 0#16 := by
  have hnonneg := h.nonneg c
  rw [revents, slotOf, if_pos hnone]
  exact if_pos (show -(s.channel c).fd_ - 1 < 0 by omega)

theorem slotOf_found (h : Tracks p s) (hopen : ∀ fd, ready fd &&& POLLNVAL = 0#32) {c : Nat}
    (hc : s.status c = .registered) (hsome : revents ready (slotOf (s.channel c)) ≠ 0#16) :
    0 < (revents ready (slotOf (s.channel c))).toInt ∧
      ∃ c', p.channels_ (slotOf (s.channel c)).fd = some c' ∧
        (p.heap c').fd_ = (slotOf (s.channel c)).fd := by
  have hasks : (s.channel c).events_ ≠ 0#32 := fun hnone => hsome (revents_slotOf_of_none h hnone)
  have hfd : (slotOf (s.channel c)).fd = (s.channel c).fd_ := if_neg hasks
  refine ⟨?_, c, ?_, ?_⟩
  · rw [revents_slotOf h (hopen _) hasks] at hsome ⊢
    rw [toInt_setWidth (reported_lt (h.requested c))]
    have hne : reported (ready (s.channel c).fd_) (s.channel c).events_ ≠ 0#32 := by
      intro hzero
      rw [hzero] at hsome
      exact hsome (by decide)
    have hpos := BitVec.toNat_ne_iff_ne.mpr hne
    rw [BitVec.toNat_zero] at hpos
    omega
  · rw [hfd, h.channels_eq hc]
  · rw [hfd, h.heap]

/-- The slot of a channel, when the descriptors are open. -/
theorem activeOf_slotOf (h : Tracks p s) (hopen : ∀ fd, ready fd &&& POLLNVAL = 0#32) {c : Nat}
    (hc : s.status c = .registered) (a : ActiveChannel) :
    p.activeOf ready (slotOf (s.channel c)) = some a ↔ a.channel = c ∧ s.Active ready a := by
  by_cases hsome : (s.channel c).events_ = 0#32
  · -- the slot is switched off
    rw [activeOf, if_pos (revents_slotOf_of_none h hsome)]
    refine ⟨fun hn => absurd hn (by simp), ?_⟩
    rintro ⟨rfl, -, hasks, -⟩
    exact absurd hsome hasks
  · have hwide := signExtend_setWidth_of_lt
      (reported_lt (r := ready (s.channel c).fd_) (h.requested c))
    have hfd : (slotOf (s.channel c)).fd = (s.channel c).fd_ := if_neg hsome
    rw [activeOf, revents_slotOf h (hopen _) hsome, hfd, h.channels_eq hc]
    by_cases hnone : reported (ready (s.channel c).fd_) (s.channel c).events_ = 0#32
    · rw [hnone, if_pos (by decide)]
      refine ⟨fun hn => absurd hn (by simp), ?_⟩
      rintro ⟨rfl, -, -, hrevents, hne⟩
      exact absurd (hrevents.trans hnone) hne
    · have hnone' :
          (reported (ready (s.channel c).fd_) (s.channel c).events_).setWidth 16 ≠ 0#16 := by
        intro hzero
        rw [hzero] at hwide
        exact hnone (hwide.symm.trans (by decide))
      rw [if_neg hnone', hwide, Option.map_some, Option.some_inj]
      constructor
      · rintro rfl
        exact ⟨rfl, hc, hsome, rfl, hnone⟩
      · rintro ⟨rfl, -, -, hrevents, -⟩
        rw [← hrevents]

/-- `poll` has every active channel once. -/
theorem poll_spec (h : Tracks p s) (hopen : ∀ fd, ready fd &&& POLLNVAL = 0#32) :
    ∃ active, p.poll ready = .ok active ∧ (active.map ActiveChannel.channel).Nodup ∧
      ∀ a, a ∈ active ↔ s.Active ready a := by
  have hslot : ∀ (i : Nat) (hi : i < p.pollfds_.length), ∃ c, s.status c = .registered ∧
      (p.heap c).index_ = i ∧ p.pollfds_[i] = slotOf (s.channel c) := by
    intro i hi
    obtain ⟨c, hc, hindex⟩ := h.owner i _ (List.getElem?_eq_getElem hi)
    obtain ⟨i', hi', hslot⟩ := h.slot c hc
    obtain rfl : i = i' := by omega
    rw [List.getElem?_eq_getElem hi] at hslot
    exact ⟨c, hc, hindex, Option.some.inj hslot⟩
  refine ⟨p.pollfds_.filterMap (p.activeOf ready), ?_, ?_, fun a => ?_⟩
  · rw [poll, fillActiveChannels_spec (Nat.le_refl _), List.filterMap_map]
    · rfl
    · intro slot hmem hsome
      obtain ⟨pfd, hpfd, rfl⟩ := List.mem_map.mp hmem
      obtain ⟨i, hi, rfl⟩ := List.getElem_of_mem hpfd
      obtain ⟨c, hc, -, hslot⟩ := hslot i hi
      simp only [hslot] at hsome ⊢
      exact slotOf_found h hopen hc hsome
  · rw [List.Nodup, List.pairwise_map, List.pairwise_filterMap, List.pairwise_iff_getElem]
    intro i j hi hj hlt a ha a' ha' heq
    obtain ⟨c, hc, hindex, hget⟩ := hslot i hi
    obtain ⟨c', hc', hindex', hget'⟩ := hslot j hj
    rw [hget] at ha
    rw [hget'] at ha'
    obtain ⟨rfl, -⟩ := (activeOf_slotOf h hopen hc a).mp ha
    obtain ⟨rfl, -⟩ := (activeOf_slotOf h hopen hc' a').mp ha'
    rw [heq] at hindex
    omega
  · rw [List.mem_filterMap]
    constructor
    · rintro ⟨pfd, hpfd, hactive⟩
      obtain ⟨i, hi, rfl⟩ := List.getElem_of_mem hpfd
      obtain ⟨c, hc, -, hslot⟩ := hslot i hi
      rw [hslot] at hactive
      exact ((activeOf_slotOf h hopen hc a).mp hactive).2
    · intro hactive
      obtain ⟨i, -, hget⟩ := h.slot a.channel hactive.1
      exact ⟨_, List.mem_of_getElem? hget, (activeOf_slotOf h hopen hactive.1 a).mpr ⟨rfl, hactive⟩⟩

end Poll

end PollPoller

/-! ## The events of the kernel -/

namespace EPollKernel

section Poll

variable {p : EPollKernel} {s : Interest} {ready : Int → BitVec 32}

theorem ready_iff (h : Books p s) (hforget : EPollPoller.Tracks p.forget s) (event : EpollEvent) :
    p.Ready ready event ↔ s.Active ready ⟨event.events, event.ptr⟩ := by
  constructor
  · rintro ⟨fd, asked, hentry, hevents, hne⟩
    obtain ⟨hstatus, hfd⟩ := h.owner fd _ hentry
    have hwatch : p.forget.Watches fd asked := by
      rw [EPollPoller.Watches, forget]
      simp only [hentry, Option.map_some]
    obtain ⟨c, hc, hcfd, hasked, hsome⟩ := (hforget.kernel fd asked).mp hwatch
    obtain rfl : c = event.ptr := h.toMirrors.inj hc hstatus (hcfd.trans hfd.symm)
    exact ⟨hstatus, by rw [hasked]; exact hsome, by rw [hasked, hcfd]; exact hevents, hne⟩
  · rintro ⟨hstatus, hsome, hevents, hne⟩
    have hwatch := (hforget.kernel _ _).mpr ⟨event.ptr, hstatus, rfl, rfl, hsome⟩
    obtain ⟨⟨asked, ptr⟩, hentry, rfl⟩ := Option.map_eq_some_iff.mp hwatch
    obtain ⟨hstatus', hfd⟩ := h.owner _ _ hentry
    obtain rfl : ptr = event.ptr := h.toMirrors.inj hstatus' hstatus hfd
    exact ⟨_, _, hentry, hevents, hne⟩

theorem mapM_ok {α β : Type} {f : α → Exec β} {g : α → β} {l : List α}
    (h : ∀ a ∈ l, f a = .ok (g a)) : l.mapM f = .ok (l.map g) := by
  induction l with
  | nil => rfl
  | cons a l ih =>
      rw [List.mapM_cons, h a List.mem_cons_self, ih fun b hb => h b (List.mem_cons_of_mem _ hb)]
      rfl

/-- `poll` has the channels of the events, and doubles `events_` when it was full. -/
theorem poll_of_waits (h : Books p s) {size : Nat} {events : List EpollEvent} (hsize : 0 < size)
    (hwaits : p.Waits ready size events) :
    p.poll size events = .ok (events.map fun event => ⟨event.events, event.ptr⟩,
      if events.length = size then size * 2 else size) := by
  have hmap : ∀ event ∈ events, p.fillActiveChannel event = .ok ⟨event.events, event.ptr⟩ := by
    intro event hmem
    obtain ⟨fd, asked, hentry, -⟩ := hwaits.possible event hmem
    obtain ⟨hstatus, -⟩ := h.owner fd _ hentry
    have hfound := h.channels_eq hstatus
    simp only [fillActiveChannel, h.heap, hfound, ne_eq, reduceCtorEq, not_false_eq_true,
      assertThat_of, ok_bind]
  rw [poll]
  by_cases hsome : 0 < events.length
  · rw [if_pos hsome, assertThat_of hwaits.room, ok_bind, mapM_ok hmap, ok_bind]
  · obtain rfl := List.length_eq_zero_iff.mp (Nat.eq_zero_of_not_pos hsome)
    rw [if_neg hsome, List.map_nil, List.length_nil, if_neg (Nat.ne_of_lt hsize)]

/-- What one call reports, beside all that is to report. -/
theorem waits_spec (h : Books p s) (hforget : EPollPoller.Tracks p.forget s)
    {all : List ActiveChannel} (hnodup : (all.map ActiveChannel.channel).Nodup)
    (hall : ∀ a, a ∈ all ↔ s.Active ready a) {size : Nat} {events : List EpollEvent}
    (hwaits : p.Waits ready size events) :
    (events.map fun event => (⟨event.events, event.ptr⟩ : ActiveChannel)).Subperm all ∧
      events.length = min size all.length := by
  have hsub : (events.map fun event => (⟨event.events, event.ptr⟩ : ActiveChannel)).Subperm
    all := by
    refine List.subperm_of_subset ?_ ?_
    · refine List.Nodup.of_map ActiveChannel.channel ?_
      rw [List.map_map]
      exact hwaits.once
    · intro a ha
      obtain ⟨event, hmem, rfl⟩ := List.mem_map.mp ha
      exact (hall _).mpr ((ready_iff h hforget event).mp (hwaits.possible event hmem))
  refine ⟨hsub, ?_⟩
  have hle := hsub.length_le
  have hroom := hwaits.room
  rw [List.length_map] at hle
  by_cases hfull : events.length < size
  · have hback : all.Subperm (events.map fun event =>
      (⟨event.events, event.ptr⟩ : ActiveChannel)) := by
      refine List.subperm_of_subset (hnodup.of_map _) fun a ha => ?_
      have hactive := (ready_iff h hforget ⟨a.revents_, a.channel⟩).mpr ((hall a).mp ha)
      exact List.mem_map.mpr ⟨_, hwaits.all hfull _ hactive, rfl⟩
    have hge := hback.length_le
    rw [List.length_map] at hge
    omega
  · omega

/-- While the same descriptors are ready, every call from the `k`-th on reports all of them, if
`events_` doubled so often has room. -/
theorem perm_of_polls (h : Books p s) (hforget : EPollPoller.Tracks p.forget s)
    {all : List ActiveChannel} (hnodup : (all.map ActiveChannel.channel).Nodup)
    (hall : ∀ a, a ∈ all ↔ s.Active ready a) {size : Nat} {reports : List (List ActiveChannel)}
    (hpolls : p.Polls ready size reports) (hsize : 0 < size) {k : Nat}
    (hroom : all.length ≤ size * 2 ^ k) {i : Nat} (hi : k ≤ i) {active : List ActiveChannel}
    (hget : reports[i]? = some active) : active.Perm all := by
  induction hpolls generalizing k i with
  | nil => exact absurd hget (by simp)
  | @cons size size' events first reports hwaits hpoll _ ih =>
      obtain ⟨hsub, hlength⟩ := waits_spec h hforget hnodup hall hwaits
      rw [poll_of_waits h hsize hwaits] at hpoll
      obtain ⟨rfl, rfl⟩ := Prod.mk.inj (Except.ok.inj hpoll)
      cases i with
      | zero =>
          obtain rfl := Nat.le_zero.mp hi
          obtain rfl := Option.some.inj hget
          refine hsub.perm_of_length_le ?_
          rw [List.length_map]
          omega
      | succ i =>
          rw [List.getElem?_cons_succ] at hget
          by_cases hfull : events.length = size
          · rw [if_pos hfull] at ih
            cases k with
            | zero => exact ih (by omega) (show _ ≤ _ * 2 ^ 0 by omega) (Nat.zero_le _) hget
            | succ k =>
                have hdouble : size * 2 ^ (k + 1) = size * 2 * 2 ^ k := by
                  rw [Nat.pow_succ, Nat.mul_comm (2 ^ k), Nat.mul_assoc]
                exact ih (by omega) (Nat.le_trans hroom (Nat.le_of_eq hdouble)) (by omega) hget
          · rw [if_neg hfull] at ih
            exact ih hsize (show _ ≤ _ * 2 ^ 0 by omega) (Nat.zero_le _) hget

end Poll

end EPollKernel

/-! ## Every run -/

namespace PollerReports

open PollerAgreement

/-- Both pollers, under the same calls. -/
def pollers : Machine (EPollKernel × PollPoller) ChannelOp where
  step s op := do
    let e ← s.1.step op
    let p ← s.2.step op
    .ok (e, p)
  legal _ _ := True

/-- Both track the abstract poller. -/
structure Both (s : Interest) (ep : EPollKernel × PollPoller) : Prop where
  books : EPollKernel.Books ep.1 s
  follow : Follow s ep.1.forget ep.2

theorem both_new {fd : Nat → Int} (hinj : Function.Injective fd) (hfd : ∀ c, 0 ≤ fd c) :
    Both (.new fd) (.new fd, .new fd) :=
  ⟨EPollKernel.books_new fd,
    ⟨EPollPoller.tracks_new fd, PollPoller.tracks_new hfd, fun _ _ h => hinj h⟩⟩

theorem both_step {s : Interest} {ep : EPollKernel × PollPoller} {op : ChannelOp} (h : Both s ep)
    (hop : (Interest.machine.restrict Restrained).legal s op) :
    ∃ s' ep', Interest.machine.step s op = .ok s' ∧ pollers.step ep op = .ok ep' ∧ Both s' ep' := by
  obtain ⟨hlegal, hrestrained⟩ := hop
  have hexclusive : EPollKernel.Exclusive s op := by
    cases op with
    | update c u => exact h.follow.unshared c
    | remove c => exact hrestrained
  obtain ⟨s', e', hs, he, hbooks⟩ := h.books.step ⟨hlegal, hexclusive⟩
  obtain ⟨s₁, e₁, p', hs₁, he₁, hp, hfollow⟩ := follow_step h.follow hlegal hrestrained
  obtain rfl := Except.ok.inj (hs.symm.trans hs₁)
  obtain rfl := Except.ok.inj ((EPollKernel.forget_step he).symm.trans he₁)
  refine ⟨s', (e', p'), hs, ?_, hbooks, hfollow⟩
  show (do let e ← ep.1.step op; let p ← ep.2.step op; .ok (e, p)) = _
  rw [he, ok_bind, hp, ok_bind]

/-- After any calls that both pollers follow, over channels with different open descriptors:
`PollPoller::poll` succeeds and has each active channel once.  `EPollPoller::poll` succeeds whatever
`epoll_wait` reports, and has as many of them as `events_` has room for, with the same `revents_`;
and when it is called again and again while they are ready, it has all of them as soon as `events_`,
doubled by every call so far, has room. -/
theorem pollers_report_the_same (fd : Nat → Int) (hinj : Function.Injective fd)
    (hfd : ∀ c, 0 ≤ fd c) (ops : List ChannelOp)
    (hlegal : (Interest.machine.restrict Restrained).LegalRun (.new fd) ops)
    (ready : Int → BitVec 32) (hopen : ∀ d, ready d &&& POLLNVAL = 0#32) :
    ∃ s e p all, Interest.machine.run (.new fd) ops = .ok s ∧
      pollers.run (.new fd, .new fd) ops = .ok (e, p) ∧
      p.poll ready = .ok all ∧ (all.map ActiveChannel.channel).Nodup ∧
      (∀ a, a ∈ all ↔ s.Active ready a) ∧
      (∀ size events, 0 < size → e.Waits ready size events →
        ∃ active size', e.poll size events = .ok (active, size') ∧ active.Subperm all ∧
          active.length = min size all.length) ∧
      ∀ size k reports, 0 < size → e.Polls ready size reports → all.length ≤ size * 2 ^ k →
        ∀ i active, k ≤ i → reports[i]? = some active → active.Perm all := by
  obtain ⟨s, ⟨e, p⟩, hs, hep, hboth⟩ := @Machine.run_of_simulation _ _
    (Interest.machine.restrict Restrained) _ pollers Both (fun _ _ _ h hop => both_step h hop) _ _
    (both_new hinj hfd) _ hlegal
  rw [Machine.run_restrict] at hs
  obtain ⟨all, hpoll, hnodup, hall⟩ := PollPoller.poll_spec hboth.follow.poll hopen
  refine ⟨s, e, p, all, hs, hep, hpoll, hnodup, hall, fun size events hsize hwaits => ?_,
    fun size k reports hsize hpolls hroom i active hi hget => ?_⟩
  · obtain ⟨hsub, hlength⟩ :=
      EPollKernel.waits_spec hboth.books hboth.follow.epoll hnodup hall hwaits
    exact ⟨_, _, EPollKernel.poll_of_waits hboth.books hsize hwaits, hsub,
      (List.length_map _).trans hlength⟩
  · exact EPollKernel.perm_of_polls hboth.books hboth.follow.epoll hnodup hall hpolls hsize hroom hi
      hget

/-- The peer of descriptor 4 has sent something and closed. -/
def hungUp (d : Int) : BitVec 32 := if d = 4 then POLLIN ||| POLLHUP else 0#32

theorem pollers_report_the_same_hungUp :
    ∃ e p, pollers.run (.new sampleFd, .new sampleFd) sampleOps = .ok (e, p) ∧
      p.poll hungUp = .ok [⟨POLLIN ||| POLLHUP, 1⟩] ∧
      ∀ size events, 0 < size → e.Waits hungUp size events →
        ∃ active size', e.poll size events = .ok (active, size') ∧
          active.Subperm [⟨POLLIN ||| POLLHUP, 1⟩] ∧ active.length = 1 := by
  have hlegal : (Interest.machine.restrict Restrained).LegalRun (.new sampleFd) sampleOps := by
    decide +kernel
  have hopen : ∀ d, hungUp d &&& POLLNVAL = 0#32 := by
    intro d
    unfold hungUp
    split <;> decide
  obtain ⟨s, e, p, all, -, hrun, hpoll, -, -, hwaits, -⟩ :=
    pollers_report_the_same sampleFd sampleFd_injective sampleFd_nonneg sampleOps hlegal
      hungUp hopen
  obtain ⟨ep, hrun', hend⟩ := pollers.exists_of_endsWith (.new sampleFd, .new sampleFd) sampleOps
    (fun ep => match ep.2.poll hungUp with
      | .ok all => all == [⟨POLLIN ||| POLLHUP, 1⟩]
      | .error _ => false) (by decide +kernel)
  obtain rfl : (e, p) = ep := Except.ok.inj (hrun.symm.trans hrun')
  simp only [hpoll, beq_iff_eq] at hend
  subst hend
  refine ⟨e, p, hrun, hpoll, fun size events hsize h => ?_⟩
  obtain ⟨active, size', hactive, hsub, hlength⟩ := hwaits size events hsize h
  exact ⟨active, size', hactive, hsub, by rw [hlength, List.length_singleton]; omega⟩

end PollerReports

end Muduo.Net
