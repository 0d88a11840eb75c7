/-
  Net/PollPoller.lean --- `PollPoller` (src/muduo/net/poller/PollPoller.cc).

  The poller keeps the array that it passes to `poll(2)`; `Channel::index_` is the slot
  of a channel in it.  A slot is switched off by making its descriptor negative.  A
  channel in the middle is removed by moving the last slot into its place.  `Tracks`
  relates all that to the abstract poller.

  The `revents` of a slot are left out: the methods here only clear them.
-/
import Muduo.Foundation.SlotTable
import Muduo.Net.Poller

set_option autoImplicit false

namespace Muduo.Net

open Muduo.Foundation

/-- `struct pollfd`. -/
structure Pollfd where
  fd : Int
  events : BitVec 16
  deriving DecidableEq, Repr

/-- `class PollPoller`, with the channels. -/
structure PollPoller where
  heap : ChannelTable
  channels_ : Int → Option Nat
  pollfds_ : List Pollfd

namespace PollPoller

/-- Without channels. -/
def new (fd : Nat → Int) : PollPoller := ⟨.new fd, fun _ => none, []⟩

/-- `pollfds_[idx]`. -/
def slot (p : PollPoller) (idx : Int) : Exec Pollfd :=
  match p.pollfds_[idx.toNat]? with
  | some pfd => .ok pfd
  | none => .error .outOfBounds

/-- `updateChannel(channel)`. -/
def updateChannel (p : PollPoller) (c : Nat) : Exec PollPoller :=
  let channel := p.heap c
  if channel.index_ < 0 then do
    assertThat (p.channels_ channel.fd_ = none)
    let pfd : Pollfd := ⟨channel.fd_, channel.events_.setWidth 16⟩
    let pollfds := p.pollfds_ ++ [pfd]
    let idx := (pollfds.length : Int) - 1
    .ok { heap := p.heap.set_index c idx
          channels_ := Function.update p.channels_ pfd.fd (some c)
          pollfds_ := pollfds }
  else do
    assertThat (p.channels_ channel.fd_ ≠ none)
    assertThat (p.channels_ channel.fd_ = some c)
    let idx := channel.index_
    assertThat (0 ≤ idx ∧ idx < p.pollfds_.length)
    let pfd ← p.slot idx
    assertThat (pfd.fd = channel.fd_ ∨ pfd.fd = -channel.fd_ - 1)
    let pfd := { pfd with events := channel.events_.setWidth 16 }
    let pfd := if channel.isNoneEvent then { pfd with fd := -channel.fd_ - 1 } else pfd
    .ok { p with pollfds_ := p.pollfds_.set idx.toNat pfd }

/-- The end of `removeChannel`: the last slot takes the place of slot `idx`. -/
def dropSlot (p : PollPoller) (idx : Int) : Exec PollPoller :=
  if idx.toNat = p.pollfds_.length - 1 then
    .ok { p with pollfds_ := p.pollfds_.dropLast }
  else do
    let last ← p.slot (p.pollfds_.length - 1)
    let channelAtEnd := if last.fd < 0 then -last.fd - 1 else last.fd
    match p.channels_ channelAtEnd with
    | some c =>
        .ok { p with
          heap := p.heap.set_index c idx
          pollfds_ := (p.pollfds_.set idx.toNat last).dropLast }
    | none => .error .outOfBounds

/-- `removeChannel(channel)`. -/
def removeChannel (p : PollPoller) (c : Nat) : Exec PollPoller := do
  let channel := p.heap c
  assertThat (p.channels_ channel.fd_ ≠ none)
  assertThat (p.channels_ channel.fd_ = some c)
  assertThat (channel.isNoneEvent = true)
  let idx := channel.index_
  assertThat (0 ≤ idx ∧ idx < p.pollfds_.length)
  let pfd ← p.slot idx
  assertThat (pfd.fd = -channel.fd_ - 1 ∧ pfd.events.signExtend 32 = channel.events_)
  let n := (p.channels_ channel.fd_).toList.length
  let p := { p with channels_ := Function.update p.channels_ channel.fd_ none }
  assertThat (n = 1)
  p.dropSlot idx

/-- A method of a channel of this poller. -/
def step (p : PollPoller) : ChannelOp → Exec PollPoller
  | .update c u => { p with heap := p.heap.change c u }.updateChannel c
  | .remove c => do
      assertThat ((p.heap c).isNoneEvent = true)
      p.removeChannel c

/-- Any operations on channels. -/
def machine : Machine PollPoller ChannelOp := ⟨step, fun _ _ => True⟩

/-- `poll(2)` watches the descriptor for the events; it ignores slots with a negative
descriptor. -/
def Watches (p : PollPoller) (fd : Int) (events : BitVec 32) : Prop :=
  ∃ pfd ∈ p.pollfds_, 0 ≤ pfd.fd ∧ pfd.fd = fd ∧ pfd.events.signExtend 32 = events

/-! ## The abstract poller -/

/-- The slot of a channel. -/
def slotOf (ch : Channel) : Pollfd :=
  ⟨if ch.events_ = 0#32 then -ch.fd_ - 1 else ch.fd_, ch.events_.setWidth 16⟩

/-- The events that the methods of a channel can ask for. -/
def Requested (events : BitVec 32) : Prop :=
  events = 0#32 ∨ events = Channel.kReadEvent ∨ events = Channel.kWriteEvent ∨
    events = Channel.kReadEvent ||| Channel.kWriteEvent

theorem requested_apply {ch : Channel} (h : Requested ch.events_) (u : ChannelUpdate) :
    Requested (u.apply ch).events_ := by
  obtain ⟨fd, events⟩ := ch
  unfold Requested at h ⊢
  simp only at h
  rcases h with rfl | rfl | rfl | rfl <;> cases u <;>
    simp only [ChannelUpdate.apply, Channel.enableReading, Channel.enableWriting,
      Channel.disableWriting, Channel.disableAll] <;> decide

/-- They fit into a `short`. -/
theorem signExtend_setWidth {events : BitVec 32} (h : Requested events) :
    (events.setWidth 16).signExtend 32 = events := by
  rcases h with rfl | rfl | rfl | rfl <;> decide

/-- The poller has a slot for what `s` wants. -/
structure Tracks (p : PollPoller) (s : Interest) : Prop
    extends Interest.Mirrors p.heap p.channels_ s where
  fresh : ∀ c, s.status c = .fresh → (p.heap c).index_ = -1
  stale : ∀ c, s.status c = .removed → 0 ≤ (p.heap c).index_
  slot : ∀ c, s.status c = .registered →
    ∃ i : Nat, (p.heap c).index_ = i ∧ p.pollfds_[i]? = some (slotOf (s.channel c))
  owner : ∀ (i : Nat) (pfd : Pollfd), p.pollfds_[i]? = some pfd →
    ∃ c, s.status c = .registered ∧ (p.heap c).index_ = i
  nonneg : ∀ c, 0 ≤ (s.channel c).fd_
  requested : ∀ c, Requested (s.channel c).events_

theorem tracks_new {fd : Nat → Int} (hfd : ∀ c, 0 ≤ fd c) : Tracks (new fd) (.new fd) where
  toMirrors := Interest.mirrors_new fd
  fresh _ _ := rfl
  stale _ h := absurd h (by simp [Interest.new])
  slot _ h := absurd h (by simp [Interest.new])
  owner _ _ h := absurd h (by simp [new])
  nonneg := hfd
  requested _ := .inl rfl

section Steps

variable {p : PollPoller} {s : Interest} {c : Nat}

/-- The descriptor that a slot is about. -/
theorem slotOf_fd {ch : Channel} (h : 0 ≤ ch.fd_) :
    (if (slotOf ch).fd < 0 then -(slotOf ch).fd - 1 else (slotOf ch).fd) = ch.fd_ := by
  unfold slotOf
  by_cases hnone : ch.events_ = 0#32
  · simp only [if_pos hnone]
    split <;> omega
  · simp only [if_neg hnone]
    split <;> omega

/-- Registered channels have different slots. -/
theorem Tracks.index_inj (h : Tracks p s) {c' : Nat} (hc : s.status c = .registered)
    (hc' : s.status c' = .registered) (hindex : (p.heap c).index_ = (p.heap c').index_) :
    c = c' := by
  obtain ⟨i, hi, hslot⟩ := h.slot c hc
  obtain ⟨i', hi', hslot'⟩ := h.slot c' hc'
  obtain rfl : i = i' := by omega
  have hsame : slotOf (s.channel c) = slotOf (s.channel c') :=
    Option.some.inj (hslot.symm.trans hslot')
  have hfd : (s.channel c).fd_ = (s.channel c').fd_ := by
    rw [← slotOf_fd (h.nonneg c), ← slotOf_fd (h.nonneg c'), hsame]
  exact h.toMirrors.inj hc hc' hfd

theorem Tracks.index_nonneg (h : Tracks p s) (hstatus : s.status c ≠ .fresh) :
    0 ≤ (p.heap c).index_ := by
  cases hc : s.status c with
  | fresh => exact absurd hc hstatus
  | registered =>
      obtain ⟨i, hi, _⟩ := h.slot c hc
      omega
  | removed => exact h.stale c hc

/-- The registered channels own the slots. -/
theorem Tracks.table (h : Tracks p s) :
    SlotTable (fun c => s.status c = .registered) (fun c => (p.heap c).index_.toNat)
      (fun c pfd => pfd = slotOf (s.channel c)) p.pollfds_ := by
  refine ⟨fun c hc => ?_, fun i hi => ?_, fun c c' hc hc' heq => h.index_inj hc hc' ?_⟩
  · obtain ⟨i, hi, hslot⟩ := h.slot c hc
    rw [hi, Int.toNat_natCast]
    exact ⟨_, hslot, rfl⟩
  · obtain ⟨c, hc, hi'⟩ := h.owner i _ (List.getElem?_eq_getElem hi)
    exact ⟨c, hc, by rw [hi', Int.toNat_natCast]⟩
  · have hnonneg := h.index_nonneg (c := c) (by rw [hc]; simp)
    have hnonneg' := h.index_nonneg (c := c') (by rw [hc']; simp)
    omega

theorem Tracks.of_table (hmirrors : Interest.Mirrors p.heap p.channels_ s)
    (htable : SlotTable (fun c => s.status c = .registered) (fun c => (p.heap c).index_.toNat)
      (fun c pfd => pfd = slotOf (s.channel c)) p.pollfds_)
    (hfresh : ∀ c, s.status c = .fresh → (p.heap c).index_ = -1)
    (hindex : ∀ c, s.status c ≠ .fresh → 0 ≤ (p.heap c).index_)
    (hnonneg : ∀ c, 0 ≤ (s.channel c).fd_) (hrequested : ∀ c, Requested (s.channel c).events_) :
    Tracks p s := by
  have hpos : ∀ c, s.status c = .registered → 0 ≤ (p.heap c).index_ :=
    fun c hc => hindex c (by rw [hc]; simp)
  refine ⟨hmirrors, hfresh, fun c hc => hindex c (by rw [hc]; simp), fun c hc => ?_,
    fun i pfd hget => ?_, hnonneg, hrequested⟩
  · obtain ⟨pfd, hslot, rfl⟩ := htable.slot c hc
    exact ⟨_, (Int.toNat_of_nonneg (hpos c hc)).symm, hslot⟩
  · obtain ⟨c, hc, rfl⟩ := htable.owner i (List.getElem?_eq_some_iff.mp hget).1
    exact ⟨c, hc, (Int.toNat_of_nonneg (hpos c hc)).symm⟩

/-- `poll(2)` watches what is wanted. -/
theorem Tracks.watches_iff (h : Tracks p s) (fd : Int) (events : BitVec 32) :
    p.Watches fd events ↔ s.Wants fd events := by
  constructor
  · rintro ⟨pfd, hmem, hpos, rfl, rfl⟩
    obtain ⟨i, hi, hget⟩ := List.getElem_of_mem hmem
    have hget' : p.pollfds_[i]? = some pfd := by rw [List.getElem?_eq_getElem hi, hget]
    obtain ⟨c, hc, hindex⟩ := h.owner i pfd hget'
    obtain ⟨i', hi', hslot⟩ := h.slot c hc
    obtain rfl : i = i' := by omega
    obtain rfl : pfd = slotOf (s.channel c) := Option.some.inj (hget'.symm.trans hslot)
    have hsome : (s.channel c).events_ ≠ 0#32 := by
      intro hnone
      have hneg : (slotOf (s.channel c)).fd = -(s.channel c).fd_ - 1 := if_pos hnone
      have := h.nonneg c
      omega
    refine ⟨c, hc, ?_, ?_, ?_⟩
    · exact (if_neg hsome).symm
    · exact (signExtend_setWidth (h.requested c)).symm
    · rw [slotOf, signExtend_setWidth (h.requested c)]
      exact hsome
  · rintro ⟨c, hc, rfl, rfl, hsome⟩
    obtain ⟨i, _, hslot⟩ := h.slot c hc
    have hfd : (slotOf (s.channel c)).fd = (s.channel c).fd_ := if_neg hsome
    refine ⟨_, List.mem_of_getElem? hslot, ?_, hfd, signExtend_setWidth (h.requested c)⟩
    rw [hfd]
    exact h.nonneg c

theorem slot_of {i : Nat} {pfd : Pollfd} (h : p.pollfds_[i]? = some pfd) : p.slot i = .ok pfd := by
  simp [PollPoller.slot, h]

/-- A new channel gets a slot at the end. -/
theorem step_update_fresh (h : Tracks p s) (hstatus : s.status c = .fresh) (hfree : s.Unshared c)
    {u : ChannelUpdate} (hnew : (u.apply (s.channel c)).events_ ≠ 0#32) :
    p.step (.update c u) = .ok
      { heap := (p.heap.change c u).set_index c p.pollfds_.length
        channels_ := Function.update p.channels_ (s.channel c).fd_ (some c)
        pollfds_ := p.pollfds_ ++ [slotOf (u.apply (s.channel c))] } := by
  have hmap := h.channels_eq_none (by rw [hstatus]; simp) hfree
  have hslot : slotOf (u.apply (s.channel c)) =
      ⟨(s.channel c).fd_, (u.apply (s.channel c)).events_.setWidth 16⟩ := by
    rw [slotOf, if_neg hnew, ChannelUpdate.apply_fd]
  unfold step updateChannel
  simp only [ChannelTable.change_index, ChannelTable.change_self, ChannelUpdate.apply_fd, h.heap,
    h.fresh c hstatus, show ((-1 : Int) < 0) = True by decide, if_true, hmap, assertThat_of,
      ok_bind,
    hslot, List.length_append, List.length_singleton]
  simp

theorem registered_updated {u : ChannelUpdate} {c' : Nat} :
    (s.updated c u).status c' = .registered ↔ c' = c ∨ s.status c' = .registered := by
  by_cases hc : c' = c
  · subst hc
    simp
  · rw [Interest.updated_status_of_ne hc]
    exact ⟨.inr, fun h => h.resolve_left hc⟩

theorem fresh_updated {u : ChannelUpdate} {c' : Nat} :
    (s.updated c u).status c' = .fresh ↔ c' ≠ c ∧ s.status c' = .fresh := by
  by_cases hc : c' = c
  · subst hc
    simp
  · rw [Interest.updated_status_of_ne hc]
    exact ⟨fun h => ⟨hc, h⟩, fun h => h.2⟩

theorem requested_updated (h : ∀ c', Requested (s.channel c').events_) (u : ChannelUpdate)
    (c' : Nat) :
    Requested ((s.updated c u).channel c').events_ := by
  by_cases hc : c' = c
  · subst hc
    rw [Interest.updated_channel_self]
    exact requested_apply (h c') u
  · rw [Interest.updated_channel_of_ne hc]
    exact h c'

theorem tracks_update_fresh (h : Tracks p s) (hstatus : s.status c = .fresh) (hfree : s.Unshared c)
    (u : ChannelUpdate) :
    Tracks { heap := (p.heap.change c u).set_index c p.pollfds_.length
             channels_ := Function.update p.channels_ (s.channel c).fd_ (some c)
             pollfds_ := p.pollfds_ ++ [slotOf (u.apply (s.channel c))] } (s.updated c u) := by
  have hold : ∀ c', s.status c' = .registered → c' ≠ c := by
    rintro c' hc' rfl
    exact absurd (hstatus.symm.trans hc') (by simp)
  have hself : ((p.heap.change c u).set_index c p.pollfds_.length c).index_ = p.pollfds_.length :=
    ChannelTable.set_index_self _ _ _
  have hindex : ∀ c', c' ≠ c →
      ((p.heap.change c u).set_index c p.pollfds_.length c').index_ = (p.heap c').index_ := by
    intro c' hc
    rw [ChannelTable.set_index_of_ne _ hc, ChannelTable.change_index]
  refine .of_table ((h.toMirrors.updated hfree u).set_index c _) ?_ (fun c' hc' => ?_)
    (fun c' hc' => ?_) (fun c' => ?_) (requested_updated h.requested u)
  · refine h.table.push (a := c) (fun _ => registered_updated)
      (by simp only [hself, Int.toNat_natCast])
      (fun c' hc' => by simp only [hindex c' (hold c' hc')])
      ?_ (fun c' pfd hc' hpfd => ?_)
    · rw [Interest.updated_channel_self]
    · rw [Interest.updated_channel_of_ne (hold c' hc')]
      exact hpfd
  · obtain ⟨hc, hc'⟩ := fresh_updated.mp hc'
    exact (hindex c' hc).trans (h.fresh c' hc')
  · by_cases hc : c' = c
    · subst hc
      simp only [hself]
      omega
    · simp only [hindex c' hc]
      exact h.index_nonneg fun hfresh => hc' (fresh_updated.mpr ⟨hc, hfresh⟩)
  · rw [Interest.updated_fd]
    exact h.nonneg c'

/-- The slot of a registered channel takes the new events; it is switched off when
there are none, but never switched on again. -/
theorem step_update_slot (h : Tracks p s) (hstatus : s.status c = .registered) (u : ChannelUpdate)
    {i : Nat} (hi : (p.heap c).index_ = i) (hslot : p.pollfds_[i]? = some (slotOf (s.channel c))) :
    p.step (.update c u) = .ok { p with
      heap := p.heap.change c u
      pollfds_ := p.pollfds_.set i
        ⟨if (u.apply (s.channel c)).events_ = 0#32 then -(s.channel c).fd_ - 1
          else (slotOf (s.channel c)).fd, (u.apply (s.channel c)).events_.setWidth 16⟩ } := by
  have hmap := h.channels_eq hstatus
  have hlt := (List.getElem?_eq_some_iff.mp hslot).1
  have hget : ({ p with heap := p.heap.change c u } : PollPoller).slot i =
      .ok (slotOf (s.channel c)) := slot_of hslot
  have hfd : (slotOf (s.channel c)).fd = (s.channel c).fd_ ∨
      (slotOf (s.channel c)).fd = -(s.channel c).fd_ - 1 := by
    unfold slotOf
    by_cases hnone : (s.channel c).events_ = 0#32
    · exact .inr (if_pos hnone)
    · exact .inl (if_neg hnone)
  have hneg : ¬ (i : Int) < 0 := by omega
  have hrange : 0 ≤ (i : Int) ∧ (i : Int) < p.pollfds_.length := by omega
  unfold step updateChannel
  simp only [ChannelTable.change_index, ChannelTable.change_self, ChannelUpdate.apply_fd,
    h.heap, hi,
    if_neg hneg, hmap, ne_eq, reduceCtorEq, not_false_eq_true, assertThat_of, ok_bind, hget,
    assertThat_of hrange, assertThat_of hfd, Int.toNat_natCast]
  by_cases hnone : (u.apply (s.channel c)).events_ = 0#32
  · rw [if_pos (Channel.isNoneEvent_iff.mpr hnone), if_pos hnone]
  · rw [if_neg (fun hn => hnone (Channel.isNoneEvent_iff.mp hn)), if_neg hnone]

/-- It then is the slot of the channel, unless it had to be switched on. -/
theorem step_update_registered (h : Tracks p s) (hstatus : s.status c = .registered)
    {u : ChannelUpdate} (hnew : (s.channel c).events_ ≠ 0#32 ∨
    (u.apply (s.channel c)).events_ = 0#32)
    {i : Nat} (hi : (p.heap c).index_ = i) (hslot : p.pollfds_[i]? = some (slotOf (s.channel c))) :
    p.step (.update c u) = .ok { p with
      heap := p.heap.change c u
      pollfds_ := p.pollfds_.set i (slotOf (u.apply (s.channel c))) } := by
  rw [step_update_slot h hstatus u hi hslot]
  by_cases hnone : (u.apply (s.channel c)).events_ = 0#32
  · simp only [slotOf, if_pos hnone, ChannelUpdate.apply_fd]
  · have hsome : (s.channel c).events_ ≠ 0#32 := hnew.resolve_right hnone
    simp only [slotOf, if_neg hsome, if_neg hnone, ChannelUpdate.apply_fd]

theorem tracks_update_registered (h : Tracks p s) (hstatus : s.status c = .registered)
    (hfree : s.Unshared c) (u : ChannelUpdate) {i : Nat} (hi : (p.heap c).index_ = i) :
    Tracks { p with
      heap := p.heap.change c u
      pollfds_ := p.pollfds_.set i (slotOf (u.apply (s.channel c))) } (s.updated c u) := by
  have hmap := h.channels_eq hstatus
  have hmirrors := h.toMirrors.updated hfree u
  rw [← hmap, Function.update_eq_self] at hmirrors
  have hkeep : ∀ c', (s.updated c u).status c' = s.status c' := by
    intro c'
    by_cases hc : c' = c
    · subst hc
      rw [Interest.updated_status_self, hstatus]
    · rw [Interest.updated_status_of_ne hc]
  have hitself : i = (p.heap c).index_.toNat := by rw [hi, Int.toNat_natCast]
  rw [hitself]
  refine .of_table hmirrors ?_ (fun c' hc' => ?_) (fun c' hc' => ?_) (fun c' => ?_)
    (requested_updated h.requested u)
  · refine h.table.set hstatus (fun c' => by rw [hkeep]) (fun c' _ => ?_) ?_
      (fun c' pfd _ hc hpfd => ?_)
    · rw [ChannelTable.change_index]
    · rw [Interest.updated_channel_self]
    · rw [Interest.updated_channel_of_ne hc]
      exact hpfd
  · rw [hkeep] at hc'
    rw [ChannelTable.change_index]
    exact h.fresh c' hc'
  · rw [hkeep] at hc'
    rw [ChannelTable.change_index]
    exact h.index_nonneg hc'
  · rw [Interest.updated_fd]
    exact h.nonneg c'

/-- The channels that stay registered when `c` is removed. -/
theorem registered_removed {c' : Nat} :
    (s.removed c).status c' = .registered ↔ c' ≠ c ∧ s.status c' = .registered := by
  by_cases hc : c' = c
  · subst hc
    simp
  · rw [Interest.removed_status_of_ne hc]
    exact ⟨fun h => ⟨hc, h⟩, fun h => h.2⟩

theorem fresh_removed {c' : Nat} (h : (s.removed c).status c' = .fresh) : s.status c' = .fresh := by
  by_cases hc : c' = c
  · subst hc
    rw [Interest.removed_status_self] at h
    exact absurd h (by simp)
  · rwa [Interest.removed_status_of_ne hc] at h

/-- A channel that was registered has a slot or had one. -/
theorem Tracks.index_nonneg_removed (h : Tracks p s) (hstatus : s.status c = .registered) {c' : Nat}
    (hc' : (s.removed c).status c' ≠ .fresh) : 0 ≤ (p.heap c').index_ := by
  refine h.index_nonneg fun hfresh => hc' ?_
  have hne : c' ≠ c := by
    rintro rfl
    exact absurd (hfresh.symm.trans hstatus) (by simp)
  rw [Interest.removed_status_of_ne hne, hfresh]

/-- The assertions of `removeChannel` hold. -/
theorem step_remove (h : Tracks p s) (hstatus : s.status c = .registered)
    (hnone : (s.channel c).events_ = 0#32) {i : Nat} (hi : (p.heap c).index_ = i)
    (hslot : p.pollfds_[i]? = some (slotOf (s.channel c))) :
    p.step (.remove c) =
      { p with channels_ := Function.update p.channels_ (s.channel c).fd_ none }.dropSlot i := by
  have hmap := h.channels_eq hstatus
  have hnone' : (s.channel c).isNoneEvent = true := Channel.isNoneEvent_iff.mpr hnone
  have hlt := (List.getElem?_eq_some_iff.mp hslot).1
  have hrange : 0 ≤ (i : Int) ∧ (i : Int) < p.pollfds_.length := by omega
  have hpfd : (slotOf (s.channel c)).fd = -(s.channel c).fd_ - 1 ∧
      (slotOf (s.channel c)).events.signExtend 32 = (s.channel c).events_ :=
    ⟨if_pos hnone, signExtend_setWidth (h.requested c)⟩
  unfold step removeChannel
  simp only [h.heap, hnone', hmap, ne_eq, reduceCtorEq, not_false_eq_true, assertThat_of,
    ok_bind, hi,
    assertThat_of hrange, slot_of hslot, assertThat_of hpfd, Option.toList_some,
    List.length_singleton]

/-- Removal of the channel in the last slot. -/
theorem tracks_remove_last (h : Tracks p s) (hstatus : s.status c = .registered)
    (hi : (p.heap c).index_ = (p.pollfds_.length - 1 : Nat)) :
    Tracks { p with
      channels_ := Function.update p.channels_ (s.channel c).fd_ none
      pollfds_ := p.pollfds_.dropLast } (s.removed c) := by
  refine .of_table (h.toMirrors.removed hstatus) ?_ (fun c' hc' => h.fresh c' (fresh_removed hc'))
    (fun c' hc' => h.index_nonneg_removed hstatus hc') h.nonneg h.requested
  exact h.table.pop hstatus (fun _ => registered_removed) (by rw [hi, Int.toNat_natCast])

/-- Removal of a channel in the middle: the channel of the last slot moves. -/
theorem tracks_remove_middle (h : Tracks p s) (hstatus : s.status c = .registered) {i c' : Nat}
    (hi : (p.heap c).index_ = i) (hlt : i < p.pollfds_.length - 1) (hc' : s.status c' = .registered)
    (hlast : (p.heap c').index_ = (p.pollfds_.length - 1 : Nat)) :
    Tracks { p with
      heap := p.heap.set_index c' i
      channels_ := Function.update p.channels_ (s.channel c).fd_ none
      pollfds_ := (p.pollfds_.set i (slotOf (s.channel c'))).dropLast } (s.removed c) := by
  have hplace : (p.heap c).index_.toNat = i := by rw [hi, Int.toNat_natCast]
  have hend : (p.heap c').index_.toNat = p.pollfds_.length - 1 := by rw [hlast, Int.toNat_natCast]
  obtain ⟨pfd, hslot, rfl⟩ := h.table.slot c' hc'
  rw [hend] at hslot
  refine .of_table ((h.toMirrors.removed hstatus).set_index c' _) ?_ (fun d hd => ?_)
    (fun d hd => ?_)
    h.nonneg h.requested
  · rw [← hplace]
    refine h.table.swap hstatus (by omega) hslot hc' hend ?_ (fun d _ hd => ?_)
      (fun _ => registered_removed)
    · rw [ChannelTable.set_index_self, hplace, Int.toNat_natCast]
    · simp only [ChannelTable.set_index_of_ne _ hd]
  · have hd := fresh_removed hd
    have hne : d ≠ c' := by
      rintro rfl
      exact absurd (hd.symm.trans hc') (by simp)
    simp only [ChannelTable.set_index_of_ne _ hne]
    exact h.fresh d hd
  · by_cases hdc : d = c'
    · subst hdc
      simp only [ChannelTable.set_index_self]
      omega
    · simp only [ChannelTable.set_index_of_ne _ hdc]
      exact h.index_nonneg_removed hstatus hd

/-- Removal of a channel without interest. -/
theorem tracks_remove (h : Tracks p s) (hstatus : s.status c = .registered)
    (hnone : (s.channel c).events_ = 0#32) :
    ∃ p', p.step (.remove c) = .ok p' ∧ Tracks p' (s.removed c) := by
  obtain ⟨i, hi, hslot⟩ := h.slot c hstatus
  have hlt := (List.getElem?_eq_some_iff.mp hslot).1
  rw [step_remove h hstatus hnone hi hslot, dropSlot, Int.toNat_natCast]
  by_cases hlast : i = p.pollfds_.length - 1
  · rw [if_pos hlast]
    subst hlast
    exact ⟨_, rfl, tracks_remove_last h hstatus hi⟩
  · rw [if_neg hlast]
    have hend : p.pollfds_.length - 1 < p.pollfds_.length := by omega
    obtain ⟨c', hc', hindex⟩ := h.owner _ _ (List.getElem?_eq_getElem hend)
    obtain ⟨j, hj, hslot'⟩ := h.slot c' hc'
    obtain rfl : j = p.pollfds_.length - 1 := by omega
    have hne : (s.channel c').fd_ ≠ (s.channel c).fd_ := by
      intro hfd
      obtain rfl := h.toMirrors.inj hc' hstatus hfd
      omega
    have hmap : Function.update p.channels_ (s.channel c).fd_ none
      (s.channel c').fd_ = some c' := by
      rw [Function.update_of_ne hne]
      exact (h.map _ c').mpr ⟨hc', rfl⟩
    have hidx : (p.pollfds_.length : Int) - 1 = (p.pollfds_.length - 1 : Nat) := by omega
    have hget : ({ p with channels_ := Function.update p.channels_ (s.channel c).fd_ none } :
        PollPoller).slot (p.pollfds_.length - 1 : Nat) = .ok (slotOf (s.channel c')) :=
          slot_of hslot'
    refine ⟨_, ?_, tracks_remove_middle h hstatus hi (by omega) hc' hindex⟩
    simp only [hidx, hget, ok_bind, slotOf_fd (h.nonneg c'), hmap]

/-! ## Where the code goes wrong -/

/-- A channel that was removed keeps its `index_`, so it cannot be registered again. -/
theorem step_update_removed (h : Tracks p s) (hstatus : s.status c = .removed)
    (hfree : s.Unshared c) (u : ChannelUpdate) : p.step (.update c u) = .error .assertion := by
  have hmap := h.channels_eq_none (by rw [hstatus]; simp) hfree
  have hneg : ¬ (p.heap c).index_ < 0 := by
    have := h.stale c hstatus
    omega
  unfold step updateChannel
  simp only [ChannelTable.change_index, ChannelTable.change_self, ChannelUpdate.apply_fd, h.heap,
    if_neg hneg, hmap, ne_eq, not_true_eq_false]
  rfl

/-- A slot that was switched off stays off. -/
theorem not_watches_of_reenabled (h : Tracks p s) (hstatus : s.status c = .registered)
    (hnone : (s.channel c).events_ = 0#32) {u : ChannelUpdate}
    (hnew : (u.apply (s.channel c)).events_ ≠ 0#32) {p' : PollPoller}
    (hstep : p.step (.update c u) = .ok p') (events : BitVec 32) :
    ¬ p'.Watches (s.channel c).fd_ events := by
  obtain ⟨i, hi, hslot⟩ := h.slot c hstatus
  rw [step_update_slot h hstatus u hi hslot, if_neg hnew] at hstep
  obtain rfl := Except.ok.inj hstep
  have hoff : (slotOf (s.channel c)).fd = -(s.channel c).fd_ - 1 := if_pos hnone
  rintro ⟨pfd, hmem, hpos, hfd, rfl⟩
  have hnonneg := h.nonneg c
  rcases List.mem_or_eq_of_mem_set hmem with hmem | rfl
  · -- no other slot has the descriptor
    obtain ⟨c', hc', hfd', hevents, hsome⟩ :=
      (h.watches_iff pfd.fd _).mp ⟨pfd, hmem, hpos, rfl, rfl⟩
    obtain rfl := h.toMirrors.inj hc' hstatus (hfd'.trans hfd)
    exact hsome (hevents.symm.trans hnone)
  · rw [hoff] at hfd
    omega

end Steps

end PollPoller

end Muduo.Net
