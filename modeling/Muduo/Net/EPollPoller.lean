/-
  Net/EPollPoller.lean --- `EPollPoller` (src/muduo/net/poller/EPollPoller.cc).

  The poller keeps a map from descriptors to channels, and the kernel keeps the set of
  descriptors it watches.  `Channel::index_` tells where a channel is: `kNew` in
  neither, `kAdded` in both, `kDeleted` in the map only.  `epoll_ctl` does what it is
  asked.  `Tracks` relates all that to the abstract poller.
-/
import Muduo.Net.Poller

set_option autoImplicit false

namespace Muduo.Net

open Muduo.Foundation

/-- `kNew`: the channel is not in the map. -/
def kNew : Int := -1

/-- `kAdded`: it is in the map and in the kernel. -/
def kAdded : Int := 1

/-- `kDeleted`: it is in the map only. -/
def kDeleted : Int := 2

theorem kDeleted_ne_kNew : kDeleted ≠ kNew := by decide

theorem kAdded_ne_kNew : kAdded ≠ kNew := by decide

theorem kAdded_ne_kDeleted : kAdded ≠ kDeleted := by decide

/-- The operation of `epoll_ctl`. -/
inductive EpollOperation where
  | EPOLL_CTL_ADD
  | EPOLL_CTL_MOD
  | EPOLL_CTL_DEL
  deriving DecidableEq, Repr

/-- `class EPollPoller`, with the channels and the kernel's side of `epollfd_`. -/
structure EPollPoller where
  heap : ChannelTable
  channels_ : Int → Option Nat
  /-- the events for which the kernel watches a descriptor -/
  epollfd_ : Int → Option (BitVec 32)

namespace EPollPoller

/-- Without channels. -/
def new (fd : Nat → Int) : EPollPoller := ⟨.new fd, fun _ => none, fun _ => none⟩

/-- `update(operation, channel)`. -/
def update (p : EPollPoller) (operation : EpollOperation) (c : Nat) : EPollPoller :=
  let channel := p.heap c
  match operation with
  | .EPOLL_CTL_ADD | .EPOLL_CTL_MOD =>
      { p with epollfd_ := Function.update p.epollfd_ channel.fd_ (some channel.events_) }
  | .EPOLL_CTL_DEL => { p with epollfd_ := Function.update p.epollfd_ channel.fd_ none }

/-- `channel->set_index(idx)`. -/
def set_index (p : EPollPoller) (c : Nat) (idx : Int) : EPollPoller :=
  { p with heap := p.heap.set_index c idx }

/-- `updateChannel(channel)`. -/
def updateChannel (p : EPollPoller) (c : Nat) : Exec EPollPoller :=
  let index := (p.heap c).index_
  let fd := (p.heap c).fd_
  if index = kNew ∨ index = kDeleted then do
    let p ←
      if index = kNew then do
        assertThat (p.channels_ fd = none)
        .ok { p with channels_ := Function.update p.channels_ fd (some c) }
      else do
        assertThat (p.channels_ fd ≠ none)
        assertThat (p.channels_ fd = some c)
        .ok p
    .ok ((p.set_index c kAdded).update .EPOLL_CTL_ADD c)
  else do
    assertThat (p.channels_ fd ≠ none)
    assertThat (p.channels_ fd = some c)
    assertThat (index = kAdded)
    if (p.heap c).isNoneEvent then
      .ok ((p.update .EPOLL_CTL_DEL c).set_index c kDeleted)
    else .ok (p.update .EPOLL_CTL_MOD c)

/-- `removeChannel(channel)`. -/
def removeChannel (p : EPollPoller) (c : Nat) : Exec EPollPoller := do
  assertThat ((p.heap c).isNoneEvent = true)
  let fd := (p.heap c).fd_
  assertThat (p.channels_ fd ≠ none)
  assertThat (p.channels_ fd = some c)
  let index := (p.heap c).index_
  assertThat (index = kAdded ∨ index = kDeleted)
  let n := (p.channels_ fd).toList.length
  let p := { p with channels_ := Function.update p.channels_ fd none }
  assertThat (n = 1)
  let p := if index = kAdded then p.update .EPOLL_CTL_DEL c else p
  .ok (p.set_index c kNew)

/-- A method of a channel of this poller. -/
def step (p : EPollPoller) : ChannelOp → Exec EPollPoller
  | .update c u => { p with heap := p.heap.change c u }.updateChannel c
  | .remove c => do
      assertThat ((p.heap c).isNoneEvent = true)
      p.removeChannel c

/-- Any operations on channels. -/
def machine : Machine EPollPoller ChannelOp := ⟨step, fun _ _ => True⟩

/-- The kernel watches the descriptor for the events. -/
def Watches (p : EPollPoller) (fd : Int) (events : BitVec 32) : Prop :=
  p.epollfd_ fd = some events

/-! ## The abstract poller -/

/-- The value of `index_` of a channel. -/
def indexOf (s : Interest) (c : Nat) : Int :=
  if s.status c = .registered then
    if (s.channel c).events_ = 0#32 then kDeleted else kAdded
  else kNew

/-- The poller has registered what `s` wants. -/
structure Tracks (p : EPollPoller) (s : Interest) : Prop
    extends Interest.Mirrors p.heap p.channels_ s where
  index : ∀ c, (p.heap c).index_ = indexOf s c
  kernel : ∀ fd events, p.Watches fd events ↔ s.Wants fd events

theorem tracks_new (fd : Nat → Int) : Tracks (new fd) (.new fd) where
  toMirrors := Interest.mirrors_new fd
  index _ := rfl
  kernel _ _ := by simp [Watches, new, Interest.Wants, Interest.new]

section Steps

variable {p : EPollPoller} {s : Interest} {c : Nat}

/-- The poller after an update. -/
def updated (p : EPollPoller) (c : Nat) (u : ChannelUpdate) : EPollPoller :=
  let channel := u.apply (p.heap c).toChannel
  { heap := (p.heap.change c u).set_index c (if channel.events_ = 0#32 then kDeleted else kAdded)
    channels_ := Function.update p.channels_ channel.fd_ (some c)
    epollfd_ := Function.update p.epollfd_ channel.fd_
      (if channel.events_ = 0#32 then none else some channel.events_) }

theorem tracks_updated (h : Tracks p s) (hfree : s.Unshared c) (u : ChannelUpdate) :
    Tracks (p.updated c u) (s.updated c u) := by
  have hchannel : u.apply (p.heap c).toChannel = u.apply (s.channel c) := by rw [h.heap]
  refine ⟨?_, fun c' => ?_, fun fd events => ?_⟩
  · simp only [updated, hchannel, ChannelUpdate.apply_fd]
    exact (h.toMirrors.updated hfree u).set_index c _
  · by_cases hc : c' = c
    · subst hc
      simp [updated, indexOf, hchannel]
    · simp only [updated, ChannelTable.set_index_of_ne _ hc, ChannelTable.change_of_ne _ hc,
        h.index,
        indexOf, Interest.updated_channel_of_ne hc, Interest.updated_status_of_ne hc]
  · rw [Interest.wants_updated hfree, Watches]
    simp only [updated, hchannel, ChannelUpdate.apply_fd]
    by_cases hfd : fd = (s.channel c).fd_
    · subst hfd
      rw [Function.update_self, if_pos rfl]
      by_cases hnone : (u.apply (s.channel c)).events_ = 0#32
      · simp [hnone]
      · rw [if_neg hnone, Option.some_inj]
        constructor
        · rintro rfl
          exact ⟨rfl, hnone⟩
        · exact fun hevents => hevents.1.symm
    · rw [Function.update_of_ne hfd, if_neg hfd]
      exact h.kernel fd events

/-- A descriptor that is not watched is not asked for with no events at all. -/
def NotBlank (s : Interest) : ChannelOp → Prop
  | .update c u =>
      s.status c = .registered ∧ (s.channel c).events_ ≠ 0#32 ∨
        (u.apply (s.channel c)).events_ ≠ 0#32
  | .remove c => s.status c = .registered

/-- The poller after an update that adds the descriptor to the kernel's set, whatever
the events are. -/
def added (p : EPollPoller) (c : Nat) (u : ChannelUpdate) : EPollPoller :=
  let channel := u.apply (p.heap c).toChannel
  { heap := (p.heap.change c u).set_index c kAdded
    channels_ := Function.update p.channels_ channel.fd_ (some c)
    epollfd_ := Function.update p.epollfd_ channel.fd_ (some channel.events_) }

theorem added_eq_updated {u : ChannelUpdate}
    (hnew : (u.apply (p.heap c).toChannel).events_ ≠ 0#32) :
    p.added c u = p.updated c u := by
  simp only [added, updated, if_neg hnew]

/-- A registered channel is in the map already. -/
theorem Tracks.channels_update (h : Tracks p s) (hstatus : s.status c = .registered) :
    Function.update p.channels_ (s.channel c).fd_ (some c) = p.channels_ := by
  rw [← h.channels_eq hstatus, Function.update_eq_self]

/-- `kNew` and `kDeleted`: a descriptor that is not watched is added. -/
theorem step_update_add (h : Tracks p s) (hfree : s.Unshared c)
    (hidle : ¬ (s.status c = .registered ∧ (s.channel c).events_ ≠ 0#32)) (u : ChannelUpdate) :
    p.step (.update c u) = .ok (p.added c u) := by
  have hindex := h.index c
  unfold step updateChannel
  simp only [ChannelTable.change_index, ChannelTable.change_self, ChannelUpdate.apply_fd]
  by_cases hstatus : s.status c = .registered
  · have hold : (s.channel c).events_ = 0#32 := by
      by_contra hold
      exact hidle ⟨hstatus, hold⟩
    have hidx : (p.heap c).index_ = kDeleted := by
      rw [hindex, indexOf, if_pos hstatus, if_pos hold]
    simp only [hidx, h.heap, h.channels_eq hstatus, ne_eq, reduceCtorEq, not_false_eq_true,
      assertThat_of, ok_bind, kDeleted_ne_kNew, or_true, if_true, if_false]
    simp only [update, added, set_index, h.heap, h.channels_update hstatus, ChannelUpdate.apply_fd,
      ChannelTable.set_index_toChannel, ChannelTable.change_self]
  · have hidx : (p.heap c).index_ = kNew := by rw [hindex, indexOf, if_neg hstatus]
    simp only [hidx, h.heap, h.channels_eq_none hstatus hfree, assertThat_of, ok_bind, true_or,
      if_true]
    simp only [update, added, set_index, h.heap, ChannelUpdate.apply_fd,
      ChannelTable.set_index_toChannel, ChannelTable.change_self]

/-- `kAdded`: the events of a descriptor that is watched are changed, or it is deleted. -/
theorem step_update_watched (h : Tracks p s) (hstatus : s.status c = .registered)
    (hold : (s.channel c).events_ ≠ 0#32) (u : ChannelUpdate) :
    p.step (.update c u) = .ok (p.updated c u) := by
  have hidx : (p.heap c).index_ = kAdded := by
    rw [h.index c, indexOf, if_pos hstatus, if_neg hold]
  have hkeep : (p.heap.change c u).set_index c kAdded = p.heap.change c u :=
    ChannelTable.set_index_eq_self (by rw [ChannelTable.change_index, hidx])
  unfold step updateChannel
  simp only [ChannelTable.change_index, ChannelTable.change_self, ChannelUpdate.apply_fd, hidx,
    h.heap, h.channels_eq hstatus, ne_eq, reduceCtorEq, not_false_eq_true, assertThat_of, ok_bind,
    kAdded_ne_kNew, kAdded_ne_kDeleted, or_false, if_false]
  by_cases hnew : (u.apply (s.channel c)).events_ = 0#32
  · rw [if_pos (Channel.isNoneEvent_iff.mpr hnew)]
    simp only [update, updated, set_index, h.heap, hnew, if_true, h.channels_update hstatus,
      ChannelUpdate.apply_fd, ChannelTable.change_self]
  · rw [if_neg (fun hn => hnew (Channel.isNoneEvent_iff.mp hn))]
    simp only [update, updated, h.heap, hnew, if_false, h.channels_update hstatus,
      ChannelUpdate.apply_fd, ChannelTable.change_self, hkeep]

theorem step_update (h : Tracks p s) (hfree : s.Unshared c) {u : ChannelUpdate}
    (hblank : NotBlank s (.update c u)) : p.step (.update c u) = .ok (p.updated c u) := by
  by_cases hold : s.status c = .registered ∧ (s.channel c).events_ ≠ 0#32
  · exact step_update_watched h hold.1 hold.2 u
  · have hnew : (u.apply (p.heap c).toChannel).events_ ≠ 0#32 := by
      rw [h.heap]
      exact hblank.resolve_left hold
    rw [step_update_add h hfree hold, added_eq_updated hnew]

/-- The poller after a channel without interest was removed. -/
theorem step_remove (h : Tracks p s) (hstatus : s.status c = .registered)
    (hnone : (s.channel c).events_ = 0#32) :
    p.step (.remove c) = .ok { p with
      heap := p.heap.set_index c kNew
      channels_ := Function.update p.channels_ (p.heap c).fd_ none } := by
  have hmap : p.channels_ (p.heap c).fd_ = some c := by
    rw [h.heap]
    exact h.channels_eq hstatus
  have hidx : (p.heap c).index_ = kDeleted := by
    rw [h.index c, indexOf, if_pos hstatus, if_pos hnone]
  have hnone' : (p.heap c).isNoneEvent = true := by
    rw [Channel.isNoneEvent_iff, h.heap]
    exact hnone
  unfold step removeChannel
  simp only [hnone', assertThat_of, ok_bind, hmap, ne_eq, reduceCtorEq, not_false_eq_true, hidx,
    or_true, Option.toList_some, List.length_singleton, kAdded_ne_kDeleted.symm,
    if_false, set_index]

theorem tracks_removed (h : Tracks p s) (hstatus : s.status c = .registered)
    (hnone : (s.channel c).events_ = 0#32) :
    Tracks { p with
      heap := p.heap.set_index c kNew
      channels_ := Function.update p.channels_ (p.heap c).fd_ none } (s.removed c) := by
  refine ⟨?_, fun c' => ?_, fun fd events => ?_⟩
  · rw [h.heap]
    exact (h.toMirrors.removed hstatus).set_index c _
  · by_cases hc : c' = c
    · subst hc
      rw [ChannelTable.set_index_self, indexOf, if_neg (by simp)]
    · simp only [ChannelTable.set_index_of_ne _ hc, h.index, indexOf,
        Interest.removed_status_of_ne hc]
      rfl
  · rw [Interest.wants_removed hnone]
    exact h.kernel fd events

/-! ## Where the code goes wrong -/

/-- A descriptor that is not watched is added even when there is nothing to watch it
for. -/
theorem watches_of_blank (h : Tracks p s) (hfree : s.Unshared c) {u : ChannelUpdate}
    (hblank : ¬ NotBlank s (.update c u)) {p' : EPollPoller}
    (hstep : p.step (.update c u) = .ok p') : p'.Watches (s.channel c).fd_ 0#32 := by
  obtain ⟨hold, hnew⟩ := not_or.mp hblank
  rw [step_update_add h hfree hold] at hstep
  obtain rfl := Except.ok.inj hstep
  simp [Watches, added, h.heap, not_not.mp hnew]

/-- A channel that is not registered cannot be removed. -/
theorem step_remove_not_registered (h : Tracks p s) (hstatus : s.status c ≠ .registered)
    (hfree : s.Unshared c) (hnone : (s.channel c).isNoneEvent = true) :
    p.step (.remove c) = .error .assertion := by
  have hmap := h.channels_eq_none hstatus hfree
  unfold step removeChannel
  simp only [h.heap, hnone, assertThat_of, ok_bind, hmap, ne_eq, not_true_eq_false]
  rfl

end Steps

end EPollPoller

end Muduo.Net
