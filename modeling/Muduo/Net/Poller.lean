/-
  Net/Poller.lean --- what a `Poller` is for (src/muduo/net/Poller.h), and the
  channels it is told about.

  `Interest` is the abstract poller: the channels and, for each, whether it is
  registered.  The two implementations, `EPollPoller` and `PollPoller`, keep the same
  information in two quite different ways, and both use `Channel::index_` for it; each
  of them is related to `Interest` in its own module.

  A `Channel*` is a number; the `Channel` objects are a table, whose entries have the
  poller's `index_` beside the descriptor and the events.
-/
import Mathlib.Logic.Function.Basic
import Muduo.Foundation.Machine
import Muduo.Net.Channel

set_option autoImplicit false

namespace Muduo.Net

open Muduo.Foundation

/-! ## Channels -/

/-- The methods of `Channel` that change its interest and call `update()`. -/
inductive ChannelUpdate where
  | enableReading
  | enableWriting
  | disableWriting
  | disableAll
  deriving DecidableEq, Repr

/-- What the method does to its channel. -/
def ChannelUpdate.apply : ChannelUpdate → Channel → Channel
  | .enableReading => Channel.enableReading
  | .enableWriting => Channel.enableWriting
  | .disableWriting => Channel.disableWriting
  | .disableAll => Channel.disableAll

@[simp] theorem ChannelUpdate.apply_fd (u : ChannelUpdate) (ch : Channel) :
    (u.apply ch).fd_ = ch.fd_ := by
  cases u <;> rfl

/-- A call of a method of `Channel`. -/
inductive ChannelOp where
  | update (channel : Nat) (u : ChannelUpdate)
  | remove (channel : Nat)
  deriving DecidableEq, Repr

/-- A `Channel` with the field that belongs to the poller. -/
structure PolledChannel extends Channel where
  index_ : Int
  deriving DecidableEq, Repr

/-- The `Channel` objects. -/
abbrev ChannelTable : Type := Nat → PolledChannel

namespace ChannelTable

/-- New channels for the given descriptors. -/
def new (fd : Nat → Int) : ChannelTable := fun c => ⟨Channel.new (fd c), -1⟩

/-- `channel->set_index(idx)`. -/
def set_index (table : ChannelTable) (c : Nat) (idx : Int) : ChannelTable :=
  Function.update table c { table c with index_ := idx }

/-- Change the events of a channel. -/
def change (table : ChannelTable) (c : Nat) (u : ChannelUpdate) : ChannelTable :=
  Function.update table c { table c with toChannel := u.apply (table c).toChannel }

@[simp] theorem set_index_toChannel (table : ChannelTable) (c c' : Nat) (idx : Int) :
    (table.set_index c idx c').toChannel = (table c').toChannel := by
  unfold set_index
  by_cases h : c' = c
  · subst h
    rw [Function.update_self]
  · rw [Function.update_of_ne h]

@[simp] theorem set_index_self (table : ChannelTable) (c : Nat) (idx : Int) :
    (table.set_index c idx c).index_ = idx := by
  rw [set_index, Function.update_self]

theorem set_index_eq_self {table : ChannelTable} {c : Nat} {idx : Int}
    (h : (table c).index_ = idx) : table.set_index c idx = table := by
  subst h
  exact Function.update_eq_self c table

theorem set_index_of_ne (table : ChannelTable) {c c' : Nat} (h : c' ≠ c) (idx : Int) :
    table.set_index c idx c' = table c' := by
  rw [set_index, Function.update_of_ne h]

@[simp] theorem change_index (table : ChannelTable) (c c' : Nat) (u : ChannelUpdate) :
    (table.change c u c').index_ = (table c').index_ := by
  unfold change
  by_cases h : c' = c
  · subst h
    rw [Function.update_self]
  · rw [Function.update_of_ne h]

@[simp] theorem change_self (table : ChannelTable) (c : Nat) (u : ChannelUpdate) :
    (table.change c u c).toChannel = u.apply (table c).toChannel := by
  rw [change, Function.update_self]

theorem change_of_ne (table : ChannelTable) {c c' : Nat} (h : c' ≠ c) (u : ChannelUpdate) :
    table.change c u c' = table c' := by
  rw [change, Function.update_of_ne h]

end ChannelTable

/-! ## The abstract poller -/

/-- Where a channel stands with its poller. -/
inductive Registration where
  | fresh
  | registered
  | removed
  deriving DecidableEq, Repr

/-- The channels and their registrations. -/
structure Interest where
  channel : Nat → Channel
  status : Nat → Registration

namespace Interest

/-- New channels for the given descriptors, none of them registered. -/
def new (fd : Nat → Int) : Interest := ⟨fun c => Channel.new (fd c), fun _ => .fresh⟩

/-- A channel changes its interest and is registered. -/
def updated (s : Interest) (c : Nat) (u : ChannelUpdate) : Interest :=
  ⟨Function.update s.channel c (u.apply (s.channel c)), Function.update s.status c .registered⟩

/-- A channel is not registered any more. -/
def removed (s : Interest) (c : Nat) : Interest :=
  ⟨s.channel, Function.update s.status c .removed⟩

/-- What an operation does to the interests. -/
def step (s : Interest) : ChannelOp → Exec Interest
  | .update c u => .ok (s.updated c u)
  | .remove c => .ok (s.removed c)

/-- A channel is removed only when it has no interest and has been updated before. -/
def Legal (s : Interest) : ChannelOp → Prop
  | .update _ _ => True
  | .remove c => (s.channel c).isNoneEvent = true ∧ s.status c ≠ .fresh

instance (s : Interest) (op : ChannelOp) : Decidable (s.Legal op) :=
  match op with
  | .update _ _ => inferInstanceAs (Decidable True)
  | .remove _ => inferInstanceAs (Decidable (_ ∧ _ ≠ _))

/-- Operations on channels as they are meant. -/
def machine : Machine Interest ChannelOp := ⟨step, Legal⟩

/-- The pair of a descriptor and events that a registered channel asks for. -/
def Wants (s : Interest) (fd : Int) (events : BitVec 32) : Prop :=
  ∃ c, s.status c = .registered ∧ (s.channel c).fd_ = fd ∧ (s.channel c).events_ = events ∧
    events ≠ 0#32

section Steps

variable {s : Interest} {c c' : Nat} {u : ChannelUpdate}

@[simp] theorem updated_channel_self : (s.updated c u).channel c = u.apply (s.channel c) :=
  Function.update_self _ _ _

@[simp] theorem updated_status_self : (s.updated c u).status c = .registered :=
  Function.update_self _ _ _

theorem updated_channel_of_ne (h : c' ≠ c) : (s.updated c u).channel c' = s.channel c' :=
  Function.update_of_ne h _ _

theorem updated_status_of_ne (h : c' ≠ c) : (s.updated c u).status c' = s.status c' :=
  Function.update_of_ne h _ _

@[simp] theorem updated_fd : ((s.updated c u).channel c').fd_ = (s.channel c').fd_ := by
  by_cases h : c' = c
  · subst h
    simp
  · rw [updated_channel_of_ne h]

@[simp] theorem removed_status_self : (s.removed c).status c = .removed :=
  Function.update_self _ _ _

theorem removed_status_of_ne (h : c' ≠ c) : (s.removed c).status c' = s.status c' :=
  Function.update_of_ne h _ _

/-- No other registered channel has the descriptor of `c`. -/
def Unshared (s : Interest) (c : Nat) : Prop :=
  ∀ c', s.status c' = .registered → (s.channel c').fd_ = (s.channel c).fd_ → c' = c

/-- What is wanted after an update: at the descriptor of the channel what the channel
asks for, elsewhere what was wanted before. -/
theorem wants_updated (h : s.Unshared c) (fd : Int) (events : BitVec 32) :
    (s.updated c u).Wants fd events ↔
      if fd = (s.channel c).fd_ then events = (u.apply (s.channel c)).events_ ∧ events ≠ 0#32
      else s.Wants fd events := by
  split
  · rename_i hfd
    subst hfd
    constructor
    · rintro ⟨c', hstatus, hfd, hevents, hne⟩
      obtain rfl : c' = c := by
        by_contra hc
        rw [updated_status_of_ne hc] at hstatus
        rw [updated_fd] at hfd
        exact hc (h c' hstatus hfd)
      exact ⟨by rw [← hevents, updated_channel_self], hne⟩
    · rintro ⟨rfl, hne⟩
      exact ⟨c, updated_status_self, updated_fd, by rw [updated_channel_self], hne⟩
  · rename_i hfd
    have hkeep : ∀ c', (s.channel c').fd_ = fd → c' ≠ c := by
      rintro c' rfl rfl
      exact hfd rfl
    constructor
    · rintro ⟨c', hstatus, hfd', hevents, hne⟩
      rw [updated_fd] at hfd'
      have hc := hkeep c' hfd'
      exact ⟨c', (updated_status_of_ne hc).symm.trans hstatus, hfd',
        (updated_channel_of_ne hc ▸ hevents), hne⟩
    · rintro ⟨c', hstatus, hfd', hevents, hne⟩
      have hc := hkeep c' hfd'
      exact ⟨c', (updated_status_of_ne hc).trans hstatus, updated_fd.trans hfd',
        by rw [updated_channel_of_ne hc]; exact hevents, hne⟩

/-- Removing a channel without interest changes nothing that is wanted. -/
theorem wants_removed (h : (s.channel c).events_ = 0#32) (fd : Int) (events : BitVec 32) :
    (s.removed c).Wants fd events ↔ s.Wants fd events := by
  constructor
  · rintro ⟨c', hstatus, hfd, hevents, hne⟩
    have hc : c' ≠ c := by
      rintro rfl
      rw [removed_status_self] at hstatus
      exact absurd hstatus (by simp)
    exact ⟨c', (removed_status_of_ne hc).symm.trans hstatus, hfd, hevents, hne⟩
  · rintro ⟨c', hstatus, hfd, hevents, hne⟩
    have hc : c' ≠ c := by
      rintro rfl
      exact hne (hevents.symm.trans h)
    exact ⟨c', (removed_status_of_ne hc).trans hstatus, hfd, hevents, hne⟩

end Steps

/-! ## What both pollers keep

Both have a map from the descriptors of the registered channels to the channels. -/

/-- The channels are those of the abstract poller, and the map has the registered
ones. -/
structure Mirrors (heap : ChannelTable) (channels : Int → Option Nat) (s : Interest) : Prop where
  heap : ∀ c, (heap c).toChannel = s.channel c
  map : ∀ fd c, channels fd = some c ↔ s.status c = .registered ∧ (s.channel c).fd_ = fd

section Mirrors

variable {heap : ChannelTable} {channels : Int → Option Nat} {s : Interest} {c : Nat}

theorem mirrors_new (fd : Nat → Int) : Mirrors (.new fd) (fun _ => none) (new fd) :=
  ⟨fun _ => rfl, fun _ _ => by simp [new]⟩

/-- Registered channels have different descriptors. -/
theorem Mirrors.inj (h : Mirrors heap channels s) {c' : Nat} (hc : s.status c = .registered)
    (hc' : s.status c' = .registered) (hfd : (s.channel c).fd_ = (s.channel c').fd_) : c = c' :=
  Option.some.inj (((h.map _ c).mpr ⟨hc, rfl⟩).symm.trans ((h.map _ c').mpr ⟨hc', hfd.symm⟩))

/-- A channel that is registered is in the map. -/
theorem Mirrors.channels_eq (h : Mirrors heap channels s) (hstatus : s.status c = .registered) :
    channels (s.channel c).fd_ = some c :=
  (h.map _ c).mpr ⟨hstatus, rfl⟩

/-- A channel that is not registered is not in the map, nor is another one with its
descriptor. -/
theorem Mirrors.channels_eq_none (h : Mirrors heap channels s) (hstatus : s.status c ≠ .registered)
    (hfree : s.Unshared c) : channels (s.channel c).fd_ = none := by
  rcases hmap : channels (s.channel c).fd_ with _ | c'
  · rfl
  · obtain ⟨hstatus', hfd⟩ := (h.map _ c').mp hmap
    obtain rfl := hfree c' hstatus' hfd
    exact absurd hstatus' hstatus

theorem Mirrors.set_index (h : Mirrors heap channels s) (c : Nat) (idx : Int) :
    Mirrors (heap.set_index c idx) channels s :=
  ⟨fun c' => by rw [ChannelTable.set_index_toChannel, h.heap], h.map⟩

/-- Channels with different descriptors are different. -/
theorem ne_of_fd_ne {fd : Int} {c' : Nat} (hfd : fd ≠ (s.channel c).fd_)
    (hfd' : (s.channel c').fd_ = fd) : c' ≠ c := by
  rintro rfl
  exact hfd hfd'.symm

theorem Mirrors.updated (h : Mirrors heap channels s) (hfree : s.Unshared c) (u : ChannelUpdate) :
    Mirrors (heap.change c u) (Function.update channels (s.channel c).fd_ (some c))
      (s.updated c u) := by
  refine ⟨fun c' => ?_, fun fd c' => ?_⟩
  · by_cases hc : c' = c
    · subst hc
      rw [ChannelTable.change_self, h.heap, updated_channel_self]
    · rw [ChannelTable.change_of_ne _ hc, updated_channel_of_ne hc, h.heap]
  · rw [updated_fd]
    by_cases hfd : fd = (s.channel c).fd_
    · subst hfd
      rw [Function.update_self, Option.some_inj]
      constructor
      · rintro rfl
        exact ⟨updated_status_self, rfl⟩
      · rintro ⟨hstatus, hfd'⟩
        by_contra hc
        rw [updated_status_of_ne (Ne.symm hc)] at hstatus
        exact hc (hfree c' hstatus hfd').symm
    · rw [Function.update_of_ne hfd, h.map]
      exact and_congr_left fun hfd' => by rw [updated_status_of_ne (ne_of_fd_ne hfd hfd')]

theorem Mirrors.removed (h : Mirrors heap channels s) (hstatus : s.status c = .registered) :
    Mirrors heap (Function.update channels (s.channel c).fd_ none) (s.removed c) := by
  refine ⟨h.heap, fun fd c' => ?_⟩
  by_cases hfd : fd = (s.channel c).fd_
  · subst hfd
    rw [Function.update_self]
    refine ⟨fun hn => absurd hn (by simp), ?_⟩
    rintro ⟨hstatus', hfd'⟩
    have hc : c' ≠ c := by
      rintro rfl
      rw [removed_status_self] at hstatus'
      exact absurd hstatus' (by simp)
    rw [removed_status_of_ne hc] at hstatus'
    exact absurd (h.inj hstatus' hstatus hfd') hc
  · rw [Function.update_of_ne hfd, h.map]
    exact and_congr_left fun hfd' => by rw [removed_status_of_ne (ne_of_fd_ne hfd hfd')]

end Mirrors

end Interest

end Muduo.Net
