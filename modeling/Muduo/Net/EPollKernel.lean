/-
  Net/EPollKernel.lean --- `EPollPoller` over an `epoll_ctl` that can fail
  (src/muduo/net/poller/EPollPoller.cc).

  `EPollPoller` takes it for granted that `epoll_ctl` does what it is asked.  Here the
  interest list of the kernel has the `epoll_event`s with their pointers, and
  `epoll_ctl` refuses to add a descriptor twice and to change or delete one that it does
  not watch.  Each call is recorded with what it met.  A run in which nothing is refused
  is a run of `EPollPoller` (`forget_step`), and along the runs in which no descriptor is
  shared nothing is refused.
-/
import Muduo.Net.EPollPoller

set_option autoImplicit false

namespace Muduo.Net

open Muduo.Foundation

/-- `struct epoll_event`. -/
structure EpollEvent where
  events : BitVec 32
  ptr : Nat
  deriving DecidableEq, Repr

/-- `epoll_ctl(2)` over the interest list of the kernel; `none` is the result `-1`. -/
def epoll_ctl (set : Int → Option EpollEvent) (operation : EpollOperation) (fd : Int)
    (event : EpollEvent) : Option (Int → Option EpollEvent) :=
  match operation with
  | .EPOLL_CTL_ADD =>
      -- EEXIST
      if (set fd).isSome then none else some (Function.update set fd (some event))
  | .EPOLL_CTL_MOD =>
      -- ENOENT
      if (set fd).isSome then some (Function.update set fd (some event)) else none
  | .EPOLL_CTL_DEL =>
      if (set fd).isSome then some (Function.update set fd none) else none

/-- A call of `epoll_ctl`, and whether its descriptor was in the interest list. -/
structure EpollCall where
  operation : EpollOperation
  watched : Bool
  deriving DecidableEq, Repr

/-- Only what is not watched is added, and only what is watched is changed or deleted. -/
def EpollCall.Fitting (call : EpollCall) : Prop :=
  match call.operation with
  | .EPOLL_CTL_ADD => call.watched = false
  | .EPOLL_CTL_MOD | .EPOLL_CTL_DEL => call.watched = true

/-- `class EPollPoller`, with the channels, the kernel's side of `epollfd_` and the calls
of `epoll_ctl` so far. -/
structure EPollKernel where
  heap : ChannelTable
  channels_ : Int → Option Nat
  epollfd_ : Int → Option EpollEvent
  calls : List EpollCall

namespace EPollKernel

/-- Without channels. -/
def new (fd : Nat → Int) : EPollKernel := ⟨.new fd, fun _ => none, fun _ => none, []⟩

/-- `update(operation, channel)`.  A failure is logged with `LOG_SYSERR` for a `DEL`, and
with `LOG_SYSFATAL` otherwise, which aborts. -/
def update (p : EPollKernel) (operation : EpollOperation) (c : Nat) : Exec EPollKernel :=
  let event : EpollEvent := ⟨(p.heap c).events_, c⟩
  let fd := (p.heap c).fd_
  let calls := p.calls ++ [⟨operation, (p.epollfd_ fd).isSome⟩]
  match epoll_ctl p.epollfd_ operation fd event with
  | some set => .ok { p with epollfd_ := set, calls := calls }
  | none =>
      if operation = .EPOLL_CTL_DEL then .ok { p with calls := calls } else .error .assertion

/-- `channel->set_index(idx)`. -/
def set_index (p : EPollKernel) (c : Nat) (idx : Int) : EPollKernel :=
  { p with heap := p.heap.set_index c idx }

/-- `updateChannel(channel)`. -/
def updateChannel (p : EPollKernel) (c : Nat) : Exec EPollKernel :=
  let index := (p.heap c).index_
  let fd := (p.heap c).fd_
  if index = kNew ∨ index = kDeleted then do
    let p ←
      if index = kNew then do
        assertThat (p.channels_ fd = none)
        .ok { p with channels_ := Function.update p.channels_ fd (some c) }
      else do
        assertThat (p.channels_ fd ≠ none)
        assertThat (p.channels_ fd = some c)
        .ok p
    (p.set_index c kAdded).update .EPOLL_CTL_ADD c
  else do
    assertThat (p.channels_ fd ≠ none)
    assertThat (p.channels_ fd = some c)
    assertThat (index = kAdded)
    if (p.heap c).isNoneEvent then do
      let p ← p.update .EPOLL_CTL_DEL c
      .ok (p.set_index c kDeleted)
    else p.update .EPOLL_CTL_MOD c

/-- `removeChannel(channel)`. -/
def removeChannel (p : EPollKernel) (c : Nat) : Exec EPollKernel := do
  assertThat ((p.heap c).isNoneEvent = true)
  let fd := (p.heap c).fd_
  assertThat (p.channels_ fd ≠ none)
  assertThat (p.channels_ fd = some c)
  let index := (p.heap c).index_
  assertThat (index = kAdded ∨ index = kDeleted)
  let n := (p.channels_ fd).toList.length
  let p := { p with channels_ := Function.update p.channels_ fd none }
  assertThat (n = 1)
  let p ← if index = kAdded then p.update .EPOLL_CTL_DEL c else .ok p
  .ok (p.set_index c kNew)

/-- A method of a channel of this poller. -/
def step (p : EPollKernel) : ChannelOp → Exec EPollKernel
  | .update c u => { p with heap := p.heap.change c u }.updateChannel c
  | .remove c => do
      assertThat ((p.heap c).isNoneEvent = true)
      p.removeChannel c

/-- Any operations on channels. -/
def machine : Machine EPollKernel ChannelOp := ⟨step, fun _ _ => True⟩

/-! ## The poller without the errors -/

/-- Drop the pointers and the calls. -/
def forget (p : EPollKernel) : EPollPoller :=
  ⟨p.heap, p.channels_, fun fd => (p.epollfd_ fd).map EpollEvent.events⟩

theorem forget_epollfd_update (set : Int → Option EpollEvent) (fd : Int)
    (event : Option EpollEvent) :
    (fun fd' => (Function.update set fd event fd').map EpollEvent.events) =
      Function.update (fun fd' => (set fd').map EpollEvent.events) fd
        (event.map EpollEvent.events) :=
  Function.comp_update (Option.map EpollEvent.events) set fd event

theorem forget_update {p p' : EPollKernel} {operation : EpollOperation} {c : Nat}
    (h : p.update operation c = .ok p') : p'.forget = p.forget.update operation c := by
  unfold update at h
  by_cases hset : (p.epollfd_ (p.heap c).fd_).isSome
  · cases operation with
    | EPOLL_CTL_ADD =>
        simp only [epoll_ctl, hset, if_true, reduceCtorEq, if_false] at h
    | EPOLL_CTL_MOD =>
        simp only [epoll_ctl, hset, if_true, Except.ok.injEq] at h
        subst h
        simp only [forget, forget_epollfd_update, EPollPoller.update, Option.map_some]
    | EPOLL_CTL_DEL =>
        simp only [epoll_ctl, hset, if_true, Except.ok.injEq] at h
        subst h
        simp only [forget, forget_epollfd_update, EPollPoller.update, Option.map_none]
  · cases operation with
    | EPOLL_CTL_ADD =>
        simp only [epoll_ctl, hset, Bool.false_eq_true, if_false, Except.ok.injEq] at h
        subst h
        simp only [forget, forget_epollfd_update, EPollPoller.update, Option.map_some]
    | EPOLL_CTL_MOD =>
        simp only [epoll_ctl, hset, Bool.false_eq_true, if_false, reduceCtorEq] at h
    | EPOLL_CTL_DEL =>
        -- the refused `DEL` asks for what is the case already
        simp only [epoll_ctl, hset, Bool.false_eq_true, if_false, if_true, Except.ok.injEq] at h
        subst h
        have hnone : p.epollfd_ (p.heap c).fd_ = none := by simpa using hset
        have hkeep : p.forget.epollfd_ (p.heap c).fd_ = none := by
          simp only [forget, hnone, Option.map_none]
        simp only [EPollPoller.update]
        rw [show (p.forget.heap c).fd_ = (p.heap c).fd_ from rfl, ← hkeep, Function.update_eq_self]
        rfl

theorem forget_updateChannel {p p' : EPollKernel} {c : Nat} (h : p.updateChannel c = .ok p') :
    p.forget.updateChannel c = .ok p'.forget := by
  unfold updateChannel at h
  unfold EPollPoller.updateChannel
  have hheap : p.forget.heap = p.heap := rfl
  have hchannels : p.forget.channels_ = p.channels_ := rfl
  simp only [hheap, hchannels]
  by_cases hnew : (p.heap c).index_ = kNew
  · simp only [hnew, true_or, if_true, assertThat_bind_eq_ok_iff, ok_bind] at h ⊢
    exact ⟨h.1, by rw [forget_update h.2]; rfl⟩
  · by_cases hdeleted : (p.heap c).index_ = kDeleted
    · simp only [hdeleted, kDeleted_ne_kNew, or_true, if_true, if_false,
        assertThat_bind_eq_ok_iff, ok_bind] at h ⊢
      exact ⟨h.1, h.2.1, by rw [forget_update h.2.2]; rfl⟩
    · simp only [hnew, hdeleted, or_self, if_false, assertThat_bind_eq_ok_iff] at h ⊢
      refine ⟨h.1, h.2.1, h.2.2.1, ?_⟩
      replace h := h.2.2.2
      by_cases hnone : (p.heap c).isNoneEvent = true
      · simp only [hnone, if_true] at h ⊢
        obtain ⟨p₁, hp₁, hset⟩ := bind_eq_ok_iff.mp h
        obtain rfl := Except.ok.inj hset
        rw [← forget_update hp₁]
        rfl
      · simp only [hnone, if_false, Bool.false_eq_true] at h ⊢
        rw [forget_update h]

theorem forget_removeChannel {p p' : EPollKernel} {c : Nat} (h : p.removeChannel c = .ok p') :
    p.forget.removeChannel c = .ok p'.forget := by
  unfold removeChannel at h
  unfold EPollPoller.removeChannel
  have hheap : p.forget.heap = p.heap := rfl
  have hchannels : p.forget.channels_ = p.channels_ := rfl
  simp only [hheap, hchannels, assertThat_bind_eq_ok_iff] at h ⊢
  refine ⟨h.1, h.2.1, h.2.2.1, h.2.2.2.1, h.2.2.2.2.1, ?_⟩
  replace h := h.2.2.2.2.2
  by_cases hadded : (p.heap c).index_ = kAdded
  · simp only [hadded, if_true] at h ⊢
    obtain ⟨p₁, hp₁, hset⟩ := bind_eq_ok_iff.mp h
    obtain rfl := Except.ok.inj hset
    rw [show (p₁.set_index c kNew).forget = p₁.forget.set_index c kNew from rfl,
      forget_update hp₁]
    rfl
  · simp only [hadded, if_false, ok_bind] at h ⊢
    obtain rfl := Except.ok.inj h
    rfl

/-- What the kernel does not refuse is a step of the poller that expects no refusal. -/
theorem forget_step {p p' : EPollKernel} {op : ChannelOp} (h : p.step op = .ok p') :
    p.forget.step op = .ok p'.forget := by
  cases op with
  | update c u => exact forget_updateChannel h
  | remove c =>
      simp only [step, EPollPoller.step, assertThat_bind_eq_ok_iff] at h ⊢
      exact ⟨h.1, forget_removeChannel h.2⟩

/-- So is every run. -/
theorem forget_run {p p' : EPollKernel} {ops : List ChannelOp} (h : machine.run p ops = .ok p') :
    EPollPoller.machine.run p.forget ops = .ok p'.forget := by
  obtain ⟨_, hrun, rfl⟩ := @Machine.run_ok_simulation _ _ machine _ EPollPoller.machine
    (fun k p => k.forget = p)
    (fun _ _ _ k' hforget hstep => ⟨k'.forget, hforget ▸ forget_step hstep, rfl⟩)
    _ _ _ rfl _ h
  exact hrun

/-! ## The books and the kernel -/

/-- The index of every channel says where the channel is. -/
structure Exact (p : EPollKernel) : Prop where
  index : ∀ c, (p.heap c).index_ = kNew ∨ (p.heap c).index_ = kAdded ∨ (p.heap c).index_ = kDeleted
  /-- neither in the map nor in the interest list, under no descriptor -/
  new : ∀ c, (p.heap c).index_ = kNew →
    (∀ fd, p.channels_ fd ≠ some c) ∧ ∀ fd event, p.epollfd_ fd = some event → event.ptr ≠ c
  added : ∀ c, (p.heap c).index_ = kAdded →
    p.channels_ (p.heap c).fd_ = some c ∧
      p.epollfd_ (p.heap c).fd_ = some ⟨(p.heap c).events_, c⟩
  deleted : ∀ c, (p.heap c).index_ = kDeleted →
    p.channels_ (p.heap c).fd_ = some c ∧ p.epollfd_ (p.heap c).fd_ = none ∧
      (p.heap c).events_ = 0#32
  /-- no call of `epoll_ctl` was refused -/
  calls : ∀ call ∈ p.calls, call.Fitting

/-- Where a registered channel is: the index and the entry of its descriptor in the
interest list. -/
def Placed (index : Int) (entry : Option EpollEvent) (channel : Channel) (c : Nat) : Prop :=
  (index = kAdded ∧ entry = some ⟨channel.events_, c⟩) ∨
    (index = kDeleted ∧ entry = none ∧ channel.events_ = 0#32)

/-- The poller beside the abstract one. -/
structure Books (p : EPollKernel) (s : Interest) : Prop
    extends Interest.Mirrors p.heap p.channels_ s where
  outside : ∀ c, s.status c ≠ .registered → (p.heap c).index_ = kNew
  placed : ∀ c, s.status c = .registered →
    Placed (p.heap c).index_ (p.epollfd_ (s.channel c).fd_) (s.channel c) c
  owner : ∀ fd event, p.epollfd_ fd = some event →
    s.status event.ptr = .registered ∧ (s.channel event.ptr).fd_ = fd
  calls : ∀ call ∈ p.calls, call.Fitting

theorem books_new (fd : Nat → Int) : Books (new fd) (.new fd) where
  toMirrors := Interest.mirrors_new fd
  outside _ _ := rfl
  placed _ h := absurd h (by simp [Interest.new])
  owner _ _ h := absurd h (by simp [new])
  calls _ h := absurd h (by simp [new])

section Steps

variable {p : EPollKernel} {s : Interest} {c : Nat}

theorem Books.exact (h : Books p s) : Exact p := by
  have hplaced : ∀ c, (p.heap c).index_ ≠ kNew → s.status c = .registered ∧
      Placed (p.heap c).index_ (p.epollfd_ (s.channel c).fd_) (s.channel c) c := by
    intro c hindex
    by_cases hstatus : s.status c = .registered
    · exact ⟨hstatus, h.placed c hstatus⟩
    · exact absurd (h.outside c hstatus) hindex
  have hnew : ∀ c, (p.heap c).index_ = kNew → s.status c ≠ .registered := by
    intro c hindex hstatus
    rcases h.placed c hstatus with ⟨hadded, _⟩ | ⟨hdeleted, _⟩
    · exact kAdded_ne_kNew (hadded.symm.trans hindex)
    · exact kDeleted_ne_kNew (hdeleted.symm.trans hindex)
  refine ⟨fun c => ?_, fun c hindex => ⟨fun fd hfd => ?_, fun fd event hevent hptr => ?_⟩,
    fun c hindex => ?_, fun c hindex => ?_, h.calls⟩
  · by_cases hindex : (p.heap c).index_ = kNew
    · exact .inl hindex
    · exact .inr ((hplaced c hindex).2.imp And.left And.left)
  · exact hnew c hindex ((h.map fd c).mp hfd).1
  · exact hnew c hindex (hptr ▸ (h.owner fd event hevent).1)
  · obtain ⟨hstatus, hplace⟩ := hplaced c (hindex ▸ kAdded_ne_kNew)
    rw [h.heap]
    refine ⟨h.channels_eq hstatus, ?_⟩
    rcases hplace with ⟨_, hentry⟩ | ⟨hdeleted, _⟩
    · exact hentry
    · exact absurd (hindex.symm.trans hdeleted) kAdded_ne_kDeleted
  · obtain ⟨hstatus, hplace⟩ := hplaced c (hindex ▸ kDeleted_ne_kNew)
    rw [h.heap]
    refine ⟨h.channels_eq hstatus, ?_⟩
    rcases hplace with ⟨hadded, _⟩ | ⟨_, hentry⟩
    · exact absurd (hadded.symm.trans hindex) kAdded_ne_kDeleted
    · exact hentry

theorem update_add (h : p.epollfd_ (p.heap c).fd_ = none) :
    p.update .EPOLL_CTL_ADD c = .ok { p with
      epollfd_ := Function.update p.epollfd_ (p.heap c).fd_ (some ⟨(p.heap c).events_, c⟩)
      calls := p.calls ++ [⟨.EPOLL_CTL_ADD, false⟩] } := by
  simp [update, epoll_ctl, h]

theorem update_mod {event : EpollEvent} (h : p.epollfd_ (p.heap c).fd_ = some event) :
    p.update .EPOLL_CTL_MOD c = .ok { p with
      epollfd_ := Function.update p.epollfd_ (p.heap c).fd_ (some ⟨(p.heap c).events_, c⟩)
      calls := p.calls ++ [⟨.EPOLL_CTL_MOD, true⟩] } := by
  simp [update, epoll_ctl, h]

theorem update_del {event : EpollEvent} (h : p.epollfd_ (p.heap c).fd_ = some event) :
    p.update .EPOLL_CTL_DEL c = .ok { p with
      epollfd_ := Function.update p.epollfd_ (p.heap c).fd_ none
      calls := p.calls ++ [⟨.EPOLL_CTL_DEL, true⟩] } := by
  simp [update, epoll_ctl, h]

theorem fitting_append {calls : List EpollCall} (h : ∀ call ∈ calls, call.Fitting)
    {last : EpollCall} (hlast : last.Fitting) : ∀ call ∈ calls ++ [last], call.Fitting := by
  intro call hcall
  rcases List.mem_append.mp hcall with hcall | hcall
  · exact h call hcall
  · exact List.mem_singleton.mp hcall ▸ hlast

/-- Nobody else's entry is at the descriptor of a channel that is not registered. -/
theorem Books.epollfd_eq_none (h : Books p s) (hstatus : s.status c ≠ .registered)
    (hfree : s.Unshared c) : p.epollfd_ (s.channel c).fd_ = none := by
  rcases hentry : p.epollfd_ (s.channel c).fd_ with _ | event
  · rfl
  · obtain ⟨howner, hfd⟩ := h.owner _ _ hentry
    exact absurd (hfree event.ptr howner hfd ▸ howner) hstatus

/-- The entry at another descriptor belongs to another channel. -/
theorem Books.owner_of_ne (h : Books p s) {fd : Int} {event : EpollEvent}
    (hfd : fd ≠ (s.channel c).fd_) (hevent : p.epollfd_ fd = some event) :
    s.status event.ptr = .registered ∧ (s.channel event.ptr).fd_ = fd ∧ event.ptr ≠ c := by
  obtain ⟨howner, hfd'⟩ := h.owner fd event hevent
  refine ⟨howner, hfd', ?_⟩
  rintro rfl
  exact hfd hfd'.symm

/-- A channel is registered with the new events, wherever it is placed. -/
theorem books_updated (h : Books p s) (hfree : s.Unshared c) {u : ChannelUpdate} {index : Int}
    {entry : Option EpollEvent} (hplaced : Placed index entry (u.apply (s.channel c)) c)
    {calls : List EpollCall} (hcalls : ∀ call ∈ calls, call.Fitting) :
    Books ⟨(p.heap.change c u).set_index c index,
      Function.update p.channels_ (s.channel c).fd_ (some c),
      Function.update p.epollfd_ (s.channel c).fd_ entry, calls⟩ (s.updated c u) := by
  refine ⟨(h.toMirrors.updated hfree u).set_index c index, fun c' hc' => ?_, fun c' hc' => ?_,
    fun fd event hevent => ?_, hcalls⟩
  · have hc : c' ≠ c := by
      rintro rfl
      exact hc' Interest.updated_status_self
    rw [Interest.updated_status_of_ne hc] at hc'
    simp only [ChannelTable.set_index_of_ne _ hc, ChannelTable.change_index]
    exact h.outside c' hc'
  · by_cases hc : c' = c
    · subst hc
      simpa using hplaced
    · rw [Interest.updated_status_of_ne hc] at hc'
      have hfd : (s.channel c').fd_ ≠ (s.channel c).fd_ := fun hfd => hc (hfree c' hc' hfd)
      simp only [ChannelTable.set_index_of_ne _ hc, ChannelTable.change_index,
        Interest.updated_channel_of_ne hc, Function.update_of_ne hfd]
      exact h.placed c' hc'
  · change Function.update p.epollfd_ (s.channel c).fd_ entry fd = some event at hevent
    rw [Interest.updated_fd]
    by_cases hfd : fd = (s.channel c).fd_
    · subst hfd
      rw [Function.update_self] at hevent
      -- the entry at the descriptor of the channel is the channel's own
      have hptr : event.ptr = c := by
        rcases hplaced with ⟨_, hentry⟩ | ⟨_, hentry, _⟩
        · rw [hentry] at hevent
          exact (Option.some.inj hevent) ▸ rfl
        · rw [hentry] at hevent
          exact absurd hevent (by simp)
      rw [hptr]
      exact ⟨Interest.updated_status_self, rfl⟩
    · rw [Function.update_of_ne hfd] at hevent
      obtain ⟨howner, hfd', hc⟩ := h.owner_of_ne hfd hevent
      exact ⟨(Interest.updated_status_of_ne hc).trans howner, hfd'⟩

/-- `kNew` and `kDeleted`: the descriptor is added. -/
theorem step_update_unwatched (h : Books p s) (hfree : s.Unshared c) (u : ChannelUpdate)
    (hentry : p.epollfd_ (s.channel c).fd_ = none)
    (hindex : (p.heap c).index_ = kNew ∧ p.channels_ (s.channel c).fd_ = none ∨
      (p.heap c).index_ = kDeleted ∧ s.status c = .registered) :
    ∃ p', p.step (.update c u) = .ok p' ∧ Books p' (s.updated c u) := by
  refine ⟨_, ?_, books_updated h hfree (.inl ⟨rfl, rfl⟩)
    (@fitting_append _ h.calls ⟨.EPOLL_CTL_ADD, false⟩ rfl)⟩
  unfold step updateChannel
  simp only [ChannelTable.change_index, ChannelTable.change_self, ChannelUpdate.apply_fd, h.heap]
  rcases hindex with ⟨hindex, hmap⟩ | ⟨hindex, hstatus⟩
  · simp only [hindex, hmap, true_or, if_true, assertThat_of, ok_bind]
    rw [update_add]
    · simp [set_index, h.heap]
    · simpa [set_index, h.heap] using hentry
  · have hmap := h.channels_eq hstatus
    simp only [hindex, hmap, kDeleted_ne_kNew, or_true, if_true, if_false, ne_eq, reduceCtorEq,
      not_false_eq_true, assertThat_of, ok_bind]
    rw [update_add]
    · have hkeep : Function.update p.channels_ (s.channel c).fd_ (some c) = p.channels_ := by
        rw [← hmap, Function.update_eq_self]
      simp [set_index, h.heap, hkeep]
    · simpa [set_index, h.heap] using hentry

/-- `kAdded`: the events of the descriptor are changed, or it is deleted. -/
theorem step_update_watched (h : Books p s) (hfree : s.Unshared c) (u : ChannelUpdate)
    (hstatus : s.status c = .registered) (hindex : (p.heap c).index_ = kAdded)
    (hentry : p.epollfd_ (s.channel c).fd_ = some ⟨(s.channel c).events_, c⟩) :
    ∃ p', p.step (.update c u) = .ok p' ∧ Books p' (s.updated c u) := by
  have hmap := h.channels_eq hstatus
  have hkeep : Function.update p.channels_ (s.channel c).fd_ (some c) = p.channels_ := by
    rw [← hmap, Function.update_eq_self]
  have hindex' : (p.heap.change c u).set_index c kAdded = p.heap.change c u :=
    ChannelTable.set_index_eq_self (by rw [ChannelTable.change_index, hindex])
  have hentry' : ({ p with heap := p.heap.change c u } : EPollKernel).epollfd_
      (p.heap.change c u c).fd_ = some ⟨(s.channel c).events_, c⟩ := by
    simpa [h.heap] using hentry
  unfold step updateChannel
  simp only [ChannelTable.change_index, ChannelTable.change_self, ChannelUpdate.apply_fd, h.heap,
    hindex, hmap, kAdded_ne_kNew, kAdded_ne_kDeleted, or_self, if_false, ne_eq, reduceCtorEq,
    not_false_eq_true, assertThat_of, ok_bind]
  by_cases hnew : (u.apply (s.channel c)).events_ = 0#32
  · refine ⟨_, ?_, books_updated h hfree (.inr ⟨rfl, rfl, hnew⟩)
      (@fitting_append _ h.calls ⟨.EPOLL_CTL_DEL, true⟩ rfl)⟩
    rw [if_pos (Channel.isNoneEvent_iff.mpr hnew), update_del hentry']
    simp [set_index, h.heap, hkeep]
  · refine ⟨_, ?_, books_updated h hfree (.inl ⟨rfl, rfl⟩)
      (@fitting_append _ h.calls ⟨.EPOLL_CTL_MOD, true⟩ rfl)⟩
    rw [if_neg (fun hn => hnew (Channel.isNoneEvent_iff.mp hn)), update_mod hentry']
    simp [h.heap, hkeep, hindex']

theorem step_update (h : Books p s) (hfree : s.Unshared c) (u : ChannelUpdate) :
    ∃ p', p.step (.update c u) = .ok p' ∧ Books p' (s.updated c u) := by
  by_cases hstatus : s.status c = .registered
  · rcases h.placed c hstatus with ⟨hindex, hentry⟩ | ⟨hindex, hentry, _⟩
    · exact step_update_watched h hfree u hstatus hindex hentry
    · exact step_update_unwatched h hfree u hentry (.inr ⟨hindex, hstatus⟩)
  · exact step_update_unwatched h hfree u (h.epollfd_eq_none hstatus hfree)
      (.inl ⟨h.outside c hstatus, h.channels_eq_none hstatus hfree⟩)

theorem books_removed (h : Books p s) (hstatus : s.status c = .registered)
    {calls : List EpollCall} (hcalls : ∀ call ∈ calls, call.Fitting) :
    Books ⟨p.heap.set_index c kNew, Function.update p.channels_ (s.channel c).fd_ none,
      Function.update p.epollfd_ (s.channel c).fd_ none, calls⟩ (s.removed c) := by
  refine ⟨(h.toMirrors.removed hstatus).set_index c kNew, fun c' hc' => ?_, fun c' hc' => ?_,
    fun fd event hevent => ?_, hcalls⟩
  · by_cases hc : c' = c
    · subst hc
      exact ChannelTable.set_index_self _ _ _
    · rw [Interest.removed_status_of_ne hc] at hc'
      simp only [ChannelTable.set_index_of_ne _ hc]
      exact h.outside c' hc'
  · have hc : c' ≠ c := by
      rintro rfl
      exact absurd hc' (by simp)
    rw [Interest.removed_status_of_ne hc] at hc'
    have hfd : (s.channel c').fd_ ≠ (s.channel c).fd_ :=
      fun hfd => hc (h.toMirrors.inj hc' hstatus hfd)
    have hplace := h.placed c' hc'
    rw [← Function.update_of_ne hfd none p.epollfd_] at hplace
    simp only [ChannelTable.set_index_of_ne _ hc]
    exact hplace
  · change Function.update p.epollfd_ (s.channel c).fd_ none fd = some event at hevent
    have hfd : fd ≠ (s.channel c).fd_ := by
      rintro rfl
      exact absurd hevent (by simp)
    rw [Function.update_of_ne hfd] at hevent
    obtain ⟨howner, hfd', hc⟩ := h.owner_of_ne hfd hevent
    exact ⟨(Interest.removed_status_of_ne hc).trans howner, hfd'⟩

theorem step_remove (h : Books p s) (hstatus : s.status c = .registered)
    (hnone : (s.channel c).isNoneEvent = true) :
    ∃ p', p.step (.remove c) = .ok p' ∧ Books p' (s.removed c) := by
  have hmap := h.channels_eq hstatus
  unfold step removeChannel
  rcases h.placed c hstatus with ⟨hindex, hentry⟩ | ⟨hindex, hentry, _⟩
  · refine ⟨_, ?_, books_removed h hstatus
      (@fitting_append _ h.calls ⟨.EPOLL_CTL_DEL, true⟩ rfl)⟩
    have hentry' : ({ p with
        channels_ := Function.update p.channels_ (p.heap c).fd_ none } : EPollKernel).epollfd_
          (p.heap c).fd_ = some ⟨(s.channel c).events_, c⟩ := by
      rw [h.heap]
      exact hentry
    simp only [h.heap, hnone, hmap, hindex, assertThat_of, ok_bind, ne_eq, reduceCtorEq,
      not_false_eq_true, true_or, Option.toList_some, List.length_singleton, if_true]
    rw [h.heap] at hentry'
    rw [update_del (by rw [h.heap]; exact hentry')]
    simp [set_index, h.heap]
  · refine ⟨_, ?_, books_removed h hstatus h.calls⟩
    have hkeep : Function.update p.epollfd_ (s.channel c).fd_ none = p.epollfd_ := by
      rw [← hentry, Function.update_eq_self]
    simp only [h.heap, hnone, hmap, hindex, assertThat_of, ok_bind, ne_eq, reduceCtorEq,
      not_false_eq_true, or_true, Option.toList_some, List.length_singleton,
      kAdded_ne_kDeleted.symm, if_false]
    simp [set_index, hkeep]

end Steps

/-! ## Whole runs -/

/-- The methods that keep the descriptors of the registered channels apart, and remove
only what is registered. -/
def Exclusive (s : Interest) : ChannelOp → Prop
  | .update c _ => s.Unshared c
  | .remove c => s.status c = .registered

theorem Books.step {p : EPollKernel} {s : Interest} {op : ChannelOp} (h : Books p s)
    (hop : s.Legal op ∧ Exclusive s op) :
    ∃ s' p', s.step op = .ok s' ∧ p.step op = .ok p' ∧ Books p' s' := by
  cases op with
  | update c u =>
      obtain ⟨p', hp', h'⟩ := step_update h hop.2 u
      exact ⟨_, p', rfl, hp', h'⟩
  | remove c =>
      obtain ⟨p', hp', h'⟩ := step_remove h hop.2 hop.1.1
      exact ⟨_, p', rfl, hp', h'⟩

/-- From the empty poller, over any channels, no assertion fails and no call is refused
as long as no two registered channels share a descriptor; the index of each channel then
says where the channel is. -/
theorem bookkeeping_exact (fd : Nat → Int) (ops : List ChannelOp)
    (hlegal : (Interest.machine.restrict Exclusive).LegalRun (.new fd) ops) :
    ∃ p, machine.run (.new fd) ops = .ok p ∧ Exact p := by
  obtain ⟨_, p, _, hp, hbooks⟩ :=
    @Machine.run_of_simulation _ _ (Interest.machine.restrict Exclusive) _ machine
      (fun s p => Books p s) (fun _ _ _ h hop => h.step hop) _ _ (books_new fd) _ hlegal
  exact ⟨p, hp, hbooks.exact⟩

/-- Two channels have the same descriptor one after the other.  The first one is disabled
twice, which adds its descriptor once more, and the other one never asks for anything. -/
def handedOver : List ChannelOp :=
  [.update 0 .enableReading, .update 0 .disableAll, .update 0 .disableAll, .remove 0,
    .update 1 .disableAll, .remove 1]

theorem bookkeeping_exact_handedOver :
    ∃ p, machine.run (.new fun _ => 3) handedOver = .ok p ∧ Exact p := by
  have hfresh : ∀ c : Nat, (Interest.new fun _ => 3).status c ≠ .registered := by
    simp [Interest.new]
  apply bookkeeping_exact
  refine ⟨⟨trivial, fun c hc _ => absurd hc (hfresh c)⟩, ⟨trivial, fun c hc _ => ?_⟩,
    ⟨trivial, fun c hc _ => ?_⟩, ⟨⟨rfl, by decide⟩, rfl⟩, ⟨trivial, fun c hc _ => ?_⟩,
    ⟨⟨rfl, by decide⟩, rfl⟩, trivial⟩
  · by_contra hne
    exact hfresh c ((Interest.updated_status_of_ne hne).symm.trans hc)
  · by_contra hne
    rw [Interest.updated_status_of_ne hne, Interest.updated_status_of_ne hne] at hc
    exact hfresh c hc
  · by_cases hzero : c = 0
    · subst hzero
      exact absurd hc (by simp)
    · rw [Interest.removed_status_of_ne hzero, Interest.updated_status_of_ne hzero,
        Interest.updated_status_of_ne hzero, Interest.updated_status_of_ne hzero] at hc
      exact absurd hc (hfresh c)

/-- A channel that has been removed is removed again. -/
def removedTwice : List ChannelOp :=
  [.update 0 .enableReading, .update 0 .disableAll, .remove 0, .remove 0]

/-- The channel was updated before and has no interest, but it is not in the map. -/
theorem assertion_fails_removedTwice :
    Interest.machine.LegalRun (.new fun c => (c : Int)) removedTwice ∧
      machine.run (.new fun c => (c : Int)) removedTwice = .error .assertion := by
  exact ⟨⟨trivial, trivial, ⟨rfl, by decide⟩, ⟨rfl, by decide⟩, trivial⟩, rfl⟩

end EPollKernel

end Muduo.Net
