/-
  Net/Connector.lean --- `Connector` (src/muduo/net/Connector.h, Connector.cc).

  The connector owns a socket while `connect(2)` is under way and hands it over when the
  connection is up.  It cannot destroy its channel inside the channel's own callback, so
  `removeAndResetChannel` queues `resetChannel` for later; and it never cancels the
  timers that `retry` starts.

  What the system calls return is an argument.  A socket is the number of its creation:
  the kernel may give a descriptor out again after a `close`, so the descriptor does not
  tell two sockets apart.  `created` and `closed` are the history of the system calls.
-/
import Muduo.Net.Channel
import Muduo.Net.EventLoop

set_option autoImplicit false

namespace Muduo.Net

open Muduo.Foundation

/-! ## The loop of a client -/

/-- The functors that a client queues into its loop. -/
inductive ClientFunctor where
  | startInLoop
  | stopInLoop
  | resetChannel
  | connectDestroyed
  deriving DecidableEq, Repr

/-- What a connector can tell of its loop. -/
structure ConnectorLoop extends EventLoop ClientFunctor where
  eventHandling_ : Bool
  /-- whether `activeChannels_` has the channel of the connector -/
  active : Bool
  /-- whether `currentActiveChannel_` is the channel of the connector -/
  current : Bool
  deriving DecidableEq, Repr

namespace ConnectorLoop

/-- A loop that is not looping. -/
def idle : ConnectorLoop := ⟨EventLoop.idle, false, false, false⟩

/-- `queueInLoop(cb)`. -/
def queueInLoop (loop : ConnectorLoop) (cb : ClientFunctor) : ConnectorLoop :=
  { loop with toEventLoop := loop.toEventLoop.queueInLoop cb }

/-- The assertion of `removeChannel(channel)` for the channel of the connector. -/
def removeChannel (loop : ConnectorLoop) : Exec Unit :=
  if loop.eventHandling_ then assertThat (loop.current = true ∨ loop.active = false) else .ok ()

end ConnectorLoop

/-! ## The connector -/

/-- `errno` after `connect(2)`, as far as `Connector::connect` looks at it. -/
inductive ConnectErrno where
  | zero
  | EINPROGRESS | EINTR | EISCONN
  | EAGAIN | EADDRINUSE | EADDRNOTAVAIL | ECONNREFUSED | ENETUNREACH
  | EACCES | EPERM | EAFNOSUPPORT | EALREADY | EBADF | EFAULT | ENOTSOCK
  /-- any other value -/
  | other
  deriving DecidableEq, Repr

/-- `connect(2)` has left a connection to wait for. -/
def ConnectErrno.isPending : ConnectErrno → Bool
  | .zero | .EINPROGRESS | .EINTR | .EISCONN => true
  | _ => false

/-- `enum States`. -/
inductive ConnectorState where
  | kDisconnected
  | kConnecting
  | kConnected
  deriving DecidableEq, Repr

/-- `class Connector`. -/
structure Connector where
  loop_ : ConnectorLoop
  channel_ : Option Channel
  state_ : ConnectorState
  connect_ : Bool
  retryDelayMs_ : Nat
  /-- the delays of the timers that will call `startInLoop` -/
  timers : List Nat
  created : List Int
  closed : List Int
  deriving DecidableEq, Repr

namespace Connector

/-- `Connector::kMaxRetryDelayMs`. -/
def kMaxRetryDelayMs : Nat := 30 * 1000

/-- `Connector::kInitRetryDelayMs`. -/
def kInitRetryDelayMs : Nat := 500

/-- `Connector(loop, serverAddr)`. -/
def new : Connector where
  loop_ := .idle
  channel_ := none
  state_ := .kDisconnected
  connect_ := false
  retryDelayMs_ := kInitRetryDelayMs
  timers := []
  created := []
  closed := []

/-- `setState(s)`. -/
def setState (c : Connector) (s : ConnectorState) : Connector := { c with state_ := s }

/-- The number of the next socket. -/
def nextSocket (c : Connector) : Int := c.created.length

/-- `sockets::createNonblockingOrDie()`. -/
def createNonblockingOrDie (c : Connector) : Connector :=
  { c with created := c.created ++ [c.nextSocket] }

/-- `sockets::close(sockfd)`. -/
def close (c : Connector) (sockfd : Int) : Connector := { c with closed := c.closed ++ [sockfd] }

/-- The end of `retry`: start a timer if the user still wants a connection. -/
def retryLater (c : Connector) : Connector :=
  if c.connect_ then
    { c with
      timers := c.timers ++ [c.retryDelayMs_]
      retryDelayMs_ := min (c.retryDelayMs_ * 2) kMaxRetryDelayMs }
  else c

/-- `retry(sockfd)`. -/
def retry (c : Connector) (sockfd : Int) : Connector :=
  ((c.close sockfd).setState .kDisconnected).retryLater

/-- `connecting(sockfd)`. -/
def connecting (c : Connector) (sockfd : Int) : Exec Connector := do
  let c := c.setState .kConnecting
  assertThat (c.channel_ = none)
  .ok { c with channel_ := some (Channel.new sockfd).enableWriting }

/-- `connect()`; `savedErrno` is what `connect(2)` leaves. -/
def connect (c : Connector) (savedErrno : ConnectErrno) : Exec Connector :=
  let sockfd := c.nextSocket
  let c := c.createNonblockingOrDie
  match savedErrno with
  | .zero | .EINPROGRESS | .EINTR | .EISCONN => c.connecting sockfd
  | .EAGAIN | .EADDRINUSE | .EADDRNOTAVAIL | .ECONNREFUSED | .ENETUNREACH => .ok (c.retry sockfd)
  | .EACCES | .EPERM | .EAFNOSUPPORT | .EALREADY | .EBADF | .EFAULT | .ENOTSOCK =>
      .ok (c.close sockfd)
  | .other => .ok (c.close sockfd)

/-- `startInLoop()`. -/
def startInLoop (c : Connector) (savedErrno : ConnectErrno) : Exec Connector := do
  assertThat (c.state_ = .kDisconnected)
  if c.connect_ then c.connect savedErrno else .ok c

/-- `start()` in the loop thread. -/
def start (c : Connector) (savedErrno : ConnectErrno) : Exec Connector :=
  { c with connect_ := true }.startInLoop savedErrno

/-- `start()` in another thread. -/
def startElsewhere (c : Connector) : Connector :=
  { c with connect_ := true, loop_ := c.loop_.queueInLoop .startInLoop }

/-- `restart()`. -/
def restart (c : Connector) (savedErrno : ConnectErrno) : Exec Connector :=
  let c := c.setState .kDisconnected
  { c with retryDelayMs_ := kInitRetryDelayMs, connect_ := true }.startInLoop savedErrno

/-- `removeAndResetChannel`: the descriptor of the channel, and the connector. -/
def removeAndResetChannel (c : Connector) : Exec (Int × Connector) :=
  match c.channel_ with
  | none => .error .outOfBounds
  | some channel => do
      let channel := channel.disableAll
      assertThat (channel.isNoneEvent = true)
      c.loop_.removeChannel
      .ok (channel.fd_,
        { c with channel_ := some channel, loop_ := c.loop_.queueInLoop .resetChannel })

/-- `resetChannel()`. -/
def resetChannel (c : Connector) : Connector := { c with channel_ := none }

/-- `stopInLoop()`. -/
def stopInLoop (c : Connector) : Exec Connector :=
  if c.state_ = .kConnecting then do
    let c := c.setState .kDisconnected
    let (sockfd, c) ← c.removeAndResetChannel
    .ok (c.retry sockfd)
  else .ok c

/-- `stop()` in the loop thread. -/
def stop (c : Connector) : Exec Connector := { c with connect_ := false }.stopInLoop

/-- `stop()` in another thread. -/
def stopElsewhere (c : Connector) : Connector :=
  { c with connect_ := false, loop_ := c.loop_.queueInLoop .stopInLoop }

/-- `handleWrite`; `err` is `SO_ERROR`.  The second result is the socket with which
`newConnectionCallback_` is called, if it is. -/
def handleWrite (c : Connector) (err : Int) (isSelfConnect : Bool) :
    Exec (Connector × Option Int) :=
  if c.state_ = .kConnecting then do
    let (sockfd, c) ← c.removeAndResetChannel
    if err ≠ 0 then .ok (c.retry sockfd, none)
    else if isSelfConnect then .ok (c.retry sockfd, none)
    else
      let c := c.setState .kConnected
      if c.connect_ then .ok (c, some sockfd) else .ok (c.close sockfd, none)
  else do
    assertThat (c.state_ = .kDisconnected)
    .ok (c, none)

/-- `handleError()`. -/
def handleError (c : Connector) : Exec Connector := do
  assertThat (c.state_ = .kConnecting)
  let (sockfd, c) ← c.removeAndResetChannel
  .ok (c.retry sockfd)

/-- What running a functor does to the connector. -/
def runFunctor (c : Connector) (savedErrno : ConnectErrno) : ClientFunctor → Exec Connector
  | .startInLoop => c.startInLoop savedErrno
  | .stopInLoop => c.stopInLoop
  | .resetChannel => .ok c.resetChannel
  | .connectDestroyed => .ok c

/-- Replace the queue of the loop. -/
def withLoop (c : Connector) (loop : EventLoop ClientFunctor) : Connector :=
  { c with loop_ := { c.loop_ with toEventLoop := loop } }

/-- `doPendingFunctors` runs its next functor. -/
def runNext (c : Connector) (savedErrno : ConnectErrno) : Exec Connector :=
  match c.loop_.functors with
  | [] => .ok c
  | f :: rest => (c.withLoop { c.loop_.toEventLoop with functors := rest }).runFunctor savedErrno f

/-! ## What the methods do -/

/-- The connector waits for the connection of a new socket. -/
def holding (c : Connector) : Connector :=
  { c.createNonblockingOrDie with
    state_ := .kConnecting
    channel_ := some (Channel.new c.nextSocket).enableWriting }

/-- The channel is out of the poller and will be destroyed. -/
def detached (c : Connector) (channel : Channel) : Connector :=
  { c with channel_ := some channel.disableAll, loop_ := c.loop_.queueInLoop .resetChannel }

section Cases

variable {c c' : Connector} {savedErrno : ConnectErrno} {channel : Channel}

/-- A new socket is either waited for or closed at once. -/
theorem connect_cases (h : c.connect savedErrno = .ok c') :
    savedErrno.isPending = true ∧ c.channel_ = none ∧ c' = c.holding ∨
      c' = c.createNonblockingOrDie.retry c.nextSocket ∨
      c' = c.createNonblockingOrDie.close c.nextSocket := by
  have hpending : c.createNonblockingOrDie.connecting c.nextSocket = .ok c' →
      c.channel_ = none ∧ c' = c.holding := by
    intro h
    obtain ⟨_, hassert, h⟩ := bind_eq_ok_iff.mp h
    exact ⟨of_assertThat hassert, (Except.ok.inj h).symm⟩
  cases savedErrno with
  | zero | EINPROGRESS | EINTR | EISCONN => exact .inl ⟨rfl, hpending h⟩
  | EAGAIN | EADDRINUSE | EADDRNOTAVAIL | ECONNREFUSED | ENETUNREACH =>
      exact .inr (.inl (Except.ok.inj h).symm)
  | EACCES | EPERM | EAFNOSUPPORT | EALREADY | EBADF | EFAULT | ENOTSOCK =>
      exact .inr (.inr (Except.ok.inj h).symm)
  | other => exact .inr (.inr (Except.ok.inj h).symm)

theorem connect_ok (h : savedErrno.isPending = true → c.channel_ = none) :
    ∃ c', c.connect savedErrno = .ok c' := by
  have hpending : c.channel_ = none →
      c.createNonblockingOrDie.connecting c.nextSocket = .ok c.holding := by
    intro hnone
    have hassert : assertThat (c.channel_ = none) = .ok () := assertThat_of hnone
    exact bind_eq_ok_iff.mpr ⟨(), hassert, rfl⟩
  cases savedErrno with
  | zero | EINPROGRESS | EINTR | EISCONN => exact ⟨_, hpending (h rfl)⟩
  | EAGAIN | EADDRINUSE | EADDRNOTAVAIL | ECONNREFUSED | ENETUNREACH => exact ⟨_, rfl⟩
  | EACCES | EPERM | EAFNOSUPPORT | EALREADY | EBADF | EFAULT | ENOTSOCK => exact ⟨_, rfl⟩
  | other => exact ⟨_, rfl⟩

theorem startInLoop_cases (h : c.startInLoop savedErrno = .ok c') :
    c.state_ = .kDisconnected ∧
      (c.connect_ = true ∧ c.connect savedErrno = .ok c' ∨ c.connect_ = false ∧ c' = c) := by
  obtain ⟨_, hassert, h⟩ := bind_eq_ok_iff.mp h
  refine ⟨of_assertThat hassert, ?_⟩
  cases hconnect : c.connect_ with
  | true =>
      rw [hconnect] at h
      exact .inl ⟨rfl, h⟩
  | false =>
      rw [hconnect] at h
      exact .inr ⟨rfl, (Except.ok.inj h).symm⟩

theorem startInLoop_ok (hstate : c.state_ = .kDisconnected)
    (h : c.connect_ = true → savedErrno.isPending = true → c.channel_ = none) :
    ∃ c', c.startInLoop savedErrno = .ok c' := by
  unfold startInLoop
  rw [assertThat_of hstate, ok_bind]
  split
  · rename_i hconnect
    exact connect_ok (h hconnect)
  · exact ⟨c, rfl⟩

/-- Whether the assertion of `EventLoop::removeChannel` holds. -/
def Removable (c : Connector) : Prop :=
  c.loop_.eventHandling_ = true → c.loop_.current = true ∨ c.loop_.active = false

theorem removeAndResetChannel_cases {sockfd : Int}
    (h : c.removeAndResetChannel = .ok (sockfd, c')) :
    ∃ channel, c.channel_ = some channel ∧ sockfd = channel.fd_ ∧ c' = c.detached channel := by
  unfold removeAndResetChannel at h
  rcases hchannel : c.channel_ with _ | channel
  · rw [hchannel] at h
    exact absurd h (by simp)
  · rw [hchannel] at h
    obtain ⟨_, _, h⟩ := bind_eq_ok_iff.mp h
    obtain ⟨_, _, h⟩ := bind_eq_ok_iff.mp h
    obtain ⟨hfd, hc'⟩ := Prod.mk.inj (Except.ok.inj h)
    exact ⟨channel, rfl, hfd.symm, hc'.symm⟩

theorem removeAndResetChannel_ok (hchannel : c.channel_ = some channel) (h : c.Removable) :
    c.removeAndResetChannel = .ok (channel.fd_, c.detached channel) := by
  have hloop : c.loop_.removeChannel = .ok () := by
    unfold ConnectorLoop.removeChannel
    split
    · rename_i hevent
      exact assertThat_of (h hevent)
    · rfl
  have hnone : channel.disableAll.isNoneEvent = true := Channel.isNoneEvent_iff.mpr rfl
  simp only [removeAndResetChannel, hchannel, assertThat_of hnone, ok_bind, hloop]
  rfl

theorem stopInLoop_cases (h : c.stopInLoop = .ok c') :
    c.state_ ≠ .kConnecting ∧ c' = c ∨
      c.state_ = .kConnecting ∧ ∃ channel, c.channel_ = some channel ∧
        c' = ((c.setState .kDisconnected).detached channel).retry channel.fd_ := by
  unfold stopInLoop at h
  split at h
  · rename_i hstate
    obtain ⟨⟨sockfd, c₁⟩, hremove, h⟩ := bind_eq_ok_iff.mp h
    obtain ⟨channel, hchannel, rfl, rfl⟩ := removeAndResetChannel_cases hremove
    exact .inr ⟨hstate, channel, hchannel, (Except.ok.inj h).symm⟩
  · rename_i hstate
    exact .inl ⟨hstate, (Except.ok.inj h).symm⟩

theorem stopInLoop_ok (hstate : c.state_ = .kConnecting) (hchannel : c.channel_ = some channel)
    (h : c.Removable) :
    c.stopInLoop = .ok (((c.setState .kDisconnected).detached channel).retry channel.fd_) := by
  have hremove : (c.setState .kDisconnected).removeAndResetChannel =
      .ok (channel.fd_, (c.setState .kDisconnected).detached channel) :=
    removeAndResetChannel_ok hchannel h
  unfold stopInLoop
  rw [if_pos hstate]
  exact bind_eq_ok_iff.mpr ⟨_, hremove, rfl⟩

theorem handleError_ok (hstate : c.state_ = .kConnecting) (hchannel : c.channel_ = some channel)
    (h : c.Removable) : c.handleError = .ok ((c.detached channel).retry channel.fd_) := by
  unfold handleError
  rw [assertThat_of hstate, ok_bind, removeAndResetChannel_ok hchannel h, ok_bind]

theorem handleWrite_ok (hstate : c.state_ = .kConnecting) (hchannel : c.channel_ = some channel)
    (h : c.Removable) (err : Int) (isSelfConnect : Bool) :
    ∃ r, c.handleWrite err isSelfConnect = .ok r := by
  unfold handleWrite
  rw [if_pos hstate, removeAndResetChannel_ok hchannel h, ok_bind]
  simp only
  split
  · exact ⟨_, rfl⟩
  · split
    · exact ⟨_, rfl⟩
    · split
      · exact ⟨_, rfl⟩
      · exact ⟨_, rfl⟩

theorem handleError_cases (h : c.handleError = .ok c') :
    c.state_ = .kConnecting ∧ ∃ channel, c.channel_ = some channel ∧
      c' = (c.detached channel).retry channel.fd_ := by
  obtain ⟨_, hassert, h⟩ := bind_eq_ok_iff.mp h
  obtain ⟨⟨sockfd, c₁⟩, hremove, h⟩ := bind_eq_ok_iff.mp h
  obtain ⟨channel, hchannel, rfl, rfl⟩ := removeAndResetChannel_cases hremove
  exact ⟨of_assertThat hassert, channel, hchannel, (Except.ok.inj h).symm⟩

/-- A socket that is writable is given up, handed over or closed. -/
theorem handleWrite_cases {err : Int} {isSelfConnect : Bool} {passed : Option Int}
    (h : c.handleWrite err isSelfConnect = .ok (c', passed)) :
    c.state_ = .kDisconnected ∧ c' = c ∧ passed = none ∨
      c.state_ = .kConnecting ∧ ∃ channel, c.channel_ = some channel ∧
        (c' = (c.detached channel).retry channel.fd_ ∧ passed = none ∨
          c.connect_ = true ∧ c' = (c.detached channel).setState .kConnected ∧
            passed = some channel.fd_ ∨
          c.connect_ = false ∧ c' = ((c.detached channel).setState .kConnected).close channel.fd_ ∧
            passed = none) := by
  unfold handleWrite at h
  split at h
  · rename_i hstate
    obtain ⟨⟨sockfd, c₁⟩, hremove, h⟩ := bind_eq_ok_iff.mp h
    obtain ⟨channel, hchannel, rfl, rfl⟩ := removeAndResetChannel_cases hremove
    refine .inr ⟨hstate, channel, hchannel, ?_⟩
    simp only at h
    split at h
    · obtain ⟨rfl, rfl⟩ := Prod.mk.inj (Except.ok.inj h)
      exact .inl ⟨rfl, rfl⟩
    · split at h
      · obtain ⟨rfl, rfl⟩ := Prod.mk.inj (Except.ok.inj h)
        exact .inl ⟨rfl, rfl⟩
      · split at h
        · rename_i hconnect
          obtain ⟨rfl, rfl⟩ := Prod.mk.inj (Except.ok.inj h)
          exact .inr (.inl ⟨hconnect, rfl, rfl⟩)
        · rename_i hconnect
          obtain ⟨rfl, rfl⟩ := Prod.mk.inj (Except.ok.inj h)
          exact .inr (.inr ⟨Bool.eq_false_iff.mpr hconnect, rfl, rfl⟩)
  · obtain ⟨_, hassert, h⟩ := bind_eq_ok_iff.mp h
    obtain ⟨rfl, rfl⟩ := Prod.mk.inj (Except.ok.inj h)
    exact .inl ⟨of_assertThat hassert, rfl, rfl⟩

/-! ### What can fail -/

theorem loop_removeChannel_assertsOnly (loop : ConnectorLoop) : AssertsOnly loop.removeChannel := by
  unfold ConnectorLoop.removeChannel
  split
  · exact assertsOnly_assertThat _
  · exact assertsOnly_ok ()

theorem connect_assertsOnly (c : Connector) (savedErrno : ConnectErrno) :
    AssertsOnly (c.connect savedErrno) := by
  cases savedErrno with
  | zero | EINPROGRESS | EINTR | EISCONN => exact .assertThat_bind fun _ => assertsOnly_ok _
  | EAGAIN | EADDRINUSE | EADDRNOTAVAIL | ECONNREFUSED | ENETUNREACH => exact assertsOnly_ok _
  | EACCES | EPERM | EAFNOSUPPORT | EALREADY | EBADF | EFAULT | ENOTSOCK => exact assertsOnly_ok _
  | other => exact assertsOnly_ok _

theorem startInLoop_assertsOnly (c : Connector) (savedErrno : ConnectErrno) :
    AssertsOnly (c.startInLoop savedErrno) := by
  refine .assertThat_bind fun _ => ?_
  split
  · exact connect_assertsOnly c savedErrno
  · exact assertsOnly_ok c

theorem removeAndResetChannel_assertsOnly (h : c.channel_ ≠ none) :
    AssertsOnly c.removeAndResetChannel := by
  obtain ⟨channel, hchannel⟩ := Option.ne_none_iff_exists'.mp h
  unfold removeAndResetChannel
  simp only [hchannel]
  refine .assertThat_bind fun _ => ?_
  exact (loop_removeChannel_assertsOnly c.loop_).bind fun _ _ => assertsOnly_ok _

theorem stopInLoop_assertsOnly (h : c.state_ = .kConnecting → c.channel_ ≠ none) :
    AssertsOnly c.stopInLoop := by
  unfold stopInLoop
  split
  case isTrue hstate =>
    have hremove : AssertsOnly (c.setState .kDisconnected).removeAndResetChannel :=
      removeAndResetChannel_assertsOnly (h hstate)
    exact hremove.bind fun _ _ => assertsOnly_ok _
  case isFalse => exact assertsOnly_ok c

theorem handleWrite_assertsOnly (h : c.state_ = .kConnecting → c.channel_ ≠ none) (err : Int)
    (isSelfConnect : Bool) : AssertsOnly (c.handleWrite err isSelfConnect) := by
  unfold handleWrite
  split
  case isTrue hstate =>
    refine (removeAndResetChannel_assertsOnly (h hstate)).bind fun _ _ => ?_
    simp only
    repeat' split
    all_goals exact assertsOnly_ok _
  case isFalse => exact .assertThat_bind fun _ => assertsOnly_ok _

theorem handleError_assertsOnly (h : c.state_ = .kConnecting → c.channel_ ≠ none) :
    AssertsOnly c.handleError :=
  .assertThat_bind fun hstate =>
    (removeAndResetChannel_assertsOnly (h hstate)).bind fun _ _ => assertsOnly_ok _

theorem runNext_assertsOnly (h : c.state_ = .kConnecting → c.channel_ ≠ none)
    (savedErrno : ConnectErrno) : AssertsOnly (c.runNext savedErrno) := by
  unfold runNext
  split
  · exact assertsOnly_ok c
  · rename_i f rest _
    cases f with
    | startInLoop => exact startInLoop_assertsOnly _ savedErrno
    | stopInLoop => exact stopInLoop_assertsOnly h
    | resetChannel | connectDestroyed => exact assertsOnly_ok _

end Cases

end Connector

end Muduo.Net
