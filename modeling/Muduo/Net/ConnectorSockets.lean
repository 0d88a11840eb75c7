/-
  Net/ConnectorSockets.lean --- where the sockets of a connector are.

  A run is any order of `start`, `stop` and `restart` (the first two in any thread), of
  events on the connector's channel, of retry timers and of queued functors.  Every
  socket is created in `connect`, and from then on it is held by `channel_`, closed, or
  with the user; `balance` counts it in these three places.

  `restart()` does not look at an attempt under way.  The one caller, `TcpClient`, calls it
  when its connection has gone down, with a connector that is `kConnected`; `NoInterruption`
  says no more than that it is not `kConnecting` then.
-/
import Mathlib.Data.List.Nodup
import Mathlib.Data.List.Range
import Muduo.Foundation.Machine
import Muduo.Net.Connector

set_option autoImplicit false

namespace Muduo.Net.ConnectorSockets

open Muduo.Foundation

/-! ## Runs -/

/-- The connector, and what the user got from it. -/
structure System where
  connector : Connector
  /-- the sockets with which `newConnectionCallback_` was called -/
  passed : List Int
  deriving DecidableEq, Repr

/-- A step that concerns the connector. -/
inductive Action where
  | start (savedErrno : ConnectErrno)
  | startElsewhere
  | stop
  | stopElsewhere
  | restart (savedErrno : ConnectErrno)
  /-- an event on `channel_`, with `SO_ERROR` and the outcome of `isSelfConnect` -/
  | handleEvent (revents_ : BitVec 32) (err : Int) (isSelfConnect : Bool)
  | retryTimer (i : Nat) (savedErrno : ConnectErrno)
  | swapPending
  | runFunctor (savedErrno : ConnectErrno)
  deriving DecidableEq, Repr

namespace System

/-- A new connector. -/
def new : System := ⟨.new, []⟩

/-- A step of the connector that passes no socket on. -/
def onConnector (s : System) (f : Connector → Exec Connector) : Exec System := do
  .ok { s with connector := ← f s.connector }

/-- The socket is writable. -/
def handleWrite (s : System) (err : Int) (isSelfConnect : Bool) : Exec System := do
  let (connector, passed) ← s.connector.handleWrite err isSelfConnect
  .ok ⟨connector, s.passed ++ passed.toList⟩

/-- An event on the channel, which has no callbacks for reading and closing. -/
def handleEvent (s : System) (revents_ : BitVec 32) (err : Int) (isSelfConnect : Bool) :
    Exec System :=
  Channel.handleEventWithGuard revents_ .ok (fun s => s.onConnector Connector.handleError) .ok
    (fun s => s.handleWrite err isSelfConnect) s

end System

/-- What a step does. -/
def step (s : System) : Action → Exec System
  | .start savedErrno => s.onConnector fun c => c.start savedErrno
  | .startElsewhere => s.onConnector fun c => .ok c.startElsewhere
  | .stop => s.onConnector Connector.stop
  | .stopElsewhere => s.onConnector fun c => .ok c.stopElsewhere
  | .restart savedErrno => s.onConnector fun c => c.restart savedErrno
  | .handleEvent revents_ err isSelfConnect => s.handleEvent revents_ err isSelfConnect
  | .retryTimer i savedErrno =>
      s.onConnector fun c => { c with timers := c.timers.eraseIdx i }.startInLoop savedErrno
  | .swapPending => s.onConnector fun c => .ok (c.withLoop c.loop_.swapPending)
  | .runFunctor savedErrno => s.onConnector fun c => c.runNext savedErrno

/-- Events need a channel, timers must have been started, and `doPendingFunctors` takes
the queue when it has run its last batch. -/
def Legal (s : System) : Action → Prop
  | .handleEvent _ _ _ => s.connector.channel_ ≠ none
  | .retryTimer i _ => i < s.connector.timers.length
  | .swapPending => s.connector.loop_.functors = []
  | .runFunctor _ => s.connector.loop_.functors ≠ []
  | _ => True

instance (s : System) (a : Action) : Decidable (Legal s a) :=
  match a with
  | .start _ => isTrue trivial
  | .startElsewhere => isTrue trivial
  | .stop => isTrue trivial
  | .stopElsewhere => isTrue trivial
  | .restart _ => isTrue trivial
  | .handleEvent _ _ _ => inferInstanceAs (Decidable (_ ≠ _))
  | .retryTimer _ _ => inferInstanceAs (Decidable (_ < _))
  | .swapPending => inferInstanceAs (Decidable (_ = _))
  | .runFunctor _ => inferInstanceAs (Decidable (_ ≠ _))

/-- The runs of a connector. -/
def machine : Machine System Action := ⟨step, Legal⟩

/-! ## The three places -/

/-- The socket in progress. -/
def held (c : Connector) : List Int :=
  if c.state_ = .kConnecting then c.channel_.toList.map Channel.fd_ else []

/-- Every socket is in progress, closed or passed on, once and in one of these only; at
most one is in progress, and none while a `resetChannel` is queued. -/
structure Accounted (s : System) : Prop where
  once : ∀ fd ∈ s.connector.created,
    s.connector.closed.count fd + s.passed.count fd + (held s.connector).count fd = 1
  single : (held s.connector).length ≤ 1
  reset : ClientFunctor.resetChannel ∈ s.connector.loop_.backlog → held s.connector = []

/-- `restart()` does not interrupt an attempt. -/
def NoInterruption (s : System) : Action → Prop
  | .restart _ => s.connector.state_ ≠ .kConnecting
  | _ => True

instance (s : System) (a : Action) : Decidable (NoInterruption s a) :=
  match a with
  | .start _ => isTrue trivial
  | .startElsewhere => isTrue trivial
  | .stop => isTrue trivial
  | .stopElsewhere => isTrue trivial
  | .restart _ => inferInstanceAs (Decidable (_ ≠ _))
  | .handleEvent _ _ _ => isTrue trivial
  | .retryTimer _ _ => isTrue trivial
  | .swapPending => isTrue trivial
  | .runFunctor _ => isTrue trivial

/-! ## The invariant -/

/-- Where the sockets are, and what the channel and the queued `resetChannel` say about them. -/
structure Inv (c : Connector) (passed : List Int) : Prop where
  numbers : c.created = (List.range c.created.length).map Int.ofNat
  balance : ∀ fd, c.closed.count fd + passed.count fd + (held c).count fd = c.created.count fd
  reset : c.loop_.backlog.count .resetChannel = 0 ∨
    c.loop_.backlog.count .resetChannel = 1 ∧ c.channel_ ≠ none ∧ c.state_ ≠ .kConnecting
  channel : c.state_ = .kConnecting → c.channel_ ≠ none

section Inv

variable {c c' : Connector} {passed passed' : List Int} {channel : Channel}

theorem held_of_ne (h : c.state_ ≠ .kConnecting) : held c = [] := if_neg h

theorem held_of_connecting (h : c.state_ = .kConnecting) (hchannel : c.channel_ = some channel) :
    held c = [channel.fd_] := by
  rw [held, if_pos h, hchannel]
  rfl

/-- The invariant is about the sockets, the state and the queued `resetChannel`. -/
theorem Inv.congr (h : Inv c passed) (hcreated : c'.created = c.created)
    (hclosed : c'.closed = c.closed) (hchannel : c'.channel_ = c.channel_)
    (hstate : c'.state_ = c.state_)
    (hreset : c'.loop_.backlog.count .resetChannel = c.loop_.backlog.count .resetChannel) :
    Inv c' passed := by
  have hheld : held c' = held c := by rw [held, hchannel, hstate, ← held]
  refine ⟨?_, ?_, ?_, ?_⟩
  · rw [hcreated]
    exact h.numbers
  · rw [hcreated, hclosed, hheld]
    exact h.balance
  · rw [hreset, hchannel, hstate]
    exact h.reset
  · rw [hchannel, hstate]
    exact h.channel

/-- A state without a socket in progress may be left for another one. -/
theorem Inv.setState (h : Inv c passed) (hstate : c.state_ ≠ .kConnecting) {s : ConnectorState}
    (hs : s ≠ .kConnecting) : Inv (c.setState s) passed := by
  have hheld : held (c.setState s) = held c := by
    rw [held_of_ne hstate]
    exact held_of_ne hs
  exact ⟨h.numbers, by rw [hheld]; exact h.balance, h.reset.imp_right fun h => ⟨h.1, h.2.1, hs⟩,
    fun hconnecting => absurd hconnecting hs⟩

theorem numbers_create (h : c.created = (List.range c.created.length).map Int.ofNat) :
    c.createNonblockingOrDie.created =
      (List.range c.createNonblockingOrDie.created.length).map Int.ofNat := by
  show c.created ++ [c.nextSocket] = (List.range (c.created ++ [c.nextSocket]).length).map Int.ofNat
  rw [List.length_append, List.length_singleton, List.range_succ, List.map_append, ← h]
  rfl

/-- A new socket that is waited for. -/
theorem Inv.holding (h : Inv c passed) (hstate : c.state_ ≠ .kConnecting)
    (hchannel : c.channel_ = none) : Inv c.holding passed := by
  have hreset : c.loop_.backlog.count .resetChannel = 0 := by
    rcases h.reset with hzero | ⟨_, hsome, _⟩
    · exact hzero
    · exact absurd hchannel hsome
  refine ⟨numbers_create h.numbers, fun fd => ?_, .inl hreset, fun _ => by simp [Connector.holding]⟩
  have hbalance := h.balance fd
  rw [held_of_ne hstate, List.count_nil] at hbalance
  have hheld : held c.holding = [(Channel.new c.nextSocket).enableWriting.fd_] :=
    held_of_connecting rfl rfl
  have hfd : (Channel.new c.nextSocket).enableWriting.fd_ = c.nextSocket := rfl
  have hcreated : c.holding.created = c.created ++ [c.nextSocket] := rfl
  have hclosed : c.holding.closed = c.closed := rfl
  rw [hheld, hfd, hcreated, hclosed, List.count_append]
  omega

/-- A new socket that is closed at once. -/
theorem Inv.create_close (h : Inv c passed) (hstate : c.state_ ≠ .kConnecting) :
    Inv (c.createNonblockingOrDie.close c.nextSocket) passed := by
  refine ⟨numbers_create h.numbers, fun fd => ?_, h.reset, h.channel⟩
  have hbalance := h.balance fd
  rw [held_of_ne hstate, List.count_nil] at hbalance
  have hheld : held (c.createNonblockingOrDie.close c.nextSocket) = [] := held_of_ne hstate
  have hcreated : (c.createNonblockingOrDie.close c.nextSocket).created =
      c.created ++ [c.nextSocket] := rfl
  have hclosed : (c.createNonblockingOrDie.close c.nextSocket).closed =
      c.closed ++ [c.nextSocket] := rfl
  rw [hheld, hcreated, hclosed, List.count_append, List.count_append, List.count_nil]
  omega

/-- The socket in progress is closed or passed on, and its channel is to be reset. -/
theorem Inv.release (h : Inv c passed) (hstate : c.state_ = .kConnecting)
    (hchannel : c.channel_ = some channel) (hcreated : c'.created = c.created)
    (hstate' : c'.state_ ≠ .kConnecting) (hchannel' : c'.channel_ ≠ none)
    (hbacklog : c'.loop_.backlog = c.loop_.backlog ++ [.resetChannel])
    (hlog : ∀ fd, c'.closed.count fd + passed'.count fd =
      c.closed.count fd + passed.count fd + [channel.fd_].count fd) : Inv c' passed' := by
  have hreset : c.loop_.backlog.count .resetChannel = 0 := by
    rcases h.reset with hzero | ⟨_, _, hne⟩
    · exact hzero
    · exact absurd hstate hne
  refine ⟨by rw [hcreated]; exact h.numbers, fun fd => ?_, .inr ⟨?_, hchannel', hstate'⟩,
    fun hconnecting => absurd hconnecting hstate'⟩
  · have hbalance := h.balance fd
    rw [held_of_connecting hstate hchannel] at hbalance
    have hlog := hlog fd
    rw [held_of_ne hstate', hcreated, List.count_nil]
    omega
  · rw [hbacklog, List.count_append, hreset]
    rfl

/-! ## One step -/

/-- Starting a timer changes nothing for the sockets. -/
theorem Inv.retryLater (h : Inv c passed) : Inv c.retryLater passed := by
  unfold Connector.retryLater
  split
  · exact h.congr rfl rfl rfl rfl rfl
  · exact h

theorem Inv.connect (h : Inv c passed) (hstate : c.state_ = .kDisconnected)
    {savedErrno : ConnectErrno} (hc' : c.connect savedErrno = .ok c') : Inv c' passed := by
  have hne : c.state_ ≠ .kConnecting := by simp [hstate]
  rcases Connector.connect_cases hc' with ⟨_, hnone, rfl⟩ | rfl | rfl
  · exact h.holding hne hnone
  · exact ((h.create_close hne).setState hne (by simp)).retryLater
  · exact h.create_close hne

theorem Inv.startInLoop (h : Inv c passed) {savedErrno : ConnectErrno}
    (hc' : c.startInLoop savedErrno = .ok c') : Inv c' passed := by
  obtain ⟨hstate, ⟨_, hc'⟩ | ⟨_, rfl⟩⟩ := Connector.startInLoop_cases hc'
  · exact h.connect hstate hc'
  · exact h

theorem Inv.retry_detached (h : Inv c passed) (hstate : c.state_ = .kConnecting)
    (hchannel : c.channel_ = some channel) (s : ConnectorState) :
    Inv (((c.setState s).detached channel).retry channel.fd_) passed := by
  refine Inv.retryLater (h.release hstate hchannel rfl (by simp [Connector.setState]) ?_ ?_ ?_)
  · simp [Connector.setState, Connector.close, Connector.detached]
  · exact EventLoop.backlog_queueInLoop _ _
  · intro fd
    simp only [Connector.setState, Connector.close, Connector.detached, List.count_append]
    omega

theorem Inv.stopInLoop (h : Inv c passed) (hc' : c.stopInLoop = .ok c') : Inv c' passed := by
  rcases Connector.stopInLoop_cases hc' with ⟨_, rfl⟩ | ⟨hstate, channel, hchannel, rfl⟩
  · exact h
  · exact h.retry_detached hstate hchannel .kDisconnected

theorem Inv.handleError (h : Inv c passed) (hc' : c.handleError = .ok c') : Inv c' passed := by
  obtain ⟨hstate, channel, hchannel, rfl⟩ := Connector.handleError_cases hc'
  exact h.retry_detached hstate hchannel c.state_

theorem Inv.handleWrite (h : Inv c passed) {err : Int} {isSelfConnect : Bool} {sockfd : Option Int}
    (hc' : c.handleWrite err isSelfConnect = .ok (c', sockfd)) :
    Inv c' (passed ++ sockfd.toList) := by
  rcases Connector.handleWrite_cases hc' with ⟨_, rfl, rfl⟩ | ⟨hstate, channel, hchannel, hcase⟩
  · rw [Option.toList_none, List.append_nil]
    exact h
  rcases hcase with ⟨rfl, rfl⟩ | ⟨_, rfl, rfl⟩ | ⟨_, rfl, rfl⟩
  · rw [Option.toList_none, List.append_nil]
    exact h.retry_detached hstate hchannel c.state_
  · refine h.release hstate hchannel rfl (by simp [Connector.setState]) ?_ ?_ ?_
    · simp [Connector.setState, Connector.detached]
    · exact EventLoop.backlog_queueInLoop _ _
    · intro fd
      simp only [Connector.setState, Connector.detached, Option.toList_some, List.count_append]
      omega
  · refine h.release hstate hchannel rfl (by simp [Connector.setState, Connector.close]) ?_ ?_ ?_
    · simp [Connector.setState, Connector.close, Connector.detached]
    · exact EventLoop.backlog_queueInLoop _ _
    · intro fd
      simp only [Connector.setState, Connector.close, Connector.detached, Option.toList_none,
        List.append_nil, List.count_append]
      omega

/-- Taking a functor out of the queue, if it is not `resetChannel`. -/
theorem Inv.dequeue (h : Inv c passed) {f : ClientFunctor} {rest : List ClientFunctor}
    (hfunctors : c.loop_.functors = f :: rest) (hf : f ≠ .resetChannel) :
    Inv (c.withLoop { c.loop_.toEventLoop with functors := rest }) passed := by
  refine h.congr rfl rfl rfl rfl ?_
  simp only [Connector.withLoop, EventLoop.backlog, hfunctors, List.cons_append]
  rw [List.count_cons_of_ne hf]

/-- `resetChannel` runs when no socket is in progress. -/
theorem Inv.resetChannel (h : Inv c passed) {rest : List ClientFunctor}
    (hfunctors : c.loop_.functors = .resetChannel :: rest) :
    Inv (c.withLoop { c.loop_.toEventLoop with functors := rest }).resetChannel passed := by
  have hcount : c.loop_.backlog.count .resetChannel =
      (rest ++ c.loop_.pendingFunctors_).count .resetChannel + 1 := by
    rw [EventLoop.backlog, hfunctors, List.cons_append, List.count_cons_self]
  rcases h.reset with hzero | ⟨hone, _, hstate⟩
  · omega
  refine ⟨h.numbers, ?_, .inl ?_, fun hconnecting => absurd hconnecting hstate⟩
  · have hheld : held (c.withLoop { c.loop_.toEventLoop with functors := rest }).resetChannel =
        held c := by
      rw [held_of_ne hstate]
      exact held_of_ne hstate
    rw [hheld]
    exact h.balance
  · show (rest ++ c.loop_.pendingFunctors_).count .resetChannel = 0
    omega

theorem Inv.runNext (h : Inv c passed) {savedErrno : ConnectErrno}
    (hc' : c.runNext savedErrno = .ok c') : Inv c' passed := by
  unfold Connector.runNext at hc'
  rcases hfunctors : c.loop_.functors with _ | ⟨f, rest⟩
  · rw [hfunctors] at hc'
    obtain rfl := Except.ok.inj hc'
    exact h
  rw [hfunctors] at hc'
  cases f with
  | startInLoop => exact (h.dequeue hfunctors (by simp)).startInLoop hc'
  | stopInLoop => exact (h.dequeue hfunctors (by simp)).stopInLoop hc'
  | resetChannel =>
      obtain rfl := Except.ok.inj hc'
      exact h.resetChannel hfunctors
  | connectDestroyed =>
      obtain rfl := Except.ok.inj hc'
      exact h.dequeue hfunctors (by simp)

theorem Inv.start (h : Inv c passed) {savedErrno : ConnectErrno}
    (hc' : c.start savedErrno = .ok c') : Inv c' passed := by
  have hconnect : Inv { c with connect_ := true } passed := h.congr rfl rfl rfl rfl rfl
  exact hconnect.startInLoop hc'

theorem Inv.stop (h : Inv c passed) (hc' : c.stop = .ok c') : Inv c' passed := by
  have hconnect : Inv { c with connect_ := false } passed := h.congr rfl rfl rfl rfl rfl
  exact hconnect.stopInLoop hc'

theorem Inv.restart (h : Inv c passed) (hstate : c.state_ ≠ .kConnecting)
    {savedErrno : ConnectErrno} (hc' : c.restart savedErrno = .ok c') : Inv c' passed := by
  have hdis : Inv (c.setState .kDisconnected) passed := h.setState hstate (by simp)
  have hconnect : Inv { c.setState .kDisconnected with
      retryDelayMs_ := Connector.kInitRetryDelayMs, connect_ := true } passed :=
    hdis.congr rfl rfl rfl rfl rfl
  exact hconnect.startInLoop hc'

theorem Inv.retryTimer (h : Inv c passed) {i : Nat} {savedErrno : ConnectErrno}
    (hc' : { c with timers := c.timers.eraseIdx i }.startInLoop savedErrno = .ok c') :
    Inv c' passed := by
  have htimer : Inv { c with timers := c.timers.eraseIdx i } passed := h.congr rfl rfl rfl rfl rfl
  exact htimer.startInLoop hc'

/-- Queueing a functor that is not `resetChannel`. -/
theorem count_queueInLoop (loop : ConnectorLoop) {f : ClientFunctor} (hf : f ≠ .resetChannel) :
    (loop.queueInLoop f).backlog.count .resetChannel = loop.backlog.count .resetChannel := by
  have hbacklog : (loop.queueInLoop f).backlog = loop.backlog ++ [f] :=
    EventLoop.backlog_queueInLoop _ _
  rw [hbacklog, List.count_append, List.count_cons_of_ne hf, List.count_nil, Nat.add_zero]

theorem Inv.startElsewhere (h : Inv c passed) : Inv c.startElsewhere passed :=
  h.congr rfl rfl rfl rfl (count_queueInLoop c.loop_ (by simp))

theorem Inv.stopElsewhere (h : Inv c passed) : Inv c.stopElsewhere passed :=
  h.congr rfl rfl rfl rfl (count_queueInLoop c.loop_ (by simp))

theorem Inv.swapPending (h : Inv c passed) (hbatch : c.loop_.functors = []) :
    Inv (c.withLoop c.loop_.swapPending) passed := by
  refine h.congr rfl rfl rfl rfl ?_
  have hbacklog : c.loop_.toEventLoop.swapPending.backlog = c.loop_.backlog :=
    EventLoop.backlog_swapPending hbatch
  show c.loop_.toEventLoop.swapPending.backlog.count .resetChannel = _
  rw [hbacklog]

end Inv

theorem onConnector_inv {s s' : System} {f : Connector → Exec Connector}
    (hf : ∀ c', f s.connector = .ok c' → Inv c' s.passed) (h : s.onConnector f = .ok s') :
    Inv s'.connector s'.passed := by
  obtain ⟨c', hc', h⟩ := bind_eq_ok_iff.mp h
  obtain rfl := Except.ok.inj h
  exact hf c' hc'

theorem handleWrite_inv {s s' : System} {err : Int} {isSelfConnect : Bool}
    (h : Inv s.connector s.passed) (hstep : s.handleWrite err isSelfConnect = .ok s') :
    Inv s'.connector s'.passed := by
  obtain ⟨⟨c', sockfd⟩, hc', hs'⟩ := bind_eq_ok_iff.mp hstep
  obtain rfl := Except.ok.inj hs'
  exact h.handleWrite hc'

theorem handleEvent_inv {s s' : System} {revents_ : BitVec 32} {err : Int} {isSelfConnect : Bool}
    (h : Inv s.connector s.passed) (hstep : s.handleEvent revents_ err isSelfConnect = .ok s') :
    Inv s'.connector s'.passed := by
  have hskip : ∀ s s' : System, Inv s.connector s.passed →
    Except.ok s = (Except.ok s' : Exec System) →
      Inv s'.connector s'.passed := by
    intro s s' hs heq
    exact Except.ok.inj heq ▸ hs
  have herror : ∀ s s' : System, Inv s.connector s.passed →
      s.onConnector Connector.handleError = .ok s' → Inv s'.connector s'.passed := by
    intro s s' hs hs'
    exact onConnector_inv (fun c' hc' => hs.handleError hc') hs'
  have hwrite : ∀ s s' : System, Inv s.connector s.passed →
      s.handleWrite err isSelfConnect = .ok s' → Inv s'.connector s'.passed := by
    exact fun s s' hs hs' => handleWrite_inv hs hs'
  exact Channel.handleEventWithGuard_invariant (fun s : System => Inv s.connector s.passed)
    hskip herror hskip hwrite h hstep

/-- Every step that fails no assertion keeps the invariant. -/
theorem step_inv {s s' : System} {a : Action} (h : Inv s.connector s.passed) (hlegal : Legal s a)
    (hcond : NoInterruption s a) (hstep : step s a = .ok s') : Inv s'.connector s'.passed := by
  cases a with
  | start savedErrno =>
      simp only [step] at hstep
      exact onConnector_inv (fun c' hc' => h.start hc') hstep
  | startElsewhere =>
      simp only [step] at hstep
      exact onConnector_inv (fun c' hc' => Except.ok.inj hc' ▸ h.startElsewhere) hstep
  | stop =>
      simp only [step] at hstep
      exact onConnector_inv (fun c' hc' => h.stop hc') hstep
  | stopElsewhere =>
      simp only [step] at hstep
      exact onConnector_inv (fun c' hc' => Except.ok.inj hc' ▸ h.stopElsewhere) hstep
  | restart savedErrno =>
      simp only [step] at hstep
      exact onConnector_inv (fun c' hc' => h.restart hcond hc') hstep
  | handleEvent revents_ err isSelfConnect => exact handleEvent_inv h hstep
  | retryTimer i savedErrno =>
      simp only [step] at hstep
      exact onConnector_inv (fun c' hc' => h.retryTimer hc') hstep
  | swapPending =>
      simp only [step] at hstep
      exact onConnector_inv (fun c' hc' => Except.ok.inj hc' ▸ h.swapPending hlegal) hstep
  | runFunctor savedErrno =>
      simp only [step] at hstep
      exact onConnector_inv (fun c' hc' => h.runNext hc') hstep

/-! ## What can fail -/

theorem onConnector_assertsOnly {s : System} {f : Connector → Exec Connector}
    (h : AssertsOnly (f s.connector)) : AssertsOnly (s.onConnector f) :=
  h.bind fun _ _ => assertsOnly_ok _

theorem handleEvent_assertsOnly {s : System} (h : Inv s.connector s.passed) (revents_ : BitVec 32)
    (err : Int) (isSelfConnect : Bool) :
    AssertsOnly (s.handleEvent revents_ err isSelfConnect) := by
  refine Channel.handleEventWithGuard_assertsOnly (fun s : System => Inv s.connector s.passed)
    (fun s hs => ⟨assertsOnly_ok s, fun s' hs' => Except.ok.inj hs' ▸ hs⟩) (fun s hs => ⟨?_, ?_⟩)
    (fun s hs => ⟨assertsOnly_ok s, fun s' hs' => Except.ok.inj hs' ▸ hs⟩) (fun s hs => ⟨?_, ?_⟩) h
  · exact onConnector_assertsOnly (Connector.handleError_assertsOnly hs.channel)
  · exact fun s' hs' => onConnector_inv (fun c' hc' => hs.handleError hc') hs'
  · exact (Connector.handleWrite_assertsOnly hs.channel err isSelfConnect).bind
      fun _ _ => assertsOnly_ok _
  · exact fun s' hs' => handleWrite_inv hs hs'

/-- The code never uses a channel that it does not have. -/
theorem step_assertsOnly {s : System} (h : Inv s.connector s.passed) (a : Action) :
    AssertsOnly (step s a) := by
  cases a with
  | start savedErrno =>
      simp only [step]
      refine onConnector_assertsOnly ?_
      exact Connector.startInLoop_assertsOnly _ savedErrno
  | stop =>
      have hstop : AssertsOnly ({ s.connector with connect_ := false }.stopInLoop) :=
        Connector.stopInLoop_assertsOnly h.channel
      exact onConnector_assertsOnly hstop
  | restart savedErrno =>
      simp only [step]
      refine onConnector_assertsOnly ?_
      exact Connector.startInLoop_assertsOnly _ savedErrno
  | handleEvent revents_ err isSelfConnect =>
      exact handleEvent_assertsOnly h revents_ err isSelfConnect
  | retryTimer i savedErrno =>
      simp only [step]
      refine onConnector_assertsOnly ?_
      exact Connector.startInLoop_assertsOnly _ savedErrno
  | runFunctor savedErrno =>
      simp only [step]
      refine onConnector_assertsOnly ?_
      exact Connector.runNext_assertsOnly h.channel savedErrno
  | startElsewhere | stopElsewhere | swapPending => exact assertsOnly_ok _

/-! ## Whole runs -/

theorem inv_new : Inv .new [] :=
  ⟨rfl, fun _ => rfl, .inl rfl, fun h => absurd h (by simp [Connector.new])⟩

theorem Inv.accounted {s : System} (h : Inv s.connector s.passed) : Accounted s := by
  refine ⟨fun fd hfd => ?_, ?_, fun hreset => ?_⟩
  · have hnodup : s.connector.created.Nodup := by
      rw [h.numbers]
      exact List.nodup_range.map fun _ _ heq => Int.ofNat.inj heq
    rw [h.balance fd]
    exact List.count_eq_one_of_mem hnodup hfd
  · unfold held
    split
    · rcases s.connector.channel_ with _ | channel
      · exact Nat.zero_le 1
      · exact Nat.le_refl 1
    · exact Nat.zero_le 1
  · rcases h.reset with hzero | ⟨_, _, hstate⟩
    · exact absurd hreset (List.count_eq_zero.mp hzero)
    · exact held_of_ne hstate

/-- Every run in which `restart()` interrupts no attempt fails an assertion, or ends with all
sockets accounted for. -/
theorem sockets_accounted {actions : List Action}
    (hlegal : (machine.restrict NoInterruption).LegalRun .new actions) :
    machine.run .new actions = .error .assertion ∨
      ∃ s, machine.run .new actions = .ok s ∧ Accounted s := by
  have hrun := @Machine.run_ok_or_assertion _ _ (machine.restrict NoInterruption)
    (fun s => Inv s.connector s.passed) (fun s a s' h ha hstep => step_inv h ha.1 ha.2 hstep)
    (fun s a h _ => step_assertsOnly h a) .new inv_new actions hlegal
  rw [Machine.run_restrict] at hrun
  rcases hrun with ⟨s, hs, hinv⟩ | herror
  · exact .inr ⟨s, hs, hinv.accounted⟩
  · exact .inl herror

instance (s : System) (a : Action) : Decidable ((machine.restrict NoInterruption).legal s a) :=
  inferInstanceAs (Decidable (Legal s a ∧ NoInterruption s a))

/-- A refused attempt, a self-connection, one that is stopped, and one that succeeds. -/
def sampleRun : List Action :=
  [.start .ECONNREFUSED, .retryTimer 0 .EINPROGRESS, .handleEvent POLLOUT 0 true, .swapPending,
    .runFunctor .zero, .retryTimer 0 .EINPROGRESS, .stopElsewhere, .swapPending, .runFunctor .zero,
    .swapPending, .runFunctor .zero, .start .EINPROGRESS, .handleEvent POLLOUT 0 false]

theorem sockets_accounted_sampleRun :
    (machine.restrict NoInterruption).LegalRun .new sampleRun ∧
      ∃ s, machine.run .new sampleRun = .ok s ∧ s.connector.closed = [0, 1, 2] ∧ s.passed = [3] ∧
        Accounted s := by
  have hlegal : (machine.restrict NoInterruption).LegalRun .new sampleRun := by decide +kernel
  obtain ⟨s, hrun, hs⟩ := machine.exists_of_endsWith .new sampleRun
    (fun s => s.connector.closed == [0, 1, 2] && s.passed == [3]) (by decide +kernel)
  have hlogs := Bool.and_eq_true_iff.mp hs
  rcases sockets_accounted hlegal with herror | ⟨s', hs', haccounted⟩
  · exact absurd (hrun.symm.trans herror) (by simp)
  · obtain rfl : s = s' := Except.ok.inj (hrun.symm.trans hs')
    exact ⟨hlegal, s, hrun, eq_of_beq hlogs.1, eq_of_beq hlogs.2, haccounted⟩

/-- `restart()` in the middle of an attempt, and the new attempt fails at once. -/
def interruptedRun : List Action := [.start .EINPROGRESS, .restart .ECONNREFUSED]

instance (s : System) (a : Action) : Decidable (machine.legal s a) :=
  inferInstanceAs (Decidable (Legal s a))

/-- The first socket is neither in progress nor closed nor passed on. -/
theorem interrupted_socket_leaks :
    machine.LegalRun .new interruptedRun ∧
      ∃ s, machine.run .new interruptedRun = .ok s ∧ ¬ Accounted s := by
  have hlegal : machine.LegalRun .new interruptedRun := by decide +kernel
  obtain ⟨s, hrun, hs⟩ := machine.exists_of_endsWith .new interruptedRun
    (fun s => decide (0 ∈ s.connector.created) &&
      s.connector.closed.count 0 + s.passed.count 0 + (held s.connector).count 0 == 0)
    (by decide +kernel)
  refine ⟨hlegal, s, hrun, fun h => ?_⟩
  obtain ⟨hmem, hzero⟩ := Bool.and_eq_true_iff.mp hs
  have hone := h.once 0 (of_decide_eq_true hmem)
  rw [eq_of_beq hzero] at hone
  exact absurd hone (by simp)

end Muduo.Net.ConnectorSockets
