/-
  Net/TcpClient.lean --- `TcpClient` (src/muduo/net/TcpClient.h, TcpClient.cc) and the
  loop in which it lives.

  All calls are made in the loop thread, so `runInLoop` calls at once.  An iteration of
  the loop polls, handles the events of the active channels, and runs the queued
  functors.  User code runs in the handlers of other channels, in functors, and before
  the loop is entered: a call of the client may come in every phase.

  Of the client's connection only its presence matters here; the connection itself is in
  Net/TcpLifecycle.lean.  Its DOWN notification and its `closeCallback_` are two steps,
  because the user is called in between.
-/
import Muduo.Foundation.Machine
import Muduo.Net.Connector

set_option autoImplicit false

namespace Muduo.Net

open Muduo.Foundation

/-- `class TcpClient`. -/
structure TcpClient where
  connector_ : Connector
  retry_ : Bool
  connect_ : Bool
  /-- the socket of the connection -/
  connection_ : Option Int
  deriving DecidableEq, Repr

namespace TcpClient

/-- `TcpClient(loop, serverAddr, name)`. -/
def new : TcpClient := ⟨.new, false, true, none⟩

/-- A method of the connector is called. -/
def onConnector (t : TcpClient) (f : Connector → Exec Connector) : Exec TcpClient := do
  .ok { t with connector_ := ← f t.connector_ }

/-- `enableRetry()`. -/
def enableRetry (t : TcpClient) : TcpClient := { t with retry_ := true }

/-- `connect()`. -/
def connect (t : TcpClient) (savedErrno : ConnectErrno) : Exec TcpClient :=
  { t with connect_ := true }.onConnector fun c => c.start savedErrno

/-- `disconnect()`, without the shutdown of the connection. -/
def disconnect (t : TcpClient) : TcpClient := { t with connect_ := false }

/-- `stop()`. -/
def stop (t : TcpClient) : Exec TcpClient :=
  { t with connect_ := false }.onConnector Connector.stop

/-- `newConnection(sockfd)`. -/
def newConnection (t : TcpClient) (sockfd : Int) : TcpClient :=
  { t with connection_ := some sockfd }

/-- `removeConnection(conn)`. -/
def removeConnection (t : TcpClient) (conn : Int) (savedErrno : ConnectErrno) : Exec TcpClient := do
  assertThat (t.connection_ = some conn)
  let t := { t with connection_ := none }
  let t ← t.onConnector fun c => .ok { c with loop_ := c.loop_.queueInLoop .connectDestroyed }
  if t.retry_ && t.connect_ then t.onConnector fun c => c.restart savedErrno else .ok t

/-- `handleWrite` of the connector, whose `newConnectionCallback_` is `newConnection`. -/
def handleWrite (t : TcpClient) (err : Int) (isSelfConnect : Bool) : Exec TcpClient := do
  let (connector_, passed) ← t.connector_.handleWrite err isSelfConnect
  let t := { t with connector_ }
  match passed with
  | some sockfd => .ok (t.newConnection sockfd)
  | none => .ok t

/-- An event on the channel of the connector. -/
def handleEvent (t : TcpClient) (revents_ : BitVec 32) (err : Int) (isSelfConnect : Bool) :
    Exec TcpClient :=
  Channel.handleEventWithGuard revents_ .ok (fun t => t.onConnector Connector.handleError) .ok
    (fun t => t.handleWrite err isSelfConnect) t

end TcpClient

/-! ## The loop thread -/

/-- Where the loop thread is. -/
inductive LoopPhase where
  /-- before `poll`, or before `loop()` -/
  | polling
  /-- in the handlers of the active channels -/
  | handling
  /-- in `doPendingFunctors` -/
  | functors
  deriving DecidableEq, Repr

namespace TcpClientRuns

/-- A client and its loop. -/
structure System where
  client : TcpClient
  phase : LoopPhase
  /-- the channel of the connector is active, and its turn is still to come -/
  awaiting : Bool
  /-- the client had a connection when the loop polled last -/
  polled : Bool
  /-- the connection has reported DOWN and has not called `closeCallback_` yet -/
  closing : Bool
  deriving DecidableEq, Repr

/-- A step of the loop thread, or a call of the user. -/
inductive Action where
  | enableRetry
  | connect (savedErrno : ConnectErrno)
  | disconnect
  | stop
  /-- `poll` returns, with the connector's channel among the active ones or not -/
  | poll (active : Bool)
  | connectorEvent (revents_ : BitVec 32) (err : Int) (isSelfConnect : Bool)
  | retryTimer (i : Nat) (savedErrno : ConnectErrno)
  /-- the connection is closed and reports it -/
  | connectionDown
  /-- the connection calls `closeCallback_` -/
  | removeConnection (conn : Int) (savedErrno : ConnectErrno)
  | endEvents
  | runFunctor (savedErrno : ConnectErrno)
  | endFunctors
  deriving DecidableEq, Repr

namespace System

/-- The client was constructed, and the loop polls. -/
def new : System := ⟨.new, .polling, false, false, false⟩

/-- A method of the client is called. -/
def onClient (s : System) (f : TcpClient → Exec TcpClient) : Exec System := do
  .ok { s with client := ← f s.client }

/-- The connector of the client. -/
def connector (s : System) : Connector := s.client.connector_

/-- Change the loop as the connector sees it. -/
def onLoop (s : System) (f : ConnectorLoop → ConnectorLoop) : System :=
  { s with client :=
      { s.client with connector_ := { s.connector with loop_ := f s.connector.loop_ } } }

end System

/-- What a step does. -/
def step (s : System) : Action → Exec System
  | .enableRetry => s.onClient fun t => .ok t.enableRetry
  | .connect savedErrno => s.onClient fun t => t.connect savedErrno
  | .disconnect => s.onClient fun t => .ok t.disconnect
  | .stop => s.onClient TcpClient.stop
  | .poll active =>
      .ok { s.onLoop fun loop => { loop with eventHandling_ := true, active } with
        phase := .handling
        awaiting := active
        polled := s.client.connection_.isSome }
  | .connectorEvent revents_ err isSelfConnect => do
      let s := s.onLoop fun loop => { loop with current := true }
      let s ← s.onClient fun t => t.handleEvent revents_ err isSelfConnect
      .ok { s.onLoop fun loop => { loop with current := false } with awaiting := false }
  | .retryTimer i savedErrno =>
      s.onClient fun t => t.onConnector fun c =>
        { c with timers := c.timers.eraseIdx i }.startInLoop savedErrno
  | .connectionDown => .ok { s with closing := true }
  | .removeConnection conn savedErrno => do
      .ok { ← s.onClient fun t => t.removeConnection conn savedErrno with closing := false }
  | .endEvents =>
      .ok { s.onLoop fun loop =>
        { loop with toEventLoop := loop.swapPending, eventHandling_ := false } with
        phase := .functors }
  | .runFunctor savedErrno => s.onClient fun t => t.onConnector fun c => c.runNext savedErrno
  | .endFunctors =>
      .ok { s.onLoop fun loop => { loop with toEventLoop := loop.finishPending } with
        phase := .polling }

/-- The connector is connecting, or will try again. -/
def Attempting (c : Connector) : Prop :=
  c.connect_ = true ∧ (c.state_ = .kConnecting ∨ c.timers ≠ [])

instance (c : Connector) : Decidable (Attempting c) :=
  inferInstanceAs (Decidable (_ ∧ _))

/-- The poller watches the channel of the connector. -/
def Watched (c : Connector) : Prop := ∃ channel ∈ c.channel_, channel.isNoneEvent = false

instance (c : Connector) : Decidable (Watched c) :=
  inferInstanceAs (Decidable (∃ channel ∈ c.channel_, channel.isNoneEvent = false))

/-- `connect()` is called when there is neither a live connection nor an attempt; events
and functors come as the loop has them. -/
def Legal (s : System) : Action → Prop
  | .enableRetry => True
  | .connect _ => (s.client.connection_ = none ∨ s.closing = true) ∧ ¬ Attempting s.connector
  | .disconnect => True
  | .stop => True
  | .poll active => s.phase = .polling ∧ (active = true → Watched s.connector)
  | .connectorEvent revents_ _ _ =>
      s.phase = .handling ∧ s.closing = false ∧ s.awaiting = true ∧
        ∀ channel ∈ s.connector.channel_, channel.Reports revents_
  | .retryTimer i _ => s.phase = .handling ∧ s.closing = false ∧ i < s.connector.timers.length
  | .connectionDown =>
      s.phase = .handling ∧ s.closing = false ∧ s.client.connection_ ≠ none ∧ s.polled = true
  | .removeConnection conn _ => s.closing = true ∧ s.client.connection_ = some conn
  | .endEvents => s.phase = .handling ∧ s.closing = false ∧ s.awaiting = false
  | .runFunctor _ => s.phase = .functors ∧ s.connector.loop_.functors ≠ []
  | .endFunctors => s.phase = .functors ∧ s.connector.loop_.functors = []

instance (s : System) (a : Action) : Decidable (Legal s a) :=
  match a with
  | .enableRetry => isTrue trivial
  | .connect _ => inferInstanceAs (Decidable (_ ∧ _))
  | .disconnect => isTrue trivial
  | .stop => isTrue trivial
  | .poll _ => inferInstanceAs (Decidable (_ ∧ _))
  | .connectorEvent _ _ _ => inferInstanceAs (Decidable (_ ∧ _ ∧ _ ∧ _))
  | .retryTimer _ _ => inferInstanceAs (Decidable (_ ∧ _ ∧ _))
  | .connectionDown => inferInstanceAs (Decidable (_ ∧ _ ∧ _ ∧ _))
  | .removeConnection _ _ => inferInstanceAs (Decidable (_ ∧ _))
  | .endEvents => inferInstanceAs (Decidable (_ ∧ _ ∧ _))
  | .runFunctor _ => inferInstanceAs (Decidable (_ ∧ _))
  | .endFunctors => inferInstanceAs (Decidable (_ ∧ _))

/-- The loop, the network and the user. -/
def machine : Machine System Action := ⟨step, Legal⟩

end TcpClientRuns

end Muduo.Net
