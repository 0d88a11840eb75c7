/-
  Net/TcpLifecycle.lean --- a connection from `connectEstablished` to
  `connectDestroyed`.

  A run is any order of events, of calls of `send` and `shutdown` in the loop thread or
  in others, and of queued functors.  One event may call several callbacks: a hang-up
  closes the connection, and a read after it may find the end of the stream and close
  it again.  `messageCallback_` runs in the middle of an event, so what it calls is part
  of the event.  The other callbacks come last in a step, and what they call is a step of
  its own, or they come after the connection is closed, when what they call does nothing.

  A call of `send` or `shutdown` is one step: no other thread writes `state_` between
  its test and its update.  A queued message is what `sendInLoop(data, len)` gets of it; below
  2^31 bytes that is all of it (`System.perform_eq_runFunctor`).
-/
import Muduo.Net.TcpShutdown

set_option autoImplicit false

namespace Muduo.Net

open Muduo.Foundation

/-- What `write(2)` returns for `len` bytes when the kernel would take up to as many as
the given result says. -/
def WriteResult.upTo (len : Nat) : WriteResult → WriteResult
  | .wrote n => .wrote (min n len)
  | .failed errno => .failed errno

theorem WriteResult.upTo_possible (w : WriteResult) (len : Nat) : (w.upTo len).Possible len := by
  cases w with
  | wrote n => exact Nat.min_le_right n len
  | failed errno => trivial

namespace TcpLifecycle

/-- A call that user code makes in the loop thread. -/
inductive Call where
  | send (data : List UInt8) (w : WriteResult)
  | shutdown
  /-- take bytes out of the input buffer, all but so many -/
  | retrieve (rest : Nat)
  deriving DecidableEq, Repr

/-- A connection with its input side. -/
structure System extends TcpConnection where
  inputBuffer_ : Buffer
  /-- `connectDestroyed` has been called -/
  destroyed : Bool
  deriving DecidableEq, Repr

namespace System

/-- A connection as `TcpServer::newConnection` makes it, with the user's settings. -/
def new (fd : Int) (highWaterMark : Nat) (writeComplete highWater : Bool) : System where
  toTcpConnection :=
    { TcpConnection.new fd with
      highWaterMark_ := highWaterMark
      writeCompleteCallback_ := writeComplete
      highWaterMarkCallback_ := highWater }
  inputBuffer_ := Buffer.new
  destroyed := false

/-- Apply a method of the output side. -/
def onConn (s : System) (f : TcpConnection → Exec TcpConnection) : Exec System := do
  .ok { s with toTcpConnection := ← f s.toTcpConnection }

/-- A call of the user in the loop thread. -/
def call (s : System) : Call → Exec System
  | .send data w => s.onConn fun c => c.send data (w.upTo data.length)
  | .shutdown => s.onConn fun c => .ok c.shutdown
  | .retrieve rest => do
      .ok { s with
        inputBuffer_ := ← s.inputBuffer_.retrieve (s.inputBuffer_.readableBytes - rest) }

/-- `handleRead`; `messageCallback_` makes the given calls. -/
def handleRead (s : System) (result : Buffer.ReadvResult) (messageCallback_ : List Call) :
    Exec System := do
  let (n, _, inputBuffer_) ← s.inputBuffer_.readFd result
  let s := { s with inputBuffer_ }
  if 0 < n then messageCallback_.foldlM call s
  else if n = 0 then s.onConn TcpConnection.handleClose
  else s.onConn fun c => .ok c.handleError

/-- `handleWrite()`. -/
def handleWrite (s : System) (w : WriteResult) : Exec System :=
  s.onConn fun c => c.handleWrite (w.upTo c.outputBuffer_.readableBytes)

/-- An event on the channel of the connection. -/
def handleEvent (s : System) (revents_ : BitVec 32) (result : Buffer.ReadvResult)
    (messageCallback_ : List Call) (w : WriteResult) : Exec System :=
  Channel.handleEventWithGuard revents_
    (fun s => s.onConn TcpConnection.handleClose)
    (fun s => s.onConn fun c => .ok c.handleError)
    (fun s => s.handleRead result messageCallback_)
    (fun s => s.handleWrite w) s

/-- `send` in another thread. -/
def sendElsewhere (c : TcpConnection) (data : List UInt8) : TcpConnection :=
  if c.state_ = .kConnected then c.queueInLoop (.sendInLoop data) else c

/-- `shutdown` in another thread. -/
def shutdownElsewhere (c : TcpConnection) : TcpConnection :=
  if c.state_ = .kConnected then (c.setState .kDisconnecting).queueInLoop .shutdownInLoop else c

/-- What a functor does. -/
def perform (c : TcpConnection) (w : WriteResult) : ConnFunctor → Exec TcpConnection
  | .sendInLoop message => c.sendInLoop message (w.upTo message.length)
  | .shutdownInLoop => .ok c.shutdownInLoop
  | .writeCompleteCallback | .highWaterMarkCallback _ => .ok c

/-- `doPendingFunctors` runs its next functor. -/
def runFunctor (c : TcpConnection) (w : WriteResult) : Exec TcpConnection :=
  match c.loop_.functors with
  | [] => .ok c
  | f :: rest => perform (TcpShutdown.withLoop c { c.loop_ with functors := rest }) w f

end System

/-- A step of the loop thread, or of another one. -/
inductive Action where
  | connectEstablished
  | handleEvent (revents_ : BitVec 32) (result : Buffer.ReadvResult) (messageCallback_ : List Call)
      (w : WriteResult)
  | call (c : Call)
  | sendElsewhere (data : List UInt8)
  | shutdownElsewhere
  | swapPending
  | runFunctor (w : WriteResult)
  | connectDestroyed
  deriving DecidableEq, Repr

/-- What a step does. -/
def step (s : System) : Action → Exec System
  | .connectEstablished => s.onConn TcpConnection.connectEstablished
  | .handleEvent revents_ result messageCallback_ w =>
      s.handleEvent revents_ result messageCallback_ w
  | .call c => s.call c
  | .sendElsewhere data => s.onConn fun c => .ok (System.sendElsewhere c data)
  | .shutdownElsewhere => s.onConn fun c => .ok (System.shutdownElsewhere c)
  | .swapPending => s.onConn fun c => .ok (TcpShutdown.withLoop c c.loop_.swapPending)
  | .runFunctor w => s.onConn fun c => System.runFunctor c w
  | .connectDestroyed => do .ok { ← s.onConn TcpConnection.connectDestroyed with destroyed := true }

/-- `connectEstablished` comes first and `connectDestroyed` last; events are those that
the poller can report. -/
def Legal (s : System) : Action → Prop
  | .connectEstablished => s.state_ = .kConnecting ∧ s.destroyed = false
  | .handleEvent revents_ _ _ _ =>
      (s.state_ ≠ .kConnecting ∧ s.destroyed = false) ∧ s.channel_.Reports revents_
  | _ => s.state_ ≠ .kConnecting ∧ s.destroyed = false

instance (s : System) (a : Action) : Decidable (Legal s a) :=
  match a with
  | .connectEstablished => inferInstanceAs (Decidable (_ ∧ _))
  | .handleEvent _ _ _ _ => inferInstanceAs (Decidable (_ ∧ _))
  | .call _ => inferInstanceAs (Decidable (_ ∧ _))
  | .sendElsewhere _ => inferInstanceAs (Decidable (_ ∧ _))
  | .shutdownElsewhere => inferInstanceAs (Decidable (_ ∧ _))
  | .swapPending => inferInstanceAs (Decidable (_ ∧ _))
  | .runFunctor _ => inferInstanceAs (Decidable (_ ∧ _))
  | .connectDestroyed => inferInstanceAs (Decidable (_ ∧ _))

/-- The life of one connection. -/
def machine : Machine System Action := ⟨step, Legal⟩

/-! ## What the user sees -/

/-- The values of `connected()` in the calls of `connectionCallback_`. -/
def connectionCalls (calls : List UserCall) : List Bool :=
  calls.filterMap fun
    | .connectionCallback connected => some connected
    | .closeCallback => none

/-- How often `closeCallback_` was called. -/
def closeCalls (calls : List UserCall) : Nat := calls.count .closeCallback

/-- The user was told once that the connection is up and then once that it is down, and
`closeCallback_` was called at most once. -/
def Notified (s : System) : Prop :=
  connectionCalls s.userCalls = [true, false] ∧ closeCalls s.userCalls ≤ 1

/-- The steps that the code gets right: a half-closed connection is not destroyed, and a
hang-up closes a connection that is not closed yet and that the same event does not
close again. -/
def ClosesOnce (s : System) : Action → Prop
  | .handleEvent revents_ result _ _ =>
      (revents_ &&& POLLHUP ≠ 0#32 ∧ revents_ &&& POLLIN = 0#32) →
        s.state_ ≠ .kDisconnected ∧
          (revents_ &&& (POLLIN ||| POLLPRI ||| POLLRDHUP) ≠ 0#32 → result.count ≠ 0)
  | .connectDestroyed => s.state_ ≠ .kDisconnecting
  | _ => True

instance (s : System) (a : Action) : Decidable (ClosesOnce s a) :=
  match a with
  | .connectEstablished => isTrue trivial
  | .handleEvent _ _ _ _ => inferInstanceAs (Decidable (_ → _))
  | .call _ => isTrue trivial
  | .sendElsewhere _ => isTrue trivial
  | .shutdownElsewhere => isTrue trivial
  | .swapPending => isTrue trivial
  | .runFunctor _ => isTrue trivial
  | .connectDestroyed => inferInstanceAs (Decidable (_ ≠ _))

/-! ## The invariant -/

/-- The connection is up. -/
structure Live (s : System) : Prop where
  state : s.state_ = .kConnected ∨ s.state_ = .kDisconnecting
  calls : s.userCalls = [.connectionCallback true]
  reads : s.channel_.Reads
  output : s.OutputInv
  input : s.inputBuffer_.Inv
  lasts : s.destroyed = false

/-- `handleClose` has been called. -/
structure Closed (s : System) : Prop where
  state : s.state_ = .kDisconnected
  calls : s.userCalls = [.connectionCallback true, .connectionCallback false, .closeCallback]
  quiet : s.channel_.events_ = 0#32
  input : s.inputBuffer_.Inv
  lasts : s.destroyed = false

/-- The connection has not been established yet. -/
structure Fresh (s : System) : Prop where
  state : s.state_ = .kConnecting
  calls : s.userCalls = []
  output : s.OutputInv
  input : s.inputBuffer_.Inv
  lasts : s.destroyed = false

/-- What a step of the output side leaves alone. -/
structure Frame (c c' : TcpConnection) : Prop where
  state : c'.state_ = c.state_
  calls : c'.userCalls = c.userCalls
  reads : c.channel_.Reads → c'.channel_.Reads

namespace Frame

variable {c c' c'' : TcpConnection}

theorem trans (h : Frame c c') (h' : Frame c' c'') : Frame c c'' :=
  ⟨h'.state.trans h.state, h'.calls.trans h.calls, fun hr => h'.reads (h.reads hr)⟩

theorem of_channel (hstate : c'.state_ = c.state_) (hcalls : c'.userCalls = c.userCalls)
    (hchannel : c'.channel_ = c.channel_) : Frame c c' :=
  ⟨hstate, hcalls, fun h => hchannel ▸ h⟩

theorem of_mayQueue (h : TcpConnection.MayQueue c c') : Frame c c' := by
  rcases h with rfl | ⟨cb, _, rfl⟩
  · exact of_channel rfl rfl rfl
  · exact of_channel rfl rfl rfl

theorem writeDirectly (c : TcpConnection) (data : List UInt8) (w : WriteResult) :
    Frame c (c.writeDirectly data w).1 := by
  unfold TcpConnection.writeDirectly
  split
  · cases w with
    | wrote n =>
        simp only
        split
        · exact of_channel rfl rfl rfl
        · exact of_channel rfl rfl rfl
    | failed errno => exact of_channel rfl rfl rfl
  · exact of_channel rfl rfl rfl

theorem bufferRest {data : List UInt8} {attempt : TcpConnection.WriteAttempt}
    (h : c.bufferRest data attempt = .ok c') : Frame c c' := by
  unfold TcpConnection.bufferRest at h
  split at h
  · obtain ⟨outputBuffer_, _, h⟩ := bind_eq_ok_iff.mp h
    have hmark := of_mayQueue (TcpConnection.checkHighWaterMark_mayQueue c attempt.remaining)
    simp only at h
    split at h
    · obtain rfl := Except.ok.inj h
      exact ⟨hmark.state, hmark.calls, fun hr => (hmark.reads hr).enableWriting⟩
    · obtain rfl := Except.ok.inj h
      exact ⟨hmark.state, hmark.calls, hmark.reads⟩
  · obtain rfl := Except.ok.inj h
    exact of_channel rfl rfl rfl

theorem sendInLoop {data : List UInt8} {w : WriteResult} (h : c.sendInLoop data w = .ok c') :
    Frame c c' := by
  unfold TcpConnection.sendInLoop at h
  split at h
  · obtain rfl := Except.ok.inj h
    exact of_channel rfl rfl rfl
  · obtain ⟨_, _, h⟩ := bind_eq_ok_iff.mp h
    exact (writeDirectly c data w).trans (bufferRest h)

theorem shutdownInLoop (c : TcpConnection) : Frame c c.shutdownInLoop := by
  unfold TcpConnection.shutdownInLoop
  split
  · exact of_channel rfl rfl rfl
  · exact of_channel rfl rfl rfl

theorem writeOutput {w : WriteResult} {drained : Bool} (h : c.writeOutput w = .ok (c', drained)) :
    Frame c c' := by
  unfold TcpConnection.writeOutput at h
  split at h
  · cases w with
    | wrote n =>
        simp only at h
        split at h
        · obtain ⟨outputBuffer_, _, h⟩ := bind_eq_ok_iff.mp h
          split at h
          · obtain ⟨rfl, _⟩ := Prod.mk.inj (Except.ok.inj h)
            split
            · exact ⟨rfl, rfl, fun hr => hr.disableWriting⟩
            · exact ⟨rfl, rfl, fun hr => hr.disableWriting⟩
          · obtain ⟨rfl, _⟩ := Prod.mk.inj (Except.ok.inj h)
            exact of_channel rfl rfl rfl
        · obtain ⟨rfl, _⟩ := Prod.mk.inj (Except.ok.inj h)
          exact of_channel rfl rfl rfl
    | failed errno =>
        obtain ⟨rfl, _⟩ := Prod.mk.inj (Except.ok.inj h)
        exact of_channel rfl rfl rfl
  · obtain ⟨rfl, _⟩ := Prod.mk.inj (Except.ok.inj h)
    exact of_channel rfl rfl rfl

end Frame

section Steps

variable {s : System}

theorem onConn_ok {f : TcpConnection → Exec TcpConnection} {c : TcpConnection}
    (h : f s.toTcpConnection = .ok c) : s.onConn f = .ok { s with toTcpConnection := c } := by
  unfold System.onConn
  rw [h, ok_bind]

theorem onConn_error {f : TcpConnection → Exec TcpConnection} {e : Fault}
    (h : f s.toTcpConnection = .error e) : s.onConn f = .error e := by
  unfold System.onConn
  rw [h, error_bind]

theorem Live.not_disconnected (h : Live s) : s.state_ ≠ .kDisconnected := by
  intro hdis
  rcases h.state with hstate | hstate
  · exact absurd (hstate.symm.trans hdis) (by simp)
  · exact absurd (hstate.symm.trans hdis) (by simp)

/-- A step of the output side keeps the connection up. -/
theorem Live.of_frame (h : Live s) {c : TcpConnection} (hframe : Frame s.toTcpConnection c)
    (houtput : c.OutputInv) : Live { s with toTcpConnection := c } where
  state := by
    rw [show ({ s with toTcpConnection := c } : System).state_ = s.state_ from hframe.state]
    exact h.state
  calls := hframe.calls.trans h.calls
  reads := hframe.reads h.reads
  output := houtput
  input := h.input
  lasts := h.lasts

/-- What succeeds on a connection that is up and leaves it up, and on a closed one and
leaves it closed, succeeds on either. -/
theorem succeeds_of_either {x : Exec System} (h : Live s ∨ Closed s)
    (hlive : Live s → ∃ s', x = .ok s' ∧ Live s')
    (hclosed : Closed s → ∃ s', x = .ok s' ∧ Closed s') :
    ∃ s', x = .ok s' ∧ (Live s' ∨ Closed s') := by
  rcases h with h | h
  · obtain ⟨s', hs', h'⟩ := hlive h
    exact ⟨s', hs', .inl h'⟩
  · obtain ⟨s', hs', h'⟩ := hclosed h
    exact ⟨s', hs', .inr h'⟩

theorem Live.withInput (h : Live s) {b : Buffer} (hb : b.Inv) : Live { s with inputBuffer_ := b } :=
  ⟨h.state, h.calls, h.reads, h.output, hb, h.lasts⟩

theorem Closed.withInput (h : Closed s) {b : Buffer} (hb : b.Inv) :
    Closed { s with inputBuffer_ := b } :=
  ⟨h.state, h.calls, h.quiet, hb, h.lasts⟩

theorem Live.withLoop (h : Live s) (loop : EventLoop ConnFunctor) :
    Live { s with loop_ := loop } :=
  ⟨h.state, h.calls, h.reads, ⟨h.output.buffer, h.output.writing⟩, h.input, h.lasts⟩

theorem Closed.withLoop (h : Closed s) (loop : EventLoop ConnFunctor) :
    Closed { s with loop_ := loop } :=
  ⟨h.state, h.calls, h.quiet, h.input, h.lasts⟩

/-! ### Calls of the user -/

theorem Live.sendInLoop (h : Live s) {data : List UInt8} {w : WriteResult}
    (hw : w.Possible data.length) :
    ∃ c, s.toTcpConnection.sendInLoop data w = .ok c ∧ Live { s with toTcpConnection := c } := by
  obtain ⟨c, hc, houtput, _⟩ := TcpConnection.sendInLoop_spec h.output h.not_disconnected hw
  exact ⟨c, hc, h.of_frame (Frame.sendInLoop hc) houtput⟩

theorem Live.disconnecting (h : Live s) (loop : EventLoop ConnFunctor) :
    Live { s with state_ := .kDisconnecting, loop_ := loop } where
  state := .inr rfl
  calls := h.calls
  reads := h.reads
  output := ⟨h.output.buffer, h.output.writing⟩
  input := h.input
  lasts := h.lasts

theorem Live.shutdown (h : Live s) :
    Live { s with toTcpConnection := s.toTcpConnection.shutdown } := by
  unfold TcpConnection.shutdown
  split
  · have hdis : Live { s with state_ := .kDisconnecting } := h.disconnecting s.loop_
    exact hdis.of_frame (Frame.shutdownInLoop _)
      (TcpConnection.shutdownInLoop_outputInv hdis.output)
  · exact h

/-- What the user retrieves is in the input buffer. -/
theorem call_retrieve (h : s.inputBuffer_.Inv) (rest : Nat) :
    ∃ b, s.call (.retrieve rest) = .ok { s with inputBuffer_ := b } ∧ b.Inv := by
  obtain ⟨b, hb, hinv, _⟩ := Buffer.retrieve_spec h (Nat.sub_le s.inputBuffer_.readableBytes rest)
  refine ⟨b, ?_, hinv⟩
  rw [System.call, hb, ok_bind]

theorem Live.call (h : Live s) (c : Call) : ∃ s', s.call c = .ok s' ∧ Live s' := by
  cases c with
  | send data w =>
      simp only [System.call]
      by_cases hstate : s.state_ = .kConnected
      · obtain ⟨c, hc, hlive⟩ := h.sendInLoop (w.upTo_possible data.length)
        exact ⟨_, onConn_ok ((if_pos hstate).trans hc), hlive⟩
      · exact ⟨_, onConn_ok (if_neg hstate), h⟩
  | shutdown =>
      simp only [System.call]
      exact ⟨_, onConn_ok rfl, h.shutdown⟩
  | retrieve rest =>
      obtain ⟨b, hcall, hinv⟩ := call_retrieve h.input rest
      exact ⟨_, hcall, h.withInput hinv⟩

/-- On a closed connection the calls do nothing. -/
theorem Closed.call (h : Closed s) (c : Call) : ∃ s', s.call c = .ok s' ∧ Closed s' := by
  have hstate : s.state_ ≠ .kConnected := by simp [h.state]
  cases c with
  | send data w =>
      simp only [System.call]
      exact ⟨_, onConn_ok (if_neg hstate), h⟩
  | shutdown =>
      simp only [System.call]
      exact ⟨_, onConn_ok (congrArg Except.ok (if_neg hstate)), h⟩
  | retrieve rest =>
      obtain ⟨b, hcall, hinv⟩ := call_retrieve h.input rest
      exact ⟨_, hcall, h.withInput hinv⟩

/-! ### Events -/

theorem Live.handleClose (h : Live s) :
    ∃ s', s.onConn TcpConnection.handleClose = .ok s' ∧ Closed s' := by
  refine ⟨_, onConn_ok (TcpConnection.handleClose_eq h.state), rfl, ?_, rfl, h.input, h.lasts⟩
  simp only [h.calls]
  rfl

theorem Closed.handleClose (h : Closed s) :
    s.onConn TcpConnection.handleClose = .error .assertion :=
  onConn_error (TcpConnection.handleClose_of_disconnected h.state)

theorem Live.handleWrite (h : Live s) (w : WriteResult) :
    ∃ s', s.handleWrite w = .ok s' ∧ Live s' := by
  have hw := w.upTo_possible s.outputBuffer_.readableBytes
  obtain ⟨c, drained, hc, houtput, _⟩ := TcpConnection.writeOutput_spec h.output hw
  have hlive : Live { s with toTcpConnection := c } := h.of_frame (Frame.writeOutput hc) houtput
  have heq : s.handleWrite w = .ok { s with
      toTcpConnection := if drained then c.shutdownIfDisconnecting else c } := by
    apply onConn_ok
    rw [TcpConnection.handleWrite, hc, ok_bind]
  refine ⟨_, heq, ?_⟩
  cases drained with
  | false => exact hlive
  | true =>
      rw [if_pos rfl, TcpConnection.shutdownIfDisconnecting]
      split
      · exact hlive.of_frame (Frame.shutdownInLoop c)
          (TcpConnection.shutdownInLoop_outputInv houtput)
      · exact hlive

/-- The read handler on a connection that is up. -/
theorem Live.handleRead (h : Live s) (result : Buffer.ReadvResult) (messageCallback_ : List Call) :
    ∃ s', s.handleRead result messageCallback_ = .ok s' ∧ (Live s' ∨ Closed s') := by
  obtain ⟨saved, b, hb, hinv, _⟩ := Buffer.readFd_spec h.input result
  have hread : Live { s with inputBuffer_ := b } := h.withInput hinv
  unfold System.handleRead
  rw [hb, ok_bind]
  simp only
  split
  · obtain ⟨s', hs', hlive⟩ := foldlM_of_step Live (fun _ c h => h.call c) messageCallback_ hread
    exact ⟨s', hs', .inl hlive⟩
  · split
    · obtain ⟨s', hs', hclosed⟩ := hread.handleClose
      exact ⟨s', hs', .inr hclosed⟩
    · exact ⟨_, onConn_ok rfl, .inl hread⟩

/-- The read handler on a closed connection, where it must not find the end of the
stream. -/
theorem Closed.handleRead (h : Closed s) {result : Buffer.ReadvResult} (hcount : result.count ≠ 0)
    (messageCallback_ : List Call) :
    ∃ s', s.handleRead result messageCallback_ = .ok s' ∧ Closed s' := by
  obtain ⟨saved, b, hb, hinv, _⟩ := Buffer.readFd_spec h.input result
  have hread : Closed { s with inputBuffer_ := b } := h.withInput hinv
  unfold System.handleRead
  rw [hb, ok_bind]
  simp only
  split
  · exact foldlM_of_step Closed (fun _ c h => h.call c) messageCallback_ hread
  · exact ⟨_, onConn_ok rfl, hread⟩

theorem Closed.handleRead_end (h : Closed s) {result : Buffer.ReadvResult}
    (hcount : result.count = 0)
    (messageCallback_ : List Call) :
    s.handleRead result messageCallback_ = .error .assertion := by
  obtain ⟨saved, b, hb, hinv, _⟩ := Buffer.readFd_spec h.input result
  have hread : Closed { s with inputBuffer_ := b } := h.withInput hinv
  unfold System.handleRead
  rw [hb, ok_bind]
  simp only [hcount, Int.lt_irrefl, if_false, if_true]
  exact hread.handleClose

theorem Closed.handleWrite (h : Closed s) (w : WriteResult) : s.handleWrite w = .ok s := by
  have hwr : s.channel_.isWriting = false := by
    simp [Channel.isWriting, h.quiet]
  apply onConn_ok
  simp [TcpConnection.handleWrite, TcpConnection.writeOutput, hwr]

/-- The callbacks of an event that come after the one for a hang-up. -/
def System.serve (s : System) (revents_ : BitVec 32) (result : Buffer.ReadvResult)
    (messageCallback_ : List Call) (w : WriteResult) : Exec System := do
  let s ← Channel.callIf (revents_ &&& (POLLIN ||| POLLPRI ||| POLLRDHUP) ≠ 0#32)
    (fun s => s.handleRead result messageCallback_) s
  Channel.callIf (revents_ &&& POLLOUT ≠ 0#32) (fun s => s.handleWrite w) s

variable {revents_ : BitVec 32} {result : Buffer.ReadvResult}

theorem handleEvent_eq (messageCallback_ : List Call) (w : WriteResult) :
    s.handleEvent revents_ result messageCallback_ w =
      Channel.callIf (revents_ &&& POLLHUP ≠ 0#32 ∧ revents_ &&& POLLIN = 0#32)
        (fun s => s.onConn TcpConnection.handleClose) s >>= fun s =>
      s.serve revents_ result messageCallback_ w := by
  have herror : ∀ s : System, Channel.callIf (revents_ &&& (POLLERR ||| POLLNVAL) ≠ 0#32)
      (fun s : System => s.onConn fun c => .ok c.handleError) s = .ok s := by
    intro s
    exact ite_self _
  simp only [System.handleEvent, Channel.handleEventWithGuard, herror, ok_bind]
  rfl

theorem Live.serve (h : Live s) (messageCallback_ : List Call) (w : WriteResult) :
    ∃ s', s.serve revents_ result messageCallback_ w = .ok s' ∧ (Live s' ∨ Closed s') := by
  obtain ⟨s₁, hs₁, hup⟩ := Channel.callIf_succeeds
    (fun s : System => s.handleRead result messageCallback_) (fun s => Live s ∨ Closed s) (.inl h)
    (fun _ : revents_ &&& (POLLIN ||| POLLPRI ||| POLLRDHUP) ≠ 0#32 =>
      h.handleRead result messageCallback_)
  rw [System.serve, hs₁, ok_bind]
  refine Channel.callIf_succeeds _ (fun s => Live s ∨ Closed s) hup fun _ =>
    succeeds_of_either hup ?_ ?_
  · exact fun hlive => hlive.handleWrite w
  · exact fun hclosed => ⟨s₁, hclosed.handleWrite w, hclosed⟩

theorem Closed.serve (h : Closed s)
    (hcount : revents_ &&& (POLLIN ||| POLLPRI ||| POLLRDHUP) ≠ 0#32 → result.count ≠ 0)
    (messageCallback_ : List Call) (w : WriteResult) :
    ∃ s', s.serve revents_ result messageCallback_ w = .ok s' ∧ Closed s' := by
  obtain ⟨s₁, hs₁, hclosed⟩ := Channel.callIf_succeeds
    (fun s : System => s.handleRead result messageCallback_) Closed h
    (fun hflags => h.handleRead (hcount hflags) messageCallback_)
  rw [System.serve, hs₁, ok_bind]
  exact Channel.callIf_succeeds _ Closed hclosed fun _ => ⟨s₁, hclosed.handleWrite w, hclosed⟩

/-- An event that the code gets right. -/
theorem handleEvent_ok (h : Live s ∨ Closed s) (hreports : s.channel_.Reports revents_)
    {messageCallback_ : List Call} {w : WriteResult}
    (hclean : ClosesOnce s (.handleEvent revents_ result messageCallback_ w)) :
    ∃ s', s.handleEvent revents_ result messageCallback_ w = .ok s' ∧ (Live s' ∨ Closed s') := by
  rw [handleEvent_eq]
  by_cases hhup : revents_ &&& POLLHUP ≠ 0#32 ∧ revents_ &&& POLLIN = 0#32
  · obtain ⟨hstate, hcount⟩ := hclean hhup
    rcases h with hlive | hclosed
    · obtain ⟨s₁, hs₁, hclosed⟩ := hlive.handleClose
      rw [Channel.callIf_of hhup, hs₁, ok_bind]
      obtain ⟨s', hs', hclosed'⟩ := hclosed.serve hcount messageCallback_ w
      exact ⟨s', hs', .inr hclosed'⟩
    · exact absurd hclosed.state hstate
  · rw [Channel.callIf_of_not hhup, ok_bind]
    rcases h with hlive | hclosed
    · exact hlive.serve messageCallback_ w
    · -- a closed connection has no input to read
      have hnone : revents_ &&& (POLLIN ||| POLLPRI ||| POLLRDHUP) = 0#32 :=
        hreports.of_none hclosed.quiet (by decide)
      obtain ⟨s', hs', hclosed'⟩ := hclosed.serve
        (fun hflags => absurd hnone hflags) messageCallback_ w
      exact ⟨s', hs', .inr hclosed'⟩

/-- The others fail an assertion. -/
theorem handleEvent_error (h : Live s ∨ Closed s) {messageCallback_ : List Call} {w : WriteResult}
    (hclean : ¬ ClosesOnce s (.handleEvent revents_ result messageCallback_ w)) :
    s.handleEvent revents_ result messageCallback_ w = .error .assertion := by
  obtain ⟨hhup, hbad⟩ := Classical.not_imp.mp hclean
  rw [handleEvent_eq, Channel.callIf_of hhup]
  rcases h with hlive | hclosed
  · obtain ⟨s₁, hs₁, hclosed⟩ := hlive.handleClose
    have htwice := not_and.mp hbad hlive.not_disconnected
    obtain ⟨hflags, hcount⟩ := Classical.not_imp.mp htwice
    rw [hs₁, ok_bind, System.serve, Channel.callIf_of hflags,
      hclosed.handleRead_end (not_not.mp hcount), error_bind]
  · rw [hclosed.handleClose, error_bind]

/-! ### Other threads and queued functors -/

/-- Below 2^31 bytes a functor is the one of Net/TcpShutdown.lean, where it takes a
`StringPiece`. -/
theorem System.perform_eq_runFunctor (c : TcpConnection) (w : WriteResult) {f : ConnFunctor}
    (hfit : ∀ message ∈ TcpShutdown.functorMessage f, message.length < 2 ^ 31) :
    System.perform c w f =
      TcpShutdown.runFunctor c (w.upTo ((TcpShutdown.functorMessage f).getD []).length) f := by
  cases f with
  | sendInLoop message =>
      exact (TcpConnection.sendPieceInLoop_of_lt c (hfit message rfl) (w.upTo message.length)).symm
  | shutdownInLoop => rfl
  | writeCompleteCallback => rfl
  | highWaterMarkCallback len => rfl

theorem runFunctor_cons {f : ConnFunctor} {rest : List ConnFunctor} {w : WriteResult}
    {c : TcpConnection} (hfunctors : s.loop_.functors = f :: rest)
    (hc : System.perform
      (TcpShutdown.withLoop s.toTcpConnection { s.loop_ with functors := rest }) w f = .ok c) :
    s.onConn (fun c => System.runFunctor c w) = .ok { s with toTcpConnection := c } := by
  apply onConn_ok
  simp only [System.runFunctor, hfunctors, hc]

theorem Live.runFunctor (h : Live s) (w : WriteResult) :
    ∃ s', s.onConn (fun c => System.runFunctor c w) = .ok s' ∧ Live s' := by
  rcases hfunctors : s.loop_.functors with _ | ⟨f, rest⟩
  · exact ⟨s, onConn_ok (by simp only [System.runFunctor, hfunctors]), h⟩
  have hloop := h.withLoop { s.loop_ with functors := rest }
  cases f with
  | sendInLoop message =>
      obtain ⟨c, hc, hlive⟩ := hloop.sendInLoop (w.upTo_possible message.length)
      exact ⟨_, runFunctor_cons hfunctors hc, hlive⟩
  | shutdownInLoop =>
      exact ⟨_, runFunctor_cons hfunctors rfl, hloop.of_frame (Frame.shutdownInLoop _)
        (TcpConnection.shutdownInLoop_outputInv hloop.output)⟩
  | writeCompleteCallback => exact ⟨_, runFunctor_cons hfunctors rfl, hloop⟩
  | highWaterMarkCallback len => exact ⟨_, runFunctor_cons hfunctors rfl, hloop⟩

theorem Closed.runFunctor (h : Closed s) (w : WriteResult) :
    ∃ s', s.onConn (fun c => System.runFunctor c w) = .ok s' ∧ Closed s' := by
  rcases hfunctors : s.loop_.functors with _ | ⟨f, rest⟩
  · exact ⟨s, onConn_ok (by simp only [System.runFunctor, hfunctors]), h⟩
  have hloop := h.withLoop { s.loop_ with functors := rest }
  cases f with
  | sendInLoop message => exact ⟨_, runFunctor_cons hfunctors (if_pos hloop.state), hloop⟩
  | shutdownInLoop =>
      refine ⟨_, runFunctor_cons hfunctors rfl, ?_⟩
      unfold TcpConnection.shutdownInLoop
      split
      · exact ⟨h.state, h.calls, h.quiet, h.input, h.lasts⟩
      · exact hloop
  | writeCompleteCallback => exact ⟨_, runFunctor_cons hfunctors rfl, hloop⟩
  | highWaterMarkCallback len => exact ⟨_, runFunctor_cons hfunctors rfl, hloop⟩

/-! ### Steps that keep a connection up or closed -/

theorem call_ok (h : Live s ∨ Closed s) (c : Call) :
    ∃ s', step s (.call c) = .ok s' ∧ (Live s' ∨ Closed s') :=
  succeeds_of_either h (fun hlive => hlive.call c) (fun hclosed => hclosed.call c)

theorem sendElsewhere_ok (h : Live s ∨ Closed s) (data : List UInt8) :
    ∃ s', step s (.sendElsewhere data) = .ok s' ∧ (Live s' ∨ Closed s') := by
  simp only [step]
  refine ⟨_, onConn_ok rfl, ?_⟩
  unfold System.sendElsewhere
  split
  · exact h.imp (fun hlive => hlive.withLoop _) (fun hclosed => hclosed.withLoop _)
  · exact h

theorem shutdownElsewhere_ok (h : Live s ∨ Closed s) :
    ∃ s', step s .shutdownElsewhere = .ok s' ∧ (Live s' ∨ Closed s') := by
  simp only [step]
  refine ⟨_, onConn_ok rfl, ?_⟩
  unfold System.shutdownElsewhere
  split
  · rename_i hstate
    rcases h with hlive | hclosed
    · exact .inl (hlive.disconnecting _)
    · exact absurd (hclosed.state.symm.trans hstate) (by simp)
  · exact h

theorem swapPending_ok (h : Live s ∨ Closed s) :
    ∃ s', step s .swapPending = .ok s' ∧ (Live s' ∨ Closed s') := by
  simp only [step]
  exact ⟨_, onConn_ok rfl,
    h.imp (fun hlive => hlive.withLoop _) (fun hclosed => hclosed.withLoop _)⟩

theorem runFunctor_ok (h : Live s ∨ Closed s) (w : WriteResult) :
    ∃ s', step s (.runFunctor w) = .ok s' ∧ (Live s' ∨ Closed s') :=
  succeeds_of_either h (fun hlive => hlive.runFunctor w) (fun hclosed => hclosed.runFunctor w)

/-! ### The first and the last step -/

theorem Fresh.connectEstablished (h : Fresh s) :
    ∃ s', s.onConn TcpConnection.connectEstablished = .ok s' ∧ Live s' := by
  have heq : s.toTcpConnection.connectEstablished = .ok
      { s.toTcpConnection with
        state_ := .kConnected
        channel_ := s.channel_.enableReading
        userCalls := s.userCalls ++ [.connectionCallback true] } := by
    simp only [TcpConnection.connectEstablished, assertThat_of h.state, ok_bind]
    rfl
  refine ⟨_, onConn_ok heq, .inl rfl, ?_, Channel.reads_enableReading _,
    ⟨h.output.buffer, ?_⟩, h.input, h.lasts⟩
  · simp only [h.calls, List.nil_append]
  · simp only [Channel.isWriting_enableReading]
    exact h.output.writing

/-- A connection that is not half-closed can be destroyed, and the user has been told
everything. -/
theorem connectDestroyed_ok (h : Live s ∨ Closed s) (hstate : s.state_ ≠ .kDisconnecting) :
    ∃ s', step s .connectDestroyed = .ok s' ∧ s'.destroyed = true ∧ Notified s' := by
  rcases h with hlive | hclosed
  · have hconn : s.state_ = .kConnected := hlive.state.resolve_right hstate
    have heq : s.toTcpConnection.connectDestroyed = .ok
        { s.toTcpConnection with
          state_ := .kDisconnected
          channel_ := s.channel_.disableAll
          userCalls := s.userCalls ++ [.connectionCallback false] } := by
      simp only [TcpConnection.connectDestroyed, if_pos hconn]
      rfl
    refine ⟨_, by rw [step, onConn_ok heq, ok_bind], rfl, ?_⟩
    simp only [Notified, hlive.calls]
    decide
  · have hconn : s.state_ ≠ .kConnected := by simp [hclosed.state]
    have hnone : s.channel_.isNoneEvent = true := Channel.isNoneEvent_iff.mpr hclosed.quiet
    have heq : s.toTcpConnection.connectDestroyed = .ok s.toTcpConnection := by
      simp only [TcpConnection.connectDestroyed, if_neg hconn, assertThat_of hnone, ok_bind]
    refine ⟨_, by rw [step, onConn_ok heq, ok_bind], rfl, ?_⟩
    simp only [Notified, hclosed.calls]
    decide

/-- A half-closed connection cannot: its channel still asks for input. -/
theorem connectDestroyed_error (h : Live s ∨ Closed s) (hstate : s.state_ = .kDisconnecting) :
    step s .connectDestroyed = .error .assertion := by
  rcases h with hlive | hclosed
  · have hconn : s.state_ ≠ .kConnected := by simp [hstate]
    have hnone : ¬ s.channel_.isNoneEvent = true := by simp [hlive.reads.isNoneEvent]
    have heq : s.toTcpConnection.connectDestroyed = .error .assertion := by
      simp only [TcpConnection.connectDestroyed, if_neg hconn, assertThat_of_not hnone, error_bind]
    rw [step, onConn_error heq, error_bind]
  · exact absurd (hclosed.state.symm.trans hstate) (by simp)

end Steps

/-! ## Whole runs -/

/-- Where a connection can be. -/
def Inv (s : System) : Prop :=
  Fresh s ∨ (Live s ∨ Closed s) ∨ s.destroyed = true ∧ Notified s

theorem inv_new (fd : Int) (highWaterMark : Nat) (writeComplete highWater : Bool) :
    Inv (.new fd highWaterMark writeComplete highWater) := by
  have hoff : (Channel.new fd).isWriting = false := Channel.isWriting_new fd
  obtain ⟨hbuffer, hempty, _⟩ := Buffer.new_spec
  refine .inl ⟨rfl, rfl, ⟨hbuffer, ?_⟩, hbuffer, rfl⟩
  show (Channel.new fd).isWriting = true ↔ Buffer.new.contents ≠ []
  simp [hoff, hempty]

theorem Inv.fresh {s : System} (h : Inv s) (hstate : s.state_ = .kConnecting)
    (hlasts : s.destroyed = false) : Fresh s := by
  rcases h with hfresh | (hlive | hclosed) | ⟨hgone, _⟩
  · exact hfresh
  · rcases hlive.state with hs | hs
    · exact absurd (hs.symm.trans hstate) (by simp)
    · exact absurd (hs.symm.trans hstate) (by simp)
  · exact absurd (hclosed.state.symm.trans hstate) (by simp)
  · exact absurd (hgone.symm.trans hlasts) (by simp)

theorem Inv.up {s : System} (h : Inv s) (hup : s.state_ ≠ .kConnecting ∧ s.destroyed = false) :
    Live s ∨ Closed s := by
  rcases h with hfresh | hup' | ⟨hgone, _⟩
  · exact absurd hfresh.state hup.1
  · exact hup'
  · exact absurd (hgone.symm.trans hup.2) (by simp)

/-- A step that leaves the connection up or closed keeps the invariant. -/
theorem inv_of_up {s : System} {a : Action} (hne : a ≠ .connectDestroyed)
    (h : ∃ s', step s a = .ok s' ∧ (Live s' ∨ Closed s')) :
    ∃ s', step s a = .ok s' ∧ Inv s' ∧ (a = .connectDestroyed → s'.destroyed = true) := by
  obtain ⟨s', hs', hup⟩ := h
  exact ⟨s', hs', .inr (.inl hup), fun ha => absurd ha hne⟩

theorem step_ok {s : System} {a : Action} (h : Inv s) (hlegal : Legal s a)
    (hclean : ClosesOnce s a) :
    ∃ s', step s a = .ok s' ∧ Inv s' ∧ (a = .connectDestroyed → s'.destroyed = true) := by
  cases a with
  | connectEstablished =>
      obtain ⟨s', hs', hlive⟩ := (h.fresh hlegal.1 hlegal.2).connectEstablished
      exact inv_of_up (by simp) ⟨s', hs', .inl hlive⟩
  | handleEvent revents_ result messageCallback_ w =>
      exact inv_of_up (by simp) (handleEvent_ok (h.up hlegal.1) hlegal.2 hclean)
  | call c => exact inv_of_up (by simp) (call_ok (h.up hlegal) c)
  | sendElsewhere data => exact inv_of_up (by simp) (sendElsewhere_ok (h.up hlegal) data)
  | shutdownElsewhere => exact inv_of_up (by simp) (shutdownElsewhere_ok (h.up hlegal))
  | swapPending => exact inv_of_up (by simp) (swapPending_ok (h.up hlegal))
  | runFunctor w => exact inv_of_up (by simp) (runFunctor_ok (h.up hlegal) w)
  | connectDestroyed =>
      obtain ⟨s', hs', hgone, hnotified⟩ := connectDestroyed_ok (h.up hlegal) hclean
      exact ⟨s', hs', .inr (.inr ⟨hgone, hnotified⟩), fun _ => hgone⟩

theorem step_error {s : System} {a : Action} (h : Inv s) (hlegal : Legal s a)
    (hclean : ¬ ClosesOnce s a) : step s a = .error .assertion := by
  cases a with
  | handleEvent revents_ result messageCallback_ w =>
      exact handleEvent_error (h.up hlegal.1) hclean
  | connectDestroyed => exact connectDestroyed_error (h.up hlegal) (not_not.mp hclean)
  | connectEstablished | call _ | sendElsewhere _ | shutdownElsewhere | swapPending
  | runFunctor _ =>
      exact absurd trivial hclean

/-- The invariant of a run: after `connectDestroyed` the connection is destroyed. -/
def RunInv (done : List Action) (s : System) : Prop :=
  Inv s ∧ (done.getLast? = some .connectDestroyed → s.destroyed = true)

/-- Along the runs that `ClosesOnce` allows no assertion fails, and after the last step
the user has been told everything. -/
theorem run_notified {s : System} (h : Inv s) {actions : List Action}
    (hlegal : (machine.restrict ClosesOnce).LegalRun s (actions ++ [.connectDestroyed])) :
    ∃ s', machine.run s (actions ++ [.connectDestroyed]) = .ok s' ∧ Notified s' := by
  have hstart : RunInv [] s := ⟨h, fun hlast => absurd hlast (by simp)⟩
  have hstep : ∀ done s a, RunInv done s → (machine.restrict ClosesOnce).legal s a →
      ∃ s', machine.step s a = .ok s' ∧ RunInv (done ++ [a]) s' := by
    intro done s a hs ha
    obtain ⟨s', hs', hinv, hgone⟩ := step_ok hs.1 ha.1 ha.2
    refine ⟨s', hs', hinv, fun hlast => hgone ?_⟩
    rw [List.getLast?_concat] at hlast
    exact Option.some.inj hlast
  obtain ⟨s', hrun, hinv, hgone⟩ := Machine.run_of_step RunInv hstep hstart hlegal
  rw [Machine.run_restrict] at hrun
  refine ⟨s', hrun, ?_⟩
  have hdestroyed := hgone (by rw [List.nil_append, List.getLast?_concat])
  rcases hinv with hfresh | (hlive | hclosed) | ⟨_, hnotified⟩
  · exact absurd (hfresh.lasts.symm.trans hdestroyed) (by simp)
  · exact absurd (hlive.lasts.symm.trans hdestroyed) (by simp)
  · exact absurd (hclosed.lasts.symm.trans hdestroyed) (by simp)
  · exact hnotified

/-- From `connectEstablished` to `connectDestroyed`, no assertion fails and the user is
notified as promised, exactly along the runs that `ClosesOnce` allows. -/
theorem notified_iff_closesOnce (fd : Int) (highWaterMark : Nat) (writeComplete highWater : Bool)
    (actions : List Action)
    (hlegal : machine.LegalRun (.new fd highWaterMark writeComplete highWater)
      (.connectEstablished :: actions ++ [.connectDestroyed])) :
    (∃ s, machine.run (.new fd highWaterMark writeComplete highWater)
        (.connectEstablished :: actions ++ [.connectDestroyed]) = .ok s ∧ Notified s) ↔
      (machine.restrict ClosesOnce).LegalRun (.new fd highWaterMark writeComplete highWater)
        (.connectEstablished :: actions ++ [.connectDestroyed]) := by
  have hnew := inv_new fd highWaterMark writeComplete highWater
  constructor
  · rintro ⟨s, hrun, _⟩
    refine (Machine.exists_run_iff_legalRun Inv ?_ ?_ hnew hlegal).mp ⟨s, hrun⟩
    · intro s a hs ha hclean
      obtain ⟨s', hs', hinv, _⟩ := step_ok hs ha hclean
      exact ⟨s', hs', hinv⟩
    · intro s a hs ha hclean
      exact ⟨_, step_error hs ha hclean⟩
  · exact run_notified hnew

instance (s : System) (a : Action) : Decidable (machine.legal s a) :=
  inferInstanceAs (Decidable (Legal s a))

instance (s : System) (a : Action) : Decidable ((machine.restrict ClosesOnce).legal s a) :=
  inferInstanceAs (Decidable (Legal s a ∧ ClosesOnce s a))

/-- A request is answered, and the peer closes. -/
def echoRun : List Action :=
  [.handleEvent POLLIN (.received [104, 105]) [.retrieve 0, .send [104, 105] (.wrote 1)] (.wrote 0),
    .handleEvent (POLLIN ||| POLLOUT) (.failed 11) [] (.wrote 1),
    .shutdownElsewhere, .swapPending, .runFunctor (.wrote 0),
    .handleEvent (POLLIN ||| POLLHUP) (.received []) [] (.wrote 0)]

theorem notified_echoRun :
    machine.LegalRun (.new 7 1024 false false)
      (.connectEstablished :: echoRun ++ [.connectDestroyed]) ∧
      ∃ s, machine.run (.new 7 1024 false false)
        (.connectEstablished :: echoRun ++ [.connectDestroyed]) = .ok s ∧ Notified s := by
  have hlegal : machine.LegalRun (.new 7 1024 false false)
      (.connectEstablished :: echoRun ++ [.connectDestroyed]) := by decide +kernel
  exact ⟨hlegal,
    (notified_iff_closesOnce 7 1024 false false echoRun hlegal).mpr (by decide +kernel)⟩

/-- The server goes away while a connection is half closed: the user is not told, and
`Channel::remove` fails its assertion. -/
theorem shutdown_then_destroyed :
    machine.LegalRun (.new 7 1024 false false)
        (.connectEstablished :: [.call .shutdown] ++ [.connectDestroyed]) ∧
      machine.run (.new 7 1024 false false)
        (.connectEstablished :: [.call .shutdown] ++ [.connectDestroyed]) = .error .assertion ∧
      ¬ ∃ s, machine.run (.new 7 1024 false false)
        (.connectEstablished :: [.call .shutdown] ++ [.connectDestroyed]) = .ok s ∧ Notified s := by
  have hrun : machine.run (.new 7 1024 false false)
      (.connectEstablished :: [.call .shutdown] ++ [.connectDestroyed]) = .error .assertion := by
    decide +kernel
  refine ⟨by decide +kernel, hrun, ?_⟩
  rintro ⟨s, hs, _⟩
  exact absurd (hrun.symm.trans hs) (by simp)

end TcpLifecycle

end Muduo.Net
