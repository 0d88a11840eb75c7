/-
  Net/TcpConnection.lean --- the output side and the state of `TcpConnection`
  (src/muduo/net/TcpConnection.h, TcpConnection.cc).

  A connection owns its channel, its socket and its output buffer, and queues
  functors into its loop.  The environment decides what every `write(2)` returns,
  so that result is an argument.  `Socket` keeps the history of the system calls
  made on the descriptor: what the kernel has accepted, and when the write side
  was closed, are functions of that history.

  The user's callbacks are recorded, not executed: `writeCompleteCallback_` and
  `highWaterMarkCallback_` only ever run as queued functors.  The input side, where
  `messageCallback_` is called, is in Net/TcpLifecycle.lean.
-/
import Muduo.Foundation.Exec
import Muduo.Net.BufferPieces
import Muduo.Net.Channel
import Muduo.Net.EventLoop

set_option autoImplicit false

namespace Muduo.Net

open Muduo.Foundation

/-! ## The socket -/

/-- The `errno` values that the code distinguishes. -/
inductive Errno where
  | EWOULDBLOCK
  | EPIPE
  /-- any other code; `EWOULDBLOCK` is 11 and `EPIPE` is 32 -/
  | other (code : Nat) (unnamed : code ≠ 11 ∧ code ≠ 32)
  deriving DecidableEq, Repr

/-- What `write(2)` returns: a count, or -1 with `errno`. -/
inductive WriteResult where
  | wrote (n : Nat)
  | failed (errno : Errno)
  deriving DecidableEq, Repr

/-- The results `write(2)` can return for `len` bytes. -/
def WriteResult.Possible (w : WriteResult) (len : Nat) : Prop :=
  match w with
  | .wrote n => n ≤ len
  | .failed _ => True

instance (w : WriteResult) (len : Nat) : Decidable (w.Possible len) :=
  match w with
  | .wrote _ => Nat.decLe _ _
  | .failed _ => isTrue trivial

/-- A system call on the connection's descriptor. -/
inductive SockCall where
  | write (data : List UInt8) (result : WriteResult)
  /-- with the bytes that `outputBuffer_` still held -/
  | shutdownWrite (unsent : List UInt8)
  deriving DecidableEq, Repr

/-- The bytes of one call that the kernel accepted. -/
def SockCall.accepted : SockCall → List UInt8
  | .write data (.wrote n) => data.take n
  | .write _ (.failed _) => []
  | .shutdownWrite _ => []

/-- The call is a `write(2)`. -/
def SockCall.isWrite : SockCall → Bool
  | .write _ _ => true
  | .shutdownWrite _ => false

/-- The call is a `shutdown(SHUT_WR)`. -/
def SockCall.isShutdown : SockCall → Bool
  | .write _ _ => false
  | .shutdownWrite _ => true

/-- `class Socket`, as the history of the calls made on it. -/
structure Socket where
  calls : List SockCall
  deriving DecidableEq, Repr

namespace Socket

/-- All bytes that the kernel has accepted, in order. -/
def accepted (s : Socket) : List UInt8 := s.calls.flatMap SockCall.accepted

/-- `shutdownWrite()` has been issued. -/
def isShut (s : Socket) : Bool := s.calls.any SockCall.isShutdown

/-- A `write(2)` on the descriptor, added to the history. -/
def write (s : Socket) (data : List UInt8) (result : WriteResult) : Socket :=
  ⟨s.calls ++ [.write data result]⟩

/-- `shutdownWrite()`, added to the history. -/
def shutdownWrite (s : Socket) (unsent : List UInt8) : Socket :=
  ⟨s.calls ++ [.shutdownWrite unsent]⟩

@[simp] theorem accepted_write (s : Socket) (data : List UInt8) (result : WriteResult) :
    (s.write data result).accepted = s.accepted ++ (SockCall.write data result).accepted := by
  simp [accepted, write]

@[simp] theorem accepted_shutdownWrite (s : Socket) (unsent : List UInt8) :
    (s.shutdownWrite unsent).accepted = s.accepted := by
  simp [accepted, shutdownWrite, SockCall.accepted]

@[simp] theorem isShut_write (s : Socket) (data : List UInt8) (result : WriteResult) :
    (s.write data result).isShut = s.isShut := by
  simp [isShut, write, SockCall.isShutdown]

end Socket

/-! ## The connection -/

/-- `enum StateE`. -/
inductive StateE where
  | kDisconnected
  | kConnecting
  | kConnected
  | kDisconnecting
  deriving DecidableEq, Repr

/-- The functors that a connection queues into its loop. -/
inductive ConnFunctor where
  /-- `send()` in another thread: `sendInLoop(const StringPiece &)` on a copy of the bytes -/
  | sendInLoop (message : List UInt8)
  | shutdownInLoop
  | writeCompleteCallback
  | highWaterMarkCallback (len : Nat)
  deriving DecidableEq, Repr

/-- Calls of the user's callbacks that are not queued. -/
inductive UserCall where
  /-- `connectionCallback_`, with what `connected()` returns then -/
  | connectionCallback (connected : Bool)
  | closeCallback
  deriving DecidableEq, Repr

/-- `class TcpConnection`. -/
structure TcpConnection where
  state_ : StateE
  channel_ : Channel
  socket_ : Socket
  loop_ : EventLoop ConnFunctor
  outputBuffer_ : Buffer
  highWaterMark_ : Nat
  /-- whether `writeCompleteCallback_` is set -/
  writeCompleteCallback_ : Bool
  /-- whether `highWaterMarkCallback_` is set -/
  highWaterMarkCallback_ : Bool
  userCalls : List UserCall
  deriving DecidableEq, Repr

namespace TcpConnection

/-- `TcpConnection(loop, name, sockfd, ...)`. -/
def new (sockfd : Int) : TcpConnection where
  state_ := .kConnecting
  channel_ := Channel.new sockfd
  socket_ := ⟨[]⟩
  loop_ := EventLoop.idle
  outputBuffer_ := Buffer.new
  highWaterMark_ := 64 * 1024 * 1024
  writeCompleteCallback_ := false
  highWaterMarkCallback_ := false
  userCalls := []

/-- `connected()`. -/
def connected (c : TcpConnection) : Bool := c.state_ == .kConnected

/-- `setState(s)`. -/
def setState (c : TcpConnection) (s : StateE) : TcpConnection := { c with state_ := s }

/-- `loop_->queueInLoop(cb)`. -/
def queueInLoop (c : TcpConnection) (cb : ConnFunctor) : TcpConnection :=
  { c with loop_ := c.loop_.queueInLoop cb }

/-- `connectEstablished()`. -/
def connectEstablished (c : TcpConnection) : Exec TcpConnection := do
  assertThat (c.state_ = .kConnecting)
  let c := c.setState .kConnected
  let c := { c with channel_ := c.channel_.enableReading }
  .ok { c with userCalls := c.userCalls ++ [.connectionCallback c.connected] }

/-! ### Sending -/

/-- The locals of `sendInLoop` after the direct write. -/
structure WriteAttempt where
  nwrote : Nat
  remaining : Nat
  error : Bool
  deriving DecidableEq, Repr

/-- How `sendInLoop` reads the result of its direct write. -/
def WriteAttempt.ofResult (len : Nat) : WriteResult → WriteAttempt
  | .wrote n => ⟨n, len - n, false⟩
  | .failed .EPIPE => ⟨0, len, true⟩
  | .failed _ => ⟨0, len, false⟩

/-- The first half of `sendInLoop`: write directly if nothing is queued. -/
def writeDirectly (c : TcpConnection) (data : List UInt8) (w : WriteResult) :
    TcpConnection × WriteAttempt :=
  if !c.channel_.isWriting && c.outputBuffer_.readableBytes == 0 then
    let c := { c with socket_ := c.socket_.write data w }
    let attempt := WriteAttempt.ofResult data.length w
    match w with
    | .wrote _ =>
        if attempt.remaining == 0 && c.writeCompleteCallback_ then
          (c.queueInLoop .writeCompleteCallback, attempt)
        else (c, attempt)
    | .failed _ => (c, attempt)
  else (c, ⟨0, data.length, false⟩)

/-- The high-water mark test of `sendInLoop`, before `remaining` bytes are added. -/
def checkHighWaterMark (c : TcpConnection) (remaining : Nat) : TcpConnection :=
  let oldLen := c.outputBuffer_.readableBytes
  if decide (c.highWaterMark_ ≤ oldLen + remaining) && decide (oldLen < c.highWaterMark_)
      && c.highWaterMarkCallback_ then
    c.queueInLoop (.highWaterMarkCallback (oldLen + remaining))
  else c

/-- The second half of `sendInLoop`: buffer what is left and ask for `POLLOUT`. -/
def bufferRest (c : TcpConnection) (data : List UInt8) (attempt : WriteAttempt) :
    Exec TcpConnection :=
  if !attempt.error && decide (0 < attempt.remaining) then do
    let c := c.checkHighWaterMark attempt.remaining
    let outputBuffer_ ← c.outputBuffer_.append (data.drop attempt.nwrote)
    let c := { c with outputBuffer_ }
    if !c.channel_.isWriting then
      .ok { c with channel_ := c.channel_.enableWriting }
    else .ok c
  else .ok c

/-- `sendInLoop(data, len)`; `w` is what its `write(2)` returns, if it makes one. -/
def sendInLoop (c : TcpConnection) (data : List UInt8) (w : WriteResult) : Exec TcpConnection :=
  if c.state_ = .kDisconnected then .ok c
  else do
    let (c, attempt) := c.writeDirectly data w
    assertThat (attempt.remaining ≤ data.length)
    c.bufferRest data attempt

/-- `sendInLoop(const StringPiece &)`, as the queued functors of `send()` call it: the bytes
that `size()` counts, and none on a closed connection. -/
def sendPieceInLoop (c : TcpConnection) (message : StringPiece) (w : WriteResult) :
    Exec TcpConnection :=
  if c.state_ = .kDisconnected then .ok c
  else if message.toSizeT ≤ message.data.length then
    c.sendInLoop (message.data.take message.toSizeT) w
  else .error .outOfBounds

/-- `send(data, len)` called in the loop thread. -/
def send (c : TcpConnection) (data : List UInt8) (w : WriteResult) : Exec TcpConnection :=
  if c.state_ = .kConnected then c.sendInLoop data w else .ok c

/-! ### Shutting down -/

/-- `shutdownInLoop()`. -/
def shutdownInLoop (c : TcpConnection) : TcpConnection :=
  if !c.channel_.isWriting then
    { c with socket_ := c.socket_.shutdownWrite c.outputBuffer_.contents }
  else c

/-- `shutdown()` called in the loop thread, where `runInLoop` calls at once. -/
def shutdown (c : TcpConnection) : TcpConnection :=
  if c.state_ = .kConnected then (c.setState .kDisconnecting).shutdownInLoop else c

/-! ### Events -/

/-- `handleWrite` up to its test of `state_`; the flag tells whether it has just
emptied `outputBuffer_`. -/
def writeOutput (c : TcpConnection) (w : WriteResult) : Exec (TcpConnection × Bool) :=
  if c.channel_.isWriting then
    let c := { c with socket_ := c.socket_.write c.outputBuffer_.contents w }
    match w with
    | .wrote n =>
        if 0 < n then do
          let outputBuffer_ ← c.outputBuffer_.retrieve n
          let c := { c with outputBuffer_ }
          if c.outputBuffer_.readableBytes = 0 then
            let c := { c with channel_ := c.channel_.disableWriting }
            let c := if c.writeCompleteCallback_ then c.queueInLoop .writeCompleteCallback else c
            .ok (c, true)
          else .ok (c, false)
        else .ok (c, false)
    | .failed _ => .ok (c, false)
  else .ok (c, false)

/-- The test of `state_` in `handleWrite`, reached when `outputBuffer_` is empty. -/
def shutdownIfDisconnecting (c : TcpConnection) : TcpConnection :=
  if c.state_ = .kDisconnecting then c.shutdownInLoop else c

/-- `handleWrite()`; `w` is what its `write(2)` returns. -/
def handleWrite (c : TcpConnection) (w : WriteResult) : Exec TcpConnection := do
  let (c, drained) ← c.writeOutput w
  .ok (if drained then c.shutdownIfDisconnecting else c)

/-- `handleClose()`. -/
def handleClose (c : TcpConnection) : Exec TcpConnection := do
  assertThat (c.state_ = .kConnected ∨ c.state_ = .kDisconnecting)
  let c := c.setState .kDisconnected
  let c := { c with channel_ := c.channel_.disableAll }
  .ok { c with userCalls := c.userCalls ++ [.connectionCallback c.connected, .closeCallback] }

/-- `handleError` only logs the pending error of the socket. -/
def handleError (c : TcpConnection) : TcpConnection := c

/-- `connectDestroyed`, with the assertion of `Channel::remove`. -/
def connectDestroyed (c : TcpConnection) : Exec TcpConnection := do
  let c :=
    if c.state_ = .kConnected then
      let c := c.setState .kDisconnected
      let c := { c with channel_ := c.channel_.disableAll }
      { c with userCalls := c.userCalls ++ [.connectionCallback c.connected] }
    else c
  assertThat (c.channel_.isNoneEvent = true)
  .ok c

/-! ## The output invariant -/

/-- Every byte handed to `sendInLoop` is in one of two places: accepted by the
kernel, or readable in `outputBuffer_`. -/
def stream (c : TcpConnection) : List UInt8 := c.socket_.accepted ++ c.outputBuffer_.contents

/-- The output buffer is well formed, and `POLLOUT` is requested exactly while it
holds something. -/
structure OutputInv (c : TcpConnection) : Prop where
  buffer : c.outputBuffer_.Inv
  writing : c.channel_.isWriting = true ↔ c.outputBuffer_.contents ≠ []

theorem OutputInv.contents_eq_nil {c : TcpConnection} (hc : c.OutputInv)
    (h : c.channel_.isWriting = false) : c.outputBuffer_.contents = [] := by
  by_contra hne
  rw [hc.writing.mpr hne] at h
  exact absurd h (by simp)

end TcpConnection

/-- The functors that only call back into user code. -/
def ConnFunctor.IsCallback : ConnFunctor → Prop
  | .sendInLoop _ | .shutdownInLoop => False
  | .writeCompleteCallback | .highWaterMarkCallback _ => True

namespace TcpConnection

/-- What a step of the output side leaves alone: the connection state, and the
functor queue up to callbacks added at its end. -/
structure SameControl (c c' : TcpConnection) : Prop where
  state : c'.state_ = c.state_
  batch : c'.loop_.functors = c.loop_.functors
  calling : c'.loop_.callingPendingFunctors_ = c.loop_.callingPendingFunctors_
  pending : ∃ queued, c'.loop_.pendingFunctors_ = c.loop_.pendingFunctors_ ++ queued ∧
    ∀ f ∈ queued, f.IsCallback

theorem SameControl.of_loop_eq {c c' : TcpConnection} (hstate : c'.state_ = c.state_)
    (hloop : c'.loop_ = c.loop_) : SameControl c c' :=
  ⟨hstate, by rw [hloop], by rw [hloop], [], by simp [hloop], by simp⟩

theorem SameControl.trans {c₁ c₂ c₃ : TcpConnection} (h : SameControl c₁ c₂)
    (h' : SameControl c₂ c₃) : SameControl c₁ c₃ := by
  obtain ⟨q, hq, hcb⟩ := h.pending
  obtain ⟨q', hq', hcb'⟩ := h'.pending
  refine ⟨h'.state.trans h.state, h'.batch.trans h.batch, h'.calling.trans h.calling,
    q ++ q', ?_, ?_⟩
  · rw [hq', hq, List.append_assoc]
  · intro f hf
    rcases List.mem_append.mp hf with hf | hf
    · exact hcb f hf
    · exact hcb' f hf

/-- `c'` is `c` after at most one callback has been queued. -/
def MayQueue (c c' : TcpConnection) : Prop :=
  c' = c ∨ ∃ cb : ConnFunctor, cb.IsCallback ∧ c' = c.queueInLoop cb

namespace MayQueue

variable {c c' : TcpConnection}

theorem sameControl (h : MayQueue c c') : SameControl c c' := by
  rcases h with rfl | ⟨cb, hcb, rfl⟩
  · exact .of_loop_eq rfl rfl
  · refine ⟨rfl, rfl, rfl, [cb], rfl, ?_⟩
    intro f hf
    rw [List.mem_singleton.mp hf]
    exact hcb

theorem socket (h : MayQueue c c') : c'.socket_ = c.socket_ := by
  rcases h with rfl | ⟨cb, _, rfl⟩ <;> rfl

theorem channel (h : MayQueue c c') : c'.channel_ = c.channel_ := by
  rcases h with rfl | ⟨cb, _, rfl⟩ <;> rfl

theorem outputBuffer (h : MayQueue c c') : c'.outputBuffer_ = c.outputBuffer_ := by
  rcases h with rfl | ⟨cb, _, rfl⟩ <;> rfl

end MayQueue

theorem checkHighWaterMark_mayQueue (c : TcpConnection) (remaining : Nat) :
    MayQueue c (c.checkHighWaterMark remaining) := by
  unfold checkHighWaterMark
  simp only
  split
  · exact .inr ⟨.highWaterMarkCallback _, trivial, rfl⟩
  · exact .inl rfl

/-! ## Specification of `sendInLoop` -/

/-- The second half of `sendInLoop` appends exactly the bytes that the direct
write left over, and requests `POLLOUT` if there are any. -/
theorem bufferRest_spec {c : TcpConnection} (hb : c.outputBuffer_.Inv) (data : List UInt8)
    (attempt : WriteAttempt) (hrem : attempt.remaining = data.length - attempt.nwrote) :
    ∃ c', c.bufferRest data attempt = .ok c' ∧ SameControl c c' ∧ c'.socket_ = c.socket_ ∧
      c'.outputBuffer_.Inv ∧
      c'.outputBuffer_.contents =
        c.outputBuffer_.contents ++ (if attempt.error then [] else data.drop attempt.nwrote) ∧
      c'.channel_.isWriting =
        (c.channel_.isWriting || (!attempt.error && decide (0 < attempt.remaining))) := by
  by_cases hgo : (!attempt.error && decide (0 < attempt.remaining)) = true
  · have herr : attempt.error = false := by simpa using (Bool.and_eq_true_iff.mp hgo).1
    have hq := checkHighWaterMark_mayQueue c attempt.remaining
    obtain ⟨b, hb', hinv, hcontents, _⟩ := Buffer.append_spec hb (data.drop attempt.nwrote)
    have happ : (c.checkHighWaterMark attempt.remaining).outputBuffer_.append
        (data.drop attempt.nwrote) = .ok b := by rw [hq.outputBuffer, hb']
    cases hwr : c.channel_.isWriting with
    | true =>
        refine ⟨{ c.checkHighWaterMark attempt.remaining with outputBuffer_ := b }, ?_,
          hq.sameControl.trans (.of_loop_eq rfl rfl), hq.socket, hinv, ?_, ?_⟩
        · simp [bufferRest, hgo, happ, hq.channel, hwr]
        · simp [hcontents, herr]
        · simp [hq.channel, hwr]
    | false =>
        refine ⟨{ c.checkHighWaterMark attempt.remaining with
            outputBuffer_ := b
            channel_ := (c.checkHighWaterMark attempt.remaining).channel_.enableWriting }, ?_,
          hq.sameControl.trans (.of_loop_eq rfl rfl), hq.socket, hinv, ?_, ?_⟩
        · simp [bufferRest, hgo, happ, hq.channel, hwr]
        · simp [hcontents, herr]
        · simp [hgo]
  · refine ⟨c, by simp [bufferRest, hgo], .of_loop_eq rfl rfl, rfl, hb, ?_, by simp [hgo]⟩
    cases herr : attempt.error with
    | true => simp
    | false =>
        have hnil : data.drop attempt.nwrote = [] := by
          rw [List.drop_eq_nil_iff]
          simp only [herr, Bool.not_false, Bool.true_and, decide_eq_true_eq] at hgo
          omega
        simp [hnil]

/-- The locals after a direct write add up, and what the kernel did not accept is
exactly what remains (unless the connection is broken). -/
theorem WriteAttempt.ofResult_spec {data : List UInt8} {w : WriteResult}
    (hw : w.Possible data.length) :
    (ofResult data.length w).remaining = data.length - (ofResult data.length w).nwrote ∧
      (w ≠ .failed .EPIPE →
        (SockCall.write data w).accepted ++ data.drop (ofResult data.length w).nwrote = data ∧
          (ofResult data.length w).error = false) := by
  rcases w with n | e
  · exact ⟨rfl, fun _ => ⟨List.take_append_drop n data, rfl⟩⟩
  · cases e with
    | EPIPE => exact ⟨rfl, fun h => absurd rfl h⟩
    | EWOULDBLOCK => exact ⟨rfl, fun _ => ⟨rfl, rfl⟩⟩
    | other code unnamed => exact ⟨rfl, fun _ => ⟨rfl, rfl⟩⟩

/-- When nothing is buffered, the first half of `sendInLoop` writes directly. -/
theorem writeDirectly_of_idle {c : TcpConnection} (hc : c.OutputInv)
    (hidle : c.channel_.isWriting = false) (data : List UInt8) (w : WriteResult) :
    ∃ c', c.writeDirectly data w = (c', WriteAttempt.ofResult data.length w) ∧
      MayQueue { c with socket_ := c.socket_.write data w } c' := by
  have hempty : c.outputBuffer_.readableBytes = 0 := by
    rw [← Buffer.contents_length hc.buffer, hc.contents_eq_nil hidle]
    rfl
  cases w with
  | failed e => exact ⟨_, by simp [writeDirectly, hidle, hempty], .inl rfl⟩
  | wrote n =>
      by_cases hdone : ((WriteAttempt.ofResult data.length (.wrote n)).remaining == 0
          && c.writeCompleteCallback_) = true
      · refine ⟨_, ?_, .inr ⟨.writeCompleteCallback, trivial, rfl⟩⟩
        simp only [writeDirectly, hidle, hempty, hdone]
        rfl
      · refine ⟨_, ?_, .inl rfl⟩
        simp only [writeDirectly, hidle, hempty, hdone]
        rfl

/-- While something is buffered, it writes nothing. -/
theorem writeDirectly_of_writing {c : TcpConnection} (h : c.channel_.isWriting = true)
    (data : List UInt8) (w : WriteResult) :
    c.writeDirectly data w = (c, ⟨0, data.length, false⟩) := by
  simp [writeDirectly, h]

/-- `sendInLoop` on a live connection: one direct write if nothing is buffered,
none otherwise; the message joins the stream at its end. -/
theorem sendInLoop_spec {c : TcpConnection} (hc : c.OutputInv) (hlive : c.state_ ≠ .kDisconnected)
    {data : List UInt8} {w : WriteResult} (hw : w.Possible data.length) :
    ∃ c', c.sendInLoop data w = .ok c' ∧ c'.OutputInv ∧ SameControl c c' ∧
      c'.socket_ = (if c.channel_.isWriting then c.socket_ else c.socket_.write data w) ∧
      (w ≠ .failed .EPIPE → c'.stream = c.stream ++ data) := by
  cases hwr : c.channel_.isWriting with
  | true =>
      obtain ⟨c', hc', hcontrol, hsock, hinv, hcontents, hwriting⟩ :=
        bufferRest_spec hc.buffer data ⟨0, data.length, false⟩ rfl
      have hne : c.outputBuffer_.contents ≠ [] := hc.writing.mp hwr
      refine ⟨c', ?_, ⟨hinv, ?_⟩, hcontrol, by simpa using hsock, ?_⟩
      · simp [sendInLoop, hlive, writeDirectly_of_writing hwr, hc']
      · simp [hwriting, hwr, hcontents, hne]
      · intro _
        simp [stream, hsock, hcontents]
  | false =>
      obtain ⟨c₁, hc₁, hq⟩ := writeDirectly_of_idle hc hwr data w
      obtain ⟨hrem, hok⟩ := WriteAttempt.ofResult_spec hw
      have hnil := hc.contents_eq_nil hwr
      obtain ⟨c', hc', hcontrol, hsock, hinv, hcontents, hwriting⟩ :=
        bufferRest_spec (hq.outputBuffer ▸ hc.buffer) data _ hrem
      rw [hq.outputBuffer, hnil, List.nil_append] at hcontents
      rw [hq.channel, hwr, Bool.false_or] at hwriting
      refine ⟨c', ?_, ⟨hinv, ?_⟩, ?_, by simpa using hsock.trans hq.socket, ?_⟩
      · have hle : (WriteAttempt.ofResult data.length w).remaining ≤ data.length := by omega
        simp [sendInLoop, hlive, hc₁, hle, hc']
      · rw [hwriting, hcontents, hrem]
        simp only [Nat.sub_pos_iff_lt]
        cases (WriteAttempt.ofResult data.length w).error <;> simp
      · have hwrite : SameControl c { c with socket_ := c.socket_.write data w } :=
          .of_loop_eq rfl rfl
        exact hwrite.trans (hq.sameControl.trans hcontrol)
      · intro hpipe
        obtain ⟨hsplit, herr⟩ := hok hpipe
        have hstream : c.stream = c.socket_.accepted := by simp [stream, hnil]
        rw [hstream, stream, hsock, hq.socket, hcontents, herr, Socket.accepted_write,
          List.append_assoc]
        simpa using hsplit

/-- A string below 2^31 bytes is sent whole. -/
theorem sendPieceInLoop_of_lt (c : TcpConnection) {message : List UInt8}
    (h : message.length < 2 ^ 31) (w : WriteResult) :
    c.sendPieceInLoop (.ofString message) w = c.sendInLoop message w := by
  have hdata : (StringPiece.ofString message).data = message := rfl
  by_cases hdis : c.state_ = .kDisconnected
  · simp only [sendPieceInLoop, sendInLoop, if_pos hdis]
  · rw [sendPieceInLoop, if_neg hdis, toSizeT_of_lt h, hdata, if_pos (Nat.le_refl _),
      List.take_length]

/-! ## Specification of `handleWrite` and `shutdownInLoop` -/

/-- A `write` that takes nothing leaves the buffer as it is. -/
theorem writeOutput_of_refused {c : TcpConnection} (hwr : c.channel_.isWriting = true)
    {w : WriteResult} (hw : ∀ n, w = .wrote n → n = 0) :
    c.writeOutput w =
        .ok ({ c with socket_ := c.socket_.write c.outputBuffer_.contents w }, false) ∧
      (SockCall.write c.outputBuffer_.contents w).accepted = [] := by
  cases w with
  | wrote n =>
      obtain rfl := hw n rfl
      exact ⟨by simp [writeOutput, hwr], by simp [SockCall.accepted]⟩
  | failed errno => exact ⟨by simp [writeOutput, hwr], by simp [SockCall.accepted]⟩

/-- A `write` that takes all there is: the channel stops asking for `POLLOUT`. -/
theorem writeOutput_of_drained {c : TcpConnection} (hwr : c.channel_.isWriting = true) {n : Nat}
    (hn : 0 < n) {b : Buffer} (hb : c.outputBuffer_.retrieve n = .ok b)
    (hempty : b.readableBytes = 0) :
    ∃ c', c.writeOutput (.wrote n) = .ok (c', true) ∧
      MayQueue { c with
        socket_ := c.socket_.write c.outputBuffer_.contents (.wrote n)
        outputBuffer_ := b
        channel_ := c.channel_.disableWriting } c' := by
  refine ⟨_, by simp only [writeOutput, hwr, if_true, hn, hb, ok_bind, hempty]; rfl, ?_⟩
  split
  · exact .inr ⟨.writeCompleteCallback, trivial, rfl⟩
  · exact .inl rfl

/-- Accepted bytes move from the buffer to the kernel; `POLLOUT` is dropped when
the buffer becomes empty, and the flag reports exactly that. -/
theorem writeOutput_spec {c : TcpConnection} (hc : c.OutputInv) {w : WriteResult}
    (hw : w.Possible c.outputBuffer_.readableBytes) :
    ∃ c' drained, c.writeOutput w = .ok (c', drained) ∧ c'.OutputInv ∧ SameControl c c' ∧
      c'.socket_ =
        (if c.channel_.isWriting then c.socket_.write c.outputBuffer_.contents w
          else c.socket_) ∧
      c'.stream = c.stream ∧
      (drained = true ↔ c.channel_.isWriting = true ∧ c'.channel_.isWriting = false) := by
  cases hwr : c.channel_.isWriting with
  | false => exact ⟨c, false, by simp [writeOutput, hwr], hc, .of_loop_eq rfl rfl, rfl, rfl,
      by simp⟩
  | true =>
      by_cases htakes : ∃ n, 0 < n ∧ w = .wrote n
      · obtain ⟨n, hn, rfl⟩ := htakes
        obtain ⟨b, hb, hinv, hcontents⟩ := Buffer.retrieve_spec hc.buffer hw
        have hstream : (SockCall.write c.outputBuffer_.contents (.wrote n)).accepted ++ b.contents
            = c.outputBuffer_.contents := by
          rw [hcontents]
          exact List.take_append_drop n _
        by_cases hempty : b.readableBytes = 0
        · have hnil : b.contents = [] := by
            rw [← List.length_eq_zero_iff, Buffer.contents_length hinv, hempty]
          obtain ⟨c', hc', hq⟩ := writeOutput_of_drained hwr hn hb hempty
          have hcontrol : SameControl c { c with
              socket_ := c.socket_.write c.outputBuffer_.contents (.wrote n)
              outputBuffer_ := b
              channel_ := c.channel_.disableWriting } := .of_loop_eq rfl rfl
          refine ⟨c', true, hc', ⟨by rw [hq.outputBuffer]; exact hinv, ?_⟩,
            hcontrol.trans hq.sameControl, hq.socket, ?_, ?_⟩
          · rw [hq.channel, hq.outputBuffer]
            simp [hnil]
          · rw [stream, hq.socket, hq.outputBuffer]
            simpa [stream] using hstream
          · simp [hq.channel]
        · have hne : b.contents ≠ [] := by
            rw [← List.length_pos_iff, Buffer.contents_length hinv]
            omega
          refine ⟨{ c with
              socket_ := c.socket_.write c.outputBuffer_.contents (.wrote n)
              outputBuffer_ := b }, false, ?_, ⟨hinv, by simp [hwr, hne]⟩,
            .of_loop_eq rfl rfl, rfl, ?_, by simp [hwr]⟩
          · simp [writeOutput, hwr, hn, hb, hempty]
          · simpa [stream] using hstream
      · have hzero : ∀ n, w = .wrote n → n = 0 := by
          intro n heq
          by_contra hne
          exact htakes ⟨n, Nat.pos_of_ne_zero hne, heq⟩
        obtain ⟨hstep, haccepted⟩ := writeOutput_of_refused hwr hzero
        refine ⟨_, false, hstep, ⟨hc.buffer, hc.writing⟩, .of_loop_eq rfl rfl, rfl, ?_,
          by simp [hwr]⟩
        simp [stream, haccepted]

/-- `shutdownInLoop` closes the write side only when nothing is left to send. -/
theorem shutdownInLoop_spec {c : TcpConnection} (hc : c.OutputInv) :
    c.shutdownInLoop =
      if c.channel_.isWriting then c else { c with socket_ := c.socket_.shutdownWrite [] } := by
  cases hwr : c.channel_.isWriting with
  | true => simp [shutdownInLoop, hwr]
  | false => simp [shutdownInLoop, hwr, hc.contents_eq_nil hwr]

theorem shutdownInLoop_outputInv {c : TcpConnection} (hc : c.OutputInv) :
    c.shutdownInLoop.OutputInv := by
  rw [shutdownInLoop_spec hc]
  split
  · exact hc
  · exact ⟨hc.buffer, hc.writing⟩

theorem shutdownInLoop_stream (c : TcpConnection) : c.shutdownInLoop.stream = c.stream := by
  unfold shutdownInLoop
  split
  · simp [stream]
  · rfl

theorem shutdownInLoop_control (c : TcpConnection) : SameControl c c.shutdownInLoop := by
  unfold shutdownInLoop
  split
  · exact .of_loop_eq rfl rfl
  · exact .of_loop_eq rfl rfl

theorem handleClose_eq {c : TcpConnection}
    (h : c.state_ = .kConnected ∨ c.state_ = .kDisconnecting) :
    c.handleClose = .ok
      { c with
        state_ := .kDisconnected
        channel_ := c.channel_.disableAll
        userCalls := c.userCalls ++ [.connectionCallback false, .closeCallback] } := by
  simp only [handleClose, assertThat_of h, ok_bind]
  rfl

theorem handleClose_spec {c : TcpConnection}
    (h : c.state_ = .kConnected ∨ c.state_ = .kDisconnecting) :
    ∃ c', c.handleClose = .ok c' ∧ c'.state_ = .kDisconnected ∧
      c'.channel_ = c.channel_.disableAll :=
  ⟨_, handleClose_eq h, rfl, rfl⟩

/-- A connection is closed once. -/
theorem handleClose_of_disconnected {c : TcpConnection} (h : c.state_ = .kDisconnected) :
    c.handleClose = .error .assertion := by
  have hnot : ¬ (c.state_ = .kConnected ∨ c.state_ = .kDisconnecting) := by simp [h]
  simp only [handleClose, assertThat_of_not hnot, error_bind]

end TcpConnection

end Muduo.Net
