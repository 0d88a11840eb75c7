/-
  Net/TcpShutdown.lean --- `send()` followed by `shutdown()` from another thread.

  Three parties share a connection: a thread that calls `conn->send(m)` and then
  `conn->shutdown()`, the queue of pending functors, and the loop thread, which
  handles `POLLOUT` events between batches of functors.  Each access to `state_`
  and each push into the queue is one step, so the calling thread has five steps
  and `handleWrite` has two.

  `shutdown()` publishes `kDisconnecting` at once while the message is still in
  the queue, and `handleWrite` acts on that state as soon as it has emptied the
  output buffer.  `fin_overtakes_queued_send` is the schedule in which the FIN
  overtakes the message; `no_write_after_shutdownWrite` is what holds when that
  one step does not happen.

  The queued functor is `sendInLoop(const StringPiece &)`, which hands over as many bytes
  as an `int` can count: the messages are shorter than 2^31 bytes.
-/
import Muduo.Foundation.Machine
import Muduo.Net.TcpConnection

set_option autoImplicit false

namespace Muduo.Net

open Muduo.Foundation

/-! ## Writes after a shutdown -/

namespace Socket

/-- No write was attempted after a `shutdownWrite`. -/
def Orderly (s : Socket) : Prop :=
  s.calls.Pairwise fun earlier later => earlier.isShutdown = true → later.isWrite = false

instance (s : Socket) : Decidable s.Orderly :=
  inferInstanceAs (Decidable (List.Pairwise _ _))

theorem orderly_of_not_shut {s : Socket} (h : s.isShut = false) : s.Orderly := by
  rw [isShut, List.any_eq_false] at h
  refine List.Pairwise.imp_of_mem ?_ (List.pairwise_of_forall (fun _ _ => trivial))
  intro earlier later hmem _ _ hshut
  exact absurd hshut (h earlier hmem)

theorem Orderly.shutdownWrite {s : Socket} (h : s.Orderly) (unsent : List UInt8) :
    (s.shutdownWrite unsent).Orderly := by
  refine List.pairwise_append.mpr ⟨h, List.pairwise_singleton _ _, ?_⟩
  intro earlier _ later hlater _
  rw [List.mem_singleton.mp hlater]
  rfl

end Socket

namespace TcpShutdown

/-! ## The three parties -/

/-- The next step of the thread that calls `send(m); shutdown();`. -/
inductive CallerPc where
  /-- `send`: test `state_ == kConnected` -/
  | sendTest
  /-- `send`: `runInLoop(sendInLoop, m)` -/
  | sendQueue
  /-- `shutdown`: test `state_ == kConnected` -/
  | shutdownTest
  /-- `shutdown`: `setState(kDisconnecting)` -/
  | shutdownSet
  /-- `shutdown`: `runInLoop(shutdownInLoop)` -/
  | shutdownQueue
  | finished
  deriving DecidableEq, Repr

/-- The connection, the calling thread and the loop thread. -/
structure System where
  conn : TcpConnection
  caller : CallerPc
  /-- the loop thread is inside `handleWrite`, before its test of `state_` -/
  midWrite : Option Bool
  deriving DecidableEq, Repr

/-- A step of one of the two threads. -/
inductive Action where
  /-- the calling thread takes its next step -/
  | caller
  /-- a `POLLOUT` event: `handleWrite` up to its test of `state_` -/
  | writeOutput (w : WriteResult)
  /-- the rest of `handleWrite` -/
  | testState
  /-- `doPendingFunctors` takes the queue -/
  | swapPending
  /-- `doPendingFunctors` runs the next functor -/
  | runFunctor (w : WriteResult)
  /-- `doPendingFunctors` returns -/
  | finishPending
  deriving DecidableEq, Repr

/-- The next step of `send(m); shutdown();`. -/
def callerStep (m : List UInt8) (s : System) : System :=
  match s.caller with
  | .sendTest =>
      { s with caller := if s.conn.state_ = .kConnected then .sendQueue else .shutdownTest }
  | .sendQueue => { s with conn := s.conn.queueInLoop (.sendInLoop m), caller := .shutdownTest }
  | .shutdownTest =>
      { s with caller := if s.conn.state_ = .kConnected then .shutdownSet else .finished }
  | .shutdownSet =>
      { s with conn := s.conn.setState .kDisconnecting, caller := .shutdownQueue }
  | .shutdownQueue =>
      { s with conn := s.conn.queueInLoop .shutdownInLoop, caller := .finished }
  | .finished => s

/-- What running a functor does to the connection.  The user's callbacks are not
part of this system. -/
def runFunctor (c : TcpConnection) (w : WriteResult) : ConnFunctor → Exec TcpConnection
  | .sendInLoop message => c.sendPieceInLoop (.ofString message) w
  | .shutdownInLoop => .ok c.shutdownInLoop
  | .writeCompleteCallback | .highWaterMarkCallback _ => .ok c

/-- Replace the loop of a connection. -/
def withLoop (c : TcpConnection) (loop : EventLoop ConnFunctor) : TcpConnection :=
  { c with loop_ := loop }

/-- What a step does. -/
def step (m : List UInt8) (s : System) : Action → Exec System
  | .caller => .ok (callerStep m s)
  | .writeOutput w => do
      let (conn, drained) ← s.conn.writeOutput w
      .ok { s with conn, midWrite := some drained }
  | .testState =>
      match s.midWrite with
      | some true => .ok { s with conn := s.conn.shutdownIfDisconnecting, midWrite := none }
      | _ => .ok { s with midWrite := none }
  | .swapPending => .ok { s with conn := withLoop s.conn s.conn.loop_.swapPending }
  | .runFunctor w =>
      match s.conn.loop_.functors with
      | [] => .ok s
      | f :: rest => do
          let conn ← runFunctor (withLoop s.conn { s.conn.loop_ with functors := rest }) w f
          .ok { s with conn }
  | .finishPending => .ok { s with conn := withLoop s.conn s.conn.loop_.finishPending }

/-- What `write(2)` may return for `len` bytes: the pipe is only broken by our own
`shutdownWrite`. -/
def Writable (socket : Socket) (w : WriteResult) (len : Nat) : Prop :=
  w.Possible len ∧ (w = .failed .EPIPE → socket.isShut = true)

instance (socket : Socket) (w : WriteResult) (len : Nat) : Decidable (Writable socket w len) :=
  inferInstanceAs (Decidable (_ ∧ _))

/-- The bytes that a functor sends. -/
def functorMessage : ConnFunctor → Option (List UInt8)
  | .sendInLoop message => some message
  | _ => none

/-- The loop thread handles events and runs functors in turn; a `POLLOUT` event is
only reported while it is requested. -/
def Legal (s : System) : Action → Prop
  | .caller => s.caller ≠ .finished
  | .writeOutput w =>
      s.midWrite = none ∧ s.conn.loop_.callingPendingFunctors_ = false ∧
        s.conn.channel_.isWriting = true ∧
        Writable s.conn.socket_ w s.conn.outputBuffer_.readableBytes
  | .testState => s.midWrite ≠ none
  | .swapPending => s.midWrite = none ∧ s.conn.loop_.callingPendingFunctors_ = false
  | .runFunctor w =>
      s.conn.loop_.callingPendingFunctors_ = true ∧
        ∀ message ∈ s.conn.loop_.functors.head?.bind functorMessage,
          Writable s.conn.socket_ w (StringPiece.ofString message).toSizeT
  | .finishPending =>
      s.conn.loop_.callingPendingFunctors_ = true ∧ s.conn.loop_.functors = []

instance (s : System) (a : Action) : Decidable (Legal s a) :=
  match a with
  | .caller => inferInstanceAs (Decidable (_ ≠ _))
  | .writeOutput _ => inferInstanceAs (Decidable (_ ∧ _ ∧ _ ∧ _))
  | .testState => inferInstanceAs (Decidable (_ ≠ _))
  | .swapPending => inferInstanceAs (Decidable (_ ∧ _))
  | .runFunctor _ => inferInstanceAs (Decidable (_ ∧ _))
  | .finishPending => inferInstanceAs (Decidable (_ ∧ _))

/-- The interleavings of the three parties. -/
def machine (m : List UInt8) : Machine System Action where
  step := step m
  legal := Legal

instance (m : List UInt8) (s : System) (a : Action) : Decidable ((machine m).legal s a) :=
  inferInstanceAs (Decidable (Legal s a))

/-! ## The schedule that loses the message -/

/-- A connection whose output buffer still holds one byte of earlier output. -/
def backlogged : TcpConnection :=
  { TcpConnection.new 7 with
    state_ := .kConnected
    channel_ := (Channel.new 7).enableReading.enableWriting
    outputBuffer_ :=
      { Buffer.new with
        buffer_ := overwrite Buffer.new.buffer_ 8 [1]
        writerIndex_ := 9 } }

/-- The caller gets as far as `setState(kDisconnecting)`; then the last byte of
the earlier output drains, before the queued message is run. -/
def overtakingRun : List Action :=
  [.caller, .caller, .caller, .caller, .writeOutput (.wrote 1), .testState, .swapPending,
    .runFunctor (.failed .EPIPE)]

/-- The message `[2]` is written after the write side has been closed, and lost. -/
theorem fin_overtakes_queued_send :
    (machine [2]).LegalRun ⟨backlogged, .sendTest, none⟩ overtakingRun ∧
      ∃ s, (machine [2]).run ⟨backlogged, .sendTest, none⟩ overtakingRun = .ok s ∧
        ¬ s.conn.socket_.Orderly := by
  have hlegal : (machine [2]).LegalRun ⟨backlogged, .sendTest, none⟩ overtakingRun := by
    decide +kernel
  obtain ⟨s, hrun, hs⟩ := (machine [2]).exists_of_endsWith ⟨backlogged, .sendTest, none⟩
    overtakingRun (fun s => !decide s.conn.socket_.Orderly) (by decide +kernel)
  exact ⟨hlegal, s, hrun, by simpa using hs⟩

/-! ## The invariant of the good schedules -/

/-- The bytes that the queued functors will send. -/
def queuedBytes (backlog : List ConnFunctor) : List UInt8 :=
  backlog.flatMap fun f => (functorMessage f).getD []

/-- The bytes that the caller has not queued yet. -/
def owed (m : List UInt8) : CallerPc → List UInt8
  | .sendTest | .sendQueue => m
  | .shutdownTest | .shutdownSet | .shutdownQueue | .finished => []

/-- Nothing is queued behind a `shutdownInLoop` that would send. -/
def FinLast (backlog : List ConnFunctor) : Prop :=
  backlog.Pairwise fun earlier later => earlier = .shutdownInLoop → functorMessage later = none

/-- Where the caller is, and what the others may have seen of it. -/
def CallerInv (c : TcpConnection) : CallerPc → Prop
  | .sendTest | .sendQueue | .shutdownTest | .shutdownSet =>
      c.state_ = .kConnected ∧ c.socket_.isShut = false ∧
        ConnFunctor.shutdownInLoop ∉ c.loop_.backlog
  | .shutdownQueue =>
      c.state_ = .kDisconnecting ∧ ConnFunctor.shutdownInLoop ∉ c.loop_.backlog
  | .finished => c.state_ = .kDisconnecting

/-- What the queue, the socket and the caller say about each other. -/
structure QueueInv (caller : CallerPc) (c : TcpConnection) : Prop where
  phase : CallerInv c caller
  order : FinLast c.loop_.backlog
  shut : c.socket_.isShut = true →
    c.channel_.isWriting = false ∧ ∀ f ∈ c.loop_.backlog, functorMessage f = none

/-- Every queued message is shorter than 2^31 bytes. -/
def FitPieces (backlog : List ConnFunctor) : Prop :=
  ∀ f ∈ backlog, ∀ message ∈ functorMessage f, message.length < 2 ^ 31

/-- The invariant of connection, queue and caller; `total` is everything that has
been or will be sent. -/
structure Inv (m total : List UInt8) (caller : CallerPc) (c : TcpConnection) : Prop where
  output : c.OutputInv
  orderly : c.socket_.Orderly
  bytes : c.stream ++ queuedBytes c.loop_.backlog ++ owed m caller = total
  queue : QueueInv caller c
  fit : FitPieces c.loop_.backlog

/-- The loop thread is in one place at a time. -/
structure LoopInv (s : System) : Prop where
  idle : s.conn.loop_.callingPendingFunctors_ = false → s.conn.loop_.functors = []
  mid : s.midWrite ≠ none → s.conn.loop_.callingPendingFunctors_ = false
  drained : s.midWrite = some true → s.conn.channel_.isWriting = false

/-! ## The queue -/

theorem queuedBytes_append (backlog queued : List ConnFunctor) :
    queuedBytes (backlog ++ queued) = queuedBytes backlog ++ queuedBytes queued :=
  List.flatMap_append

theorem queuedBytes_of_none {queued : List ConnFunctor}
    (h : ∀ f ∈ queued, functorMessage f = none) : queuedBytes queued = [] := by
  rw [queuedBytes, List.flatMap_eq_nil_iff]
  intro f hf
  rw [h f hf]
  rfl

theorem functorMessage_of_isCallback {f : ConnFunctor} (hf : f.IsCallback) :
    functorMessage f = none := by
  cases f with
  | sendInLoop message => exact hf.elim
  | shutdownInLoop => exact hf.elim
  | writeCompleteCallback => rfl
  | highWaterMarkCallback len => rfl

theorem FitPieces.append {backlog queued : List ConnFunctor} (h : FitPieces backlog)
    (hqueued : FitPieces queued) : FitPieces (backlog ++ queued) :=
  fun f hf => (List.mem_append.mp hf).elim (h f) (hqueued f)

theorem fitPieces_of_none {queued : List ConnFunctor}
    (hnone : ∀ f ∈ queued, functorMessage f = none) : FitPieces queued := by
  intro f hf message hmessage
  rw [hnone f hf] at hmessage
  exact absurd hmessage (by simp)

theorem fitPieces_sendInLoop {m : List UInt8} (hm : m.length < 2 ^ 31) :
    FitPieces [.sendInLoop m] := by
  intro f hf message hmessage
  obtain rfl := List.mem_singleton.mp hf
  obtain rfl : m = message := Option.some.inj hmessage
  exact hm

/-- Functors behind the queue that send nothing disturb no order. -/
theorem finLast_append_of_none {backlog queued : List ConnFunctor} (h : FinLast backlog)
    (hnone : ∀ f ∈ queued, functorMessage f = none) : FinLast (backlog ++ queued) := by
  refine List.pairwise_append.mpr ⟨h, ?_, ?_⟩
  · refine List.Pairwise.imp_of_mem ?_ (List.pairwise_of_forall (fun _ _ => trivial))
    intro _ later _ hmem _ _
    exact hnone later hmem
  · intro _ _ later hlater _
    exact hnone later hlater

/-- A queue without `shutdownInLoop` may take anything at its end. -/
theorem finLast_concat {backlog : List ConnFunctor} (h : ConnFunctor.shutdownInLoop ∉ backlog)
    (f : ConnFunctor) : FinLast (backlog ++ [f]) := by
  refine List.pairwise_append.mpr ⟨?_, List.pairwise_singleton _ _, ?_⟩
  · refine List.Pairwise.imp_of_mem ?_ (List.pairwise_of_forall (fun _ _ => trivial))
    intro earlier _ hmem _ _ heq
    exact absurd (heq ▸ hmem) h
  · intro earlier hmem _ _ heq
    exact absurd (heq ▸ hmem) h

section Steps

variable {m total : List UInt8} {caller : CallerPc} {c c' : TcpConnection}

theorem backlog_of_sameControl (h : TcpConnection.SameControl c c') :
    ∃ queued, c'.loop_.backlog = c.loop_.backlog ++ queued ∧ ∀ f ∈ queued, f.IsCallback := by
  obtain ⟨queued, hq, hcb⟩ := h.pending
  refine ⟨queued, ?_, hcb⟩
  rw [EventLoop.backlog, EventLoop.backlog, h.batch, hq, List.append_assoc]

theorem queuedBytes_of_sameControl (h : TcpConnection.SameControl c c') :
    queuedBytes c'.loop_.backlog = queuedBytes c.loop_.backlog := by
  obtain ⟨queued, hbacklog, hcb⟩ := backlog_of_sameControl h
  rw [hbacklog, queuedBytes_append,
    queuedBytes_of_none fun f hf => functorMessage_of_isCallback (hcb f hf), List.append_nil]

theorem FitPieces.of_sameControl (hfit : FitPieces c.loop_.backlog)
    (h : TcpConnection.SameControl c c') : FitPieces c'.loop_.backlog := by
  obtain ⟨queued, hbacklog, hcb⟩ := backlog_of_sameControl h
  rw [hbacklog]
  exact hfit.append (fitPieces_of_none fun f hf => functorMessage_of_isCallback (hcb f hf))

/-- What is left of a queue whose first functor is taken off. -/
theorem FitPieces.pop {f : ConnFunctor} {rest : List ConnFunctor}
    (hfit : FitPieces c.loop_.backlog) (hbatch : c.loop_.functors = f :: rest) :
    FitPieces (withLoop c { c.loop_ with functors := rest }).loop_.backlog := by
  intro g hg
  apply hfit g
  rw [EventLoop.backlog, hbatch]
  exact List.mem_cons_of_mem f hg

/-- A step of the output side that does not close the write side keeps the queue
invariant. -/
theorem QueueInv.of_sameControl (h : QueueInv caller c)
    (hcontrol : TcpConnection.SameControl c c')
    (hshut : c'.socket_.isShut = c.socket_.isShut)
    (hquiet : c'.socket_.isShut = true → c'.channel_.isWriting = false) : QueueInv caller c' := by
  obtain ⟨queued, hbacklog, hcb⟩ := backlog_of_sameControl hcontrol
  have hnone : ∀ f ∈ queued, functorMessage f = none :=
    fun f hf => functorMessage_of_isCallback (hcb f hf)
  have hmem : ConnFunctor.shutdownInLoop ∈ c'.loop_.backlog ↔
      ConnFunctor.shutdownInLoop ∈ c.loop_.backlog := by
    rw [hbacklog, List.mem_append, or_iff_left (hcb ConnFunctor.shutdownInLoop)]
  refine ⟨?_, ?_, ?_⟩
  · have hphase := h.phase
    cases caller <;> simpa only [CallerInv, hcontrol.state, hshut, hmem] using hphase
  · rw [hbacklog]
    exact finLast_append_of_none h.order hnone
  · intro hs
    refine ⟨hquiet hs, ?_⟩
    intro f hf
    rw [hbacklog] at hf
    rcases List.mem_append.mp hf with hf | hf
    · exact (h.shut (hshut ▸ hs)).2 f hf
    · exact hnone f hf

/-- Running the first functor of the batch takes it off the queue. -/
theorem QueueInv.pop {f : ConnFunctor} {rest : List ConnFunctor} (h : QueueInv caller c)
    (hbatch : c.loop_.functors = f :: rest) :
    QueueInv caller (withLoop c { c.loop_ with functors := rest }) := by
  have hbacklog : c.loop_.backlog = f :: (rest ++ c.loop_.pendingFunctors_) := by
    rw [EventLoop.backlog, hbatch]
    rfl
  have hsub : ∀ g ∈ rest ++ c.loop_.pendingFunctors_, g ∈ c.loop_.backlog := by
    intro g hg
    rw [hbacklog]
    exact List.mem_cons_of_mem f hg
  refine ⟨?_, ?_, fun hs => ⟨(h.shut hs).1, fun g hg => (h.shut hs).2 g (hsub g hg)⟩⟩
  · have hphase := h.phase
    cases caller with
    | sendTest | sendQueue | shutdownTest | shutdownSet =>
        exact ⟨hphase.1, hphase.2.1, fun hmem => hphase.2.2 (hsub _ hmem)⟩
    | shutdownQueue => exact ⟨hphase.1, fun hmem => hphase.2 (hsub _ hmem)⟩
    | finished => exact hphase
  · have horder := h.order
    rw [hbacklog] at horder
    exact (List.pairwise_cons.mp horder).2

/-- While something is buffered, the write side is open. -/
theorem QueueInv.open_of_writing (h : QueueInv caller c) (hwr : c.channel_.isWriting = true) :
    c.socket_.isShut = false := by
  by_contra hs
  rw [(h.shut (by simpa using hs)).1] at hwr
  exact absurd hwr (by simp)

/-- While a message is queued, the write side is open. -/
theorem QueueInv.open_of_message (h : QueueInv caller c) {message : List UInt8}
    (hmem : ConnFunctor.sendInLoop message ∈ c.loop_.backlog) : c.socket_.isShut = false := by
  by_contra hs
  have := (h.shut (by simpa using hs)).2 _ hmem
  exact absurd this (by simp [functorMessage])

/-- Closing the write side when no message is queued. -/
theorem Inv.shutdownInLoop (h : Inv m total caller c) (hstate : c.state_ = .kDisconnecting)
    (hnone : ∀ f ∈ c.loop_.backlog, functorMessage f = none) :
    Inv m total caller c.shutdownInLoop := by
  cases hwr : c.channel_.isWriting with
  | true =>
      rw [TcpConnection.shutdownInLoop_spec h.output, hwr]
      exact h
  | false =>
      rw [TcpConnection.shutdownInLoop_spec h.output, hwr]
      refine ⟨⟨h.output.buffer, h.output.writing⟩, h.orderly.shutdownWrite [], ?_, ⟨?_,
        h.queue.order, fun _ => ⟨hwr, hnone⟩⟩, h.fit⟩
      · simpa [TcpConnection.stream] using h.bytes
      · have hphase := h.queue.phase
        cases caller with
        | sendTest | sendQueue | shutdownTest | shutdownSet =>
            exact absurd (hphase.1.symm.trans hstate) (by simp)
        | shutdownQueue => exact hphase
        | finished => exact hphase

/-- Once the write side is closed, everything has been handed to the kernel. -/
theorem Inv.accepted_eq (h : Inv m total caller c) (hshut : c.socket_.isShut = true) :
    c.socket_.accepted = total := by
  obtain ⟨hquiet, hnone⟩ := h.queue.shut hshut
  have howed : owed m caller = [] := by
    have hphase := h.queue.phase
    cases caller with
    | sendTest | sendQueue => exact absurd hphase.2.1 (by simp [hshut])
    | shutdownTest | shutdownSet | shutdownQueue | finished => rfl
  have hbytes := h.bytes
  rw [queuedBytes_of_none hnone, howed, TcpConnection.stream,
    h.output.contents_eq_nil hquiet] at hbytes
  simpa using hbytes

/-- `sendInLoop` of a queued message, taken off the queue. -/
theorem inv_sendInLoop {message : List UInt8} {rest : List ConnFunctor} {w : WriteResult}
    (h : Inv m total caller c) (hlive : c.state_ ≠ .kDisconnected)
    (hbatch : c.loop_.functors = .sendInLoop message :: rest)
    (hw : Writable c.socket_ w (StringPiece.ofString message).toSizeT) :
    ∃ c', (withLoop c { c.loop_ with functors := rest }).sendPieceInLoop (.ofString message) w =
        .ok c' ∧
      Inv m total caller c' ∧ c'.loop_.functors = rest ∧
      c'.loop_.callingPendingFunctors_ = c.loop_.callingPendingFunctors_ := by
  have hmem : ConnFunctor.sendInLoop message ∈ c.loop_.backlog := by
    rw [EventLoop.backlog, hbatch]
    exact List.mem_cons_self
  have hopen : c.socket_.isShut = false := h.queue.open_of_message hmem
  have hlt : message.length < 2 ^ 31 := h.fit _ hmem message rfl
  rw [toSizeT_of_lt hlt] at hw
  rw [TcpConnection.sendPieceInLoop_of_lt _ hlt]
  have hpipe : w ≠ .failed .EPIPE := fun heq => absurd (hw.2 heq) (by simp [hopen])
  have hout : (withLoop c { c.loop_ with functors := rest }).OutputInv :=
    ⟨h.output.buffer, h.output.writing⟩
  obtain ⟨c', hc', hout', hcontrol, hsock, hstream⟩ :=
    TcpConnection.sendInLoop_spec hout hlive hw.1
  have hopen' : c'.socket_.isShut = false := by
    rw [hsock]
    split
    · exact hopen
    · rw [Socket.isShut_write]
      exact hopen
  refine ⟨c', hc', ⟨hout', Socket.orderly_of_not_shut hopen', ?_, ?_,
    (h.fit.pop hbatch).of_sameControl hcontrol⟩, hcontrol.batch, hcontrol.calling⟩
  · have hbytes := h.bytes
    rw [EventLoop.backlog, hbatch] at hbytes
    rw [hstream hpipe, queuedBytes_of_sameControl hcontrol, ← hbytes]
    simp [withLoop, EventLoop.backlog, queuedBytes, functorMessage, TcpConnection.stream]
  · refine (h.queue.pop hbatch).of_sameControl hcontrol (hopen'.trans hopen.symm) ?_
    intro hs
    exact absurd hs (by simp [hopen'])

/-- A functor other than a message adds nothing to the bytes that will be sent. -/
theorem queuedBytes_cons_of_none {f : ConnFunctor} (hf : functorMessage f = none)
    (rest : List ConnFunctor) : queuedBytes (f :: rest) = queuedBytes rest := by
  simp [queuedBytes, hf]

/-- Taking a functor that sends nothing off the queue. -/
theorem Inv.pop {f : ConnFunctor} {rest : List ConnFunctor} (h : Inv m total caller c)
    (hf : functorMessage f = none) (hbatch : c.loop_.functors = f :: rest) :
    Inv m total caller (withLoop c { c.loop_ with functors := rest }) := by
  refine ⟨⟨h.output.buffer, h.output.writing⟩, h.orderly, ?_, h.queue.pop hbatch,
    h.fit.pop hbatch⟩
  have hbytes := h.bytes
  rw [EventLoop.backlog, hbatch, List.cons_append, queuedBytes_cons_of_none hf] at hbytes
  exact hbytes

/-- A queued `shutdownInLoop` is the last thing that matters in the queue, and the
caller is done. -/
theorem Inv.of_head_shutdown {rest : List ConnFunctor} (h : Inv m total caller c)
    (hbatch : c.loop_.functors = .shutdownInLoop :: rest) :
    c.state_ = .kDisconnecting ∧
      ∀ f ∈ rest ++ c.loop_.pendingFunctors_, functorMessage f = none := by
  have hbacklog : c.loop_.backlog = .shutdownInLoop :: (rest ++ c.loop_.pendingFunctors_) := by
    rw [EventLoop.backlog, hbatch]
    rfl
  have hmem : ConnFunctor.shutdownInLoop ∈ c.loop_.backlog := by
    rw [hbacklog]
    exact List.mem_cons_self
  constructor
  · have hphase := h.queue.phase
    cases caller with
    | sendTest | sendQueue | shutdownTest | shutdownSet => exact absurd hmem hphase.2.2
    | shutdownQueue => exact absurd hmem hphase.2
    | finished => exact hphase
  · have horder := h.queue.order
    rw [hbacklog] at horder
    intro f hf
    exact (List.pairwise_cons.mp horder).1 f hf rfl

/-- Running the next functor of a batch. -/
theorem inv_runFunctor {f : ConnFunctor} {rest : List ConnFunctor} {w : WriteResult}
    (h : Inv m total caller c) (hlive : c.state_ ≠ .kDisconnected)
    (hbatch : c.loop_.functors = f :: rest)
    (hw : ∀ message ∈ functorMessage f,
      Writable c.socket_ w (StringPiece.ofString message).toSizeT) :
    ∃ c', runFunctor (withLoop c { c.loop_ with functors := rest }) w f = .ok c' ∧
      Inv m total caller c' ∧ c'.loop_.functors = rest ∧
      c'.loop_.callingPendingFunctors_ = c.loop_.callingPendingFunctors_ := by
  cases f with
  | sendInLoop message => exact inv_sendInLoop h hlive hbatch (hw message rfl)
  | shutdownInLoop =>
      obtain ⟨hstate, hnone⟩ := h.of_head_shutdown hbatch
      have hpop := h.pop rfl hbatch
      have hcontrol := TcpConnection.shutdownInLoop_control
        (withLoop c { c.loop_ with functors := rest })
      exact ⟨_, rfl, hpop.shutdownInLoop hstate hnone, hcontrol.batch, hcontrol.calling⟩
  | writeCompleteCallback => exact ⟨_, rfl, h.pop rfl hbatch, rfl, rfl⟩
  | highWaterMarkCallback len => exact ⟨_, rfl, h.pop rfl hbatch, rfl, rfl⟩

/-- A `POLLOUT` event, up to the test of `state_`. -/
theorem inv_writeOutput {w : WriteResult} (h : Inv m total caller c)
    (hwr : c.channel_.isWriting = true)
    (hw : w.Possible c.outputBuffer_.readableBytes) :
    ∃ c' drained, c.writeOutput w = .ok (c', drained) ∧ Inv m total caller c' ∧
      TcpConnection.SameControl c c' ∧ (drained = true → c'.channel_.isWriting = false) := by
  obtain ⟨c', drained, hc', hout, hcontrol, hsock, hstream, hdrained⟩ :=
    TcpConnection.writeOutput_spec h.output hw
  have hopen := h.queue.open_of_writing hwr
  have hopen' : c'.socket_.isShut = false := by
    rw [hsock, hwr, if_pos rfl, Socket.isShut_write, hopen]
  refine ⟨c', drained, hc', ⟨hout, Socket.orderly_of_not_shut hopen', ?_, ?_,
    h.fit.of_sameControl hcontrol⟩, hcontrol, fun hd => (hdrained.mp hd).2⟩
  · rw [hstream, queuedBytes_of_sameControl hcontrol, h.bytes]
  · refine h.queue.of_sameControl hcontrol (hopen'.trans hopen.symm) ?_
    intro hs
    exact absurd hs (by simp [hopen'])

/-- The connection is never seen disconnected. -/
theorem Inv.live (h : Inv m total caller c) : c.state_ ≠ .kDisconnected := by
  have hphase := h.queue.phase
  cases caller with
  | sendTest | sendQueue | shutdownTest | shutdownSet | shutdownQueue =>
      rw [hphase.1]
      simp
  | finished =>
      rw [show c.state_ = .kDisconnecting from hphase]
      simp

/-- The calling thread's steps. -/
theorem inv_callerStep {s : System} (hm : m.length < 2 ^ 31) (h : Inv m total s.caller s.conn) :
    Inv m total (callerStep m s).caller (callerStep m s).conn := by
  obtain ⟨conn, pc, mid⟩ := s
  have hbytes := h.bytes
  have hphase := h.queue.phase
  cases pc with
  | sendTest =>
      have hstate : conn.state_ = .kConnected := hphase.1
      simp only [callerStep, hstate, if_true]
      exact ⟨h.output, h.orderly, hbytes, ⟨hphase, h.queue.order, h.queue.shut⟩, h.fit⟩
  | sendQueue =>
      refine ⟨⟨h.output.buffer, h.output.writing⟩, h.orderly, ?_, ⟨?_, ?_, ?_⟩, ?_⟩
      · simpa [callerStep, TcpConnection.queueInLoop, TcpConnection.stream, queuedBytes,
          functorMessage, owed] using hbytes
      · refine ⟨hphase.1, hphase.2.1, ?_⟩
        simpa [callerStep, TcpConnection.queueInLoop] using hphase.2.2
      · simpa [callerStep, TcpConnection.queueInLoop] using finLast_concat hphase.2.2 _
      · intro hs
        exact absurd hs (by simpa [callerStep, TcpConnection.queueInLoop] using hphase.2.1)
      · simpa [callerStep, TcpConnection.queueInLoop] using h.fit.append (fitPieces_sendInLoop hm)
  | shutdownTest =>
      have hstate : conn.state_ = .kConnected := hphase.1
      simp only [callerStep, hstate, if_true]
      exact ⟨h.output, h.orderly, hbytes, ⟨hphase, h.queue.order, h.queue.shut⟩, h.fit⟩
  | shutdownSet =>
      exact ⟨⟨h.output.buffer, h.output.writing⟩, h.orderly, hbytes,
        ⟨⟨rfl, hphase.2.2⟩, h.queue.order, h.queue.shut⟩, h.fit⟩
  | shutdownQueue =>
      have hnone : ∀ f ∈ [ConnFunctor.shutdownInLoop], functorMessage f = none := by
        intro f hf
        rw [List.mem_singleton.mp hf]
        rfl
      refine ⟨⟨h.output.buffer, h.output.writing⟩, h.orderly, ?_, ⟨hphase.1, ?_, ?_⟩, ?_⟩
      · simpa [callerStep, TcpConnection.queueInLoop, TcpConnection.stream, queuedBytes,
          functorMessage, owed] using hbytes
      · simpa [callerStep, TcpConnection.queueInLoop] using finLast_concat hphase.2 _
      · intro hs
        obtain ⟨hquiet, hqueued⟩ := h.queue.shut hs
        refine ⟨hquiet, ?_⟩
        intro f hf
        simp only [callerStep, TcpConnection.queueInLoop, EventLoop.backlog_queueInLoop,
          List.mem_append, List.mem_singleton] at hf
        rcases hf with hf | rfl
        · exact hqueued f hf
        · rfl
      · simpa [callerStep, TcpConnection.queueInLoop] using h.fit.append (fitPieces_of_none hnone)
  | finished => exact h

/-- The test of `state_` in `handleWrite`, when it does not close the write side over a
queued message. -/
theorem inv_shutdownIfDisconnecting {m total : List UInt8} {caller : CallerPc} {c : TcpConnection}
    (h : Inv m total caller c)
    (hqueue : c.state_ = .kDisconnecting → ∀ f ∈ c.loop_.backlog, functorMessage f = none) :
    Inv m total caller c.shutdownIfDisconnecting ∧ c.SameControl c.shutdownIfDisconnecting := by
  unfold TcpConnection.shutdownIfDisconnecting
  split
  case isTrue hstate =>
    exact ⟨h.shutdownInLoop hstate (hqueue hstate), TcpConnection.shutdownInLoop_control _⟩
  case isFalse => exact ⟨h, .of_loop_eq rfl rfl⟩

/-- Taking the queue does not change what is to run. -/
theorem inv_swapPending {m total : List UInt8} {caller : CallerPc} {c : TcpConnection}
    (h : Inv m total caller c) (hbatch : c.loop_.functors = []) :
    Inv m total caller (withLoop c c.loop_.swapPending) := by
  have hsame : c.loop_.swapPending.backlog = c.loop_.backlog := EventLoop.backlog_swapPending hbatch
  refine ⟨⟨h.output.buffer, h.output.writing⟩, h.orderly, ?_, ⟨?_, ?_, ?_⟩, ?_⟩
  · simpa [withLoop, hsame, TcpConnection.stream] using h.bytes
  · have hphase := h.queue.phase
    cases caller <;> simpa only [CallerInv, withLoop, hsame] using hphase
  · simpa [withLoop, hsame] using h.queue.order
  · simpa [withLoop, hsame] using h.queue.shut
  · simpa [withLoop, hsame] using h.fit

end Steps

/-! ## Runs -/

/-- The step that must not happen: `handleWrite` has emptied the output buffer, it
reads `kDisconnecting`, and a message is still queued. -/
def NoOvertaking (s : System) (a : Action) : Prop :=
  a = .testState → s.midWrite = some true → s.conn.state_ = .kDisconnecting →
    ∀ f ∈ s.conn.loop_.pendingFunctors_, functorMessage f = none

instance (s : System) (a : Action) : Decidable (NoOvertaking s a) :=
  inferInstanceAs (Decidable (_ → _ → _ → _))

/-- The schedules in which it does not. -/
def goodMachine (m : List UInt8) : Machine System Action := (machine m).restrict NoOvertaking

instance (m : List UInt8) (s : System) (a : Action) : Decidable ((goodMachine m).legal s a) :=
  inferInstanceAs (Decidable (Legal s a ∧ NoOvertaking s a))

/-- Every step of a good schedule succeeds and keeps both invariants. -/
theorem step_inv {m total : List UInt8} {s : System} {a : Action} (hm : m.length < 2 ^ 31)
    (h : Inv m total s.caller s.conn) (hloop : LoopInv s) (ha : Legal s a)
    (hgood : NoOvertaking s a) :
    ∃ s', step m s a = .ok s' ∧ Inv m total s'.caller s'.conn ∧ LoopInv s' := by
  cases a with
  | caller =>
      refine ⟨_, rfl, inv_callerStep hm h, ?_⟩
      obtain ⟨conn, pc, mid⟩ := s
      cases pc <;> exact ⟨hloop.idle, hloop.mid, hloop.drained⟩
  | writeOutput w =>
      obtain ⟨_, hcalling, hwr, hw⟩ := ha
      obtain ⟨c', drained, hc', hinv, hcontrol, hdrained⟩ := inv_writeOutput h hwr hw.1
      refine ⟨⟨c', s.caller, some drained⟩, by simp [step, hc'], hinv, ?_, ?_, ?_⟩
      · intro _
        exact hcontrol.batch.trans (hloop.idle hcalling)
      · intro _
        exact hcontrol.calling.trans hcalling
      · intro hd
        exact hdrained (Option.some.inj hd)
  | testState =>
      have hbatch := hloop.idle (hloop.mid ha)
      have hloop' : ∀ c, TcpConnection.SameControl s.conn c → LoopInv ⟨c, s.caller, none⟩ :=
        fun c hcontrol => ⟨fun _ => hcontrol.batch.trans hbatch, fun hne => absurd rfl hne,
          fun hne => absurd hne (by simp)⟩
      rcases hmid : s.midWrite with _ | drained
      · exact absurd hmid ha
      cases drained with
      | false =>
          exact ⟨{ s with midWrite := none }, by simp [step, hmid], h,
            hloop' _ (.of_loop_eq rfl rfl)⟩
      | true =>
          have hqueue : s.conn.state_ = .kDisconnecting →
              ∀ f ∈ s.conn.loop_.backlog, functorMessage f = none := by
            intro hstate
            rw [EventLoop.backlog, hbatch]
            exact hgood rfl hmid hstate
          obtain ⟨hinv, hcontrol⟩ := inv_shutdownIfDisconnecting h hqueue
          exact ⟨{ s with conn := s.conn.shutdownIfDisconnecting, midWrite := none },
            by simp [step, hmid], hinv, hloop' _ hcontrol⟩
  | swapPending =>
      refine ⟨_, rfl, inv_swapPending h (hloop.idle ha.2), ?_⟩
      exact ⟨fun hf => absurd hf (by simp [withLoop, EventLoop.swapPending]),
        fun hne => absurd ha.1 hne, hloop.drained⟩
  | runFunctor w =>
      rcases hbatch : s.conn.loop_.functors with _ | ⟨f, rest⟩
      · exact ⟨s, by simp [step, hbatch], h, hloop⟩
      · have hw : ∀ message ∈ functorMessage f,
            Writable s.conn.socket_ w (StringPiece.ofString message).toSizeT := by
          have := ha.2
          rw [hbatch] at this
          exact this
        obtain ⟨c', hc', hinv, _, hcalling⟩ := inv_runFunctor h h.live hbatch hw
        refine ⟨{ s with conn := c' }, by simp [step, hbatch, hc'], hinv, ?_, ?_, ?_⟩
        · intro hf
          exact absurd (hcalling.symm.trans hf) (by simp [ha.1])
        · intro hne
          exact absurd (hloop.mid hne) (by simp [ha.1])
        · intro hd
          have hne : s.midWrite ≠ none := fun hnone => absurd (hnone.symm.trans hd) (by simp)
          exact absurd (hloop.mid hne) (by simp [ha.1])
  | finishPending =>
      exact ⟨_, rfl, ⟨⟨h.output.buffer, h.output.writing⟩, h.orderly, h.bytes,
        ⟨h.queue.phase, h.queue.order, h.queue.shut⟩, h.fit⟩, fun _ => ha.2, fun _ => rfl,
        hloop.drained⟩

/-- A connected connection with any earlier output, on an idle loop with any
earlier messages queued (each shorter than 2^31 bytes). -/
structure Ready (c : TcpConnection) : Prop where
  connected : c.state_ = .kConnected
  output : c.OutputInv
  notShut : c.socket_.isShut = false
  idle : c.loop_.callingPendingFunctors_ = false ∧ c.loop_.functors = []
  sends : ConnFunctor.shutdownInLoop ∉ c.loop_.pendingFunctors_
  fit : FitPieces c.loop_.pendingFunctors_

/-- For a message `m` shorter than 2^31 bytes: in every interleaving in which `handleWrite`
never closes the write side over a queued message, no write is attempted after
`shutdownWrite`; once it has been issued, the kernel has accepted the earlier output, the
earlier queued messages and `m`. -/
theorem no_write_after_shutdownWrite {m : List UInt8} (hm : m.length < 2 ^ 31)
    {c : TcpConnection} (hc : Ready c)
    {as : List Action} (hlegal : (goodMachine m).LegalRun ⟨c, .sendTest, none⟩ as) :
    ∃ s, (machine m).run ⟨c, .sendTest, none⟩ as = .ok s ∧ s.conn.socket_.Orderly ∧
      (s.conn.socket_.isShut = true → s.conn.socket_.accepted =
        c.stream ++ queuedBytes c.loop_.pendingFunctors_ ++ m) := by
  have hbacklog : c.loop_.backlog = c.loop_.pendingFunctors_ := by
    rw [EventLoop.backlog, hc.idle.2, List.nil_append]
  have hstart : Inv m (c.stream ++ queuedBytes c.loop_.pendingFunctors_ ++ m) .sendTest c := by
    refine ⟨hc.output, Socket.orderly_of_not_shut hc.notShut, by rw [hbacklog]; rfl,
      ⟨⟨hc.connected, hc.notShut, hbacklog ▸ hc.sends⟩, ?_, ?_⟩, hbacklog ▸ hc.fit⟩
    · refine List.Pairwise.imp_of_mem ?_ (List.pairwise_of_forall (fun _ _ => trivial))
      intro earlier _ hmem _ _ heq
      exact absurd (hbacklog ▸ heq ▸ hmem) hc.sends
    · intro hs
      exact absurd hs (by simp [hc.notShut])
  have hloop : LoopInv ⟨c, .sendTest, none⟩ :=
    ⟨fun _ => hc.idle.2, fun hne => absurd rfl hne, fun hne => absurd hne (by simp)⟩
  obtain ⟨s, hrun, hinv, _⟩ := @Machine.run_invariant _ _ (goodMachine m)
    (fun s => Inv m (c.stream ++ queuedBytes c.loop_.pendingFunctors_ ++ m) s.caller s.conn ∧
      LoopInv s)
    (fun s a hs ha => step_inv hm hs.1 hs.2 ha.1 ha.2) _ ⟨hstart, hloop⟩ _ hlegal
  rw [goodMachine, Machine.run_restrict] at hrun
  exact ⟨s, hrun, hinv.orderly, hinv.accepted_eq⟩

/-- The functors run before the output drains: `[2]` joins the earlier byte in the
output buffer, and the write side is closed behind both. -/
def orderlyRun : List Action :=
  [.caller, .caller, .caller, .caller, .caller, .swapPending, .runFunctor (.wrote 0),
    .runFunctor (.wrote 0), .finishPending, .writeOutput (.wrote 2), .testState]

theorem no_write_after_shutdownWrite_orderlyRun :
    (goodMachine [2]).LegalRun ⟨backlogged, .sendTest, none⟩ orderlyRun ∧
      ∃ s, (machine [2]).run ⟨backlogged, .sendTest, none⟩ orderlyRun = .ok s ∧
        s.conn.socket_.Orderly ∧ (s.conn.socket_.isShut = true → s.conn.socket_.accepted =
          backlogged.stream ++ queuedBytes backlogged.loop_.pendingFunctors_ ++ [2]) := by
  have hlegal : (goodMachine [2]).LegalRun ⟨backlogged, .sendTest, none⟩ orderlyRun := by
    decide +kernel
  have houtput : backlogged.OutputInv := by
    refine ⟨⟨?_, ?_, ?_⟩, ?_⟩ <;> decide +kernel
  have hfit : FitPieces backlogged.loop_.pendingFunctors_ :=
    fun f hf => absurd hf List.not_mem_nil
  have hready : Ready backlogged := ⟨rfl, houtput, rfl, ⟨rfl, rfl⟩, List.not_mem_nil, hfit⟩
  exact ⟨hlegal, no_write_after_shutdownWrite (by decide) hready hlegal⟩

end TcpShutdown

end Muduo.Net
