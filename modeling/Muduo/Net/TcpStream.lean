/-
  Net/TcpStream.lean --- the output stream of a connection over whole runs.

  A run is any sequence of `sendInLoop` calls, `POLLOUT` events, the two halves of
  `shutdown()` and the peer's close, in the order in which the loop thread
  executes them; every `write(2)` returns whatever the environment likes.  The
  single steps are `Action`s, whose `sendInLoop` takes a pointer and a `size_t`.
  `send()` in the loop thread calls it so; `send()` in another thread queues
  `sendInLoop(const StringPiece &)`, whose length is an `int`.  A `Call` tells the two
  apart.

  `output_stream_integrity` is what `OutputInv` and the specifications of the single
  steps add up to, for runs whose queued messages are shorter than 2^31 bytes.
  `queued_message_lost` is a longer one, of which nothing is sent.
-/
import Muduo.Foundation.Machine
import Muduo.Net.TcpConnection

set_option autoImplicit false

namespace Muduo.Net.TcpStream

open Muduo.Foundation

/-! ## Runs -/

/-- One step of the loop thread that concerns the output side. -/
inductive Action where
  /-- `sendInLoop(data, len)` -/
  | sendInLoop (data : List UInt8) (w : WriteResult)
  | handleWrite (w : WriteResult)
  /-- `shutdown()` up to `setState(kDisconnecting)` -/
  | beginShutdown
  /-- the rest of `shutdown()`, called at once or run as a queued functor -/
  | shutdownInLoop
  | handleClose
  deriving DecidableEq, Repr

/-- `shutdown()` up to `setState(kDisconnecting)`. -/
def beginShutdown (c : TcpConnection) : TcpConnection :=
  if c.state_ = .kConnected then c.setState .kDisconnecting else c

/-- What a step does to the connection. -/
def step (c : TcpConnection) : Action → Exec TcpConnection
  | .sendInLoop data w => c.sendInLoop data w
  | .handleWrite w => c.handleWrite w
  | .beginShutdown => .ok (beginShutdown c)
  | .shutdownInLoop => .ok c.shutdownInLoop
  | .handleClose => c.handleClose

/-- `write(2)` returns a count it can return, and does not report a broken pipe to
`sendInLoop`; a connection is closed at most once. -/
def Legal (c : TcpConnection) : Action → Prop
  | .sendInLoop data w => w.Possible data.length ∧ w ≠ .failed .EPIPE
  | .handleWrite w => w.Possible c.outputBuffer_.readableBytes
  | .beginShutdown | .shutdownInLoop => True
  | .handleClose => c.state_ = .kConnected ∨ c.state_ = .kDisconnecting

/-- The output side of one connection. -/
def machine : Machine TcpConnection Action where
  step := step
  legal := Legal

instance (c : TcpConnection) (a : Action) : Decidable (machine.legal c a) :=
  match a with
  | .sendInLoop _ _ => inferInstanceAs (Decidable (_ ∧ _))
  | .handleWrite w => inferInstanceAs (Decidable (w.Possible _))
  | .beginShutdown | .shutdownInLoop => isTrue trivial
  | .handleClose => inferInstanceAs (Decidable (_ ∨ _))

/-- The message of a step, if it sends one. -/
def Action.message : Action → List UInt8
  | .sendInLoop data _ => data
  | _ => []

/-- The messages of all `sendInLoop` calls of a run, in execution order. -/
def messages (as : List Action) : List UInt8 := as.flatMap Action.message

/-- A connection with the user's settings, before `connectEstablished`. -/
def configured (fd : Int) (highWaterMark : Nat) (writeComplete highWater : Bool) :
    TcpConnection :=
  { TcpConnection.new fd with
    highWaterMark_ := highWaterMark
    writeCompleteCallback_ := writeComplete
    highWaterMarkCallback_ := highWater }

/-! ## The invariant -/

/-- Every `shutdownWrite` was issued with an empty output buffer. -/
def CleanShutdown (s : Socket) : Prop :=
  ∀ unsent, SockCall.shutdownWrite unsent ∈ s.calls → unsent = []

theorem CleanShutdown.write {s : Socket} (h : CleanShutdown s) (data : List UInt8)
    (w : WriteResult) : CleanShutdown (s.write data w) := by
  intro unsent hmem
  simp only [Socket.write, List.mem_append, List.mem_singleton, reduceCtorEq, or_false] at hmem
  exact h unsent hmem

theorem CleanShutdown.shutdownWrite {s : Socket} (h : CleanShutdown s) :
    CleanShutdown (s.shutdownWrite []) := by
  intro unsent hmem
  simp only [Socket.shutdownWrite, List.mem_append, List.mem_singleton,
    SockCall.shutdownWrite.injEq] at hmem
  exact hmem.elim (h unsent) id

/-- What holds of a live connection after the steps `done`. -/
structure Live (done : List Action) (c : TcpConnection) : Prop where
  output : c.OutputInv
  stream : c.stream = messages done
  clean : CleanShutdown c.socket_

/-- The invariant of runs: a closed connection only matters in that its channel
is disabled, so that later events do nothing. -/
def Inv (done : List Action) (c : TcpConnection) : Prop :=
  (c.state_ ≠ .kDisconnected → Live done c) ∧
    (c.state_ = .kDisconnected → c.channel_.isWriting = false)

theorem messages_append (done : List Action) (a : Action) :
    messages (done ++ [a]) = messages done ++ a.message := by
  simp [messages]

/-- A live step that keeps the connection live establishes the invariant. -/
theorem Inv.of_live {done : List Action} {c : TcpConnection} (hlive : c.state_ ≠ .kDisconnected)
    (h : Live done c) : Inv done c :=
  ⟨fun _ => h, fun hdis => absurd hdis hlive⟩

theorem Inv.of_closed {done : List Action} {c : TcpConnection} (hdis : c.state_ = .kDisconnected)
    (hquiet : c.channel_.isWriting = false) : Inv done c :=
  ⟨fun hlive => absurd hdis hlive, fun _ => hquiet⟩

theorem inv_established {fd : Int} {highWaterMark : Nat} {writeComplete highWater : Bool}
    {c : TcpConnection}
    (h : (configured fd highWaterMark writeComplete highWater).connectEstablished = .ok c) :
    Inv [] c := by
  have hc := (Except.ok.inj h).symm
  subst hc
  apply Inv.of_live (by simp [TcpConnection.setState])
  refine ⟨⟨Buffer.new_spec.1, ?_⟩, ?_, ?_⟩
  · simp [configured, TcpConnection.new, TcpConnection.setState, Buffer.new_spec.2.1]
  · simp [TcpConnection.stream, configured, TcpConnection.new, TcpConnection.setState,
      Socket.accepted, messages, Buffer.new_spec.2.1]
  · intro unsent hmem
    exact absurd hmem (by simp [configured, TcpConnection.new, TcpConnection.setState])

/-! ## One step -/

/-- `shutdownInLoop` on a live connection. -/
theorem live_shutdownInLoop {done : List Action} {c : TcpConnection} (h : Live done c) :
    Live done c.shutdownInLoop := by
  refine ⟨TcpConnection.shutdownInLoop_outputInv h.output, ?_, ?_⟩
  · rw [TcpConnection.shutdownInLoop_stream, h.stream]
  · rw [TcpConnection.shutdownInLoop_spec h.output]
    split
    · exact h.clean
    · exact h.clean.shutdownWrite

/-- `handleWrite` on a live connection: the write, then the test of `state_`. -/
theorem live_handleWrite {done : List Action} {c : TcpConnection} (h : Live done c)
    {w : WriteResult} (hw : w.Possible c.outputBuffer_.readableBytes) :
    ∃ c', c.handleWrite w = .ok c' ∧ c'.state_ = c.state_ ∧ Live done c' := by
  obtain ⟨c₁, drained, hc₁, hout, hcontrol, hsock, hstream, _⟩ :=
    TcpConnection.writeOutput_spec h.output hw
  have hclean : CleanShutdown c₁.socket_ := by
    rw [hsock]
    split
    · exact h.clean.write _ _
    · exact h.clean
  have hlive₁ : Live done c₁ := ⟨hout, hstream.trans h.stream, hclean⟩
  have hlive₂ : Live done c₁.shutdownIfDisconnecting ∧
      c₁.shutdownIfDisconnecting.state_ = c₁.state_ := by
    unfold TcpConnection.shutdownIfDisconnecting
    split
    · exact ⟨live_shutdownInLoop hlive₁, (TcpConnection.shutdownInLoop_control c₁).state⟩
    · exact ⟨hlive₁, rfl⟩
  cases drained with
  | false => exact ⟨c₁, by simp [TcpConnection.handleWrite, hc₁], hcontrol.state, hlive₁⟩
  | true =>
      exact ⟨_, by simp [TcpConnection.handleWrite, hc₁], hlive₂.2.trans hcontrol.state, hlive₂.1⟩

/-- On a closed connection `sendInLoop` gives up and the channel reports no events,
so nothing that matters changes. -/
theorem step_of_closed {done : List Action} {c : TcpConnection} {a : Action}
    (hdis : c.state_ = .kDisconnected) (hquiet : c.channel_.isWriting = false) (ha : Legal c a) :
    ∃ c', step c a = .ok c' ∧ Inv done c' := by
  cases a with
  | sendInLoop data w =>
      exact ⟨c, by simp [step, TcpConnection.sendInLoop, hdis], .of_closed hdis hquiet⟩
  | handleWrite w =>
      refine ⟨c, ?_, .of_closed hdis hquiet⟩
      simp [step, TcpConnection.handleWrite, TcpConnection.writeOutput, hquiet]
  | beginShutdown =>
      exact ⟨c, by simp [step, beginShutdown, hdis], .of_closed hdis hquiet⟩
  | shutdownInLoop =>
      refine ⟨_, rfl, .of_closed ?_ ?_⟩
      · rw [(TcpConnection.shutdownInLoop_control c).state]
        exact hdis
      · simp [TcpConnection.shutdownInLoop, hquiet]
  | handleClose =>
      rcases ha with ha | ha <;> rw [hdis] at ha <;> exact absurd ha (by simp)

/-- A step that sends nothing keeps the stream. -/
theorem Live.of_silent {done : List Action} {c : TcpConnection} {a : Action} (h : Live done c)
    (ha : a.message = []) : Live (done ++ [a]) c :=
  ⟨h.output, by rw [messages_append, ha, List.append_nil, h.stream], h.clean⟩

theorem step_of_live {done : List Action} {c : TcpConnection} {a : Action}
    (hdis : c.state_ ≠ .kDisconnected) (hlive : Live done c) (ha : Legal c a) :
    ∃ c', step c a = .ok c' ∧ Inv (done ++ [a]) c' := by
  cases a with
  | sendInLoop data w =>
      obtain ⟨c', hc', hout, hcontrol, hsock, hstream⟩ :=
        TcpConnection.sendInLoop_spec hlive.output hdis ha.1
      refine ⟨c', hc', .of_live (hcontrol.state ▸ hdis) ⟨hout, ?_, ?_⟩⟩
      · rw [hstream ha.2, hlive.stream, messages_append]
        rfl
      · rw [hsock]
        split
        · exact hlive.clean
        · exact hlive.clean.write _ _
  | handleWrite w =>
      obtain ⟨c', hc', hstate, hlive'⟩ := live_handleWrite hlive ha
      exact ⟨c', hc', .of_live (hstate ▸ hdis) (hlive'.of_silent rfl)⟩
  | beginShutdown =>
      have hstate : (beginShutdown c).state_ ≠ .kDisconnected := by
        unfold beginShutdown
        split
        · simp [TcpConnection.setState]
        · exact hdis
      have hsame : Live done (beginShutdown c) := by
        unfold beginShutdown
        split
        · exact ⟨⟨hlive.output.buffer, hlive.output.writing⟩, hlive.stream, hlive.clean⟩
        · exact hlive
      exact ⟨_, rfl, .of_live hstate (hsame.of_silent rfl)⟩
  | shutdownInLoop =>
      refine ⟨_, rfl, .of_live ?_ ((live_shutdownInLoop hlive).of_silent rfl)⟩
      rw [(TcpConnection.shutdownInLoop_control c).state]
      exact hdis
  | handleClose =>
      obtain ⟨c', hc', hstate, hchannel⟩ := TcpConnection.handleClose_spec ha
      refine ⟨c', hc', .of_closed hstate ?_⟩
      rw [hchannel, Channel.isWriting_disableAll]

/-- Every legal step succeeds and keeps the invariant. -/
theorem step_inv {done : List Action} {c : TcpConnection} {a : Action} (h : Inv done c)
    (ha : Legal c a) : ∃ c', step c a = .ok c' ∧ Inv (done ++ [a]) c' := by
  by_cases hdis : c.state_ = .kDisconnected
  · exact step_of_closed hdis (h.2 hdis) ha
  · exact step_of_live hdis (h.1 hdis) ha

/-! ## Messages sent by other threads -/

/-- A step of the loop thread, with the overload of `sendInLoop` that it calls. -/
inductive Call where
  /-- a step in which `send()` was called in the loop thread, if it sends -/
  | inLoop (a : Action)
  /-- the functor that `send()` has queued in another thread -/
  | queuedSend (message : List UInt8) (w : WriteResult)

/-- What a call does to the connection. -/
def callStep (c : TcpConnection) : Call → Exec TcpConnection
  | .inLoop a => step c a
  | .queuedSend message w => c.sendPieceInLoop (.ofString message) w

/-- As `Legal`; a queued message is written with the length of its piece. -/
def CallLegal (c : TcpConnection) : Call → Prop
  | .inLoop a => Legal c a
  | .queuedSend message w => w.Possible (StringPiece.ofString message).toSizeT ∧ w ≠ .failed .EPIPE

/-- The output side of one connection, and the messages of other threads. -/
def callMachine : Machine TcpConnection Call where
  step := callStep
  legal := CallLegal

/-- A call with the whole message, for what the stream should hold. -/
def Call.action : Call → Action
  | .inLoop a => a
  | .queuedSend message w => .sendInLoop message w

/-- The messages of all `sendInLoop` calls of a run, in execution order. -/
def callMessages (calls : List Call) : List UInt8 := messages (calls.map Call.action)

/-- On a connection that is not closed, a queued message is shorter than 2^31 bytes. -/
def FitsPiece (c : TcpConnection) : Call → Prop
  | .inLoop _ => True
  | .queuedSend message _ => c.state_ ≠ .kDisconnected → message.length < 2 ^ 31

instance (c : TcpConnection) (call : Call) :
    Decidable ((callMachine.restrict FitsPiece).legal c call) :=
  match call with
  | .inLoop a => inferInstanceAs (Decidable (machine.legal c a ∧ True))
  | .queuedSend _ _ => inferInstanceAs (Decidable ((_ ∧ _) ∧ (_ → _)))

/-- A call whose message fits does what `sendInLoop(data, len)` does with it. -/
theorem callStep_inv {done : List Call} {c : TcpConnection} {call : Call}
    (h : Inv (done.map Call.action) c) (hlegal : CallLegal c call) (hfits : FitsPiece c call) :
    ∃ c', callStep c call = .ok c' ∧ Inv ((done ++ [call]).map Call.action) c' := by
  rw [List.map_append]
  cases call with
  | inLoop a => exact step_inv h hlegal
  | queuedSend message w =>
      by_cases hdis : c.state_ = .kDisconnected
      · exact ⟨c, by rw [callStep, TcpConnection.sendPieceInLoop, if_pos hdis],
          .of_closed hdis (h.2 hdis)⟩
      · have hlt := hfits hdis
        rw [CallLegal, toSizeT_of_lt hlt] at hlegal
        rw [callStep, TcpConnection.sendPieceInLoop_of_lt c hlt]
        exact @step_inv _ c (.sendInLoop message w) h hlegal

/-- Output-stream integrity.  From an established connection, every legal run whose queued
messages are shorter than 2^31 bytes executes without a failed assertion, and as long as
the connection is not closed: what the kernel has accepted, followed by what
`outputBuffer_` holds, is the concatenation of the messages sent; `POLLOUT` is requested
exactly while the buffer is non-empty; and the write side was only ever shut down with an
empty buffer. -/
theorem output_stream_integrity {fd : Int} {highWaterMark : Nat} {writeComplete highWater : Bool}
    {c₀ : TcpConnection}
    (hstart : (configured fd highWaterMark writeComplete highWater).connectEstablished = .ok c₀)
    {calls : List Call} (hlegal : (callMachine.restrict FitsPiece).LegalRun c₀ calls) :
    ∃ c, callMachine.run c₀ calls = .ok c ∧
      (c.state_ ≠ .kDisconnected →
        c.socket_.accepted ++ c.outputBuffer_.contents = callMessages calls ∧
          (c.channel_.isWriting = true ↔ c.outputBuffer_.contents ≠ []) ∧
          ∀ unsent, SockCall.shutdownWrite unsent ∈ c.socket_.calls → unsent = []) := by
  obtain ⟨c, hrun, hinv⟩ := @Machine.run_of_step _ _ (callMachine.restrict FitsPiece)
    (fun done c => Inv (done.map Call.action) c)
    (fun _ _ _ h hcall => callStep_inv h hcall.1 hcall.2) [] c₀
    (inv_established hstart) calls hlegal
  rw [Machine.run_restrict] at hrun
  refine ⟨c, hrun, fun hlive => ?_⟩
  have h := hinv.1 hlive
  exact ⟨h.stream, h.output.writing, h.clean⟩

/-- A partial direct write, a message of another thread behind it, a refused and two
accepted writes, a shutdown that waits for the buffer, and a connection reset by the peer
(104, `ECONNRESET`). -/
def sampleRun : List Call :=
  [.inLoop (.sendInLoop [1, 2, 3] (.wrote 1)), .queuedSend [4] (.failed .EWOULDBLOCK),
    .inLoop .beginShutdown, .inLoop .shutdownInLoop, .inLoop (.handleWrite (.failed .EWOULDBLOCK)),
    .inLoop (.handleWrite (.wrote 2)), .inLoop (.handleWrite (.wrote 1)),
    .queuedSend [5] (.failed (.other 104 (by decide)))]

/-- The established connection of the sample run. -/
def sampleStart : TcpConnection :=
  { configured 7 2 true true with
    state_ := .kConnected
    channel_ := (Channel.new 7).enableReading
    userCalls := [.connectionCallback true] }

theorem output_stream_integrity_sampleRun :
    (configured 7 2 true true).connectEstablished = .ok sampleStart ∧
      (callMachine.restrict FitsPiece).LegalRun sampleStart sampleRun ∧
      ∃ c, callMachine.run sampleStart sampleRun = .ok c ∧
        (c.state_ ≠ .kDisconnected →
          c.socket_.accepted ++ c.outputBuffer_.contents = callMessages sampleRun ∧
            (c.channel_.isWriting = true ↔ c.outputBuffer_.contents ≠ []) ∧
            ∀ unsent, SockCall.shutdownWrite unsent ∈ c.socket_.calls → unsent = []) :=
  have hstart : (configured 7 2 true true).connectEstablished = .ok sampleStart := rfl
  have hlegal : (callMachine.restrict FitsPiece).LegalRun sampleStart sampleRun := by
    decide +kernel
  ⟨hstart, hlegal, output_stream_integrity hstart hlegal⟩

/-! ## A message that is too long -/

/-- A message of 4 GiB. -/
def fourGiBMessage : List UInt8 := List.replicate (2 ^ 32) 0

theorem length_fourGiBMessage : fourGiBMessage.length = 2 ^ 32 := List.length_replicate

/-- The length of the piece of 4 GiB is 0. -/
theorem toSizeT_fourGiBMessage : (StringPiece.ofString fourGiBMessage).toSizeT = 0 := by
  rw [StringPiece.toSizeT, StringPiece.size, StringPiece.ofString, length_fourGiBMessage]
  decide

/-- Of a message whose length becomes 0 nothing is sent. -/
theorem queuedSend_of_empty_piece {message : List UInt8} (hne : message ≠ [])
    (hzero : (StringPiece.ofString message).toSizeT = 0) :
    callMachine.LegalRun sampleStart [.queuedSend message (.wrote 0)] ∧
      ∃ c, callMachine.run sampleStart [.queuedSend message (.wrote 0)] = .ok c ∧
        c.state_ ≠ .kDisconnected ∧
        c.socket_.accepted ++ c.outputBuffer_.contents ≠
          callMessages [.queuedSend message (.wrote 0)] := by
  have hlive : sampleStart.state_ ≠ .kDisconnected := by decide
  have hinv : Live [] sampleStart := (@inv_established 7 2 true true sampleStart rfl).1 hlive
  obtain ⟨c, hc, _, hcontrol, _, hstream⟩ :=
    @TcpConnection.sendInLoop_spec sampleStart hinv.output hlive [] (.wrote 0) (Nat.le_refl 0)
  have hpiece : sampleStart.sendPieceInLoop (.ofString message) (.wrote 0) = .ok c := by
    rw [TcpConnection.sendPieceInLoop, if_neg hlive, hzero, if_pos (Nat.zero_le _),
      List.take_zero, hc]
  have hstep : callMachine.step sampleStart (.queuedSend message (.wrote 0)) = .ok c := hpiece
  have hlegal : CallLegal sampleStart (.queuedSend message (.wrote 0)) :=
    ⟨Nat.zero_le _, by simp⟩
  refine ⟨(Machine.legalRun_cons_of_step hstep).mpr ⟨hlegal, trivial⟩, c,
    Machine.run_cons_of_step hstep rfl, hcontrol.state ▸ hlive, ?_⟩
  have hempty : c.stream = [] := by
    rw [hstream (by simp), hinv.stream]
    rfl
  have hsent : callMessages [.queuedSend message (.wrote 0)] = message := by
    simp [callMessages, messages, Call.action, Action.message]
  rw [hsent, ← TcpConnection.stream, hempty]
  exact hne.symm

/-- Another thread sends 4 GiB on a new connection. -/
theorem queued_message_lost :
    (configured 7 2 true true).connectEstablished = .ok sampleStart ∧
      callMachine.LegalRun sampleStart [.queuedSend fourGiBMessage (.wrote 0)] ∧
      ∃ c, callMachine.run sampleStart [.queuedSend fourGiBMessage (.wrote 0)] = .ok c ∧
        c.state_ ≠ .kDisconnected ∧
        c.socket_.accepted ++ c.outputBuffer_.contents ≠
          callMessages [.queuedSend fourGiBMessage (.wrote 0)] :=
  have hne : fourGiBMessage ≠ [] := by
    apply List.ne_nil_of_length_pos
    rw [length_fourGiBMessage]
    decide
  ⟨rfl, queuedSend_of_empty_piece hne toSizeT_fourGiBMessage⟩

end Muduo.Net.TcpStream
