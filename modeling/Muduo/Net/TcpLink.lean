/-
  Net/TcpLink.lean --- two connections at the two ends of one TCP connection.

  Each end is a `TcpConnection` with its input side.  What the kernel of one end has
  accepted and the other end has not read is in transit: `readv(2)` delivers the next
  bytes of it, as many as it likes, and reports the end of the stream when nothing is in
  transit and the other end has shut down its write side or is closed.

  The steps of the output side are those of Net/TcpStream.lean, and the messages are what
  `sendInLoop(data, len)` gets.  One whose `sendInLoop` runs behind the end of the write
  side is dropped, also when `send()` was called before it; the drop keeps the order of
  the messages (`given_run`).  What `messageCallback_` sends is a step of its own behind the
  `handleRead` that called it, since sending leaves the input side alone.

  The protocol that the users speak is a parameter: which messages they send, and what
  they have `Heard` after some bytes.
-/
import Muduo.Net.TcpStream

set_option autoImplicit false

namespace Muduo.Net.TcpLink

open Muduo.Foundation

/-! ## The two ends -/

/-- One end. -/
structure End (σ : Type) where
  conn : TcpConnection
  inputBuffer_ : Buffer
  /-- the state of `messageCallback_` -/
  user : σ
  /-- the messages given to `sendInLoop` while the write side was open -/
  sent : List (List UInt8)
  /-- those given to it later -/
  dropped : List (List UInt8)
  /-- what the calls of `readv` have delivered -/
  received : List (List UInt8)
  /-- `readv` has returned 0 -/
  eof : Bool

/-- The side of the connection. -/
inductive Side where
  | client
  | server
  deriving DecidableEq, Repr

/-- The other side. -/
def Side.peer : Side → Side
  | .client => .server
  | .server => .client

/-- Both ends. -/
abbrev System (σ : Type) : Type := Side → End σ

/-- A connection that has been established. -/
def Established (c : TcpConnection) : Prop :=
  ∃ fd highWaterMark writeComplete highWater,
    (TcpStream.configured fd highWaterMark writeComplete highWater).connectEstablished = .ok c

/-- Nothing more goes out: the write side is shut down, or the connection is closed. -/
def Frozen (c : TcpConnection) : Prop := c.socket_.isShut = true ∨ c.state_ = .kDisconnected

instance (c : TcpConnection) : Decidable (Frozen c) := inferInstanceAs (Decidable (_ ∨ _))

/-- The message given to `sendInLoop`. -/
def given : TcpStream.Action → List (List UInt8)
  | .sendInLoop data _ => [data]
  | .handleWrite _ | .beginShutdown | .shutdownInLoop | .handleClose => []

/-- The messages that a step adds to those sent. -/
def outgoing (c : TcpConnection) (a : TcpStream.Action) : List (List UInt8) :=
  if Frozen c then [] else given a

/-- The messages that a step drops. -/
def late (c : TcpConnection) (a : TcpStream.Action) : List (List UInt8) :=
  if Frozen c then given a else []

namespace End

variable {σ : Type}

/-- An end that has sent and received nothing. -/
def new (user : σ) (conn : TcpConnection) : End σ where
  conn := conn
  inputBuffer_ := Buffer.new
  user := user
  sent := []
  dropped := []
  received := []
  eof := false

/-- A step of the output side. -/
def output (e : End σ) (a : TcpStream.Action) : Exec (End σ) := do
  .ok { e with
    conn := ← TcpStream.step e.conn a
    sent := e.sent ++ outgoing e.conn a
    dropped := e.dropped ++ late e.conn a }

/-- `handleRead`. -/
def handleRead (messageCallback_ : σ → Buffer → Exec (σ × Buffer)) (e : End σ)
    (result : Buffer.ReadvResult) : Exec (End σ) := do
  let (n, _, inputBuffer_) ← e.inputBuffer_.readFd result
  match result with
  | .failed _ => .ok { e with inputBuffer_, conn := e.conn.handleError }
  | .received bytes =>
      if 0 < n then do
        let (user, inputBuffer_) ← messageCallback_ e.user inputBuffer_
        .ok { e with user, inputBuffer_, received := e.received ++ [bytes] }
      else .ok { e with inputBuffer_, conn := ← e.conn.handleClose, eof := true }

end End

/-- The bytes on their way from `p` to `q`. -/
def inTransit {σ : Type} (p q : End σ) : List UInt8 :=
  p.conn.socket_.accepted.drop q.received.flatten.length

/-! ## Runs -/

/-- A step of one end. -/
inductive Action where
  | output (a : TcpStream.Action)
  | handleRead (result : Buffer.ReadvResult)
  deriving DecidableEq, Repr

/-- The message that a step gives to `sendInLoop` of `i`. -/
def givenBy (i : Side) : Side × Action → List (List UInt8)
  | (j, .output a) => if j = i then given a else []
  | (_, .handleRead _) => []

section Protocol

variable {σ : Type} (messageCallback_ : σ → Buffer → Exec (σ × Buffer))
  (Sendable : List UInt8 → Prop)

/-- A step of one end; the other stays as it is. -/
def step (s : System σ) : Side × Action → Exec (System σ)
  | (i, .output a) => do .ok (Function.update s i (← (s i).output a))
  | (i, .handleRead result) => do
      .ok (Function.update s i (← (s i).handleRead messageCallback_ result))

/-- The results that `write(2)` can have for an end.  A broken pipe is reported when the
write side is shut down, and otherwise only when the other end is closed. -/
def OutputLegal (p q : End σ) : TcpStream.Action → Prop
  | .sendInLoop data w =>
      Sendable data ∧ w.Possible data.length ∧
        (p.conn.socket_.isShut = true → w = .failed .EPIPE) ∧
        (p.conn.socket_.isShut = false → q.conn.state_ ≠ .kDisconnected → w ≠ .failed .EPIPE)
  | .handleWrite w => w.Possible p.conn.outputBuffer_.readableBytes
  | .beginShutdown | .shutdownInLoop => True
  | .handleClose => p.conn.state_ = .kConnected ∨ p.conn.state_ = .kDisconnecting

/-- The results that `readv(2)` can have for `q`. -/
def ReadLegal (p q : End σ) : Buffer.ReadvResult → Prop
  | .failed _ => True
  | .received [] => inTransit p q = [] ∧ Frozen p.conn
  | .received (byte :: bytes) =>
      byte :: bytes <+: inTransit p q ∧
        (byte :: bytes).length ≤ q.inputBuffer_.writableBytes + Buffer.kExtrabuf

/-- Both ends are established, so no channel reports events of a closed connection. -/
def Legal (s : System σ) : Side × Action → Prop
  | (i, .output a) => OutputLegal Sendable (s i) (s i.peer) a
  | (i, .handleRead result) =>
      (s i).conn.state_ ≠ .kDisconnected ∧ ReadLegal (s i.peer) (s i) result

/-- Both ends. -/
def machine : Machine (System σ) (Side × Action) :=
  ⟨step messageCallback_, Legal Sendable⟩

/-- Both ends right after `connectEstablished`. -/
def start (user : σ) (conns : Side → TcpConnection) : System σ := fun i => End.new user (conns i)

/-- What the callback guarantees: as long as the bytes that have arrived are the beginning
of what users send, it returns, and it has `Heard` them. -/
structure Hears (user : σ) (Heard : List UInt8 → σ → Buffer → Prop) : Prop where
  start : Heard [] user Buffer.new
  buffer : ∀ {xs s b}, Heard xs s b → b.Inv
  receive : ∀ {xs bytes s b b'} {messages : List (List UInt8)}, Heard xs s b →
    (∀ m ∈ messages, Sendable m) → xs ++ bytes <+: messages.flatten → b'.Inv →
    b'.contents = b.contents ++ bytes →
    ∃ s' b'', messageCallback_ s b' = .ok (s', b'') ∧ Heard (xs ++ bytes) s' b''

end Protocol

/-! ## The output side of one end -/

/-- The output side of an established connection, closed or not. -/
structure Out (c : TcpConnection) : Prop where
  begun : c.state_ ≠ .kConnecting
  live : c.state_ ≠ .kDisconnected → c.OutputInv ∧ TcpStream.CleanShutdown c.socket_
  quiet : c.state_ = .kDisconnected → c.channel_.isWriting = false
  drained : SockCall.shutdownWrite [] ∈ c.socket_.calls → c.outputBuffer_.contents = []

/-- What a step of the output side does that sends no message. -/
structure Silent (c c' : TcpConnection) : Prop where
  out : Out c'
  accepted : c.socket_.accepted <+: c'.socket_.accepted
  closed : c.state_ = .kDisconnected → c'.state_ = .kDisconnected
  frozen : Frozen c → Frozen c' ∧ c'.socket_.accepted = c.socket_.accepted
  stream : c'.stream = c.stream

section Output

variable {c c' c'' : TcpConnection} {a : TcpStream.Action}

theorem out_established (h : Established c) : Out c ∧ c.stream = [] ∧ c.socket_.calls = [] := by
  obtain ⟨fd, highWaterMark, writeComplete, highWater, h⟩ := h
  obtain ⟨hlive, hclosed⟩ := TcpStream.inv_established h
  have hstate : c.state_ = .kConnected := by
    rw [← Except.ok.inj h]
    rfl
  have hcalls : c.socket_.calls = [] := by
    rw [← Except.ok.inj h]
    rfl
  obtain ⟨hout, hstream, hclean⟩ := hlive (by simp [hstate])
  refine ⟨⟨by simp [hstate], fun _ => ⟨hout, hclean⟩, hclosed, fun hmem => ?_⟩, hstream, hcalls⟩
  exact absurd (hcalls ▸ hmem) (by simp)

theorem outgoing_of_frozen (h : Frozen c) : outgoing c a = [] := if_pos h

theorem eq_of_mem_given {m : List UInt8} (h : m ∈ given a) : ∃ w, a = .sendInLoop m w := by
  cases a with
  | sendInLoop data w => exact ⟨w, by rw [List.mem_singleton.mp h]⟩
  | handleWrite w => exact absurd h List.not_mem_nil
  | beginShutdown => exact absurd h List.not_mem_nil
  | shutdownInLoop => exact absurd h List.not_mem_nil
  | handleClose => exact absurd h List.not_mem_nil

/-- A message is either sent or dropped. -/
theorem mem_given {m : List UInt8} (h : m ∈ outgoing c a ∨ m ∈ late c a) : m ∈ given a := by
  unfold outgoing late at h
  split at h
  · exact h.resolve_left List.not_mem_nil
  · exact h.resolve_right List.not_mem_nil

/-- A connection whose write side is shut down has nothing left to write. -/
theorem Out.idle_of_isShut (h : Out c) (hlive : c.state_ ≠ .kDisconnected)
    (hshut : c.socket_.isShut = true) :
    c.outputBuffer_.contents = [] ∧ c.channel_.isWriting = false := by
  obtain ⟨call, hmem, hcall⟩ := List.any_eq_true.mp hshut
  obtain ⟨hout, hclean⟩ := h.live hlive
  have hnil : c.outputBuffer_.contents = [] := by
    cases call with
    | write data result => exact absurd hcall (by simp [SockCall.isShutdown])
    | shutdownWrite unsent =>
        obtain rfl := hclean unsent hmem
        exact h.drained hmem
  refine ⟨hnil, ?_⟩
  cases hwriting : c.channel_.isWriting with
  | false => rfl
  | true => exact absurd hnil (hout.writing.mp hwriting)

theorem Silent.refl (h : Out c) : Silent c c :=
  ⟨h, List.prefix_refl _, id, fun hf => ⟨hf, rfl⟩, rfl⟩

theorem Silent.trans (h : Silent c c') (h' : Silent c' c'') : Silent c c'' where
  out := h'.out
  accepted := h.accepted.trans h'.accepted
  closed hdis := h'.closed (h.closed hdis)
  frozen hf := ⟨(h'.frozen (h.frozen hf).1).1, (h'.frozen (h.frozen hf).1).2.trans (h.frozen hf).2⟩
  stream := h'.stream.trans h.stream

/-- A step that only touches the state. -/
theorem Silent.of_socket (hout : Out c') (hsocket : c'.socket_ = c.socket_)
    (hbuffer : c'.outputBuffer_ = c.outputBuffer_)
    (hclosed : c.state_ = .kDisconnected → c'.state_ = .kDisconnected) : Silent c c' where
  out := hout
  accepted := hsocket ▸ List.prefix_refl _
  closed := hclosed
  frozen hf := ⟨hf.imp (fun h => by rwa [hsocket]) hclosed, by rw [hsocket]⟩
  stream := by rw [TcpConnection.stream, TcpConnection.stream, hsocket, hbuffer]

theorem silent_shutdownInLoop (h : Out c) : Silent c c.shutdownInLoop := by
  cases hwriting : c.channel_.isWriting with
  | true =>
      have hsame : c.shutdownInLoop = c := by simp [TcpConnection.shutdownInLoop, hwriting]
      rw [hsame]
      exact .refl h
  | false =>
      have hshut : c.shutdownInLoop =
          { c with socket_ := c.socket_.shutdownWrite c.outputBuffer_.contents } := by
        simp [TcpConnection.shutdownInLoop, hwriting]
      have hisShut : (c.socket_.shutdownWrite c.outputBuffer_.contents).isShut = true := by
        simp [Socket.isShut, Socket.shutdownWrite, SockCall.isShutdown]
      rw [hshut]
      refine ⟨⟨h.begun, fun hlive => ?_, h.quiet, fun hmem => ?_⟩, ?_, id,
        fun _ => ⟨.inl hisShut, ?_⟩, ?_⟩
      · obtain ⟨hout, hclean⟩ := h.live hlive
        refine ⟨⟨hout.buffer, hout.writing⟩, ?_⟩
        rw [hout.contents_eq_nil hwriting]
        exact hclean.shutdownWrite
      · rcases List.mem_append.mp hmem with hmem | hmem
        · exact h.drained hmem
        · exact (SockCall.shutdownWrite.inj (List.mem_singleton.mp hmem)).symm
      · exact Socket.accepted_shutdownWrite _ _ ▸ List.prefix_refl _
      · rw [Socket.accepted_shutdownWrite]
      · rw [TcpConnection.stream, TcpConnection.stream, Socket.accepted_shutdownWrite]

/-- A write adds no `shutdownWrite`. -/
theorem mem_calls_write {socket : Socket} {data unsent : List UInt8} {w : WriteResult}
    (h : SockCall.shutdownWrite unsent ∈ (socket.write data w).calls) :
    SockCall.shutdownWrite unsent ∈ socket.calls := by
  rcases List.mem_append.mp h with h | h
  · exact h
  · exact absurd (List.mem_singleton.mp h) (by simp)

theorem silent_writeOutput (h : Out c) {w : WriteResult}
    (hw : w.Possible c.outputBuffer_.readableBytes) :
    ∃ c' drained, c.writeOutput w = .ok (c', drained) ∧ Silent c c' := by
  cases hwriting : c.channel_.isWriting with
  | false => exact ⟨c, false, by simp [TcpConnection.writeOutput, hwriting], .refl h⟩
  | true =>
      have hlive : c.state_ ≠ .kDisconnected := by
        intro hdis
        exact absurd (h.quiet hdis) (by simp [hwriting])
      obtain ⟨hout, hclean⟩ := h.live hlive
      have hne : c.outputBuffer_.contents ≠ [] := hout.writing.mp hwriting
      obtain ⟨c', drained, hc', hout', hcontrol, hsocket, hstream, _⟩ :=
        TcpConnection.writeOutput_spec hout hw
      rw [hwriting, if_pos rfl] at hsocket
      refine ⟨c', drained, hc', ⟨?_, ?_, fun hdis => absurd hdis hlive, fun hf => ?_, hstream⟩⟩
      · refine ⟨hcontrol.state ▸ h.begun, fun _ => ⟨hout', hsocket ▸ hclean.write _ _⟩,
          fun hdis => absurd (hcontrol.state ▸ hdis) hlive, fun hmem => ?_⟩
        -- nothing is shut down while bytes are left
        exact absurd (h.drained (mem_calls_write (hsocket ▸ hmem))) hne
      · rw [hsocket, Socket.accepted_write]
        exact List.prefix_append _ _
      · rcases hf with hshut | hdis
        · exact absurd (h.idle_of_isShut hlive hshut).1 hne
        · exact absurd hdis hlive

theorem silent_handleWrite (h : Out c) {w : WriteResult}
    (hw : w.Possible c.outputBuffer_.readableBytes) :
    ∃ c', c.handleWrite w = .ok c' ∧ Silent c c' := by
  obtain ⟨c₁, drained, hc₁, hsilent⟩ := silent_writeOutput h hw
  have hrest : Silent c₁ c₁.shutdownIfDisconnecting := by
    unfold TcpConnection.shutdownIfDisconnecting
    split
    · exact silent_shutdownInLoop hsilent.out
    · exact .refl hsilent.out
  cases drained with
  | false => exact ⟨c₁, by simp [TcpConnection.handleWrite, hc₁], hsilent⟩
  | true => exact ⟨_, by simp [TcpConnection.handleWrite, hc₁], hsilent.trans hrest⟩

theorem silent_handleClose (h : Out c)
    (hlive : c.state_ = .kConnected ∨ c.state_ = .kDisconnecting) :
    ∃ c', c.handleClose = .ok c' ∧ c'.state_ = .kDisconnected ∧ Silent c c' := by
  refine ⟨_, TcpConnection.handleClose_eq hlive, rfl, .of_socket ?_ rfl rfl fun _ => rfl⟩
  exact ⟨by simp, fun hne => absurd rfl hne, fun _ => Channel.isWriting_disableAll _, h.drained⟩

theorem silent_beginShutdown (h : Out c) : Silent c (TcpStream.beginShutdown c) := by
  unfold TcpStream.beginShutdown
  split
  · rename_i hconnected
    refine .of_socket ⟨by simp [TcpConnection.setState], fun _ => ?_, fun hdis => ?_, h.drained⟩
      rfl rfl fun hdis => ?_
    · obtain ⟨hout, hclean⟩ := h.live (by simp [hconnected])
      exact ⟨⟨hout.buffer, hout.writing⟩, hclean⟩
    · exact absurd hdis (by simp [TcpConnection.setState])
    · exact absurd (hdis.symm.trans hconnected) (by simp)
  · exact .refl h

/-- The message of a `sendInLoop` behind the end of the write side is dropped. -/
theorem silent_sendInLoop_of_frozen (h : Out c) (hf : Frozen c) {data : List UInt8}
    {w : WriteResult}
    (hpipe : c.socket_.isShut = true → w = .failed .EPIPE) :
    ∃ c', c.sendInLoop data w = .ok c' ∧ Silent c c' := by
  by_cases hdis : c.state_ = .kDisconnected
  · exact ⟨c, by simp [TcpConnection.sendInLoop, hdis], .refl h⟩
  · have hshut : c.socket_.isShut = true := hf.resolve_right hdis
    obtain rfl := hpipe hshut
    obtain ⟨hnil, hidle⟩ := h.idle_of_isShut hdis hshut
    obtain ⟨hout, hclean⟩ := h.live hdis
    have hempty : c.outputBuffer_.readableBytes = 0 := by
      rw [← Buffer.contents_length hout.buffer, hnil, List.length_nil]
    have haccepted : (c.socket_.write data (.failed .EPIPE)).accepted = c.socket_.accepted := by
      simp [SockCall.accepted]
    refine ⟨{ c with socket_ := c.socket_.write data (.failed .EPIPE) }, ?_,
      ⟨⟨h.begun, fun _ => ⟨⟨hout.buffer, hout.writing⟩, hclean.write _ _⟩, h.quiet, fun _ => hnil⟩,
        ?_, id, fun _ => ⟨.inl ?_, haccepted⟩, ?_⟩⟩
    · simp [TcpConnection.sendInLoop, TcpConnection.writeDirectly, hdis, hidle, hempty,
        TcpConnection.WriteAttempt.ofResult, TcpConnection.bufferRest]
    · exact haccepted ▸ List.prefix_refl _
    · simpa using hshut
    · rw [TcpConnection.stream, TcpConnection.stream, haccepted]

/-- The message of any other `sendInLoop` joins the stream. -/
theorem sendInLoop_of_open (h : Out c) (hf : ¬ Frozen c) {data : List UInt8} {w : WriteResult}
    (hw : w.Possible data.length) :
    ∃ c', c.sendInLoop data w = .ok c' ∧ Out c' ∧ c'.state_ = c.state_ ∧
      c.socket_.accepted <+: c'.socket_.accepted ∧
      (w ≠ .failed .EPIPE → c'.stream = c.stream ++ data) := by
  have hlive : c.state_ ≠ .kDisconnected := fun hdis => hf (.inr hdis)
  obtain ⟨hout, hclean⟩ := h.live hlive
  obtain ⟨c', hc', hout', hcontrol, hsocket, hstream⟩ := TcpConnection.sendInLoop_spec hout hlive hw
  have hnone : ∀ unsent, SockCall.shutdownWrite unsent ∉ c.socket_.calls := by
    intro unsent hmem
    exact hf (.inl (List.any_eq_true.mpr ⟨_, hmem, rfl⟩))
  have hnone' : ∀ unsent, SockCall.shutdownWrite unsent ∉ c'.socket_.calls := by
    intro unsent hmem
    rw [hsocket] at hmem
    split at hmem
    · exact hnone unsent hmem
    · exact hnone unsent (mem_calls_write hmem)
  refine ⟨c', hc', ⟨hcontrol.state ▸ h.begun, fun _ => ⟨hout', fun unsent hmem => ?_⟩,
    fun hdis => absurd (hcontrol.state ▸ hdis) hlive, fun hmem => absurd hmem (hnone' [])⟩,
    hcontrol.state, ?_, hstream⟩
  · exact absurd hmem (hnone' unsent)
  · rw [hsocket]
    split
    · exact List.prefix_refl _
    · rw [Socket.accepted_write]
      exact List.prefix_append _ _

/-- What a step of the output side does to its end. -/
structure OutStep (c c' : TcpConnection) (a : TcpStream.Action) : Prop where
  out : Out c'
  accepted : c.socket_.accepted <+: c'.socket_.accepted
  closed : c.state_ = .kDisconnected → c'.state_ = .kDisconnected
  frozen : Frozen c → Frozen c' ∧ c'.socket_.accepted = c.socket_.accepted ∧ c'.stream = c.stream
  stream : (Frozen c ∨ ∀ data, a ≠ .sendInLoop data (.failed .EPIPE)) →
    c'.stream = c.stream ++ (outgoing c a).flatten

theorem OutStep.of_silent (h : Silent c c') (ha : outgoing c a = []) : OutStep c c' a where
  out := h.out
  accepted := h.accepted
  closed := h.closed
  frozen hf := ⟨(h.frozen hf).1, (h.frozen hf).2, h.stream⟩
  stream _ := by rw [ha, List.flatten_nil, List.append_nil, h.stream]

/-- Every legal step of the output side succeeds. -/
theorem outStep {σ : Type} {Sendable : List UInt8 → Prop} {p q : End σ} (h : Out p.conn)
    (ha : OutputLegal Sendable p q a) :
    ∃ c', TcpStream.step p.conn a = .ok c' ∧ OutStep p.conn c' a := by
  cases a with
  | sendInLoop data w =>
      obtain ⟨_, hw, hpipe, _⟩ := ha
      by_cases hf : Frozen p.conn
      · obtain ⟨c', hc', hsilent⟩ := silent_sendInLoop_of_frozen h hf hpipe
        exact ⟨c', hc', .of_silent hsilent (outgoing_of_frozen hf)⟩
      · obtain ⟨c', hc', hout, hstate, haccepted, hstream⟩ := sendInLoop_of_open h hf hw
        refine ⟨c', hc', hout, haccepted, fun hdis => hstate.trans hdis,
          fun hf' => absurd hf' hf, ?_⟩
        intro hok
        have hw' : w ≠ .failed .EPIPE := by
          rintro rfl
          exact hok.resolve_left hf data rfl
        rw [hstream hw', outgoing, if_neg hf, given, List.flatten_singleton]
  | handleWrite w =>
      obtain ⟨c', hc', hsilent⟩ := silent_handleWrite h ha
      exact ⟨c', hc', .of_silent hsilent (ite_self _)⟩
  | beginShutdown => exact ⟨_, rfl, .of_silent (silent_beginShutdown h) (ite_self _)⟩
  | shutdownInLoop => exact ⟨_, rfl, .of_silent (silent_shutdownInLoop h) (ite_self _)⟩
  | handleClose =>
      obtain ⟨c', hc', _, hsilent⟩ := silent_handleClose h ha
      exact ⟨c', hc', .of_silent hsilent (ite_self _)⟩

end Output

/-! ## Both directions -/

section Directions

variable {σ : Type} {messageCallback_ : σ → Buffer → Exec (σ × Buffer)}
  {Sendable : List UInt8 → Prop} {Heard : List UInt8 → σ → Buffer → Prop}

/-- What `q` knows of what `p` has sent. -/
structure Flow (p q : End σ) : Prop where
  arrived : q.received.flatten <+: p.conn.socket_.accepted
  inOrder : q.received.flatten <+: p.sent.flatten
  stream : q.conn.state_ ≠ .kDisconnected ∨ q.eof = true → p.conn.stream = p.sent.flatten
  ended : q.eof = true → Frozen p.conn ∧ q.received.flatten = p.conn.socket_.accepted

/-- The invariant of one end. -/
structure EndInv (Sendable : List UInt8 → Prop) (Heard : List UInt8 → σ → Buffer → Prop)
    (e : End σ) : Prop where
  out : Out e.conn
  heard : Heard e.received.flatten e.user e.inputBuffer_
  sendable : ∀ m ∈ e.sent ++ e.dropped, Sendable m
  late : e.dropped ≠ [] → Frozen e.conn
  closed : e.eof = true → e.conn.state_ = .kDisconnected

/-- The invariant of both ends. -/
structure Inv (Sendable : List UInt8 → Prop) (Heard : List UInt8 → σ → Buffer → Prop)
    (s : System σ) : Prop where
  ends : ∀ i, EndInv Sendable Heard (s i)
  flow : ∀ i : Side, Flow (s i) (s i.peer)

@[simp] theorem Side.peer_peer (i : Side) : i.peer.peer = i := by
  cases i with
  | client => rfl
  | server => rfl

theorem Side.peer_ne (i : Side) : i.peer ≠ i := by
  cases i with
  | client => simp [Side.peer]
  | server => simp [Side.peer]

theorem Side.eq_or_eq_peer (i j : Side) : j = i ∨ j = i.peer := by
  cases i with
  | client => cases j with
    | client => exact .inl rfl
    | server => exact .inr rfl
  | server => cases j with
    | client => exact .inr rfl
    | server => exact .inl rfl

/-- A step of one end keeps the invariant if it keeps that of the end and what either end
knows of the other. -/
theorem Inv.update {s : System σ} (h : Inv Sendable Heard s) {i : Side} {e : End σ}
    (hend : EndInv Sendable Heard e) (hfrom : Flow e (s i.peer)) (hto : Flow (s i.peer) e) :
    Inv Sendable Heard (Function.update s i e) := by
  have hother : Function.update s i e i.peer = s i.peer := Function.update_of_ne i.peer_ne _ _
  refine ⟨fun j => ?_, fun j => ?_⟩
  · rcases i.eq_or_eq_peer j with rfl | rfl
    · rw [Function.update_self]
      exact hend
    · rw [hother]
      exact h.ends _
  · rcases i.eq_or_eq_peer j with rfl | rfl
    · rw [Function.update_self, hother]
      exact hfrom
    · rw [Side.peer_peer, Function.update_self, hother]
      exact hto

theorem inv_start {user : σ} (hlaw : Hears messageCallback_ Sendable user Heard)
    {conns : Side → TcpConnection} (hconns : ∀ i, Established (conns i)) :
    Inv Sendable Heard (start user conns) := by
  refine ⟨fun i => ⟨(out_established (hconns i)).1, hlaw.start, ?_, ?_, ?_⟩, fun i => ?_⟩
  · intro m hm
    exact absurd hm List.not_mem_nil
  · exact fun hne => absurd rfl hne
  · exact fun heof => absurd heof (by simp [start, End.new])
  · exact ⟨List.nil_prefix, List.nil_prefix, fun _ => (out_established (hconns i)).2.1,
      fun heof => absurd heof (by simp [start, End.new])⟩

/-- A step of the output side: what was sent goes out in order. -/
theorem flow_of_outStep {p q : End σ} {c : TcpConnection} {a : TcpStream.Action} (h : Flow p q)
    (ha : OutputLegal Sendable p q a) (hstep : OutStep p.conn c a) :
    Flow { p with conn := c, sent := p.sent ++ outgoing p.conn a,
                  dropped := p.dropped ++ late p.conn a } q := by
  refine ⟨h.arrived.trans hstep.accepted, ?_, fun hknown => ?_, fun heof => ?_⟩
  · rw [List.flatten_append]
    exact h.inOrder.trans (List.prefix_append _ _)
  · -- no message is dropped before the end of the stream
    have hkept : Frozen p.conn ∨ ∀ data, a ≠ .sendInLoop data (.failed .EPIPE) := by
      by_cases hf : Frozen p.conn
      · exact .inl hf
      · refine .inr fun data heq => ?_
        subst heq
        have hshut : p.conn.socket_.isShut = false :=
          Bool.eq_false_iff.mpr fun hshut => hf (.inl hshut)
        rcases hknown with hlive | heof
        · exact ha.2.2.2 hshut hlive rfl
        · exact hf (h.ended heof).1
    rw [hstep.stream hkept, h.stream hknown, List.flatten_append]
  · obtain ⟨hf, hall⟩ := h.ended heof
    obtain ⟨hf', haccepted, _⟩ := hstep.frozen hf
    exact ⟨hf', hall.trans haccepted.symm⟩

/-- When `q` closes, it knows no less of what `p` has sent. -/
theorem flow_of_closed {p q q' : End σ} (h : Flow p q) (hreceived : q'.received = q.received)
    (heof : q'.eof = q.eof)
    (hclosed : q.conn.state_ = .kDisconnected → q'.conn.state_ = .kDisconnected) : Flow p q' := by
  refine ⟨hreceived ▸ h.arrived, hreceived ▸ h.inOrder, fun hknown => h.stream ?_, fun heof' => ?_⟩
  · exact hknown.imp (fun hne hdis => hne (hclosed hdis)) fun h => heof ▸ h
  · rw [hreceived]
    exact h.ended (heof ▸ heof')

theorem inv_output {s : System σ} (h : Inv Sendable Heard s) {i : Side} {a : TcpStream.Action}
    (ha : OutputLegal Sendable (s i) (s i.peer) a) :
    ∃ s', step messageCallback_ s (i, .output a) = .ok s' ∧ Inv Sendable Heard s' := by
  obtain ⟨c, hc, hstep⟩ := outStep (h.ends i).out ha
  have hout : (s i).output a =
      .ok { s i with conn := c, sent := (s i).sent ++ outgoing (s i).conn a,
                     dropped := (s i).dropped ++ late (s i).conn a } := by
    rw [End.output, hc, ok_bind]
  have hend : EndInv Sendable Heard
      { s i with conn := c, sent := (s i).sent ++ outgoing (s i).conn a,
                 dropped := (s i).dropped ++ late (s i).conn a } := by
    refine ⟨hstep.out, (h.ends i).heard, fun m hm => ?_, fun hne => ?_,
      fun heof => hstep.closed ((h.ends i).closed heof)⟩
    · have hold := (h.ends i).sendable m
      simp only [List.mem_append] at hm hold
      have hnew : m ∈ given a → Sendable m := by
        intro hm
        obtain ⟨w, rfl⟩ := eq_of_mem_given hm
        exact ha.1
      rcases hm with (hm | hm) | (hm | hm)
      · exact hold (.inl hm)
      · exact hnew (mem_given (.inl hm))
      · exact hold (.inr hm)
      · exact hnew (mem_given (.inr hm))
    · -- a message was dropped before, or is now
      refine (hstep.frozen ?_).1
      by_cases hnone : (s i).dropped = []
      · by_contra hopen
        rw [hnone, late, if_neg hopen] at hne
        exact hne rfl
      · exact (h.ends i).late hnone
  have hto : Flow (s i.peer) (s i) := by simpa using h.flow i.peer
  refine ⟨_, by rw [step, hout, ok_bind], h.update hend ?_ ?_⟩
  · exact flow_of_outStep (h.flow i) ha hstep
  · exact flow_of_closed hto rfl rfl hstep.closed

/-- `readv` reports the end of the stream: everything that the other end has handed to its
kernel has arrived. -/
theorem inv_endOfStream {s : System σ} (h : Inv Sendable Heard s) {i : Side} {b : Buffer}
    (hlive : (s i).conn.state_ ≠ .kDisconnected) (hall : inTransit (s i.peer) (s i) = [])
    (hf : Frozen (s i.peer).conn) (hheard : Heard (s i).received.flatten (s i).user b) :
    ∃ c, (s i).conn.handleClose = .ok c ∧
      Inv Sendable Heard
        (Function.update s i { s i with conn := c, inputBuffer_ := b, eof := true }) := by
  have hto : Flow (s i.peer) (s i) := by simpa using h.flow i.peer
  have hstate : (s i).conn.state_ = .kConnected ∨ (s i).conn.state_ = .kDisconnecting := by
    cases hcase : (s i).conn.state_ with
    | kDisconnected => exact absurd hcase hlive
    | kConnecting => exact absurd hcase (h.ends i).out.begun
    | kConnected => exact .inl rfl
    | kDisconnecting => exact .inr rfl
  obtain ⟨c, hc, hdis, hsilent⟩ := silent_handleClose (h.ends i).out hstate
  have hend : EndInv Sendable Heard { s i with conn := c, inputBuffer_ := b, eof := true } :=
    ⟨hsilent.out, hheard, (h.ends i).sendable,
      fun hne => (hsilent.frozen ((h.ends i).late hne)).1, fun _ => hdis⟩
  have hfrom := h.flow i
  refine ⟨c, hc, h.update hend ⟨?_, hfrom.inOrder, fun hknown => ?_, fun heof => ?_⟩
    ⟨hto.arrived, hto.inOrder, fun _ => hto.stream (.inl hlive), fun _ => ⟨hf, ?_⟩⟩⟩
  · exact hfrom.arrived.trans hsilent.accepted
  · rw [hsilent.stream, hfrom.stream hknown]
  · obtain ⟨hf', hall'⟩ := hfrom.ended heof
    exact ⟨(hsilent.frozen hf').1, hall'.trans (hsilent.frozen hf').2.symm⟩
  · -- nothing is in transit, so the bytes that have arrived are all
    obtain ⟨rest, hrest⟩ := hto.arrived
    rw [inTransit, ← hrest, List.drop_left] at hall
    rw [← hrest, hall, List.append_nil]

/-- `readv` delivers the next bytes, and `messageCallback_` hears them. -/
theorem inv_received {user : σ} (hlaw : Hears messageCallback_ Sendable user Heard) {s : System σ}
    (h : Inv Sendable Heard s) {i : Side} {b : Buffer} {bytes : List UInt8}
    (hlive : (s i).conn.state_ ≠ .kDisconnected) (hnext : bytes <+: inTransit (s i.peer) (s i))
    (hb : b.Inv) (hcontents : b.contents = (s i).inputBuffer_.contents ++ bytes) :
    ∃ u b', messageCallback_ (s i).user b = .ok (u, b') ∧
      Inv Sendable Heard (Function.update s i
        { s i with user := u, inputBuffer_ := b', received := (s i).received ++ [bytes] }) := by
  have hto : Flow (s i.peer) (s i) := by simpa using h.flow i.peer
  have hfrom := h.flow i
  have hflatten : ((s i).received ++ [bytes]).flatten = (s i).received.flatten ++ bytes := by
    rw [List.flatten_append, List.flatten_singleton]
  have harrived : (s i).received.flatten ++ bytes <+: (s i.peer).conn.socket_.accepted := by
    obtain ⟨rest, hrest⟩ := hto.arrived
    rw [inTransit, ← hrest, List.drop_left] at hnext
    rw [← hrest]
    exact (List.prefix_append_right_inj _).mpr hnext
  have hinOrder : (s i).received.flatten ++ bytes <+: (s i.peer).sent.flatten := by
    rw [← hto.stream (.inl hlive), TcpConnection.stream]
    exact harrived.trans (List.prefix_append _ _)
  obtain ⟨u, b', hcallback, hheard⟩ :=
    hlaw.receive (h.ends i).heard
      (fun m hm => (h.ends i.peer).sendable m (List.mem_append_left _ hm)) hinOrder hb hcontents
  have hend : EndInv Sendable Heard
      { s i with user := u, inputBuffer_ := b', received := (s i).received ++ [bytes] } :=
    ⟨(h.ends i).out, hflatten ▸ hheard, (h.ends i).sendable, (h.ends i).late, (h.ends i).closed⟩
  refine ⟨u, b', hcallback, h.update hend ⟨hfrom.arrived, hfrom.inOrder, hfrom.stream, hfrom.ended⟩
    ⟨hflatten ▸ harrived, hflatten ▸ hinOrder, hto.stream, fun heof => ?_⟩⟩
  -- an end that has seen the end of the stream is closed
  exact absurd ((h.ends i).closed heof) hlive

/-- The end of the stream leaves the buffer as it is. -/
theorem readFd_nil (b : Buffer) : b.readFd (.received []) = .ok (0, none, b) := by
  simp [Buffer.readFd, Buffer.store, Buffer.hasWritten, Buffer.ReadvResult.count, overwrite]

theorem inv_handleRead {user : σ} (hlaw : Hears messageCallback_ Sendable user Heard) {s : System σ}
    (h : Inv Sendable Heard s) {i : Side} {result : Buffer.ReadvResult}
    (hlive : (s i).conn.state_ ≠ .kDisconnected) (ha : ReadLegal (s i.peer) (s i) result) :
    ∃ s', step messageCallback_ s (i, .handleRead result) = .ok s' ∧ Inv Sendable Heard s' := by
  have hinput : (s i).inputBuffer_.Inv := hlaw.buffer (h.ends i).heard
  obtain ⟨saved, b, hread, hb, hcontents⟩ := Buffer.readFd_spec hinput result
  cases result with
  | failed errno =>
      obtain rfl : b = (s i).inputBuffer_ :=
        (congrArg (fun r => r.2.2) (Except.ok.inj hread)).symm
      refine ⟨Function.update s i (s i), ?_, by rwa [Function.update_eq_self]⟩
      rw [step, End.handleRead, hread, ok_bind]
      rfl
  | received bytes =>
      cases bytes with
      | nil =>
          obtain rfl : b = (s i).inputBuffer_ := by
            rw [readFd_nil] at hread
            exact (congrArg (fun r => r.2.2) (Except.ok.inj hread)).symm
          obtain ⟨c, hc, hinv⟩ := inv_endOfStream h hlive ha.1 ha.2 (h.ends i).heard
          refine ⟨_, ?_, hinv⟩
          rw [step, End.handleRead, hread, ok_bind]
          simp only [Buffer.ReadvResult.count, List.length_nil, hc, ok_bind]
          rfl
      | cons byte bytes =>
          obtain ⟨u, b', hcallback, hinv⟩ := inv_received hlaw h hlive ha.1 hb hcontents
          refine ⟨_, ?_, hinv⟩
          have hpos : 0 < (Buffer.ReadvResult.received (byte :: bytes)).count := by
            simp [Buffer.ReadvResult.count]
          rw [step, End.handleRead, hread, ok_bind]
          simp only [if_pos hpos, hcallback, ok_bind]

theorem inv_step {user : σ} (hlaw : Hears messageCallback_ Sendable user Heard) {s : System σ}
    (h : Inv Sendable Heard s) {a : Side × Action} (ha : Legal Sendable s a) :
    ∃ s', step messageCallback_ s a = .ok s' ∧ Inv Sendable Heard s' := by
  obtain ⟨i, a⟩ := a
  cases a with
  | output a => exact inv_output h ha
  | handleRead result => exact inv_handleRead hlaw h ha.1 ha.2

/-- `handleRead` gives nothing to `sendInLoop`. -/
theorem given_handleRead {e e' : End σ} {result : Buffer.ReadvResult}
    (h : e.handleRead messageCallback_ result = .ok e') :
    e'.sent = e.sent ∧ e'.dropped = e.dropped := by
  rw [End.handleRead] at h
  obtain ⟨⟨n, saved, b⟩, -, h⟩ := bind_eq_ok_iff.mp h
  cases result with
  | failed errno =>
      cases h
      exact ⟨rfl, rfl⟩
  | received bytes =>
      simp only at h
      split at h
      · obtain ⟨⟨user, b'⟩, -, h⟩ := bind_eq_ok_iff.mp h
        cases h
        exact ⟨rfl, rfl⟩
      · obtain ⟨c, -, h⟩ := bind_eq_ok_iff.mp h
        cases h
        exact ⟨rfl, rfl⟩

/-- What is dropped is behind what was sent. -/
theorem given_step {s s' : System σ} (h : Inv Sendable Heard s) {a : Side × Action}
    (hstep : step messageCallback_ s a = .ok s') (i : Side) :
    (s' i).sent ++ (s' i).dropped = (s i).sent ++ (s i).dropped ++ givenBy i a := by
  obtain ⟨j, a⟩ := a
  cases a with
  | output a =>
      obtain ⟨e, he, hs'⟩ := bind_eq_ok_iff.mp hstep
      cases hs'
      by_cases hij : j = i
      · subst hij
        obtain ⟨c, -, hconn⟩ := bind_eq_ok_iff.mp he
        cases hconn
        simp only [Function.update_self, givenBy, if_true, outgoing, late]
        by_cases hf : Frozen (s j).conn
        · rw [if_pos hf, if_pos hf, List.append_nil, List.append_assoc]
        · -- nothing has been dropped yet
          have hnone : (s j).dropped = [] := by
            by_contra hne
            exact hf ((h.ends j).late hne)
          rw [if_neg hf, if_neg hf, hnone, List.append_nil, List.append_nil, List.append_nil]
      · rw [Function.update_of_ne (Ne.symm hij), givenBy, if_neg hij, List.append_nil]
  | handleRead result =>
      obtain ⟨e, he, hs'⟩ := bind_eq_ok_iff.mp hstep
      cases hs'
      rw [givenBy, List.append_nil]
      by_cases hij : j = i
      · subst hij
        obtain ⟨hsent, hdropped⟩ := given_handleRead he
        rw [Function.update_self, hsent, hdropped]
      · rw [Function.update_of_ne (Ne.symm hij)]

/-- Every run succeeds and keeps the invariant, and every message is sent or, behind those,
dropped. -/
theorem given_run {user : σ} (hlaw : Hears messageCallback_ Sendable user Heard)
    {conns : Side → TcpConnection} (hconns : ∀ i, Established (conns i)) {as : List (Side × Action)}
    (hlegal : (machine messageCallback_ Sendable).LegalRun (start user conns) as) :
    ∃ s, (machine messageCallback_ Sendable).run (start user conns) as = .ok s ∧
      Inv Sendable Heard s ∧
      ∀ i, (s i).sent ++ (s i).dropped = as.flatMap (givenBy i) := by
  refine @Machine.run_of_step _ _ (machine messageCallback_ Sendable) (fun done s =>
    Inv Sendable Heard s ∧ ∀ i, (s i).sent ++ (s i).dropped = done.flatMap (givenBy i)) ?_ [] _
    ⟨inv_start hlaw hconns, fun i => rfl⟩ as hlegal
  intro done s a ⟨hinv, hgiven⟩ ha
  obtain ⟨s', hstep, hinv'⟩ := inv_step hlaw hinv ha
  refine ⟨s', hstep, hinv', fun i => ?_⟩
  rw [given_step hinv hstep i, hgiven i, List.flatMap_append, List.flatMap_singleton]

variable {p q : End σ}

/-- What is on its way to an open end. -/
theorem Flow.received_append (h : Flow p q) (hlive : q.conn.state_ ≠ .kDisconnected) :
    q.received.flatten ++ inTransit p q ++ p.conn.outputBuffer_.contents = p.sent.flatten := by
  obtain ⟨rest, hrest⟩ := h.arrived
  rw [inTransit, ← hrest, List.drop_left, hrest]
  exact h.stream (.inl hlive)

/-- What an end misses when it has seen the end of the stream. -/
theorem Flow.received_append_of_eof (h : Flow p q) (heof : q.eof = true) :
    q.received.flatten ++ p.conn.outputBuffer_.contents = p.sent.flatten := by
  rw [(h.ended heof).2]
  exact h.stream (.inr heof)

/-- Behind a `shutdown()` it misses nothing. -/
theorem Flow.received_of_shutdown (h : Flow p q) (hp : EndInv Sendable Heard p)
    (heof : q.eof = true)
    (hshut : SockCall.shutdownWrite [] ∈ p.conn.socket_.calls) :
    q.received.flatten = p.sent.flatten := by
  rw [← h.received_append_of_eof heof, hp.out.drained hshut, List.append_nil]

end Directions

/-- In every run of two established ends in which the kernel keeps the bytes it accepts in
order, no assertion fails, and in each direction: the messages given to `sendInLoop` are
those sent and, behind these, those dropped, of which there is none before the write side
is shut down or closed.  What has arrived is the beginning of what was sent, and
`messageCallback_` has heard it.  While the receiver is open, what has arrived, what is in
transit and what waits in `outputBuffer_` are together what was sent.  When the receiver has
seen the end of the stream, it only misses what waits in `outputBuffer_` and what was
dropped; if the sender's write side was shut down by `shutdown()`, nothing waits. -/
theorem streams_arrive_in_order {σ : Type} {messageCallback_ : σ → Buffer → Exec (σ × Buffer)}
    {Sendable : List UInt8 → Prop} {Heard : List UInt8 → σ → Buffer → Prop} {user : σ}
    (hlaw : Hears messageCallback_ Sendable user Heard) {conns : Side → TcpConnection}
    (hconns : ∀ i, Established (conns i)) {as : List (Side × Action)}
    (hlegal : (machine messageCallback_ Sendable).LegalRun (start user conns) as) :
    ∃ s, (machine messageCallback_ Sendable).run (start user conns) as = .ok s ∧
      ∀ i : Side, ∀ p q, s i = p → s i.peer = q →
        p.sent ++ p.dropped = as.flatMap (givenBy i) ∧
        (p.dropped ≠ [] → Frozen p.conn) ∧
        Heard q.received.flatten q.user q.inputBuffer_ ∧
        q.received.flatten <+: p.sent.flatten ∧
        (q.conn.state_ ≠ .kDisconnected →
          q.received.flatten ++ inTransit p q ++ p.conn.outputBuffer_.contents = p.sent.flatten) ∧
        (q.eof = true →
          q.received.flatten ++ p.conn.outputBuffer_.contents = p.sent.flatten ∧
          (SockCall.shutdownWrite [] ∈ p.conn.socket_.calls →
            q.received.flatten = p.sent.flatten)) := by
  obtain ⟨s, hrun, hinv, hgiven⟩ := given_run hlaw hconns hlegal
  refine ⟨s, hrun, fun i p q hp hq => ?_⟩
  subst hp hq
  have hflow := hinv.flow i
  exact ⟨hgiven i, (hinv.ends i).late, (hinv.ends i.peer).heard, hflow.inOrder,
    hflow.received_append, fun heof =>
      ⟨hflow.received_append_of_eof heof, hflow.received_of_shutdown (hinv.ends i) heof⟩⟩

/-! ### Users that keep all bytes -/

/-- A `messageCallback_` that takes everything out of the buffer. -/
def keepAll (kept : List UInt8) (b : Buffer) : Exec (List UInt8 × Buffer) := do
  let (bytes, b) ← b.retrieveAllAsString
  .ok (kept ++ bytes, b)

theorem hears_keepAll : Hears keepAll (fun _ => True) []
    fun xs kept b => b.Inv ∧ b.contents = [] ∧ kept = xs where
  start := ⟨Buffer.new_spec.1, Buffer.new_spec.2.1, rfl⟩
  buffer h := h.1
  receive := by
    intro xs bytes kept b b' _ h _ _ hb' hcontents
    obtain ⟨b'', hall, hinv, hempty⟩ := Buffer.retrieveAllAsString_spec hb'
    refine ⟨_, b'', by rw [keepAll, hall, ok_bind], hinv, hempty, ?_⟩
    rw [hcontents, h.2.1, h.2.2, List.nil_append]

instance {σ : Type} {Sendable : List UInt8 → Prop} [DecidablePred Sendable] (p q : End σ)
    (a : TcpStream.Action) : Decidable (OutputLegal Sendable p q a) :=
  match a with
  | .sendInLoop _ _ => inferInstanceAs (Decidable (_ ∧ _))
  | .handleWrite w => inferInstanceAs (Decidable (w.Possible _))
  | .beginShutdown | .shutdownInLoop => isTrue trivial
  | .handleClose => inferInstanceAs (Decidable (_ ∨ _))

instance {σ : Type} (p q : End σ) (result : Buffer.ReadvResult) :
    Decidable (ReadLegal p q result) :=
  match result with
  | .failed _ => isTrue trivial
  | .received [] => inferInstanceAs (Decidable (_ ∧ _))
  | .received (_ :: _) => inferInstanceAs (Decidable (_ ∧ _))

instance {σ : Type} {messageCallback_ : σ → Buffer → Exec (σ × Buffer)}
    {Sendable : List UInt8 → Prop} [DecidablePred Sendable] (s : System σ) (a : Side × Action) :
    Decidable ((machine messageCallback_ Sendable).legal s a) :=
  match a with
  | (i, .output a) => inferInstanceAs (Decidable (OutputLegal Sendable (s i) (s i.peer) a))
  | (i, .handleRead result) =>
      inferInstanceAs (Decidable (_ ∧ ReadLegal (s i.peer) (s i) result))

/-- A run in which users send less. -/
theorem legalRun_of_sendable {σ : Type} {messageCallback_ : σ → Buffer → Exec (σ × Buffer)}
    {Sendable Sendable' : List UInt8 → Prop} (h : ∀ data, Sendable data → Sendable' data)
    {s : System σ} {as : List (Side × Action)}
    (hlegal : (machine messageCallback_ Sendable).LegalRun s as) :
    (machine messageCallback_ Sendable').LegalRun s as := by
  refine @Machine.legalRun_mono _ _ (machine messageCallback_ Sendable)
    (machine messageCallback_ Sendable') rfl ?_ s as hlegal
  rintro s ⟨i, a⟩ ha
  cases a with
  | handleRead result => exact ha
  | output a =>
      cases a with
      | sendInLoop data w => exact ⟨h data ha.1, ha.2⟩
      | handleWrite w => exact ha
      | beginShutdown => exact ha
      | shutdownInLoop => exact ha
      | handleClose => exact ha

/-- A partial write, reads in between, an answer, and a message that runs behind the shutdown,
which the server does not get. -/
def exchange : List (Side × Action) :=
  [(.client, .output (.sendInLoop [1, 2, 3] (.wrote 1))),
    (.server, .handleRead (.received [1])),
    (.client, .output .beginShutdown), (.client, .output .shutdownInLoop),
    (.server, .output (.sendInLoop [7] (.wrote 1))),
    (.client, .output (.handleWrite (.wrote 2))),
    (.client, .output (.sendInLoop [9] (.failed .EPIPE))), (.server, .handleRead (.failed 11)),
    (.server, .handleRead (.received [2, 3])), (.server, .handleRead (.received [])),
    (.client, .handleRead (.received [7]))]

theorem streams_arrive_in_order_exchange :
    (∀ _ : Side, Established TcpStream.sampleStart) ∧
      (machine keepAll fun _ => True).LegalRun (start [] fun _ => TcpStream.sampleStart) exchange ∧
      ∃ s, (machine keepAll fun _ => True).run (start [] fun _ => TcpStream.sampleStart) exchange =
        .ok s ∧ (s .server).eof = true ∧ (s .server).user = [1, 2, 3] ∧
          (s .client).dropped = [[9]] := by
  have hconns : ∀ _ : Side, Established TcpStream.sampleStart := fun _ => ⟨7, 2, true, true, rfl⟩
  have hlegal : (machine keepAll fun _ => True).LegalRun (start [] fun _ => TcpStream.sampleStart)
      exchange := by decide +kernel
  obtain ⟨s, hrun, h⟩ := streams_arrive_in_order hears_keepAll hconns hlegal
  obtain ⟨s', hrun', heof⟩ := (machine keepAll fun _ => True).exists_of_endsWith
    (start [] fun _ => TcpStream.sampleStart) exchange
    (fun s => (s .server).eof && (s .client).sent == [[1, 2, 3]] &&
      (s .client).conn.outputBuffer_.contents == []) (by decide +kernel)
  obtain rfl : s = s' := Except.ok.inj (hrun.symm.trans hrun')
  simp only [Bool.and_eq_true, beq_iff_eq] at heof
  obtain ⟨⟨heof, hsent⟩, hempty⟩ := heof
  obtain ⟨hgiven, _, hheard, _, _, hended⟩ := h .client _ _ rfl rfl
  have hall := (hended heof).1
  rw [hempty, List.append_nil, hsent] at hall
  rw [hsent] at hgiven
  exact ⟨hconns, hlegal, s, hrun, heof, hheard.2.2.trans hall, List.append_cancel_left hgiven⟩

end Muduo.Net.TcpLink
