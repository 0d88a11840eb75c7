/-
  Http/HttpAnswers.lean --- what goes out on a connection of an `HttpServer`.

  `onMessage` runs in the loop thread, so `conn->send` and `conn->shutdown` are executed
  inside it: the answer is written at once or buffered, and the write side is shut down at
  once or behind the buffer.  After the first answer that closes, the connection is
  `kDisconnecting`: requests that arrive later are still dispatched, but `send` drops
  their answers.

  The bytes of a response are those of `HttpServer.onRequest`, which are what the source sends
  while no string of the response has 2^31 bytes or more (`output_of_fits`).

  So in every run the bytes on the wire are the answers to the requests in their order,
  up to the first one that closes, and the write side is shut down behind its last byte
  (`answers_in_order`).
-/
import Muduo.Http.HttpFraming
import Muduo.Http.HttpPipeline
import Muduo.Net.TcpLink

set_option autoImplicit false

namespace Muduo.Http.HttpAnswers

open Muduo.Foundation Muduo.Base Muduo.Net

/-! ## Outcomes -/

/-- What `onMessage` may find: a request, or bytes that are none. -/
inductive Outcome where
  | answered (req : HttpRequest)
  | rejected
  deriving DecidableEq, Repr

/-- The response that `onRequest` makes. -/
def responseTo (server : HttpServer) (req : HttpRequest) : HttpResponse :=
  let connection := req.getHeader (ascii "Connection")
  let close := connection == ascii "close" ||
    (req.version_ == .kHttp10 && connection != ascii "Keep-Alive")
  server.httpCallback_ req (.new close)

namespace Outcome

variable (server : HttpServer)

/-- The bytes that are given to `send`. -/
def answer : Outcome → List UInt8
  | .answered req => (responseTo server req).pieces.flatten
  | .rejected => HttpServer.kBadRequest

/-- `shutdown` follows. -/
def closes : Outcome → Bool
  | .answered req => (responseTo server req).closeConnection
  | .rejected => true

/-- What `onMessage` does. -/
def events : Outcome → List ServerEvent
  | .answered req => [.request req, .response (Outcome.answer server (.answered req))] ++
      if Outcome.closes server (.answered req) then [.shutdown] else []
  | .rejected => [.badRequest HttpServer.kBadRequest, .shutdown]

end Outcome

/-- The bytes that the pieces of the response make as `StringPiece`s. -/
theorem output_of_fits {server : HttpServer} {req : HttpRequest}
    (hfits : (responseTo server req).Fits) :
    (responseTo server req).output = .ok ((Outcome.answered req).answer server) := by
  obtain ⟨b, hb, _, hcontents⟩ := (responseTo server req).appendToBuffer_spec Buffer.new_spec.1
  rw [Buffer.new_spec.2.1, List.nil_append] at hcontents
  rw [HttpResponse.output, HttpResponse.appendAsPieces_of_fits hfits, hb, ok_bind, hcontents]
  rfl

/-- The answers that go out: up to the first one that closes. -/
def sentFor (server : HttpServer) : List Outcome → List UInt8
  | [] => []
  | o :: os => o.answer server ++ if o.closes server then [] else sentFor server os

theorem sentFor_append_of_open {server : HttpServer} {os : List Outcome} (more : List Outcome)
    (h : ∀ o ∈ os, o.closes server = false) :
    sentFor server (os ++ more) = sentFor server os ++ sentFor server more := by
  induction os with
  | nil => rfl
  | cons o os ih =>
      have ho := h o List.mem_cons_self
      have hrest := ih fun o' ho' => h o' (List.mem_cons_of_mem o ho')
      simp [sentFor, ho, hrest]

theorem sentFor_append_of_closed {server : HttpServer} {os : List Outcome} (more : List Outcome)
    (h : ∃ o ∈ os, o.closes server = true) : sentFor server (os ++ more) = sentFor server os := by
  induction os with
  | nil =>
      obtain ⟨_, hmem, _⟩ := h
      exact absurd hmem List.not_mem_nil
  | cons o os ih =>
      cases hclose : o.closes server with
      | true => simp [sentFor, hclose]
      | false =>
          obtain ⟨o', hmem, hcloses⟩ := h
          rcases List.mem_cons.mp hmem with rfl | hmem
          · exact absurd (hcloses.symm.trans hclose) (by simp)
          · simp [sentFor, hclose, ih ⟨o', hmem, hcloses⟩]

theorem onRequest_eq (server : HttpServer) (req : HttpRequest) :
    server.onRequest req = .ok ((Outcome.answered req).events server) := by
  obtain ⟨b, hb, _, hcontents⟩ := (responseTo server req).appendToBuffer_spec Buffer.new_spec.1
  rw [Buffer.new_spec.2.1, List.nil_append] at hcontents
  have hrun : server.onRequest req = (do
      let buf ← (responseTo server req).appendToBuffer Buffer.new
      .ok ([.request req, .response buf.contents] ++
        if (responseTo server req).closeConnection then [.shutdown] else [])) := rfl
  rw [hrun, hb, ok_bind, hcontents]
  rfl

/-- A chunk adds the events of its outcomes. -/
theorem receive_outcomes {server : HttpServer} {s s' : HttpConnection}
    {chunk : List UInt8 × Timestamp} (h : server.receive false s chunk = .ok s') :
    ∃ os : List Outcome, s'.events = s.events ++ os.flatMap (Outcome.events server) := by
  obtain ⟨_, _, h⟩ := bind_eq_ok_iff.mp h
  obtain ⟨⟨ok, buf, context⟩, _, h⟩ := bind_eq_ok_iff.mp h
  have hbad : ∃ os : List Outcome,
      (if ok then s.events else s.events ++ [.badRequest HttpServer.kBadRequest, .shutdown]) =
        s.events ++ os.flatMap (Outcome.events server) := by
    cases ok with
    | true => exact ⟨[], by simp⟩
    | false => exact ⟨[.rejected], by simp [Outcome.events]⟩
  obtain ⟨os, hos⟩ := hbad
  simp only at h
  split at h
  · rw [onRequest_eq, ok_bind] at h
    obtain rfl := Except.ok.inj h
    refine ⟨os ++ [.answered context.request_], ?_⟩
    simp only [hos, List.flatMap_append, List.flatMap_singleton, List.append_assoc]
  · obtain rfl := Except.ok.inj h
    exact ⟨os, hos⟩

/-! ## The connection -/

/-- A connection of the server. -/
structure HttpEnd where
  conn : TcpConnection
  http : HttpConnection

/-- What `onMessage` and `onRequest` do with the connection; `w` is what `write(2)` returns.
A call writes at most once, since a 400 is followed by `shutdown`. -/
def perform (w : WriteResult) (conn : TcpConnection) : ServerEvent → Exec TcpConnection
  | .request _ => .ok conn
  | .response data | .badRequest data => conn.send data w
  | .shutdown => .ok conn.shutdown

/-- A step of the loop thread on the connection. -/
inductive Action where
  /-- `handleRead` has read a chunk and calls `onMessage` -/
  | handleRead (chunk : List UInt8 × Timestamp) (w : WriteResult)
  | handleWrite (w : WriteResult)
  | handleClose
  deriving DecidableEq, Repr

section Machine

variable (server : HttpServer)

/-- `handleRead`, when a chunk was read. -/
def handleRead (e : HttpEnd) (chunk : List UInt8 × Timestamp) (w : WriteResult) : Exec HttpEnd := do
  let http ← server.receive false e.http chunk
  let conn ← (http.events.drop e.http.events.length).foldlM (perform w) e.conn
  .ok ⟨conn, http⟩

/-- What a step does. -/
def step (e : HttpEnd) : Action → Exec HttpEnd
  | .handleRead chunk w => handleRead server e chunk w
  | .handleWrite w => do .ok { e with conn := ← e.conn.handleWrite w }
  | .handleClose => do .ok { e with conn := ← e.conn.handleClose }

/-- `write(2)` can return this for an answer. -/
def PossibleFor (w : WriteResult) : ServerEvent → Prop
  | .response data | .badRequest data => w.Possible data.length
  | .request _ | .shutdown => True

/-- No channel reports events of a closed connection, and no direct write finds a broken pipe. -/
def Legal (e : HttpEnd) : Action → Prop
  | .handleRead chunk w => e.conn.state_ ≠ .kDisconnected ∧ w ≠ .failed .EPIPE ∧
      match server.receive false e.http chunk with
      | .ok http => ∀ event ∈ http.events.drop e.http.events.length, PossibleFor w event
      | .error _ => True
  | .handleWrite w => w.Possible e.conn.outputBuffer_.readableBytes
  | .handleClose => e.conn.state_ = .kConnected ∨ e.conn.state_ = .kDisconnecting

/-- A connection of the server. -/
def machine : Machine HttpEnd Action := ⟨step server, Legal server⟩

end Machine

/-- A new connection. -/
def start (conn : TcpConnection) : HttpEnd := ⟨conn, .new⟩

/-! ## The invariant -/

/-- What the connection has been told, when `os` were the outcomes. -/
structure Told (server : HttpServer) (os : List Outcome) (c : TcpConnection) : Prop where
  out : TcpLink.Out c
  stream : c.stream = sentFor server os
  connected : c.state_ = .kConnected →
    (∀ o ∈ os, o.closes server = false) ∧ c.socket_.isShut = false
  disconnecting : c.state_ = .kDisconnecting →
    (∃ o ∈ os, o.closes server = true) ∧ (c.outputBuffer_.contents = [] → c.socket_.isShut = true)

/-- What holds of a connection whose outcomes were `os`. -/
structure Inv (server : HttpServer) (os : List Outcome) (e : HttpEnd) : Prop where
  told : Told server os e.conn
  waiting : HttpServer.Waiting e.http
  events : e.http.events = os.flatMap (Outcome.events server)

section Steps

variable {server : HttpServer} {os : List Outcome} {c : TcpConnection} {w : WriteResult}

theorem told_established (h : TcpLink.Established c) : Told server [] c := by
  obtain ⟨hout, hstream, hcalls⟩ := TcpLink.out_established h
  obtain ⟨_, _, _, _, h⟩ := h
  have hstate : c.state_ = .kConnected := by
    rw [← Except.ok.inj h]
    rfl
  refine ⟨hout, hstream, fun _ => ⟨fun _ hmem => absurd hmem List.not_mem_nil, ?_⟩, fun hdis => ?_⟩
  · rw [Socket.isShut, hcalls]
    rfl
  · exact absurd (hstate.symm.trans hdis) (by simp)

/-- `send` on a connection that is up. -/
theorem Told.send (h : Told server os c) (hup : c.state_ = .kConnected) {data : List UInt8}
    (hw : w.Possible data.length) (hpipe : w ≠ .failed .EPIPE) :
    ∃ c', c.send data w = .ok c' ∧ TcpLink.Out c' ∧ c'.state_ = .kConnected ∧
      c'.socket_.isShut = false ∧ c'.stream = sentFor server os ++ data := by
  obtain ⟨_, hshut⟩ := h.connected hup
  have hlive : c.state_ ≠ .kDisconnected := by
    rw [hup]
    simp
  have hopen : ¬ TcpLink.Frozen c := fun hf =>
    hf.elim (fun h => absurd (hshut.symm.trans h) (by simp)) hlive
  obtain ⟨c', hc', hout, hstate, _, hstream⟩ := TcpLink.sendInLoop_of_open h.out hopen hw
  obtain ⟨c'', hc'', _, _, hsocket, _⟩ := TcpConnection.sendInLoop_spec
    (h.out.live hlive).1 hlive hw
  obtain rfl := Except.ok.inj (hc'.symm.trans hc'')
  refine ⟨c', by rw [TcpConnection.send, if_pos hup, hc'], hout, hstate.trans hup, ?_, ?_⟩
  · rw [hsocket]
    split
    · exact hshut
    · rw [Socket.isShut_write, hshut]
  · rw [hstream hpipe, h.stream]

/-- Behind `shutdownInLoop` the write side is shut down, unless bytes are left. -/
theorem isShut_shutdownInLoop (hout : c.OutputInv)
    (hnil : c.shutdownInLoop.outputBuffer_.contents = []) :
    c.shutdownInLoop.socket_.isShut = true := by
  rw [TcpConnection.shutdownInLoop_spec hout] at hnil ⊢
  cases hwriting : c.channel_.isWriting with
  | true =>
      rw [if_pos hwriting] at hnil
      exact absurd hnil (hout.writing.mp hwriting)
  | false => simp [Socket.isShut, Socket.shutdownWrite, SockCall.isShutdown]

/-- `shutdown` on a connection that is up. -/
theorem shutdown_of_connected (h : TcpLink.Out c) (hup : c.state_ = .kConnected) :
    TcpLink.Out c.shutdown ∧ c.shutdown.stream = c.stream ∧ c.shutdown.state_ = .kDisconnecting ∧
      (c.shutdown.outputBuffer_.contents = [] → c.shutdown.socket_.isShut = true) := by
  have hbegin : TcpStream.beginShutdown c = c.setState .kDisconnecting := if_pos hup
  have hshutdown : c.shutdown = (TcpStream.beginShutdown c).shutdownInLoop := by
    rw [TcpConnection.shutdown, if_pos hup, hbegin]
  have hsilent := TcpLink.silent_beginShutdown h
  have hstate : (TcpStream.beginShutdown c).state_ = .kDisconnecting := by
    rw [hbegin]
    rfl
  have hout : (TcpStream.beginShutdown c).OutputInv := (hsilent.out.live (by simp [hstate])).1
  rw [hshutdown]
  exact ⟨(TcpLink.silent_shutdownInLoop hsilent.out).out,
    (TcpConnection.shutdownInLoop_stream _).trans hsilent.stream,
    (TcpConnection.shutdownInLoop_control _).state.trans hstate, isShut_shutdownInLoop hout⟩

theorem perform_events (o : Outcome) :
    (o.events server).foldlM (perform w) c = (do
      let c' ← c.send (o.answer server) w
      .ok (if o.closes server then c'.shutdown else c')) := by
  cases o with
  | rejected => rfl
  | answered req =>
      simp only [Outcome.events]
      cases Outcome.closes server (.answered req) <;> rfl

theorem possible_answer {o : Outcome} (h : ∀ event ∈ o.events server, PossibleFor w event) :
    w.Possible (o.answer server).length := by
  cases o with
  | rejected => exact h (.badRequest HttpServer.kBadRequest) List.mem_cons_self
  | answered req =>
      exact h (.response (Outcome.answer server (.answered req)))
        (List.mem_append_left _ (List.mem_cons_of_mem _ List.mem_cons_self))

/-- What one outcome does to the connection. -/
theorem Told.outcome (h : Told server os c) (hlive : c.state_ ≠ .kDisconnected) {o : Outcome}
    (hw : ∀ event ∈ o.events server, PossibleFor w event) (hpipe : w ≠ .failed .EPIPE) :
    ∃ c', (o.events server).foldlM (perform w) c = .ok c' ∧ c'.state_ ≠ .kDisconnected ∧
      Told server (os ++ [o]) c' := by
  rw [perform_events]
  by_cases hup : c.state_ = .kConnected
  · have hopen := (h.connected hup).1
    obtain ⟨c', hc', hout, hup', hshut, hstream⟩ := h.send hup (possible_answer hw) hpipe
    rw [hc', ok_bind]
    have hsent : sentFor server (os ++ [o]) = sentFor server os ++ o.answer server := by
      rw [sentFor_append_of_open [o] hopen]
      cases hclose : o.closes server <;> simp [sentFor, hclose]
    cases hclose : o.closes server with
    | true =>
        obtain ⟨hout', hstream', hstate, hend⟩ := shutdown_of_connected hout hup'
        refine ⟨_, rfl, by simp [hstate], hout', ?_, fun hcon => ?_, fun _ => ⟨?_, hend⟩⟩
        · rw [if_pos rfl, hstream', hstream, hsent]
        · exact absurd (hstate.symm.trans hcon) (by simp)
        · exact ⟨o, List.mem_append_right _ List.mem_cons_self, hclose⟩
    | false =>
        refine ⟨_, rfl, by simp [hup'], hout, ?_, fun _ => ⟨fun o' ho' => ?_, hshut⟩,
          fun hdis => ?_⟩
        · rw [if_neg (by simp), hstream, hsent]
        · rcases List.mem_append.mp ho' with ho' | ho'
          · exact hopen o' ho'
          · rw [List.mem_singleton.mp ho', hclose]
        · exact absurd (hup'.symm.trans hdis) (by simp)
  · -- the connection is being shut down: nothing is sent, and nothing more is done
    have hdown : c.state_ = .kDisconnecting := by
      have hbegun := h.out.begun
      cases hstate : c.state_ <;> simp_all
    have hsend : c.send (o.answer server) w = .ok c := if_neg hup
    have hshutdown : c.shutdown = c := if_neg hup
    rw [hsend, ok_bind, hshutdown, ite_self]
    obtain ⟨⟨o', ho', hclosed⟩, hend⟩ := h.disconnecting hdown
    refine ⟨c, rfl, hlive, h.out, ?_, fun hcon => absurd hcon hup, fun _ => ⟨?_, hend⟩⟩
    · rw [sentFor_append_of_closed [o] ⟨o', ho', hclosed⟩, h.stream]
    · exact ⟨o', List.mem_append_left _ ho', hclosed⟩

theorem Told.outcomes (h : Told server os c) (hlive : c.state_ ≠ .kDisconnected)
    {more : List Outcome}
    (hw : ∀ event ∈ more.flatMap (Outcome.events server), PossibleFor w event)
    (hpipe : w ≠ .failed .EPIPE) :
    ∃ c', (more.flatMap (Outcome.events server)).foldlM (perform w) c = .ok c' ∧
      Told server (os ++ more) c' := by
  induction more generalizing os c with
  | nil => exact ⟨c, rfl, by rwa [List.append_nil]⟩
  | cons o more ih =>
      rw [List.flatMap_cons] at hw ⊢
      obtain ⟨c₁, hc₁, hlive₁, htold₁⟩ := h.outcome hlive
        (fun event he => hw event (List.mem_append_left _ he)) hpipe
      obtain ⟨c', hc', htold⟩ := ih htold₁ hlive₁ fun event he =>
        hw event (List.mem_append_right _ he)
      refine ⟨c', ?_, by rwa [List.append_assoc] at htold⟩
      rw [List.foldlM_append, hc₁]
      exact hc'

theorem shutdownIfDisconnecting_state (c : TcpConnection) :
    c.shutdownIfDisconnecting.state_ = c.state_ := by
  unfold TcpConnection.shutdownIfDisconnecting
  split
  · exact (TcpConnection.shutdownInLoop_control c).state
  · rfl

theorem Told.handleWrite (h : Told server os c) (hw : w.Possible c.outputBuffer_.readableBytes) :
    ∃ c', c.handleWrite w = .ok c' ∧ Told server os c' := by
  obtain ⟨c', hrun, hsilent⟩ := TcpLink.silent_handleWrite h.out hw
  by_cases hdis : c.state_ = .kDisconnected
  · have hgone := hsilent.closed hdis
    exact ⟨c', hrun, hsilent.out, hsilent.stream.trans h.stream,
      fun hcon => absurd (hgone.symm.trans hcon) (by simp),
      fun hcon => absurd (hgone.symm.trans hcon) (by simp)⟩
  · obtain ⟨hout, _⟩ := h.out.live hdis
    obtain ⟨c₁, drained, hc₁, hout₁, hcontrol, hsocket, _, hdrained⟩ :=
      TcpConnection.writeOutput_spec hout hw
    have hshut₁ : c₁.socket_.isShut = c.socket_.isShut := by
      rw [hsocket]
      split
      · exact Socket.isShut_write _ _ _
      · rfl
    have heq := hrun
    rw [TcpConnection.handleWrite, hc₁, ok_bind] at heq
    obtain rfl := Except.ok.inj heq
    have hstate : (if drained then c₁.shutdownIfDisconnecting else c₁).state_ = c.state_ := by
      rw [← hcontrol.state]
      split
      · exact shutdownIfDisconnecting_state c₁
      · rfl
    refine ⟨_, hrun, hsilent.out, hsilent.stream.trans h.stream, fun hup => ?_, fun hdown => ?_⟩
    · rw [hstate] at hup
      obtain ⟨hopen, hshut⟩ := h.connected hup
      have hsame : c₁.shutdownIfDisconnecting = c₁ :=
        if_neg (by rw [hcontrol.state, hup]; simp)
      rw [hsame, ite_self]
      exact ⟨hopen, hshut₁.trans hshut⟩
    · rw [hstate] at hdown
      obtain ⟨hclosed, hend⟩ := h.disconnecting hdown
      have hthen : c₁.shutdownIfDisconnecting = c₁.shutdownInLoop :=
        if_pos (hcontrol.state.trans hdown)
      refine ⟨hclosed, ?_⟩
      cases hcase : drained with
      | true =>
          rw [if_pos rfl, hthen]
          exact isShut_shutdownInLoop hout₁
      | false =>
          intro hnil
          rw [if_neg (by simp)] at hnil ⊢
          -- nothing was there to write, so the write side was shut down before
          have hidle₁ : c₁.channel_.isWriting = false :=
            Bool.eq_false_iff.mpr fun hwriting => hout₁.writing.mp hwriting hnil
          have hidle : c.channel_.isWriting = false :=
            Bool.eq_false_iff.mpr fun hwriting =>
              absurd (hcase.symm.trans (hdrained.mpr ⟨hwriting, hidle₁⟩)) (by simp)
          exact hshut₁.trans (hend (hout.contents_eq_nil hidle))

theorem Told.handleClose (h : Told server os c)
    (hlive : c.state_ = .kConnected ∨ c.state_ = .kDisconnecting) :
    ∃ c', c.handleClose = .ok c' ∧ Told server os c' := by
  obtain ⟨c', hc', hstate, hsilent⟩ := TcpLink.silent_handleClose h.out hlive
  exact ⟨c', hc', hsilent.out, hsilent.stream.trans h.stream,
    fun hcon => absurd (hstate.symm.trans hcon) (by simp),
    fun hcon => absurd (hstate.symm.trans hcon) (by simp)⟩

theorem inv_step {e : HttpEnd} (h : Inv server os e) {a : Action} (hlegal : Legal server e a) :
    ∃ e' os', step server e a = .ok e' ∧ Inv server os' e' := by
  cases a with
  | handleRead chunk w =>
      obtain ⟨hlive, hpipe, hw⟩ := hlegal
      obtain ⟨http, hreceive, hwaiting⟩ := HttpServer.receive_waiting server h.waiting chunk
      obtain ⟨more, hmore⟩ := receive_outcomes hreceive
      have hnew : http.events.drop e.http.events.length = more.flatMap (Outcome.events server) := by
        rw [hmore, List.drop_left]
      rw [hreceive] at hw
      simp only [hnew] at hw
      obtain ⟨conn, hconn, htold⟩ := h.told.outcomes hlive hw hpipe
      refine ⟨⟨conn, http⟩, os ++ more, ?_, htold, hwaiting, ?_⟩
      · simp only [step, handleRead, hreceive, ok_bind, hnew, hconn]
      · rw [hmore, h.events, List.flatMap_append]
  | handleWrite w =>
      obtain ⟨conn, hconn, htold⟩ := h.told.handleWrite hlegal
      exact ⟨{ e with conn := conn }, os, by simp only [step, hconn, ok_bind], htold, h.waiting,
        h.events⟩
  | handleClose =>
      obtain ⟨conn, hconn, htold⟩ := h.told.handleClose hlegal
      exact ⟨{ e with conn := conn }, os, by simp only [step, hconn, ok_bind], htold, h.waiting,
        h.events⟩

end Steps

/-! ## What is promised -/

/-- In every run of an established connection, with any server callback, whatever arrives and
however much each write takes: the bytes that the kernel has accepted and those in
`outputBuffer_` are the answers to what `onMessage` found, in order, up to the first one that
closes.  As long as none closes the write side is open; then it is shut down exactly when
nothing is left to write. -/
theorem answers_in_order (server : HttpServer) {conn : TcpConnection}
    (hconn : TcpLink.Established conn) {actions : List Action}
    (hlegal : (machine server).LegalRun (start conn) actions) :
    ∃ e os, (machine server).run (start conn) actions = .ok e ∧
      e.http.events = os.flatMap (Outcome.events server) ∧
      e.conn.socket_.accepted ++ e.conn.outputBuffer_.contents = sentFor server os ∧
      (e.conn.state_ = .kConnected →
        (∀ o ∈ os, o.closes server = false) ∧ e.conn.socket_.isShut = false) ∧
      (e.conn.state_ = .kDisconnecting →
        (∃ o ∈ os, o.closes server = true) ∧
          (e.conn.socket_.isShut = true ↔ e.conn.outputBuffer_.contents = [])) := by
  obtain ⟨e, hrun, os, hinv⟩ := Machine.run_invariant (fun e => ∃ os, Inv server os e)
    (by
      rintro e a ⟨os, h⟩ hlegal
      obtain ⟨e', os', hstep, h'⟩ := inv_step h hlegal
      exact ⟨e', hstep, os', h'⟩)
    ⟨[], told_established hconn, ⟨Buffer.new_spec.1, .inl ⟨rfl, fun _ => rfl⟩⟩, rfl⟩ hlegal
  have htold := hinv.told
  refine ⟨e, os, hrun, hinv.events, htold.stream, htold.connected, fun hdown => ?_⟩
  obtain ⟨hclosed, hend⟩ := htold.disconnecting hdown
  refine ⟨hclosed, fun hshut => ?_, hend⟩
  exact (htold.out.idle_of_isShut (by simp [hdown]) hshut).1

instance (w : WriteResult) (event : ServerEvent) : Decidable (PossibleFor w event) :=
  match event with
  | .response _ | .badRequest _ => inferInstanceAs (Decidable (w.Possible _))
  | .request _ | .shutdown => isTrue trivial

instance (server : HttpServer) (e : HttpEnd) (a : Action) :
    Decidable ((machine server).legal e a) :=
  match a with
  | .handleRead chunk w =>
      have : Decidable (match server.receive false e.http chunk with
          | .ok http => ∀ event ∈ http.events.drop e.http.events.length, PossibleFor w event
          | .error _ => True) :=
        match server.receive false e.http chunk with
        | .ok _ => inferInstanceAs (Decidable (∀ event ∈ _, _))
        | .error _ => isTrue trivial
      inferInstanceAs (Decidable (_ ∧ _ ∧ _))
  | .handleWrite w => inferInstanceAs (Decidable (w.Possible _))
  | .handleClose => inferInstanceAs (Decidable (_ ∨ _))

/-- The kernel cuts the answer to a request; then come bytes that are none, and what comes
behind them is not answered any more. -/
def closingRun : List Action :=
  [.handleRead (HttpServer.sampleRequest.bytes, ⟨1⟩) (.wrote 9),
    .handleRead (ascii "nonsense\r\n", ⟨2⟩) (.wrote 0), .handleWrite (.wrote 5),
    .handleRead (HttpServer.sampleRequest.bytes, ⟨3⟩) (.wrote 0), .handleWrite (.wrote 76)]

theorem answers_in_order_closingRun :
    TcpLink.Established TcpStream.sampleStart ∧
      (machine HttpServer.sampleServer).LegalRun (start TcpStream.sampleStart) closingRun ∧
      ∃ e os, (machine HttpServer.sampleServer).run
        (start TcpStream.sampleStart) closingRun = .ok e ∧
        e.http.events = os.flatMap (Outcome.events HttpServer.sampleServer) ∧
        e.conn.socket_.accepted ++ e.conn.outputBuffer_.contents =
          sentFor HttpServer.sampleServer os := by
  have hconn : TcpLink.Established TcpStream.sampleStart := ⟨7, 2, true, true, rfl⟩
  have hlegal : (machine HttpServer.sampleServer).LegalRun
    (start TcpStream.sampleStart) closingRun := by
    decide +kernel
  obtain ⟨e, os, hrun, hevents, hstream, _⟩ := answers_in_order HttpServer.sampleServer hconn hlegal
  exact ⟨hconn, hlegal, e, os, hrun, hevents, hstream⟩

end Muduo.Http.HttpAnswers
