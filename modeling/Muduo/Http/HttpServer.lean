/-
  Http/HttpServer.lean --- `muduo/net/http/HttpServer.{h,cc}`: what the server does
  with the bytes of one connection.

  A connection has its context, its input buffer and the history of what the server
  did: requests passed to `onRequest`, bytes sent, the write side shut down.  Bytes
  keep arriving after a shutdown, until the peer closes.
-/
import Muduo.Foundation.Machine
import Muduo.Http.HttpParse
import Muduo.Http.HttpResponse

set_option autoImplicit false

namespace Muduo.Http

open Muduo.Foundation Muduo.Base Muduo.Net

/-- What `HttpServer` does on a connection. -/
inductive ServerEvent where
  /-- a request is passed to `onRequest` -/
  | request (req : HttpRequest)
  /-- `onRequest` sends a response -/
  | response (data : List UInt8)
  /-- `onMessage` answers a request that it could not parse -/
  | badRequest (data : List UInt8)
  /-- `conn->shutdown()` -/
  | shutdown
  deriving DecidableEq, Repr

/-- A connection of the server and what was done on it. -/
structure HttpConnection where
  context : HttpContext
  inputBuffer_ : Buffer
  events : List ServerEvent
  deriving DecidableEq, Repr

/-- `class HttpServer`, with the callback that `setHttpCallback` sets. -/
structure HttpServer where
  httpCallback_ : HttpRequest → HttpResponse → HttpResponse

/-- `onConnection`: a new connection gets a new context. -/
def HttpConnection.new : HttpConnection := ⟨.new, .new, []⟩

/-- A request was answered with 400. -/
def HttpConnection.rejected (s : HttpConnection) : Bool :=
  s.events.any fun
    | .badRequest _ => true
    | _ => false

/-- The requests that were passed to `onRequest`, without the times of their
arrival. -/
def HttpConnection.dispatched (s : HttpConnection) : List HttpRequest :=
  s.events.filterMap fun
    | .request req => some (req.setReceiveTime .new)
    | _ => none

namespace HttpServer

/-- `detail::defaultHttpCallback`. -/
def defaultHttpCallback (_ : HttpRequest) (resp : HttpResponse) : HttpResponse :=
  ((resp.setStatusCode .k404NotFound).setStatusMessage (ascii "Not Found")).setCloseConnection true

/-- The answer to a request that cannot be parsed. -/
def kBadRequest : List UInt8 := ascii "HTTP/1.1 400 Bad Request\r\n\r\n"

/-- `onRequest`.  The length of a `StringPiece` is left out of the response's bytes: it makes no
difference as long as no string of the response has 2^31 bytes or more
(`HttpResponse.appendAsPieces_of_fits`, Http/HttpFraming.lean). -/
def onRequest (server : HttpServer) (req : HttpRequest) : Exec (List ServerEvent) := do
  let connection := req.getHeader (ascii "Connection")
  let close := connection == ascii "close" ||
    (req.version_ == .kHttp10 && connection != ascii "Keep-Alive")
  let response := server.httpCallback_ req (.new close)
  let buf ← response.appendToBuffer Buffer.new
  .ok ([.request req, .response buf.contents] ++
    if response.closeConnection then [.shutdown] else [])

/-- `onMessage`. -/
def onMessage (assertions : Bool) (server : HttpServer) (s : HttpConnection)
    (receiveTime : Timestamp) : Exec HttpConnection := do
  let (ok, buf, context) ← parseRequest assertions s.inputBuffer_ s.context receiveTime
  let events := if ok then s.events else s.events ++ [.badRequest kBadRequest, .shutdown]
  if context.gotAll then do
    let answer ← server.onRequest context.request_
    .ok ⟨context.reset, buf, events ++ answer⟩
  else
    .ok ⟨context, buf, events⟩

/-- A chunk is appended to the input buffer, and `onMessage` is called. -/
def receive (assertions : Bool) (server : HttpServer) (s : HttpConnection)
    (chunk : List UInt8 × Timestamp) : Exec HttpConnection := do
  let inputBuffer_ ← s.inputBuffer_.append chunk.1
  server.onMessage assertions { s with inputBuffer_ } chunk.2

/-- A connection that any chunks may reach. -/
def machine (assertions : Bool) (server : HttpServer) :
    Machine HttpConnection (List UInt8 × Timestamp)
    where
  step := server.receive assertions
  legal _ _ := True

/-! ## One chunk -/

theorem onRequest_spec (server : HttpServer) (req : HttpRequest) :
    ∃ answer, server.onRequest req = .ok (.request req :: answer) ∧
      ∀ e ∈ answer, (∃ data, e = .response data) ∨ e = .shutdown := by
  unfold onRequest
  obtain ⟨b, hb, _⟩ := HttpResponse.appendToBuffer_spec
    (server.httpCallback_ req (.new (req.getHeader (ascii "Connection") == ascii "close" ||
      (req.version_ == .kHttp10 && req.getHeader (ascii "Connection") != ascii "Keep-Alive"))))
    Buffer.new_spec.1
  simp only [hb, ok_bind]
  refine ⟨_, rfl, ?_⟩
  intro e he
  rcases List.mem_cons.mp he with rfl | he
  · exact .inl ⟨_, rfl⟩
  · split at he
    · exact .inr (List.mem_singleton.mp he)
    · exact absurd he List.not_mem_nil

/-- What `onRequest` does on a connection adds the request to those dispatched. -/
theorem dispatched_of_answer {s : HttpConnection} {context : HttpContext} {buf : Buffer}
    {req : HttpRequest} {answer : List ServerEvent}
    (h : ∀ e ∈ answer, (∃ data, e = .response data) ∨ e = .shutdown) :
    HttpConnection.dispatched ⟨context, buf, s.events ++ .request req :: answer⟩ =
      s.dispatched ++ [req.setReceiveTime .new] := by
  have hnone : answer.filterMap (fun
      | .request req => some (req.setReceiveTime .new)
      | _ => none) = [] := by
    rw [List.filterMap_eq_nil_iff]
    intro e he
    rcases h e he with ⟨data, rfl⟩ | rfl <;> rfl
  simp only [HttpConnection.dispatched, List.filterMap_append, List.filterMap_cons, hnone]

/-- It rejects nothing. -/
theorem rejected_of_answer {s : HttpConnection} {context : HttpContext} {buf : Buffer}
    {req : HttpRequest} {answer : List ServerEvent}
    (h : ∀ e ∈ answer, (∃ data, e = .response data) ∨ e = .shutdown) :
    HttpConnection.rejected ⟨context, buf, s.events ++ .request req :: answer⟩ = s.rejected := by
  have hnone : answer.any (fun
      | .badRequest _ => true
      | _ => false) = false := by
    rw [List.any_eq_false]
    intro e he
    rcases h e he with ⟨data, rfl⟩ | rfl <;> simp
  simp [HttpConnection.rejected, hnone]

/-- What a connection is after a chunk, by where the decoder comes to on the
unconsumed bytes and the chunk: it waits for more, or has dispatched a request and
starts afresh, or has rejected the bytes. -/
theorem receive_spec {assertions : Bool} (server : HttpServer) {s : HttpConnection}
    (hb : s.inputBuffer_.Inv) (hready : s.context.Ready assertions)
    (chunk : List UInt8 × Timestamp) {p : Progress HttpContext UInt8}
    (hdrain : requestDecoder.Drains s.context.timeless (s.inputBuffer_.contents ++ chunk.1) p) :
    ∃ s', server.receive assertions s chunk = .ok s' ∧ s'.inputBuffer_.Inv ∧
      s'.inputBuffer_.contents = p.rest ∧
      (p.stopped = false → s'.context.timeless = p.state ∧ s'.context.Ready assertions ∧
        s'.dispatched = s.dispatched ∧ s'.rejected = s.rejected) ∧
      (p.stopped = true → p.state.gotAll = true → s'.context = p.state.reset ∧
        s'.dispatched = s.dispatched ++ [p.state.request_] ∧ s'.rejected = s.rejected) ∧
      (p.stopped = true → p.state.gotAll = false → s'.context.timeless = p.state ∧
        s'.rejected = true) := by
  obtain ⟨buf, hbuf, hinv, hcontents, _⟩ := Buffer.append_spec hb chunk.1
  rw [← hcontents] at hdrain
  obtain ⟨⟨ok, buf', context⟩, hparse, hparsed⟩ :=
    @parseRequest_spec assertions chunk.2 buf s.context hinv hready p hdrain
  have htimeless : context.timeless = p.state := hparsed.context
  have hgotAll : context.gotAll = p.state.gotAll := by
    rw [← htimeless]
    rfl
  have hok : ok = (!p.stopped || p.state.gotAll) := hparsed.ok_eq
  cases hdone : p.state.gotAll with
  | false =>
      have hreceive : server.receive assertions s chunk = .ok ⟨context, buf',
          if ok then s.events else s.events ++ [.badRequest kBadRequest, .shutdown]⟩ := by
        simp [receive, onMessage, hbuf, hparse, hgotAll, hdone]
      refine ⟨_, hreceive, hparsed.inv, hparsed.contents, ?_, fun _ h => absurd h (by simp), ?_⟩
      · intro hwait
        obtain ⟨htrue, hready'⟩ := hparsed.waiting hwait
        simp only at htrue
        simp only [htrue, if_true]
        exact ⟨htimeless, hready', rfl, rfl⟩
      · intro hstop _
        have hfalse : ok = false := by rw [hok, hstop, hdone]; rfl
        refine ⟨htimeless, ?_⟩
        simp [HttpConnection.rejected, hfalse]
  | true =>
      have htrue : ok = true := by rw [hok, hdone]; simp
      obtain ⟨answer, hanswer, hevents⟩ := onRequest_spec server context.request_
      have hreceive : server.receive assertions s chunk = .ok ⟨context.reset, buf',
          s.events ++ .request context.request_ :: answer⟩ := by
        simp [receive, onMessage, hbuf, hparse, hgotAll, hdone, htrue, hanswer]
      refine ⟨_, hreceive, hparsed.inv, hparsed.contents, ?_, ?_, fun _ h => absurd h (by simp)⟩
      · intro hwait
        have hnot := ready_not_gotAll (hparsed.waiting hwait).2
        exact absurd (hgotAll.symm.trans hnot) (by simp [hdone])
      · intro _ _
        refine ⟨by rw [← htimeless, timeless_reset], ?_, rejected_of_answer hevents⟩
        rw [dispatched_of_answer hevents, ← htimeless]
        rfl

/-! ## Every call returns -/

/-- The parser stops in a state from which it can go on, or with a complete head. -/
theorem ready_of_drains {context : HttpContext} {xs : List UInt8} {p : Progress HttpContext UInt8}
    (hdrain : requestDecoder.Drains context xs p) (hready : context.Ready false) :
    p.state.Ready false ∨ p.state.gotAll = true := by
  induction hdrain with
  | wait _ => exact .inl hready
  | next h _ ih =>
      obtain ⟨_, _, _, ⟨_, c, _, rfl⟩ | ⟨hstate, _, rfl⟩⟩ := lineAt_eq_next h
      · exact ih (.inr rfl)
      · exact ih (.inr hstate)
  | @stop context context' xs _ h =>
      obtain ⟨i, _, ⟨hstate, _, hline⟩ | ⟨_, _, _, rfl⟩⟩ := lineAt_eq_stop h
      · -- a bad request line leaves the parser where it was
        have hkeep := requestLine_state (xs.take i) context
        rw [hline] at hkeep
        exact .inl (.inl ⟨hkeep.trans hstate, fun h => absurd h (by simp)⟩)
      · exact .inr rfl

/-- What every chunk preserves when `assert` is compiled out. -/
def Waiting (s : HttpConnection) : Prop := s.inputBuffer_.Inv ∧ s.context.Ready false

theorem receive_waiting (server : HttpServer) {s : HttpConnection} (h : Waiting s)
    (chunk : List UInt8 × Timestamp) :
    ∃ s', server.receive false s chunk = .ok s' ∧ Waiting s' := by
  obtain ⟨hb, hready⟩ := h
  obtain ⟨p, hdrain⟩ := requestDecoder.exists_drains s.context.timeless
    (s.inputBuffer_.contents ++ chunk.1)
  obtain ⟨s', hs', hinv, _, hwait, hdone, hbad⟩ := receive_spec server hb hready chunk hdrain
  refine ⟨s', hs', hinv, ?_⟩
  cases hstopped : p.stopped with
  | false => exact (hwait hstopped).2.1
  | true =>
      cases hgotAll : p.state.gotAll with
      | true =>
          rw [(hdone hstopped hgotAll).1]
          exact .inl ⟨rfl, fun _ => rfl⟩
      | false =>
          -- after a 400 the context is where the bad request line was found
          obtain hready' | hgot := ready_of_drains hdrain (ready_timeless.mpr hready)
          · rw [← (hbad hstopped hgotAll).1] at hready'
            exact ready_timeless.mp hready'
          · exact absurd (hgotAll.symm.trans hgot) (by simp)

/-- Whatever was received: the next call of `parseRequest` finds the context in one of the two
states in which its loop makes progress, the loop ends after at most one round for each readable
byte and one more, and `onMessage` returns. -/
theorem onMessage_returns (server : HttpServer) (chunks : List (List UInt8 × Timestamp)) :
    ∃ s, (server.machine false).run .new chunks = .ok s ∧
      (s.context.state_ = .kExpectRequestLine ∨ s.context.state_ = .kExpectHeaders) ∧
      ∀ chunk : List UInt8 × Timestamp, ∃ buf r s',
        s.inputBuffer_.append chunk.1 = .ok buf ∧
        Loop.run (parseBody false chunk.2) (buf.readableBytes + 1) (buf, s.context) = .ok r ∧
        server.onMessage false { s with inputBuffer_ := buf } chunk.2 = .ok s' := by
  have hlegal : (server.machine false).LegalRun .new chunks :=
    Machine.legalRun_of_forall (fun _ _ => trivial) _ _
  obtain ⟨s, hrun, hb, hready⟩ := Machine.run_invariant Waiting
    (fun s chunk h _ => receive_waiting server h chunk)
    ⟨Buffer.new_spec.1, .inl ⟨rfl, fun _ => rfl⟩⟩ hlegal
  refine ⟨s, hrun, hready.imp_left And.left, ?_⟩
  intro chunk
  obtain ⟨buf, hbuf, hinv, _⟩ := Buffer.append_spec hb chunk.1
  obtain ⟨p, hdrain⟩ := requestDecoder.exists_drains s.context.timeless buf.contents
  obtain ⟨r, hparse, _⟩ := @parseRequest_spec false chunk.2 buf s.context hinv hready p hdrain
  obtain ⟨s', hreceive, _⟩ := receive_waiting server ⟨hb, hready⟩ chunk
  rw [receive, hbuf, ok_bind] at hreceive
  exact ⟨buf, r, s', hbuf, hparse, hreceive⟩

end HttpServer

end Muduo.Http
