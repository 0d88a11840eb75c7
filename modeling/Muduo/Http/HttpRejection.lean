/-
  Http/HttpRejection.lean --- connections on which a request was rejected.

  A bad request line stays at the front of the input buffer, and the context keeps
  what `processRequestLine` has stored in it before it found the line bad.  The
  read side stays enabled, so with the next chunk the same line is parsed again:
  when it names a supported method, `setMethod` finds the method already set, and
  its assertion fails (`second_chunk_trips_assertion`).  `no_assertion_fails_iff`
  says that this is the only way.
-/
import Muduo.Http.HttpServer

set_option autoImplicit false

namespace Muduo.Http

open Muduo.Foundation Muduo.Base Muduo.Net

/-! ## Bad request lines -/

/-- A supported method stands before the first space of the line. -/
def namesMethod (line : List UInt8) : Bool :=
  line.idxOf 32 != line.length && Method.ofString (line.take (line.idxOf 32)) != .kInvalid

/-- The line at the front of some bytes is complete and names a supported method. -/
def frontNamesMethod (xs : List UInt8) : Bool :=
  match search Buffer.kCRLF xs with
  | some i => namesMethod (xs.take i)
  | none => false

theorem processVersion_method (request : HttpRequest) (version : List UInt8) :
    (processVersion request version).2.method_ = request.method_ := by
  unfold processVersion
  split
  · split
    · rfl
    · split <;> rfl
  · rfl

theorem processPath_method (request : HttpRequest) (rest : List UInt8) :
    (processPath request rest).2.method_ = request.method_ := by
  unfold processPath
  by_cases hspace : rest.idxOf 32 ≠ rest.length
  · simp only [if_pos hspace, processVersion_method]
    rfl
  · simp only [if_neg hspace]

/-- After a line was read into a context without a method, a method is set exactly
if the line names one. -/
theorem requestLine_method {line : List UInt8} {context : HttpContext}
    (h : context.request_.method_ = .kInvalid) :
    (requestLine line context).2.request_.method_ ≠ .kInvalid ↔ namesMethod line = true := by
  unfold requestLine namesMethod
  by_cases hspace : line.idxOf 32 ≠ line.length
  · cases hmethod : Method.ofString (line.take (line.idxOf 32)) <;>
      simp [hspace, HttpRequest.assignMethod, hmethod, HttpContext.withRequest, processPath_method]
  · simp [hspace, h]

theorem processVersion_fst (request request' : HttpRequest) (version : List UInt8) :
    (processVersion request version).1 = (processVersion request' version).1 := by
  unfold processVersion
  by_cases hform : version.length = 8 ∧ version.take 7 = ascii "HTTP/1."
  · simp only [if_pos hform]
    by_cases hone : version[7]? = some 49
    · simp only [if_pos hone]
    · simp only [if_neg hone]
      by_cases hzero : version[7]? = some 48
      · simp only [if_pos hzero]
      · simp only [if_neg hzero]
  · simp only [if_neg hform]

theorem processPath_fst (request request' : HttpRequest) (rest : List UInt8) :
    (processPath request rest).1 = (processPath request' rest).1 := by
  unfold processPath
  by_cases hspace : rest.idxOf 32 ≠ rest.length
  · simp only [if_pos hspace]
    exact processVersion_fst _ _ _
  · simp only [if_neg hspace]

/-- Whether a line is bad does not depend on the context. -/
theorem requestLine_fst (line : List UInt8) (context context' : HttpContext) :
    (requestLine line context).1 = (requestLine line context').1 := by
  unfold requestLine
  by_cases hspace : line.idxOf 32 ≠ line.length
  · cases hmethod : Method.ofString (line.take (line.idxOf 32)) with
    | kInvalid => simp [hspace, HttpRequest.assignMethod, hmethod]
    | _ =>
        simp only [if_pos hspace, HttpRequest.assignMethod, hmethod]
        exact processPath_fst _ _ _
  · simp only [if_neg hspace]

/-- A context and unconsumed bytes left behind by a bad request line. -/
structure Stuck (context : HttpContext) (xs : List UInt8) : Prop where
  state : context.state_ = .kExpectRequestLine
  line : ∃ i, search Buffer.kCRLF xs = some i ∧ (requestLine (xs.take i) context).1 = false
  method : context.request_.method_ ≠ .kInvalid ↔ frontNamesMethod xs = true

/-- What a bad request line leaves behind. -/
theorem stuck_of_bad_line {context : HttpContext} {xs : List UInt8} {i : Nat}
    (hstate : context.state_ = .kExpectRequestLine)
    (hmethod : context.request_.method_ = .kInvalid)
    (hsearch : search Buffer.kCRLF xs = some i)
    (hbad : (requestLine (xs.take i) context).1 = false) :
    Stuck (requestLine (xs.take i) context).2 xs := by
  refine ⟨(requestLine_state _ _).trans hstate, ⟨i, hsearch, ?_⟩, ?_⟩
  · rw [requestLine_fst _ _ context, hbad]
  · rw [requestLine_method hmethod]
    simp only [frontNamesMethod, hsearch]

/-- A decoder that stops without a complete head is stuck. -/
theorem stuck_of_drains {context : HttpContext} {xs : List UInt8} {p : Progress HttpContext UInt8}
    (hdrain : requestDecoder.Drains context xs p) (hready : context.Ready true)
    (hstop : p.stopped = true) (hbad : p.state.gotAll = false) : Stuck p.state p.rest := by
  induction hdrain with
  | wait h => exact absurd hstop (by simp)
  | next h _ ih =>
      refine ih ?_ hstop hbad
      obtain ⟨_, _, _, ⟨_, c, _, rfl⟩ | ⟨hstate, _, rfl⟩⟩ := lineAt_eq_next h
      · exact .inr rfl
      · exact .inr hstate
  | stop h =>
      obtain ⟨i, hsearch, ⟨hstate, rfl, hline⟩ | ⟨_, _, _, rfl⟩⟩ := lineAt_eq_stop h
      · have hstuck := stuck_of_bad_line hstate (hready.method hstate rfl) hsearch (by rw [hline])
        rw [hline] at hstuck
        exact hstuck
      · exact absurd hbad (by simp [HttpContext.gotAll, HttpContext.receiveHeaders])

/-! ## Connections -/

namespace HttpServer

/-- The invariant of a connection: it can parse, or it is stuck behind a rejected
line. -/
structure ConnInv (s : HttpConnection) : Prop where
  buffer : s.inputBuffer_.Inv
  context : s.rejected = false ∧ s.context.Ready true ∨
    s.rejected = true ∧ Stuck s.context s.inputBuffer_.contents

/-- No chunk is received after a 400 if the rejected line, which is still at the
front of the buffer, names a supported method. -/
def NotAfterRejection (s : HttpConnection) (_ : List UInt8 × Timestamp) : Prop :=
  ¬ (s.rejected = true ∧ frontNamesMethod s.inputBuffer_.contents = true)

instance (s : HttpConnection) (chunk : List UInt8 × Timestamp) :
    Decidable (NotAfterRejection s chunk) := inferInstanceAs (Decidable (¬ _))

/-- A connection whose context can parse takes every chunk. -/
theorem receive_of_ready (server : HttpServer) {s : HttpConnection} (hb : s.inputBuffer_.Inv)
    (hready : s.context.Ready true) (hrejected : s.rejected = true → ∃ p,
      requestDecoder.step s.context.timeless s.inputBuffer_.contents = .stop p 0 ∧
        p.gotAll = false)
    (chunk : List UInt8 × Timestamp) :
    ∃ s', server.receive true s chunk = .ok s' ∧ ConnInv s' := by
  obtain ⟨p, hdrain⟩ := requestDecoder.exists_drains s.context.timeless
    (s.inputBuffer_.contents ++ chunk.1)
  obtain ⟨s', hs', hinv, hcontents, hwait, hdone, hbad⟩ :=
    receive_spec server hb hready chunk hdrain
  refine ⟨s', hs', hinv, ?_⟩
  -- a rejected line is rejected again
  have hagain : s.rejected = true → p.stopped = true ∧ p.state.gotAll = false := by
    intro h
    obtain ⟨c, hstep, hc⟩ := hrejected h
    have hstep' : requestDecoder.step s.context.timeless (s.inputBuffer_.contents ++ chunk.1) =
        .stop c 0 := by
      rw [requestDecoder.stable _ _ _ (by simp [hstep]), hstep]
    obtain rfl := hdrain.unique (.stop hstep')
    exact ⟨rfl, hc⟩
  cases hstopped : p.stopped with
  | false =>
      obtain ⟨_, hready', _, hrej⟩ := hwait hstopped
      left
      refine ⟨?_, hready'⟩
      cases hr : s.rejected with
      | false => rw [hrej, hr]
      | true => exact absurd (hagain hr).1 (by simp [hstopped])
  | true =>
      cases hgotAll : p.state.gotAll with
      | true =>
          obtain ⟨hcontext, _, hrej⟩ := hdone hstopped hgotAll
          left
          refine ⟨?_, hcontext ▸ .inl ⟨rfl, fun _ => rfl⟩⟩
          cases hr : s.rejected with
          | false => rw [hrej, hr]
          | true => exact absurd (hagain hr).2 (by simp [hgotAll])
      | false =>
          obtain ⟨hcontext, hrej⟩ := hbad hstopped hgotAll
          have hstuck := stuck_of_drains hdrain (ready_timeless.mpr hready) hstopped hgotAll
          right
          refine ⟨hrej, ?_⟩
          rw [hcontents]
          rw [← hcontext] at hstuck
          obtain ⟨i, hsearch, hline⟩ := hstuck.line
          exact ⟨hstuck.state, ⟨i, hsearch, by rw [requestLine_fst _ _ s'.context.timeless, hline]⟩,
            hstuck.method⟩

/-- A connection that is stuck behind a line with a method does not survive the next
chunk. -/
theorem receive_of_stuck (server : HttpServer) {s : HttpConnection} (hb : s.inputBuffer_.Inv)
    (hstuck : Stuck s.context s.inputBuffer_.contents)
    (hfront : frontNamesMethod s.inputBuffer_.contents = true)
    (chunk : List UInt8 × Timestamp) : server.receive true s chunk = .error .assertion := by
  obtain ⟨i, hsearch, _⟩ := hstuck.line
  have hle := search_kCRLF_le hsearch
  obtain ⟨buf, hbuf, hinv, hcontents, _⟩ := Buffer.append_spec hb chunk.1
  have hsearch' : search Buffer.kCRLF buf.contents = some i := by
    rw [hcontents]
    exact search_append chunk.1 hsearch
  have htake : buf.contents.take i = s.inputBuffer_.contents.take i := by
    rw [hcontents, List.take_append_of_le_length (by omega)]
  obtain ⟨hfind, hslice, _⟩ := findCRLF_spec hinv hsearch'
  have hmethod : s.context.request_.method_ ≠ .kInvalid := hstuck.method.mpr hfront
  have hspace : (s.inputBuffer_.contents.take i).idxOf 32 ≠
      (s.inputBuffer_.contents.take i).length := by
    simp only [frontNamesMethod, hsearch, namesMethod, Bool.and_eq_true, bne_iff_ne] at hfront
    exact hfront.1
  have hline : processRequestLine true (s.inputBuffer_.contents.take i) s.context =
      .error .assertion := by
    simp only [processRequestLine, if_pos hspace, HttpRequest.setMethod]
    rw [assertThat_of_not (fun h => hmethod (h trivial))]
    rfl
  have hbody : parseBody true chunk.2 (buf, s.context) = .error .assertion := by
    simp only [parseBody, HttpContext.expectRequestLine, hstuck.state, beq_self_eq_true, if_true,
      hfind, hslice, htake, hline, error_bind]
  have hparse : parseRequest true buf s.context chunk.2 = .error .assertion :=
    Loop.run_succ_of_error hbody buf.readableBytes
  simp [receive, onMessage, hbuf, hparse]

/-- A chunk that does not come after such a rejection is taken. -/
theorem receive_ok (server : HttpServer) {s : HttpConnection} (h : ConnInv s)
    {chunk : List UInt8 × Timestamp} (hquiet : NotAfterRejection s chunk) :
    ∃ s', server.receive true s chunk = .ok s' ∧ ConnInv s' := by
  obtain ⟨hno, hready⟩ | ⟨hrejected, hstuck⟩ := h.context
  · exact receive_of_ready server h.buffer hready
      (fun hrej => absurd (hno.symm.trans hrej) (by simp)) chunk
  have hmethod : s.context.request_.method_ = .kInvalid := by
    by_contra hne
    exact hquiet ⟨hrejected, hstuck.method.mp hne⟩
  refine receive_of_ready server h.buffer (.inl ⟨hstuck.state, fun _ => hmethod⟩) ?_ chunk
  intro _
  obtain ⟨i, hsearch, hline⟩ := hstuck.line
  refine ⟨(requestLine (s.inputBuffer_.contents.take i) s.context.timeless).2, ?_, ?_⟩
  · rcases hresult : requestLine (s.inputBuffer_.contents.take i) s.context.timeless with
      ⟨ok, context⟩
    have hok : ok = false := by
      rw [requestLine_fst _ _ s.context.timeless, hresult] at hline
      exact hline
    simp only [requestDecoder, lineAt, hsearch, takeLine, timeless_state, hstuck.state,
      hresult, hok]
  · simp [HttpContext.gotAll, requestLine_state, hstuck.state]

/-- A chunk that does is not. -/
theorem receive_error (server : HttpServer) {s : HttpConnection} (h : ConnInv s)
    {chunk : List UInt8 × Timestamp} (hlate : ¬ NotAfterRejection s chunk) :
    server.receive true s chunk = .error .assertion := by
  obtain ⟨hrejected, hfront⟩ := not_not.mp hlate
  obtain ⟨hno, _⟩ | ⟨_, hstuck⟩ := h.context
  · exact absurd (hno.symm.trans hrejected) (by simp)
  · exact receive_of_stuck server h.buffer hstuck hfront chunk

theorem connInv_new : ConnInv .new :=
  ⟨Buffer.new_spec.1, .inl ⟨rfl, .inl ⟨rfl, fun _ => rfl⟩⟩⟩

/-- No assertion fails on a connection if and only if no chunk is received after a
request was rejected whose line names a supported method. -/
theorem no_assertion_fails_iff (server : HttpServer) (chunks : List (List UInt8 × Timestamp)) :
    (∃ s, (server.machine true).run .new chunks = .ok s) ↔
      ((server.machine true).restrict NotAfterRejection).LegalRun .new chunks := by
  have hlegal : (server.machine true).LegalRun .new chunks :=
    Machine.legalRun_of_forall (fun _ _ => trivial) _ _
  refine Machine.exists_run_iff_legalRun ConnInv ?_ ?_ connInv_new hlegal
  · intro s chunk hs _ hquiet
    exact receive_ok server hs hquiet
  · intro s chunk hs _ hlate
    exact ⟨_, receive_error server hs hlate⟩

/-- A supported method with an unsupported version; then one more byte. -/
def attack : List (List UInt8 × Timestamp) :=
  [(ascii "GET / HTTP/9.9\r\n", ⟨1⟩), (ascii "\n", ⟨2⟩)]

/-- The request is answered with 400, and the next byte aborts the server. -/
theorem second_chunk_trips_assertion :
    (machine true ⟨defaultHttpCallback⟩).run .new attack = .error .assertion := by
  decide +kernel

end HttpServer

end Muduo.Http
