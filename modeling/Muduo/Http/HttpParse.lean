/-
  Http/HttpParse.lean --- `parseRequest` and `processRequestLine` of
  `muduo/net/http/HttpServer.cc`.

  The parser keeps its state in two places: the bytes it has not consumed stay in
  the buffer, the rest is in the context.  `requestDecoder` is the parser on byte
  lists; `parseRequest_spec` says that a call of `parseRequest` drains it, and
  `parse_segmentation` that the way the bytes were cut into chunks does not matter.

  The time at which a chunk arrived is stored in the request, so contexts are
  compared without it (`timeless`).
-/
import Muduo.Foundation.Segment
import Muduo.Http.HttpRequest
import Muduo.Net.Buffer

set_option autoImplicit false

namespace Muduo.Http

open Muduo.Foundation Muduo.Base Muduo.Net

/-! ## The code -/

/-- The end of `processRequestLine`: what follows the second space. -/
def processVersion (request : HttpRequest) (version : List UInt8) : Bool × HttpRequest :=
  if version.length = 8 ∧ version.take 7 = ascii "HTTP/1." then
    if version[7]? = some 49 then (true, request.setVersion .kHttp11)
    else if version[7]? = some 48 then (true, request.setVersion .kHttp10)
    else (false, request)
  else (false, request)

/-- The part of `processRequestLine` behind `setMethod`; `rest` follows the first
space. -/
def processPath (request : HttpRequest) (rest : List UInt8) : Bool × HttpRequest :=
  let space := rest.idxOf 32
  if space ≠ rest.length then
    processVersion (request.setPath (rest.take space)) (rest.drop (space + 1))
  else (false, request)

/-- `processRequestLine(begin, end, context)`; `line` is what lies between the
pointers. -/
def processRequestLine (assertions : Bool) (line : List UInt8) (context : HttpContext) :
    Exec (Bool × HttpContext) :=
  let space := line.idxOf 32
  if space ≠ line.length then do
    let (succeed, request) ← context.request_.setMethod assertions (line.take space)
    if succeed then
      let (succeed, request) := processPath request (line.drop (space + 1))
      .ok (succeed, context.withRequest request)
    else .ok (false, context.withRequest request)
  else .ok (false, context)

/-- One round of the `while` loop of `parseRequest`.  In the states that it does not
expect the loop goes round without doing anything. -/
def parseBody (assertions : Bool) (receiveTime : Timestamp) (s : Buffer × HttpContext) :
    Exec ((Buffer × HttpContext) ⊕ (Bool × Buffer × HttpContext)) :=
  let (buf, context) := s
  if context.expectRequestLine then
    match buf.findCRLF with
    | some crlf => do
        let (ok, context) ← processRequestLine assertions (buf.slice buf.peek crlf) context
        if ok then
          let context := context.withRequest (context.request_.setReceiveTime receiveTime)
          .ok (.inl (← buf.retrieveUntil (crlf + 2), context.receiveRequestLine))
        else .ok (.inr (false, buf, context))
    | none => .ok (.inr (true, buf, context))
  else if context.expectHeaders then
    match buf.findCRLF with
    | some crlf =>
        let line := buf.slice buf.peek crlf
        let colon := line.idxOf 58
        if colon ≠ line.length then do
          let context := context.withRequest (context.request_.addHeader line colon)
          .ok (.inl (← buf.retrieveUntil (crlf + 2), context))
        else do
          let context := context.receiveHeaders
          let hasMore := !context.gotAll
          let buf ← buf.retrieveUntil (crlf + 2)
          .ok (if hasMore then .inl (buf, context) else .inr (true, buf, context))
    | none => .ok (.inr (true, buf, context))
  else .ok (.inl (buf, context))

/-- `parseRequest`: the return value, the buffer and the context after it.  Every
round that goes on consumes a line, so the fuel runs out only if the loop spins. -/
def parseRequest (assertions : Bool) (buf : Buffer) (context : HttpContext)
    (receiveTime : Timestamp) : Exec (Bool × Buffer × HttpContext) :=
  Loop.run (parseBody assertions receiveTime) (buf.readableBytes + 1) (buf, context)

/-! ## The parser on byte lists -/

/-- `processRequestLine` when no assertion fails. -/
def requestLine (line : List UInt8) (context : HttpContext) : Bool × HttpContext :=
  let space := line.idxOf 32
  if space ≠ line.length then
    let (succeed, request) := context.request_.assignMethod (line.take space)
    if succeed then
      let (succeed, request) := processPath request (line.drop (space + 1))
      (succeed, context.withRequest request)
    else (false, context.withRequest request)
  else (false, context)

theorem processRequestLine_eq {assertions : Bool} {line : List UInt8} {context : HttpContext}
    (h : assertions = true → context.request_.method_ = .kInvalid) :
    processRequestLine assertions line context = .ok (requestLine line context) := by
  unfold processRequestLine requestLine
  by_cases hspace : line.idxOf 32 ≠ line.length
  · rcases hassign : context.request_.assignMethod
      (line.take (line.idxOf 32)) with ⟨succeed, request⟩
    cases succeed <;> simp [hspace, HttpRequest.setMethod, assertThat_of h, hassign]
  · simp [hspace]

/-- A header line with a colon. -/
def headerLine (line : List UInt8) (context : HttpContext) : HttpContext :=
  context.withRequest (context.request_.addHeader line (line.idxOf 58))

/-- What the parser does with a line of the input, which takes up `size` bytes with
its terminator.  A bad request line is not consumed. -/
def takeLine (line : List UInt8) (size : Nat) (context : HttpContext) : Verdict HttpContext :=
  match context.state_ with
  | .kExpectRequestLine =>
      match requestLine line context with
      | (true, context) => .next context.receiveRequestLine size
      | (false, context) => .stop context 0
  | .kExpectHeaders =>
      if 58 ∈ line then .next (headerLine line context) size
      else .stop context.receiveHeaders size
  | .kExpectBody | .kGotAll => .wait

/-- A line that was found lies inside the bytes, with its terminator. -/
theorem search_kCRLF_le {xs : List UInt8} {i : Nat} (h : search Buffer.kCRLF xs = some i) :
    i + 2 ≤ xs.length := search_add_length_le h

/-- What `parseRequest` does with the bytes in the buffer: it takes the line at their
front, if there is one. -/
def lineAt (context : HttpContext) (xs : List UInt8) : Verdict HttpContext :=
  match search Buffer.kCRLF xs with
  | some i => takeLine (xs.take i) (i + 2) context
  | none => .wait

theorem lineAt_append {context : HttpContext} {xs : List UInt8} (ys : List UInt8)
    (h : lineAt context xs ≠ .wait) : lineAt context (xs ++ ys) = lineAt context xs := by
  unfold lineAt at h ⊢
  rcases hsearch : search Buffer.kCRLF xs with _ | i
  · simp [hsearch] at h
  · have hle := search_kCRLF_le hsearch
    simp only [search_append ys hsearch]
    rw [List.take_append_of_le_length (by omega)]

/-- The lines on which the parser goes on. -/
theorem lineAt_eq_next {context context' : HttpContext} {xs : List UInt8} {n : Nat}
    (h : lineAt context xs = .next context' n) :
    ∃ i, search Buffer.kCRLF xs = some i ∧ n = i + 2 ∧
      ((context.state_ = .kExpectRequestLine ∧ ∃ c, requestLine (xs.take i) context = (true, c) ∧
          context' = c.receiveRequestLine) ∨
        (context.state_ = .kExpectHeaders ∧ 58 ∈ xs.take i ∧
          context' = headerLine (xs.take i) context)) := by
  unfold lineAt at h
  rcases hsearch : search Buffer.kCRLF xs with _ | i
  · simp [hsearch] at h
  simp only [hsearch] at h
  unfold takeLine at h
  cases hstate : context.state_ with
  | kExpectRequestLine =>
      simp only [hstate] at h
      rcases hline : requestLine (xs.take i) context with ⟨ok, c⟩
      rw [hline] at h
      cases ok with
      | false => exact absurd h (by simp)
      | true =>
          obtain ⟨rfl, rfl⟩ := Verdict.next.inj h
          exact ⟨i, rfl, rfl, .inl ⟨rfl, c, hline, rfl⟩⟩
  | kExpectHeaders =>
      simp only [hstate] at h
      by_cases hcolon : 58 ∈ xs.take i
      · rw [if_pos hcolon] at h
        obtain ⟨rfl, rfl⟩ := Verdict.next.inj h
        exact ⟨i, rfl, rfl, .inr ⟨rfl, hcolon, rfl⟩⟩
      · rw [if_neg hcolon] at h
        exact absurd h (by simp)
  | kExpectBody => simp [hstate] at h
  | kGotAll => simp [hstate] at h

/-- The lines on which the parser stops: a bad request line, which is not consumed,
and a header line without a colon. -/
theorem lineAt_eq_stop {context context' : HttpContext} {xs : List UInt8} {n : Nat}
    (h : lineAt context xs = .stop context' n) :
    ∃ i, search Buffer.kCRLF xs = some i ∧
      ((context.state_ = .kExpectRequestLine ∧ n = 0 ∧
          requestLine (xs.take i) context = (false, context')) ∨
        (context.state_ = .kExpectHeaders ∧ n = i + 2 ∧ 58 ∉ xs.take i ∧
          context' = context.receiveHeaders)) := by
  unfold lineAt at h
  rcases hsearch : search Buffer.kCRLF xs with _ | i
  · simp [hsearch] at h
  simp only [hsearch] at h
  unfold takeLine at h
  cases hstate : context.state_ with
  | kExpectRequestLine =>
      simp only [hstate] at h
      rcases hline : requestLine (xs.take i) context with ⟨ok, c⟩
      rw [hline] at h
      cases ok with
      | false =>
          obtain ⟨rfl, rfl⟩ := Verdict.stop.inj h
          exact ⟨i, rfl, .inl ⟨rfl, rfl, hline⟩⟩
      | true => exact absurd h (by simp)
  | kExpectHeaders =>
      simp only [hstate] at h
      by_cases hcolon : 58 ∈ xs.take i
      · rw [if_pos hcolon] at h
        exact absurd h (by simp)
      · rw [if_neg hcolon] at h
        obtain ⟨rfl, rfl⟩ := Verdict.stop.inj h
        exact ⟨i, rfl, .inr ⟨rfl, rfl, hcolon, rfl⟩⟩
  | kExpectBody => simp [hstate] at h
  | kGotAll => simp [hstate] at h

theorem lineAt_next {context context' : HttpContext} {xs : List UInt8} {n : Nat}
    (h : lineAt context xs = .next context' n) : 0 < n ∧ n ≤ xs.length := by
  obtain ⟨i, hsearch, rfl, _⟩ := lineAt_eq_next h
  exact ⟨Nat.succ_pos _, search_kCRLF_le hsearch⟩

theorem lineAt_stop {context context' : HttpContext} {xs : List UInt8} {n : Nat}
    (h : lineAt context xs = .stop context' n) : n ≤ xs.length := by
  obtain ⟨i, hsearch, ⟨_, rfl, _⟩ | ⟨_, rfl, _⟩⟩ := lineAt_eq_stop h
  · exact Nat.zero_le _
  · exact search_kCRLF_le hsearch

/-- The parser as a decoder. -/
def requestDecoder : Decoder HttpContext UInt8 where
  step := lineAt
  stable _ _ ys h := lineAt_append ys h
  next_consumes _ _ _ _ h := lineAt_next h
  stop_consumes _ _ _ _ h := lineAt_stop h

/-- The request line leaves the state of the parser to `parseRequest`. -/
theorem requestLine_state (line : List UInt8) (context : HttpContext) :
    (requestLine line context).2.state_ = context.state_ := by
  unfold requestLine
  by_cases hspace : line.idxOf 32 ≠ line.length
  · rcases hassign : context.request_.assignMethod (line.take (line.idxOf 32)) with
      ⟨succeed, request⟩
    cases succeed <;> simp [hspace, hassign, HttpContext.withRequest]
  · simp [hspace]

/-! ## Contexts without the time -/

/-- A context without the time at which its request arrived. -/
def HttpContext.timeless (context : HttpContext) : HttpContext :=
  context.withRequest (context.request_.setReceiveTime .new)

@[simp] theorem timeless_state (context : HttpContext) : context.timeless.state_ = context.state_ :=
  rfl

theorem timeless_reset (context : HttpContext) : context.timeless.reset = context.reset := rfl

theorem processVersion_setReceiveTime (request : HttpRequest) (version : List UInt8)
    (t : Timestamp) :
    processVersion (request.setReceiveTime t) version =
      ((processVersion request version).1, (processVersion request version).2.setReceiveTime
      t) := by
  unfold processVersion
  by_cases hform : version.length = 8 ∧ version.take 7 = ascii "HTTP/1."
  · by_cases hone : version[7]? = some 49
    · simp only [if_pos hform, if_pos hone]
      rfl
    · by_cases hzero : version[7]? = some 48
      · simp only [if_pos hform, if_neg hone, if_pos hzero]
        rfl
      · simp only [if_pos hform, if_neg hone, if_neg hzero]
  · simp only [if_neg hform]

theorem processPath_setReceiveTime (request : HttpRequest) (rest : List UInt8) (t : Timestamp) :
    processPath (request.setReceiveTime t) rest =
      ((processPath request rest).1, (processPath request rest).2.setReceiveTime t) := by
  unfold processPath
  by_cases hspace : rest.idxOf 32 ≠ rest.length
  · simp only [if_pos hspace]
    exact processVersion_setReceiveTime (request.setPath (rest.take (rest.idxOf 32))) _ t
  · simp only [if_neg hspace]

/-- The request line is read without a look at the time. -/
theorem requestLine_timeless (line : List UInt8) (context : HttpContext) :
    requestLine line context.timeless =
      ((requestLine line context).1, (requestLine line context).2.timeless) := by
  unfold requestLine
  by_cases hspace : line.idxOf 32 ≠ line.length
  · have hassign : context.timeless.request_.assignMethod (line.take (line.idxOf 32)) =
        ((context.request_.assignMethod (line.take (line.idxOf 32))).1,
          (context.request_.assignMethod (line.take (line.idxOf 32))).2.setReceiveTime .new) := rfl
    rcases hrequest : context.request_.assignMethod (line.take (line.idxOf 32)) with
      ⟨succeed, request⟩
    rw [hrequest] at hassign
    cases succeed with
    | false =>
        simp only [if_pos hspace, hassign, hrequest]
        rfl
    | true =>
        simp only [if_pos hspace, hassign, hrequest, processPath_setReceiveTime]
        rfl
  · simp only [if_neg hspace]

theorem requestLine_of_timeless {line : List UInt8} {context c : HttpContext} {ok : Bool}
    (h : requestLine line context.timeless = (ok, c)) :
    ∃ c', requestLine line context = (ok, c') ∧ c = c'.timeless := by
  rw [requestLine_timeless] at h
  obtain ⟨hok, rfl⟩ := Prod.mk.inj h
  exact ⟨(requestLine line context).2, Prod.ext hok rfl, rfl⟩

/-! ## A round of the loop -/

/-- The contexts with which `parseRequest` may be called: the loop does not spin,
and `setMethod` finds no method set. -/
def HttpContext.Ready (assertions : Bool) (context : HttpContext) : Prop :=
  context.state_ = .kExpectRequestLine ∧ (assertions = true →
    context.request_.method_ = .kInvalid) ∨
    context.state_ = .kExpectHeaders

theorem HttpContext.Ready.method {assertions : Bool} {context : HttpContext}
    (h : context.Ready assertions) (hstate : context.state_ = .kExpectRequestLine) :
    assertions = true → context.request_.method_ = .kInvalid := by
  obtain ⟨_, hmethod⟩ | hheaders := h
  · exact hmethod
  · exact absurd (hheaders.symm.trans hstate) (by simp)

section Round

variable {assertions : Bool} {receiveTime : Timestamp} {buf : Buffer} {context : HttpContext}

/-- The line at the front of the buffer, and the buffer without it. -/
theorem findCRLF_spec (hb : buf.Inv) {i : Nat}
    (hsearch : search Buffer.kCRLF buf.contents = some i) :
    buf.findCRLF = some (buf.peek + i) ∧ buf.slice buf.peek (buf.peek + i) = buf.contents.take i ∧
      ∃ buf', buf.retrieveUntil (buf.peek + i + 2) = .ok buf' ∧ buf'.Inv ∧
        buf'.contents = buf.contents.drop (i + 2) := by
  have hle := search_kCRLF_le hsearch
  rw [Buffer.contents_length hb] at hle
  refine ⟨by rw [Buffer.findCRLF, hsearch]; rfl, Buffer.slice_peek (by omega), ?_⟩
  rw [Nat.add_assoc]
  exact Buffer.retrieveUntil_spec hb hle

/-- Without a complete line the loop ends, and nothing changes. -/
theorem parseBody_of_no_line (hready : context.Ready assertions)
    (hsearch : search Buffer.kCRLF buf.contents = none) :
    parseBody assertions receiveTime (buf, context) = .ok (.inr (true, buf, context)) := by
  have hfind : buf.findCRLF = none := by rw [Buffer.findCRLF, hsearch]; rfl
  obtain ⟨hstate, _⟩ | hstate := hready
  · simp [parseBody, HttpContext.expectRequestLine, hstate, hfind]
  · simp [parseBody, HttpContext.expectRequestLine, HttpContext.expectHeaders, hstate, hfind]

theorem parseBody_of_request_line (hb : buf.Inv) (hstate : context.state_ = .kExpectRequestLine)
    (hmethod : assertions = true → context.request_.method_ = .kInvalid) {i : Nat}
    (hsearch : search Buffer.kCRLF buf.contents = some i) :
    ∃ buf', buf'.Inv ∧ buf'.contents = buf.contents.drop (i + 2) ∧
      parseBody assertions receiveTime (buf, context) =
        match requestLine (buf.contents.take i) context with
        | (true, c) =>
            .ok (.inl (buf', (c.withRequest (c.request_.setReceiveTime
              receiveTime)).receiveRequestLine))
        | (false, c) => .ok (.inr (false, buf, c)) := by
  obtain ⟨hfind, hslice, buf', hbuf', hinv, hcontents⟩ := findCRLF_spec hb hsearch
  refine ⟨buf', hinv, hcontents, ?_⟩
  simp only [parseBody, HttpContext.expectRequestLine, hstate, beq_self_eq_true, if_true, hfind,
    hslice, processRequestLine_eq hmethod, ok_bind]
  rcases requestLine (buf.contents.take i) context with ⟨ok, c⟩
  cases ok with
  | false => rfl
  | true => simp [hbuf']

theorem parseBody_of_header_line (hb : buf.Inv) (hstate : context.state_ = .kExpectHeaders)
    {i : Nat} (hsearch : search Buffer.kCRLF buf.contents = some i) :
    ∃ buf', buf'.Inv ∧ buf'.contents = buf.contents.drop (i + 2) ∧
      parseBody assertions receiveTime (buf, context) =
        if 58 ∈ buf.contents.take i then .ok (.inl (buf', headerLine (buf.contents.take i) context))
        else .ok (.inr (true, buf', context.receiveHeaders)) := by
  obtain ⟨hfind, hslice, buf', hbuf', hinv, hcontents⟩ := findCRLF_spec hb hsearch
  refine ⟨buf', hinv, hcontents, ?_⟩
  have hrequestLine : context.expectRequestLine = false := by
    simp [HttpContext.expectRequestLine, hstate]
  have hheaders : context.expectHeaders = true := by simp [HttpContext.expectHeaders, hstate]
  -- `std::find` returns `end` exactly when there is no colon
  have hcolon : (buf.contents.take i).idxOf 58 ≠ (buf.contents.take i).length ↔
      58 ∈ buf.contents.take i := by
    have hle : (buf.contents.take i).idxOf 58 ≤ (buf.contents.take i).length :=
      List.idxOf_le_length
    rw [← List.idxOf_lt_length_iff]
    omega
  simp only [parseBody, hrequestLine, hheaders, Bool.false_eq_true, if_false, if_true,
    hfind, hslice,
    hbuf', ok_bind]
  by_cases hmem : 58 ∈ buf.contents.take i
  · simp only [if_pos hmem, if_pos (hcolon.mpr hmem)]
    rfl
  · simp only [if_neg hmem, if_neg (hcolon.not.mpr hmem)]
    rfl

end Round

/-! ## A call of `parseRequest` -/

/-- The code's buffer and context beside the decoder's bytes and state. -/
def Parsing (assertions : Bool) (s : Buffer × HttpContext) (c : HttpContext) (xs : List UInt8) :
    Prop :=
  s.1.Inv ∧ s.1.contents = xs ∧ s.2.timeless = c ∧ s.2.Ready assertions

/-- The result of `parseRequest` beside where the decoder has come to: it returns
`false` for a bad request line, and `true` for a complete head or for want of more
bytes. -/
structure Parsed (assertions : Bool) (r : Bool × Buffer × HttpContext)
    (p : Progress HttpContext UInt8) : Prop where
  inv : r.2.1.Inv
  contents : r.2.1.contents = p.rest
  context : r.2.2.timeless = p.state
  waiting : p.stopped = false → r.1 = true ∧ r.2.2.Ready assertions
  stopped : p.stopped = true → r.1 = r.2.2.gotAll

theorem ready_not_gotAll {assertions : Bool} {context : HttpContext}
    (h : context.Ready assertions) : context.gotAll = false := by
  obtain ⟨hstate, _⟩ | hstate := h <;> simp [HttpContext.gotAll, hstate]

section Call

variable {assertions : Bool} {receiveTime : Timestamp}

/-- A context that does not wait for more although there is a line has an
unexpected state. -/
theorem takeLine_ne_wait {line : List UInt8} {size : Nat} {context : HttpContext}
    (hready : context.Ready assertions) : takeLine line size context ≠ .wait := by
  unfold takeLine
  obtain ⟨hstate, _⟩ | hstate := hready
  · rw [hstate]
    rcases requestLine line context with ⟨ok, c⟩
    cases ok <;> simp
  · rw [hstate]
    by_cases hcolon : 58 ∈ line <;> simp [hcolon]

theorem ready_timeless {context : HttpContext} :
    context.timeless.Ready assertions ↔ context.Ready assertions := Iff.rfl

theorem parseBody_of_wait {s : Buffer × HttpContext} {c : HttpContext} {xs : List UInt8}
    (hs : Parsing assertions s c xs) (hstep : requestDecoder.step c xs = .wait) :
    ∃ r, parseBody assertions receiveTime s = .ok (.inr r) ∧
      Parsed assertions r ⟨c, xs, false⟩ := by
  obtain ⟨buf, context⟩ := s
  obtain ⟨hb, rfl, rfl, hready⟩ := hs
  rcases hsearch : search Buffer.kCRLF buf.contents with _ | i
  · exact ⟨_, parseBody_of_no_line hready hsearch, hb, rfl, rfl, fun _ => ⟨rfl, hready⟩,
      fun h => absurd h (by simp)⟩
  · simp only [requestDecoder, lineAt, hsearch] at hstep
    exact absurd hstep (takeLine_ne_wait (ready_timeless.mpr hready))

theorem parseBody_of_next {s : Buffer × HttpContext} {c c' : HttpContext} {xs : List UInt8}
    {n : Nat} (hs : Parsing assertions s c xs) (hstep : requestDecoder.step c xs = .next c' n) :
    ∃ s', parseBody assertions receiveTime s = .ok (.inl s') ∧
      Parsing assertions s' c' (xs.drop n) := by
  obtain ⟨buf, context⟩ := s
  obtain ⟨hb, rfl, rfl, hready⟩ := hs
  obtain ⟨i, hsearch, rfl, ⟨hstate, c₁, hline, rfl⟩ | ⟨hstate, hcolon, rfl⟩⟩ :=
    lineAt_eq_next hstep
  · obtain ⟨buf', hinv, hrest, hbody⟩ :=
      @parseBody_of_request_line assertions receiveTime buf context hb hstate
        (hready.method hstate) i
        hsearch
    obtain ⟨c₂, hline₂, rfl⟩ := requestLine_of_timeless hline
    rw [hline₂] at hbody
    exact ⟨_, hbody, hinv, hrest, rfl, .inr rfl⟩
  · obtain ⟨buf', hinv, hrest, hbody⟩ :=
      @parseBody_of_header_line assertions receiveTime buf context hb hstate i hsearch
    rw [if_pos hcolon] at hbody
    exact ⟨_, hbody, hinv, hrest, rfl, .inr hstate⟩

theorem parseBody_of_stop {s : Buffer × HttpContext} {c c' : HttpContext} {xs : List UInt8}
    {n : Nat} (hs : Parsing assertions s c xs) (hstep : requestDecoder.step c xs = .stop c' n) :
    ∃ r, parseBody assertions receiveTime s = .ok (.inr r) ∧
      Parsed assertions r ⟨c', xs.drop n, true⟩ := by
  obtain ⟨buf, context⟩ := s
  obtain ⟨hb, rfl, rfl, hready⟩ := hs
  obtain ⟨i, hsearch, ⟨hstate, rfl, hline⟩ | ⟨hstate, rfl, hcolon, rfl⟩⟩ := lineAt_eq_stop hstep
  · obtain ⟨buf', hinv, hrest, hbody⟩ :=
      @parseBody_of_request_line assertions receiveTime buf context hb hstate
        (hready.method hstate) i
        hsearch
    obtain ⟨c₂, hline₂, rfl⟩ := requestLine_of_timeless hline
    rw [hline₂] at hbody
    refine ⟨_, hbody, hb, rfl, rfl, fun h => absurd h (by simp), fun _ => ?_⟩
    -- a bad request line leaves the parser where it was
    have hstate₂ : c₂.state_ = .kExpectRequestLine := by
      have hkeep := requestLine_state (buf.contents.take i) context
      rw [hline₂] at hkeep
      exact hkeep.trans hstate
    simp [HttpContext.gotAll, hstate₂]
  · obtain ⟨buf', hinv, hrest, hbody⟩ :=
      @parseBody_of_header_line assertions receiveTime buf context hb hstate i hsearch
    rw [if_neg hcolon] at hbody
    exact ⟨_, hbody, hinv, hrest, rfl, fun h => absurd h (by simp), fun _ => rfl⟩

/-- A call of `parseRequest` drains the decoder, in at most one round of its loop
for each readable byte and one more. -/
theorem parseRequest_spec {buf : Buffer} {context : HttpContext} (hb : buf.Inv)
    (hready : context.Ready assertions) {p : Progress HttpContext UInt8}
    (hdrain : requestDecoder.Drains context.timeless buf.contents p) :
    ∃ r, parseRequest assertions buf context receiveTime = .ok r ∧ Parsed assertions r p := by
  rw [parseRequest, ← Buffer.contents_length hb]
  exact Decoder.run_of_drains (Parsing assertions) (Parsed assertions)
    (fun _ _ _ hs hstep => parseBody_of_wait hs hstep)
    (fun _ _ _ _ _ hs hstep => parseBody_of_next hs hstep)
    (fun _ _ _ _ _ _ hs hstep => parseBody_of_stop hs hstep) hdrain ⟨hb, rfl, rfl, hready⟩

end Call

/-! ## Segmentation -/

/-- Append chunks one by one and call `parseRequest` after each, until it returns
`false` or the request is complete; then only append. -/
def parseChunks (assertions : Bool) :
    Bool × Buffer × HttpContext → List (List UInt8 × Timestamp) → Exec (Bool × Buffer × HttpContext)
  | r, [] => .ok r
  | (ok, buf, context), (chunk, receiveTime) :: chunks => do
      let buf ← buf.append chunk
      if ok && !context.gotAll then
        let r ← parseRequest assertions buf context receiveTime
        parseChunks assertions r chunks
      else parseChunks assertions (ok, buf, context) chunks

theorem parseChunks_of_feeds {assertions : Bool} {chunks : List (List UInt8 × Timestamp)}
    {p q : Progress HttpContext UInt8} (hfeeds : requestDecoder.Feeds p (chunks.map Prod.fst) q)
    {r : Bool × Buffer × HttpContext} (hr : Parsed assertions r p) :
    ∃ r', parseChunks assertions r chunks = .ok r' ∧ Parsed assertions r' q := by
  induction chunks generalizing p r with
  | nil =>
      cases hfeeds
      exact ⟨r, rfl, hr⟩
  | cons c chunks ih =>
      obtain ⟨chunk, receiveTime⟩ := c
      obtain ⟨ok, buf, context⟩ := r
      obtain ⟨buf', hbuf', hinv, hcontents, _⟩ := Buffer.append_spec hr.inv chunk
      have hrest : buf'.contents = p.rest ++ chunk := by rw [hcontents, hr.contents]
      cases hfeeds with
      | @stopped c₀ rest _ _ _ hfeeds =>
          have hok : ok = context.gotAll := hr.stopped rfl
          have hstop : (ok && !context.gotAll) = false := by
            rw [hok]
            cases context.gotAll <;> rfl
          have hcollect : Parsed assertions (ok, buf', context) ⟨c₀, rest ++ chunk, true⟩ :=
            ⟨hinv, hrest, hr.context, fun h => absurd h (by simp), fun _ => hok⟩
          obtain ⟨r', hr', hparsed⟩ := ih hfeeds hcollect
          exact ⟨r', by simp [parseChunks, hbuf', hstop, hr'], hparsed⟩
      | @waiting c₀ rest _ _ p' _ hdrain hfeeds =>
          obtain ⟨hok, hready⟩ := hr.waiting rfl
          simp only at hok hready
          subst hok
          have hcontext : context.timeless = c₀ := hr.context
          rw [← hcontext, ← hrest] at hdrain
          obtain ⟨r₁, hr₁, hparsed₁⟩ := @parseRequest_spec _ receiveTime _ _ hinv hready _ hdrain
          obtain ⟨r', hr', hparsed⟩ := ih hfeeds hparsed₁
          refine ⟨r', ?_, hparsed⟩
          simp [parseChunks, hbuf', ready_not_gotAll hready, hr₁, hr']

theorem parsed_new (assertions : Bool) :
    Parsed assertions (true, Buffer.new, HttpContext.new) ⟨HttpContext.new, [], false⟩ :=
  ⟨Buffer.new_spec.1, Buffer.new_spec.2.1, rfl, fun _ => ⟨rfl, .inl ⟨rfl, fun _ => rfl⟩⟩,
    fun h => absurd h (by simp)⟩

theorem drains_new : requestDecoder.Drains HttpContext.new [] ⟨HttpContext.new, [], false⟩ :=
  .wait rfl

/-- The result of parsing some bytes that arrive in chunks is where the decoder
comes to on all of them. -/
theorem parseChunks_spec (assertions : Bool) (chunks : List (List UInt8 × Timestamp))
    {q : Progress HttpContext UInt8}
    (hdrain : requestDecoder.Drains HttpContext.new (chunks.map Prod.fst).flatten q) :
    ∃ r, parseChunks assertions (true, Buffer.new, HttpContext.new) chunks = .ok r ∧
      Parsed assertions r q := by
  obtain ⟨q', hfeeds⟩ :=
    requestDecoder.exists_feeds ⟨HttpContext.new, [], false⟩ (chunks.map Prod.fst)
  obtain rfl : q' = q := (Decoder.drains_of_feeds drains_new hfeeds).unique hdrain
  exact parseChunks_of_feeds hfeeds (parsed_new assertions)

/-- The return value is where the decoder has come to as well. -/
theorem Parsed.ok_eq {assertions : Bool} {r : Bool × Buffer × HttpContext}
    {p : Progress HttpContext UInt8} (h : Parsed assertions r p) :
    r.1 = (!p.stopped || p.state.gotAll) := by
  have hgotAll : r.2.2.gotAll = p.state.gotAll := by rw [← h.context]; rfl
  cases hstopped : p.stopped with
  | false => simp [(h.waiting hstopped).1]
  | true => simp [h.stopped hstopped, hgotAll]

/-- Parsing does not depend on how the bytes were cut into chunks: return value,
context (but for the time) and unconsumed bytes are those of appending all of them
and calling `parseRequest` once. -/
theorem parse_segmentation (assertions : Bool) (chunks : List (List UInt8 × Timestamp))
    (receiveTime : Timestamp) :
    ∃ r buf whole,
      parseChunks assertions (true, Buffer.new, HttpContext.new) chunks = .ok r ∧
      Buffer.new.append (chunks.map Prod.fst).flatten = .ok buf ∧
      parseRequest assertions buf HttpContext.new receiveTime = .ok whole ∧
      r.1 = whole.1 ∧ r.2.2.timeless = whole.2.2.timeless ∧
      r.2.1.contents = whole.2.1.contents := by
  obtain ⟨q, hdrain⟩ := requestDecoder.exists_drains HttpContext.new (chunks.map Prod.fst).flatten
  obtain ⟨r, hr, hparsed⟩ := parseChunks_spec assertions chunks hdrain
  obtain ⟨buf, hbuf, hinv, hcontents, _⟩ :=
    Buffer.append_spec Buffer.new_spec.1 (chunks.map Prod.fst).flatten
  rw [Buffer.new_spec.2.1, List.nil_append] at hcontents
  rw [← hcontents] at hdrain
  obtain ⟨whole, hwhole, hparsed'⟩ := @parseRequest_spec assertions receiveTime buf HttpContext.new
    hinv (.inl ⟨rfl, fun _ => rfl⟩) q hdrain
  refine ⟨r, buf, whole, hr, hbuf, hwhole, ?_, ?_, ?_⟩
  · rw [hparsed.ok_eq, hparsed'.ok_eq]
  · rw [hparsed.context, hparsed'.context]
  · rw [hparsed.contents, hparsed'.contents]

end Muduo.Http
