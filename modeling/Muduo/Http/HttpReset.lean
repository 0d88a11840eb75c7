/-
  Http/HttpReset.lean --- what a request leaves behind in `HttpContext::reset()`.

  `reset` swaps the request with a new one, and `HttpRequest::swap` swaps every field but
  the version.  Whoever looks at the context before the next request line is complete, or
  after a bad one, finds the version of an earlier request; a complete and well-formed
  request line overwrites it, together with everything else (`reset_unobservable_iff`).
-/
import Muduo.Http.HttpSoundness

set_option autoImplicit false

namespace Muduo.Http

open Muduo.Foundation Muduo.Base Muduo.Net

/-! ## Feeding a context -/

/-- A chunk is appended, `parseRequest` is called, and the context is reset behind a complete
request: the context after the call, and what the next chunk finds. -/
def feed (assertions : Bool) (s : Buffer × HttpContext) (chunk : List UInt8 × Timestamp) :
    Exec (HttpContext × Buffer × HttpContext) := do
  let buf ← s.1.append chunk.1
  let (_, buf, context) ← parseRequest assertions buf s.2 chunk.2
  .ok (context, buf, if context.gotAll then context.reset else context)

/-- The contexts after each call of `parseRequest`; a fault ends the process. -/
def observed (assertions : Bool) :
    Buffer × HttpContext → List (List UInt8 × Timestamp) → List (Exec HttpContext)
  | _, [] => []
  | s, chunk :: chunks =>
      match feed assertions s chunk with
      | .ok (context, s') => .ok context :: observed assertions s' chunks
      | .error e => [.error e]

theorem observed_cons_of_ok {assertions : Bool} {s s' : Buffer × HttpContext}
    {chunk : List UInt8 × Timestamp} {context : HttpContext}
    (h : feed assertions s chunk = .ok (context, s')) (chunks : List (List UInt8 × Timestamp)) :
    observed assertions s (chunk :: chunks) = .ok context :: observed assertions s' chunks := by
  simp only [observed, h]

/-- A context that was reset keeps the version. -/
theorem reset_eq_fresh (context : HttpContext) :
    context.reset = .fresh context.request_.version_ := rfl

/-! ## The request line and the version -/

/-- Some bytes begin with a complete and well-formed request line. -/
def BeginsWithRequestLine (xs : List UInt8) : Prop :=
  ∃ r : RequestText, r.WellFormed ∧ r.requestLine ++ Buffer.kCRLF <+: xs

theorem beginsWithRequestLine_iff (xs : List UInt8) (context : HttpContext) :
    BeginsWithRequestLine xs ↔
      ∃ i, search Buffer.kCRLF xs = some i ∧ (requestLine (xs.take i) context).1 = true := by
  constructor
  · rintro ⟨r, hwf, rest, rfl⟩
    rw [List.append_assoc]
    refine ⟨r.requestLine.length, search_line (noCRLF_requestLine hwf) rest, ?_⟩
    rw [List.take_left, requestLine_text hwf]
  · rintro ⟨i, hsearch, hline⟩
    obtain ⟨hsplit, hno⟩ := split_at_search hsearch
    obtain ⟨head, hmethod, hspace, hversion, hhead, _⟩ :=
      requestLine_sound (Prod.ext hline rfl : requestLine (xs.take i) context = (true, _)) []
    -- the path is a part of the line
    have hpath : NoCRLF head.path := by
      intro hpat
      apply hno
      rw [hhead, HeadText.requestLine]
      refine hpat.trans ⟨head.method.text ++ [32], 32 :: head.version.text, ?_⟩
      simp
    refine ⟨⟨head.method, head.path, head.version, []⟩,
      ⟨hmethod, hspace, hpath, hversion, fun _ h => absurd h List.not_mem_nil⟩, xs.drop (i + 2), ?_⟩
    have hsame : RequestText.requestLine ⟨head.method, head.path, head.version, []⟩ = xs.take i :=
      hhead.symm
    rw [hsame, List.append_assoc]
    simpa using hsplit.symm

theorem processVersion_version (request : HttpRequest) (version : List UInt8) :
    if (processVersion request version).1 then
      (processVersion request version).2.version_ ≠ .kUnknown
    else (processVersion request version).2.version_ = request.version_ := by
  unfold processVersion
  by_cases hform : version.length = 8 ∧ version.take 7 = ascii "HTTP/1."
  · by_cases hone : version[7]? = some 49
    · simp only [if_pos hform, if_pos hone, if_true]
      exact (by decide : Version.kHttp11 ≠ .kUnknown)
    · by_cases hzero : version[7]? = some 48
      · simp only [if_pos hform, if_neg hone, if_pos hzero, if_true]
        exact (by decide : Version.kHttp10 ≠ .kUnknown)
      · simp only [if_pos hform, if_neg hone, if_neg hzero, Bool.false_eq_true, if_false]
  · simp only [if_neg hform, Bool.false_eq_true, if_false]

theorem processPath_version (request : HttpRequest) (rest : List UInt8) :
    if (processPath request rest).1 then (processPath request rest).2.version_ ≠ .kUnknown
    else (processPath request rest).2.version_ = request.version_ := by
  unfold processPath
  by_cases hspace : rest.idxOf 32 ≠ rest.length
  · simp only [if_pos hspace]
    exact processVersion_version (request.setPath (rest.take (rest.idxOf 32))) _
  · simp only [if_neg hspace, Bool.false_eq_true, if_false]

/-- A good request line stores a version, a bad one does not. -/
theorem requestLine_version (line : List UInt8) (context : HttpContext) :
    if (requestLine line context).1 then
      (requestLine line context).2.request_.version_ ≠ .kUnknown
    else (requestLine line context).2.request_.version_ = context.request_.version_ := by
  unfold requestLine
  by_cases hspace : line.idxOf 32 ≠ line.length
  · rcases hassign : context.request_.assignMethod (line.take (line.idxOf 32)) with
      ⟨succeed, request⟩
    have hversion : request.version_ = context.request_.version_ :=
      (congrArg (fun r => r.2.version_) hassign).symm
    cases succeed with
    | false =>
        simp only [if_pos hspace, hassign, Bool.false_eq_true, if_false]
        exact hversion
    | true =>
        simp only [if_pos hspace, hassign, if_true]
        rw [← hversion]
        exact processPath_version request _
  · simp only [if_neg hspace, Bool.false_eq_true, if_false]

/-! ## The version of a context that was reached -/

/-- Behind a request line the context has a version. -/
def Versioned (context : HttpContext) : Prop :=
  context.state_ = .kExpectRequestLine ∨ context.request_.version_ ≠ .kUnknown

theorem processRequestLine_of_ok {assertions : Bool} {line : List UInt8} {context : HttpContext}
    {r : Bool × HttpContext} (h : processRequestLine assertions line context = .ok r) :
    r = requestLine line context := by
  by_cases hmethod : assertions = true → context.request_.method_ = .kInvalid
  · rw [processRequestLine_eq hmethod] at h
    exact (Except.ok.inj h).symm
  · unfold processRequestLine at h
    by_cases hspace : line.idxOf 32 ≠ line.length
    · simp [hspace, HttpRequest.setMethod, assertThat_of_not hmethod] at h
    · simp only [if_neg hspace] at h
      rw [← Except.ok.inj h, requestLine, if_neg hspace]

/-- The context after a round of the loop, whether it goes on or not. -/
def contextAfter : (Buffer × HttpContext) ⊕ (Bool × Buffer × HttpContext) → HttpContext
  | .inl s => s.2
  | .inr r => r.2.2

section Round

variable {assertions : Bool} {receiveTime : Timestamp} {buf : Buffer} {context : HttpContext}
  {r : (Buffer × HttpContext) ⊕ (Bool × Buffer × HttpContext)}

/-- A request line that is accepted sets the version; one that is not leaves the state. -/
theorem parseBody_versioned_of_requestLine (hline : context.expectRequestLine = true)
    (hs : Versioned context) (h : parseBody assertions receiveTime (buf, context) = .ok r) :
    Versioned (contextAfter r) := by
  simp only [parseBody, if_pos hline] at h
  cases hfind : buf.findCRLF with
  | none =>
      simp only [hfind] at h
      rw [← Except.ok.inj h]
      exact hs
  | some crlf =>
      simp only [hfind, bind_eq_ok_iff] at h
      obtain ⟨⟨ok, c⟩, hprocess, h⟩ := h
      have hresult := processRequestLine_of_ok hprocess
      have hversion := requestLine_version (buf.slice buf.peek crlf) context
      have hstate := requestLine_state (buf.slice buf.peek crlf) context
      rw [← hresult] at hversion hstate
      cases ok with
      | true =>
          simp only [if_true, bind_eq_ok_iff] at h
          obtain ⟨buf', _, h⟩ := h
          rw [← Except.ok.inj h]
          exact .inr hversion
      | false =>
          simp only [Bool.false_eq_true, if_false] at h
          rw [← Except.ok.inj h]
          exact .inl (hstate.trans (beq_iff_eq.mp hline))

/-- What a header line stores is not the version. -/
theorem parseBody_versioned_of_headers (hline : ¬ context.expectRequestLine = true)
    (hs : Versioned context) (h : parseBody assertions receiveTime (buf, context) = .ok r) :
    Versioned (contextAfter r) := by
  simp only [parseBody, if_neg hline] at h
  have hversion : context.request_.version_ ≠ .kUnknown :=
    hs.resolve_left fun hstate => hline (beq_iff_eq.mpr hstate)
  by_cases hheaders : context.expectHeaders = true
  · rw [if_pos hheaders] at h
    cases hfind : buf.findCRLF with
    | none =>
        simp only [hfind] at h
        rw [← Except.ok.inj h]
        exact hs
    | some crlf =>
        simp only [hfind] at h
        split at h
        · rw [bind_eq_ok_iff] at h
          obtain ⟨buf', _, h⟩ := h
          rw [← Except.ok.inj h]
          exact .inr hversion
        · rw [bind_eq_ok_iff] at h
          obtain ⟨buf', _, h⟩ := h
          rw [← Except.ok.inj h]
          exact .inr hversion
  · rw [if_neg hheaders] at h
    rw [← Except.ok.inj h]
    exact hs

theorem parseBody_versioned {s : Buffer × HttpContext} (hs : Versioned s.2)
    (h : parseBody assertions receiveTime s = .ok r) : Versioned (contextAfter r) := by
  by_cases hline : s.2.expectRequestLine = true
  · exact parseBody_versioned_of_requestLine hline hs h
  · exact parseBody_versioned_of_headers hline hs h

end Round

theorem parseRequest_versioned {assertions : Bool} {receiveTime : Timestamp} {buf : Buffer}
    {context : HttpContext} {r : Bool × Buffer × HttpContext} (hs : Versioned context)
    (h : parseRequest assertions buf context receiveTime = .ok r) : Versioned r.2.2 :=
  Loop.run_ok_invariant (fun s => Versioned s.2) (fun r => Versioned r.2.2)
    (fun _ _ hs hbody => parseBody_versioned hs hbody)
    (fun _ _ hs hbody => parseBody_versioned hs hbody) hs h

theorem observed_versioned {assertions : Bool} {s : Buffer × HttpContext} (hs : Versioned s.2)
    {chunks : List (List UInt8 × Timestamp)} {context : HttpContext}
    (h : .ok context ∈ observed assertions s chunks) : Versioned context := by
  induction chunks generalizing s with
  | nil => exact absurd h List.not_mem_nil
  | cons chunk chunks ih =>
      rw [observed] at h
      rcases hfeed : feed assertions s chunk with e | ⟨c, s'⟩
      · simp [hfeed] at h
      · simp only [hfeed, List.mem_cons, Except.ok.injEq] at h
        unfold feed at hfeed
        rw [bind_eq_ok_iff] at hfeed
        obtain ⟨buf, _, hfeed⟩ := hfeed
        rw [bind_eq_ok_iff] at hfeed
        obtain ⟨⟨ok, buf', c'⟩, hparse, hfeed⟩ := hfeed
        obtain ⟨rfl, rfl⟩ := Prod.mk.inj (Except.ok.inj hfeed)
        have hversioned : Versioned c' := parseRequest_versioned hs hparse
        rcases h with rfl | h
        · exact hversioned
        · refine ih ?_ h
          by_cases hgot : c'.gotAll = true
          · simp only [if_pos hgot]
            exact .inl rfl
          · simp only [if_neg hgot]
            exact hversioned

/-! ## The context that was reset beside a new one -/

section Reset

variable {assertions : Bool} {buf : Buffer} {chunk : List UInt8 × Timestamp}

theorem ready_fresh (v : Version) : (HttpContext.fresh v).Ready assertions :=
  .inl ⟨rfl, fun _ => rfl⟩

/-- A complete and well-formed request line overwrites the version. -/
theorem parseBody_fresh (hb : buf.Inv) (h : BeginsWithRequestLine buf.contents)
    (receiveTime : Timestamp) (v : Version) :
    ∃ s, parseBody assertions receiveTime (buf, .fresh v) = .ok (.inl s) ∧
      parseBody assertions receiveTime (buf, .new) = .ok (.inl s) := by
  obtain ⟨r, hwf, rest, hrest⟩ := h
  have hsearch : search Buffer.kCRLF buf.contents = some r.requestLine.length := by
    rw [← hrest, List.append_assoc]
    exact search_line (noCRLF_requestLine hwf) rest
  have htake : buf.contents.take r.requestLine.length = r.requestLine := by
    rw [← hrest, List.append_assoc, List.take_left]
  obtain ⟨hfind, hslice, buf', hbuf', _⟩ := findCRLF_spec hb hsearch
  have hbody : ∀ v, parseBody assertions receiveTime (buf, .fresh v) = .ok (.inl (buf',
      ⟨.kExpectHeaders, ⟨r.method, r.version, r.path, receiveTime, []⟩⟩)) := by
    intro v
    have hstate : (HttpContext.fresh v).expectRequestLine = true := rfl
    have hline : processRequestLine assertions r.requestLine (.fresh v) =
        .ok (requestLine r.requestLine (.fresh v)) := processRequestLine_eq fun _ => rfl
    simp only [parseBody, hstate, if_true, hfind, hslice, htake, hline, requestLine_text hwf,
      ok_bind, hbuf']
    rfl
  exact ⟨_, hbody v, hbody .kUnknown⟩

theorem feed_fresh (hb : buf.Inv) (h : BeginsWithRequestLine (buf.contents ++ chunk.1))
    (v : Version) : feed assertions (buf, .fresh v) chunk = feed assertions (buf, .new) chunk := by
  obtain ⟨buf', hbuf', hinv, hcontents, _⟩ := Buffer.append_spec hb chunk.1
  rw [← hcontents] at h
  obtain ⟨s, hfresh, hnew⟩ := @parseBody_fresh assertions buf' hinv h chunk.2 v
  have hparse : parseRequest assertions buf' (.fresh v) chunk.2 =
      parseRequest assertions buf' .new chunk.2 := by
    rw [parseRequest, parseRequest, Loop.run_succ_of_next hfresh, Loop.run_succ_of_next hnew]
  simp only [feed, hbuf', ok_bind, hparse]

/-- Without one the version stays. -/
theorem feed_fresh_version (hb : buf.Inv) (h : ¬ BeginsWithRequestLine (buf.contents ++ chunk.1))
    (v : Version) :
    ∃ context s, feed assertions (buf, .fresh v) chunk = .ok (context, s) ∧
      context.request_.version_ = v := by
  obtain ⟨buf', hbuf', hinv, hcontents, _⟩ := Buffer.append_spec hb chunk.1
  rw [← hcontents, beginsWithRequestLine_iff _ (.fresh v)] at h
  have hleave : ∃ r, parseBody assertions chunk.2 (buf', .fresh v) = .ok (.inr r) ∧
      r.2.2.request_.version_ = v := by
    rcases hsearch : search Buffer.kCRLF buf'.contents with _ | i
    · exact ⟨_, parseBody_of_no_line (ready_fresh v) hsearch, rfl⟩
    · obtain ⟨_, _, _, hbody⟩ := @parseBody_of_request_line assertions chunk.2 buf'
        (.fresh v) hinv rfl
        (fun _ => rfl) i hsearch
      rcases hline : requestLine (buf'.contents.take i) (.fresh v) with ⟨ok, c⟩
      have hversion := requestLine_version (buf'.contents.take i) (.fresh v)
      rw [hline] at hversion hbody
      cases ok with
      | true => exact absurd ⟨i, hsearch, by rw [hline]⟩ h
      | false => exact ⟨_, hbody, hversion⟩
  obtain ⟨⟨ok, buf'', context⟩, hbody, hversion⟩ := hleave
  have hparse : parseRequest assertions buf' (.fresh v) chunk.2 = .ok (ok, buf'', context) :=
    Loop.run_succ_of_leave hbody _
  have hfeed : feed assertions (buf, .fresh v) chunk =
      .ok (context, buf'', if context.gotAll then context.reset else context) := by
    simp only [feed, hbuf', ok_bind, hparse]
  exact ⟨context, _, hfeed, hversion⟩

end Reset

/-- For every context that was reached by complete requests, every buffer and all chunks that are
fed next: after each call the context that was reset equals a new one that is fed the same if and
only if nothing is fed, or the first call finds a complete and well-formed request line. -/
theorem reset_unobservable_iff (assertions : Bool) {earlier : List (List UInt8 × Timestamp)}
    {context : HttpContext}
    (hreached : .ok context ∈ observed assertions (Buffer.new, HttpContext.new) earlier)
    (hgot : context.gotAll = true) {buf : Buffer} (hb : buf.Inv)
    (chunks : List (List UInt8 × Timestamp)) :
    observed assertions (buf, context.reset) chunks = observed assertions (buf, .new) chunks ↔
      ∀ chunk ∈ chunks.head?, BeginsWithRequestLine (buf.contents ++ chunk.1) := by
  have hversion : context.request_.version_ ≠ .kUnknown := by
    obtain hstate | hversion := observed_versioned (.inl rfl) hreached
    · simp [HttpContext.gotAll, hstate] at hgot
    · exact hversion
  rw [reset_eq_fresh]
  cases chunks with
  | nil => simp [observed]
  | cons chunk chunks =>
      simp only [List.head?_cons, Option.mem_some_iff, forall_eq']
      constructor
      · intro hsame
        by_contra hline
        obtain ⟨c, s, hfeed, hc⟩ := @feed_fresh_version assertions buf chunk hb hline
          context.request_.version_
        obtain ⟨c', s', hfeed', hc'⟩ := @feed_fresh_version assertions buf chunk hb hline .kUnknown
        have hfeed'' : feed assertions (buf, .new) chunk = .ok (c', s') := hfeed'
        rw [observed_cons_of_ok hfeed, observed_cons_of_ok hfeed''] at hsame
        obtain rfl : c = c' := Except.ok.inj (List.cons.inj hsame).1
        exact hversion (hc.symm.trans hc')
      · intro hline
        rw [observed, observed, feed_fresh hb hline]

/-- A request that completes. -/
def firstRequest : List (List UInt8 × Timestamp) := [(ascii "GET / HTTP/1.1\r\n\r\n", ⟨1⟩)]

/-- The context behind a first request. -/
def firstContext : HttpContext := ⟨.kGotAll, ⟨.kGet, .kHttp11, ascii "/", ⟨1⟩, []⟩⟩

theorem observed_firstRequest :
    .ok firstContext ∈ observed true (Buffer.new, HttpContext.new) firstRequest := by
  decide +kernel

theorem reset_unobservable_iff_nextRequest :
    observed true (Buffer.new, firstContext.reset) firstRequest =
        observed true (Buffer.new, .new) firstRequest ↔
      ∀ chunk ∈ firstRequest.head?, BeginsWithRequestLine (Buffer.new.contents ++ chunk.1) :=
  reset_unobservable_iff true observed_firstRequest rfl Buffer.new_spec.1 firstRequest

/-- Behind a request with version 1.1, the context is seen while the next request line has not
arrived completely: it says version 1.1, a new one does not. -/
theorem version_survives_reset :
    .ok firstContext ∈ observed true (Buffer.new, HttpContext.new) firstRequest ∧
      firstContext.gotAll = true ∧
      observed true (Buffer.new, firstContext.reset) [(ascii "GET /a", ⟨2⟩)] ≠
        observed true (Buffer.new, .new) [(ascii "GET /a", ⟨2⟩)] :=
  ⟨observed_firstRequest, rfl, by decide +kernel⟩

end Muduo.Http
