/-
  Http/HttpGrammar.lean --- well-formed requests, and how the parser reads them.

  `RequestText` is a request as a client writes it: a request line, header lines with
  blanks around the values, an empty line.  `drains_bytes` says that the parser,
  started with whatever version a previous request has left behind, consumes exactly
  the bytes of such a request and reads what they say.
-/
import Muduo.Http.HttpParse

set_option autoImplicit false

namespace Muduo.Http

open Muduo.Foundation Muduo.Base Muduo.Net

/-! ## Lines -/

/-- No line terminator inside. -/
def NoCRLF (line : List UInt8) : Prop := ¬ Buffer.kCRLF <:+: line

theorem noCRLF_of_not_mem {line : List UInt8} (h : 13 ∉ line) : NoCRLF line := by
  intro hpat
  exact h (hpat.subset (by simp [Buffer.kCRLF]))

/-- Two pieces do not form a terminator if none spans their boundary. -/
theorem noCRLF_append {a b : List UInt8} (ha : NoCRLF a) (hb : NoCRLF b)
    (hboundary : a.getLast? ≠ some 13 ∨ b.head? ≠ some 10) : NoCRLF (a ++ b) := by
  induction a with
  | nil => exact hb
  | cons x a ih =>
      intro hpat
      rw [List.cons_append, List.infix_cons_iff] at hpat
      rcases hpat with hpre | hpat
      · cases a with
        | nil =>
            rw [List.nil_append, Buffer.kCRLF, List.cons_prefix_cons] at hpre
            obtain ⟨rfl, hb'⟩ := hpre
            cases b with
            | nil => simp at hb'
            | cons y b =>
                obtain rfl : 10 = y := (List.cons_prefix_cons.mp hb').1
                simp at hboundary
        | cons y a =>
            rw [List.cons_append, Buffer.kCRLF, List.cons_prefix_cons, List.cons_prefix_cons]
              at hpre
            obtain ⟨rfl, rfl, _⟩ := hpre
            exact ha ⟨[], a, rfl⟩
      · refine ih (fun h => ha (h.trans (List.suffix_cons x a).isInfix)) ?_ hpat
        rcases a with _ | ⟨y, a⟩
        · exact .inl (by simp)
        · simpa using hboundary

theorem noCRLF_append_cons {a b : List UInt8} {c : UInt8} (ha : NoCRLF a) (hb : NoCRLF b)
    (h13 : c ≠ 13) (h10 : c ≠ 10) : NoCRLF (a ++ c :: b) := by
  have hc : NoCRLF (c :: b) := by
    refine @noCRLF_append [c] b ?_ hb (.inl (by simpa using h13))
    exact noCRLF_of_not_mem (by simpa using h13.symm)
  exact noCRLF_append ha hc (.inr (by simpa using h10))

/-- The line at the front of the bytes. -/
theorem search_line {line : List UInt8} (h : NoCRLF line) (rest : List UInt8) :
    search Buffer.kCRLF (line ++ (Buffer.kCRLF ++ rest)) = some line.length := by
  induction line with
  | nil =>
      have hpre : Buffer.kCRLF <+: Buffer.kCRLF ++ rest := List.prefix_append _ _
      simp only [Buffer.kCRLF, List.cons_append, List.nil_append] at hpre ⊢
      simp only [search, if_pos hpre, List.length_nil]
  | cons x line ih =>
      have htail : NoCRLF line := fun hpat => h (hpat.trans (List.suffix_cons x line).isInfix)
      -- a terminator at the front would lie inside the line
      have hnot : ¬ Buffer.kCRLF <+: x :: (line ++ (Buffer.kCRLF ++ rest)) := by
        intro hpre
        rw [Buffer.kCRLF, List.cons_prefix_cons] at hpre
        obtain ⟨rfl, hpre⟩ := hpre
        cases line with
        | nil => simp at hpre
        | cons y line =>
            obtain rfl : 10 = y := (List.cons_prefix_cons.mp hpre).1
            exact h ⟨[], line, rfl⟩
      simp only [List.cons_append, search, if_neg hnot, ih htail, Option.map_some, List.length_cons]

/-- `std::find` stops at the first occurrence. -/
theorem idxOf_append_cons {a b : List UInt8} {c : UInt8} (h : c ∉ a) :
    (a ++ c :: b).idxOf c = a.length := by
  rw [List.idxOf_append_of_notMem h, List.idxOf_cons_self, Nat.add_zero]

/-! ## Requests as text -/

/-- Spaces and tabs. -/
def isBlank (c : UInt8) : Bool := c == 32 || c == 9

/-- A header line. -/
structure HeaderText where
  field : List UInt8
  before : List UInt8
  value : List UInt8
  after : List UInt8
  deriving DecidableEq, Repr

/-- The line of a header, with its blanks. -/
def HeaderText.line (h : HeaderText) : List UInt8 :=
  h.field ++ 58 :: (h.before ++ (h.value ++ h.after))

/-- A header that `parseRequest` reads as it was meant. -/
structure HeaderText.WellFormed (h : HeaderText) : Prop where
  colon : 58 ∉ h.field
  field : NoCRLF h.field
  value : NoCRLF h.value
  head : ∀ c ∈ h.value.head?, isspace c = false
  last : ∀ c ∈ h.value.getLast?, isspace c = false
  before : ∀ c ∈ h.before, isBlank c = true
  after : ∀ c ∈ h.after, isBlank c = true

/-- The name of a method. -/
def Method.text : Method → List UInt8
  | .kInvalid => []
  | .kGet => ascii "GET"
  | .kPost => ascii "POST"
  | .kHead => ascii "HEAD"
  | .kPut => ascii "PUT"
  | .kDelete => ascii "DELETE"

/-- The name of a version. -/
def Version.text : Version → List UInt8
  | .kUnknown => []
  | .kHttp10 => ascii "HTTP/1.0"
  | .kHttp11 => ascii "HTTP/1.1"

/-- A request without a body. -/
structure RequestText where
  method : Method
  path : List UInt8
  version : Version
  headers : List HeaderText
  deriving DecidableEq, Repr

namespace RequestText

/-- The first line. -/
def requestLine (r : RequestText) : List UInt8 :=
  r.method.text ++ 32 :: (r.path ++ 32 :: r.version.text)

/-- The lines of the headers. -/
def headerBytes (headers : List HeaderText) : List UInt8 :=
  headers.flatMap fun h => h.line ++ Buffer.kCRLF

/-- The whole request. -/
def bytes (r : RequestText) : List UInt8 :=
  r.requestLine ++ (Buffer.kCRLF ++ (headerBytes r.headers ++ Buffer.kCRLF))

/-- The header map: each field has the value of its last occurrence. -/
def headerMap (headers : List HeaderText) (map : SortedMap (List UInt8) (List UInt8)) :
    SortedMap (List UInt8) (List UInt8) :=
  headers.foldl (fun map h => map.assign h.field h.value) map

/-- What the text says. -/
def request (r : RequestText) : HttpRequest :=
  ⟨r.method, r.version, r.path, .new, headerMap r.headers []⟩

/-- A request that `parseRequest` reads as it was meant. -/
structure WellFormed (r : RequestText) : Prop where
  method : r.method ≠ .kInvalid
  space : 32 ∉ r.path
  path : NoCRLF r.path
  version : r.version ≠ .kUnknown
  headers : ∀ h ∈ r.headers, h.WellFormed

end RequestText

/-! ## Reading a request line -/

theorem Method.ofString_text {m : Method} (h : m ≠ .kInvalid) : Method.ofString m.text = m := by
  cases m with
  | kInvalid => exact absurd rfl h
  | _ => decide

theorem Method.text_spec (m : Method) : 32 ∉ m.text ∧ 13 ∉ m.text := by
  cases m <;> decide

theorem Version.text_spec (v : Version) : 13 ∉ v.text := by
  cases v <;> decide

theorem processVersion_text (request : HttpRequest) {v : Version} (h : v ≠ .kUnknown) :
    processVersion request v.text = (true, request.setVersion v) := by
  cases v with
  | kUnknown => exact absurd rfl h
  | kHttp10 => rfl
  | kHttp11 => rfl

theorem noCRLF_requestLine {r : RequestText} (h : r.WellFormed) : NoCRLF r.requestLine := by
  refine noCRLF_append_cons (noCRLF_of_not_mem r.method.text_spec.2) ?_ (by decide) (by decide)
  exact noCRLF_append_cons h.path (noCRLF_of_not_mem r.version.text_spec) (by decide) (by decide)

theorem requestLine_text {r : RequestText} (h : r.WellFormed) (context : HttpContext) :
    requestLine r.requestLine context = (true, context.withRequest
      { context.request_ with method_ := r.method, path_ := r.path, version_ := r.version }) := by
  have hfirst : r.requestLine.idxOf 32 = r.method.text.length :=
    idxOf_append_cons r.method.text_spec.1
  have hlt : r.requestLine.idxOf 32 ≠ r.requestLine.length := by
    rw [hfirst, RequestText.requestLine, List.length_append, List.length_cons]
    omega
  have htoken : r.requestLine.take r.method.text.length = r.method.text := List.take_left
  have hrest : r.requestLine.drop (r.method.text.length + 1) = r.path ++ 32 :: r.version.text := by
    rw [RequestText.requestLine, ← List.drop_drop, List.drop_left]
    rfl
  have hsecond : (r.path ++ 32 :: r.version.text).idxOf 32 = r.path.length :=
    idxOf_append_cons h.space
  have hpath : ∀ request : HttpRequest, processPath request (r.path ++ 32 :: r.version.text) =
      (true, (request.setPath r.path).setVersion r.version) := by
    intro request
    have hlt : r.path.length ≠ (r.path ++ 32 :: r.version.text).length := by
      rw [List.length_append, List.length_cons]
      omega
    have hversion : (r.path ++ 32 :: r.version.text).drop (r.path.length + 1) = r.version.text := by
      rw [← List.drop_drop, List.drop_left]
      rfl
    simp only [processPath, hsecond, if_pos hlt, hversion, List.take_left,
      processVersion_text _ h.version]
  have hmethod := Method.ofString_text h.method
  rw [hfirst] at hlt
  simp only [requestLine, hfirst, if_pos hlt, htoken, hrest, HttpRequest.assignMethod, hmethod,
    hpath, bne_iff_ne.mpr h.method, if_true]
  rfl

/-! ## Reading header lines -/

theorem isspace_of_isBlank {c : UInt8} (h : isBlank c = true) : isspace c = true := by
  simp only [isBlank, Bool.or_eq_true, beq_iff_eq] at h
  rcases h with rfl | rfl <;> decide

theorem not_mem_of_blank {blanks : List UInt8} (h : ∀ c ∈ blanks, isBlank c = true) :
    13 ∉ blanks := fun hmem => absurd (h 13 hmem) (by decide)

theorem dropWhile_of_head {value : List UInt8} (h : ∀ c ∈ value.head?, isspace c = false)
    (rest : List UInt8) (hne : value ≠ []) :
    (value ++ rest).dropWhile isspace = value ++ rest := by
  cases value with
  | nil => exact absurd rfl hne
  | cons c value => simp [h c rfl]

/-- The blanks around a value are cut off. -/
theorem trim_value {h : HeaderText} (hwf : h.WellFormed) :
    ((h.before ++ (h.value ++ h.after)).dropWhile isspace).rdropWhile isspace = h.value := by
  have hbefore : ∀ c ∈ h.before, isspace c = true := fun c hc =>
    isspace_of_isBlank (hwf.before c hc)
  have hafter : ∀ c ∈ h.after, isspace c = true := fun c hc => isspace_of_isBlank (hwf.after c hc)
  rw [List.dropWhile_append_of_pos hbefore]
  by_cases hne : h.value = []
  · have hall : h.after.dropWhile isspace = [] := List.dropWhile_eq_nil_iff.mpr hafter
    rw [hne, List.nil_append, hall]
    rfl
  · rw [dropWhile_of_head hwf.head _ hne, List.rdropWhile, List.reverse_append,
      List.dropWhile_append_of_pos (by simpa using hafter)]
    have hlast : ∀ c ∈ h.value.reverse.head?, isspace c = false := by
      intro c hc
      rw [List.head?_reverse] at hc
      exact hwf.last c hc
    have hkeep := dropWhile_of_head hlast [] (by simpa using hne)
    rw [List.append_nil] at hkeep
    rw [hkeep, List.reverse_reverse]

theorem noCRLF_headerLine {h : HeaderText} (hwf : h.WellFormed) : NoCRLF h.line := by
  refine noCRLF_append_cons hwf.field ?_ (by decide) (by decide)
  have hafter : NoCRLF (h.value ++ h.after) := by
    refine noCRLF_append hwf.value (noCRLF_of_not_mem (not_mem_of_blank hwf.after)) (.inl ?_)
    intro hlast
    exact absurd (hwf.last 13 hlast) (by decide)
  refine noCRLF_append (noCRLF_of_not_mem (not_mem_of_blank hwf.before)) hafter (.inl ?_)
  intro hlast
  exact not_mem_of_blank hwf.before (List.mem_of_getLast? hlast)

theorem headerLine_text {h : HeaderText} (hwf : h.WellFormed) (context : HttpContext) :
    58 ∈ h.line ∧ headerLine h.line context = context.withRequest
      { context.request_ with headers_ := context.request_.headers_.assign h.field h.value } := by
  have hcolon : h.line.idxOf 58 = h.field.length := idxOf_append_cons hwf.colon
  have hvalue : h.line.drop (h.field.length + 1) = h.before ++ (h.value ++ h.after) := by
    rw [HeaderText.line, ← List.drop_drop, List.drop_left]
    rfl
  have hfield : h.line.take h.field.length = h.field := List.take_left
  refine ⟨by simp [HeaderText.line], ?_⟩
  simp only [headerLine, HttpRequest.addHeader, hcolon, hvalue, hfield, trim_value hwf]

/-! ## Reading a request -/

/-- The line at the front, as a step of the decoder. -/
theorem step_line {line : List UInt8} (h : NoCRLF line) (context : HttpContext)
    (rest : List UInt8) :
    requestDecoder.step context (line ++ (Buffer.kCRLF ++ rest)) =
        takeLine line (line.length + 2) context ∧
      (line ++ (Buffer.kCRLF ++ rest)).drop (line.length + 2) = rest := by
  constructor
  · simp only [requestDecoder, lineAt, search_line h, List.take_left]
  · rw [← List.drop_drop, List.drop_left]
    rfl

theorem drains_headerBytes {headers : List HeaderText} (hwf : ∀ h ∈ headers, h.WellFormed)
    {context : HttpContext} (hstate : context.state_ = .kExpectHeaders) (rest : List UInt8) :
    requestDecoder.Drains context (RequestText.headerBytes headers ++ (Buffer.kCRLF ++ rest))
      ⟨⟨.kGotAll, { context.request_ with
        headers_ := RequestText.headerMap headers context.request_.headers_ }⟩, rest, true⟩ := by
  induction headers generalizing context with
  | nil =>
      obtain ⟨hstep, hdrop⟩ := @step_line [] (noCRLF_of_not_mem (by simp)) context rest
      simp only [takeLine, hstate, List.not_mem_nil, if_false] at hstep
      have hstop := Decoder.Drains.stop hstep
      rw [hdrop] at hstop
      exact hstop
  | cons h headers ih =>
      have hwf₁ := hwf h List.mem_cons_self
      obtain ⟨hmem, hline⟩ := headerLine_text hwf₁ context
      obtain ⟨hstep, hdrop⟩ := step_line (noCRLF_headerLine hwf₁) context
        (RequestText.headerBytes headers ++ (Buffer.kCRLF ++ rest))
      have hbytes : RequestText.headerBytes (h :: headers) ++ (Buffer.kCRLF ++ rest) =
          h.line ++ (Buffer.kCRLF ++ (RequestText.headerBytes headers ++
            (Buffer.kCRLF ++ rest))) := by
        simp [RequestText.headerBytes]
      simp only [takeLine, hstate, if_pos hmem] at hstep
      rw [hbytes]
      refine .next hstep ?_
      rw [hdrop, hline]
      exact ih (fun h' hh' => hwf h' (List.mem_cons_of_mem _ hh')) hstate

/-- The context of a new connection, or of one that was reset after a request with
version `v`. -/
def HttpContext.fresh (v : Version) : HttpContext :=
  ⟨.kExpectRequestLine, { HttpRequest.new with version_ := v }⟩

/-- The parser consumes the bytes of a well-formed request and reads what they
say. -/
theorem drains_bytes {r : RequestText} (h : r.WellFormed) (v : Version) (rest : List UInt8) :
    requestDecoder.Drains (.fresh v) (r.bytes ++ rest) ⟨⟨.kGotAll, r.request⟩, rest, true⟩ := by
  obtain ⟨hstep, hdrop⟩ := step_line (noCRLF_requestLine h) (.fresh v)
    (RequestText.headerBytes r.headers ++ (Buffer.kCRLF ++ rest))
  have hbytes : r.bytes ++ rest = r.requestLine ++
      (Buffer.kCRLF ++ (RequestText.headerBytes r.headers ++ (Buffer.kCRLF ++ rest))) := by
    simp [RequestText.bytes]
  have hstate : (HttpContext.fresh v).state_ = .kExpectRequestLine := rfl
  simp only [takeLine, hstate, requestLine_text h] at hstep
  rw [hbytes]
  refine .next hstep ?_
  rw [hdrop]
  exact drains_headerBytes h.headers rfl rest

/-- The value of the last header line with a field. -/
def RequestText.lastValue (headers : List HeaderText) (field : List UInt8) : Option (List UInt8) :=
  (headers.reverse.find? fun h => h.field == field).map HeaderText.value

theorem find_headerMap (headers : List HeaderText) (field : List UInt8) :
    (RequestText.headerMap headers []).find field = RequestText.lastValue headers field := by
  induction headers using List.reverseRecOn with
  | nil => rfl
  | append_singleton headers h ih =>
      rw [RequestText.headerMap, List.foldl_append, List.foldl_cons, List.foldl_nil,
        SortedMap.find_assign]
      by_cases hfield : h.field = field
      · rw [if_pos hfield]
        simp [RequestText.lastValue, hfield]
      · rw [if_neg hfield]
        simpa [RequestText.lastValue, RequestText.headerMap, hfield] using ih

/-- A well-formed request is read by one call, whatever stands behind it: the result is what the
request says, and what stands behind it stays in the buffer. -/
theorem parseRequest_of_wellFormed (assertions : Bool) {r : RequestText} (h : r.WellFormed)
    {buf : Buffer} (hb : buf.Inv) {rest : List UInt8} (hbuf : buf.contents = r.bytes ++ rest)
    (receiveTime : Timestamp) :
    ∃ buf' context, parseRequest assertions buf .new receiveTime = .ok (true, buf', context) ∧
      buf'.contents = rest ∧ context.state_ = .kGotAll ∧
      context.request_.method_ = r.method ∧ context.request_.path_ = r.path ∧
      context.request_.version_ = r.version ∧
      ∀ field, context.request_.headers_.find field = RequestText.lastValue r.headers field := by
  have hdrain := drains_bytes h .kUnknown rest
  rw [← hbuf] at hdrain
  obtain ⟨⟨ok, buf', context⟩, hparse, hparsed⟩ := @parseRequest_spec assertions receiveTime buf
    HttpContext.new hb (.inl ⟨rfl, fun _ => rfl⟩) _ hdrain
  obtain rfl : ok = true := hparsed.ok_eq
  -- but for the time, the context is that of the decoder
  have hcontext : context.timeless = ⟨.kGotAll, r.request⟩ := hparsed.context
  have hstate : context.state_ = .kGotAll := congrArg HttpContext.state_ hcontext
  have hrequest : context.request_.setReceiveTime .new = r.request :=
    congrArg HttpContext.request_ hcontext
  refine ⟨buf', context, hparse, hparsed.contents, hstate, congrArg HttpRequest.method_ hrequest,
    congrArg HttpRequest.path_ hrequest, congrArg HttpRequest.version_ hrequest, ?_⟩
  intro field
  have hheaders : context.request_.headers_ = RequestText.headerMap r.headers [] :=
    congrArg HttpRequest.headers_ hrequest
  rw [hheaders, find_headerMap]

/-- A request with a field that occurs twice, the second time with blanks around its value. -/
def twoHosts : RequestText :=
  ⟨.kPut, ascii "/a?b", .kHttp10,
    [⟨ascii "Host", ascii " ", ascii "a b:c", []⟩, ⟨ascii "Host", [9], ascii "d", ascii " "⟩]⟩

theorem twoHosts_wellFormed : twoHosts.WellFormed := by
  refine ⟨by decide, by decide, noCRLF_of_not_mem (by decide), by decide, ?_⟩
  intro h hh
  simp only [twoHosts, List.mem_cons, List.not_mem_nil, or_false] at hh
  rcases hh with rfl | rfl <;>
    exact ⟨by decide, noCRLF_of_not_mem (by decide), noCRLF_of_not_mem (by decide),
      by rintro c ⟨⟩; decide, by rintro c ⟨⟩; decide, List.all_eq_true.mp (by decide),
      List.all_eq_true.mp (by decide)⟩

theorem parseRequest_of_twoHosts :
    ∃ buf, Buffer.new.append (twoHosts.bytes ++ ascii "GET") = .ok buf ∧
      ∃ buf' context, parseRequest true buf .new ⟨1⟩ = .ok (true, buf', context) ∧
        buf'.contents = ascii "GET" ∧ context.state_ = .kGotAll ∧
        context.request_.method_ = .kPut ∧ context.request_.path_ = ascii "/a?b" ∧
        context.request_.version_ = .kHttp10 ∧
        ∀ field, context.request_.headers_.find field =
          RequestText.lastValue twoHosts.headers field := by
  obtain ⟨buf, hbuf, hinv, hcontents, _⟩ :=
    Buffer.append_spec Buffer.new_spec.1 (twoHosts.bytes ++ ascii "GET")
  rw [Buffer.new_spec.2.1, List.nil_append] at hcontents
  exact ⟨buf, hbuf, parseRequest_of_wellFormed true twoHosts_wellFormed hinv hcontents ⟨1⟩⟩

end Muduo.Http
