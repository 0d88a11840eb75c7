/-
  Http/HttpFraming.lean --- how a client finds the responses in a stream.

  `readResponse` reads the head of a keep-alive response up to the first empty line and as
  many bytes of the body as `Content-Length` says.  `responses_framed_iff` says when a list
  of responses, written one after the other, is read back: the strings that a response is
  made of go through `StringPiece`, so each must be shorter than 2^31 bytes.

  A response that was cut is noticed by counting: what is read is never longer than the
  stream (`length_of_readResponse`), and the responses as they should be are.
-/
import Muduo.Foundation.Decimal
import Muduo.Foundation.Reader
import Muduo.Http.HttpResponse
import Muduo.Net.BufferPieces

set_option autoImplicit false

namespace Muduo.Http

open Muduo.Foundation Muduo.Net

/-! ## The reader -/

/-- The header with the length of the body. -/
def kContentLength : List UInt8 := ascii "Content-Length"

/-- The header with the fate of the connection. -/
def kConnection : List UInt8 := ascii "Connection"

/-- Its value when the connection stays open. -/
def kKeepAlive : List UInt8 := ascii "Keep-Alive"

/-- What stands between a header and its value. -/
def kColon : List UInt8 := [58, 32]

/-- What a client sees of a response: the headers are those that do not frame it. -/
structure ResponseView where
  code : Nat
  message : List UInt8
  headers : List (List UInt8 × List UInt8)
  body : List UInt8
  deriving DecidableEq, Repr

/-- A decimal number without leading zeros. -/
def readNumber (digits : List UInt8) : Option Nat :=
  let n := Nat.ofDigitChars 10 (digits.map fun c => Char.ofNat c.toNat) 0
  if HttpResponse.decimal n = digits then some n else none

/-- The code and the message of a status line. -/
def readStatusLine (line : List UInt8) : Option (Nat × List UInt8) := do
  let (version, rest) ← cut [32] line
  if version = ascii "HTTP/1.1" then do
    let (code, message) ← cut [32] rest
    some (← readNumber code, message)
  else none

/-- The headers that do not frame the response. -/
def otherHeaders (headers : List (List UInt8 × List UInt8)) : List (List UInt8 × List UInt8) :=
  (headers.filter fun h => h.1 ≠ kContentLength).filter fun h => h.1 ≠ kConnection

/-- The lines of a head, and what stands behind its empty line. -/
def readHead (xs : List UInt8) : Option (List (List UInt8) × List UInt8) :=
  collect (cut Buffer.kCRLF) List.isEmpty (xs.length + 1) xs

/-- A head, and as many bytes of body as `Content-Length` says. -/
def readResponse : Reader UInt8 ResponseView := fun xs => do
  let (lines, rest) ← readHead xs
  let (code, message) ← readStatusLine (← lines.head?)
  let headers ← lines.tail.mapM (cut kColon)
  let length ← readNumber (← headers.lookup kContentLength)
  if headers.lookup kConnection = some kKeepAlive ∧ length ≤ rest.length then
    some (⟨code, message, otherHeaders headers, rest.take length⟩, rest.drop length)
  else none

/-- All responses of a stream. -/
def readResponses (xs : List UInt8) : Option (List ResponseView) := many readResponse xs.length xs

/-! ## The code -/

/-- Append strings one after the other, each as a `StringPiece`. -/
def appendStrings (output : Buffer) (strings : List (List UInt8)) : Exec Buffer :=
  strings.foldlM (fun output s => output.appendPiece (.ofString s)) output

namespace HttpResponse

/-- `appendToBuffer`, with the pieces as the `StringPiece`s that they are.  For strings whose length
is an `int` it does what `HttpResponse.appendToBuffer` does (`appendAsPieces_of_fits`). -/
def appendAsPieces (r : HttpResponse) (output : Buffer) : Exec Buffer :=
  appendStrings output r.pieces

/-- What `appendToBuffer` writes into a new buffer. -/
def output (r : HttpResponse) : Exec (List UInt8) := do
  let buf ← r.appendAsPieces Buffer.new
  .ok buf.contents

/-- The strings of a response. -/
def strings (r : HttpResponse) : List (List UInt8) :=
  r.statusMessage_ :: r.body_ :: r.headers_.flatMap fun h => [h.1, h.2]

/-- What the user of a response must keep to; no string is larger than memory. -/
structure WellFormed (r : HttpResponse) : Prop where
  keepAlive : r.closeConnection_ = false
  message : 13 ∉ r.statusMessage_ ∧ 10 ∉ r.statusMessage_
  names : ∀ h ∈ r.headers_, 13 ∉ h.1 ∧ 10 ∉ h.1 ∧ 58 ∉ h.1 ∧ h.1 ≠ kContentLength ∧
    h.1 ≠ kConnection
  values : ∀ h ∈ r.headers_, 13 ∉ h.2 ∧ 10 ∉ h.2
  body : r.body_.length < 10 ^ 13
  memory : ∀ s ∈ r.strings, s.length < 2 ^ 63

/-- What a reader should find. -/
def view (r : HttpResponse) : ResponseView :=
  ⟨r.statusCode_.value, r.statusMessage_, r.headers_, r.body_⟩

end HttpResponse

/-- The outputs of some responses, one after the other. -/
def outputs (rs : List HttpResponse) : Exec (List UInt8) := do
  let bytes ← rs.mapM HttpResponse.output
  .ok bytes.flatten

/-! ## Numbers -/

theorem decimal_eq (n : Nat) :
    HttpResponse.decimal n = (decimal n).map fun c => UInt8.ofNat c.toNat := by
  rw [HttpResponse.decimal, ascii, Nat.toString_eq_repr, Nat.toList_repr]
  rfl

@[simp] theorem length_httpDecimal (n : Nat) :
    (HttpResponse.decimal n).length = (decimal n).length := by
  rw [decimal_eq, List.length_map]

theorem toNat_of_mem_decimal {n : Nat} {c : Char} (h : c ∈ decimal n) :
    48 ≤ c.toNat ∧ c.toNat ≤ 57 := by
  have hdigit := Nat.isDigit_of_mem_toDigits (by decide) (by decide) h
  simp only [Char.isDigit, ge_iff_le, Bool.and_eq_true, decide_eq_true_eq] at hdigit
  exact ⟨UInt32.le_iff_toNat_le.mp hdigit.1, UInt32.le_iff_toNat_le.mp hdigit.2⟩

/-- A text of digits contains nothing else. -/
theorem not_mem_httpDecimal {c : UInt8} (n : Nat) (h : c < 48) : c ∉ HttpResponse.decimal n := by
  rw [decimal_eq]
  intro hmem
  obtain ⟨d, hd, rfl⟩ := List.mem_map.mp hmem
  obtain ⟨hlo, hhi⟩ := toNat_of_mem_decimal hd
  rw [UInt8.lt_iff_toNat_lt, UInt8.toNat_ofNat'] at h
  simp only [UInt8.reduceToNat] at h
  omega

theorem readNumber_decimal (n : Nat) : readNumber (HttpResponse.decimal n) = some n := by
  have hchars : ((HttpResponse.decimal n).map fun c => Char.ofNat c.toNat) = decimal n := by
    rw [decimal_eq, List.map_map]
    refine (List.map_congr_left ?_).trans (List.map_id _)
    intro c hc
    obtain ⟨_, hhi⟩ := toNat_of_mem_decimal hc
    have hsmall : c.toNat % 2 ^ 8 = c.toNat := Nat.mod_eq_of_lt (by omega)
    simp only [Function.comp, UInt8.toNat_ofNat', hsmall, Char.ofNat_toNat, id]
  have hvalue : Nat.ofDigitChars 10 (decimal n) 0 = n := Nat.ofDigitChars_ten_toDigits
  simp only [readNumber, hchars, hvalue, if_true]

theorem readNumber_eq_some {digits : List UInt8} {n : Nat} (h : readNumber digits = some n) :
    digits = HttpResponse.decimal n := by
  simp only [readNumber] at h
  split at h
  · rename_i hdigits
    rw [← Option.some.inj h, hdigits]
  · exact absurd h (by simp)

/-! ## The text of a response -/

/-- A header as a line. -/
def responseHeader (h : List UInt8 × List UInt8) : List UInt8 := h.1 ++ (kColon ++ h.2)

namespace HttpResponse

/-- The first line. -/
def statusLine (r : HttpResponse) : List UInt8 :=
  ascii "HTTP/1.1" ++ 32 :: (decimal r.statusCode_.value ++ 32 :: r.statusMessage_)

/-- The headers with those that frame the response. -/
def allHeaders (r : HttpResponse) : List (List UInt8 × List UInt8) :=
  (kContentLength, decimal r.body_.length) :: (kConnection, kKeepAlive) :: r.headers_

/-- The lines of the head. -/
def lines (r : HttpResponse) : List (List UInt8) :=
  r.statusLine :: r.allHeaders.map responseHeader

/-- The bytes of a keep-alive response. -/
def text (r : HttpResponse) : List UInt8 :=
  r.lines.flatMap (fun l => l ++ Buffer.kCRLF) ++ (Buffer.kCRLF ++ r.body_)

/-- The formatted lines fit into the 32 bytes of `buf`. -/
theorem snprintf_of_wellFormed {r : HttpResponse} (h : r.WellFormed) :
    snprintf (ascii "HTTP/1.1 " ++ decimal r.statusCode_.value ++ ascii " ") =
        ascii "HTTP/1.1 " ++ decimal r.statusCode_.value ++ ascii " " ∧
      snprintf (ascii "Content-Length: " ++ decimal r.body_.length ++ ascii "\r\n") =
        ascii "Content-Length: " ++ decimal r.body_.length ++ ascii "\r\n" := by
  constructor
  · cases r.statusCode_ <;> decide
  · have hdigits : (Foundation.decimal r.body_.length).length ≤ 13 :=
      (length_decimal_le_iff (by decide)).mpr h.body
    have hlabel : (ascii "Content-Length: ").length = 16 := by decide
    have hend : (ascii "\r\n").length = 2 := by decide
    rw [snprintf, List.take_of_length_le]
    rw [List.length_append, List.length_append, length_httpDecimal, hlabel, hend]
    omega

theorem flatten_pieces {r : HttpResponse} (h : r.WellFormed) : r.pieces.flatten = r.text := by
  obtain ⟨hstatus, hlength⟩ := snprintf_of_wellFormed h
  have hstatusLine : ascii "HTTP/1.1 " = ascii "HTTP/1.1" ++ [32] := by decide
  have hspace : ascii " " = [32] := by decide
  have hcrlf : ascii "\r\n" = Buffer.kCRLF := by decide
  have hcolon : ascii ": " = kColon := by decide
  have hlabel : ascii "Content-Length: " = kContentLength ++ kColon := by decide
  have hkeep : ascii "Connection: Keep-Alive\r\n" =
      kConnection ++ (kColon ++ (kKeepAlive ++ Buffer.kCRLF)) := by decide
  have hheaders : (r.headers_.flatMap fun header =>
    [header.1, kColon, header.2, Buffer.kCRLF]).flatten =
      (r.headers_.map responseHeader).flatMap fun l => l ++ Buffer.kCRLF := by
    rw [List.flatMap_map, ← List.flatMap_id, List.flatMap_assoc]
    refine congrArg (fun f => r.headers_.flatMap f) (funext fun header => ?_)
    simp [responseHeader]
  rw [pieces, h.keepAlive, hstatus, hlength, hstatusLine, hspace, hcrlf, hcolon, hlabel, hkeep]
  simp only [Bool.false_eq_true, if_false, List.flatten_append, hheaders]
  simp [text, lines, statusLine, allHeaders, responseHeader]

end HttpResponse

/-! ## Reading it back -/

section ReadBack

variable {r : HttpResponse}

theorem readStatusLine_eq (r : HttpResponse) :
    readStatusLine r.statusLine = some (r.statusCode_.value, r.statusMessage_) := by
  have hversion := @cut_append _ _ 32 [] (ascii "HTTP/1.1") (by decide)
    (HttpResponse.decimal r.statusCode_.value ++ 32 :: r.statusMessage_)
  have hcode := @cut_append _ _ 32 [] (HttpResponse.decimal r.statusCode_.value)
    (not_mem_httpDecimal _ (by decide)) r.statusMessage_
  simp only [List.cons_append, List.nil_append] at hversion hcode
  simp only [readStatusLine, HttpResponse.statusLine, hversion, hcode, readNumber_decimal,
    Option.bind_eq_bind, Option.bind_some, if_true]

theorem cut_responseHeader {h : List UInt8 × List UInt8} (hname : 58 ∉ h.1) :
    cut kColon (responseHeader h) = some h := by
  rw [responseHeader, kColon, cut_append hname]

theorem colon_not_mem (h : r.WellFormed) : ∀ header ∈ r.allHeaders, 58 ∉ header.1 := by
  intro header hmem
  simp only [HttpResponse.allHeaders, List.mem_cons] at hmem
  rcases hmem with rfl | rfl | hmem
  · exact (by decide : (58 : UInt8) ∉ kContentLength)
  · exact (by decide : (58 : UInt8) ∉ kConnection)
  · exact (h.names header hmem).2.2.1

theorem mapM_cut (headers : List (List UInt8 × List UInt8))
    (h : ∀ header ∈ headers, 58 ∉ header.1) :
    (headers.map responseHeader).mapM (cut kColon) = some headers := by
  induction headers with
  | nil => rfl
  | cons header headers ih =>
      have hfirst := cut_responseHeader (h header List.mem_cons_self)
      have hrest := ih fun h' hh' => h h' (List.mem_cons_of_mem _ hh')
      simp [hfirst, hrest]

theorem otherHeaders_eq (h : r.WellFormed) : otherHeaders r.allHeaders = r.headers_ := by
  have hlength : r.headers_.filter (fun h => h.1 ≠ kContentLength) = r.headers_ := by
    rw [List.filter_eq_self]
    intro header hmem
    simpa using (h.names header hmem).2.2.2.1
  have hconnection : r.headers_.filter (fun h => h.1 ≠ kConnection) = r.headers_ := by
    rw [List.filter_eq_self]
    intro header hmem
    simpa using (h.names header hmem).2.2.2.2
  have hne : kConnection ≠ kContentLength := by decide
  simp only [otherHeaders, HttpResponse.allHeaders]
  rw [List.filter_cons_of_neg (by simp), List.filter_cons_of_pos (by simpa using hne), hlength,
    List.filter_cons_of_neg (by simp), hconnection]

theorem line_spec (h : r.WellFormed) : ∀ l ∈ r.lines, 13 ∉ l ∧ l ≠ [] := by
  intro l hl
  have hheader : ∀ header : List UInt8 × List UInt8, 13 ∉ header.1 → 13 ∉ header.2 →
      13 ∉ responseHeader header ∧ responseHeader header ≠ [] := by
    intro header hname hvalue
    refine ⟨?_, by simp [responseHeader, kColon]⟩
    simp [responseHeader, kColon, hname, hvalue]
  simp only [HttpResponse.lines, HttpResponse.allHeaders, List.map_cons, List.mem_cons] at hl
  rcases hl with rfl | rfl | rfl | hl
  · have hversion : 13 ∉ ascii "HTTP/1.1" := by decide
    have hcode : 13 ∉ HttpResponse.decimal r.statusCode_.value := not_mem_httpDecimal _ (by decide)
    refine ⟨?_, by simp [HttpResponse.statusLine]⟩
    simp [HttpResponse.statusLine, hversion, hcode, h.message.1]
  · exact hheader (kContentLength, _) (by decide : (13 : UInt8) ∉ kContentLength)
      (not_mem_httpDecimal _ (by decide))
  · exact hheader _ (by decide) (by decide)
  · obtain ⟨header, hmem, rfl⟩ := List.mem_map.mp hl
    exact hheader header (h.names header hmem).1 (h.values header hmem).1

theorem readHead_text (h : r.WellFormed) (rest : List UInt8) :
    readHead (r.text ++ rest) = some (r.lines, r.body_ ++ rest) := by
  have hbytes : r.text ++ rest = r.lines.flatMap (fun l => l ++ Buffer.kCRLF) ++
      ([] ++ Buffer.kCRLF ++ (r.body_ ++ rest)) := by
    simp [HttpResponse.text]
  have hread : ∀ l ∈ [] :: r.lines, ∀ rest,
      cut Buffer.kCRLF (l ++ Buffer.kCRLF ++ rest) = some (l, rest) := by
    intro l hl rest
    have hno : 13 ∉ l := by
      rcases List.mem_cons.mp hl with rfl | hl
      · exact List.not_mem_nil
      · exact (line_spec h l hl).1
    rw [List.append_assoc]
    exact cut_append hno rest
  have hgo : ∀ l ∈ r.lines, l.isEmpty = false := by
    intro l hl
    simpa using (line_spec h l hl).2
  have hfuel : r.lines.length < (r.text ++ rest).length + 1 := by
    have hle : r.lines.length ≤ (r.lines.flatMap fun l => l ++ Buffer.kCRLF).length :=
      length_le_flatMap fun l _ => by simp [Buffer.kCRLF]
    rw [HttpResponse.text, List.length_append, List.length_append]
    omega
  rw [readHead]
  rw [hbytes] at hfuel ⊢
  exact collect_flatMap hread hgo rfl hfuel _

/-- A response is read back, whatever stands behind it. -/
theorem readResponse_text (h : r.WellFormed) (rest : List UInt8) :
    readResponse (r.text ++ rest) = some (r.view, rest) := by
  have hheaders := mapM_cut r.allHeaders (colon_not_mem h)
  have hlength : r.allHeaders.lookup kContentLength =
      some (HttpResponse.decimal r.body_.length) := by
    simp [HttpResponse.allHeaders]
  have hconnection : r.allHeaders.lookup kConnection = some kKeepAlive := by
    have hne : (kConnection == kContentLength) = false := by decide
    simp [HttpResponse.allHeaders, List.lookup_cons, hne]
  have hroom : r.body_.length ≤ (r.body_ ++ rest).length := by simp
  simp only [readResponse, readHead_text h, HttpResponse.lines, List.head?_cons, List.tail_cons,
    readStatusLine_eq, hheaders, hlength, hconnection, readNumber_decimal, Option.bind_eq_bind,
    Option.bind_some, true_and, if_pos hroom, otherHeaders_eq h, List.take_left, List.drop_left]
  rfl

theorem readResponses_text {rs : List HttpResponse} (h : ∀ r ∈ rs, r.WellFormed) :
    readResponses (rs.flatMap HttpResponse.text) = some (rs.map HttpResponse.view) := by
  have hne : ∀ r ∈ rs, r.text ≠ [] := by
    intro r _
    simp [HttpResponse.text, Buffer.kCRLF]
  exact many_flatMap (fun r hr => readResponse_text (h r hr)) hne (length_le_flatMap hne)

end ReadBack

/-! ## Counting bytes -/

/-- The bytes of a header line, with its terminator. -/
def headerSize (h : List UInt8 × List UInt8) : Nat := h.1.length + h.2.length + 4

/-- The bytes of a response that is seen so. -/
def ResponseView.size (v : ResponseView) : Nat :=
  (decimal v.code).length + v.message.length + 12 +
    (headerSize (kContentLength, HttpResponse.decimal v.body.length) +
      headerSize (kConnection, kKeepAlive) + (v.headers.map headerSize).sum) + 2 + v.body.length

theorem length_text (r : HttpResponse) : r.text.length = r.view.size := by
  have hversion : (ascii "HTTP/1.1").length = 8 := by decide
  have hstatus : r.statusLine.length =
      (decimal r.statusCode_.value).length + r.statusMessage_.length + 10 := by
    simp only [HttpResponse.statusLine, List.length_append, List.length_cons, hversion,
      length_httpDecimal]
    omega
  have hline : ∀ h, (responseHeader h).length + 2 = headerSize h := by
    intro h
    simp only [responseHeader, headerSize, kColon, List.length_append, List.length_cons,
      List.length_nil]
    omega
  have hlines : ((r.lines.flatMap fun l => l ++ Buffer.kCRLF).length) =
      r.statusLine.length + 2 + (r.allHeaders.map headerSize).sum := by
    simp only [HttpResponse.lines, List.flatMap_cons, List.length_append, List.length_flatMap,
      Buffer.kCRLF, List.length_cons, List.length_nil, List.map_map, Function.comp_def, hline]
  rw [HttpResponse.text, List.length_append, List.length_append, hlines, hstatus]
  simp only [HttpResponse.allHeaders, List.map_cons, List.sum_cons, Buffer.kCRLF, List.length_cons,
    List.length_nil, ResponseView.size, HttpResponse.view]
  omega

theorem length_of_readStatusLine {line message : List UInt8} {code : Nat}
    (h : readStatusLine line = some (code, message)) :
    line.length = (decimal code).length + message.length + 10 := by
  simp only [readStatusLine, Option.bind_eq_bind, Option.bind_eq_some_iff] at h
  obtain ⟨⟨version, rest⟩, hversion, h⟩ := h
  split at h
  · rename_i hname
    simp only at hname
    subst hname
    simp only [Option.bind_eq_some_iff] at h
    obtain ⟨⟨digits, message'⟩, hdigits, n, hn, h⟩ := h
    obtain ⟨rfl, rfl⟩ := Prod.mk.inj (Option.some.inj h)
    simp only at hn ⊢
    have hfirst := length_of_cut hversion
    have hsecond := length_of_cut hdigits
    rw [readNumber_eq_some hn, length_httpDecimal] at hsecond
    have hlen : (ascii "HTTP/1.1").length = 8 := by decide
    rw [hlen] at hfirst
    simp only [List.length_cons, List.length_nil] at hfirst hsecond
    omega
  · exact absurd h (by simp)

theorem length_of_mapM {lines : List (List UInt8)} {headers : List (List UInt8 × List UInt8)}
    (h : lines.mapM (cut kColon) = some headers) :
    (headers.map headerSize).sum = (lines.map fun l => l.length + 2).sum := by
  induction lines generalizing headers with
  | nil =>
      obtain rfl : [] = headers := Option.some.inj h
      rfl
  | cons line lines ih =>
      rw [List.mapM_cons] at h
      simp only [Option.bind_eq_bind, Option.bind_eq_some_iff] at h
      obtain ⟨header, hheader, rest, hrest, h⟩ := h
      obtain rfl : header :: rest = headers := Option.some.inj h
      have hline := length_of_cut hheader
      have hlines := ih hrest
      simp only [kColon, List.length_cons, List.length_nil] at hline
      simp only [List.map_cons, List.sum_cons, hlines, headerSize]
      omega

theorem mem_of_lookup {headers : List (List UInt8 × List UInt8)} {name value : List UInt8}
    (h : headers.lookup name = some value) : (name, value) ∈ headers := by
  obtain ⟨before, after, rfl, _⟩ := List.lookup_eq_some_iff.mp h
  exact List.mem_append_right before List.mem_cons_self

/-- A header that is filtered out is missing in the sum. -/
theorem sum_filter_le {headers : List (List UInt8 × List UInt8)}
    {keep : List UInt8 × List UInt8 → Bool} {header : List UInt8 × List UInt8}
    (hmem : header ∈ headers) (hout : keep header = false) :
    ((headers.filter keep).map headerSize).sum + headerSize header ≤
      (headers.map headerSize).sum := by
  obtain ⟨before, after, rfl⟩ := List.append_of_mem hmem
  have hle : ∀ l : List (List UInt8 × List UInt8),
      ((l.filter keep).map headerSize).sum ≤ (l.map headerSize).sum := by
    intro l
    induction l with
    | nil => exact Nat.le_refl _
    | cons h l ih =>
        rw [List.filter_cons, List.map_cons, List.sum_cons]
        split
        · rw [List.map_cons, List.sum_cons]
          omega
        · omega
  have hbefore := hle before
  have hafter := hle after
  rw [List.filter_append, List.filter_cons_of_neg (by simp [hout])]
  simp only [List.map_append, List.sum_append, List.map_cons, List.sum_cons]
  omega

/-- What a client reads is as long as what is seen of it. -/
theorem length_of_readResponse (xs : List UInt8) (v : ResponseView) (rest : List UInt8)
    (h : readResponse xs = some (v, rest)) : v.size + rest.length ≤ xs.length := by
  simp only [readResponse, Option.bind_eq_bind, Option.bind_eq_some_iff] at h
  obtain ⟨⟨lines, behind⟩, hhead, line, hline, ⟨code, message⟩, hstatus, headers, hheaders, digits,
    hdigits, length, hlength, h⟩ := h
  simp only at hline hstatus hheaders h
  split at h
  · rename_i hframe
    obtain ⟨rfl, rfl⟩ := Prod.mk.inj (Option.some.inj h)
    obtain ⟨hconnection, hroom⟩ := hframe
    -- the head, line by line
    obtain ⟨last, hbytes⟩ := @length_of_collect _ _ (cut Buffer.kCRLF) List.isEmpty
      (fun l => l.length + 2) (fun _ _ _ hcut => Nat.le_of_eq (length_of_cut hcut)) _ _ _ _ hhead
    have hlines : lines = line :: lines.tail := by
      cases lines with
      | nil => simp at hline
      | cons l ls => simpa using hline
    rw [hlines, List.map_cons, List.sum_cons, ← length_of_mapM hheaders] at hbytes
    have hfirst := length_of_readStatusLine hstatus
    -- the two headers that frame the body
    rw [readNumber_eq_some hlength] at hdigits
    have hcl := @sum_filter_le _ (fun h => h.1 ≠ kContentLength) _ (mem_of_lookup hdigits) (by simp)
    have hmem : (kConnection, kKeepAlive) ∈ headers.filter fun h => h.1 ≠ kContentLength := by
      rw [List.mem_filter]
      exact ⟨mem_of_lookup hconnection, by decide⟩
    have hconn := @sum_filter_le _ (fun h => h.1 ≠ kConnection) _ hmem (by simp)
    have hbody : (behind.take length).length = length := by
      rw [List.length_take]
      omega
    simp only [ResponseView.size, otherHeaders, hbody, List.length_drop] at hcl hconn ⊢
    omega
  · exact absurd h (by simp)

/-! ## What is written -/

theorem appendStrings_of_lt {strings : List (List UInt8)} (h : ∀ s ∈ strings, s.length < 2 ^ 31)
    (output : Buffer) : appendStrings output strings = HttpResponse.appendAll output strings := by
  induction strings generalizing output with
  | nil => rfl
  | cons s strings ih =>
      have hrest := ih fun s' hs' => h s' (List.mem_cons_of_mem _ hs')
      have hfirst := appendPiece_of_lt output (h s List.mem_cons_self)
      rw [appendStrings, HttpResponse.appendAll, List.foldlM_cons, List.foldlM_cons, hfirst]
      exact congrArg (fun f => output.append s >>= f) (funext hrest)

/-- Of each string something is written, of a long one not everything. -/
theorem length_of_appendStrings {strings : List (List UInt8)} {output b : Buffer}
    (hb : output.Inv) (hmemory : ∀ s ∈ strings, s.length < 2 ^ 63)
    (h : appendStrings output strings = .ok b) :
    b.contents.length ≤ output.contents.length + strings.flatten.length ∧
      ((∃ s ∈ strings, 2 ^ 31 ≤ s.length) →
        b.contents.length < output.contents.length + strings.flatten.length) := by
  induction strings generalizing output with
  | nil =>
      obtain rfl : output = b := Except.ok.inj h
      exact ⟨Nat.le_refl _, fun ⟨s, hs, _⟩ => absurd hs List.not_mem_nil⟩
  | cons s strings ih =>
      rw [appendStrings, List.foldlM_cons, bind_eq_ok_iff] at h
      obtain ⟨output', hfirst, hrest⟩ := h
      -- the first string
      have hpart : ∃ n ≤ s.length, output.append (s.take n) = .ok output' ∧
          (2 ^ 31 ≤ s.length → n < s.length) := by
        by_cases hshort : s.length < 2 ^ 31
        · rw [appendPiece_of_lt output hshort] at hfirst
          exact ⟨s.length, Nat.le_refl _, by rw [List.take_length, hfirst], fun hle => by omega⟩
        · obtain ⟨n, hn, hpart⟩ | herror :=
            appendPiece_of_le output (Nat.le_of_not_lt hshort) (hmemory s List.mem_cons_self)
          · rw [hpart] at hfirst
            exact ⟨n, Nat.le_of_lt hn, hfirst, fun _ => hn⟩
          · rw [herror] at hfirst
            exact absurd hfirst (by simp)
      obtain ⟨n, hn, happend, hcut⟩ := hpart
      obtain ⟨output'', happend', hinv, hcontents, _⟩ := Buffer.append_spec hb (s.take n)
      obtain rfl : output'' = output' := Except.ok.inj (happend'.symm.trans happend)
      obtain ⟨hle, hlt⟩ := ih hinv (fun s' hs' => hmemory s' (List.mem_cons_of_mem _ hs')) hrest
      rw [hcontents, List.length_append, List.length_take, Nat.min_eq_left hn] at hle hlt
      rw [List.flatten_cons, List.length_append]
      refine ⟨by omega, ?_⟩
      rintro ⟨s', hs', hlong⟩
      rcases List.mem_cons.mp hs' with rfl | hs'
      · have := hcut hlong
        omega
      · have := hlt ⟨s', hs', hlong⟩
        omega

namespace HttpResponse

theorem mem_pieces_of_mem_strings {r : HttpResponse} {s : List UInt8} (h : s ∈ r.strings) :
    s ∈ r.pieces := by
  simp only [strings, List.mem_cons, List.mem_flatMap] at h
  rcases h with rfl | rfl | ⟨header, hmem, hs⟩
  · simp [pieces]
  · simp [pieces]
  · have hheader : s ∈ r.headers_.flatMap fun header =>
        [header.1, ascii ": ", header.2, ascii "\r\n"] := by
      refine List.mem_flatMap.mpr ⟨header, hmem, ?_⟩
      simp only [List.mem_cons, List.not_mem_nil, or_false] at hs ⊢
      rcases hs with rfl | rfl
      · exact .inl rfl
      · exact .inr (.inr (.inl rfl))
    rw [pieces]
    exact List.mem_append_left _ (List.mem_append_right _ hheader)

/-- The other pieces are short. -/
theorem mem_strings_or_short {r : HttpResponse} {s : List UInt8} (h : s ∈ r.pieces) :
    s ∈ r.strings ∨ s.length < 32 := by
  have hsnprintf : ∀ text, (snprintf text).length < 32 := by
    intro text
    rw [snprintf, List.length_take]
    omega
  rw [pieces, List.mem_append, List.mem_append, List.mem_append] at h
  rcases h with ((h | h) | h) | h
  · simp only [List.mem_cons, List.not_mem_nil, or_false] at h
    rcases h with rfl | rfl | rfl
    · exact .inr (hsnprintf _)
    · exact .inl List.mem_cons_self
    · exact .inr (by decide)
  · right
    split at h
    · rw [List.mem_singleton.mp h]
      decide
    · simp only [List.mem_cons, List.not_mem_nil, or_false] at h
      rcases h with rfl | rfl
      · exact hsnprintf _
      · decide
  · obtain ⟨header, hmem, hs⟩ := List.mem_flatMap.mp h
    have hheader : ∀ s' ∈ [header.1, header.2], s' ∈ r.strings := by
      intro s' hs'
      exact List.mem_cons_of_mem _ (List.mem_cons_of_mem _
        (List.mem_flatMap.mpr ⟨header, hmem, hs'⟩))
    simp only [List.mem_cons, List.not_mem_nil, or_false] at hs
    rcases hs with rfl | rfl | rfl | rfl
    · exact .inl (hheader _ (by simp))
    · exact .inr (by decide)
    · exact .inl (hheader _ (by simp))
    · exact .inr (by decide)
  · simp only [List.mem_cons, List.not_mem_nil, or_false] at h
    rcases h with rfl | rfl
    · exact .inr (by decide)
    · exact .inl (List.mem_cons_of_mem _ List.mem_cons_self)

/-- Every string is appended whole. -/
def Fits (r : HttpResponse) : Prop := ∀ s ∈ r.strings, s.length < 2 ^ 31

/-- Then the length of a `StringPiece` makes no difference. -/
theorem appendAsPieces_of_fits {r : HttpResponse} (hfits : r.Fits) (output : Buffer) :
    r.appendAsPieces output = r.appendToBuffer output := by
  have hpieces : ∀ s ∈ r.pieces, s.length < 2 ^ 31 := by
    intro s hs
    obtain hstring | hshort := mem_strings_or_short hs
    · exact hfits s hstring
    · omega
  exact appendStrings_of_lt hpieces output

theorem output_of_fits {r : HttpResponse} (h : r.WellFormed) (hfits : r.Fits) :
    r.output = .ok r.text := by
  obtain ⟨b, hb, _, hcontents⟩ := appendAll_spec Buffer.new_spec.1 r.pieces
  rw [Buffer.new_spec.2.1, List.nil_append, flatten_pieces h] at hcontents
  rw [output, appendAsPieces_of_fits hfits, appendToBuffer, hb, ok_bind, hcontents]

theorem length_of_output {r : HttpResponse} (h : r.WellFormed) {bytes : List UInt8}
    (houtput : r.output = .ok bytes) :
    bytes.length ≤ r.text.length ∧ (¬ r.Fits → bytes.length < r.text.length) := by
  have hmemory : ∀ s ∈ r.pieces, s.length < 2 ^ 63 := by
    intro s hs
    obtain hstring | hshort := mem_strings_or_short hs
    · exact h.memory s hstring
    · omega
  rw [output, bind_eq_ok_iff] at houtput
  obtain ⟨b, hb, houtput⟩ := houtput
  obtain rfl : b.contents = bytes := Except.ok.inj houtput
  obtain ⟨hle, hlt⟩ := length_of_appendStrings Buffer.new_spec.1 hmemory hb
  rw [Buffer.new_spec.2.1, List.length_nil, Nat.zero_add, flatten_pieces h] at hle hlt
  refine ⟨hle, fun hfits => hlt ?_⟩
  simp only [Fits, not_forall] at hfits
  obtain ⟨s, hs, hlong⟩ := hfits
  exact ⟨s, mem_pieces_of_mem_strings hs, by omega⟩

end HttpResponse

/-! ## Lists of responses -/

theorem outputs_cons (r : HttpResponse) (rs : List HttpResponse) :
    outputs (r :: rs) =
      r.output >>= fun bytes => outputs rs >>= fun rest => .ok (bytes ++ rest) := by
  rw [outputs, outputs, List.mapM_cons]
  cases r.output with
  | error e => rfl
  | ok bytes =>
      cases rs.mapM HttpResponse.output with
      | error e => rfl
      | ok rest => rfl

theorem outputs_of_fits {rs : List HttpResponse} (h : ∀ r ∈ rs, r.WellFormed)
    (hfits : ∀ r ∈ rs, r.Fits) : outputs rs = .ok (rs.flatMap HttpResponse.text) := by
  induction rs with
  | nil => rfl
  | cons r rs ih =>
      have hfirst := HttpResponse.output_of_fits (h r List.mem_cons_self)
        (hfits r List.mem_cons_self)
      have hrest := ih (fun r' hr' => h r' (List.mem_cons_of_mem _ hr'))
        (fun r' hr' => hfits r' (List.mem_cons_of_mem _ hr'))
      rw [outputs_cons, hfirst, ok_bind, hrest, ok_bind, List.flatMap_cons]

theorem length_of_outputs {rs : List HttpResponse} (h : ∀ r ∈ rs, r.WellFormed) {bytes : List UInt8}
    (houtputs : outputs rs = .ok bytes) :
    bytes.length ≤ (rs.map fun r => r.view.size).sum ∧
      ((∃ r ∈ rs, ¬ r.Fits) → bytes.length < (rs.map fun r => r.view.size).sum) := by
  induction rs generalizing bytes with
  | nil =>
      obtain rfl : [] = bytes := Except.ok.inj houtputs
      exact ⟨Nat.le_refl _, fun ⟨r, hr, _⟩ => absurd hr List.not_mem_nil⟩
  | cons r rs ih =>
      rw [outputs_cons, bind_eq_ok_iff] at houtputs
      obtain ⟨first, hfirst, houtputs⟩ := houtputs
      rw [bind_eq_ok_iff] at houtputs
      obtain ⟨rest, hrest, houtputs⟩ := houtputs
      obtain rfl : first ++ rest = bytes := Except.ok.inj houtputs
      obtain ⟨hle, hlt⟩ := HttpResponse.length_of_output (h r List.mem_cons_self) hfirst
      obtain ⟨hle', hlt'⟩ := ih (fun r' hr' => h r' (List.mem_cons_of_mem _ hr')) hrest
      rw [length_text] at hle hlt
      rw [List.length_append, List.map_cons, List.sum_cons]
      refine ⟨by omega, ?_⟩
      rintro ⟨r', hr', hlong⟩
      rcases List.mem_cons.mp hr' with rfl | hr'
      · have := hlt hlong
        omega
      · have := hlt' ⟨r', hr', hlong⟩
        omega

/-- A string that is too long for a piece is missed. -/
theorem not_framed_of_not_fits {rs : List HttpResponse} (h : ∀ r ∈ rs, r.WellFormed)
    (hlong : ∃ r ∈ rs, ¬ r.Fits) :
    ¬ ∃ bytes, outputs rs = .ok bytes ∧ readResponses bytes = some (rs.map HttpResponse.view) := by
  rintro ⟨bytes, houtputs, hread⟩
  have hlt := (length_of_outputs h houtputs).2 hlong
  have hle := length_of_many length_of_readResponse hread
  rw [List.map_map] at hle
  exact absurd hle (Nat.not_le_of_lt hlt)

/-- For every list of keep-alive responses without line breaks in the texts of their heads: what
`appendToBuffer` writes for them, one after the other, is read back as the same responses if and
only if no status message, header name, header value or body has 2^31 bytes or more. -/
theorem responses_framed_iff {rs : List HttpResponse} (h : ∀ r ∈ rs, r.WellFormed) :
    (∃ bytes, outputs rs = .ok bytes ∧ readResponses bytes = some (rs.map HttpResponse.view)) ↔
      ∀ r ∈ rs, ∀ s ∈ r.strings, s.length < 2 ^ 31 := by
  constructor
  · intro hframed r hr
    by_contra hlong
    exact not_framed_of_not_fits h ⟨r, hr, hlong⟩ hframed
  · intro hfits
    exact ⟨_, outputs_of_fits h hfits, readResponses_text h⟩

/-- A body that looks like a response. -/
def nestedResponse : HttpResponse :=
  ⟨[(ascii "Server", ascii "Muduo: x")], .k200Ok, ascii "OK", false,
    ascii "HTTP/1.1 200 OK\r\nContent-Length: 0\r\n\r\n"⟩

theorem nestedResponse_wellFormed : nestedResponse.WellFormed :=
  ⟨rfl, by decide, by decide, by decide, by decide, by decide⟩

theorem responses_framed_iff_nested :
    (∃ bytes, outputs [nestedResponse, nestedResponse] = .ok bytes ∧
      readResponses bytes = some [nestedResponse.view, nestedResponse.view]) ↔
      ∀ r ∈ [nestedResponse, nestedResponse], ∀ s ∈ r.strings, s.length < 2 ^ 31 := by
  refine @responses_framed_iff [nestedResponse, nestedResponse] ?_
  intro r hr
  obtain rfl : r = nestedResponse := by simpa using hr
  exact nestedResponse_wellFormed

/-- A response with a body of 4 GiB. -/
def hugeResponse : HttpResponse := ⟨[], .k200Ok, ascii "OK", false, List.replicate (2 ^ 32) 0⟩

/-- The head promises 4 GiB, and no byte of the body is written. -/
theorem huge_body_not_framed :
    hugeResponse.WellFormed ∧
      ¬ ∃ bytes, outputs [hugeResponse] = .ok bytes ∧
        readResponses bytes = some [hugeResponse.view] := by
  have hbody : hugeResponse.body_.length = 2 ^ 32 := List.length_replicate
  have hwf : hugeResponse.WellFormed := by
    refine ⟨rfl, ?_, ?_, ?_, by rw [hbody]; decide, ?_⟩
    · exact (by decide : 13 ∉ ascii "OK" ∧ 10 ∉ ascii "OK")
    · exact fun h hh => absurd hh List.not_mem_nil
    · exact fun h hh => absurd hh List.not_mem_nil
    · intro s hs
      rcases List.mem_cons.mp hs with rfl | hs
      · exact (by decide : (ascii "OK").length < 2 ^ 63)
      · rw [List.mem_singleton.mp hs, hbody]
        decide
  refine ⟨hwf, not_framed_of_not_fits  ?_ ⟨hugeResponse, by simp, ?_⟩⟩
  · intro r hr
    rw [List.mem_singleton.mp hr]
    exact hwf
  · intro hfits
    have hlt := hfits hugeResponse.body_ (List.mem_cons_of_mem _ List.mem_cons_self)
    rw [hbody] at hlt
    exact absurd hlt (by decide)

end Muduo.Http
