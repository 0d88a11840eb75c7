/-
  Http/HttpResponse.lean --- `muduo/net/http/HttpResponse.{h,cc}`: a response and its
  bytes.
-/
import Muduo.Foundation.SortedMap
import Muduo.Net.Buffer

set_option autoImplicit false

namespace Muduo.Http

open Muduo.Foundation Muduo.Net

/-- `HttpResponse::HttpStatusCode`. -/
inductive HttpStatusCode where
  | kUnknown
  | k200Ok
  | k301MovedPermanently
  | k400BadRequest
  | k404NotFound
  deriving DecidableEq, Repr

/-- The number of a status code. -/
def HttpStatusCode.value : HttpStatusCode → Nat
  | .kUnknown => 0
  | .k200Ok => 200
  | .k301MovedPermanently => 301
  | .k400BadRequest => 400
  | .k404NotFound => 404

/-- `class HttpResponse`. -/
structure HttpResponse where
  headers_ : SortedMap (List UInt8) (List UInt8)
  statusCode_ : HttpStatusCode
  statusMessage_ : List UInt8
  closeConnection_ : Bool
  body_ : List UInt8
  deriving DecidableEq, Repr

namespace HttpResponse

/-- `HttpResponse(close)`. -/
def new (close : Bool) : HttpResponse := ⟨[], .kUnknown, [], close, []⟩

/-- `setStatusCode(code)`. -/
def setStatusCode (r : HttpResponse) (code : HttpStatusCode) : HttpResponse :=
  { r with statusCode_ := code }

/-- `setStatusMessage(message)`. -/
def setStatusMessage (r : HttpResponse) (message : List UInt8) : HttpResponse :=
  { r with statusMessage_ := message }

/-- `setCloseConnection(on)`. -/
def setCloseConnection (r : HttpResponse) (on : Bool) : HttpResponse :=
  { r with closeConnection_ := on }

/-- `closeConnection()`. -/
def closeConnection (r : HttpResponse) : Bool := r.closeConnection_

/-- `addHeader(key, value)`. -/
def addHeader (r : HttpResponse) (key value : List UInt8) : HttpResponse :=
  { r with headers_ := r.headers_.assign key value }

/-- `setContentType(contentType)`. -/
def setContentType (r : HttpResponse) (contentType : List UInt8) : HttpResponse :=
  r.addHeader (ascii "Content-Type") contentType

/-- `setBody(body)`. -/
def setBody (r : HttpResponse) (body : List UInt8) : HttpResponse := { r with body_ := body }

/-- `snprintf(buf, sizeof buf, ...)` into `char buf[32]`: what does not fit is cut
off. -/
def snprintf (text : List UInt8) : List UInt8 := text.take 31

/-- `"%d"` and `"%zd"`. -/
def decimal (n : Nat) : List UInt8 := ascii (toString n)

/-- Append pieces one after the other. -/
def appendAll (output : Buffer) (pieces : List (List UInt8)) : Exec Buffer :=
  pieces.foldlM (fun output piece => output.append piece) output

/-- The pieces that `appendToBuffer` appends, in order. -/
def pieces (r : HttpResponse) : List (List UInt8) :=
  [snprintf (ascii "HTTP/1.1 " ++ decimal r.statusCode_.value ++ ascii " "), r.statusMessage_,
    ascii "\r\n"] ++
  (if r.closeConnection_ then [ascii "Connection: close\r\n"]
    else [snprintf (ascii "Content-Length: " ++ decimal r.body_.length ++ ascii "\r\n"),
      ascii "Connection: Keep-Alive\r\n"]) ++
  r.headers_.flatMap (fun header => [header.1, ascii ": ", header.2, ascii "\r\n"]) ++
  [ascii "\r\n", r.body_]

/-- `appendToBuffer(output)`, for pieces whose length is an `int`. -/
def appendToBuffer (r : HttpResponse) (output : Buffer) : Exec Buffer := appendAll output r.pieces

theorem appendAll_spec {output : Buffer} (hb : output.Inv) (pieces : List (List UInt8)) :
    ∃ b, appendAll output pieces = .ok b ∧ b.Inv ∧
      b.contents = output.contents ++ pieces.flatten := by
  induction pieces generalizing output with
  | nil => exact ⟨output, rfl, hb, by simp⟩
  | cons piece pieces ih =>
      obtain ⟨b₁, hb₁, hinv₁, hcontents₁, _⟩ := Buffer.append_spec hb piece
      obtain ⟨b, hb', hinv, hcontents⟩ := ih hinv₁
      refine ⟨b, ?_, hinv, ?_⟩
      · simp only [appendAll, List.foldlM_cons, hb₁, ok_bind]
        exact hb'
      · rw [hcontents, hcontents₁, List.flatten_cons, List.append_assoc]

/-- No assertion of the buffer fails, and the bytes are the pieces. -/
theorem appendToBuffer_spec (r : HttpResponse) {output : Buffer} (hb : output.Inv) :
    ∃ b, r.appendToBuffer output = .ok b ∧ b.Inv ∧
      b.contents = output.contents ++ r.pieces.flatten :=
  appendAll_spec hb r.pieces

end HttpResponse

end Muduo.Http
