/-
  Http/HttpRequest.lean --- `muduo/net/http/HttpRequest.h` and `HttpContext.h`: a
  request, and how far the parser has come with it.

  Strings are byte lists, and a pair of pointers into the input is the list of bytes
  between them.  `assertions` tells whether `assert` is compiled in.
-/
import Mathlib.Data.List.DropRight
import Muduo.Base.Timestamp
import Muduo.Foundation.Bytes
import Muduo.Foundation.Exec
import Muduo.Foundation.SortedMap

set_option autoImplicit false

namespace Muduo.Http

open Muduo.Foundation Muduo.Base

/-! ## `class HttpRequest` -/

/-- `HttpRequest::Method`. -/
inductive Method where
  | kInvalid
  | kGet
  | kPost
  | kHead
  | kPut
  | kDelete
  deriving DecidableEq, Repr

/-- `HttpRequest::Version`. -/
inductive Version where
  | kUnknown
  | kHttp10
  | kHttp11
  deriving DecidableEq, Repr

/-- `class HttpRequest`. -/
structure HttpRequest where
  method_ : Method
  version_ : Version
  path_ : List UInt8
  receiveTime_ : Timestamp
  headers_ : SortedMap (List UInt8) (List UInt8)
  deriving DecidableEq, Repr

/-- `isspace` in the C locale; `char` is signed, so bytes from 0x80 on are not. -/
def isspace (c : UInt8) : Bool := c == 32 || (9 ≤ c && c ≤ 13)

/-- The method that a string names, `kInvalid` for any other string. -/
def Method.ofString (m : List UInt8) : Method :=
  if m = ascii "GET" then .kGet
  else if m = ascii "POST" then .kPost
  else if m = ascii "HEAD" then .kHead
  else if m = ascii "PUT" then .kPut
  else if m = ascii "DELETE" then .kDelete
  else .kInvalid

namespace HttpRequest

/-- `HttpRequest()`. -/
def new : HttpRequest := ⟨.kInvalid, .kUnknown, [], .new, []⟩

/-- `setVersion(v)`. -/
def setVersion (r : HttpRequest) (v : Version) : HttpRequest := { r with version_ := v }

/-- `setMethod`, without its assertion. -/
def assignMethod (r : HttpRequest) (m : List UInt8) : Bool × HttpRequest :=
  let method := Method.ofString m
  (method != .kInvalid, { r with method_ := method })

/-- `setMethod(start, end)`, with or without its assertion. -/
def setMethod (assertions : Bool) (r : HttpRequest) (m : List UInt8) :
    Exec (Bool × HttpRequest) := do
  assertThat (assertions = true → r.method_ = .kInvalid)
  .ok (r.assignMethod m)

/-- `setPath(start, end)`. -/
def setPath (r : HttpRequest) (path : List UInt8) : HttpRequest := { r with path_ := path }

/-- `setReceiveTime(t)`. -/
def setReceiveTime (r : HttpRequest) (t : Timestamp) : HttpRequest := { r with receiveTime_ := t }

/-- `addHeader(start, colon, end)`: `line` is the header line and `colon` the offset
of the colon in it. -/
def addHeader (r : HttpRequest) (line : List UInt8) (colon : Nat) : HttpRequest :=
  let field := line.take colon
  let value := ((line.drop (colon + 1)).dropWhile isspace).rdropWhile isspace
  { r with headers_ := r.headers_.assign field value }

/-- `getHeader(field)`. -/
def getHeader (r : HttpRequest) (field : List UInt8) : List UInt8 := (r.headers_.find field).getD []

/-- `swap(that)`: `this` and `that` after it.  The versions stay where they are. -/
def swap (r that : HttpRequest) : HttpRequest × HttpRequest :=
  ({ r with
      method_ := that.method_
      path_ := that.path_
      receiveTime_ := that.receiveTime_
      headers_ := that.headers_ },
    { that with
      method_ := r.method_
      path_ := r.path_
      receiveTime_ := r.receiveTime_
      headers_ := r.headers_ })

end HttpRequest

/-! ## `class HttpContext` -/

/-- `HttpContext::HttpRequestParseState`. -/
inductive HttpRequestParseState where
  | kExpectRequestLine
  | kExpectHeaders
  | kExpectBody
  | kGotAll
  deriving DecidableEq, Repr

/-- `class HttpContext`. -/
structure HttpContext where
  state_ : HttpRequestParseState
  request_ : HttpRequest
  deriving DecidableEq, Repr

namespace HttpContext

/-- `HttpContext()`. -/
def new : HttpContext := ⟨.kExpectRequestLine, .new⟩

/-- `expectRequestLine()`. -/
def expectRequestLine (c : HttpContext) : Bool := c.state_ == .kExpectRequestLine

/-- `expectHeaders()`. -/
def expectHeaders (c : HttpContext) : Bool := c.state_ == .kExpectHeaders

/-- `expectBody()`. -/
def expectBody (c : HttpContext) : Bool := c.state_ == .kExpectBody

/-- `gotAll()`. -/
def gotAll (c : HttpContext) : Bool := c.state_ == .kGotAll

/-- `receiveRequestLine()`. -/
def receiveRequestLine (c : HttpContext) : HttpContext := { c with state_ := .kExpectHeaders }

/-- `receiveHeaders()`. -/
def receiveHeaders (c : HttpContext) : HttpContext := { c with state_ := .kGotAll }

/-- `reset()`. -/
def reset (c : HttpContext) : HttpContext :=
  ⟨.kExpectRequestLine, (c.request_.swap .new).1⟩

/-- Change the request of a context. -/
def withRequest (c : HttpContext) (r : HttpRequest) : HttpContext := { c with request_ := r }

end HttpContext

end Muduo.Http
