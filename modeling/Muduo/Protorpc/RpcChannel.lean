/-
  Protorpc/RpcChannel.lean --- `muduo/net/protorpc/RpcChannel.{h,cc}`: calls and
  replies over one connection.

  Any number of threads call `CallMethod`; the loop thread runs `onRpcMessage` for
  every message that arrives.  What one thread does between two points where others
  can interfere is one step: `CallMethod` has three (allocate an id, send the
  request, insert into `outstandings_` under the mutex), the handling of a RESPONSE
  has four (find and erase under the mutex, parse, run the closure, delete).

  A call is named by the position of its `incrementAndGet` among all of them, and
  the pointers it passes are named after it.  Histories record what left the
  channel, what arrived, which closures ran and what they could see.

  `replies_not_crossed` holds of every interleaving whatever the peer sends.
-/
import Mathlib.Logic.Function.Basic
import Muduo.Base.Atomic
import Muduo.Foundation.Machine
import Muduo.Protorpc.RpcCodec

set_option autoImplicit false

namespace Muduo.Protorpc

open Muduo.Foundation Muduo.Base

/-! ## `class RpcChannel` -/

/-- `struct OutstandingCall`: two pointers, named by the call that passed them. -/
structure OutstandingCall where
  response : Option Nat
  done : Option Nat
  deriving DecidableEq, Repr

/-- What a channel uses of a `google::protobuf::Service`. -/
structure Service where
  /-- whether the descriptor's `FindMethodByName` finds a method -/
  findMethodByName : List UInt8 → Bool

/-- `class RpcChannel`; `services_` is what `setServices` has set.  The constructors leave it
without a value, and only a REQUEST makes `onRpcMessage` read it. -/
structure RpcChannel where
  conn_ : Nat
  id_ : BitVec 64
  outstandings_ : BitVec 64 → Option OutstandingCall
  services_ : Option (List UInt8 → Option Service)

/-- The arguments of `CallMethod`; the flags tell which pointers are not null. -/
structure CallArgs where
  service : List UInt8
  method : List UInt8
  request : List UInt8
  response : Bool
  done : Bool
  deriving DecidableEq, Repr

/-- How far a call of `CallMethod` has come. -/
inductive CallPc where
  | allocated
  | sent
  | registered
  deriving DecidableEq, Repr

/-- A call of `CallMethod` that has its id. -/
structure Call where
  args : CallArgs
  id : BitVec 64
  pc : CallPc
  deriving DecidableEq, Repr

/-- The REQUEST that `CallMethod` sends. -/
def Call.requestMessage (c : Call) : RpcMessage where
  type := .REQUEST
  id := c.id
  service := some c.args.service
  method := some c.args.method
  request := some c.args.request

/-- `OutstandingCall out = { response, done }` in call `k`. -/
def Call.outstanding (c : Call) (k : Nat) : OutstandingCall where
  response := if c.args.response then some k else none
  done := if c.args.done then some k else none

/-- How far the loop thread has come with a RESPONSE. -/
inductive ReplyPc where
  | located
  | parsed
  | ran
  deriving DecidableEq, Repr

/-- A RESPONSE in `onRpcMessage`, behind the critical section. -/
structure Reply where
  message : RpcMessage
  out : OutstandingCall
  pc : ReplyPc
  deriving DecidableEq, Repr

/-- A channel, its callers, its loop thread and the histories. -/
structure ChannelSystem where
  channel : RpcChannel
  calls : List Call := []
  /-- the messages passed to `RpcCodec::send` -/
  sent : List RpcMessage := []
  /-- the messages passed to `onRpcMessage` -/
  received : List RpcMessage := []
  reply : Option Reply := none
  /-- the message last parsed into the response object of a call -/
  objects : Nat → Option RpcMessage := fun _ => none
  /-- the closures run, each with what its response object held -/
  ran : List (Nat × Option RpcMessage) := []
  /-- the RESPONSEs that `onRpcMessage` has finished -/
  processed : List RpcMessage := []
  /-- the service calls made for the peer's REQUESTs -/
  serviceCalls : List RpcMessage := []

namespace ChannelSystem

/-! ### `CallMethod` -/

/-- `id_.incrementAndGet()`. -/
def allocateId (s : ChannelSystem) (args : CallArgs) : ChannelSystem :=
  let (id, id_) := AtomicInteger.incrementAndGet s.channel.id_
  { s with channel := { s.channel with id_ }, calls := s.calls ++ [⟨args, id, .allocated⟩] }

/-- A call goes on. -/
def setPc (s : ChannelSystem) (k : Nat) (pc : CallPc) : ChannelSystem :=
  { s with calls := s.calls.modify k fun c => { c with pc } }

/-- `RpcCodec::send(conn_, message)`. -/
def sendRequest (s : ChannelSystem) (k : Nat) : ChannelSystem :=
  match s.calls[k]? with
  | some c => { s.setPc k .sent with sent := s.sent ++ [c.requestMessage] }
  | none => s

/-- `outstandings_[id] = out`, under the mutex. -/
def insertOutstanding (s : ChannelSystem) (k : Nat) : ChannelSystem :=
  match s.calls[k]? with
  | some c =>
      { s.setPc k .registered with
        channel := { s.channel with
          outstandings_ := Function.update s.channel.outstandings_ c.id (some (c.outstanding k)) } }
  | none => s

/-! ### `onRpcMessage` -/

/-- The REQUEST branch: the service is called only if service and method exist. -/
def serveRequest (s : ChannelSystem) (message : RpcMessage) : ChannelSystem :=
  match s.channel.services_ with
  | some services =>
      match services (message.service.getD []) with
      | some service =>
          if service.findMethodByName (message.method.getD []) then
            { s with serviceCalls := s.serviceCalls ++ [message] }
          else s
      | none => s
  | none => s

/-- The critical section of the RESPONSE branch. -/
def takeOutstanding (s : ChannelSystem) (message : RpcMessage) : ChannelSystem :=
  match s.channel.outstandings_ message.id with
  | some out =>
      { s with
        channel := { s.channel with
          outstandings_ := Function.update s.channel.outstandings_ message.id none }
        reply := some ⟨message, out, .located⟩ }
  | none => { s with reply := some ⟨message, ⟨none, none⟩, .located⟩ }

/-- `onRpcMessage`; for a RESPONSE, up to the end of the critical section. -/
def onRpcMessage (s : ChannelSystem) (conn : Nat) (message : RpcMessage) :
    Exec ChannelSystem := do
  assertThat (conn = s.channel.conn_)
  let s := { s with received := s.received ++ [message] }
  match message.type with
  | .RESPONSE => do
      assertThat (message.response.isSome = true)
      .ok (s.takeOutstanding message)
  | .REQUEST => .ok (s.serveRequest message)
  | .ERROR => .ok s

/-- `out.response->ParseFromString(message.response())`. -/
def parseResponse (s : ChannelSystem) : ChannelSystem :=
  match s.reply with
  | some r =>
      { s with
        objects :=
          match r.out.response with
          | some k => Function.update s.objects k (some r.message)
          | none => s.objects
        reply := some { r with pc := .parsed } }
  | none => s

/-- `out.done->Run()`, if there is a response object and a closure. -/
def runDone (s : ChannelSystem) : ChannelSystem :=
  match s.reply with
  | some r =>
      { s with
        ran :=
          match r.out.response, r.out.done with
          | some _, some k => s.ran ++ [(k, s.objects k)]
          | _, _ => s.ran
        reply := some { r with pc := .ran } }
  | none => s

/-- `delete out.response`, and the end of `onRpcMessage`. -/
def finishResponse (s : ChannelSystem) : ChannelSystem :=
  match s.reply with
  | some r => { s with reply := none, processed := s.processed ++ [r.message] }
  | none => s

/-- `doneCallback(response, id)`, called by a service. -/
def doneCallback (s : ChannelSystem) (response : List UInt8) (id : BitVec 64) : ChannelSystem :=
  { s with sent := s.sent ++ [{ type := .RESPONSE, id, response := some response }] }

end ChannelSystem

/-! ## Interleavings -/

namespace RpcChannel

/-- A step of a caller, of the loop thread or of a service. -/
inductive Action where
  | allocateId (args : CallArgs)
  | sendRequest (k : Nat)
  | insertOutstanding (k : Nat)
  | onRpcMessage (conn : Nat) (message : RpcMessage)
  | parseResponse
  | runDone
  | finishResponse
  | doneCallback (response : List UInt8) (id : BitVec 64)
  deriving DecidableEq, Repr

/-- What a step does. -/
def step (s : ChannelSystem) : Action → Exec ChannelSystem
  | .allocateId args => .ok (s.allocateId args)
  | .sendRequest k => .ok (s.sendRequest k)
  | .insertOutstanding k => .ok (s.insertOutstanding k)
  | .onRpcMessage conn message => s.onRpcMessage conn message
  | .parseResponse => .ok s.parseResponse
  | .runDone => .ok s.runDone
  | .finishResponse => .ok s.finishResponse
  | .doneCallback response id => .ok (s.doneCallback response id)

/-- Program order of the callers and of the loop thread; every caller passes a
response object. -/
def Legal (s : ChannelSystem) : Action → Prop
  | .allocateId args => args.response = true
  | .sendRequest k => (s.calls[k]?.map Call.pc) = some .allocated
  | .insertOutstanding k => (s.calls[k]?.map Call.pc) = some .sent
  | .onRpcMessage _ _ => s.reply = none
  | .parseResponse => (s.reply.map Reply.pc) = some .located
  | .runDone => (s.reply.map Reply.pc) = some .parsed
  | .finishResponse => (s.reply.map Reply.pc) = some .ran
  | .doneCallback _ _ => True

instance (s : ChannelSystem) (a : Action) : Decidable (Legal s a) :=
  match a with
  | .allocateId args => inferInstanceAs (Decidable (args.response = true))
  | .sendRequest k => inferInstanceAs (Decidable (s.calls[k]?.map Call.pc = some .allocated))
  | .insertOutstanding k => inferInstanceAs (Decidable (s.calls[k]?.map Call.pc = some .sent))
  | .onRpcMessage _ _ => inferInstanceAs (Decidable (s.reply = none))
  | .parseResponse => inferInstanceAs (Decidable (s.reply.map Reply.pc = some .located))
  | .runDone => inferInstanceAs (Decidable (s.reply.map Reply.pc = some .parsed))
  | .finishResponse => inferInstanceAs (Decidable (s.reply.map Reply.pc = some .ran))
  | .doneCallback _ _ => inferInstanceAs (Decidable True)

/-- Callers, loop thread and peer in any interleaving; the peer may send anything. -/
def machine : Machine ChannelSystem Action where
  step := step
  legal := Legal

/-- Fewer than 2^63 calls are made. -/
def Bounded (s : ChannelSystem) : Action → Prop
  | .allocateId _ => s.calls.length + 1 < 2 ^ 63
  | _ => True

instance (s : ChannelSystem) (a : Action) : Decidable (Bounded s a) :=
  match a with
  | .allocateId _ => inferInstanceAs (Decidable (_ < _))
  | .sendRequest _ | .insertOutstanding _ | .onRpcMessage _ _ | .parseResponse | .runDone
  | .finishResponse | .doneCallback _ _ => inferInstanceAs (Decidable True)

/-- The interleavings in which ids do not wrap around. -/
def boundedMachine : Machine ChannelSystem Action := machine.restrict Bounded

instance (s : ChannelSystem) (a : Action) : Decidable (boundedMachine.legal s a) :=
  inferInstanceAs (Decidable (Legal s a ∧ Bounded s a))

/-- A channel on which nothing has happened. -/
def start (conn : Nat) (services : Option (List UInt8 → Option Service)) : ChannelSystem where
  channel := ⟨conn, 0, fun _ => none, services⟩

end RpcChannel

end Muduo.Protorpc
