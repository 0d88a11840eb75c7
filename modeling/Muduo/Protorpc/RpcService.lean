/-
  Protorpc/RpcService.lean --- callers and services at both ends of a connection.

  Each end has a channel (Protorpc/RpcChannel.lean), through which its threads call the
  services of the other end, and services of its own.  The messages of an end arrive at the
  other one in the order in which they were sent: Protorpc/RpcLink.lean is about the bytes.

  Only an end whose `setServices` has been called may be sent a REQUEST: the constructors
  leave `services_` without a value, and `onRpcMessage` reads it (`readServices`).

  A service call is answered when the service runs the closure that `onRpcMessage` gave it,
  once and at any time, in any thread; what it may answer is the relation `Answer`.

  `closures_see_answers`: a closure that runs has seen what the service at the other end
  answered to that very call.  `calls_complete`: when nothing is on its way any more, every
  call whose service and method exist has been answered and its closure has run, provided no
  answer was looked up before its call was registered.
-/
import Muduo.Net.TcpLink
import Muduo.Protorpc.RpcDelivery

set_option autoImplicit false

namespace Muduo.Protorpc.RpcService

open Muduo.Foundation Muduo.Base
open Muduo.Net.TcpLink (Side)

/-! ## The two ends -/

/-- One end. -/
structure Endpoint where
  chan : ChannelSystem
  /-- the service calls whose closure has not run -/
  unanswered : List RpcMessage

/-- Both ends. -/
abbrev System : Type := Side → Endpoint

/-- A step of one end. -/
inductive Action where
  /-- `CallMethod`, in its three steps -/
  | allocateId (args : CallArgs)
  | sendRequest (k : Nat)
  | insertOutstanding (k : Nat)
  /-- `onRpcMessage` is called with the next message from the other end -/
  | receive
  | parseResponse
  | runDone
  | finishResponse
  /-- the service answers one of its open calls -/
  | answer (j : Nat) (response : List UInt8)
  deriving DecidableEq, Repr

/-- What a step of end `p` does to its channel, if it can be taken; `q` is the other end. -/
def channelAction (p q : Endpoint) : Action → Option RpcChannel.Action
  | .allocateId args => some (.allocateId args)
  | .sendRequest k => some (.sendRequest k)
  | .insertOutstanding k => some (.insertOutstanding k)
  | .receive =>
      q.chan.sent[p.chan.received.length]?.map (.onRpcMessage p.chan.channel.conn_)
  | .parseResponse => some .parseResponse
  | .runDone => some .runDone
  | .finishResponse => some .finishResponse
  | .answer j response =>
      p.unanswered[j]?.map fun request => .doneCallback response request.id

/-- The open service calls after a step that took the channel from `chan` to `chan'`. -/
def stillUnanswered (p : Endpoint) (chan' : ChannelSystem) : Action → List RpcMessage
  | .answer j _ => p.unanswered.eraseIdx j
  | .receive => p.unanswered ++ chan'.serviceCalls.drop p.chan.serviceCalls.length
  | .allocateId _ | .sendRequest _ | .insertOutstanding _ | .parseResponse | .runDone
  | .finishResponse => p.unanswered

/-- A REQUEST makes `onRpcMessage` read `services_`, which has any value before `setServices`:
what it points to then is out of bounds. -/
def readServices (s : ChannelSystem) : RpcChannel.Action → Exec Unit
  | .onRpcMessage _ message =>
      if message.type = .REQUEST ∧ s.channel.services_.isNone = true then .error .outOfBounds
      else .ok ()
  | .allocateId _ | .sendRequest _ | .insertOutstanding _ | .parseResponse | .runDone
  | .finishResponse | .doneCallback _ _ => .ok ()

/-- A step of one end; the other stays as it is. -/
def step (s : System) : Side × Action → Exec System
  | (i, a) =>
      match channelAction (s i) (s i.peer) a with
      | some b => do
          readServices (s i).chan b
          let chan ← RpcChannel.step (s i).chan b
          .ok (Function.update s i ⟨chan, stillUnanswered (s i) chan a⟩)
      | none => .ok s

/-- What the service of side `i` may answer. -/
def Permitted (Answer : Side → RpcMessage → List UInt8 → Prop) (i : Side) (p : Endpoint) :
    Action → Prop
  | .answer j response => ∀ request ∈ p.unanswered[j]?, Answer i request response
  | .allocateId _ | .sendRequest _ | .insertOutstanding _ | .receive | .parseResponse | .runDone
  | .finishResponse => True

/-- A REQUEST is sent only to an end whose `setServices` has been called. -/
def Offered (q : Endpoint) : Action → Prop
  | .sendRequest _ => q.chan.channel.services_.isSome = true
  | .allocateId _ | .insertOutstanding _ | .receive | .parseResponse | .runDone | .finishResponse
  | .answer _ _ => True

/-- Program order of the callers and of the loop threads. -/
def Legal (Answer : Side → RpcMessage → List UInt8 → Prop) (s : System) : Side × Action → Prop
  | (i, a) =>
      (∃ b ∈ channelAction (s i) (s i.peer) a,
        RpcChannel.Legal (s i).chan b ∧ RpcChannel.Bounded (s i).chan b) ∧
      Permitted Answer i (s i) a ∧ Offered (s i.peer) a

/-- Both ends, whose services may answer what `Answer` says. -/
def machine (Answer : Side → RpcMessage → List UInt8 → Prop) : Machine System (Side × Action) :=
  ⟨step, Legal Answer⟩

/-- No RESPONSE is looked up before its call is registered. -/
def Timely (s : System) : Side × Action → Prop
  | (i, a) => ∀ b ∈ channelAction (s i) (s i.peer) a, RpcChannel.NotEarly (s i).chan b

/-- Both ends before anything has happened, with the services of those whose `setServices` has been
called. -/
def start (conn : Side → Nat) (services : Side → Option (List UInt8 → Option Service)) : System :=
  fun i => ⟨RpcChannel.start (conn i) (services i), []⟩

/-- `onRpcMessage` finds the service and the method of a REQUEST. -/
def isServed (services : Option (List UInt8 → Option Service)) (m : RpcMessage) : Bool :=
  m.type == .REQUEST &&
    match services with
    | some services =>
        match services (m.service.getD []) with
        | some service => service.findMethodByName (m.method.getD [])
        | none => false
    | none => false

/-! ## What the steps of a channel do -/

section Channel

variable {s s' : ChannelSystem}

/-- What a step may do to the calls: those whose requests are sent stay so. -/
def Moved (s s' : ChannelSystem) : Prop :=
  ∀ (k : Nat) (c : Call), s.calls[k]? = some c → c.pc ≠ .allocated →
    ∃ c', s'.calls[k]? = some c' ∧ c'.pc ≠ .allocated ∧ c'.requestMessage = c.requestMessage

theorem Moved.of_calls_eq (h : s'.calls = s.calls) : Moved s s' :=
  fun _ c hk hpc => ⟨c, h ▸ hk, hpc, rfl⟩

theorem getElem?_setPc {k j : Nat} {pc : CallPc} :
    (s.setPc k pc).calls[j]? =
      if k = j then s.calls[j]?.map fun c => { c with pc } else s.calls[j]? := by
  simp only [ChannelSystem.setPc, List.getElem?_modify]
  split
  · rfl
  · simp

theorem Moved.setPc {k : Nat} {pc : CallPc} (hpc : pc ≠ .allocated) : Moved s (s.setPc k pc) := by
  intro j c hj hsent
  rw [getElem?_setPc]
  split
  · exact ⟨{ c with pc }, by rw [hj]; rfl, hpc, rfl⟩
  · exact ⟨c, hj, hsent, rfl⟩

theorem Moved.allocateId (args : CallArgs) : Moved s (s.allocateId args) := by
  intro k c hk hpc
  obtain ⟨hlt, _⟩ := List.getElem?_eq_some_iff.mp hk
  refine ⟨c, ?_, hpc, rfl⟩
  simp only [ChannelSystem.allocateId]
  rw [List.getElem?_append_left hlt]
  exact hk

/-- `onRpcMessage`, up to the table and the reply. -/
structure Took (s s' : ChannelSystem) (m : RpcMessage) : Prop where
  calls : s'.calls = s.calls
  sent : s'.sent = s.sent
  received : s'.received = s.received ++ [m]
  processed : s'.processed = s.processed
  services : s'.channel.services_ = s.channel.services_
  reply : m.type = .RESPONSE → ∃ r, s'.reply = some r ∧ r.message = m
  other : m.type ≠ .RESPONSE → s'.reply = s.reply
  serviceCalls : s'.serviceCalls =
    s.serviceCalls ++ if isServed s.channel.services_ m then [m] else []

theorem took_takeOutstanding (m : RpcMessage) (hm : m.type = .RESPONSE) :
    Took s ({ s with received := s.received ++ [m] }.takeOutstanding m) m := by
  have hnone : isServed s.channel.services_ m = false := by simp [isServed, hm]
  unfold ChannelSystem.takeOutstanding
  split
  · exact ⟨rfl, rfl, rfl, rfl, rfl, fun _ => ⟨_, rfl, rfl⟩, fun h => absurd hm h, by simp [hnone]⟩
  · exact ⟨rfl, rfl, rfl, rfl, rfl, fun _ => ⟨_, rfl, rfl⟩, fun h => absurd hm h, by simp [hnone]⟩

theorem serveRequest_eq {m : RpcMessage} (hm : m.type = .REQUEST) :
    s.serveRequest m =
      { s with serviceCalls :=
          s.serviceCalls ++ if isServed s.channel.services_ m then [m] else [] } := by
  unfold ChannelSystem.serveRequest isServed
  cases hservices : s.channel.services_ with
  | none => simp
  | some services =>
      cases hservice : services (m.service.getD []) with
      | none => simp [hservice]
      | some service =>
          cases hfind : service.findMethodByName (m.method.getD []) with
          | false => simp [hservice, hfind]
          | true => simp [hm, hservice, hfind]

theorem took_serveRequest (m : RpcMessage) (hm : m.type = .REQUEST) :
    Took s ({ s with received := s.received ++ [m] }.serveRequest m) m := by
  rw [serveRequest_eq hm]
  exact ⟨rfl, rfl, rfl, rfl, rfl, fun h => absurd (hm.symm.trans h) (by simp), fun _ => rfl, rfl⟩

/-- A message is taken unless an assertion fails. -/
theorem exists_took {m : RpcMessage} (hm : m.type = .RESPONSE → m.response.isSome = true) :
    ∃ s', s.onRpcMessage s.channel.conn_ m = .ok s' ∧ Took s s' m := by
  unfold ChannelSystem.onRpcMessage
  rw [assertThat_of rfl, ok_bind]
  cases htype : m.type with
  | RESPONSE =>
      refine ⟨_, ?_, took_takeOutstanding m htype⟩
      simp only [assertThat_of (hm htype), ok_bind]
  | REQUEST => exact ⟨_, rfl, took_serveRequest m htype⟩
  | ERROR =>
      have hserved : isServed s.channel.services_ m = false := by simp [isServed, htype]
      exact ⟨_, rfl, rfl, rfl, rfl, rfl, rfl, fun h => absurd (htype.symm.trans h) (by simp),
        fun _ => rfl, by simp [hserved]⟩

/-- A message that arrived has been processed, or is being. -/
def Handled (s : ChannelSystem) (m : RpcMessage) : Prop :=
  m ∈ s.processed ∨ ∃ r, s.reply = some r ∧ r.message = m

/-- What the steps other than `onRpcMessage` do: they may send `new`. -/
structure Sends (s s' : ChannelSystem) (new : List RpcMessage) : Prop where
  moved : Moved s s'
  sent : s'.sent = s.sent ++ new
  received : s'.received = s.received
  serviceCalls : s'.serviceCalls = s.serviceCalls
  services : s'.channel.services_ = s.channel.services_
  handled : ∀ m, Handled s m → Handled s' m

theorem sends_allocateId (args : CallArgs) : Sends s (s.allocateId args) [] :=
  ⟨.allocateId args, (List.append_nil _).symm, rfl, rfl, rfl, fun _ h => h⟩

theorem sends_sendRequest {k : Nat} {c : Call} (hk : s.calls[k]? = some c) :
    Sends s (s.sendRequest k) [c.requestMessage] := by
  simp only [ChannelSystem.sendRequest, hk]
  exact ⟨.setPc (by simp), rfl, rfl, rfl, rfl, fun _ h => h⟩

theorem sends_insertOutstanding (k : Nat) : Sends s (s.insertOutstanding k) [] := by
  unfold ChannelSystem.insertOutstanding
  split
  · exact ⟨.setPc (by simp), (List.append_nil _).symm, rfl, rfl, rfl, fun _ h => h⟩
  · exact ⟨.of_calls_eq rfl, (List.append_nil _).symm, rfl, rfl, rfl, fun _ h => h⟩

/-- The reply in progress moves on. -/
theorem Handled.of_reply {r r' : Reply} {m : RpcMessage} (h : Handled s m) (hr : s.reply = some r)
    (hr' : s'.reply = some r') (hmessage : r'.message = r.message)
    (hprocessed : s'.processed = s.processed) : Handled s' m := by
  rcases h with h | ⟨r₀, hr₀, rfl⟩
  · exact .inl (hprocessed ▸ h)
  · obtain rfl : r = r₀ := Option.some.inj (hr.symm.trans hr₀)
    exact .inr ⟨r', hr', hmessage⟩

theorem sends_parseResponse : Sends s s.parseResponse [] := by
  unfold ChannelSystem.parseResponse
  split
  · rename_i r hr
    exact ⟨.of_calls_eq rfl, (List.append_nil _).symm, rfl, rfl, rfl,
      fun m h => h.of_reply hr rfl rfl rfl⟩
  · exact ⟨.of_calls_eq rfl, (List.append_nil _).symm, rfl, rfl, rfl, fun _ h => h⟩

theorem sends_runDone : Sends s s.runDone [] := by
  unfold ChannelSystem.runDone
  split
  · rename_i r hr
    exact ⟨.of_calls_eq rfl, (List.append_nil _).symm, rfl, rfl, rfl,
      fun m h => h.of_reply hr rfl rfl rfl⟩
  · exact ⟨.of_calls_eq rfl, (List.append_nil _).symm, rfl, rfl, rfl, fun _ h => h⟩

theorem sends_finishResponse : Sends s s.finishResponse [] := by
  unfold ChannelSystem.finishResponse
  split
  · rename_i r hr
    refine ⟨.of_calls_eq rfl, (List.append_nil _).symm, rfl, rfl, rfl, fun m h => ?_⟩
    rcases h with h | ⟨r₀, hr₀, rfl⟩
    · exact .inl (List.mem_append_left _ h)
    · obtain rfl : r = r₀ := Option.some.inj (hr.symm.trans hr₀)
      exact .inl (List.mem_append_right _ List.mem_cons_self)
  · exact ⟨.of_calls_eq rfl, (List.append_nil _).symm, rfl, rfl, rfl, fun _ h => h⟩

theorem sends_doneCallback (response : List UInt8) (id : BitVec 64) :
    Sends s (s.doneCallback response id) [{ type := .RESPONSE, id, response := some response }] :=
  ⟨.of_calls_eq rfl, rfl, rfl, rfl, rfl, fun _ h => h⟩

end Channel

/-! ## The invariant of one end -/

section Invariant

variable {Answer : Side → RpcMessage → List UInt8 → Prop} {i : Side} {p q : Endpoint}

/-- The REQUESTs among some messages. -/
def requests (ms : List RpcMessage) : List RpcMessage := ms.filter (·.type == .REQUEST)

/-- `m` answers a service call. -/
def AnswersOne (Answer : RpcMessage → List UInt8 → Prop) (serviceCalls : List RpcMessage)
    (m : RpcMessage) : Prop :=
  ∃ request ∈ serviceCalls, request.id = m.id ∧
    ∃ response, m.response = some response ∧ Answer request response

/-- One end: what it sends are the requests of its calls, each once, and the answers to the
requests it has served; it has served the requests it can. -/
structure Local (Answer : RpcMessage → List UInt8 → Prop) (p : Endpoint) : Prop where
  channel : RpcChannel.Inv p.chan
  requested : ∀ m ∈ requests p.chan.sent, ∃ (k : Nat) (c : Call), p.chan.calls[k]? = some c ∧
    c.pc ≠ .allocated ∧ c.requestMessage = m
  once : ((requests p.chan.sent).map RpcMessage.id).Nodup
  served : p.chan.serviceCalls = p.chan.received.filter (isServed p.chan.channel.services_)
  answered : ∀ m ∈ p.chan.sent, m.type = .RESPONSE → AnswersOne Answer p.chan.serviceCalls m
  unanswered : ∀ request ∈ p.unanswered, request ∈ p.chan.serviceCalls
  complete : ∀ request ∈ p.chan.serviceCalls, request ∈ p.unanswered ∨
    ∃ m ∈ p.chan.sent, m.type = .RESPONSE ∧ m.id = request.id
  handled : ∀ m ∈ p.chan.received, m.type = .RESPONSE → Handled p.chan m

theorem requests_append (ms ms' : List RpcMessage) :
    requests (ms ++ ms') = requests ms ++ requests ms' := List.filter_append _ _

theorem local_start (conn : Nat) (services : Option (List UInt8 → Option Service))
    (Answer : RpcMessage → List UInt8 → Prop) :
    Local Answer ⟨RpcChannel.start conn services, []⟩ where
  channel := RpcChannel.inv_start conn services
  requested _ hm := absurd hm List.not_mem_nil
  once := List.nodup_nil
  served := rfl
  answered _ hm := absurd hm List.not_mem_nil
  unanswered _ hm := absurd hm List.not_mem_nil
  complete _ hm := absurd hm List.not_mem_nil
  handled _ hm := absurd hm List.not_mem_nil

/-- A step that may send messages and close service calls. -/
theorem Local.of_sends {Answer : RpcMessage → List UInt8 → Prop} (h : Local Answer p)
    {chan' : ChannelSystem} {new unanswered' : List RpcMessage} (hinv : RpcChannel.Inv chan')
    (hsends : Sends p.chan chan' new)
    (hrequested : ∀ m ∈ requests new, ∃ (k : Nat) (c : Call), chan'.calls[k]? = some c ∧
      c.pc ≠ .allocated ∧ c.requestMessage = m)
    (honce : ((requests (p.chan.sent ++ new)).map RpcMessage.id).Nodup)
    (hanswered : ∀ m ∈ new, m.type = .RESPONSE → AnswersOne Answer p.chan.serviceCalls m)
    (hunanswered : ∀ request ∈ unanswered', request ∈ p.unanswered)
    (hcomplete : ∀ request ∈ p.unanswered, request ∈ unanswered' ∨
      ∃ m ∈ new, m.type = .RESPONSE ∧ m.id = request.id) : Local Answer ⟨chan', unanswered'⟩ where
  channel := hinv
  requested m hm := by
    rw [hsends.sent, requests_append] at hm
    rcases List.mem_append.mp hm with hm | hm
    · obtain ⟨k, c, hk, hpc, rfl⟩ := h.requested m hm
      obtain ⟨c', hk', hpc', hsame⟩ := hsends.moved k c hk hpc
      exact ⟨k, c', hk', hpc', hsame⟩
    · exact hrequested m hm
  once := by
    rw [hsends.sent]
    exact honce
  served := by rw [hsends.serviceCalls, hsends.received, hsends.services, h.served]
  answered m hm htype := by
    rw [hsends.serviceCalls]
    rw [hsends.sent] at hm
    exact (List.mem_append.mp hm).elim (fun hm => h.answered m hm htype) fun hm =>
      hanswered m hm htype
  unanswered request hmem := by
    rw [hsends.serviceCalls]
    exact h.unanswered request (hunanswered request hmem)
  complete request hmem := by
    rw [hsends.serviceCalls] at hmem
    rw [hsends.sent]
    rcases h.complete request hmem with hopen | ⟨m, hm, hanswer⟩
    · exact (hcomplete request hopen).imp_right fun ⟨m, hm, hanswer⟩ =>
        ⟨m, List.mem_append_right _ hm, hanswer⟩
    · exact .inr ⟨m, List.mem_append_left _ hm, hanswer⟩
  handled m hm htype := by
    rw [hsends.received] at hm
    exact hsends.handled m (h.handled m hm htype)

/-- A step that sends nothing. -/
theorem Local.of_silent {Answer : RpcMessage → List UInt8 → Prop} (h : Local Answer p)
    {chan' : ChannelSystem} (hinv : RpcChannel.Inv chan') (hsends : Sends p.chan chan' []) :
    Local Answer ⟨chan', p.unanswered⟩ := by
  refine h.of_sends hinv hsends ?_ ?_ ?_ (fun _ hmem => hmem) (fun _ hmem => .inl hmem)
  · intro m hm
    exact absurd hm List.not_mem_nil
  · rw [List.append_nil]
    exact h.once
  · intro m hm
    exact absurd hm List.not_mem_nil

/-- `RpcCodec::send` in `CallMethod`: the id is a new one. -/
theorem local_sendRequest {Answer : RpcMessage → List UInt8 → Prop} (h : Local Answer p) {k : Nat}
    {c : Call} (hk : p.chan.calls[k]? = some c) (hpc : c.pc = .allocated) :
    Local Answer ⟨p.chan.sendRequest k, p.unanswered⟩ := by
  have hsends := sends_sendRequest hk
  have hself : (p.chan.sendRequest k).calls[k]? = some { c with pc := .sent } := by
    simp only [ChannelSystem.sendRequest, hk, getElem?_setPc, if_true, Option.map_some]
  refine h.of_sends (RpcChannel.inv_sendRequest h.channel hk hpc) hsends ?_ ?_ ?_
    (fun _ hmem => hmem) (fun _ hmem => .inl hmem)
  · intro m hm
    obtain rfl := List.mem_singleton.mp (List.mem_filter.mp hm).1
    exact ⟨k, _, hself, by simp, rfl⟩
  · have hnew : requests [c.requestMessage] = [c.requestMessage] := rfl
    rw [requests_append, hnew, List.map_append, List.nodup_append]
    refine ⟨h.once, by simp, ?_⟩
    rintro id hid _ hmem rfl
    obtain ⟨m, hm, rfl⟩ := List.mem_map.mp hid
    obtain ⟨j, d, hj, hpc', rfl⟩ := h.requested m hm
    -- a request with this id would be the one of call `k`
    have hsame : d.id = c.id := by simpa [Call.requestMessage] using hmem
    obtain rfl := h.channel.calls.eq_of_id_eq hj hk hsame
    obtain rfl : d = c := Option.some.inj (hj.symm.trans hk)
    exact hpc' hpc
  · intro m hm htype
    obtain rfl := List.mem_singleton.mp hm
    exact absurd htype (by simp [Call.requestMessage])

/-- A service answers one of its open calls. -/
theorem local_answer {Answer : RpcMessage → List UInt8 → Prop} (h : Local Answer p) {j : Nat}
    {request : RpcMessage} {response : List UInt8} (hj : p.unanswered[j]? = some request)
    (hanswer : Answer request response)
    (hinv : RpcChannel.Inv (p.chan.doneCallback response request.id)) :
    Local Answer ⟨p.chan.doneCallback response request.id, p.unanswered.eraseIdx j⟩ := by
  have hnone : requests [{ type := .RESPONSE, id := request.id, response := some response }] = [] :=
    rfl
  refine h.of_sends hinv (sends_doneCallback response request.id) ?_ ?_ ?_ ?_ ?_
  · intro m hm
    exact absurd hm List.not_mem_nil
  · rw [requests_append, hnone, List.append_nil]
    exact h.once
  · intro m hm _
    obtain rfl := List.mem_singleton.mp hm
    exact ⟨request, h.unanswered request (List.mem_of_getElem? hj), rfl, response, rfl, hanswer⟩
  · intro request' hmem
    exact List.mem_of_mem_eraseIdx hmem
  · intro request' hmem
    obtain ⟨l, hl⟩ := List.mem_iff_getElem?.mp hmem
    by_cases hlj : l = j
    · subst hlj
      obtain rfl : request' = request := Option.some.inj (hl.symm.trans hj)
      exact .inr ⟨_, List.mem_cons_self, rfl, rfl⟩
    · exact .inl (List.mem_eraseIdx_iff_getElem?.mpr ⟨l, hlj, hl⟩)

/-- A message arrives. -/
theorem local_receive {Answer : RpcMessage → List UInt8 → Prop} (h : Local Answer p)
    {chan' : ChannelSystem} {m : RpcMessage} (hinv : RpcChannel.Inv chan')
    (hidle : p.chan.reply = none) (htook : Took p.chan chan' m) :
    Local Answer
      ⟨chan', p.unanswered ++ chan'.serviceCalls.drop p.chan.serviceCalls.length⟩ := by
  have hopened : chan'.serviceCalls.drop p.chan.serviceCalls.length =
      if isServed p.chan.channel.services_ m then [m] else [] := by
    rw [htook.serviceCalls, List.drop_left]
  rw [hopened]
  refine ⟨hinv, ?_, ?_, ?_, ?_, ?_, ?_, ?_⟩
  · intro m' hm'
    rw [htook.sent] at hm'
    rw [htook.calls]
    exact h.requested m' hm'
  · rw [htook.sent]
    exact h.once
  · rw [htook.serviceCalls, htook.received, htook.services, List.filter_append, h.served,
      List.filter_cons, List.filter_nil]
  · intro m' hm' htype
    rw [htook.sent] at hm'
    obtain ⟨request, hmem, hid, hresponse⟩ := h.answered m' hm' htype
    refine ⟨request, ?_, hid, hresponse⟩
    rw [htook.serviceCalls]
    exact List.mem_append_left _ hmem
  · intro request hmem
    rw [htook.serviceCalls]
    exact (List.mem_append.mp hmem).elim
      (fun hmem => List.mem_append_left _ (h.unanswered request hmem)) (List.mem_append_right _)
  · intro request hmem
    rw [htook.serviceCalls] at hmem
    rw [htook.sent]
    rcases List.mem_append.mp hmem with hmem | hmem
    · exact (h.complete request hmem).imp_left (List.mem_append_left _)
    · exact .inl (List.mem_append_right _ hmem)
  · intro m' hm' htype
    rw [htook.received] at hm'
    rcases List.mem_append.mp hm' with hm' | hm'
    · -- the loop thread was idle, so the messages before this one are processed
      rcases h.handled m' hm' htype with hdone | ⟨r, hr, _⟩
      · exact .inl (htook.processed ▸ hdone)
      · exact absurd (hidle.symm.trans hr) (by simp)
    · obtain rfl := List.mem_singleton.mp hm'
      exact .inr (htook.reply htype)

end Invariant

/-! ## Both ends -/

section Both

variable {Answer : Side → RpcMessage → List UInt8 → Prop} {s : System}

/-- What arrives at an end is the beginning of what the other one has sent. -/
structure Inv (Answer : Side → RpcMessage → List UInt8 → Prop) (s : System) : Prop where
  ends : ∀ i, Local (Answer i) (s i)
  arrived : ∀ i : Side, (s i.peer).chan.received <+: (s i).chan.sent
  offered : ∀ i : Side, requests (s i).chan.sent ≠ [] →
    (s i.peer).chan.channel.services_.isSome = true

theorem inv_start (conn : Side → Nat) (services : Side → Option (List UInt8 → Option Service)) :
    Inv Answer (start conn services) :=
  ⟨fun i => local_start (conn i) (services i) (Answer i), fun _ => List.nil_prefix,
    fun _ hne => absurd rfl hne⟩

/-- A request that an end has served is the request of a call at the other end. -/
theorem Inv.call_of_served (h : Inv Answer s) (i : Side) {request : RpcMessage}
    (hmem : request ∈ (s i.peer).chan.serviceCalls) :
    ∃ (k : Nat) (c : Call), (s i).chan.calls[k]? = some c ∧ c.pc ≠ .allocated ∧
      c.requestMessage = request := by
  rw [(h.ends i.peer).served] at hmem
  obtain ⟨hreceived, hserved⟩ := List.mem_filter.mp hmem
  have hsent : request ∈ (s i).chan.sent := (h.arrived i).subset hreceived
  exact (h.ends i).requested request (List.mem_filter.mpr
    ⟨hsent, (Bool.and_eq_true_iff.mp hserved).1⟩)

/-- A RESPONSE from the other end answers a call that was sent. -/
theorem Inv.call_of_answer (h : Inv Answer s) (i : Side) {m : RpcMessage}
    (hm : m ∈ (s i.peer).chan.sent) (htype : m.type = .RESPONSE) :
    ∃ (k : Nat) (c : Call), (s i).chan.calls[k]? = some c ∧ c.pc ≠ .allocated ∧ c.id = m.id ∧
      c.requestMessage ∈ (s i.peer).chan.serviceCalls ∧
      ∃ response, m.response = some response ∧ Answer i.peer c.requestMessage response := by
  obtain ⟨request, hmem, hid, hresponse⟩ := (h.ends i.peer).answered m hm htype
  obtain ⟨k, c, hk, hpc, rfl⟩ := h.call_of_served i hmem
  exact ⟨k, c, hk, hpc, hid, hmem, hresponse⟩

/-- A step of one end keeps the invariant if it keeps that of the end, sends on and receives
what the other end has sent. -/
theorem Inv.update (h : Inv Answer s) {i : Side} {p : Endpoint} (hend : Local (Answer i) p)
    (hsent : (s i).chan.sent <+: p.chan.sent)
    (hreceived : p.chan.received <+: (s i.peer).chan.sent)
    (hservices : p.chan.channel.services_ = (s i).chan.channel.services_)
    (hoffered : requests p.chan.sent ≠ [] → (s i.peer).chan.channel.services_.isSome = true) :
    Inv Answer (Function.update s i p) := by
  have hother : Function.update s i p i.peer = s i.peer := Function.update_of_ne i.peer_ne _ _
  refine ⟨fun j => ?_, fun j => ?_, fun j hne => ?_⟩
  · rcases i.eq_or_eq_peer j with rfl | rfl
    · rw [Function.update_self]
      exact hend
    · rw [hother]
      exact h.ends _
  · rcases i.eq_or_eq_peer j with rfl | rfl
    · rw [Function.update_self, hother]
      exact (h.arrived j).trans hsent
    · rw [Side.peer_peer, Function.update_self, hother]
      exact hreceived
  · rcases i.eq_or_eq_peer j with rfl | rfl
    · rw [Function.update_self] at hne
      rw [hother]
      exact hoffered hne
    · rw [hother] at hne
      rw [Side.peer_peer, Function.update_self, hservices]
      simpa using h.offered i.peer hne

/-- A step that takes no message from the other end. -/
theorem Inv.update_of_sends (h : Inv Answer s) {i : Side} {chan' : ChannelSystem}
    {new unanswered' : List RpcMessage} (hsends : Sends (s i).chan chan' new)
    (hend : Local (Answer i) ⟨chan', unanswered'⟩)
    (hnew : requests new ≠ [] → (s i.peer).chan.channel.services_.isSome = true) :
    Inv Answer (Function.update s i ⟨chan', unanswered'⟩) := by
  refine h.update hend ?_ ?_ hsends.services fun hne => ?_
  · rw [hsends.sent]
    exact List.prefix_append _ _
  · have harrived := h.arrived i.peer
    rw [Side.peer_peer] at harrived
    rw [hsends.received]
    exact harrived
  · -- a request was sent before, or is now
    by_cases hnone : requests (s i).chan.sent = []
    · refine hnew fun hnil => hne ?_
      rw [hsends.sent, requests_append, hnone, hnil, List.append_nil]
    · exact h.offered i hnone

theorem step_of_channelAction {i : Side} {a : Action} {b : RpcChannel.Action}
    {chan' : ChannelSystem}
    (hb : channelAction (s i) (s i.peer) a = some b) (hread : readServices (s i).chan b = .ok ())
    (hstep : RpcChannel.step (s i).chan b = .ok chan') :
    step s (i, a) = .ok (Function.update s i ⟨chan', stillUnanswered (s i) chan' a⟩) := by
  simp only [step, hb, hread, hstep, ok_bind]

/-- A step of the channel that sends nothing. -/
theorem inv_silent (h : Inv Answer s) {i : Side} {a : Action} {b : RpcChannel.Action}
    (hlegal : RpcChannel.Legal (s i).chan b) (hbounded : RpcChannel.Bounded (s i).chan b)
    (hb : channelAction (s i) (s i.peer) a = some b) (hread : readServices (s i).chan b = .ok ())
    {chan' : ChannelSystem} (hstep : RpcChannel.step (s i).chan b = .ok chan')
    (hsends : Sends (s i).chan chan' [])
    (hopen : stillUnanswered (s i) chan' a = (s i).unanswered) :
    ∃ s', step s (i, a) = .ok s' ∧ Inv Answer s' := by
  have hend := (h.ends i).of_silent
    (RpcChannel.inv_step (h.ends i).channel hlegal hbounded hstep) hsends
  refine ⟨_, step_of_channelAction hb hread hstep, ?_⟩
  rw [hopen]
  exact h.update_of_sends hsends hend fun hne => absurd rfl hne

/-- A message arrives: RESPONSEs have a payload, so no assertion fails, and REQUESTs only arrive
where `services_` is set. -/
theorem inv_receive (h : Inv Answer s) {i : Side} {b : RpcChannel.Action}
    (hlegal : RpcChannel.Legal (s i).chan b) (hbounded : RpcChannel.Bounded (s i).chan b)
    (hb : channelAction (s i) (s i.peer) .receive = some b) :
    ∃ s', step s (i, .receive) = .ok s' ∧ Inv Answer s' := by
  obtain ⟨m, hm, rfl⟩ := Option.map_eq_some_iff.mp hb
  have hpayload : m.type = .RESPONSE → m.response.isSome = true := by
    intro htype
    obtain ⟨_, _, _, _, _, _, response, hresponse, _⟩ :=
      h.call_of_answer i (List.mem_of_getElem? hm) htype
    rw [hresponse]
    rfl
  have hread : readServices (s i).chan (.onRpcMessage (s i).chan.channel.conn_ m) = .ok () := by
    refine if_neg fun ⟨htype, hnone⟩ => ?_
    have hrequest : m ∈ requests (s i.peer).chan.sent :=
      List.mem_filter.mpr ⟨List.mem_of_getElem? hm, by simp [htype]⟩
    have hset := h.offered i.peer (List.ne_nil_of_mem hrequest)
    rw [Side.peer_peer, Option.isNone_iff_eq_none.mp hnone] at hset
    exact absurd hset (by simp)
  obtain ⟨chan', hchan', htook⟩ := exists_took hpayload
  have hinv := RpcChannel.inv_step (h.ends i).channel hlegal hbounded hchan'
  refine ⟨_, step_of_channelAction hb hread hchan',
    h.update (local_receive (h.ends i) hinv hlegal htook) ?_ ?_ htook.services ?_⟩
  · exact htook.sent ▸ List.prefix_refl _
  · -- the message is the next one that the other end has sent
    have harrived := h.arrived i.peer
    rw [Side.peer_peer] at harrived
    rw [htook.received, List.prefix_iff_eq_take.mp harrived]
    obtain ⟨hlt, rfl⟩ := List.getElem?_eq_some_iff.mp hm
    rw [← List.take_succ_eq_append_getElem hlt]
    exact List.take_prefix _ _
  · exact htook.sent ▸ h.offered i

theorem inv_step (h : Inv Answer s) {a : Side × Action} (ha : Legal Answer s a) :
    ∃ s', step s a = .ok s' ∧ Inv Answer s' := by
  obtain ⟨i, a⟩ := a
  obtain ⟨⟨b, hb, hlegal, hbounded⟩, hpermitted, hoffered⟩ := ha
  cases a with
  | allocateId args =>
      obtain rfl := Option.some.inj hb
      exact inv_silent h hlegal hbounded rfl rfl rfl (sends_allocateId args) rfl
  | sendRequest k =>
      obtain rfl := Option.some.inj hb
      obtain ⟨c, hk, hpc⟩ := Option.map_eq_some_iff.mp hlegal
      exact ⟨_, step_of_channelAction rfl rfl rfl, h.update_of_sends (sends_sendRequest hk)
        (local_sendRequest (h.ends i) hk hpc) fun _ => hoffered⟩
  | insertOutstanding k =>
      obtain rfl := Option.some.inj hb
      exact inv_silent h hlegal hbounded rfl rfl rfl (sends_insertOutstanding k) rfl
  | receive => exact inv_receive h hlegal hbounded hb
  | parseResponse =>
      obtain rfl := Option.some.inj hb
      exact inv_silent h hlegal hbounded rfl rfl rfl sends_parseResponse rfl
  | runDone =>
      obtain rfl := Option.some.inj hb
      exact inv_silent h hlegal hbounded rfl rfl rfl sends_runDone rfl
  | finishResponse =>
      obtain rfl := Option.some.inj hb
      exact inv_silent h hlegal hbounded rfl rfl rfl sends_finishResponse rfl
  | answer j response =>
      obtain ⟨request, hj, rfl⟩ := Option.map_eq_some_iff.mp hb
      have hinv := RpcChannel.inv_step (h.ends i).channel hlegal hbounded rfl
      exact ⟨_, step_of_channelAction hb rfl rfl, h.update_of_sends (sends_doneCallback _ _)
        (local_answer (h.ends i) hj (hpermitted request hj) hinv) fun hne => absurd rfl hne⟩

/-- Each request is served at most once. -/
theorem Inv.served_nodup (h : Inv Answer s) (i : Side) :
    ((s i.peer).chan.serviceCalls.map RpcMessage.id).Nodup := by
  have hrequests : (s i.peer).chan.serviceCalls.Sublist (requests (s i).chan.sent) := by
    rw [(h.ends i.peer).served]
    refine List.Sublist.trans (List.monotone_filter_right _ fun m hm => ?_)
      ((h.arrived i).sublist.filter _)
    exact (Bool.and_eq_true_iff.mp hm).1
  exact ((h.ends i).once).sublist (hrequests.map _)

/-- A closure that has run saw the answer to its call. -/
theorem Inv.answer_of_ran (h : Inv Answer s) (i : Side) {k : Nat} {o : Option RpcMessage}
    (hran : (k, o) ∈ (s i).chan.ran) :
    ∃ c m response, (s i).chan.calls[k]? = some c ∧
      c.requestMessage ∈ (s i.peer).chan.serviceCalls ∧ o = some m ∧ m.id = c.id ∧
      m.response = some response ∧ Answer i.peer c.requestMessage response := by
  obtain ⟨c, m, hreg, ho, hmem, htype, hid⟩ := (h.ends i).channel.replies.ran k o hran
  have hsent : m ∈ (s i.peer).chan.sent := by
    have harrived := h.arrived i.peer
    rw [Side.peer_peer] at harrived
    exact harrived.subset hmem
  obtain ⟨j, d, hj, _, hid', hserved, response, hresponse, hanswer⟩ :=
    h.call_of_answer i hsent htype
  -- the call with the id of the answer is the one whose closure has run
  obtain rfl := (h.ends i).channel.calls.eq_of_id_eq hj hreg.1 (hid'.trans hid)
  obtain rfl : d = c := Option.some.inj (hj.symm.trans hreg.1)
  exact ⟨d, m, response, hreg.1, hserved, ho, hid, hresponse, hanswer⟩

/-- Nothing is on its way between the calls of `p` and the services of `q`. -/
structure Quiescent (p q : Endpoint) : Prop where
  requests : q.chan.received = p.chan.sent
  answers : p.chan.received = q.chan.sent
  unanswered : q.unanswered = []
  idle : p.chan.reply = none
  registered : ∀ c ∈ p.chan.calls, c.pc = .registered

/-- Then a call has its answer exactly if it could be served. -/
theorem hasRun_iff_of_quiescent (h : Inv Answer s) {i : Side}
    (hserved : RpcChannel.ServedInv (s i).chan)
    (hquiet : Quiescent (s i) (s i.peer)) {k : Nat} {c : Call} (hk : (s i).chan.calls[k]? = some c)
    (hdone : c.args.done = true) :
    RpcChannel.HasRun (s i).chan k ↔
      isServed (s i.peer).chan.channel.services_ c.requestMessage = true := by
  constructor
  · intro hrun
    obtain ⟨⟨j, o⟩, hmem, rfl⟩ := List.mem_map.mp hrun
    obtain ⟨d, m, response, hd, hmem', _⟩ := h.answer_of_ran i hmem
    obtain rfl : d = c := Option.some.inj (hd.symm.trans hk)
    rw [(h.ends i.peer).served] at hmem'
    exact (List.mem_filter.mp hmem').2
  · intro hcan
    have hreg := hquiet.registered c (List.mem_of_getElem? hk)
    have hsent : c.requestMessage ∈ (s i).chan.sent :=
      (h.ends i).channel.calls.sent k c hk (by simp [hreg])
    have hmem : c.requestMessage ∈ (s i.peer).chan.serviceCalls := by
      rw [(h.ends i.peer).served, hquiet.requests]
      exact List.mem_filter.mpr ⟨hsent, hcan⟩
    obtain ⟨m, hm, htype, hid⟩ : ∃ m ∈ (s i.peer).chan.sent, m.type = .RESPONSE ∧
        m.id = c.requestMessage.id := by
      refine ((h.ends i.peer).complete _ hmem).resolve_left fun hopen => ?_
      exact absurd (hquiet.unanswered ▸ hopen) List.not_mem_nil
    have hprocessed : m ∈ (s i).chan.processed := by
      rcases (h.ends i).handled m (hquiet.answers ▸ hm) htype with hdone | ⟨r, hr, _⟩
      · exact hdone
      · exact absurd (hquiet.idle.symm.trans hr) (by simp)
    exact (hserved.delivered (h.ends i).channel k c m hk hprocessed hid).1 hdone

/-- A step of an end whose answers are not looked up too early. -/
theorem served_step (h : Inv Answer s) {i : Side} {a : Action} {s' : System}
    (hserved : ∀ j, RpcChannel.ServedInv (s j).chan) (ha : Legal Answer s (i, a))
    (htimely : Timely s (i, a)) (hstep : step s (i, a) = .ok s') :
    ∀ j, RpcChannel.ServedInv (s' j).chan := by
  obtain ⟨⟨b, hb, hlegal, _⟩, _⟩ := ha
  simp only [step, Option.mem_def.mp hb, bind_eq_ok_iff] at hstep
  obtain ⟨_, _, chan', hchan', hs'⟩ := hstep
  obtain rfl := Except.ok.inj hs'
  have hanswers : RpcChannel.AnswersSent (s i).chan b := by
    cases a with
    | receive =>
        obtain ⟨m, hm, rfl⟩ := Option.map_eq_some_iff.mp hb
        intro htype
        obtain ⟨k, c, hk, hpc, hid, _⟩ := h.call_of_answer i (List.mem_of_getElem? hm) htype
        exact ⟨c, List.mem_of_getElem? hk, hid, hpc⟩
    | answer j response =>
        obtain ⟨request, _, rfl⟩ := Option.map_eq_some_iff.mp hb
        trivial
    | allocateId args => exact Option.some.inj hb ▸ trivial
    | sendRequest k => exact Option.some.inj hb ▸ trivial
    | insertOutstanding k => exact Option.some.inj hb ▸ trivial
    | parseResponse => exact Option.some.inj hb ▸ trivial
    | runDone => exact Option.some.inj hb ▸ trivial
    | finishResponse => exact Option.some.inj hb ▸ trivial
  intro j
  rcases i.eq_or_eq_peer j with rfl | rfl
  · rw [Function.update_self]
    exact RpcChannel.served_step (hserved j) (h.ends j).channel hlegal hanswers
      (htimely b hb) hchan'
  · rw [Function.update_of_ne i.peer_ne]
    exact hserved _

end Both

/-! ## Whole runs -/

section Decide

variable {Answer : Side → RpcMessage → List UInt8 → Prop}
  [∀ i request response, Decidable (Answer i request response)]

instance (i : Side) (p : Endpoint) (a : Action) : Decidable (Permitted Answer i p a) :=
  match a with
  | .answer _ _ => inferInstanceAs (Decidable (∀ _ ∈ _, _))
  | .allocateId _ | .sendRequest _ | .insertOutstanding _ | .receive | .parseResponse | .runDone
  | .finishResponse => isTrue trivial

instance (q : Endpoint) (a : Action) : Decidable (Offered q a) :=
  match a with
  | .sendRequest _ => inferInstanceAs (Decidable (_ = true))
  | .allocateId _ | .insertOutstanding _ | .receive | .parseResponse | .runDone | .finishResponse
  | .answer _ _ => isTrue trivial

instance (s : System) (a : Side × Action) : Decidable ((machine Answer).legal s a) :=
  match a with
  | (_, _) => inferInstanceAs (Decidable ((∃ _ ∈ _, _ ∧ _) ∧ _ ∧ _))

instance (s : System) (a : Side × Action) : Decidable (Timely s a) :=
  match a with
  | (_, _) => inferInstanceAs (Decidable (∀ _ ∈ _, _))

instance (s : System) (a : Side × Action) :
    Decidable (((machine Answer).restrict Timely).legal s a) :=
  inferInstanceAs (Decidable (_ ∧ _))

end Decide

/-- A service that returns what it gets: the server's end finds one method of one service, and
`setServices` is not called at the client's end. -/
def echoServices : Side → Option (List UInt8 → Option Service)
  | .client => none
  | .server => some fun name => if name = [83] then some ⟨fun method => method == [77]⟩ else none

/-- What it answers. -/
def Echo (_ : Side) (request : RpcMessage) (response : List UInt8) : Prop :=
  request.request = some response

instance (i : Side) (request : RpcMessage) (response : List UInt8) :
    Decidable (Echo i request response) := inferInstanceAs (Decidable (_ = _))

/-- Two calls of the client, one of a method that does not exist. -/
def echoRun : List (Side × Action) :=
  [(.client, .allocateId ⟨[83], [99], [7], true, true⟩), (.client, .sendRequest 0),
    (.client, .allocateId ⟨[83], [77], [1], true, true⟩), (.client, .insertOutstanding 0),
    (.client, .sendRequest 1), (.server, .receive), (.client, .insertOutstanding 1),
    (.server, .receive), (.server, .answer 0 [1]), (.client, .receive), (.client, .parseResponse),
    (.client, .runDone), (.client, .finishResponse)]

/-- The calls of the run. -/
def echoCalls : List Call :=
  [⟨⟨[83], [99], [7], true, true⟩, 1, .registered⟩, ⟨⟨[83], [77], [1], true, true⟩, 2, .registered⟩]

/-- In every interleaving of callers, services and loop threads at both ends in which REQUESTs
are only sent to an end whose `setServices` has been called, and each end makes fewer than 2^63
calls, each with a response message, no assertion fails, and for the calls of each end: a closure
runs at most once, each request is served at most once, and a closure that has run saw what the
service at the other end answered to the request of its own call. -/
theorem closures_see_answers {Answer : Side → RpcMessage → List UInt8 → Prop} {conn : Side → Nat}
    {services : Side → Option (List UInt8 → Option Service)} {as : List (Side × Action)}
    (hlegal : (machine Answer).LegalRun (start conn services) as) :
    ∃ s, (machine Answer).run (start conn services) as = .ok s ∧
      ∀ i : Side, ∀ p q, s i = p → s i.peer = q →
        (p.chan.ran.map Prod.fst).Nodup ∧ (q.chan.serviceCalls.map RpcMessage.id).Nodup ∧
        ∀ k o, (k, o) ∈ p.chan.ran → ∃ c m response, p.chan.calls[k]? = some c ∧
          c.requestMessage ∈ q.chan.serviceCalls ∧ o = some m ∧ m.id = c.id ∧
          m.response = some response ∧ Answer i.peer c.requestMessage response := by
  obtain ⟨s, hrun, hinv⟩ := Machine.run_invariant (Inv Answer) (fun _ _ h ha => inv_step h ha)
    (inv_start conn services) hlegal
  refine ⟨s, hrun, fun i p q hp hq => ?_⟩
  subst hp hq
  exact ⟨(hinv.ends i).channel.replies.once, hinv.served_nodup i,
    fun k o h => hinv.answer_of_ran i h⟩

theorem closures_see_answers_echo :
    (machine Echo).LegalRun (start (fun _ => 9) echoServices) echoRun ∧
      ∃ s, (machine Echo).run (start (fun _ => 9) echoServices) echoRun = .ok s ∧
        ∃ (c : Call) (m : RpcMessage) (response : List UInt8), (s .client).chan.calls[1]? = some c ∧
          c.requestMessage ∈ (s .server).chan.serviceCalls ∧ m.id = c.id ∧
          m.response = some response ∧ Echo .server c.requestMessage response := by
  have hlegal : (machine Echo).LegalRun (start (fun _ => 9) echoServices) echoRun := by
    decide +kernel
  obtain ⟨s, hrun, h⟩ := closures_see_answers hlegal
  obtain ⟨s', hrun', hran⟩ := (machine Echo).exists_of_endsWith (start (fun _ => 9) echoServices)
    echoRun (fun s => (s .client).chan.ran.map Prod.fst == [1]) (by decide +kernel)
  obtain rfl : s = s' := Except.ok.inj (hrun.symm.trans hrun')
  rw [beq_iff_eq] at hran
  obtain ⟨⟨k, o⟩, hmem, hk⟩ : ∃ entry ∈ (s .client).chan.ran, entry.1 = 1 :=
    List.mem_map.mp (by rw [hran]; exact List.mem_cons_self)
  obtain rfl : k = 1 := hk
  obtain ⟨c, m, response, hc, hserved, _, hid, hresponse, hecho⟩ :=
    (h .client _ _ rfl rfl).2.2 1 o hmem
  exact ⟨hlegal, s, hrun, c, m, response, hc, hserved, hid, hresponse, hecho⟩

/-- In every such interleaving in which no answer is looked up before its call is registered: when
nothing is on its way any more between the callers of one end and the services of the other, the
closure of a call that was given one has run exactly if the other end has the service and the
method that was called. -/
theorem calls_complete {Answer : Side → RpcMessage → List UInt8 → Prop} {conn : Side → Nat}
    {services : Side → Option (List UInt8 → Option Service)} {as : List (Side × Action)}
    (hlegal : ((machine Answer).restrict Timely).LegalRun (start conn services) as) :
    ∃ s, (machine Answer).run (start conn services) as = .ok s ∧
      ∀ i : Side, ∀ p q, s i = p → s i.peer = q → Quiescent p q →
        ∀ (k : Nat) (c : Call), p.chan.calls[k]? = some c → c.args.done = true →
          (RpcChannel.HasRun p.chan k ↔
            isServed q.chan.channel.services_ c.requestMessage = true) := by
  obtain ⟨s, hrun, hinv, hserved⟩ := @Machine.run_invariant _ _ ((machine Answer).restrict Timely)
    (fun s => Inv Answer s ∧ ∀ i, RpcChannel.ServedInv (s i).chan)
    (fun s a h ha => by
      obtain ⟨s', hstep, hinv'⟩ := @inv_step Answer s h.1 a ha.1
      exact ⟨s', hstep, hinv', served_step h.1 h.2 ha.1 ha.2 hstep⟩)
    _ ⟨inv_start conn services, fun i => RpcChannel.served_start (conn i) (services i)⟩ _ hlegal
  rw [Machine.run_restrict] at hrun
  refine ⟨s, hrun, fun i p q hp hq hquiet k c hk hdone => ?_⟩
  subst hp hq
  exact hasRun_iff_of_quiescent hinv (hserved i) hquiet hk hdone

theorem calls_complete_echo :
    ((machine Echo).restrict Timely).LegalRun (start (fun _ => 9) echoServices) echoRun ∧
      ∃ s, (machine Echo).run (start (fun _ => 9) echoServices) echoRun = .ok s ∧
        RpcChannel.HasRun (s .client).chan 1 ∧ ¬ RpcChannel.HasRun (s .client).chan 0 := by
  have hlegal : ((machine Echo).restrict Timely).LegalRun
    (start (fun _ => 9) echoServices) echoRun :=
    by decide +kernel
  obtain ⟨s, hrun, h⟩ := calls_complete hlegal
  obtain ⟨s', hrun', hend⟩ := (machine Echo).exists_of_endsWith (start (fun _ => 9) echoServices)
    echoRun (fun s => decide ((s .server).chan.received = (s .client).chan.sent ∧
      (s .client).chan.received = (s .server).chan.sent ∧ (s .server).unanswered = [] ∧
      (s .client).chan.reply = none ∧ (s .client).chan.calls = echoCalls ∧
      echoCalls.map (fun c => isServed (s .server).chan.channel.services_ c.requestMessage) =
        [false, true])) (by decide +kernel)
  obtain rfl : s = s' := Except.ok.inj (hrun.symm.trans hrun')
  obtain ⟨hrequests, hanswers, hopen, hidle, hcalls, hserved⟩ := of_decide_eq_true hend
  obtain ⟨hfirst, hsecond, _⟩ : isServed (s .server).chan.channel.services_
      (Call.requestMessage ⟨⟨[83], [99], [7], true, true⟩, 1, .registered⟩) = false ∧
      isServed (s .server).chan.channel.services_
        (Call.requestMessage ⟨⟨[83], [77], [1], true, true⟩, 2, .registered⟩) = true ∧ True := by
    simpa [echoCalls] using hserved
  have hquiet : Quiescent (s .client) (s .server) :=
    ⟨hrequests, hanswers, hopen, hidle, by rw [hcalls]; decide⟩
  have hiff := h .client _ _ rfl rfl hquiet
  refine ⟨hlegal, s, hrun, ?_, ?_⟩
  · exact (hiff 1 _ (by rw [hcalls]; rfl) rfl).mpr hsecond
  · rw [hiff 0 _ (by rw [hcalls]; rfl) rfl]
    exact fun htrue => absurd (hfirst.symm.trans htrue) (by simp)

end Muduo.Protorpc.RpcService
