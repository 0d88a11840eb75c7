/-
  Protorpc/RpcReplies.lean --- which replies reach which calls.

  Ids are handed out in the order of the calls, so a call is its id as long as the
  counter does not wrap around (`CallsInv`).  A table entry belongs to a registered
  call whose closure has not run; the reply in progress has taken its entry out of
  the table, or found none (`RepliesInv`).  From these, `replies_not_crossed`:
  whatever the peer sends, a closure runs at most once and sees a RESPONSE with the
  id of its own call.  That the reply to a call reaches it at all is another matter:
  see `RpcDelivery`.
-/
import Muduo.Protorpc.RpcChannel

set_option autoImplicit false

namespace Muduo.Protorpc.RpcChannel

open Muduo.Foundation Muduo.Base

/-! ## The invariant -/

/-- Call `k` is `c`, and has been inserted into `outstandings_`. -/
def Registered (s : ChannelSystem) (k : Nat) (c : Call) : Prop :=
  s.calls[k]? = some c ∧ c.pc = .registered

/-- The closure of call `k` has run. -/
def HasRun (s : ChannelSystem) (k : Nat) : Prop := k ∈ s.ran.map Prod.fst

/-- Ids follow the order of the calls, and a request is sent before its call goes
on. -/
structure CallsInv (s : ChannelSystem) : Prop where
  bound : s.calls.length < 2 ^ 63
  counter : s.channel.id_ = BitVec.ofNat 64 s.calls.length
  ids : ∀ (k : Nat) (c : Call), s.calls[k]? = some c → c.id = BitVec.ofNat 64 (k + 1)
  response : ∀ (k : Nat) (c : Call), s.calls[k]? = some c → c.args.response = true
  sent : ∀ (k : Nat) (c : Call), s.calls[k]? = some c → c.pc ≠ .allocated →
    c.requestMessage ∈ s.sent

/-- The reply in progress answers call `k`. -/
structure Answers (s : ChannelSystem) (r : Reply) (k : Nat) (c : Call) : Prop where
  registered : Registered s k c
  id : c.id = r.message.id
  out : r.out = c.outstanding k
  taken : s.channel.outstandings_ c.id = none
  fresh : r.pc ≠ .ran → ¬ HasRun s k
  filled : r.pc ≠ .located → s.objects k = some r.message

/-- Table, reply in progress and closures that have run. -/
structure RepliesInv (s : ChannelSystem) : Prop where
  table : ∀ i out, s.channel.outstandings_ i = some out →
    ∃ k c, Registered s k c ∧ c.id = i ∧ out = c.outstanding k ∧ ¬ HasRun s k
  reply : ∀ r, s.reply = some r → r.message.type = .RESPONSE ∧ r.message ∈ s.received ∧
    (r.out = ⟨none, none⟩ ∨ ∃ k c, Answers s r k c)
  ran : ∀ k o, (k, o) ∈ s.ran → ∃ c m, Registered s k c ∧ o = some m ∧ m ∈ s.received ∧
    m.type = .RESPONSE ∧ m.id = c.id
  once : (s.ran.map Prod.fst).Nodup

/-- What holds of a channel in every state. -/
structure Inv (s : ChannelSystem) : Prop where
  calls : CallsInv s
  replies : RepliesInv s

/-- Distinct calls have distinct ids. -/
theorem CallsInv.eq_of_id_eq {s : ChannelSystem} (h : CallsInv s) {j k : Nat} {c d : Call}
    (hj : s.calls[j]? = some c) (hk : s.calls[k]? = some d) (hid : c.id = d.id) : j = k := by
  have hbound := h.bound
  obtain ⟨hjlt, _⟩ := List.getElem?_eq_some_iff.mp hj
  obtain ⟨hklt, _⟩ := List.getElem?_eq_some_iff.mp hk
  rw [h.ids j c hj, h.ids k d hk] at hid
  have hnat := congrArg BitVec.toNat hid
  rw [BitVec.toNat_ofNat, BitVec.toNat_ofNat] at hnat
  omega

/-- A call that is not registered does not have the id of one that is. -/
theorem CallsInv.registered_id_ne {s : ChannelSystem} (h : CallsInv s) {j k : Nat} {c d : Call}
    (hk : s.calls[k]? = some c) (hpc : c.pc ≠ .registered) (hd : Registered s j d) :
    d.id ≠ c.id := by
  intro hid
  obtain rfl := h.eq_of_id_eq hd.1 hk hid
  obtain rfl : d = c := Option.some.inj (hd.1.symm.trans hk)
  exact hpc hd.2

theorem inv_start (conn : Nat) (services : Option (List UInt8 → Option Service)) :
    Inv (start conn services) := by
  refine ⟨⟨by simp [start], rfl, ?_, ?_, ?_⟩, ⟨?_, ?_, ?_, ?_⟩⟩
  · intro k c hk
    simp [start] at hk
  · intro k c hk
    simp [start] at hk
  · intro k c hk
    simp [start] at hk
  · intro i out hi
    simp [start] at hi
  · intro r hr
    simp [start] at hr
  · intro k o hk
    simp [start] at hk
  · simp [start]

/-! ## Calls -/

section Steps

variable {s s' : ChannelSystem}

/-- A step that leaves table, reply, objects and closures alone keeps their
invariant, if no registered call is lost. -/
theorem RepliesInv.of_frame (h : RepliesInv s)
    (hregistered : ∀ k c, Registered s k c → Registered s' k c)
    (htable : s'.channel.outstandings_ = s.channel.outstandings_) (hreply : s'.reply = s.reply)
    (hobjects : s'.objects = s.objects) (hran : s'.ran = s.ran)
    (hreceived : ∀ m ∈ s.received, m ∈ s'.received) : RepliesInv s' := by
  have hhasRun : ∀ k, HasRun s' k ↔ HasRun s k := fun k => by rw [HasRun, HasRun, hran]
  refine ⟨?_, ?_, ?_, hran ▸ h.once⟩
  · intro i out hi
    obtain ⟨k, c, hreg, hid, hout, hfresh⟩ := h.table i out (htable ▸ hi)
    exact ⟨k, c, hregistered k c hreg, hid, hout, (hhasRun k).not.mpr hfresh⟩
  · intro r hr
    obtain ⟨htype, hmem, hanswers⟩ := h.reply r (hreply ▸ hr)
    refine ⟨htype, hreceived _ hmem, hanswers.imp_right ?_⟩
    rintro ⟨k, c, ha⟩
    exact ⟨k, c, hregistered k c ha.registered, ha.id, ha.out, htable ▸ ha.taken,
      fun hpc => (hhasRun k).not.mpr (ha.fresh hpc), fun hpc => hobjects ▸ ha.filled hpc⟩
  · intro k o hk
    obtain ⟨c, m, hreg, ho, hmem, htype, hid⟩ := h.ran k o (hran ▸ hk)
    exact ⟨c, m, hregistered k c hreg, ho, hreceived m hmem, htype, hid⟩

/-- Moving a call on does not disturb the registered ones. -/
theorem registered_setPc {k : Nat} {c : Call} {pc : CallPc} (hk : s.calls[k]? = some c)
    (hpc : c.pc ≠ .registered) {j : Nat} {d : Call} (hd : Registered s j d) :
    Registered (s.setPc k pc) j d := by
  have hne : k ≠ j := by
    rintro rfl
    obtain rfl : c = d := Option.some.inj (hk.symm.trans hd.1)
    exact hpc hd.2
  refine ⟨?_, hd.2⟩
  simp only [ChannelSystem.setPc, List.getElem?_modify, if_neg hne]
  simpa using hd.1

/-- The calls after one of them has moved on. -/
theorem calls_setPc {k : Nat} {pc : CallPc} {j : Nat} {d : Call}
    (hd : (s.setPc k pc).calls[j]? = some d) :
    ∃ c, s.calls[j]? = some c ∧ d.args = c.args ∧ d.id = c.id ∧
      (k = j ∧ d.pc = pc ∨ k ≠ j ∧ d = c) := by
  simp only [ChannelSystem.setPc, List.getElem?_modify] at hd
  by_cases hkj : k = j
  · simp only [if_pos hkj] at hd
    obtain ⟨c, hc, rfl⟩ := Option.map_eq_some_iff.mp hd
    exact ⟨c, hc, rfl, rfl, .inl ⟨hkj, rfl⟩⟩
  · simp only [if_neg hkj] at hd
    exact ⟨d, by simpa using hd, rfl, rfl, .inr ⟨hkj, rfl⟩⟩

/-- A call that moves on keeps its arguments and its id. -/
theorem CallsInv.setPc (h : CallsInv s) {k : Nat} {c : Call} (pc : CallPc)
    (hk : s.calls[k]? = some c) {sent : List RpcMessage} (hsent : ∀ m ∈ s.sent, m ∈ sent)
    (hrequest : c.requestMessage ∈ sent) (channel : RpcChannel)
    (hid : channel.id_ = s.channel.id_) :
    CallsInv { s.setPc k pc with sent, channel } := by
  refine ⟨?_, ?_, ?_, ?_, ?_⟩
  · simpa [ChannelSystem.setPc] using h.bound
  · simpa [ChannelSystem.setPc, hid] using h.counter
  · intro j d hd
    obtain ⟨c', hc', _, hid', _⟩ := calls_setPc hd
    exact hid'.trans (h.ids j c' hc')
  · intro j d hd
    obtain ⟨c', hc', hargs, _, _⟩ := calls_setPc hd
    exact hargs ▸ h.response j c' hc'
  · intro j d hd hpc
    obtain ⟨c', hc', hargs, hid', ⟨rfl, _⟩ | ⟨_, rfl⟩⟩ := calls_setPc hd
    · obtain rfl : c = c' := Option.some.inj (hk.symm.trans hc')
      have hsame : d.requestMessage = c.requestMessage := by
        simp only [Call.requestMessage, hargs, hid']
      exact hsame ▸ hrequest
    · exact hsent _ (h.sent j d hc' hpc)

theorem inv_allocateId (h : Inv s) {args : CallArgs} (hresponse : args.response = true)
    (hbound : s.calls.length + 1 < 2 ^ 63) : Inv (s.allocateId args) := by
  have hold : ∀ k c, (s.allocateId args).calls[k]? = some c →
      s.calls[k]? = some c ∨ k = s.calls.length ∧ c = ⟨args, s.channel.id_ + 1, .allocated⟩ := by
    intro k c hk
    simp only [ChannelSystem.allocateId, AtomicInteger.incrementAndGet_eq,
      List.getElem?_append] at hk
    by_cases hlt : k < s.calls.length
    · exact .inl (by simpa [hlt] using hk)
    · rw [if_neg hlt] at hk
      have hzero : k - s.calls.length = 0 := by
        obtain ⟨hlt', _⟩ := List.getElem?_eq_some_iff.mp hk
        simpa using hlt'
      rw [hzero] at hk
      exact .inr ⟨by omega, by simpa using hk.symm⟩
  have hnext : s.channel.id_ + 1 = BitVec.ofNat 64 (s.calls.length + 1) := by
    rw [h.calls.counter]
    exact (BitVec.ofNat_add s.calls.length 1).symm
  refine ⟨⟨?_, ?_, ?_, ?_, ?_⟩, ?_⟩
  · simpa [ChannelSystem.allocateId] using hbound
  · simpa [ChannelSystem.allocateId, AtomicInteger.incrementAndGet_eq] using hnext
  · intro k c hk
    obtain hk | ⟨rfl, rfl⟩ := hold k c hk
    · exact h.calls.ids k c hk
    · exact hnext
  · intro k c hk
    obtain hk | ⟨rfl, rfl⟩ := hold k c hk
    · exact h.calls.response k c hk
    · exact hresponse
  · intro k c hk hpc
    obtain hk | ⟨rfl, rfl⟩ := hold k c hk
    · exact h.calls.sent k c hk hpc
    · exact absurd rfl hpc
  · refine h.replies.of_frame ?_ rfl rfl rfl rfl (fun _ hm => hm)
    intro k c hreg
    refine ⟨?_, hreg.2⟩
    obtain ⟨hlt, _⟩ := List.getElem?_eq_some_iff.mp hreg.1
    simp only [ChannelSystem.allocateId]
    rw [List.getElem?_append_left hlt]
    exact hreg.1

theorem inv_sendRequest (h : Inv s) {k : Nat} {c : Call} (hk : s.calls[k]? = some c)
    (hpc : c.pc = .allocated) : Inv (s.sendRequest k) := by
  simp only [ChannelSystem.sendRequest, hk]
  refine ⟨h.calls.setPc .sent hk (fun m hm => List.mem_append_left _ hm)
    (by simp) s.channel rfl, ?_⟩
  exact h.replies.of_frame (fun j d hd => registered_setPc hk (by simp [hpc]) hd) rfl rfl rfl rfl
    (fun _ hm => hm)

theorem inv_insertOutstanding (h : Inv s) {k : Nat} {c : Call} (hk : s.calls[k]? = some c)
    (hpc : c.pc = .sent) : Inv (s.insertOutstanding k) := by
  have hregistered : ∀ j d, Registered s j d → Registered (s.insertOutstanding k) j d := by
    intro j d hd
    simp only [ChannelSystem.insertOutstanding, hk]
    exact registered_setPc hk (by simp [hpc]) hd
  have hother : ∀ j d, Registered s j d → d.id ≠ c.id :=
    fun j d hd => h.calls.registered_id_ne hk (by simp [hpc]) hd
  have hself : Registered (s.insertOutstanding k) k { c with pc := .registered } := by
    simp only [ChannelSystem.insertOutstanding, hk]
    refine ⟨?_, rfl⟩
    simp [ChannelSystem.setPc, hk]
  have htable : (s.insertOutstanding k).channel.outstandings_ =
      Function.update s.channel.outstandings_ c.id (some (c.outstanding k)) := by
    simp only [ChannelSystem.insertOutstanding, hk]
  have hframe : (s.insertOutstanding k).reply = s.reply ∧
      (s.insertOutstanding k).objects = s.objects ∧ (s.insertOutstanding k).ran = s.ran ∧
      (s.insertOutstanding k).received = s.received := by
    simp only [ChannelSystem.insertOutstanding, hk]
    exact ⟨rfl, rfl, rfl, rfl⟩
  obtain ⟨hreply, hobjects, hran, hreceived⟩ := hframe
  have hhasRun : ∀ j, HasRun (s.insertOutstanding k) j ↔ HasRun s j :=
    fun j => by rw [HasRun, HasRun, hran]
  refine ⟨?_, ⟨?_, ?_, ?_, hran ▸ h.replies.once⟩⟩
  · have hrequest := h.calls.sent k c hk (by simp [hpc])
    simp only [ChannelSystem.insertOutstanding, hk]
    exact h.calls.setPc .registered hk (fun m hm => hm) hrequest _ rfl
  · intro i out hi
    rw [htable] at hi
    by_cases hid : i = c.id
    · subst hid
      rw [Function.update_self, Option.some.injEq] at hi
      refine ⟨k, _, hself, rfl, hi.symm, ?_⟩
      intro hrun
      obtain ⟨⟨k', o⟩, hmem, rfl⟩ := List.mem_map.mp ((hhasRun k).mp hrun)
      obtain ⟨d, _, hd, _⟩ := h.replies.ran k' o hmem
      exact hother k' d hd (by rw [Option.some.inj (hd.1.symm.trans hk)])
    · rw [Function.update_of_ne hid] at hi
      obtain ⟨j, d, hd, hid', hout, hfresh⟩ := h.replies.table i out hi
      exact ⟨j, d, hregistered j d hd, hid', hout, (hhasRun j).not.mpr hfresh⟩
  · intro r hr
    obtain ⟨htype, hmem, hanswers⟩ := h.replies.reply r (hreply ▸ hr)
    refine ⟨htype, hreceived ▸ hmem, hanswers.imp_right ?_⟩
    rintro ⟨j, d, ha⟩
    refine ⟨j, d, hregistered j d ha.registered, ha.id, ha.out, ?_,
      fun hpc => (hhasRun j).not.mpr (ha.fresh hpc), fun hpc => hobjects ▸ ha.filled hpc⟩
    rw [htable, Function.update_of_ne (hother j d ha.registered)]
    exact ha.taken
  · intro j o hj
    obtain ⟨d, m, hd, ho, hmem, htype, hid⟩ := h.replies.ran j o (hran ▸ hj)
    exact ⟨d, m, hregistered j d hd, ho, hreceived ▸ hmem, htype, hid⟩

/-! ## Replies -/

theorem CallsInv.of_frame (h : CallsInv s) (hcalls : s'.calls = s.calls)
    (hid : s'.channel.id_ = s.channel.id_) (hsent : ∀ m ∈ s.sent, m ∈ s'.sent) : CallsInv s' := by
  refine ⟨?_, ?_, ?_, ?_, ?_⟩
  · rw [hcalls]
    exact h.bound
  · rw [hcalls, hid]
    exact h.counter
  · intro k c hk
    exact h.ids k c (hcalls ▸ hk)
  · intro k c hk
    exact h.response k c (hcalls ▸ hk)
  · intro k c hk hpc
    exact hsent _ (h.sent k c (hcalls ▸ hk) hpc)

theorem registered_of_calls_eq (hcalls : s'.calls = s.calls) {k : Nat} {c : Call}
    (h : Registered s k c) : Registered s' k c := ⟨hcalls ▸ h.1, h.2⟩

/-- The critical section moves a table entry into the reply, or finds none. -/
theorem inv_takeOutstanding (h : Inv s) {message : RpcMessage} (htype : message.type = .RESPONSE)
    (hmem : message ∈ s.received) : Inv (s.takeOutstanding message) := by
  rcases hentry : s.channel.outstandings_ message.id with _ | out
  · simp only [ChannelSystem.takeOutstanding, hentry]
    refine ⟨h.calls.of_frame rfl rfl (fun _ hm => hm), ⟨h.replies.table, ?_, h.replies.ran,
      h.replies.once⟩⟩
    intro r hr
    obtain rfl := Option.some.inj hr
    exact ⟨htype, hmem, .inl rfl⟩
  · simp only [ChannelSystem.takeOutstanding, hentry]
    obtain ⟨k, c, hreg, hid, hout, hfresh⟩ := h.replies.table message.id out hentry
    refine ⟨h.calls.of_frame rfl rfl (fun _ hm => hm), ⟨?_, ?_, h.replies.ran, h.replies.once⟩⟩
    · intro i out' hi
      by_cases hne : i = message.id
      · subst hne
        simp at hi
      · simp only [Function.update_of_ne hne] at hi
        exact h.replies.table i out' hi
    · intro r hr
      obtain rfl := Option.some.inj hr
      refine ⟨htype, hmem, .inr ⟨k, c, hreg, hid, hout, ?_, fun _ => hfresh,
        fun hpc => absurd rfl hpc⟩⟩
      simp [hid]

/-- What `onRpcMessage` does: a RESPONSE enters the critical section, any other
message can only lead to a service call. -/
theorem onRpcMessage_cases {conn : Nat} {message : RpcMessage}
    (hstep : s.onRpcMessage conn message = .ok s') :
    (message.type = .RESPONSE ∧
      s' = { s with received := s.received ++ [message] }.takeOutstanding message) ∨
    (message.type ≠ .RESPONSE ∧ ∃ serviceCalls,
      s' = { s with received := s.received ++ [message], serviceCalls }) := by
  simp only [ChannelSystem.onRpcMessage, bind_eq_ok_iff] at hstep
  obtain ⟨_, _, hstep⟩ := hstep
  cases htype : message.type with
  | REQUEST =>
      simp only [htype, Except.ok.injEq] at hstep
      subst hstep
      refine .inr ⟨by simp, ?_⟩
      unfold ChannelSystem.serveRequest
      split
      · split
        · split
          · exact ⟨_, rfl⟩
          · exact ⟨_, rfl⟩
        · exact ⟨_, rfl⟩
      · exact ⟨_, rfl⟩
  | RESPONSE =>
      simp only [htype, bind_eq_ok_iff, Except.ok.injEq] at hstep
      obtain ⟨_, _, hstep⟩ := hstep
      exact .inl ⟨rfl, hstep.symm⟩
  | ERROR =>
      simp only [htype, Except.ok.injEq] at hstep
      exact .inr ⟨by simp, s.serviceCalls, hstep.symm⟩

/-- A message that has arrived, and a service call made for it, concern no call of
this channel. -/
theorem inv_receive (h : Inv s) (message : RpcMessage) (serviceCalls : List RpcMessage) :
    Inv { s with received := s.received ++ [message], serviceCalls } :=
  ⟨h.calls.of_frame rfl rfl (fun _ hm => hm), h.replies.of_frame (fun _ _ hreg => hreg) rfl rfl
    rfl rfl (fun _ hm => List.mem_append_left _ hm)⟩

theorem inv_onRpcMessage (h : Inv s) {conn : Nat} {message : RpcMessage}
    (hstep : s.onRpcMessage conn message = .ok s') : Inv s' := by
  obtain ⟨htype, rfl⟩ | ⟨_, serviceCalls, rfl⟩ := onRpcMessage_cases hstep
  · exact inv_takeOutstanding (inv_receive h message s.serviceCalls) htype (by simp)
  · exact inv_receive h message serviceCalls

/-- A reply that answers a call writes to the response object of that call. -/
theorem Answers.response_eq {r : Reply} {k : Nat} {c : Call} (ha : Answers s r k c)
    (h : CallsInv s) : r.out.response = some k := by
  simp [ha.out, Call.outstanding, h.response k c ha.registered.1]

/-- The next step of a reply that has not run its closure yet. -/
theorem inv_parseResponse (h : Inv s) {r : Reply} (hr : s.reply = some r)
    (hpc : r.pc = .located) : Inv s.parseResponse := by
  simp only [ChannelSystem.parseResponse, hr]
  refine ⟨h.calls.of_frame rfl rfl (fun _ hm => hm), ⟨h.replies.table, ?_, h.replies.ran,
    h.replies.once⟩⟩
  intro r' hr'
  obtain rfl := Option.some.inj hr'
  obtain ⟨htype, hmem, hanswers⟩ := h.replies.reply r hr
  refine ⟨htype, hmem, hanswers.imp_right ?_⟩
  rintro ⟨k, c, ha⟩
  refine ⟨k, c, ha.registered, ha.id, ha.out, ha.taken, fun _ => ha.fresh (by simp [hpc]),
    fun _ => ?_⟩
  have hresponse := ha.response_eq h.calls
  simp [hresponse]

theorem inv_runDone (h : Inv s) {r : Reply} (hr : s.reply = some r) (hpc : r.pc = .parsed) :
    Inv s.runDone := by
  obtain ⟨htype, hmem, hnone | ⟨k, c, ha⟩⟩ := h.replies.reply r hr
  · simp only [ChannelSystem.runDone, hr, hnone]
    refine ⟨h.calls.of_frame rfl rfl (fun _ hm => hm), ⟨h.replies.table, ?_, h.replies.ran,
      h.replies.once⟩⟩
    intro r' hr'
    obtain rfl := Option.some.inj hr'
    exact ⟨htype, hmem, .inl rfl⟩
  have hresponse := ha.response_eq h.calls
  have hreply : ∀ (ran : List (Nat × Option RpcMessage)) (r' : Reply),
      some { r with pc := .ran } = some r' →
      r'.message.type = .RESPONSE ∧ r'.message ∈ s.received ∧ (r'.out = ⟨none, none⟩ ∨
        ∃ k c, Answers { s with ran, reply := some { r with pc := .ran } } r' k c) := by
    intro ran r' hr'
    obtain rfl := Option.some.inj hr'
    exact ⟨htype, hmem, .inr ⟨k, c, ha.registered, ha.id, ha.out, ha.taken,
      fun hne => absurd rfl hne, fun _ => ha.filled (by simp [hpc])⟩⟩
  cases hdone : c.args.done with
  | false =>
      have hout : r.out.done = none := by simp [ha.out, Call.outstanding, hdone]
      simp only [ChannelSystem.runDone, hr, hresponse, hout]
      exact ⟨h.calls.of_frame rfl rfl (fun _ hm => hm), h.replies.table, hreply _, h.replies.ran,
        h.replies.once⟩
  | true =>
      have hout : r.out.done = some k := by simp [ha.out, Call.outstanding, hdone]
      have hfresh := ha.fresh (by simp [hpc])
      simp only [ChannelSystem.runDone, hr, hresponse, hout]
      refine ⟨h.calls.of_frame rfl rfl (fun _ hm => hm), ⟨?_, hreply _, ?_, ?_⟩⟩
      · intro i out hi
        obtain ⟨j, d, hreg, hid, hout', hfresh'⟩ := h.replies.table i out hi
        refine ⟨j, d, hreg, hid, hout', ?_⟩
        intro hrun
        simp only [HasRun, List.map_append, List.map_cons, List.map_nil, List.mem_append,
          List.mem_singleton] at hrun
        rcases hrun with hrun | rfl
        · exact hfresh' hrun
        · -- the entry of this call was taken out of the table
          obtain rfl : d = c := Option.some.inj (hreg.1.symm.trans ha.registered.1)
          exact absurd (hid ▸ hi) (by simp [ha.taken])
      · intro j o hj
        rcases List.mem_append.mp hj with hj | hj
        · exact h.replies.ran j o hj
        · obtain ⟨rfl, rfl⟩ : j = k ∧ o = s.objects k := by simpa using hj
          exact ⟨c, r.message, ha.registered, ha.filled (by simp [hpc]), hmem, htype, ha.id.symm⟩
      · rw [List.map_append, List.map_cons, List.map_nil]
        exact List.nodup_append.mpr ⟨h.replies.once, List.pairwise_singleton _ _, by
          intro a ha' b hb
          obtain rfl := List.mem_singleton.mp hb
          rintro rfl
          exact hfresh ha'⟩

theorem inv_finishResponse (h : Inv s) {r : Reply} (hr : s.reply = some r) :
    Inv s.finishResponse := by
  simp only [ChannelSystem.finishResponse, hr]
  refine ⟨h.calls.of_frame rfl rfl (fun _ hm => hm), ⟨h.replies.table, ?_, h.replies.ran,
    h.replies.once⟩⟩
  intro r' hr'
  exact absurd hr' (by simp)

/-- Every step of every thread keeps the invariant. -/
theorem inv_step (h : Inv s) {a : Action} (ha : Legal s a) (hbound : Bounded s a)
    (hstep : step s a = .ok s') : Inv s' := by
  cases a with
  | allocateId args => exact Except.ok.inj hstep ▸ inv_allocateId h ha hbound
  | sendRequest k =>
      obtain ⟨c, hk, hpc⟩ := Option.map_eq_some_iff.mp ha
      exact Except.ok.inj hstep ▸ inv_sendRequest h hk hpc
  | insertOutstanding k =>
      obtain ⟨c, hk, hpc⟩ := Option.map_eq_some_iff.mp ha
      exact Except.ok.inj hstep ▸ inv_insertOutstanding h hk hpc
  | onRpcMessage conn message => exact inv_onRpcMessage h hstep
  | parseResponse =>
      obtain ⟨r, hr, hpc⟩ := Option.map_eq_some_iff.mp ha
      exact Except.ok.inj hstep ▸ inv_parseResponse h hr hpc
  | runDone =>
      obtain ⟨r, hr, hpc⟩ := Option.map_eq_some_iff.mp ha
      exact Except.ok.inj hstep ▸ inv_runDone h hr hpc
  | finishResponse =>
      obtain ⟨r, hr, _⟩ := Option.map_eq_some_iff.mp ha
      exact Except.ok.inj hstep ▸ inv_finishResponse h hr
  | doneCallback response id =>
      obtain rfl := Except.ok.inj hstep
      exact ⟨h.calls.of_frame rfl rfl (fun _ hm => List.mem_append_left _ hm),
        h.replies.of_frame (fun _ _ hreg => hreg) rfl rfl rfl rfl (fun _ hm => hm)⟩

end Steps

/-! ## No reply is duplicated or crossed -/

/-- A step that leaves every call, its response object and its closure alone. -/
def Untouched (s s' : ChannelSystem) : Prop :=
  s'.channel = s.channel ∧ s'.calls = s.calls ∧ s'.objects = s.objects ∧ s'.ran = s.ran

/-- No reply reaches a call that is not its own. -/
structure NotCrossed (s : ChannelSystem) : Prop where
  /-- the ids of distinct calls are distinct -/
  distinct : ∀ (j k : Nat) (c d : Call), s.calls[j]? = some c → s.calls[k]? = some d →
    c.id = d.id → j = k
  /-- no closure has run twice -/
  once : (s.ran.map Prod.fst).Nodup
  /-- a closure that ran saw the payload of a RESPONSE to its own REQUEST -/
  own : ∀ k o, (k, o) ∈ s.ran → ∃ c m, s.calls[k]? = some c ∧ c.requestMessage ∈ s.sent ∧
    o = some m ∧ m ∈ s.received ∧ m.type = .RESPONSE ∧ m.id = c.requestMessage.id
  /-- a RESPONSE with an unknown id finds nothing -/
  unknown : ∀ conn m s', m.type = .RESPONSE → s.channel.outstandings_ m.id = none →
    s.onRpcMessage conn m = .ok s' →
    Untouched s s' ∧ ∃ r, s'.reply = some r ∧ r.out = ⟨none, none⟩
  /-- and the rest of its handling does nothing -/
  ignored : ∀ r, s.reply = some r → r.out = ⟨none, none⟩ →
    Untouched s s.parseResponse ∧ Untouched s s.runDone ∧ Untouched s s.finishResponse

theorem unknown_untouched {s s' : ChannelSystem} {conn : Nat} {m : RpcMessage}
    (htype : m.type = .RESPONSE) (hunknown : s.channel.outstandings_ m.id = none)
    (hstep : s.onRpcMessage conn m = .ok s') :
    Untouched s s' ∧ ∃ r, s'.reply = some r ∧ r.out = ⟨none, none⟩ := by
  obtain ⟨_, rfl⟩ | ⟨hother, _⟩ := onRpcMessage_cases hstep
  · simp only [ChannelSystem.takeOutstanding, hunknown]
    exact ⟨⟨rfl, rfl, rfl, rfl⟩, _, rfl, rfl⟩
  · exact absurd htype hother

theorem ignored_untouched {s : ChannelSystem} {r : Reply} (hr : s.reply = some r)
    (hout : r.out = ⟨none, none⟩) :
    Untouched s s.parseResponse ∧ Untouched s s.runDone ∧ Untouched s s.finishResponse := by
  simp only [ChannelSystem.parseResponse, ChannelSystem.runDone, ChannelSystem.finishResponse, hr,
    hout]
  exact ⟨⟨rfl, rfl, rfl, rfl⟩, ⟨rfl, rfl, rfl, rfl⟩, ⟨rfl, rfl, rfl, rfl⟩⟩

theorem Inv.notCrossed {s : ChannelSystem} (h : Inv s) : NotCrossed s := by
  refine ⟨fun j k c d hj hk hid => h.calls.eq_of_id_eq hj hk hid, h.replies.once, ?_, ?_, ?_⟩
  · intro k o hk
    obtain ⟨c, m, hreg, ho, hmem, htype, hid⟩ := h.replies.ran k o hk
    have hsent := h.calls.sent k c hreg.1 (by simp [hreg.2])
    exact ⟨c, m, hreg.1, hsent, ho, hmem, htype, hid⟩
  · intro conn m s' htype hunknown hstep
    exact unknown_untouched htype hunknown hstep
  · intro r hr hout
    exact ignored_untouched hr hout

/-- In every interleaving of callers and loop thread, whatever messages arrive:
ids are distinct, closures run at most once and see a RESPONSE to their own
REQUEST, and RESPONSEs with unknown ids touch nothing. -/
theorem replies_not_crossed {conn : Nat} {services : Option (List UInt8 → Option Service)}
    {as : List Action} (hlegal : boundedMachine.LegalRun (start conn services) as)
    {s : ChannelSystem} (hrun : machine.run (start conn services) as = .ok s) : NotCrossed s := by
  have hrun' : boundedMachine.run (start conn services) as = .ok s := by
    rw [boundedMachine, Machine.run_restrict, hrun]
  have hinv : Inv s := @Machine.run_ok_invariant _ _ boundedMachine Inv
    (fun _ _ _ h ha hstep => inv_step h ha.1 ha.2 hstep) _ _
    (inv_start conn services) _ hlegal hrun'
  exact hinv.notCrossed

/-- A caller that waits for an answer. -/
def sampleArgs : CallArgs := ⟨[83], [77], [1], true, true⟩

/-- The answer to the request with the given id. -/
def sampleResponse (id : BitVec 64) : RpcMessage :=
  { type := .RESPONSE, id, response := some [2] }

/-- Two calls; the peer answers the second, repeats the answer, and answers a
request that was never made. -/
def sampleRun : List Action :=
  [.allocateId sampleArgs, .allocateId sampleArgs, .sendRequest 1, .sendRequest 0,
    .insertOutstanding 1, .onRpcMessage 9 (sampleResponse 2), .parseResponse, .insertOutstanding 0,
    .runDone, .finishResponse, .onRpcMessage 9 (sampleResponse 2), .parseResponse, .runDone,
    .finishResponse, .onRpcMessage 9 (sampleResponse 77), .parseResponse, .runDone,
    .finishResponse]

theorem replies_not_crossed_sampleRun :
    boundedMachine.LegalRun (start 9 none) sampleRun ∧
      ∃ s, machine.run (start 9 none) sampleRun = .ok s ∧ NotCrossed s := by
  have hlegal : boundedMachine.LegalRun (start 9 none) sampleRun := by decide +kernel
  obtain ⟨s, hrun, _⟩ := machine.exists_of_endsWith (start 9 none) sampleRun
    (fun s => s.ran.map Prod.fst = [1]) (by decide +kernel)
  exact ⟨hlegal, s, hrun, replies_not_crossed hlegal hrun⟩

end Muduo.Protorpc.RpcChannel
