/-
  Protorpc/RpcDelivery.lean --- whether a reply reaches its call.

  `CallMethod` sends the request before it inserts the call into `outstandings_`.
  In `response_lost_before_registration` the answer comes in between: the loop
  thread finds no entry and drops it, and the call is registered afterwards and
  stays in the table.  `responses_delivered` is what holds when no RESPONSE is
  looked up in that window: then a registered call has its entry, or its reply is
  in progress, or its closure has run (`ServedInv`).
-/
import Muduo.Protorpc.RpcReplies

set_option autoImplicit false

namespace Muduo.Protorpc.RpcChannel

open Muduo.Foundation Muduo.Base

/-! ## A peer that answers requests -/

/-- A RESPONSE that arrives bears the id of a request that was sent. -/
def AnswersSent (s : ChannelSystem) : Action → Prop
  | .onRpcMessage _ message =>
      message.type = .RESPONSE → ∃ c ∈ s.calls, c.id = message.id ∧ c.pc ≠ .allocated
  | _ => True

instance (s : ChannelSystem) (a : Action) : Decidable (AnswersSent s a) :=
  match a with
  | .onRpcMessage _ _ => inferInstanceAs (Decidable (_ → _))
  | .allocateId _ | .sendRequest _ | .insertOutstanding _ | .parseResponse | .runDone
  | .finishResponse | .doneCallback _ _ => inferInstanceAs (Decidable True)

/-- The interleavings of callers, loop thread and a peer that answers requests
already sent. -/
def answeringMachine : Machine ChannelSystem Action := machine.restrict AnswersSent

instance (s : ChannelSystem) (a : Action) : Decidable (answeringMachine.legal s a) :=
  inferInstanceAs (Decidable (Legal s a ∧ AnswersSent s a))

/-- Every call whose RESPONSE has been processed has run its closure and left the
table. -/
def Delivered (s : ChannelSystem) : Prop :=
  ∀ (k : Nat) (c : Call) (m : RpcMessage), s.calls[k]? = some c → m ∈ s.processed →
    m.id = c.id → (c.args.done = true → HasRun s k) ∧ s.channel.outstandings_ c.id = none

/-- The answer is processed between the sending of the request and the registration
of the call. -/
def overtakingRun : List Action :=
  [.allocateId sampleArgs, .sendRequest 0, .onRpcMessage 9 (sampleResponse 1), .parseResponse,
    .runDone, .finishResponse, .insertOutstanding 0]

/-- The closure has not run, and the call stays in `outstandings_`. -/
theorem response_lost_before_registration :
    answeringMachine.LegalRun (start 9 none) overtakingRun ∧
      ∃ s, machine.run (start 9 none) overtakingRun = .ok s ∧ ¬ Delivered s := by
  have hlegal : answeringMachine.LegalRun (start 9 none) overtakingRun := by decide +kernel
  obtain ⟨s, hrun, hs⟩ := machine.exists_of_endsWith (start 9 none) overtakingRun
    (fun s => s.calls[0]? = some ⟨sampleArgs, 1, .registered⟩ ∧
      s.processed = [sampleResponse 1] ∧ s.ran = []) (by decide +kernel)
  simp only [decide_eq_true_eq] at hs
  obtain ⟨hcall, hprocessed, hran⟩ := hs
  refine ⟨hlegal, s, hrun, ?_⟩
  intro hdelivered
  have hhasRun := (hdelivered 0 _ (sampleResponse 1) hcall (by simp [hprocessed]) rfl).1 rfl
  simp [HasRun, hran] at hhasRun

/-! ## When no answer overtakes its registration -/

/-- No RESPONSE is looked up while a call with its id is sent and not registered. -/
def NotEarly (s : ChannelSystem) : Action → Prop
  | .onRpcMessage _ message =>
      message.type = .RESPONSE → ∀ c ∈ s.calls, c.id = message.id → c.pc ≠ .sent
  | _ => True

instance (s : ChannelSystem) (a : Action) : Decidable (NotEarly s a) :=
  match a with
  | .onRpcMessage _ _ => inferInstanceAs (Decidable (_ → _))
  | .allocateId _ | .sendRequest _ | .insertOutstanding _ | .parseResponse | .runDone
  | .finishResponse | .doneCallback _ _ => inferInstanceAs (Decidable True)

/-- The schedules without such a lookup, in which ids do not wrap around. -/
def timelyMachine : Machine ChannelSystem Action :=
  answeringMachine.restrict fun s a => Bounded s a ∧ NotEarly s a

instance (s : ChannelSystem) (a : Action) : Decidable (timelyMachine.legal s a) :=
  inferInstanceAs (Decidable ((Legal s a ∧ AnswersSent s a) ∧ Bounded s a ∧ NotEarly s a))

/-- Call `k` has left the table, and its closure, if it has one, has run. -/
structure Completed (s : ChannelSystem) (k : Nat) (c : Call) : Prop where
  taken : s.channel.outstandings_ c.id = none
  hasRun : c.args.done = true → HasRun s k

/-- Where the reply to a registered call is. -/
structure ServedInv (s : ChannelSystem) : Prop where
  processed : ∀ m ∈ s.processed, ∃ k c, Registered s k c ∧ c.id = m.id ∧ Completed s k c
  reply : ∀ r, s.reply = some r → ∃ k c, Registered s k c ∧ c.id = r.message.id ∧
    s.channel.outstandings_ c.id = none ∧
    (r.out = c.outstanding k ∧ (r.pc = .ran → c.args.done = true → HasRun s k) ∨ Completed s k c)
  registered : ∀ k c, Registered s k c → s.channel.outstandings_ c.id = some (c.outstanding k) ∨
    Completed s k c ∨ ∃ r, s.reply = some r ∧ r.message.id = c.id

theorem ServedInv.delivered {s : ChannelSystem} (h : ServedInv s) (hinv : Inv s) :
    Delivered s := by
  intro k c m hk hm hid
  obtain ⟨j, d, hreg, hid', hcompleted⟩ := h.processed m hm
  obtain rfl := hinv.calls.eq_of_id_eq hreg.1 hk (hid'.trans hid)
  obtain rfl : d = c := Option.some.inj (hreg.1.symm.trans hk)
  exact ⟨hcompleted.hasRun, hcompleted.taken⟩

section Steps

variable {s s' : ChannelSystem}

theorem Completed.of_frame {k : Nat} {c : Call} (h : Completed s k c)
    (htable : s'.channel.outstandings_ c.id = s.channel.outstandings_ c.id)
    (hran : HasRun s k → HasRun s' k) : Completed s' k c :=
  ⟨htable.trans h.taken, fun hdone => hran (h.hasRun hdone)⟩

/-- A step that leaves the registered calls, the table, the reply and the histories
of replies alone. -/
theorem ServedInv.of_frame (h : ServedInv s)
    (hregistered : ∀ k c, Registered s' k c ↔ Registered s k c)
    (htable : s'.channel.outstandings_ = s.channel.outstandings_) (hreply : s'.reply = s.reply)
    (hran : s'.ran = s.ran) (hprocessed : s'.processed = s.processed) : ServedInv s' := by
  have hhasRun : ∀ k, HasRun s k → HasRun s' k := fun k hk => by rwa [HasRun, hran]
  have hcompleted : ∀ k c, Completed s k c → Completed s' k c :=
    fun k c hc => hc.of_frame (by rw [htable]) (hhasRun k)
  refine ⟨?_, ?_, ?_⟩
  · intro m hm
    obtain ⟨k, c, hreg, hid, hc⟩ := h.processed m (hprocessed ▸ hm)
    exact ⟨k, c, (hregistered k c).mpr hreg, hid, hcompleted k c hc⟩
  · intro r hr
    obtain ⟨k, c, hreg, hid, htaken, hout⟩ := h.reply r (hreply ▸ hr)
    refine ⟨k, c, (hregistered k c).mpr hreg, hid, by rw [htable, htaken], ?_⟩
    exact hout.imp (fun ho => ⟨ho.1, fun hpc hdone => hhasRun k (ho.2 hpc hdone)⟩) (hcompleted k c)
  · intro k c hreg
    rw [htable, hreply]
    exact (h.registered k c ((hregistered k c).mp hreg)).imp_right (.imp_left (hcompleted k c))

/-- Moving a call to a point before its registration. -/
theorem registered_setPc_iff {k : Nat} {c : Call} {pc : CallPc} (hk : s.calls[k]? = some c)
    (hold : c.pc ≠ .registered) (hnew : pc ≠ .registered) (j : Nat) (d : Call) :
    Registered (s.setPc k pc) j d ↔ Registered s j d := by
  constructor
  · intro hd
    obtain ⟨c', hc', _, _, ⟨_, hpc⟩ | ⟨_, rfl⟩⟩ := calls_setPc hd.1
    · exact absurd (hpc.symm.trans hd.2) hnew
    · exact ⟨hc', hd.2⟩
  · intro hd
    exact registered_setPc hk hold hd

theorem served_allocateId (h : ServedInv s) (args : CallArgs) : ServedInv (s.allocateId args) := by
  refine h.of_frame ?_ rfl rfl rfl rfl
  intro k c
  simp only [Registered, ChannelSystem.allocateId]
  constructor
  · rintro ⟨hk, hpc⟩
    refine ⟨?_, hpc⟩
    by_cases hlt : k < s.calls.length
    · rwa [List.getElem?_append_left hlt] at hk
    · -- the new call is not registered
      rw [List.getElem?_append_right (Nat.not_lt.mp hlt)] at hk
      have hnew : c ∈ [Call.mk args (s.channel.id_ + 1) .allocated] := List.mem_of_getElem? hk
      obtain rfl := List.mem_singleton.mp hnew
      exact absurd hpc (by simp)
  · rintro ⟨hk, hpc⟩
    obtain ⟨hlt, _⟩ := List.getElem?_eq_some_iff.mp hk
    exact ⟨by rwa [List.getElem?_append_left hlt], hpc⟩

theorem served_sendRequest (h : ServedInv s) {k : Nat} {c : Call} (hk : s.calls[k]? = some c)
    (hpc : c.pc = .allocated) : ServedInv (s.sendRequest k) := by
  simp only [ChannelSystem.sendRequest, hk]
  exact h.of_frame (registered_setPc_iff hk (by simp [hpc]) (by simp)) rfl rfl rfl rfl

/-- Registration puts the call's entry into the table. -/
theorem served_insertOutstanding (h : ServedInv s) (hinv : Inv s) {k : Nat} {c : Call}
    (hk : s.calls[k]? = some c) (hpc : c.pc = .sent) : ServedInv (s.insertOutstanding k) := by
  have hother : ∀ j d, Registered s j d → d.id ≠ c.id :=
    fun j d hd => hinv.calls.registered_id_ne hk (by simp [hpc]) hd
  simp only [ChannelSystem.insertOutstanding, hk]
  have hregistered : ∀ j d, Registered s j d → Registered (s.setPc k .registered) j d :=
    fun j d hd => registered_setPc hk (by simp [hpc]) hd
  have htable : ∀ j d, Registered s j d →
      Function.update s.channel.outstandings_ c.id (some (c.outstanding k)) d.id =
        s.channel.outstandings_ d.id :=
    fun j d hd => Function.update_of_ne (hother j d hd) _ _
  refine ⟨?_, ?_, ?_⟩
  · intro m hm
    obtain ⟨j, d, hd, hid, hc⟩ := h.processed m hm
    exact ⟨j, d, hregistered j d hd, hid, hc.of_frame (htable j d hd) id⟩
  · intro r hr
    obtain ⟨j, d, hd, hid, htaken, hout⟩ := h.reply r hr
    refine ⟨j, d, hregistered j d hd, hid, (htable j d hd).trans htaken, ?_⟩
    exact hout.imp_right fun hc => hc.of_frame (htable j d hd) id
  · intro j d hd
    obtain ⟨c', hc', hargs, hid, ⟨rfl, _⟩ | ⟨_, rfl⟩⟩ := calls_setPc hd.1
    · obtain rfl : c = c' := Option.some.inj (hk.symm.trans hc')
      left
      simp [hid, Call.outstanding, hargs]
    · have hd' : Registered s j d := ⟨hc', hd.2⟩
      exact (h.registered j d hd').imp (fun hentry => (htable j d hd').trans hentry)
        (.imp_left fun hc => hc.of_frame (htable j d hd') id)

/-- A RESPONSE to a registered call finds its entry, unless it was answered
before. -/
theorem served_takeOutstanding (h : ServedInv s) (hinv : Inv s) {message : RpcMessage}
    {k : Nat} {c : Call} (hreg : Registered s k c) (hid : c.id = message.id)
    (hidle : s.reply = none) : ServedInv (s.takeOutstanding message) := by
  rcases hentry : s.channel.outstandings_ message.id with _ | out
  · simp only [ChannelSystem.takeOutstanding, hentry]
    have hcompleted : Completed s k c := by
      rcases h.registered k c hreg with hsome | hc | ⟨r, hr, _⟩
      · rw [hid, hentry] at hsome
        exact absurd hsome (by simp)
      · exact hc
      · exact absurd (hidle.symm.trans hr) (by simp)
    refine ⟨?_, ?_, ?_⟩
    · intro m hm
      obtain ⟨j, d, hd, hid', hc⟩ := h.processed m hm
      exact ⟨j, d, hd, hid', hc.of_frame rfl id⟩
    · intro r hr
      obtain rfl := Option.some.inj hr
      exact ⟨k, c, hreg, hid, hcompleted.taken, .inr (hcompleted.of_frame rfl id)⟩
    · intro j d hd
      rcases h.registered j d hd with hsome | hc | ⟨r, hr, _⟩
      · exact .inl hsome
      · exact .inr (.inl (hc.of_frame rfl id))
      · exact absurd (hidle.symm.trans hr) (by simp)
  · simp only [ChannelSystem.takeOutstanding, hentry]
    have hout : out = c.outstanding k := by
      obtain ⟨j, d, hd, hid', hout, _⟩ := hinv.replies.table message.id out hentry
      obtain rfl := hinv.calls.eq_of_id_eq hd.1 hreg.1 (hid'.trans hid.symm)
      obtain rfl : d = c := Option.some.inj (hd.1.symm.trans hreg.1)
      exact hout
    have htaken : ∀ i, s.channel.outstandings_ i = none →
        Function.update s.channel.outstandings_ message.id none i = none := by
      intro i hi
      by_cases hne : i = message.id
      · rw [hne, Function.update_self]
      · rw [Function.update_of_ne hne, hi]
    refine ⟨?_, ?_, ?_⟩
    · intro m hm
      obtain ⟨j, d, hd, hid', hc⟩ := h.processed m hm
      exact ⟨j, d, hd, hid', htaken _ hc.taken, hc.hasRun⟩
    · intro r hr
      obtain rfl := Option.some.inj hr
      refine ⟨k, c, hreg, hid, ?_, .inl ⟨hout, fun hpc => absurd hpc (by simp)⟩⟩
      simp [hid]
    · intro j d hd
      by_cases hne : d.id = message.id
      · exact .inr (.inr ⟨_, rfl, hne.symm⟩)
      · rcases h.registered j d hd with hsome | hc | ⟨r, hr, _⟩
        · exact .inl (by simpa [Function.update_of_ne hne] using hsome)
        · exact .inr (.inl ⟨htaken _ hc.taken, hc.hasRun⟩)
        · exact absurd (hidle.symm.trans hr) (by simp)

theorem served_onRpcMessage (h : ServedInv s) (hinv : Inv s) {conn : Nat} {message : RpcMessage}
    (hidle : s.reply = none)
    (hanswers : message.type = .RESPONSE → ∃ c ∈ s.calls, c.id = message.id ∧ c.pc ≠ .allocated)
    (htimely : message.type = .RESPONSE → ∀ c ∈ s.calls, c.id = message.id → c.pc ≠ .sent)
    (hstep : s.onRpcMessage conn message = .ok s') : ServedInv s' := by
  have hreceive : ∀ serviceCalls,
      ServedInv { s with received := s.received ++ [message], serviceCalls } :=
    fun _ => h.of_frame (fun _ _ => Iff.rfl) rfl rfl rfl rfl
  obtain ⟨htype, rfl⟩ | ⟨_, serviceCalls, rfl⟩ := onRpcMessage_cases hstep
  · obtain ⟨c, hmem, hid, hpc⟩ := hanswers htype
    obtain ⟨k, hk⟩ := List.mem_iff_getElem?.mp hmem
    have hregistered : c.pc = .registered := by
      have hsent := htimely htype c hmem hid
      cases hc : c.pc with
      | allocated => exact absurd hc hpc
      | sent => exact absurd hc hsent
      | registered => rfl
    exact served_takeOutstanding (hreceive s.serviceCalls) (inv_receive hinv message s.serviceCalls)
      (show Registered _ k c from ⟨hk, hregistered⟩) hid hidle
  · exact hreceive serviceCalls

/-- The rest of the handling of a RESPONSE: the reply moves on, and closures may
run. -/
theorem ServedInv.of_reply (h : ServedInv s) {r r' : Reply}
    (hr : s.reply = some r) (hr' : s'.reply = some r') (hmessage : r'.message = r.message)
    (hout : r'.out = r.out) (hcalls : s'.calls = s.calls)
    (htable : s'.channel.outstandings_ = s.channel.outstandings_)
    (hprocessed : s'.processed = s.processed) (hran : ∀ k, HasRun s k → HasRun s' k)
    (hrun : r'.pc = .ran → ∀ k c, Registered s k c → r.out = c.outstanding k →
      c.args.done = true → HasRun s' k) : ServedInv s' := by
  have hcompleted : ∀ k c, Completed s k c → Completed s' k c :=
    fun k c hc => hc.of_frame (by rw [htable]) (hran k)
  refine ⟨?_, ?_, ?_⟩
  · intro m hm
    obtain ⟨k, c, hreg, hid, hc⟩ := h.processed m (hprocessed ▸ hm)
    exact ⟨k, c, registered_of_calls_eq hcalls hreg, hid, hcompleted k c hc⟩
  · intro r'' hr''
    obtain rfl : r' = r'' := Option.some.inj (hr'.symm.trans hr'')
    obtain ⟨k, c, hreg, hid, htaken, hout' | hc⟩ := h.reply r hr
    · exact ⟨k, c, registered_of_calls_eq hcalls hreg, by rw [hmessage, hid],
        by rw [htable, htaken],
        .inl ⟨hout.trans hout'.1, fun hpc hdone => hrun hpc k c hreg hout'.1 hdone⟩⟩
    · exact ⟨k, c, registered_of_calls_eq hcalls hreg, by rw [hmessage, hid],
        by rw [htable, htaken],
        .inr (hcompleted k c hc)⟩
  · intro k c hreg
    rcases h.registered k c (registered_of_calls_eq hcalls.symm hreg) with hsome | hc | ⟨r₀,
      hr₀, hid⟩
    · exact .inl (by rw [htable, hsome])
    · exact .inr (.inl (hcompleted k c hc))
    · obtain rfl : r = r₀ := Option.some.inj (hr.symm.trans hr₀)
      exact .inr (.inr ⟨r', hr', by rw [hmessage, hid]⟩)

theorem served_parseResponse (h : ServedInv s) {r : Reply}
    (hr : s.reply = some r) : ServedInv s.parseResponse := by
  have hreply : s.parseResponse.reply = some { r with pc := .parsed } := by
    simp only [ChannelSystem.parseResponse, hr]
  refine h.of_reply hr hreply rfl rfl ?_ ?_ ?_ ?_ (fun hpc => absurd hpc (by simp))
  all_goals simp only [ChannelSystem.parseResponse, hr]
  exact fun k hk => hk

theorem served_runDone (h : ServedInv s) (hinv : Inv s) {r : Reply} (hr : s.reply = some r) :
    ServedInv s.runDone := by
  have hreply : s.runDone.reply = some { r with pc := .ran } := by
    simp only [ChannelSystem.runDone, hr]
  refine h.of_reply hr hreply rfl rfl ?_ ?_ ?_ ?_ ?_
  · simp only [ChannelSystem.runDone, hr]
  · simp only [ChannelSystem.runDone, hr]
  · simp only [ChannelSystem.runDone, hr]
  · intro k hk
    simp only [ChannelSystem.runDone, hr, HasRun]
    split
    · rw [List.map_append]
      exact List.mem_append_left _ hk
    · exact hk
  · intro _ k c hreg hout hdone
    have hresponse := hinv.calls.response k c hreg.1
    simp [ChannelSystem.runDone, hr, HasRun, hout, Call.outstanding, hresponse, hdone]

theorem served_finishResponse (h : ServedInv s) (hinv : Inv s) {r : Reply}
    (hr : s.reply = some r) (hpc : r.pc = .ran) : ServedInv s.finishResponse := by
  simp only [ChannelSystem.finishResponse, hr]
  obtain ⟨k, c, hreg, hid, htaken, hout⟩ := h.reply r hr
  have hcompleted : Completed s k c := by
    rcases hout with ⟨_, hrun⟩ | hc
    · exact ⟨htaken, hrun hpc⟩
    · exact hc
  refine ⟨?_, ?_, ?_⟩
  · intro m hm
    rcases List.mem_append.mp hm with hm | hm
    · obtain ⟨j, d, hd, hid', hc⟩ := h.processed m hm
      exact ⟨j, d, hd, hid', hc.of_frame rfl id⟩
    · obtain rfl := List.mem_singleton.mp hm
      exact ⟨k, c, hreg, hid, hcompleted.of_frame rfl id⟩
  · intro r' hr'
    exact absurd hr' (by simp)
  · intro j d hd
    rcases h.registered j d hd with hsome | hc | ⟨r', hr', hid'⟩
    · exact .inl hsome
    · exact .inr (.inl (hc.of_frame rfl id))
    · -- the reply that has just finished was the one to this call
      obtain rfl : r = r' := Option.some.inj (hr.symm.trans hr')
      obtain rfl := hinv.calls.eq_of_id_eq hreg.1 hd.1 (hid.trans hid')
      obtain rfl : c = d := Option.some.inj (hreg.1.symm.trans hd.1)
      exact .inr (.inl (hcompleted.of_frame rfl id))

theorem served_step (h : ServedInv s) (hinv : Inv s) {a : Action} (ha : Legal s a)
    (hanswers : AnswersSent s a) (htimely : NotEarly s a) (hstep : step s a = .ok s') :
    ServedInv s' := by
  cases a with
  | allocateId args => exact Except.ok.inj hstep ▸ served_allocateId h args
  | sendRequest k =>
      obtain ⟨c, hk, hpc⟩ := Option.map_eq_some_iff.mp ha
      exact Except.ok.inj hstep ▸ served_sendRequest h hk hpc
  | insertOutstanding k =>
      obtain ⟨c, hk, hpc⟩ := Option.map_eq_some_iff.mp ha
      exact Except.ok.inj hstep ▸ served_insertOutstanding h hinv hk hpc
  | onRpcMessage conn message => exact served_onRpcMessage h hinv ha hanswers htimely hstep
  | parseResponse =>
      obtain ⟨r, hr, _⟩ := Option.map_eq_some_iff.mp ha
      exact Except.ok.inj hstep ▸ served_parseResponse h hr
  | runDone =>
      obtain ⟨r, hr, _⟩ := Option.map_eq_some_iff.mp ha
      exact Except.ok.inj hstep ▸ served_runDone h hinv hr
  | finishResponse =>
      obtain ⟨r, hr, hpc⟩ := Option.map_eq_some_iff.mp ha
      exact Except.ok.inj hstep ▸ served_finishResponse h hinv hr hpc
  | doneCallback response id =>
      obtain rfl := Except.ok.inj hstep
      exact h.of_frame (fun _ _ => Iff.rfl) rfl rfl rfl rfl

end Steps

theorem served_start (conn : Nat) (services : Option (List UInt8 → Option Service)) :
    ServedInv (start conn services) := by
  refine ⟨?_, ?_, ?_⟩
  · intro m hm
    simp [start] at hm
  · intro r hr
    simp [start] at hr
  · intro k c hreg
    simp [Registered, start] at hreg

/-- In every interleaving in which no RESPONSE is looked up between the sending of
its request and the registration of its call, a call whose RESPONSE has been
processed has run its closure and left the table. -/
theorem responses_delivered {conn : Nat} {services : Option (List UInt8 → Option Service)}
    {as : List Action} (hlegal : timelyMachine.LegalRun (start conn services) as)
    {s : ChannelSystem} (hrun : machine.run (start conn services) as = .ok s) : Delivered s := by
  have hrun' : timelyMachine.run (start conn services) as = .ok s := by
    rw [timelyMachine, Machine.run_restrict, answeringMachine, Machine.run_restrict, hrun]
  obtain ⟨hinv, hserved⟩ := @Machine.run_ok_invariant _ _ timelyMachine
    (fun s => Inv s ∧ ServedInv s)
    (fun _ _ _ h ha hstep => ⟨inv_step h.1 ha.1.1 ha.2.1 hstep,
      served_step h.2 h.1 ha.1.1 ha.1.2 ha.2.2 hstep⟩)
    _ _ ⟨inv_start conn services, served_start conn services⟩ _ hlegal hrun'
  exact hserved.delivered hinv

/-- The call is registered before its answer is looked up. -/
def timelyRun : List Action :=
  [.allocateId sampleArgs, .sendRequest 0, .insertOutstanding 0,
    .onRpcMessage 9 (sampleResponse 1), .parseResponse, .runDone, .finishResponse]

theorem responses_delivered_timelyRun :
    timelyMachine.LegalRun (start 9 none) timelyRun ∧
      ∃ s, machine.run (start 9 none) timelyRun = .ok s ∧ Delivered s := by
  have hlegal : timelyMachine.LegalRun (start 9 none) timelyRun := by decide +kernel
  obtain ⟨s, hrun, _⟩ := machine.exists_of_endsWith (start 9 none) timelyRun
    (fun s => s.ran.map Prod.fst = [0]) (by decide +kernel)
  exact ⟨hlegal, s, hrun, responses_delivered hlegal hrun⟩

end Muduo.Protorpc.RpcChannel
