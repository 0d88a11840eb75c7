/-
  Protorpc/RpcLink.lean --- two RPC endpoints over one TCP connection.

  At each end the message callback of the connection is `RpcCodec::onMessage`, and what is
  sent are the buffers of `RpcCodec::send`.  `messages_arrive_in_order` puts Net/TcpLink.lean
  and the framing together: whatever the kernel does with the bytes, the state of a codec's
  user is the one that it would have if the peer's messages were handed to it directly.  So,
  until a write side is shut down or closed, the RPC layer may be looked at as if it exchanged
  messages through two queues.
-/
import Muduo.Net.TcpLink
import Muduo.Protorpc.RpcFraming

set_option autoImplicit false

namespace Muduo.Protorpc.RpcLink

open Muduo.Foundation Muduo.Base Muduo.Net Muduo.Protorpc.RpcCodec

variable {σ : Type}

/-- What `RpcCodec::send` puts on the connection for a message that it can carry. -/
def SendsAs (lib : RpcLibrary) (message : RpcMessage) (bytes : List UInt8) : Prop :=
  Carries lib message ∧ ∃ b, RpcCodec.send lib message = .ok b ∧ b.contents = bytes

/-- Both ends send what `RpcCodec::send` makes. -/
def Framed (lib : RpcLibrary) (bytes : List UInt8) : Prop := ∃ message, SendsAs lib message bytes

/-- `RpcCodec::onMessage` as the message callback of a connection.  Every round of its loop
but the last takes a frame out of the buffer. -/
def messageCallback (lib : RpcLibrary) (codec : RpcCodec σ) (receiveTime : Timestamp) (user : σ)
    (b : Buffer) : Exec (σ × Buffer) :=
  RpcCodec.onMessage lib codec receiveTime (b.readableBytes + 1) (user, b)

/-- Hand messages to the user of a codec. -/
def handOver (codec : RpcCodec σ) (receiveTime : Timestamp) (user : σ) (ms : List RpcMessage) : σ :=
  ms.foldl (fun user m => codec.messageCallback_ user m receiveTime) user

theorem handOver_concat (codec : RpcCodec σ) (receiveTime : Timestamp) (user : σ)
    (ms : List RpcMessage) (m : RpcMessage) :
    handOver codec receiveTime user (ms ++ [m]) =
      codec.messageCallback_ (handOver codec receiveTime user ms) m receiveTime := by
  rw [handOver, List.foldl_append]
  rfl

section Receiving

variable {lib : RpcLibrary} {codec : RpcCodec σ} {receiveTime : Timestamp} {user : σ}

theorem sendsAs_encode {message : RpcMessage} {bytes : List UInt8} (h : SendsAs lib message bytes) :
    Carries lib message ∧ encode lib message = bytes := by
  obtain ⟨hcarries, b, hb, hbytes⟩ := h
  obtain ⟨b', hb', hencode⟩ := send_spec hcarries.roundTrips hcarries.size
  obtain rfl : b = b' := Except.ok.inj (hb.symm.trans hb')
  exact ⟨hcarries, hencode.symm.trans hbytes⟩

/-- The frames on the connection are the encodings of messages. -/
theorem exists_messages {sent : List (List UInt8)} (h : ∀ bytes ∈ sent, Framed lib bytes) :
    ∃ ms, List.Forall₂ (SendsAs lib) ms sent := by
  induction sent with
  | nil => exact ⟨[], .nil⟩
  | cons bytes sent ih =>
      obtain ⟨m, hm⟩ := h bytes List.mem_cons_self
      obtain ⟨ms, hms⟩ := ih fun bytes' hmem => h bytes' (List.mem_cons_of_mem _ hmem)
      exact ⟨m :: ms, .cons hm hms⟩

theorem flatten_of_sendsAs {ms : List RpcMessage} {sent : List (List UInt8)}
    (h : List.Forall₂ (SendsAs lib) ms sent) :
    (∀ m ∈ ms, Carries lib m) ∧ sent = ms.map (encode lib) := by
  induction h with
  | nil => exact ⟨fun m hm => absurd hm List.not_mem_nil, rfl⟩
  | cons hm _ ih =>
      obtain ⟨hcarries, hencode⟩ := sendsAs_encode hm
      refine ⟨fun m' hm' => ?_, by rw [List.map_cons, hencode, ih.2]⟩
      rcases List.mem_cons.mp hm' with rfl | hm'
      · exact hcarries
      · exact ih.1 m' hm'

/-- A receiver that has handed over some messages and has some bytes in its buffer. -/
structure Position (codec : RpcCodec σ) (receiveTime : Timestamp) (user : σ) (t : σ × Buffer)
    (ms : List RpcMessage) (xs : List UInt8) : Prop where
  buffer : t.2.Inv
  contents : t.2.contents = xs
  state : t.1 = handOver codec receiveTime user ms

/-- A whole stream leaves no frame unfinished. -/
theorem take_of_stream_eq {ms : List RpcMessage} {k : Nat} {rest : List UInt8}
    (hall : stream lib (ms.take k) ++ rest = stream lib ms)
    (hlast : ∀ m ∈ ms[k]?, rest.length < (encode lib m).length) : ms.take k = ms ∧ rest = [] := by
  have hsplit : stream lib ms = stream lib (ms.take k) ++ stream lib (ms.drop k) := by
    rw [stream, stream, stream, ← List.flatMap_append, List.take_append_drop]
  have hrest : rest = stream lib (ms.drop k) := List.append_cancel_left (hall.trans hsplit)
  rcases hdrop : ms.drop k with _ | ⟨m, more⟩
  · rw [hdrop] at hrest
    exact ⟨List.take_of_length_le (List.drop_eq_nil_iff.mp hdrop), hrest⟩
  · have hget : ms[k]? = some m := by
      rw [← List.head?_drop, hdrop]
      rfl
    have hlt := hlast m hget
    rw [hrest, hdrop, stream, List.flatMap_cons, List.length_append] at hlt
    omega

/-- Where the receiver is after some bytes: the messages whose frames are complete are handed
over, and it waits for the rest of the next one. -/
def Heard (lib : RpcLibrary) (codec : RpcCodec σ) (receiveTime : Timestamp) (user : σ)
    (xs : List UInt8) (s : σ) (b : Buffer) : Prop :=
  ∃ ms rest, (frames lib).Drains [] xs ⟨ms, rest, false⟩ ∧
    Position codec receiveTime user (s, b) ms rest

/-- One call of `onMessage` takes the decoder's steps. -/
theorem onMessage_of_drains {t : σ × Buffer} {ms : List RpcMessage} {xs : List UInt8}
    {p : Progress (List RpcMessage) UInt8} (ht : Position codec receiveTime user t ms xs)
    (h : (frames lib).Drains ms xs p) (hp : p.stopped = false) :
    ∃ t', messageCallback lib codec receiveTime t.1 t.2 = .ok t' ∧
      Position codec receiveTime user t' p.state p.rest := by
  have hrun : ∃ t', Loop.run (onMessageBody lib codec receiveTime) (xs.length + 1) t = .ok t' ∧
      Position codec receiveTime user t' p.state p.rest := by
    refine Decoder.run_of_drains (Position codec receiveTime user)
      (fun t p => Position codec receiveTime user t p.state p.rest) ?_ ?_ ?_ h ht
    · rintro ⟨u, b⟩ ms xs ⟨hb, rfl, hu⟩ hstep
      rcases hframe : frameAt lib b.contents with _ | e | ⟨message, size⟩
      · exact ⟨(u, b), onMessageBody_of_incomplete hb hframe, hb, rfl, hu⟩
      · simp [frames, hframe] at hstep
      · simp [frames, hframe] at hstep
    · rintro ⟨u, b⟩ ms xs ms' n ⟨hb, rfl, hu⟩ hstep
      rcases hframe : frameAt lib b.contents with _ | e | ⟨message, size⟩
      · simp [frames, hframe] at hstep
      · simp [frames, hframe] at hstep
      · obtain ⟨rfl, rfl⟩ : ms ++ [message] = ms' ∧ size = n := by
          simpa [frames, hframe] using hstep
        obtain ⟨b', hbody, hinv, hcontents⟩ := onMessageBody_of_good hb hframe
        refine ⟨_, hbody, hinv, hcontents, ?_⟩
        -- the message joins those handed over
        rw [handOver_concat, ← hu]
    · intro hstopped
      exact absurd (hp.symm.trans hstopped) (by simp)
  rw [← ht.contents, Buffer.contents_length ht.buffer] at hrun
  exact hrun

/-- The codec hears a stream of frames. -/
theorem hears_codec :
    TcpLink.Hears (messageCallback lib codec receiveTime) (Framed lib) user
      (Heard lib codec receiveTime user) where
  start := ⟨[], [], .wait rfl, Buffer.new_spec.1, Buffer.new_spec.2.1, rfl⟩
  buffer := by
    rintro xs s b ⟨ms, rest, _, hposition⟩
    exact hposition.buffer
  receive := by
    rintro xs bytes s b b' sent ⟨ms, rest, hdrains, hposition⟩ hsent hpre hb' hcontents
    obtain ⟨all, hall⟩ := exists_messages hsent
    obtain ⟨hcarries, rfl⟩ := flatten_of_sendsAs hall
    rw [← List.flatMap_def] at hpre
    obtain ⟨k, rest', hnow, _, _⟩ := drains_stream hcarries [] hpre
    -- draining all bytes is draining the new ones behind the old ones
    obtain ⟨q, hq⟩ := (frames lib).exists_drains ms (rest ++ bytes)
    obtain rfl := ((hdrains.append bytes).2 rfl q hq).unique hnow
    have hposition' : Position codec receiveTime user (s, b') ms (rest ++ bytes) :=
      ⟨hb', by rw [hcontents, hposition.contents], hposition.state⟩
    obtain ⟨⟨s', b''⟩, hcallback, hafter⟩ := onMessage_of_drains hposition' hq rfl
    exact ⟨s', b'', hcallback, _, _, hnow, hafter⟩

end Receiving

/-! ## End to end -/

/-- In every run of two endpoints over one connection, in each direction: the messages whose
frames are given to `sendInLoop` are `ms` and, behind these, those whose `sendInLoop` runs when
the write side is shut down or closed, which are dropped.  The user of the receiver is where it
would be if the first `k` of `ms` had been handed to it directly, `k` being the number of frames
that have arrived completely; and it is all of `ms` when the receiver has seen the end of a
stream that `shutdown()` ended. -/
theorem messages_arrive_in_order {lib : RpcLibrary} {codec : RpcCodec σ} {receiveTime : Timestamp}
    {user : σ} {conns : TcpLink.Side → TcpConnection}
    (hconns : ∀ i, TcpLink.Established (conns i)) {as : List (TcpLink.Side × TcpLink.Action)}
    (hlegal : (TcpLink.machine (messageCallback lib codec receiveTime) (Framed lib)).LegalRun
      (TcpLink.start user conns) as) :
    ∃ s, (TcpLink.machine (messageCallback lib codec receiveTime) (Framed lib)).run
        (TcpLink.start user conns) as = .ok s ∧
      ∀ i : TcpLink.Side, ∀ p q, s i = p → s i.peer = q →
        ∃ ms dropped k, List.Forall₂ (SendsAs lib) (ms ++ dropped)
          (as.flatMap (TcpLink.givenBy i)) ∧
          List.Forall₂ (SendsAs lib) ms p.sent ∧
          (dropped ≠ [] → TcpLink.Frozen p.conn) ∧
          q.user = handOver codec receiveTime user (ms.take k) ∧
          q.received.flatten = (p.sent.take k).flatten ++ q.inputBuffer_.contents ∧
          (∀ frame ∈ p.sent[k]?, q.inputBuffer_.contents.length < frame.length) ∧
          (q.eof = true → SockCall.shutdownWrite [] ∈ p.conn.socket_.calls →
            ms.take k = ms ∧ q.inputBuffer_.contents = []) := by
  have hlaw : TcpLink.Hears (messageCallback lib codec receiveTime) (Framed lib) user
      (Heard lib codec receiveTime user) := hears_codec
  obtain ⟨s, hrun, hinv, hgiven⟩ := TcpLink.given_run hlaw hconns hlegal
  refine ⟨s, hrun, fun i p q hp hq => ?_⟩
  subst hp hq
  have hflow := hinv.flow i
  have hsendable := (hinv.ends i).sendable
  obtain ⟨ms, hms⟩ := exists_messages fun m hm => hsendable m (List.mem_append_left _ hm)
  obtain ⟨dropped, hdropped⟩ := exists_messages fun m hm => hsendable m (List.mem_append_right _ hm)
  obtain ⟨hcarries, hsent⟩ := flatten_of_sendsAs hms
  obtain ⟨ms', rest, hdrains, _, hrest, hstate⟩ := (hinv.ends i.peer).heard
  have hpre : (s i.peer).received.flatten <+: stream lib ms := by
    rw [stream, List.flatMap_def, ← hsent]
    exact hflow.inOrder
  obtain ⟨k, rest', hnow, hbytes, hlast⟩ := drains_stream hcarries [] hpre
  obtain ⟨hms', hrest'⟩ : ms' = ms.take k ∧ rest = rest' := by
    simpa using hdrains.unique hnow
  subst hms' hrest' hrest
  have htake : ((s i).sent.take k).flatten = stream lib (ms.take k) := by
    rw [hsent, ← List.map_take, stream, List.flatMap_def]
  refine ⟨ms, dropped, k, hgiven i ▸ List.rel_append hms hdropped, hms, fun hne => ?_, hstate,
    by rw [htake, hbytes], ?_, fun heof hshut => ?_⟩
  · refine (hinv.ends i).late fun hnone => hne ?_
    rw [hnone] at hdropped
    cases hdropped
    rfl
  · intro frame hframe
    rw [hsent, List.getElem?_map, Option.mem_def, Option.map_eq_some_iff] at hframe
    obtain ⟨m, hm, rfl⟩ := hframe
    exact hlast m hm
  · -- all bytes have arrived, so the bytes behind the complete frames are those of the others
    have hall := hflow.received_of_shutdown (hinv.ends i) heof hshut
    rw [hbytes, hsent, ← List.flatMap_def] at hall
    exact take_of_stream_eq hall hlast

/-- Two messages of the client in one write that is cut, an answer, and a message that runs behind
the shutdown. -/
def exchange : List (TcpLink.Side × TcpLink.Action) :=
  [(.client, .output (.sendInLoop (encode bareLibrary { type := .REQUEST, id := 1 }) (.wrote 10))),
    (.client, .output (.sendInLoop (encode bareLibrary { type := .RESPONSE, id := 258 })
    (.wrote 0))),
    (.server, .handleRead (.received ((encode bareLibrary { type := .REQUEST, id := 1 }).take 10))),
    (.client, .output .beginShutdown), (.client, .output .shutdownInLoop),
    (.client, .output (.handleWrite (.wrote 36))),
    (.client, .output (.sendInLoop (encode bareLibrary { type := .RESPONSE, id := 1 })
      (.failed .EPIPE))),
    (.server, .output (.sendInLoop (encode bareLibrary { type := .RESPONSE, id := 1 })
    (.wrote 23))),
    (.server, .handleRead (.received ((encode bareLibrary { type := .REQUEST, id := 1 }).drop 10 ++
      encode bareLibrary { type := .RESPONSE, id := 258 }))),
    (.server, .handleRead (.received []))]

/-- The messages of the run. -/
def exchanged : List RpcMessage := { type := .RESPONSE, id := 1 } :: sampleMessages

theorem framed_exchanged : ∀ bytes ∈ exchanged.map (encode bareLibrary),
    Framed bareLibrary bytes := by
  intro bytes hmem
  obtain ⟨m, hm, rfl⟩ := List.mem_map.mp hmem
  have hcarries : Carries bareLibrary m := by
    simp only [exchanged, sampleMessages, List.mem_cons, List.not_mem_nil, or_false] at hm
    rcases hm with rfl | rfl | rfl
    · exact ⟨⟨by decide, by decide⟩, by decide⟩
    · exact ⟨⟨by decide, by decide⟩, by decide⟩
    · exact ⟨⟨by decide, by decide⟩, by decide⟩
  exact ⟨m, hcarries, send_spec hcarries.roundTrips hcarries.size⟩

theorem messages_arrive_in_order_exchange :
    (∀ _ : TcpLink.Side, TcpLink.Established TcpStream.sampleStart) ∧
      (TcpLink.machine (messageCallback bareLibrary recorder .new) (Framed bareLibrary)).LegalRun
        (TcpLink.start ⟨[], []⟩ fun _ => TcpStream.sampleStart) exchange ∧
      ∃ s, (TcpLink.machine (messageCallback bareLibrary recorder .new) (Framed bareLibrary)).run
        (TcpLink.start ⟨[], []⟩ fun _ => TcpStream.sampleStart) exchange = .ok s ∧
        ∃ ms, List.Forall₂ (SendsAs bareLibrary) ms (s .client).sent ∧
          (s .server).user = handOver recorder .new ⟨[], []⟩ ms := by
  have hconns : ∀ _ : TcpLink.Side, TcpLink.Established TcpStream.sampleStart :=
    fun _ => ⟨7, 2, true, true, rfl⟩
  have hlegal : (TcpLink.machine (messageCallback bareLibrary recorder .new)
      (· ∈ exchanged.map (encode bareLibrary))).LegalRun
      (TcpLink.start ⟨[], []⟩ fun _ => TcpStream.sampleStart) exchange := by decide +kernel
  have hframed := TcpLink.legalRun_of_sendable framed_exchanged hlegal
  obtain ⟨s, hrun, h⟩ := messages_arrive_in_order hconns hframed
  obtain ⟨s', hrun', hend⟩ := (TcpLink.machine (messageCallback bareLibrary recorder .new)
    (Framed bareLibrary)).exists_of_endsWith (TcpLink.start ⟨[], []⟩ fun _ => TcpStream.sampleStart)
    exchange (fun s => (s .server).eof &&
      decide (SockCall.shutdownWrite [] ∈ (s .client).conn.socket_.calls)) (by decide +kernel)
  obtain rfl : s = s' := Except.ok.inj (hrun.symm.trans hrun')
  obtain ⟨heof, hshut⟩ := Bool.and_eq_true_iff.mp hend
  obtain ⟨ms, _, k, _, hms, _, huser, _, _, hall⟩ := h .client _ _ rfl rfl
  rw [(hall heof (of_decide_eq_true hshut)).1] at huser
  exact ⟨hconns, hframed, s, hrun, ms, hms, huser⟩

end Muduo.Protorpc.RpcLink
