/-
  Protorpc/RpcFraming.lean --- what `RpcCodec` does to whole streams.

  `onMessage_round_trip`: the frames of any messages, cut into any chunks, come out
  of `onMessage` as the same messages.  The decoder behind it is `frames`; chunk
  boundaries are the business of `Foundation.Segment`, and what is left is how the
  decoder reads a stream of frames whole (`drains_stream`).

  `onMessage_terminates_iff`: the loop of `onMessage` ends exactly on the inputs in
  which no malformed frame is reached.  Neither error branch leaves the loop, and
  the default error callback does not touch the buffer, so the same bytes are
  reported for ever.
-/
import Mathlib.Data.List.Forall2
import Muduo.Protorpc.RpcCodec

set_option autoImplicit false

namespace Muduo.Protorpc.RpcCodec

open Muduo.Foundation Muduo.Base Muduo.Net

/-! ## The bytes of a frame -/

/-- What Protocol Buffers promises about a message. -/
structure RoundTrips (lib : RpcLibrary) (message : RpcMessage) : Prop where
  size : (lib.serialize message).length = lib.byteSize message
  parse : lib.parseFromArray (lib.serialize message) = some message

/-- The bytes that the checksum covers. -/
def covered (lib : RpcLibrary) (message : RpcMessage) : List UInt8 :=
  kTag ++ lib.serialize message

/-- The frame of a message. -/
def encode (lib : RpcLibrary) (message : RpcMessage) : List UInt8 :=
  toNetwork 4 (lib.byteSize message + 8) ++
    (covered lib message ++ toNetwork 4 (lib.adler32 1 (covered lib message)).toNat)

section Encode

variable {lib : RpcLibrary} {message : RpcMessage}

theorem encode_length (h : RoundTrips lib message) :
    (encode lib message).length = 12 + lib.byteSize message := by
  simp only [encode, covered, kTag, List.length_append, toNetwork_length, h.size,
    List.length_cons, List.length_nil]
  omega

/-- `send` trips none of its assertions and puts the frame on the connection. -/
theorem send_spec (h : RoundTrips lib message)
    (hmax : lib.byteSize message + kMinMessageLen ≤ kMaxMessageLen) :
    ∃ b, send lib message = .ok b ∧ b.contents = encode lib message := by
  obtain ⟨hnew, hempty, _⟩ := Buffer.new_spec
  obtain ⟨b₁, hb₁, hinv₁, hc₁, hr₁⟩ := Buffer.append_spec hnew kTag
  obtain ⟨b₂, hb₂, hinv₂, hc₂, hw₂, hr₂⟩ :=
    Buffer.ensureWritableBytes_spec hinv₁ (lib.byteSize message + kHeaderLen)
  obtain ⟨hinv₃, hc₃⟩ := Buffer.store_hasWritten_spec hinv₂
    (show (lib.serialize message).length ≤ b₂.writableBytes by rw [h.size]; omega)
  rw [h.size] at hinv₃ hc₃
  have hcovered : ((b₂.store (lib.serialize message)).hasWritten (lib.byteSize message)).contents =
      covered lib message := by
    rw [hc₃, hc₂, hc₁, hempty, List.nil_append, covered]
  obtain ⟨b₄, hb₄, hinv₄, hc₄, hr₄⟩ := Buffer.append_spec hinv₃
    (toNetwork 4 (lib.adler32 1 (covered lib message)).toNat)
  rw [hcovered] at hc₄
  have hreadable : b₄.readableBytes = kHeaderLen + lib.byteSize message + kHeaderLen := by
    rw [← Buffer.contents_length hinv₄, hc₄]
    simp only [covered, kTag, List.length_append, toNetwork_length, h.size, List.length_cons,
      List.length_nil, kHeaderLen]
  -- nothing has been taken from the front, so the length fits before the contents
  have hprepend : (toNetwork 4 (lib.byteSize message + 8)).length ≤ b₄.prependableBytes := by
    have hfresh : Buffer.new.readerIndex_ = Buffer.kCheapPrepend := rfl
    simp only [hfresh, Buffer.kCheapPrepend, Nat.min_self] at hr₁
    simp only [Buffer.hasWritten, Buffer.store, Buffer.kCheapPrepend] at hr₂ hr₄
    rw [toNetwork_length, Buffer.prependableBytes]
    omega
  obtain ⟨b₅, hb₅, _, hc₅⟩ := Buffer.prepend_spec hinv₄ hprepend
  have hlen : (BitVec.ofNat 32 b₄.readableBytes).toNat = lib.byteSize message + 8 := by
    rw [BitVec.toNat_ofNat, hreadable]
    simp only [kHeaderLen, kMinMessageLen, kMaxMessageLen] at hmax ⊢
    omega
  refine ⟨b₅, ?_, ?_⟩
  · simp only [send, hb₁, ok_bind, hb₂, h.size, assertThat_of, hcovered, Buffer.appendInt32,
      Buffer.appendInt, hb₄, hreadable, Buffer.prependInt32, Buffer.prependInt]
    rw [← hreadable, hlen, hb₅]
  · rw [hc₅, hc₄, encode]

/-- The length field of a frame, once it has arrived. -/
theorem lengthAt_of_prefix_encode {xs rest : List UInt8}
    (hmax : lib.byteSize message + kMinMessageLen ≤ kMaxMessageLen)
    (hxs : xs <+: encode lib message ++ rest) (hlen : 4 ≤ xs.length) :
    lengthAt xs = lib.byteSize message + 8 := by
  have htake : xs.take kHeaderLen = toNetwork 4 (lib.byteSize message + 8) := by
    obtain ⟨more, hmore⟩ := hxs
    calc xs.take 4 = (xs ++ more).take 4 := (List.take_append_of_le_length hlen).symm
      _ = (encode lib message ++ rest).take 4 := by rw [hmore]
      _ = toNetwork 4 (lib.byteSize message + 8) := by
          rw [encode, List.append_assoc]
          exact List.take_left' (toNetwork_length _ _)
  simp only [kMinMessageLen, kHeaderLen, kMaxMessageLen] at hmax
  rw [lengthAt, htake, fromNetwork_toNetwork, BitVec.toInt_ofNat']
  have hsmall : ((lib.byteSize message + 8) % 256 ^ 4) = lib.byteSize message + 8 := by omega
  rw [hsmall, Int.bmod_eq_of_le (by omega) (by omega)]
  omega

/-- As long as the frame is not complete, the decoder sees that it is not. -/
theorem frameAt_of_prefix_encode {xs rest : List UInt8} (h : RoundTrips lib message)
    (hmax : lib.byteSize message + kMinMessageLen ≤ kMaxMessageLen)
    (hxs : xs <+: encode lib message ++ rest) (hlt : xs.length < (encode lib message).length) :
    frameAt lib xs = .incomplete := by
  rw [encode_length h] at hlt
  by_cases hshort : xs.length < kMinMessageLen + kHeaderLen
  · rw [frameAt, if_pos hshort]
  have hlen := lengthAt_of_prefix_encode hmax hxs
    (by simp only [kMinMessageLen, kHeaderLen] at hshort; omega)
  have hvalid : ¬ (lengthAt xs > kMaxMessageLen ∨ lengthAt xs < kMinMessageLen) := by
    simp only [hlen, kMinMessageLen, kHeaderLen, kMaxMessageLen] at hmax ⊢
    omega
  have hwait : xs.length < kHeaderLen + (lengthAt xs).toNat := by
    rw [hlen, kHeaderLen]
    omega
  rw [frameAt, if_neg hshort, if_neg hvalid, if_pos hwait]

theorem covered_length (h : RoundTrips lib message) :
    (covered lib message).length = lib.byteSize message + 4 := by
  simp only [covered, kTag, List.length_append, List.length_cons, List.length_nil, h.size]
  omega

/-- The bytes behind the length field of a frame pass the checks. -/
theorem checkFrame_covered (h : RoundTrips lib message) :
    checkFrame lib
      (covered lib message ++ toNetwork 4 (lib.adler32 1 (covered lib message)).toNat) =
      (.kNoError, some message) := by
  have hsum : BitVec.ofNat 32 (fromNetwork
      (toNetwork 4 (lib.adler32 1 (covered lib message)).toNat)) =
      lib.adler32 1 (covered lib message) := by
    rw [fromNetwork_toNetwork]
    apply BitVec.eq_of_toNat_eq
    have := (lib.adler32 1 (covered lib message)).isLt
    rw [BitVec.toNat_ofNat]
    omega
  have htag : (covered lib message ++
      toNetwork 4 (lib.adler32 1 (covered lib message)).toNat).take kHeaderLen = kTag := by
    rw [covered, List.append_assoc]
    exact List.take_left' rfl
  have hdata : (covered lib message).drop kHeaderLen = lib.serialize message :=
    List.drop_left' rfl
  have hcount : (covered lib message ++
      toNetwork 4 (lib.adler32 1 (covered lib message)).toNat).length - kHeaderLen =
      (covered lib message).length := by
    rw [List.length_append, toNetwork_length, kHeaderLen]
    omega
  simp only [checkFrame, hcount, List.take_left, List.drop_left, hsum, htag, hdata, h.parse,
    if_true]

/-- A complete frame is read back. -/
theorem frameAt_encode (h : RoundTrips lib message)
    (hmax : lib.byteSize message + kMinMessageLen ≤ kMaxMessageLen) (rest : List UInt8) :
    frameAt lib (encode lib message ++ rest) = .good message (encode lib message).length := by
  have hlength := encode_length h
  have hsize : kHeaderLen + (lib.byteSize message + 8) = (encode lib message).length := by
    rw [hlength, kHeaderLen]
    omega
  have hle : (encode lib message).length ≤ (encode lib message ++ rest).length := by
    rw [List.length_append]
    exact Nat.le_add_right _ _
  have hshort : ¬ (encode lib message ++ rest).length < kMinMessageLen + kHeaderLen := by
    rw [kMinMessageLen, kHeaderLen]
    omega
  have hlen := lengthAt_of_prefix_encode hmax (List.prefix_refl (encode lib message ++ rest))
    (by omega)
  have hvalid : ¬ (lengthAt (encode lib message ++ rest) > kMaxMessageLen ∨
      lengthAt (encode lib message ++ rest) < kMinMessageLen) := by
    simp only [hlen, kMinMessageLen, kHeaderLen, kMaxMessageLen] at hmax ⊢
    omega
  have hnat : (lengthAt (encode lib message ++ rest)).toNat = lib.byteSize message + 8 := by omega
  have hframe : ((encode lib message ++ rest).drop kHeaderLen).take (lib.byteSize message + 8) =
      covered lib message ++ toNetwork 4 (lib.adler32 1 (covered lib message)).toNat := by
    rw [encode, List.append_assoc, kHeaderLen, List.drop_left' (toNetwork_length _ _)]
    exact List.take_left' (by rw [List.length_append, toNetwork_length, covered_length h])
  simp only [frameAt, if_neg hshort, if_neg hvalid, hnat, hsize, if_neg (Nat.not_lt.mpr hle),
    hframe, checkFrame_covered h]

end Encode

/-! ## The decoder -/

/-- The decoder of `onMessage`: it collects the messages and stops at a malformed
frame. -/
def frames (lib : RpcLibrary) : Decoder (List RpcMessage) UInt8 where
  step ms xs :=
    match frameAt lib xs with
    | .incomplete => .wait
    | .bad _ => .stop ms 0
    | .good message size => .next (ms ++ [message]) size
  stable ms xs ys h := by
    have hne : frameAt lib xs ≠ .incomplete := by
      intro hincomplete
      simp [hincomplete] at h
    simp only [frameAt_append ys hne]
  next_consumes ms xs ms' n h := by
    rcases hframe : frameAt lib xs with _ | e | ⟨message, size⟩
    · simp [hframe] at h
    · simp [hframe] at h
    · simp only [hframe, Verdict.next.injEq] at h
      obtain ⟨hmin, hle⟩ := size_of_frameAt_good hframe
      simp only [kMinMessageLen, kHeaderLen] at hmin
      omega
  stop_consumes ms xs ms' n h := by
    rcases hframe : frameAt lib xs with _ | e | ⟨message, size⟩
    · simp [hframe] at h
    · simp only [hframe, Verdict.stop.injEq] at h
      omega
    · simp [hframe] at h

/-- The bytes of some messages on the wire. -/
def stream (lib : RpcLibrary) (ms : List RpcMessage) : List UInt8 := ms.flatMap (encode lib)

/-- A message that the codec can carry. -/
structure Carries (lib : RpcLibrary) (message : RpcMessage) : Prop where
  roundTrips : RoundTrips lib message
  size : lib.byteSize message + kMinMessageLen ≤ kMaxMessageLen

/-- Reading the beginning of a stream of frames gives the messages whose frames are
complete, and leaves the bytes behind them. -/
theorem drains_stream {lib : RpcLibrary} {ms : List RpcMessage} (hms : ∀ m ∈ ms, Carries lib m)
    (before : List RpcMessage) {xs : List UInt8} (hxs : xs <+: stream lib ms) :
    ∃ k rest, (frames lib).Drains before xs ⟨before ++ ms.take k, rest, false⟩ ∧
      xs = stream lib (ms.take k) ++ rest ∧
      ∀ m ∈ ms[k]?, rest.length < (encode lib m).length := by
  induction ms generalizing before xs with
  | nil =>
      have hnil : xs = [] := List.prefix_nil.mp hxs
      subst hnil
      exact ⟨0, [], by simpa using Decoder.Drains.wait rfl, rfl, by simp⟩
  | cons m ms ih =>
      have hm := hms m List.mem_cons_self
      have hcons : stream lib (m :: ms) = encode lib m ++ stream lib ms := List.flatMap_cons
      rw [hcons] at hxs
      by_cases hlt : xs.length < (encode lib m).length
      · have hwait : (frames lib).step before xs = .wait := by
          simp only [frames, frameAt_of_prefix_encode hm.roundTrips hm.size hxs hlt]
        exact ⟨0, xs, by simpa using Decoder.Drains.wait hwait, rfl, by simpa using hlt⟩
      · obtain ⟨tail, rfl⟩ : encode lib m <+: xs :=
          List.prefix_of_prefix_length_le (List.prefix_append _ _) hxs (Nat.not_lt.mp hlt)
        obtain ⟨k, rest, hdrain, htail, hlast⟩ :=
          ih (fun m' hm' => hms m' (List.mem_cons_of_mem _ hm')) (before ++ [m])
            ((List.prefix_append_right_inj _).mp hxs)
        have hnext : (frames lib).step before (encode lib m ++ tail) =
            .next (before ++ [m]) (encode lib m).length := by
          simp only [frames, frameAt_encode hm.roundTrips hm.size]
        refine ⟨k + 1, rest, .next hnext ?_, ?_, by simpa using hlast⟩
        · simpa using hdrain
        · simp [stream, htail]

/-! ## Receiving in chunks -/

/-- What a codec has reported. -/
structure Log where
  delivered : List RpcMessage
  errors : List ErrorCode
  deriving DecidableEq, Repr

/-- A codec whose callbacks write down what they are called with. -/
def recorder : RpcCodec Log where
  messageCallback_ log message _ := { log with delivered := log.delivered ++ [message] }
  errorCallback_ log buf _ errorCode := ({ log with errors := log.errors ++ [errorCode] }, buf)

/-- Each chunk is appended to the input buffer, and `onMessage` is called. -/
inductive Receives {σ : Type} (lib : RpcLibrary) (codec : RpcCodec σ) :
    σ × Buffer → List (List UInt8 × Timestamp) → σ × Buffer → Prop where
  | nil (s : σ × Buffer) : Receives lib codec s [] s
  | cons {conn : σ} {b appended : Buffer} {chunk : List UInt8} {receiveTime : Timestamp}
      {s s' : σ × Buffer} {chunks : List (List UInt8 × Timestamp)}
      (happend : b.append chunk = .ok appended)
      (hreturns : Loop.Returns (onMessageBody lib codec receiveTime) (conn, appended) s)
      (hrest : Receives lib codec s chunks s') :
      Receives lib codec (conn, b) ((chunk, receiveTime) :: chunks) s'

/-- The recorder's state and buffer beside the decoder's. -/
def Follows (s : Log × Buffer) (ms : List RpcMessage) (xs : List UInt8) : Prop :=
  s.2.Inv ∧ s.2.contents = xs ∧ s.1 = ⟨ms, []⟩

/-- A call of `onMessage` takes the decoder's steps, unless it meets a malformed
frame. -/
theorem returns_of_drains {lib : RpcLibrary} {receiveTime : Timestamp} {ms : List RpcMessage}
    {xs : List UInt8} {p : Progress (List RpcMessage) UInt8} (h : (frames lib).Drains ms xs p)
    (hp : p.stopped = false) {s : Log × Buffer} (hs : Follows s ms xs) :
    ∃ s', Loop.Returns (onMessageBody lib recorder receiveTime) s s' ∧
      Follows s' p.state p.rest := by
  suffices hrun : ∃ s', Loop.run (onMessageBody lib recorder receiveTime) (xs.length + 1) s =
      .ok s' ∧ Follows s' p.state p.rest by
    obtain ⟨s', hs', hfollows⟩ := hrun
    exact ⟨s', ⟨_, hs'⟩, hfollows⟩
  refine Decoder.run_of_drains Follows (fun s' p => Follows s' p.state p.rest) ?_ ?_ ?_ h hs
  · rintro ⟨log, b⟩ ms xs ⟨hb, rfl, hlog⟩ hstep
    rcases hframe : frameAt lib b.contents with _ | e | ⟨message, size⟩
    · exact ⟨(log, b), onMessageBody_of_incomplete hb hframe, hb, rfl, hlog⟩
    · simp [frames, hframe] at hstep
    · simp [frames, hframe] at hstep
  · rintro ⟨log, b⟩ ms xs ms' n ⟨hb, rfl, hlog⟩ hstep
    rcases hframe : frameAt lib b.contents with _ | e | ⟨message, size⟩
    · simp [frames, hframe] at hstep
    · simp [frames, hframe] at hstep
    · obtain ⟨rfl, rfl⟩ : ms ++ [message] = ms' ∧ size = n := by
        simpa [frames, hframe] using hstep
      obtain ⟨b', hbody, hinv, hcontents⟩ := onMessageBody_of_good hb hframe
      obtain rfl : log = ⟨ms, []⟩ := hlog
      exact ⟨_, hbody, hinv, hcontents, rfl⟩
  · intro hstopped
    exact absurd (hp.symm.trans hstopped) (by simp)

theorem receives_of_feeds {lib : RpcLibrary} {chunks : List (List UInt8 × Timestamp)}
    {p q : Progress (List RpcMessage) UInt8}
    (h : (frames lib).Feeds p (chunks.map Prod.fst) q) (hq : q.stopped = false)
    {s : Log × Buffer} (hs : Follows s p.state p.rest) :
    ∃ s', Receives lib recorder s chunks s' ∧ Follows s' q.state q.rest := by
  induction chunks generalizing p s with
  | nil =>
      cases h
      exact ⟨s, .nil s, hs⟩
  | cons c chunks ih =>
      obtain ⟨chunk, receiveTime⟩ := c
      obtain ⟨log, b⟩ := s
      obtain ⟨hb, hcontents, hlog⟩ := hs
      cases h with
      | stopped h => exact absurd hq (by rw [Decoder.feeds_stopped h]; simp)
      | @waiting ms rest _ _ p' _ hdrain h =>
          obtain ⟨b', hb', hinv, hcontents', _⟩ := Buffer.append_spec hb chunk
          have hp' : p'.stopped = false := by
            -- a decoder that has stopped stays stopped
            cases hstopped : p'.stopped with
            | false => rfl
            | true =>
                obtain ⟨ms', rest', stopped'⟩ := p'
                obtain rfl : stopped' = true := hstopped
                exact absurd hq (by rw [Decoder.feeds_stopped h]; simp)
          obtain ⟨s', hreturns, hs'⟩ := @returns_of_drains lib receiveTime _ _ p' hdrain hp'
            (log, b') ⟨hinv, by rw [hcontents', hcontents], hlog⟩
          obtain ⟨s'', hreceives, hs''⟩ := ih h hs'
          exact ⟨s'', .cons hb' hreturns hreceives, hs''⟩

/-- The bytes that `send` puts on the connection for some messages, cut into chunks
in any way and received one by one, are delivered as these messages.  After every
chunk the delivered messages are those whose frames are complete, no error has been
reported, and the buffer holds the bytes received behind the last complete frame. -/
theorem onMessage_round_trip {lib : RpcLibrary} {ms : List RpcMessage}
    (hms : ∀ m ∈ ms, RoundTrips lib m ∧ lib.byteSize m + 8 ≤ kMaxMessageLen) :
    ∃ sent : List (List UInt8),
      List.Forall₂ (fun m bytes => ∃ b, send lib m = .ok b ∧ b.contents = bytes) ms sent ∧
      ∀ chunks : List (List UInt8 × Timestamp), (chunks.map Prod.fst).flatten = sent.flatten →
        ∀ n, ∃ log b, Receives lib recorder (⟨[], []⟩, Buffer.new) (chunks.take n) (log, b) ∧
          log.errors = [] ∧
          (∃ k, log.delivered = ms.take k ∧
            ((chunks.take n).map Prod.fst).flatten = (sent.take k).flatten ++ b.contents ∧
            ∀ frame ∈ sent[k]?, b.contents.length < frame.length) ∧
          (chunks.length ≤ n → log.delivered = ms ∧ b.contents = []) := by
  have hcarries : ∀ m ∈ ms, Carries lib m := fun m hm => ⟨(hms m hm).1, (hms m hm).2⟩
  refine ⟨ms.map (encode lib), ?_, ?_⟩
  · rw [List.forall₂_map_right_iff, List.forall₂_same]
    intro m hm
    exact send_spec (hcarries m hm).roundTrips (hcarries m hm).size
  intro chunks hchunks n
  have hstream : (ms.map (encode lib)).flatten = stream lib ms := List.flatMap_def.symm
  have hpre : ((chunks.take n).map Prod.fst).flatten <+: stream lib ms := by
    rw [← hstream, ← hchunks]
    refine ⟨((chunks.drop n).map Prod.fst).flatten, ?_⟩
    rw [← List.flatten_append, ← List.map_append, List.take_append_drop]
  obtain ⟨k, rest, hdrain, hbytes, hlast⟩ := drains_stream hcarries [] hpre
  obtain ⟨q, hfeeds⟩ := (frames lib).exists_feeds ⟨[], [], false⟩ ((chunks.take n).map Prod.fst)
  obtain rfl : q = ⟨ms.take k, rest, false⟩ :=
    (Decoder.drains_of_feeds (.wait rfl) hfeeds).unique hdrain
  obtain ⟨⟨log, b⟩, hreceives, _, hcontents, hlog⟩ := receives_of_feeds hfeeds rfl
    (show Follows (⟨[], []⟩, Buffer.new) [] [] from ⟨Buffer.new_spec.1, Buffer.new_spec.2.1, rfl⟩)
  obtain rfl : rest = b.contents := hcontents.symm
  obtain rfl : log = ⟨ms.take k, []⟩ := hlog
  have hpre : (((ms.map (encode lib)).take k)).flatten = stream lib (ms.take k) := by
    rw [← List.map_take, stream, List.flatMap_def]
  refine ⟨_, b, hreceives, rfl, ⟨k, rfl, by rw [hpre, hbytes], ?_⟩, ?_⟩
  · intro frame hframe
    rw [List.getElem?_map, Option.mem_def, Option.map_eq_some_iff] at hframe
    obtain ⟨m, hm, rfl⟩ := hframe
    exact hlast m hm
  · intro hn
    rw [List.take_of_length_le hn, hchunks, hstream] at hbytes
    -- the bytes of a further message would not fit into the rest
    have hrest : stream lib (ms.drop k) = b.contents := by
      rw [← List.append_cancel_left_eq (stream lib (ms.take k)), ← hbytes, stream, stream, stream,
        ← List.flatMap_append, List.take_append_drop]
    rcases hdrop : ms.drop k with _ | ⟨m, more⟩
    · refine ⟨?_, by rw [← hrest, hdrop]; rfl⟩
      rw [List.take_of_length_le (List.drop_eq_nil_iff.mp hdrop)]
    · have hget : ms[k]? = some m := by
        rw [← List.head?_drop, hdrop]
        rfl
      have hlt := hlast m hget
      rw [← hrest, hdrop] at hlt
      simp only [stream, List.flatMap_cons, List.length_append] at hlt
      omega

/-! ### A library to run with -/

/-- zlib's `adler32`. -/
def adler32 (adler : BitVec 32) (bytes : List UInt8) : BitVec 32 :=
  let sums := bytes.foldl
    (fun (sums : Nat × Nat) byte =>
      let low := (sums.1 + byte.toNat) % 65521
      (low, (sums.2 + low) % 65521))
    (adler.toNat % 65536, adler.toNat / 65536)
  BitVec.ofNat 32 (sums.2 * 65536 + sums.1)

/-- The protobuf number of a message type. -/
def MessageType.number : MessageType → UInt8
  | .REQUEST => 1
  | .RESPONSE => 2
  | .ERROR => 3

/-- The wire format of a message without optional fields: field 1 as a varint,
field 2 as eight little-endian bytes. -/
def bareSerialize (message : RpcMessage) : List UInt8 :=
  [8, MessageType.number message.type, 17] ++ (toNetwork 8 message.id.toNat).reverse

/-- Reads what `bareLibrary` writes. -/
def bareParse : List UInt8 → Option RpcMessage
  | 8 :: type :: 17 :: id =>
      [MessageType.REQUEST, .RESPONSE, .ERROR].find? (MessageType.number · = type) |>.map
        fun type => { type, id := BitVec.ofNat 64 (fromNetwork id.reverse) }
  | _ => none

/-- Protocol Buffers on messages without optional fields, and zlib. -/
def bareLibrary : RpcLibrary where
  byteSize _ := 11
  serialize := bareSerialize
  parseFromArray := bareParse
  adler32 := adler32

/-- A request and the answer to another one. -/
def sampleMessages : List RpcMessage :=
  [{ type := .REQUEST, id := 1 }, { type := .RESPONSE, id := 258 }]

theorem onMessage_round_trip_sampleMessages :
    ∃ sent : List (List UInt8),
      List.Forall₂ (fun m bytes => ∃ b, send bareLibrary m = .ok b ∧ b.contents = bytes)
        sampleMessages sent ∧
      ∀ chunks : List (List UInt8 × Timestamp), (chunks.map Prod.fst).flatten = sent.flatten →
        ∀ n, ∃ log b,
          Receives bareLibrary recorder (⟨[], []⟩, Buffer.new) (chunks.take n) (log, b) ∧
          log.errors = [] ∧
          (∃ k, log.delivered = sampleMessages.take k ∧
            ((chunks.take n).map Prod.fst).flatten = (sent.take k).flatten ++ b.contents ∧
            ∀ frame ∈ sent[k]?, b.contents.length < frame.length) ∧
          (chunks.length ≤ n → log.delivered = sampleMessages ∧ b.contents = []) := by
  refine onMessage_round_trip ?_
  intro m hm
  simp only [sampleMessages, List.mem_cons, List.not_mem_nil, or_false] at hm
  rcases hm with rfl | rfl
  · exact ⟨⟨by decide, by decide⟩, by decide⟩
  · exact ⟨⟨by decide, by decide⟩, by decide⟩

/-! ## Termination -/

/-- Good frames, followed by bytes that cannot be judged yet: fewer than the
shortest frame, or a length between `kMinMessageLen` and `kMaxMessageLen` with not
all of its bytes. -/
inductive WellFramed (lib : RpcLibrary) : List UInt8 → Prop where
  | incomplete {xs : List UInt8} (h : frameAt lib xs = .incomplete) : WellFramed lib xs
  | frame {xs : List UInt8} {message : RpcMessage} {size : Nat}
      (h : frameAt lib xs = .good message size) (hrest : WellFramed lib (xs.drop size)) :
      WellFramed lib xs

section Termination

variable {μ : Type} {lib : RpcLibrary} {receiveTime : Timestamp}
  {messageCb : Option TcpConnection × μ → RpcMessage → Timestamp → Option TcpConnection × μ}

/-- The default error callback leaves the buffer alone. -/
theorem defaultErrorCallback_buffer (s : Option TcpConnection × μ) (b : Buffer)
    (receiveTime : Timestamp) (errorCode : ErrorCode) :
    (defaultErrorCallback s b receiveTime errorCode).2 = b := by
  obtain ⟨conn, user⟩ := s
  cases conn with
  | none => rfl
  | some conn => cases hconnected : conn.connected <;> simp [defaultErrorCallback, hconnected]

/-- From bytes that are not well framed the loop goes round again, and comes to
bytes that are not well framed. -/
theorem onMessageBody_of_not_wellFramed {s : Option TcpConnection × μ} {b : Buffer} (hb : b.Inv)
    (h : ¬ WellFramed lib b.contents) :
    ∃ s' b', onMessageBody lib (RpcCodec.new messageCb) receiveTime (s, b) =
      .ok (.inl (s', b')) ∧ b'.Inv ∧ ¬ WellFramed lib b'.contents := by
  rcases hframe : frameAt lib b.contents with _ | errorCode | ⟨message, size⟩
  · exact absurd (.incomplete hframe) h
  · have hsame := defaultErrorCallback_buffer s b receiveTime errorCode
    refine ⟨(defaultErrorCallback s b receiveTime errorCode).1,
      (defaultErrorCallback s b receiveTime errorCode).2, onMessageBody_of_bad hb hframe, ?_⟩
    rw [hsame]
    exact ⟨hb, h⟩
  · obtain ⟨b', hbody, hinv, hcontents⟩ := onMessageBody_of_good hb hframe
    refine ⟨_, b', hbody, hinv, ?_⟩
    rw [hcontents]
    exact fun hrest => h (.frame hframe hrest)

theorem not_terminates_of_not_wellFramed {s : Option TcpConnection × μ} {b : Buffer}
    (hb : b.Inv) (h : ¬ WellFramed lib b.contents) :
    ¬ Loop.Terminates (onMessageBody lib (RpcCodec.new messageCb) receiveTime) (s, b) := by
  refine Loop.not_terminates_of_invariant
    (fun s => s.2.Inv ∧ ¬ WellFramed lib s.2.contents) ?_ ⟨hb, h⟩
  rintro ⟨s, b⟩ ⟨hb, h⟩
  obtain ⟨s', b', hbody, hb', h'⟩ := onMessageBody_of_not_wellFramed hb h
  exact ⟨(s', b'), hbody, hb', h'⟩

/-- On well-framed bytes every round of the loop consumes a frame. -/
theorem terminates_of_wellFramed {xs : List UInt8} (h : WellFramed lib xs)
    {s : Option TcpConnection × μ} {b : Buffer} (hb : b.Inv) (hxs : b.contents = xs) :
    Loop.Terminates (onMessageBody lib (RpcCodec.new messageCb) receiveTime) (s, b) := by
  induction h generalizing s b with
  | incomplete h =>
      refine ⟨1, ?_⟩
      rw [Loop.run_succ_of_leave (onMessageBody_of_incomplete hb (hxs ▸ h))]
      simp
  | frame h _ ih =>
      obtain ⟨b', hbody, hinv, hcontents⟩ := onMessageBody_of_good hb (hxs ▸ h)
      rw [Loop.terminates_iff_of_next hbody]
      exact ih hinv (by rw [hcontents, hxs])

/-- With the default error callback, the loop of `onMessage` ends exactly when the
buffer holds good frames followed by an unfinished one. -/
theorem onMessage_terminates_iff {s : Option TcpConnection × μ} {b : Buffer} (hb : b.Inv) :
    Loop.Terminates (onMessageBody lib (RpcCodec.new messageCb) receiveTime) (s, b) ↔
      WellFramed lib b.contents := by
  constructor
  · intro hterminates
    by_contra h
    exact not_terminates_of_not_wellFramed hb h hterminates
  · intro h
    exact terminates_of_wellFramed h hb rfl

end Termination

/-- A fresh buffer in which `data` has arrived. -/
def received (data : List UInt8) : Buffer :=
  (Buffer.new.store data).hasWritten data.length

theorem received_spec {data : List UInt8} (h : data.length ≤ Buffer.kInitialSize) :
    (received data).Inv ∧ (received data).contents = data := by
  obtain ⟨hnew, hempty, _, hwritable, _⟩ := Buffer.new_spec
  obtain ⟨hinv, hcontents⟩ := Buffer.store_hasWritten_spec hnew (hwritable ▸ h)
  exact ⟨hinv, by rw [received, hcontents, hempty, List.nil_append]⟩

/-- A connected connection whose peer is served by a codec with default callbacks. -/
def served : Option TcpConnection × Unit :=
  (some ((TcpConnection.new 7).setState .kConnected), ())

theorem onMessage_terminates_iff_shortRead :
    (received [0, 0, 0]).Inv ∧
      (Loop.Terminates (onMessageBody bareLibrary (RpcCodec.new fun s _ _ => s) .new)
        (served, received [0, 0, 0]) ↔ WellFramed bareLibrary (received [0, 0, 0]).contents) := by
  have hinv := (received_spec (show [0, 0, 0].length ≤ Buffer.kInitialSize by decide)).1
  exact ⟨hinv, onMessage_terminates_iff hinv⟩

/-- Twelve zero bytes have length 0, which is too small: `errorCallback_` is called
for ever. -/
theorem onMessage_spins_on_zero_length :
    ¬ Loop.Terminates (onMessageBody bareLibrary (RpcCodec.new fun s _ _ => s) .new)
      (served, received (List.replicate 12 0)) := by
  obtain ⟨hinv, hcontents⟩ := received_spec
    (show (List.replicate 12 0).length ≤ Buffer.kInitialSize by decide)
  have hbad : frameAt bareLibrary (List.replicate 12 0) = .bad .kInvalidLength := by decide
  refine not_terminates_of_not_wellFramed hinv ?_
  rw [hcontents]
  intro h
  cases h with
  | incomplete h => exact absurd (hbad.symm.trans h) (by simp)
  | frame h _ => exact absurd (hbad.symm.trans h) (by simp)

end Muduo.Protorpc.RpcCodec
