/-
  Protorpc/RpcIntegrity.lean --- what `RpcCodec` lets through.

  `Authentic` is the wire format, said of bytes alone: a length, the tag, the
  payload and the checksum.  The decoder `frameAt` accepts exactly the frames that
  meet it (`frameAt_good_iff`), so whatever the bytes in the buffer, each message
  that the loop of `onMessage` delivers was one of them, and nothing else leaves
  the buffer except by the hands of `errorCallback_` (`onMessage_delivers_authentic`).

  The loop need not end: after a malformed frame it goes round for ever unless the
  error callback empties the buffer.  The result is therefore about its state after
  any number of rounds.
-/
import Muduo.Protorpc.RpcFraming

set_option autoImplicit false

namespace Muduo.Protorpc.RpcCodec

open Muduo.Foundation Muduo.Base Muduo.Net

/-! ## Authentic frames -/

/-- `header` is the length field and `body` the bytes behind it of a frame that
carries `message`. -/
structure Authentic (lib : RpcLibrary) (header body : List UInt8) (message : RpcMessage) :
    Prop where
  width : header.length = 4
  length : body.length = fromNetwork header
  min : 8 ≤ body.length
  max : body.length ≤ 64 * 1024 * 1024
  tag : body.take 4 = ascii "RPC0"
  checkSum : body.drop (body.length - 4) =
    toNetwork 4 (lib.adler32 1 (body.take (body.length - 4))).toNat
  data : lib.parseFromArray ((body.drop 4).take (body.length - 8)) = some message

/-- Four bytes read as a number are that number written down. -/
theorem eq_ofNat_fromNetwork_iff {bytes : List UInt8} (h : bytes.length = 4) (x : BitVec 32) :
    x = BitVec.ofNat 32 (fromNetwork bytes) ↔ bytes = toNetwork 4 x.toNat := by
  constructor
  · intro hx
    have hlt : fromNetwork bytes < 2 ^ 32 := by
      have := fromNetwork_lt bytes
      rwa [h] at this
    rw [hx, BitVec.toNat_ofNat, Nat.mod_eq_of_lt hlt, ← h]
    exact (toNetwork_fromNetwork bytes).symm
  · intro hbytes
    have hlt : x.toNat < 256 ^ 4 := x.isLt
    rw [hbytes, fromNetwork_toNetwork, Nat.mod_eq_of_lt hlt, BitVec.ofNat_toNat,
      BitVec.setWidth_eq]

/-- The three checks of `parse`, on bytes long enough for a tag and a checksum. -/
theorem checkFrame_eq_iff {lib : RpcLibrary} {body : List UInt8} {message : RpcMessage}
    (hmin : 8 ≤ body.length) :
    checkFrame lib body = (.kNoError, some message) ↔
      body.take 4 = ascii "RPC0" ∧
      body.drop (body.length - 4) =
        toNetwork 4 (lib.adler32 1 (body.take (body.length - 4))).toNat ∧
      lib.parseFromArray ((body.drop 4).take (body.length - 8)) = some message := by
  have htag : ascii "RPC0" = kTag := by decide
  have hsum := @eq_ofNat_fromNetwork_iff (body.drop (body.length - 4))
    (by rw [List.length_drop]; omega) (lib.adler32 1 (body.take (body.length - 4)))
  have hdata : (body.take (body.length - 4)).drop 4 = (body.drop 4).take (body.length - 8) := by
    rw [List.drop_take]
    rfl
  rw [htag, ← hsum, ← hdata]
  change checkFrame lib body = _ ↔ body.take kHeaderLen = kTag ∧
    lib.adler32 1 (body.take (body.length - kHeaderLen)) =
      BitVec.ofNat 32 (fromNetwork (body.drop (body.length - kHeaderLen))) ∧
    lib.parseFromArray ((body.take (body.length - kHeaderLen)).drop kHeaderLen) = some message
  rw [checkFrame]
  by_cases hchecksum : lib.adler32 1 (body.take (body.length - kHeaderLen)) =
      BitVec.ofNat 32 (fromNetwork (body.drop (body.length - kHeaderLen)))
  · rw [if_pos hchecksum, and_iff_right hchecksum]
    by_cases hkTag : body.take kHeaderLen = kTag
    · rw [if_pos hkTag, and_iff_right hkTag]
      cases lib.parseFromArray ((body.take (body.length - kHeaderLen)).drop kHeaderLen) with
      | none => simp
      | some parsed => simp
    · simp [hkTag]
  · rw [if_neg hchecksum, iff_false_right (fun h => hchecksum h.2.1)]
    simp

/-- A length that is not negative is the number that the four bytes denote. -/
theorem lengthAt_of_nonneg {xs : List UInt8} (h : 0 ≤ lengthAt xs) (hlen : 4 ≤ xs.length) :
    lengthAt xs = fromNetwork (xs.take 4) := by
  have hlt : fromNetwork (xs.take 4) < 2 ^ 32 := by
    have := fromNetwork_lt (xs.take 4)
    rwa [List.length_take, Nat.min_eq_left hlen] at this
  simp only [lengthAt, kHeaderLen, BitVec.toInt_eq_toNat_cond, BitVec.toNat_ofNat,
    Nat.mod_eq_of_lt hlt] at h ⊢
  split at h
  · rename_i hsmall
    rw [if_pos hsmall]
  · exact absurd h (by omega)

/-- A number of at most 64 MiB is not negative as a length field. -/
theorem lengthAt_of_le {xs : List UInt8} (h : fromNetwork (xs.take 4) ≤ kMaxMessageLen) :
    lengthAt xs = fromNetwork (xs.take 4) := by
  have hbound : fromNetwork (xs.take 4) < 2 ^ 31 := by
    simp only [kMaxMessageLen] at h
    omega
  rw [lengthAt, kHeaderLen, BitVec.toInt_eq_toNat_cond, BitVec.toNat_ofNat,
    Nat.mod_eq_of_lt (by omega), if_pos (by omega)]

/-- Whatever the decoder accepts is authentic. -/
theorem authentic_of_frameAt_good {lib : RpcLibrary} {xs : List UInt8} {message : RpcMessage}
    {size : Nat} (h : frameAt lib xs = .good message size) :
    ∃ header body rest, xs = header ++ (body ++ rest) ∧ header.length + body.length = size ∧
      Authentic lib header body message := by
  obtain ⟨_, hsize⟩ := size_of_frameAt_good h
  obtain ⟨hlong, hvalid, hcomplete, hcheck, rfl⟩ := of_frameAt_good h
  simp only [kMinMessageLen, kHeaderLen, kMaxMessageLen] at hlong hvalid hcomplete
  have hlength := @lengthAt_of_nonneg xs (by omega) (by omega)
  have hbody : ((xs.drop 4).take (lengthAt xs).toNat).length = (lengthAt xs).toNat := by
    rw [List.length_take, List.length_drop]
    omega
  have hheader : (xs.take 4).length = 4 := by
    rw [List.length_take]
    omega
  obtain ⟨htag, hsum, hdata⟩ := (checkFrame_eq_iff (by simp only [kHeaderLen]; omega)).mp hcheck
  refine ⟨xs.take 4, (xs.drop 4).take (lengthAt xs).toNat, (xs.drop 4).drop (lengthAt xs).toNat,
    ?_, ?_, hheader, ?_, ?_, ?_, htag, hsum, hdata⟩
  · rw [List.take_append_drop, List.take_append_drop]
  · rw [hheader, hbody, kHeaderLen]
  · rw [hbody, hlength, Int.toNat_natCast]
  · omega
  · omega

/-- Every authentic frame is accepted. -/
theorem frameAt_of_authentic {lib : RpcLibrary} {header body : List UInt8} {message : RpcMessage}
    (h : Authentic lib header body message) (rest : List UInt8) :
    frameAt lib (header ++ (body ++ rest)) = .good message (header.length + body.length) := by
  have hmin := h.min
  have hmax := h.max
  have htake : (header ++ (body ++ rest)).take 4 = header := List.take_left' h.width
  have hdrop : (header ++ (body ++ rest)).drop 4 = body ++ rest := List.drop_left' h.width
  have hlength : lengthAt (header ++ (body ++ rest)) = body.length := by
    rw [lengthAt_of_le (by rw [htake, ← h.length]; exact hmax), htake, h.length]
  have htotal : (header ++ (body ++ rest)).length = 4 + (body.length + rest.length) := by
    rw [List.length_append, List.length_append, h.width]
  have hlong : ¬ (header ++ (body ++ rest)).length < kMinMessageLen + kHeaderLen := by
    rw [htotal, kMinMessageLen, kHeaderLen]
    omega
  have hvalid : ¬ ((body.length : Int) > kMaxMessageLen ∨
    (body.length : Int) < kMinMessageLen) := by
    simp only [kMinMessageLen, kHeaderLen, kMaxMessageLen]
    omega
  have hcomplete : ¬ (header ++ (body ++ rest)).length < kHeaderLen + body.length := by
    rw [htotal, kHeaderLen]
    omega
  have hcheck := (@checkFrame_eq_iff lib body message hmin).mpr ⟨h.tag, h.checkSum, h.data⟩
  have hheader : kHeaderLen = header.length := h.width.symm
  rw [frameAt, hlength, Int.toNat_natCast, if_neg hlong, if_neg hvalid, if_neg hcomplete]
  simp only [hheader, List.drop_left, List.take_left, hcheck]

/-- The decoder accepts exactly the authentic frames. -/
theorem frameAt_good_iff {lib : RpcLibrary} {xs : List UInt8} {message : RpcMessage} {size : Nat} :
    frameAt lib xs = .good message size ↔
      ∃ header body rest, xs = header ++ (body ++ rest) ∧ header.length + body.length = size ∧
        Authentic lib header body message := by
  constructor
  · exact authentic_of_frameAt_good
  · rintro ⟨header, body, rest, rfl, rfl, h⟩
    exact frameAt_of_authentic h rest

/-! ## What a codec does to the buffer -/

/-- A call of one of the callbacks. -/
inductive CodecEvent where
  | delivered (message : RpcMessage)
  /-- with the contents of the buffer before and after `errorCallback_` -/
  | reported (errorCode : ErrorCode) (before after : List UInt8)
  deriving DecidableEq, Repr

/-- The message that was delivered. -/
def CodecEvent.message? : CodecEvent → Option RpcMessage
  | .delivered message => some message
  | .reported _ _ _ => none

/-- The codec with the same callbacks, whose calls are written down. -/
def traced {σ : Type} (codec : RpcCodec σ) : RpcCodec (σ × List CodecEvent) where
  messageCallback_ s message receiveTime :=
    (codec.messageCallback_ s.1 message receiveTime, s.2 ++ [.delivered message])
  errorCallback_ s buf receiveTime errorCode :=
    let (conn, after) := codec.errorCallback_ s.1 buf receiveTime errorCode
    ((conn, s.2 ++ [.reported errorCode buf.contents after.contents]), after)

/-- `Explains lib xs events ys`: the calls `events` lead from the buffer contents
`xs` to `ys`.  A delivery takes an authentic frame from the front and nothing else.
An error is reported when no authentic frame stands there, with all bytes still in
place; only the error callback can change them. -/
inductive Explains (lib : RpcLibrary) : List UInt8 → List CodecEvent → List UInt8 → Prop where
  | nil (xs : List UInt8) : Explains lib xs [] xs
  | delivered {header body rest ys : List UInt8} {message : RpcMessage} {events : List CodecEvent}
      (h : Authentic lib header body message) (hrest : Explains lib rest events ys) :
      Explains lib (header ++ (body ++ rest)) (.delivered message :: events) ys
  | reported {errorCode : ErrorCode} {xs after ys : List UInt8} {events : List CodecEvent}
      (h : ∀ header body rest message, Authentic lib header body message →
        xs ≠ header ++ (body ++ rest))
      (hrest : Explains lib after events ys) :
      Explains lib xs (.reported errorCode xs after :: events) ys

/-- Where the error callback leaves the bytes alone, what has left the buffer is the
frames of the delivered messages, one behind the other. -/
theorem Explains.consumed {lib : RpcLibrary} {xs ys : List UInt8} {events : List CodecEvent}
    (h : Explains lib xs events ys)
    (hkeep : ∀ errorCode before after,
      CodecEvent.reported errorCode before after ∈ events → after = before) :
    ∃ frames : List (List UInt8 × List UInt8),
      List.Forall₂ (fun frame message => Authentic lib frame.1 frame.2 message) frames
        (events.filterMap CodecEvent.message?) ∧
      xs = (frames.flatMap fun frame => frame.1 ++ frame.2) ++ ys := by
  induction h with
  | nil xs => exact ⟨[], .nil, rfl⟩
  | @delivered header body rest ys message events h _ ih =>
      obtain ⟨frames, hframes, hrest⟩ := ih fun errorCode before after hmem =>
        hkeep errorCode before after (List.mem_cons_of_mem _ hmem)
      refine ⟨(header, body) :: frames, .cons h hframes, ?_⟩
      rw [List.flatMap_cons, hrest, List.append_assoc, List.append_assoc]
  | @reported errorCode xs after ys events _ _ ih =>
      obtain ⟨frames, hframes, hrest⟩ := ih fun errorCode before after hmem =>
        hkeep errorCode before after (List.mem_cons_of_mem _ hmem)
      refine ⟨frames, hframes, ?_⟩
      rw [← hkeep errorCode xs after List.mem_cons_self]
      exact hrest

section Rounds

variable {σ : Type} {lib : RpcLibrary} {codec : RpcCodec σ} {receiveTime : Timestamp}

/-- A round that calls a callback. -/
structure Round (lib : RpcLibrary) (codec : RpcCodec σ) (receiveTime : Timestamp) (conn : σ)
    (b : Buffer) (conn' : σ) (event : CodecEvent) (b' : Buffer) : Prop where
  body : onMessageBody lib codec receiveTime (conn, b) = .ok (.inl (conn', b'))
  bodyTraced : ∀ done, onMessageBody lib (traced codec) receiveTime ((conn, done), b) =
    .ok (.inl ((conn', done ++ [event]), b'))
  buffer : b'.Inv
  explains : ∀ events ys, Explains lib b'.contents events ys →
    Explains lib b.contents (event :: events) ys

/-- Every round either leaves the loop with the bytes as they were, or calls one of
the callbacks for a reason that the bytes give. -/
theorem leaves_or_round
    (hcallback : ∀ s b t e, b.Inv → (codec.errorCallback_ s b t e).2.Inv)
    (conn : σ) {b : Buffer} (hb : b.Inv) :
    (onMessageBody lib codec receiveTime (conn, b) = .ok (.inr (conn, b)) ∧
      ∀ done, onMessageBody lib (traced codec) receiveTime ((conn, done), b) =
        .ok (.inr ((conn, done), b))) ∨
    ∃ conn' event b', Round lib codec receiveTime conn b conn' event b' := by
  rcases hframe : frameAt lib b.contents with _ | errorCode | ⟨message, size⟩
  · exact .inl ⟨onMessageBody_of_incomplete hb hframe,
      fun done => onMessageBody_of_incomplete hb hframe⟩
  · refine .inr ⟨(codec.errorCallback_ conn b receiveTime errorCode).1,
      .reported errorCode b.contents (codec.errorCallback_ conn b receiveTime errorCode).2.contents,
      (codec.errorCallback_ conn b receiveTime errorCode).2, onMessageBody_of_bad hb hframe,
      fun done => onMessageBody_of_bad hb hframe, hcallback conn b receiveTime errorCode hb, ?_⟩
    intro events ys hrest
    refine .reported ?_ hrest
    intro header body rest message hauthentic hcontents
    rw [hcontents, frameAt_of_authentic hauthentic] at hframe
    exact absurd hframe (by simp)
  · obtain ⟨header, body, rest, hcontents, hsize, hauthentic⟩ := frameAt_good_iff.mp hframe
    have hle := (size_of_frameAt_good hframe).2
    rw [Buffer.contents_length hb] at hle
    obtain ⟨b', hretrieve, hinv, hdrop⟩ := Buffer.retrieve_spec hb hle
    have hrest : b'.contents = rest := by
      rw [hdrop, hcontents, ← List.append_assoc, ← hsize]
      exact List.drop_left' List.length_append
    refine .inr ⟨codec.messageCallback_ conn message receiveTime, .delivered message, b', ?_, ?_,
      hinv, ?_⟩
    · simp only [onMessageBody_spec hb, hframe, hretrieve, ok_bind]
    · intro done
      simp only [onMessageBody_spec hb, hframe, hretrieve, ok_bind]
      rfl
    · intro events ys hexplains
      rw [hcontents]
      exact .delivered hauthentic (hrest ▸ hexplains)

/-- The calls of any number of rounds explain what has become of the buffer. -/
theorem rounds_explained
    (hcallback : ∀ s b t e, b.Inv → (codec.errorCallback_ s b t e).2.Inv)
    (n : Nat) (conn : σ) (done : List CodecEvent) {b : Buffer} (hb : b.Inv) :
    ∃ conn' events b',
      Loop.rounds (onMessageBody lib codec receiveTime) n (conn, b) = .ok (conn', b') ∧
      Loop.rounds (onMessageBody lib (traced codec) receiveTime) n ((conn, done), b) =
        .ok ((conn', done ++ events), b') ∧
      b'.Inv ∧ Explains lib b.contents events b'.contents := by
  induction n generalizing conn done b with
  | zero => exact ⟨conn, [], b, rfl, by rw [List.append_nil]; rfl, hb, .nil _⟩
  | succ n ih =>
      rcases leaves_or_round hcallback conn hb with ⟨hleave, htraced⟩ | ⟨conn₁, event, b₁, hround⟩
      · refine ⟨conn, [], b, Loop.rounds_succ_of_leave hleave n, ?_, hb, .nil _⟩
        rw [List.append_nil]
        exact Loop.rounds_succ_of_leave (htraced done) n
      · obtain ⟨conn', events, b', hcodec, htraced, hinv, hexplains⟩ :=
          ih conn₁ (done ++ [event]) hround.buffer
        refine ⟨conn', event :: events, b', ?_, ?_, hinv, hround.explains events _ hexplains⟩
        · rw [Loop.rounds_succ_of_next hround.body, hcodec]
        · rw [Loop.rounds_succ_of_next (hround.bodyTraced done), htraced, List.append_assoc,
            List.singleton_append]

/-- `onMessage` delivers only authentic frames.  Whatever the buffer holds, after
any number of rounds no read was out of range, and the calls of the callbacks
explain what has become of the bytes; a call of `onMessage` that has returned is at
the end of such rounds.  `parse` reads inside the readable region for every length
that the two tests before it let through. -/
theorem onMessage_delivers_authentic
    (hcallback : ∀ s b t e, b.Inv → (codec.errorCallback_ s b t e).2.Inv)
    (conn : σ) {b : Buffer} (hb : b.Inv) :
    (∀ n, ∃ conn' events b',
      Loop.rounds (onMessageBody lib codec receiveTime) n (conn, b) = .ok (conn', b') ∧
      Loop.rounds (onMessageBody lib (traced codec) receiveTime) n ((conn, []), b) =
        .ok ((conn', events), b') ∧
      (∀ returned, onMessage lib codec receiveTime n (conn, b) = .ok returned →
        returned = (conn', b')) ∧
      Explains lib b.contents events b'.contents ∧
      ((∀ errorCode before after, .reported errorCode before after ∈ events → after = before) →
        ∃ frames : List (List UInt8 × List UInt8),
          List.Forall₂ (fun frame message => Authentic lib frame.1 frame.2 message) frames
            (events.filterMap CodecEvent.message?) ∧
          b.contents = (frames.flatMap fun frame => frame.1 ++ frame.2) ++ b'.contents)) ∧
    ∀ len : Int, kMinMessageLen ≤ len → len ≤ kMaxMessageLen →
      (len + kHeaderLen).toNat ≤ b.readableBytes →
      ∃ verdict, parse lib b (b.peek + kHeaderLen) len = .ok verdict := by
  constructor
  · intro n
    obtain ⟨conn', events, b', hcodec, htraced, _, hexplains⟩ :=
      @rounds_explained σ lib codec receiveTime hcallback n conn [] b hb
    refine ⟨conn', events, b', hcodec, htraced, ?_, hexplains, hexplains.consumed⟩
    intro returned hreturned
    exact Except.ok.inj ((Loop.rounds_of_run hreturned).symm.trans hcodec)
  · intro len hmin _ hreadable
    obtain ⟨k, rfl⟩ : ∃ k : Nat, len = k := Int.eq_ofNat_of_zero_le (by omega)
    exact ⟨_, parse_spec hb (by omega) (by omega)⟩

end Rounds

/-- The frame of a request, the same frame with one bit of its payload flipped, and
two bytes of a third. -/
def tamperedStream : List UInt8 :=
  encode bareLibrary { type := .REQUEST, id := 1 } ++
    ((encode bareLibrary { type := .REQUEST, id := 1 }).set 12 3 ++ [0, 0])

theorem onMessage_delivers_authentic_tamperedStream :
    (received tamperedStream).Inv ∧
      ∃ conn' events b',
        Loop.rounds (onMessageBody bareLibrary (traced recorder) .new) 3
          ((⟨[], []⟩, []), received tamperedStream) = .ok ((conn', events), b') ∧
        Explains bareLibrary (received tamperedStream).contents events b'.contents := by
  have hinv := (received_spec (show tamperedStream.length ≤ Buffer.kInitialSize by decide)).1
  have hcallback : ∀ s b t e, b.Inv → (recorder.errorCallback_ s b t e).2.Inv :=
    fun _ _ _ _ hb => hb
  obtain ⟨conn', events, b', _, htraced, _, hexplains, _⟩ :=
    (@onMessage_delivers_authentic Log bareLibrary recorder .new hcallback ⟨[], []⟩ _ hinv).1 3
  exact ⟨hinv, conn', events, b', htraced, hexplains⟩

end Muduo.Protorpc.RpcCodec
