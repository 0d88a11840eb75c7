/-
  Protorpc/RpcCodec.lean --- `muduo/net/protorpc/RpcCodec.{h,cc}`: framing of RPC
  messages on a byte stream.

  A frame is a 4-byte length, the tag `RPC0`, the serialized message and a 4-byte
  adler32 checksum; the length counts everything behind itself.  `send` builds a
  frame in a `Buffer`, `onMessage` loops over the frames of the input buffer.

  Protocol Buffers and zlib are not part of the repository; what the codec calls of
  them is the parameter `RpcLibrary`.

  `frameAt` says what the bytes at the read position are, without pointers, and
  `onMessageBody_spec` that one round of the loop acts on it.
-/
import Muduo.Base.Timestamp
import Muduo.Foundation.Segment
import Muduo.Net.Buffer
import Muduo.Net.TcpConnection

set_option autoImplicit false

namespace Muduo.Protorpc

open Muduo.Foundation Muduo.Base Muduo.Net

/-! ## `rpc.proto` -/

/-- `enum MessageType`. -/
inductive MessageType where
  | REQUEST
  | RESPONSE
  | ERROR
  deriving DecidableEq, Repr

/-- The `ErrorCode` of `rpc.proto`; `RpcCodec` has another one. -/
inductive ProtoErrorCode where
  | NO_ERROR
  | WRONG_PROTO
  | NO_SERVICE
  | NO_METHOD
  | INVALID_REQUEST
  | INVALID_RESPONSE
  deriving DecidableEq, Repr

/-- `message RpcMessage`: two required fields, the others optional. -/
structure RpcMessage where
  type : MessageType
  id : BitVec 64
  service : Option (List UInt8) := none
  method : Option (List UInt8) := none
  request : Option (List UInt8) := none
  response : Option (List UInt8) := none
  error : Option ProtoErrorCode := none
  deriving DecidableEq, Repr

/-- What the codec uses of Protocol Buffers and zlib. -/
structure RpcLibrary where
  /-- `message.ByteSize()` -/
  byteSize : RpcMessage → Nat
  /-- the bytes that `message.SerializeWithCachedSizesToArray` stores -/
  serialize : RpcMessage → List UInt8
  /-- `message.ParseFromArray`, with the message it fills on success -/
  parseFromArray : List UInt8 → Option RpcMessage
  /-- zlib's `adler32(adler, buf, len)`, cast to 32 bits -/
  adler32 : BitVec 32 → List UInt8 → BitVec 32

/-! ## `class RpcCodec` -/

/-- `RpcCodec::ErrorCode`. -/
inductive ErrorCode where
  | kNoError
  | kInvalidLength
  | kCheckSumError
  | kInvalidNameLen
  | kUnknownMessageType
  | kParseError
  deriving DecidableEq, Repr

/-- The callbacks of a codec.  `σ` is everything they may read and change besides
the buffer: the connection and the state of the user. -/
structure RpcCodec (σ : Type) where
  messageCallback_ : σ → RpcMessage → Timestamp → σ
  errorCallback_ : σ → Buffer → Timestamp → ErrorCode → σ × Buffer

namespace RpcCodec

/-- `sizeof(int32_t)`. -/
def kHeaderLen : Nat := 4
/-- `RPC0` and the checksum. -/
def kMinMessageLen : Nat := 2 * kHeaderLen

/-- `RpcCodec::kMaxMessageLen`. -/
def kMaxMessageLen : Nat := 64 * 1024 * 1024

/-- The tag `"RPC0"`. -/
def kTag : List UInt8 := [82, 80, 67, 48]

/-- `send`, up to `conn->send(&buf)`: the buffer that goes out on the connection.
`ByteSizeConsistencyError` aborts. -/
def send (lib : RpcLibrary) (message : RpcMessage) : Exec Buffer := do
  let buf ← Buffer.new.append kTag
  let byteSize := lib.byteSize message
  let buf ← buf.ensureWritableBytes (byteSize + kHeaderLen)
  let serialized := lib.serialize message
  let buf := buf.store serialized
  assertThat (serialized.length = byteSize)
  let buf := buf.hasWritten byteSize
  let checkSum := lib.adler32 1 buf.contents
  let buf ← buf.appendInt32 checkSum
  assertThat (buf.readableBytes = kHeaderLen + byteSize + kHeaderLen)
  buf.prependInt32 (BitVec.ofNat 32 buf.readableBytes)

/-- `len` bytes read through the pointer `start`, which must lie in the readable
region. -/
def readAt (b : Buffer) (start len : Int) : Exec (List UInt8) :=
  if (b.peek : Int) ≤ start ∧ 0 ≤ len ∧ start + len ≤ b.beginWrite then
    .ok (b.slice start.toNat (start + len).toNat)
  else
    .error .outOfBounds

/-- `asInt32(buf)`. -/
def asInt32 (b : Buffer) (buf : Int) : Exec (BitVec 32) := do
  .ok (BitVec.ofNat 32 (fromNetwork (← readAt b buf 4)))

/-- `parse(buf, len, &message)`, with the message when it was filled. -/
def parse (lib : RpcLibrary) (b : Buffer) (buf len : Int) :
    Exec (ErrorCode × Option RpcMessage) := do
  let expectedCheckSum ← asInt32 b (buf + len - kHeaderLen)
  let checkSum := lib.adler32 1 (← readAt b buf (len - kHeaderLen))
  if checkSum = expectedCheckSum then
    if (← readAt b buf kHeaderLen) = kTag then
      match lib.parseFromArray (← readAt b (buf + kHeaderLen) (len - 2 * kHeaderLen)) with
      | some message => .ok (.kNoError, some message)
      | none => .ok (.kParseError, none)
    else
      .ok (.kUnknownMessageType, none)
  else
    .ok (.kCheckSumError, none)

/-- One round of the `while` loop of `onMessage`; neither error branch leaves it. -/
def onMessageBody {σ : Type} (lib : RpcLibrary) (codec : RpcCodec σ) (receiveTime : Timestamp)
    (s : σ × Buffer) : Exec ((σ × Buffer) ⊕ (σ × Buffer)) :=
  let (conn, buf) := s
  if kMinMessageLen + kHeaderLen ≤ buf.readableBytes then do
    let len := (← buf.peekInt32).toInt
    if len > kMaxMessageLen ∨ len < kMinMessageLen then
      .ok (.inl (codec.errorCallback_ conn buf receiveTime .kInvalidLength))
    else if (len + kHeaderLen).toNat ≤ buf.readableBytes then
      match ← parse lib buf (buf.peek + kHeaderLen) len with
      | (.kNoError, some message) =>
          let conn := codec.messageCallback_ conn message receiveTime
          .ok (.inl (conn, ← buf.retrieve (kHeaderLen + len).toNat))
      | (errorCode, _) =>
          .ok (.inl (codec.errorCallback_ conn buf receiveTime errorCode))
    else
      .ok (.inr (conn, buf))
  else
    .ok (.inr (conn, buf))

/-- `onMessage`, for at most `fuel` rounds of its loop. -/
def onMessage {σ : Type} (lib : RpcLibrary) (codec : RpcCodec σ) (receiveTime : Timestamp)
    (fuel : Nat) (s : σ × Buffer) : Exec (σ × Buffer) :=
  Loop.run (onMessageBody lib codec receiveTime) fuel s

/-- `defaultErrorCallback`: it logs, and shuts down a connection that is still
connected.  `μ` is the state of the user. -/
def defaultErrorCallback {μ : Type} (s : Option TcpConnection × μ) (buf : Buffer)
    (_ : Timestamp) (_ : ErrorCode) : (Option TcpConnection × μ) × Buffer :=
  match s with
  | (some conn, user) =>
      if conn.connected then ((some conn.shutdown, user), buf) else ((some conn, user), buf)
  | (none, user) => ((none, user), buf)

/-- `RpcCodec(messageCb)`. -/
def new {μ : Type} (messageCb : Option TcpConnection × μ → RpcMessage → Timestamp →
    Option TcpConnection × μ) : RpcCodec (Option TcpConnection × μ) where
  messageCallback_ := messageCb
  errorCallback_ := defaultErrorCallback

/-! ## What stands at the read position -/

/-- What some bytes begin with. -/
inductive Frame where
  /-- not enough bytes to tell, or to complete the frame -/
  | incomplete
  /-- `onMessage` reports this error -/
  | bad (errorCode : ErrorCode)
  /-- a frame of `size` bytes, its length field included -/
  | good (message : RpcMessage) (size : Nat)
  deriving DecidableEq, Repr

/-- The signed length field in front of some bytes. -/
def lengthAt (xs : List UInt8) : Int := (BitVec.ofNat 32 (fromNetwork (xs.take kHeaderLen))).toInt

/-- The checks that `parse` makes on the bytes behind the length field. -/
def checkFrame (lib : RpcLibrary) (frame : List UInt8) : ErrorCode × Option RpcMessage :=
  let covered := frame.length - kHeaderLen
  if lib.adler32 1 (frame.take covered) = BitVec.ofNat 32 (fromNetwork (frame.drop covered)) then
    if frame.take kHeaderLen = kTag then
      match lib.parseFromArray ((frame.take covered).drop kHeaderLen) with
      | some message => (.kNoError, some message)
      | none => (.kParseError, none)
    else (.kUnknownMessageType, none)
  else (.kCheckSumError, none)

/-- The frame that some bytes begin with. -/
def frameAt (lib : RpcLibrary) (xs : List UInt8) : Frame :=
  if xs.length < kMinMessageLen + kHeaderLen then .incomplete
  else if lengthAt xs > kMaxMessageLen ∨ lengthAt xs < kMinMessageLen then .bad .kInvalidLength
  else if xs.length < kHeaderLen + (lengthAt xs).toNat then .incomplete
  else
    match checkFrame lib ((xs.drop kHeaderLen).take (lengthAt xs).toNat) with
    | (.kNoError, some message) => .good message (kHeaderLen + (lengthAt xs).toNat)
    | (errorCode, _) => .bad errorCode

/-- Bytes read at a distance from `peek()` that the readable region covers. -/
theorem readAt_spec {b : Buffer} {i n : Nat} (hb : b.Inv) (h : i + n ≤ b.readableBytes) :
    readAt b (b.peek + i : Nat) n = .ok ((b.contents.drop i).take n) := by
  have hreader := hb.reader_le
  have hbounds : (b.peek : Int) ≤ (b.peek + i : Nat) ∧ (0 : Int) ≤ n ∧
      ((b.peek + i : Nat) : Int) + n ≤ b.beginWrite := by
    simp only [Buffer.readableBytes] at h
    simp only [Buffer.peek, Buffer.beginWrite]
    omega
  have hend : (((b.peek + i : Nat) : Int) + n).toNat = b.peek + (i + n) := by omega
  rw [readAt, if_pos hbounds, hend, Int.toNat_natCast]
  congr 1
  rw [List.take_drop, ← Buffer.slice_peek h, Buffer.slice, Buffer.slice, List.drop_drop]

/-- `parse` reads inside the readable region, and makes the checks of `checkFrame`. -/
theorem parse_spec {lib : RpcLibrary} {b : Buffer} {len : Nat} (hb : b.Inv)
    (hmin : kMinMessageLen ≤ len) (hreadable : kHeaderLen + len ≤ b.readableBytes) :
    parse lib b ((b.peek : Int) + kHeaderLen) len =
      .ok (checkFrame lib ((b.contents.drop kHeaderLen).take len)) := by
  have hlen : ((b.contents.drop kHeaderLen).take len).length = len := by
    rw [List.length_take, List.length_drop, Buffer.contents_length hb]
    omega
  simp only [kMinMessageLen, kHeaderLen] at hmin hreadable hlen ⊢
  have hsum : asInt32 b ((b.peek : Int) + (4 : Nat) + len - (4 : Nat)) =
      .ok (BitVec.ofNat 32 (fromNetwork (((b.contents.drop 4).take len).drop (len - 4)))) := by
    have hstart : (b.peek : Int) + (4 : Nat) + len - (4 : Nat) = (b.peek + len : Nat) := by omega
    have hread : readAt b (b.peek + len : Nat) 4 = .ok ((b.contents.drop len).take 4) :=
      readAt_spec hb (Nat.add_comm len 4 ▸ hreadable)
    have hpos : 4 + (len - 4) = len := by omega
    have hcount : len - (len - 4) = 4 := by omega
    rw [asInt32, hstart, hread, ok_bind, List.drop_take, List.drop_drop, hpos, hcount]
  have hcovered : readAt b ((b.peek : Int) + (4 : Nat)) ((len : Int) - (4 : Nat)) =
      .ok (((b.contents.drop 4).take len).take (len - 4)) := by
    have hstart : (b.peek : Int) + (4 : Nat) = (b.peek + 4 : Nat) := by omega
    have hn : (len : Int) - (4 : Nat) = (len - 4 : Nat) := by omega
    rw [hstart, hn, readAt_spec hb (by omega), List.take_take]
    congr 2
    omega
  have htag : readAt b ((b.peek : Int) + (4 : Nat)) (4 : Nat) =
      .ok (((b.contents.drop 4).take len).take 4) := by
    have hstart : (b.peek : Int) + (4 : Nat) = (b.peek + 4 : Nat) := by omega
    rw [hstart, readAt_spec hb (by omega), List.take_take]
    congr 2
    omega
  have hdata : readAt b ((b.peek : Int) + (4 : Nat) + (4 : Nat)) ((len : Int) - 2 * (4 : Nat)) =
      .ok ((((b.contents.drop 4).take len).take (len - 4)).drop 4) := by
    have hstart : (b.peek : Int) + (4 : Nat) + (4 : Nat) = (b.peek + 8 : Nat) := by omega
    have hn : (len : Int) - 2 * (4 : Nat) = (len - 8 : Nat) := by omega
    rw [hstart, hn, readAt_spec hb (by omega), List.take_take, List.drop_take, List.drop_drop]
    congr 2
    omega
  simp only [parse, kHeaderLen, hsum, hcovered, htag, hdata, ok_bind, checkFrame, hlen]
  split
  · split
    · split <;> rfl
    · rfl
  · rfl

/-- One round of the loop acts on what stands at the read position. -/
theorem onMessageBody_spec {σ : Type} {lib : RpcLibrary} {codec : RpcCodec σ}
    {receiveTime : Timestamp} {conn : σ} {b : Buffer} (hb : b.Inv) :
    onMessageBody lib codec receiveTime (conn, b) =
      match frameAt lib b.contents with
      | .incomplete => .ok (.inr (conn, b))
      | .bad errorCode => .ok (.inl (codec.errorCallback_ conn b receiveTime errorCode))
      | .good message size =>
          b.retrieve size >>= fun rest =>
            .ok (.inl (codec.messageCallback_ conn message receiveTime, rest)) := by
  have hlength := Buffer.contents_length hb
  by_cases hshort : b.contents.length < kMinMessageLen + kHeaderLen
  · have hloop : ¬ kMinMessageLen + kHeaderLen ≤ b.readableBytes := by omega
    simp only [onMessageBody, frameAt, if_pos hshort, if_neg hloop]
  have hloop : kMinMessageLen + kHeaderLen ≤ b.readableBytes := by omega
  have hpeek : b.peekInt32 = .ok (BitVec.ofNat 32 (fromNetwork (b.contents.take 4))) :=
    Buffer.peekInt32_spec (by simp only [kMinMessageLen, kHeaderLen] at hloop; omega)
  have hlen : (BitVec.ofNat 32 (fromNetwork (b.contents.take 4))).toInt = lengthAt b.contents := rfl
  simp only [onMessageBody, frameAt, if_neg hshort, if_pos hloop, hpeek, ok_bind, hlen]
  by_cases hinvalid : lengthAt b.contents > kMaxMessageLen ∨ lengthAt b.contents < kMinMessageLen
  · simp only [if_pos hinvalid]
  simp only [if_neg hinvalid]
  obtain ⟨len, hlenNat⟩ : ∃ len : Nat, lengthAt b.contents = len :=
    Int.eq_ofNat_of_zero_le (by simp only [kMinMessageLen, kHeaderLen] at hinvalid; omega)
  rw [hlenNat] at hinvalid ⊢
  have hsize : ((len : Int) + kHeaderLen).toNat = kHeaderLen + len := by omega
  have hsize' : ((kHeaderLen : Int) + len).toNat = kHeaderLen + len := by omega
  by_cases hcomplete : b.contents.length < kHeaderLen + len
  · have hwait : ¬ ((len : Int) + kHeaderLen).toNat ≤ b.readableBytes := by omega
    simp only [if_neg hwait, Int.toNat_natCast, if_pos hcomplete]
  have hgo : ((len : Int) + kHeaderLen).toNat ≤ b.readableBytes := by omega
  have hparse := @parse_spec lib b len hb (by omega) (by omega)
  simp only [if_pos hgo, Int.toNat_natCast, if_neg hcomplete, hparse, ok_bind, hsize']
  rcases checkFrame lib ((b.contents.drop kHeaderLen).take len) with ⟨errorCode, message⟩
  cases errorCode <;> cases message <;> rfl

/-- What was tested of a good frame. -/
theorem of_frameAt_good {lib : RpcLibrary} {xs : List UInt8} {message : RpcMessage} {size : Nat}
    (h : frameAt lib xs = .good message size) :
    ¬ xs.length < kMinMessageLen + kHeaderLen ∧
      ¬ (lengthAt xs > kMaxMessageLen ∨ lengthAt xs < kMinMessageLen) ∧
      ¬ xs.length < kHeaderLen + (lengthAt xs).toNat ∧
      checkFrame lib ((xs.drop kHeaderLen).take (lengthAt xs).toNat) = (.kNoError, some message) ∧
      size = kHeaderLen + (lengthAt xs).toNat := by
  unfold frameAt at h
  split at h
  · exact absurd h (by simp)
  split at h
  · exact absurd h (by simp)
  split at h
  · exact absurd h (by simp)
  rename_i hlong hvalid hcomplete
  split at h
  · rename_i message' hcheck
    obtain ⟨rfl, rfl⟩ := Frame.good.inj h
    exact ⟨hlong, hvalid, hcomplete, hcheck, rfl⟩
  · exact absurd h (by simp)

/-- A good frame lies inside the bytes and is not empty. -/
theorem size_of_frameAt_good {lib : RpcLibrary} {xs : List UInt8} {message : RpcMessage}
    {size : Nat} (h : frameAt lib xs = .good message size) :
    kMinMessageLen + kHeaderLen ≤ size ∧ size ≤ xs.length := by
  obtain ⟨_, hinvalid, hcomplete, _, rfl⟩ := of_frameAt_good h
  simp only [kMinMessageLen, kHeaderLen] at hinvalid hcomplete ⊢
  omega

section Round

variable {σ : Type} {lib : RpcLibrary} {codec : RpcCodec σ} {receiveTime : Timestamp} {conn : σ}
  {b : Buffer}

/-- For want of more bytes the loop ends. -/
theorem onMessageBody_of_incomplete (hb : b.Inv) (hframe : frameAt lib b.contents = .incomplete) :
    onMessageBody lib codec receiveTime (conn, b) = .ok (.inr (conn, b)) := by
  rw [onMessageBody_spec hb, hframe]

/-- A malformed frame is reported and stays where it is. -/
theorem onMessageBody_of_bad (hb : b.Inv) {errorCode : ErrorCode}
    (hframe : frameAt lib b.contents = .bad errorCode) :
    onMessageBody lib codec receiveTime (conn, b) =
      .ok (.inl (codec.errorCallback_ conn b receiveTime errorCode)) := by
  rw [onMessageBody_spec hb, hframe]

/-- A good frame is delivered and taken out of the buffer. -/
theorem onMessageBody_of_good (hb : b.Inv) {message : RpcMessage} {size : Nat}
    (hframe : frameAt lib b.contents = .good message size) :
    ∃ b', onMessageBody lib codec receiveTime (conn, b) =
        .ok (.inl (codec.messageCallback_ conn message receiveTime, b')) ∧ b'.Inv ∧
      b'.contents = b.contents.drop size := by
  have hsize := (size_of_frameAt_good hframe).2
  rw [Buffer.contents_length hb] at hsize
  obtain ⟨b', hb', hinv, hcontents⟩ := Buffer.retrieve_spec hb hsize
  refine ⟨b', ?_, hinv, hcontents⟩
  rw [onMessageBody_spec hb, hframe]
  simp only [hb', ok_bind]

end Round

/-- Bytes that arrive later do not change what stands at the read position. -/
theorem frameAt_append {lib : RpcLibrary} {xs : List UInt8} (ys : List UInt8)
    (h : frameAt lib xs ≠ .incomplete) : frameAt lib (xs ++ ys) = frameAt lib xs := by
  by_cases hshort : xs.length < kMinMessageLen + kHeaderLen
  · exact absurd (by simp only [frameAt, if_pos hshort]) h
  have hshort' : ¬ (xs ++ ys).length < kMinMessageLen + kHeaderLen := by
    rw [List.length_append]
    omega
  have hlen : lengthAt (xs ++ ys) = lengthAt xs := by
    simp only [kMinMessageLen, kHeaderLen] at hshort
    rw [lengthAt, lengthAt, kHeaderLen, List.take_append_of_le_length (by omega)]
  by_cases hinvalid : lengthAt xs > kMaxMessageLen ∨ lengthAt xs < kMinMessageLen
  · simp only [frameAt, if_neg hshort, if_neg hshort', hlen, if_pos hinvalid]
  by_cases hcomplete : xs.length < kHeaderLen + (lengthAt xs).toNat
  · exact absurd (by simp only [frameAt, if_neg hshort, if_neg hinvalid, if_pos hcomplete]) h
  have hcomplete' : ¬ (xs ++ ys).length < kHeaderLen + (lengthAt xs).toNat := by
    rw [List.length_append]
    omega
  have hframe : ((xs ++ ys).drop kHeaderLen).take (lengthAt xs).toNat =
      (xs.drop kHeaderLen).take (lengthAt xs).toNat := by
    rw [List.drop_append_of_le_length (by omega),
      List.take_append_of_le_length (by rw [List.length_drop]; omega)]
  simp only [frameAt, if_neg hshort, if_neg hshort', hlen, if_neg hinvalid, if_neg hcomplete,
    if_neg hcomplete', hframe]

end RpcCodec

end Muduo.Protorpc
