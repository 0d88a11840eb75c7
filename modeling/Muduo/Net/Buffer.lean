/-
  Net/Buffer.lean --- `muduo::net::Buffer` (src/muduo/net/Buffer.h, Buffer.cc).

      +-------------------+------------------+------------------+
      | prependable bytes |  readable bytes  |  writable bytes  |
      |                   |     (CONTENT)    |                  |
      +-------------------+------------------+------------------+
      0      <=      readerIndex_   <=   writerIndex_   <=    size

  The definitions follow the methods of the class one by one.  `buffer_` is the
  vector, a `const char *` into it is its offset from `begin()`, and a method
  whose body holds an `assert` returns `Exec`.  `size_t` values are natural
  numbers; `Buffer.SumsFit` states that the sums the code forms stay below 2^64.

  `Buffer.Inv` is the picture above.  Every method has one specification lemma,
  `<method>_spec`: from a buffer with the invariant and the method's precondition
  no assertion fails, the invariant holds again, and `contents`, the readable
  bytes, changed as documented.  Clients use these lemmas and never unfold.
-/
import Muduo.Foundation.Exec
import Muduo.Foundation.Bytes

set_option autoImplicit false

namespace Muduo.Net

open Muduo.Foundation

/-- `class Buffer`. -/
structure Buffer where
  buffer_ : List UInt8
  readerIndex_ : Nat
  writerIndex_ : Nat
  deriving DecidableEq, Repr

namespace Buffer

/-- Bytes reserved in front of the contents. -/
def kCheapPrepend : Nat := 8
/-- Writable bytes of a new buffer. -/
def kInitialSize : Nat := 1024
/-- The line terminator `"\r\n"`. -/
def kCRLF : List UInt8 := [13, 10]

/-- `Buffer()`. -/
def new : Buffer where
  buffer_ := List.replicate (kCheapPrepend + kInitialSize) 0
  readerIndex_ := kCheapPrepend
  writerIndex_ := kCheapPrepend

/-! ## Observers -/

/-- `readableBytes()`. -/
def readableBytes (b : Buffer) : Nat := b.writerIndex_ - b.readerIndex_

/-- `writableBytes()`. -/
def writableBytes (b : Buffer) : Nat := b.buffer_.length - b.writerIndex_

/-- `prependableBytes()`. -/
def prependableBytes (b : Buffer) : Nat := b.readerIndex_

/-- `peek()`, as a position in `buffer_`. -/
def peek (b : Buffer) : Nat := b.readerIndex_

/-- `beginWrite()`. -/
def beginWrite (b : Buffer) : Nat := b.writerIndex_

/-- The bytes from pointer `first` up to, not including, pointer `last`. -/
def slice (b : Buffer) (first last : Nat) : List UInt8 :=
  (b.buffer_.take last).drop first

/-- The readable bytes, `[peek(), beginWrite())`. -/
def contents (b : Buffer) : List UInt8 := b.slice b.peek b.beginWrite

/-- `findCRLF()`: a pointer to the first `"\r\n"` of the readable bytes. -/
def findCRLF (b : Buffer) : Option Nat :=
  (search kCRLF b.contents).map (b.peek + ·)

/-! ## Removing from the front -/

/-- `retrieveAll()`. -/
def retrieveAll (b : Buffer) : Buffer :=
  { b with readerIndex_ := kCheapPrepend, writerIndex_ := kCheapPrepend }

/-- `retrieve(len)`. -/
def retrieve (b : Buffer) (len : Nat) : Exec Buffer := do
  assertThat (len ≤ b.readableBytes)
  if len < b.readableBytes then
    .ok { b with readerIndex_ := b.readerIndex_ + len }
  else
    .ok b.retrieveAll

/-- `retrieveUntil(end)`. -/
def retrieveUntil (b : Buffer) (end_ : Nat) : Exec Buffer := do
  assertThat (b.peek ≤ end_)
  assertThat (end_ ≤ b.beginWrite)
  b.retrieve (end_ - b.peek)

/-- `retrieveAsString(len)`. -/
def retrieveAsString (b : Buffer) (len : Nat) : Exec (List UInt8 × Buffer) := do
  assertThat (len ≤ b.readableBytes)
  let result := b.slice b.peek (b.peek + len)
  let b ← b.retrieve len
  .ok (result, b)

/-- `retrieveAllAsString()`. -/
def retrieveAllAsString (b : Buffer) : Exec (List UInt8 × Buffer) :=
  b.retrieveAsString b.readableBytes

/-! ## Appending at the back -/

/-- `hasWritten(len)`. -/
def hasWritten (b : Buffer) (len : Nat) : Buffer :=
  { b with writerIndex_ := b.writerIndex_ + len }

/-- A caller storing bytes through the pointer `beginWrite()`. -/
def store (b : Buffer) (data : List UInt8) : Buffer :=
  { b with buffer_ := overwrite b.buffer_ b.beginWrite data }

/-- `makeSpace`: grow the vector, or move the contents back to `kCheapPrepend`. -/
def makeSpace (b : Buffer) (len : Nat) : Exec Buffer :=
  if b.writableBytes + b.prependableBytes < len + kCheapPrepend then
    .ok { b with buffer_ := resize 0 b.buffer_ (b.writerIndex_ + len) }
  else do
    assertThat (kCheapPrepend < b.readerIndex_)
    let readable := b.readableBytes
    let moved : Buffer :=
      { buffer_ := overwrite b.buffer_ kCheapPrepend b.contents
        readerIndex_ := kCheapPrepend
        writerIndex_ := kCheapPrepend + readable }
    assertThat (readable = moved.readableBytes)
    .ok moved

/-- `ensureWritableBytes(len)`. -/
def ensureWritableBytes (b : Buffer) (len : Nat) : Exec Buffer := do
  let b ← if b.writableBytes < len then b.makeSpace len else .ok b
  assertThat (len ≤ b.writableBytes)
  .ok b

/-- `append(data, len)`. -/
def append (b : Buffer) (data : List UInt8) : Exec Buffer := do
  let b ← b.ensureWritableBytes data.length
  .ok ((b.store data).hasWritten data.length)

/-! ## Prepending -/

/-- `prepend(data, len)`. -/
def prepend (b : Buffer) (data : List UInt8) : Exec Buffer := do
  assertThat (data.length ≤ b.prependableBytes)
  let readerIndex_ := b.readerIndex_ - data.length
  .ok { b with readerIndex_, buffer_ := overwrite b.buffer_ readerIndex_ data }

/-! ## Integers in network byte order

`hostToNetworkN` followed by a copy of the object's bytes stores the network
representation whatever the host's byte order is, so the three widths share one
definition each. -/

/-- `appendInt32` and its siblings: the bytes in network order. -/
def appendInt (b : Buffer) (width value : Nat) : Exec Buffer :=
  b.append (toNetwork width value)

/-- `appendInt32(x)`. -/
def appendInt32 (b : Buffer) (x : BitVec 32) : Exec Buffer := b.appendInt 4 x.toNat

/-- `appendInt16(x)`. -/
def appendInt16 (b : Buffer) (x : BitVec 16) : Exec Buffer := b.appendInt 2 x.toNat

/-- `appendInt8(x)`. -/
def appendInt8 (b : Buffer) (x : BitVec 8) : Exec Buffer := b.appendInt 1 x.toNat

/-- `prependInt32` and its siblings. -/
def prependInt (b : Buffer) (width value : Nat) : Exec Buffer :=
  b.prepend (toNetwork width value)

/-- `prependInt32(x)`. -/
def prependInt32 (b : Buffer) (x : BitVec 32) : Exec Buffer := b.prependInt 4 x.toNat

/-- `prependInt16(x)`. -/
def prependInt16 (b : Buffer) (x : BitVec 16) : Exec Buffer := b.prependInt 2 x.toNat

/-- `prependInt8(x)`. -/
def prependInt8 (b : Buffer) (x : BitVec 8) : Exec Buffer := b.prependInt 1 x.toNat

/-- `peekInt32` and its siblings. -/
def peekInt (b : Buffer) (width : Nat) : Exec Nat := do
  assertThat (width ≤ b.readableBytes)
  .ok (fromNetwork (b.slice b.peek (b.peek + width)))

/-- `peekInt32()`. -/
def peekInt32 (b : Buffer) : Exec (BitVec 32) := do .ok (BitVec.ofNat 32 (← b.peekInt 4))

/-- `peekInt16()`. -/
def peekInt16 (b : Buffer) : Exec (BitVec 16) := do .ok (BitVec.ofNat 16 (← b.peekInt 2))

/-- `peekInt8()`. -/
def peekInt8 (b : Buffer) : Exec (BitVec 8) := do .ok (BitVec.ofNat 8 (← b.peekInt 1))

/-- `readInt32()`. -/
def readInt32 (b : Buffer) : Exec (BitVec 32 × Buffer) := do
  let result ← b.peekInt32
  .ok (result, ← b.retrieve 4)

/-- `readInt16()`. -/
def readInt16 (b : Buffer) : Exec (BitVec 16 × Buffer) := do
  let result ← b.peekInt16
  .ok (result, ← b.retrieve 2)

/-- `readInt8()`. -/
def readInt8 (b : Buffer) : Exec (BitVec 8 × Buffer) := do
  let result ← b.peekInt8
  .ok (result, ← b.retrieve 1)

/-! ## Reading from a descriptor -/

/-- What `readv(2)` does: it fails with an `errno`, or it delivers bytes, filling
`vec[0]` before `vec[1]`. -/
inductive ReadvResult where
  | failed (errno : Int)
  | received (bytes : List UInt8)
  deriving DecidableEq, Repr

/-- The return value of `readv(2)`. -/
def ReadvResult.count : ReadvResult → Int
  | .failed _ => -1
  | .received bytes => bytes.length

/-- `sizeof(extrabuf)`. -/
def kExtrabuf : Nat := 65536

/-- `readFd`: the result of `readv`, the saved `errno`, and the buffer after it. -/
def readFd (b : Buffer) (result : ReadvResult) : Exec (Int × Option Int × Buffer) :=
  match result with
  | .failed errno => .ok (result.count, some errno, b)
  | .received bytes => do
      let writable := b.writableBytes
      -- the kernel has filled the writable bytes before it touched `extrabuf`
      let filled := b.store (bytes.take writable)
      let extrabuf := bytes.drop writable
      if bytes.length ≤ writable then
        .ok (result.count, none, filled.hasWritten bytes.length)
      else do
        let full : Buffer := { filled with writerIndex_ := filled.buffer_.length }
        .ok (result.count, none, ← full.append extrabuf)

/-! ## The invariant -/

/-- `0 <= readerIndex_ <= writerIndex_ <= buffer_.size()`, and the vector never
shrinks below the reserved prefix. -/
structure Inv (b : Buffer) : Prop where
  reader_le : b.readerIndex_ ≤ b.writerIndex_
  writer_le : b.writerIndex_ ≤ b.buffer_.length
  cheap_le : kCheapPrepend ≤ b.buffer_.length

/-- Every `size_t` sum that `makeSpace(len)` and `append` form is below 2^64. -/
def SumsFit (b : Buffer) (len : Nat) : Prop :=
  b.writableBytes + b.prependableBytes < 2 ^ 64 ∧ len + kCheapPrepend < 2 ^ 64 ∧
    b.writerIndex_ + len < 2 ^ 64

theorem Inv.sumsFit {b : Buffer} (hb : b.Inv) (hsize : b.buffer_.length < 2 ^ 63)
    {len : Nat} (hlen : len < 2 ^ 63) : b.SumsFit len := by
  obtain ⟨hr, hw, _⟩ := hb
  simp only [SumsFit, writableBytes, prependableBytes, kCheapPrepend]
  omega

theorem contents_eq (b : Buffer) :
    b.contents = (b.buffer_.drop b.readerIndex_).take b.readableBytes := by
  rw [contents, slice, List.drop_take]
  rfl

/-- The constructor's three assertions, and the invariant. -/
theorem new_spec : new.Inv ∧ new.contents = [] ∧ new.readableBytes = 0 ∧
    new.writableBytes = kInitialSize ∧ new.prependableBytes = kCheapPrepend := by
  have hsize : new.buffer_.length = kCheapPrepend + kInitialSize := List.length_replicate
  refine ⟨⟨Nat.le_refl _, ?_, ?_⟩, ?_, Nat.sub_self _, ?_, rfl⟩
  · exact hsize ▸ Nat.le_add_right _ _
  · exact hsize ▸ Nat.le_add_right _ _
  · rw [contents_eq]
    exact List.take_zero
  · rw [writableBytes, hsize]
    exact Nat.add_sub_cancel_left _ _

theorem contents_length {b : Buffer} (hb : b.Inv) : b.contents.length = b.readableBytes := by
  obtain ⟨hr, hw, _⟩ := hb
  rw [contents_eq, List.length_take, List.length_drop]
  simp only [readableBytes]
  omega

/-- Bytes read through `peek()` are the first readable ones. -/
theorem slice_peek {b : Buffer} {len : Nat} (hlen : len ≤ b.readableBytes) :
    b.slice b.peek (b.peek + len) = b.contents.take len := by
  rw [contents_eq, slice, List.drop_take, Nat.add_sub_cancel_left, List.take_take,
    Nat.min_eq_left hlen]
  rfl

/-! ## Specifications: removing -/

theorem retrieveAll_spec {b : Buffer} (hb : b.Inv) :
    b.retrieveAll.Inv ∧ b.retrieveAll.contents = [] := by
  refine ⟨⟨Nat.le_refl _, hb.cheap_le, hb.cheap_le⟩, ?_⟩
  simp [contents_eq, retrieveAll, readableBytes]

theorem retrieve_spec {b : Buffer} (hb : b.Inv) {len : Nat} (hlen : len ≤ b.readableBytes) :
    ∃ b', b.retrieve len = .ok b' ∧ b'.Inv ∧ b'.contents = b.contents.drop len := by
  by_cases hlt : len < b.readableBytes
  · refine ⟨{ b with readerIndex_ := b.readerIndex_ + len }, ?_, ⟨?_, hb.writer_le, hb.cheap_le⟩,
      ?_⟩
    · simp [retrieve, hlen, hlt]
    · simp only [readableBytes] at hlt ⊢
      omega
    · simp only [contents, slice, peek, beginWrite, List.drop_drop]
  · refine ⟨b.retrieveAll, ?_, (retrieveAll_spec hb).1, ?_⟩
    · simp [retrieve, hlen, hlt]
    · rw [(retrieveAll_spec hb).2, List.drop_eq_nil_of_le]
      rw [contents_length hb]
      omega

theorem retrieveUntil_spec {b : Buffer} (hb : b.Inv) {len : Nat} (hlen : len ≤ b.readableBytes) :
    ∃ b', b.retrieveUntil (b.peek + len) = .ok b' ∧ b'.Inv ∧
      b'.contents = b.contents.drop len := by
  obtain ⟨b', hb', hinv, hcontents⟩ := retrieve_spec hb hlen
  have hend : b.peek + len ≤ b.beginWrite := by
    have := hb.reader_le
    simp only [readableBytes, peek, beginWrite] at hlen ⊢
    omega
  refine ⟨b', ?_, hinv, hcontents⟩
  simp [retrieveUntil, hend, hb']

theorem retrieveAsString_spec {b : Buffer} (hb : b.Inv) {len : Nat}
    (hlen : len ≤ b.readableBytes) :
    ∃ b', b.retrieveAsString len = .ok (b.contents.take len, b') ∧ b'.Inv ∧
      b'.contents = b.contents.drop len := by
  obtain ⟨b', hb', hinv, hcontents⟩ := retrieve_spec hb hlen
  exact ⟨b', by simp [retrieveAsString, hlen, hb', slice_peek hlen], hinv, hcontents⟩

theorem retrieveAllAsString_spec {b : Buffer} (hb : b.Inv) :
    ∃ b', b.retrieveAllAsString = .ok (b.contents, b') ∧ b'.Inv ∧ b'.contents = [] := by
  obtain ⟨b', hb', hinv, hcontents⟩ := retrieveAsString_spec hb (Nat.le_refl b.readableBytes)
  rw [← contents_length hb, List.take_length, List.drop_length] at *
  exact ⟨b', by rw [retrieveAllAsString, ← contents_length hb, hb'], hinv, hcontents⟩

/-! ## Specifications: appending -/

/-- `makeSpace` is only called when the writable bytes do not suffice.  Then its
assertion `kCheapPrepend < readerIndex_` holds on the branch that moves the
contents, because the space must come from in front of them. -/
theorem makeSpace_spec {b : Buffer} (hb : b.Inv) {len : Nat} (hlen : b.writableBytes < len) :
    ∃ b', b.makeSpace len = .ok b' ∧ b'.Inv ∧ b'.contents = b.contents ∧
      len ≤ b'.writableBytes ∧ min b.readerIndex_ kCheapPrepend ≤ b'.readerIndex_ := by
  have hcl := contents_length hb
  obtain ⟨hr, hw, hc⟩ := hb
  by_cases hgrow : b.writableBytes + b.prependableBytes < len + kCheapPrepend
  · refine ⟨{ b with buffer_ := resize 0 b.buffer_ (b.writerIndex_ + len) }, ?_,
      ⟨hr, ?_, ?_⟩, ?_, ?_, ?_⟩
    · simp [makeSpace, hgrow]
    · simp
    · simp only [resize_length, writableBytes] at hlen ⊢
      omega
    · simp only [contents, slice, peek, beginWrite]
      rw [take_resize hw]
      simp only [writableBytes] at hlen
      omega
    · simp [writableBytes]
    · exact Nat.min_le_left _ _
  · simp only [writableBytes, prependableBytes] at hlen hgrow
    have hassert : kCheapPrepend < b.readerIndex_ := by omega
    have hfits : kCheapPrepend + b.contents.length ≤ b.buffer_.length := by
      simp only [hcl, readableBytes]
      omega
    refine ⟨⟨overwrite b.buffer_ kCheapPrepend b.contents, kCheapPrepend,
      kCheapPrepend + b.readableBytes⟩, ?_, ⟨?_, ?_, ?_⟩, ?_, ?_, ?_⟩
    · simp [makeSpace, writableBytes, prependableBytes, hgrow, hassert, readableBytes]
    · exact Nat.le_add_right _ _
    · simpa [overwrite_length hfits, ← hcl] using hfits
    · simpa [overwrite_length hfits] using hc
    · rw [contents, slice, beginWrite, peek, ← hcl, take_overwrite_end (by omega)]
      exact List.drop_left' (by simp [hc])
    · simp only [writableBytes, overwrite_length hfits, readableBytes]
      omega
    · exact Nat.min_le_right _ _

theorem ensureWritableBytes_spec {b : Buffer} (hb : b.Inv) (len : Nat) :
    ∃ b', b.ensureWritableBytes len = .ok b' ∧ b'.Inv ∧ b'.contents = b.contents ∧
      len ≤ b'.writableBytes ∧ min b.readerIndex_ kCheapPrepend ≤ b'.readerIndex_ := by
  by_cases hlt : b.writableBytes < len
  · obtain ⟨b', hb', hinv, hcontents, hwritable, hreader⟩ := makeSpace_spec hb hlt
    refine ⟨b', ?_, hinv, hcontents, hwritable, hreader⟩
    simp [ensureWritableBytes, hlt, hb', hwritable]
  · refine ⟨b, ?_, hb, rfl, by omega, Nat.min_le_left _ _⟩
    have hle : len ≤ b.writableBytes := by omega
    simp [ensureWritableBytes, hlt, hle]

/-- A write through `beginWrite()` followed by `hasWritten`. -/
theorem store_hasWritten_spec {b : Buffer} (hb : b.Inv) {data : List UInt8}
    (hdata : data.length ≤ b.writableBytes) :
    ((b.store data).hasWritten data.length).Inv ∧
      ((b.store data).hasWritten data.length).contents = b.contents ++ data := by
  obtain ⟨hr, hw, hc⟩ := hb
  have hfits : b.writerIndex_ + data.length ≤ b.buffer_.length := by
    simp only [writableBytes] at hdata
    omega
  refine ⟨⟨?_, ?_, ?_⟩, ?_⟩
  · simp only [hasWritten, store]
    omega
  · simpa only [hasWritten, store, beginWrite, overwrite_length hfits] using hfits
  · simpa only [hasWritten, store, beginWrite, overwrite_length hfits] using hc
  · simp only [contents, slice, hasWritten, store, beginWrite, peek]
    rw [take_overwrite_end hw, List.drop_append_of_le_length (by simp [hw, hr])]

theorem append_spec {b : Buffer} (hb : b.Inv) (data : List UInt8) :
    ∃ b', b.append data = .ok b' ∧ b'.Inv ∧ b'.contents = b.contents ++ data ∧
      min b.readerIndex_ kCheapPrepend ≤ b'.readerIndex_ := by
  obtain ⟨b₁, hb₁, hinv₁, hcontents₁, hwritable, hreader⟩ :=
    ensureWritableBytes_spec hb data.length
  obtain ⟨hinv, hcontents⟩ := store_hasWritten_spec hinv₁ hwritable
  refine ⟨(b₁.store data).hasWritten data.length, ?_, hinv, ?_, hreader⟩
  · simp [append, hb₁]
  · rw [hcontents, hcontents₁]

theorem prepend_spec {b : Buffer} (hb : b.Inv) {data : List UInt8}
    (hdata : data.length ≤ b.prependableBytes) :
    ∃ b', b.prepend data = .ok b' ∧ b'.Inv ∧ b'.contents = data ++ b.contents := by
  obtain ⟨hr, hw, hc⟩ := hb
  simp only [prependableBytes] at hdata
  have hend : b.readerIndex_ - data.length + data.length = b.readerIndex_ := by omega
  have hlen : (overwrite b.buffer_ (b.readerIndex_ - data.length) data).length
      = b.buffer_.length := overwrite_length (by omega)
  refine ⟨{ b with
    readerIndex_ := b.readerIndex_ - data.length
    buffer_ := overwrite b.buffer_ (b.readerIndex_ - data.length) data },
    ?_, ⟨?_, ?_, ?_⟩, ?_⟩
  · simp [prepend, prependableBytes, hdata]
  · show b.readerIndex_ - data.length ≤ b.writerIndex_
    omega
  · simpa [hlen] using hw
  · simpa [hlen] using hc
  · have hpos : b.readerIndex_ - data.length ≤ b.buffer_.length := by omega
    rw [contents_eq, contents_eq, drop_overwrite hpos, hend]
    simp only [readableBytes]
    have hsplit : b.writerIndex_ - (b.readerIndex_ - data.length)
        = data.length + (b.writerIndex_ - b.readerIndex_) := by omega
    rw [hsplit, List.take_length_add_append]

/-! ## Specifications: integers -/

theorem peekInt_spec {b : Buffer} {width : Nat} (hwidth : width ≤ b.readableBytes) :
    b.peekInt width = .ok (fromNetwork (b.contents.take width)) := by
  simp [peekInt, hwidth, slice_peek hwidth]

theorem peekInt32_spec {b : Buffer} (h : 4 ≤ b.readableBytes) :
    b.peekInt32 = .ok (BitVec.ofNat 32 (fromNetwork (b.contents.take 4))) := by
  simp [peekInt32, peekInt_spec h]

theorem readInt32_spec {b : Buffer} (hb : b.Inv) (h : 4 ≤ b.readableBytes) :
    ∃ b', b.readInt32 = .ok (BitVec.ofNat 32 (fromNetwork (b.contents.take 4)), b') ∧
      b'.Inv ∧ b'.contents = b.contents.drop 4 := by
  obtain ⟨b', hb', hinv, hcontents⟩ := retrieve_spec hb h
  exact ⟨b', by simp [readInt32, peekInt32_spec h, hb'], hinv, hcontents⟩

theorem readInt16_spec {b : Buffer} (hb : b.Inv) (h : 2 ≤ b.readableBytes) :
    ∃ b', b.readInt16 = .ok (BitVec.ofNat 16 (fromNetwork (b.contents.take 2)), b') ∧
      b'.Inv ∧ b'.contents = b.contents.drop 2 := by
  obtain ⟨b', hb', hinv, hcontents⟩ := retrieve_spec hb h
  exact ⟨b', by simp [readInt16, peekInt16, peekInt_spec h, hb'], hinv, hcontents⟩

theorem readInt8_spec {b : Buffer} (hb : b.Inv) (h : 1 ≤ b.readableBytes) :
    ∃ b', b.readInt8 = .ok (BitVec.ofNat 8 (fromNetwork (b.contents.take 1)), b') ∧
      b'.Inv ∧ b'.contents = b.contents.drop 1 := by
  obtain ⟨b', hb', hinv, hcontents⟩ := retrieve_spec hb h
  exact ⟨b', by simp [readInt8, peekInt8, peekInt_spec h, hb'], hinv, hcontents⟩

/-! ## Specification: `readFd` -/

/-- Whatever `readv` delivers is appended, in order, however it was split over
the two areas; a failure leaves the buffer alone. -/
theorem readFd_spec {b : Buffer} (hb : b.Inv) (result : ReadvResult) :
    ∃ saved b', b.readFd result = .ok (result.count, saved, b') ∧ b'.Inv ∧
      b'.contents =
        match result with
        | .failed _ => b.contents
        | .received bytes => b.contents ++ bytes := by
  cases result with
  | failed errno => exact ⟨some errno, b, rfl, hb, rfl⟩
  | received bytes =>
      by_cases hle : bytes.length ≤ b.writableBytes
      · obtain ⟨hinv, hcontents⟩ := store_hasWritten_spec hb hle
        refine ⟨none, _, ?_, hinv, hcontents⟩
        simp [readFd, hle, List.take_of_length_le hle]
      · -- the writable bytes are filled completely, the rest comes from `extrabuf`
        have htake : (bytes.take b.writableBytes).length = b.writableBytes := by
          rw [List.length_take]
          omega
        obtain ⟨hinv, hcontents⟩ := store_hasWritten_spec hb (Nat.le_of_eq htake)
        have hfull : (b.store (bytes.take b.writableBytes)).hasWritten
            (bytes.take b.writableBytes).length =
            { b.store (bytes.take b.writableBytes) with
              writerIndex_ := (b.store (bytes.take b.writableBytes)).buffer_.length } := by
          have hfits : b.writerIndex_ + (bytes.take b.writableBytes).length
              = b.buffer_.length := by
            have := hb.writer_le
            rw [htake]
            simp only [writableBytes]
            omega
          simp only [hasWritten, store, beginWrite, overwrite_length (Nat.le_of_eq hfits), hfits]
        rw [hfull] at hinv hcontents
        obtain ⟨b', hb', hinv', hcontents', _⟩ := append_spec hinv (bytes.drop b.writableBytes)
        refine ⟨none, b', ?_, hinv', ?_⟩
        · simp [readFd, hle, hb']
        · rw [hcontents', hcontents, List.append_assoc, List.take_append_drop]

end Buffer

end Muduo.Net
