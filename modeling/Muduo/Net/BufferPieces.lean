/-
  Net/BufferPieces.lean --- `StringPiece` (src/muduo/base/StringPiece.h) and the methods of
  `Buffer` that take or make one.

  The length of a piece is an `int`.  A string of 2^31 bytes or more is cut: the length becomes
  its residue modulo 2^32, and as a `size_t` again it is larger than any memory (when it was
  negative) or too small.  `shrink_keeps_contents_iff` says that this is all that can go wrong.
-/
import Mathlib.Algebra.Group.Int.Defs
import Muduo.Net.Buffer

set_option autoImplicit false

namespace Muduo.Net

open Muduo.Foundation

/-- A pointer with a length; `data` are the bytes that may be read through the pointer. -/
structure StringPiece where
  data : List UInt8
  length_ : BitVec 32

namespace StringPiece

/-- `StringPiece(const string &)`: the size, cast to an `int`. -/
def ofString (s : List UInt8) : StringPiece := ⟨s, BitVec.ofNat 32 s.length⟩

/-- `size()`. -/
def size (s : StringPiece) : Int := s.length_.toInt

/-- The size where a `size_t` is expected. -/
def toSizeT (s : StringPiece) : Nat := (s.size % 2 ^ 64).toNat

end StringPiece

namespace Buffer

/-- `append(data, len)`: the copy reads `len` bytes from `data` on. -/
def appendChars (b : Buffer) (data : List UInt8) (len : Nat) : Exec Buffer :=
  if len ≤ data.length then b.append (data.take len) else .error .outOfBounds

/-- `append(const StringPiece &)`. -/
def appendPiece (b : Buffer) (str : StringPiece) : Exec Buffer := b.appendChars str.data str.toSizeT

/-- `toStringPiece()`. -/
def toStringPiece (b : Buffer) : StringPiece := ⟨b.contents, BitVec.ofNat 32 b.readableBytes⟩

/-- `shrink(reserve)`: the other buffer, after the swap. -/
def shrink (b : Buffer) (reserve : Nat) : Exec Buffer := do
  let other ← new.ensureWritableBytes (b.readableBytes + reserve)
  other.appendPiece b.toStringPiece

end Buffer

/-! ## Lengths -/

section Lengths

variable {s : List UInt8}

theorem toSizeT_of_lt (h : s.length < 2 ^ 31) : (StringPiece.ofString s).toSizeT = s.length := by
  rw [StringPiece.toSizeT, StringPiece.size, StringPiece.ofString, BitVec.toInt_eq_toNat_cond,
    BitVec.toNat_ofNat, Nat.mod_eq_of_lt (by omega)]
  split_ifs <;> omega

/-- The piece of a long string ends before the string does, or beyond every memory. -/
theorem toSizeT_of_le (h : 2 ^ 31 ≤ s.length) :
    (StringPiece.ofString s).toSizeT < s.length ∨ 2 ^ 63 ≤ (StringPiece.ofString s).toSizeT := by
  rw [StringPiece.toSizeT, StringPiece.size, StringPiece.ofString, BitVec.toInt_eq_toNat_cond,
    BitVec.toNat_ofNat]
  split_ifs <;> omega

theorem appendPiece_of_lt (b : Buffer) (h : s.length < 2 ^ 31) :
    b.appendPiece (.ofString s) = b.append s := by
  have hdata : (StringPiece.ofString s).data = s := rfl
  rw [Buffer.appendPiece, Buffer.appendChars, toSizeT_of_lt h, hdata, if_pos (Nat.le_refl _),
    List.take_length]

/-- Of a long string only a part is appended, if anything. -/
theorem appendPiece_of_le (b : Buffer) (h : 2 ^ 31 ≤ s.length) (hmemory : s.length < 2 ^ 63) :
    (∃ n < s.length, b.appendPiece (.ofString s) = b.append (s.take n)) ∨
      b.appendPiece (.ofString s) = .error .outOfBounds := by
  have hdata : (StringPiece.ofString s).data = s := rfl
  rw [Buffer.appendPiece, Buffer.appendChars, hdata]
  obtain hlt | hle := toSizeT_of_le h
  · rw [if_pos (Nat.le_of_lt hlt)]
    exact .inl ⟨_, hlt, rfl⟩
  · exact .inr (if_neg (by omega))

end Lengths

/-! ## Shrinking -/

namespace Buffer

theorem ensureWritableBytes_of_room {b : Buffer} {len : Nat} (h : len ≤ b.writableBytes) :
    b.ensureWritableBytes len = .ok b := by
  simp [ensureWritableBytes, Nat.not_lt.mpr h, h]

/-- A new buffer only grows: its contents stay behind the reserved bytes. -/
theorem ensureWritableBytes_new (len : Nat) :
    ∃ b, new.ensureWritableBytes len = .ok b ∧ b.Inv ∧ b.contents = [] ∧ len ≤ b.writableBytes ∧
      b.readerIndex_ = kCheapPrepend := by
  obtain ⟨hinv, hcontents, hreadable, hwritable, hprependable⟩ := new_spec
  by_cases hroom : new.writableBytes < len
  · have hgrow : new.writableBytes + new.prependableBytes < len + kCheapPrepend := by
      rw [hprependable]
      omega
    obtain ⟨b, hb, hinv', hcontents', hwritable', _⟩ := makeSpace_spec hinv hroom
    have hreader : b.readerIndex_ = kCheapPrepend := by
      rw [makeSpace, if_pos hgrow] at hb
      rw [← Except.ok.inj hb]
      rfl
    refine ⟨b, ?_, hinv', by rw [hcontents', hcontents], hwritable', hreader⟩
    simp [ensureWritableBytes, hroom, hb, hwritable']
  · have hle : len ≤ new.writableBytes := by omega
    exact ⟨new, ensureWritableBytes_of_room hle, hinv, hcontents, hle, rfl⟩

/-- With enough room nothing is moved. -/
theorem append_of_room {b : Buffer} (hb : b.Inv) {data : List UInt8}
    (hroom : data.length ≤ b.writableBytes) :
    ∃ b', b.append data = .ok b' ∧ b'.Inv ∧ b'.contents = b.contents ++ data ∧
      b'.readerIndex_ = b.readerIndex_ ∧
      b'.writableBytes = b.writableBytes - data.length := by
  obtain ⟨hinv, hcontents⟩ := store_hasWritten_spec hb hroom
  have happend : b.append data = .ok ((b.store data).hasWritten data.length) := by
    rw [append, ensureWritableBytes_of_room hroom, ok_bind]
  refine ⟨_, happend, hinv, hcontents, rfl, ?_⟩
  have hw := hb.writer_le
  simp only [writableBytes] at hroom
  have hlen : (overwrite b.buffer_ b.writerIndex_ data).length = b.buffer_.length :=
    overwrite_length (by omega)
  simp only [writableBytes, hasWritten, store, beginWrite, hlen]
  omega

theorem toStringPiece_eq {b : Buffer} (hb : b.Inv) : b.toStringPiece = .ofString b.contents := by
  rw [toStringPiece, StringPiece.ofString, contents_length hb]

theorem shrink_of_lt {b : Buffer} (hb : b.Inv) (reserve : Nat) (h : b.readableBytes < 2 ^ 31) :
    ∃ b', b.shrink reserve = .ok b' ∧ b'.contents = b.contents ∧
      b'.prependableBytes = kCheapPrepend ∧ reserve ≤ b'.writableBytes := by
  have hlen := contents_length hb
  obtain ⟨other, hother, hinv, hempty, hwritable, hreader⟩ :=
    ensureWritableBytes_new (b.readableBytes + reserve)
  obtain ⟨b', hb', _, hcontents, hreader', hwritable'⟩ :=
    @append_of_room other hinv b.contents (by omega)
  have hshrink : b.shrink reserve = .ok b' := by
    rw [shrink, hother, ok_bind, toStringPiece_eq hb, appendPiece_of_lt other (by omega), hb']
  refine ⟨b', hshrink, ?_, by rw [prependableBytes, hreader', hreader], by omega⟩
  rw [hcontents, hempty, List.nil_append]

theorem shrink_of_le {b : Buffer} (hb : b.Inv) (reserve : Nat) (h : 2 ^ 31 ≤ b.readableBytes)
    (hmemory : b.readableBytes < 2 ^ 63) :
    ¬ ∃ b', b.shrink reserve = .ok b' ∧ b'.contents = b.contents := by
  rintro ⟨b', hshrink, hcontents⟩
  have hlen := contents_length hb
  obtain ⟨other, hother, hinv, hempty, _⟩ := ensureWritableBytes_new (b.readableBytes + reserve)
  rw [shrink, hother, ok_bind, toStringPiece_eq hb] at hshrink
  obtain ⟨n, hn, hpart⟩ | herror := @appendPiece_of_le b.contents other (by omega) (by omega)
  · obtain ⟨b'', hb'', _, hcontents'', _⟩ := append_spec hinv (b.contents.take n)
    rw [hpart, hb''] at hshrink
    obtain rfl : b'' = b' := Except.ok.inj hshrink
    rw [hcontents, hempty, List.nil_append] at hcontents''
    have hlength := congrArg List.length hcontents''
    rw [List.length_take] at hlength
    omega
  · rw [herror] at hshrink
    exact absurd hshrink (by simp)

/-- For every buffer and every reserve that a `size_t` can count: `shrink` keeps the contents,
puts them behind the reserved bytes and leaves the room asked for, if and only if there are less
than 2^31 readable bytes. -/
theorem shrink_keeps_contents_iff {b : Buffer} (hb : b.Inv) (reserve : Nat)
    (hmemory : b.readableBytes + reserve + kCheapPrepend < 2 ^ 63) :
    (∃ b', b.shrink reserve = .ok b' ∧ b'.contents = b.contents ∧
      b'.prependableBytes = kCheapPrepend ∧ reserve ≤ b'.writableBytes) ↔
      b.readableBytes < 2 ^ 31 := by
  constructor
  · rintro ⟨b', hshrink, hcontents, _⟩
    by_contra hle
    exact shrink_of_le hb reserve (by omega) (by omega) ⟨b', hshrink, hcontents⟩
  · exact shrink_of_lt hb reserve

/-- Three bytes were appended, and one of them is retrieved. -/
def twoLeft : Buffer := ⟨List.replicate 8 0 ++ [104, 105, 33, 0, 0], 9, 11⟩

theorem shrink_keeps_contents_iff_twoLeft :
    ∃ b', twoLeft.shrink 7 = .ok b' ∧ b'.contents = [105, 33] ∧
      b'.prependableBytes = kCheapPrepend ∧ 7 ≤ b'.writableBytes :=
  (shrink_keeps_contents_iff ⟨by decide, by decide, by decide⟩ 7 (by decide)).mpr
    (show twoLeft.readableBytes < 2 ^ 31 by decide)

/-- A buffer with 4 GiB to read. -/
def fourGiB : Buffer := ⟨List.replicate (8 + 2 ^ 32) 0, 8, 8 + 2 ^ 32⟩

/-- The length of the piece becomes 0, and the buffer is empty after it was shrunk. -/
theorem shrink_loses_fourGiB :
    fourGiB.Inv ∧ fourGiB.readableBytes = 2 ^ 32 ∧
      fourGiB.readableBytes + 0 + kCheapPrepend < 2 ^ 63 ∧
      ¬ ∃ b', fourGiB.shrink 0 = .ok b' ∧ b'.contents = fourGiB.contents := by
  have hlength : fourGiB.buffer_.length = 8 + 2 ^ 32 := List.length_replicate
  have hinv : fourGiB.Inv := by
    refine ⟨?_, ?_, ?_⟩
    · exact Nat.le_add_right 8 (2 ^ 32)
    · rw [hlength]
      exact Nat.le_refl (8 + 2 ^ 32)
    · rw [hlength]
      exact Nat.le_add_right 8 (2 ^ 32)
  have hreadable : fourGiB.readableBytes = 2 ^ 32 := Nat.add_sub_cancel_left 8 (2 ^ 32)
  refine ⟨hinv, hreadable, by rw [hreadable]; decide, ?_⟩
  exact shrink_of_le hinv 0 (by omega) (by omega)

end Buffer

end Muduo.Net
