/-
  Base/LogStream.lean --- `convert`, `convertHex`, `FixedBuffer<kSmallBuffer>` with its array, and
  `LogStream` (src/muduo/base/LogStream.h, LogStream.cc).

  The numbers are written into the array from the last digit on and then reversed in place
  (`convert_eq`, `convertHex_eq`); `integer_formatting_exact` says that the text is the
  canonical one.

  `AdmitsWhole` is what an item does to the contents of the stream: its text is appended, or
  nothing is.  Every operation of the code does that and stays inside of the array
  (`put_admits`), and so the contents of a stream are the texts of some of its items
  (`putAll_kept`).
-/
import Mathlib.Algebra.Group.Int.Defs
import Muduo.Foundation.CInt
import Muduo.Foundation.CharArray

set_option autoImplicit false

namespace Muduo.Base

open Muduo.Foundation

/-! ## `convert` and `convertHex` -/

/-- `digits`, with its terminating zero. -/
def digitTable : List UInt8 := ascii "9876543210123456789" ++ [0]

/-- `digitsHex`. -/
def digitsHex : List UInt8 := ascii "0123456789ABCDEF" ++ [0]

/-- `zero[static_cast<int>(lsd)]`, where `zero` is `digits + 9`. -/
def zeroAt (lsd : Int) : Exec UInt8 := readAt digitTable (9 + CInt.wrap lsd)

/-- `if (value < 0) *p++ = '-'`. -/
def putSign (value : Int) (mem : List UInt8) (p : Nat) : Exec (List UInt8 × Nat) :=
  if value < 0 then CharArray.put mem p 45 >>= fun mem => .ok (mem, p + 1) else .ok (mem, p)

/-- `*p = '\\0'`, the reversal, and the length. -/
def finishNumber (mem : List UInt8) (buf p : Nat) : Exec (List UInt8 × Nat) := do
  let mem ← CharArray.put mem p 0
  return (CharArray.reverse mem buf p, p - buf)

/-- The array with the text written at `buf`, and the length of the text. -/
def convert (fuel : Nat) (mem : List UInt8) (buf : Nat) (value : Int) :
    Exec (List UInt8 × Nat) := do
  let s ← Loop.run (digitBody 10 zeroAt) fuel ⟨value, buf, mem⟩
  let (mem, p) ← putSign value s.mem s.p
  finishNumber mem buf p

/-- `convertHex(buf, value)`. -/
def convertHex (fuel : Nat) (mem : List UInt8) (buf : Nat) (value : Nat) :
    Exec (List UInt8 × Nat) := do
  let s ← Loop.run (digitBody 16 fun lsd => readAt digitsHex (CInt.wrap lsd)) fuel
    ⟨value, buf, mem⟩
  finishNumber s.mem buf s.p

section Convert

variable {mem : List UInt8} {buf fuel : Nat}

/-- The mirrored table has a digit's character for the digit and for its negative. -/
theorem digitTable_mirrored : ∀ d : Nat, d < 10 →
    readAt digitTable (9 + (d : Int)) = .ok (byteOf d.digitChar) ∧
      readAt digitTable (9 - (d : Int)) = .ok (byteOf d.digitChar) := by decide

theorem zeroAt_tmod (i : Int) :
    zeroAt (i.tmod (10 : Nat)) = .ok (byteOf (i.natAbs % 10).digitChar) := by
  have habs : (i.tmod (10 : Nat)).natAbs = i.natAbs % 10 := Int.natAbs_tmod i _
  have hlt : i.natAbs % 10 < 10 := Nat.mod_lt _ (by decide)
  obtain ⟨hplus, hminus⟩ := digitTable_mirrored (i.natAbs % 10) hlt
  rw [zeroAt, CInt.wrap_of (by omega) (by omega)]
  rcases Int.natAbs_eq (i.tmod (10 : Nat)) with hpos | hneg
  · rw [hpos, habs]
    exact hplus
  · rw [hneg, habs]
    exact hminus

theorem digitsHex_digit : ∀ d : Nat, d < 16 →
    readAt digitsHex (d : Int) = .ok (byteOf d.digitChar.toUpper) := by decide

theorem hexAt_tmod {i : Int} (hi : 0 ≤ i) :
    readAt digitsHex (CInt.wrap (i.tmod (16 : Nat))) =
      .ok (byteOf (i.natAbs % 16).digitChar.toUpper) := by
  obtain ⟨n, rfl⟩ := Int.eq_ofNat_of_zero_le hi
  have hmod : (n : Int).tmod (16 : Nat) = (n % 16 : Nat) := by
    rw [Int.tmod_eq_emod_of_nonneg (by omega)]
    rfl
  have hlt : n % 16 < 16 := Nat.mod_lt _ (by decide)
  rw [hmod, CInt.wrap_of (by omega) (by omega), Int.natAbs_natCast]
  exact digitsHex_digit _ hlt

/-- Behind `front` the reversed text is turned round, and ends with a zero. -/
theorem finishNumber_eq {front text : List UInt8} (x : UInt8) (rest : List UInt8) :
    finishNumber (front ++ (text.reverse ++ x :: rest)) front.length
        (front.length + text.length) =
      .ok (front ++ (text ++ 0 :: rest), text.length) := by
  have hp : front.length + text.length = (front ++ text.reverse).length := by
    rw [List.length_append, List.length_reverse]
  have hlast : front.length + text.length = front.length + text.reverse.length := by
    rw [List.length_reverse]
  rw [finishNumber, ← List.append_assoc, CharArray.put_append hp, ok_bind, List.append_assoc,
    CharArray.reverse_append rfl hlast, List.reverse_reverse, Nat.add_sub_cancel_left]
  rfl

/-- The text and the zero replace what was there. -/
theorem overwrite_text {front text tail : List UInt8} {x : UInt8} {rest : List UInt8}
    (htail : tail.drop text.length = x :: rest) :
    overwrite (front ++ tail) front.length (text ++ [0]) = front ++ (text ++ 0 :: rest) := by
  rw [overwrite_append, List.length_append, List.length_singleton, ← List.drop_drop, htail,
    List.drop_succ_cons, List.drop_zero, List.append_assoc, List.singleton_append]

/-- The array is what is before a position and what is behind it, at least one element. -/
theorem exists_front_tail {n : Nat} (hroom : buf + n < mem.length) :
    ∃ front tail, mem = front ++ tail ∧ front.length = buf ∧ n < tail.length := by
  refine ⟨mem.take buf, mem.drop buf, (List.take_append_drop buf mem).symm, ?_, ?_⟩
  · rw [List.length_take]
    omega
  · rw [List.length_drop]
    omega

/-- The loop, the reversal and the terminating zero together write a text. -/
theorem finishNumber_text {front tail text : List UInt8} (hroom : text.length < tail.length) :
    finishNumber (front ++ (text.reverse ++ tail.drop text.length)) front.length
        (front.length + text.length) =
      .ok (overwrite (front ++ tail) front.length (text ++ [0]), text.length) := by
  have htail := List.drop_eq_getElem_cons hroom
  rw [overwrite_text htail, htail, finishNumber_eq]

theorem putSign_eq {value : Int} {front tail : List UInt8}
    (hroom : (decimalText value).length < tail.length) :
    putSign value (front ++ ((decimalDigits value.natAbs).reverse ++
        tail.drop (decimalDigits value.natAbs).length))
        (front.length + (decimalDigits value.natAbs).length) =
      .ok (front ++ ((decimalText value).reverse ++ tail.drop (decimalText value).length),
        front.length + (decimalText value).length) := by
  unfold putSign decimalText at *
  by_cases hneg : value < 0
  · simp only [if_pos hneg] at hroom ⊢
    rw [List.length_append, List.length_singleton] at hroom
    have htail := List.drop_eq_getElem_cons
      (show (decimalDigits value.natAbs).length < tail.length by omega)
    have hp : front.length + (decimalDigits value.natAbs).length =
        (front ++ (decimalDigits value.natAbs).reverse).length := by
      rw [List.length_append, List.length_reverse]
    rw [htail, ← List.append_assoc, CharArray.put_append hp, ok_bind, List.length_append,
      List.length_singleton, List.reverse_append, List.reverse_singleton]
    simp only [List.append_assoc, List.cons_append, List.nil_append, Nat.add_assoc, Nat.add_comm 1]
  · simp only [if_neg hneg, List.nil_append]

theorem convert_eq {value : Int} (hfuel : (decimalDigits value.natAbs).length ≤ fuel)
    (hroom : buf + (decimalText value).length < mem.length) :
    convert fuel mem buf value =
      .ok (overwrite mem buf (decimalText value ++ [0]), (decimalText value).length) := by
  obtain ⟨front, tail, rfl, rfl, htail⟩ := exists_front_tail hroom
  have hdigits : (decimalDigits value.natAbs).length ≤ tail.length := by
    rw [decimalText, List.length_append] at htail
    omega
  have hrun : Loop.run (digitBody 10 zeroAt) fuel ⟨value, front.length, front ++ tail⟩ = _ :=
    @run_digitBody 10 byteOf zeroAt (fun _ => True) (by decide) (fun _ _ => trivial)
      (fun i _ => zeroAt_tmod i) fuel value trivial front tail hfuel hdigits
  have hsign := @putSign_eq value front tail htail
  rw [convert, hrun, ok_bind]
  change (putSign value (front ++ ((decimalDigits value.natAbs).reverse ++
    tail.drop (decimalDigits value.natAbs).length))
      (front.length + (decimalDigits value.natAbs).length) >>= _) = _
  rw [hsign, ok_bind]
  exact finishNumber_text htail

theorem convertHex_eq {value : Nat} (hfuel : (hexText value).length ≤ fuel)
    (hroom : buf + (hexText value).length < mem.length) :
    convertHex fuel mem buf value =
      .ok (overwrite mem buf (hexText value ++ [0]), (hexText value).length) := by
  obtain ⟨front, tail, rfl, rfl, htail⟩ := exists_front_tail hroom
  have hrun : Loop.run (digitBody 16 fun lsd => readAt digitsHex (CInt.wrap lsd)) fuel
      ⟨value, front.length, front ++ tail⟩ = _ :=
    @run_digitBody 16 (fun c => byteOf c.toUpper) _ (0 ≤ ·) (by decide)
      (fun _ hi => Int.tdiv_nonneg hi (by decide)) (fun _ hi => hexAt_tmod hi) fuel value
      (Int.natCast_nonneg value) front tail hfuel (Nat.le_of_lt htail)
  rw [convertHex, hrun, ok_bind]
  exact finishNumber_text htail

end Convert

/-! ## The integer types -/

/-- The types that `formatInteger` is instantiated with. -/
inductive IntType where
  | int
  | unsignedInt
  | long
  | unsignedLong
  | longLong
  | unsignedLongLong
  deriving DecidableEq, Repr

namespace IntType

/-- The least value of the type. -/
def min : IntType → Int
  | int => -2 ^ 31
  | long | longLong => -2 ^ 63
  | unsignedInt | unsignedLong | unsignedLongLong => 0

/-- The greatest. -/
def max : IntType → Int
  | int => 2 ^ 31 - 1
  | unsignedInt => 2 ^ 32 - 1
  | long | longLong => 2 ^ 63 - 1
  | unsignedLong | unsignedLongLong => 2 ^ 64 - 1

/-- The values of the type. -/
def Value (type : IntType) : Type := { v : Int // type.min ≤ v ∧ v ≤ type.max }

theorem natAbs_le {type : IntType} (v : type.Value) : v.val.natAbs < 10 ^ 20 := by
  obtain ⟨v, hmin, hmax⟩ := v
  change v.natAbs < 10 ^ 20
  cases type <;> simp only [min, max] at hmin hmax <;> omega

end IntType

theorem length_digits_value {type : IntType} (v : type.Value) :
    (decimalDigits v.val.natAbs).length ≤ 20 :=
  (length_digits_le_iff (by decide) (by decide)).mpr (IntType.natAbs_le v)

theorem length_decimalText (v : Int) : (decimalText v).length =
    (if v < 0 then 1 else 0) + (decimalDigits v.natAbs).length := by
  rw [decimalText, List.length_append]
  by_cases hneg : v < 0
  · rw [if_pos hneg, if_pos hneg, List.length_singleton]
  · rw [if_neg hneg, if_neg hneg, List.length_nil]

theorem length_value_le {type : IntType} (v : type.Value) : (decimalText v.val).length ≤ 21 := by
  have hdigits := length_digits_value v
  rw [length_decimalText]
  split <;> omega

theorem length_hexText_le (v : UInt64) : (hexText v.toNat).length ≤ 16 :=
  (length_digits_le_iff (by decide) (by decide)).mpr v.toNat_lt

/-- Formatting an integer is exact.  Every value of every integer type is written at the pointer
in its canonical decimal form with a terminating zero, nothing else is written, and the length of
the form is returned; and every `uintptr_t` in its canonical upper-case hexadecimal form. -/
theorem integer_formatting_exact :
    (∀ (type : IntType) (v : type.Value) (fuel : Nat) (mem : List UInt8) (buf : Nat), 20 ≤ fuel →
      buf + (decimalText v.val).length < mem.length →
        convert fuel mem buf v.val = .ok (overwrite mem buf (decimalText v.val ++ [0]),
          (decimalText v.val).length) ∧ IsDecimal (decimalText v.val) v.val) ∧
    (∀ (v : UInt64) (fuel : Nat) (mem : List UInt8) (buf : Nat), 16 ≤ fuel →
      buf + (hexText v.toNat).length < mem.length →
        convertHex fuel mem buf v.toNat = .ok (overwrite mem buf (hexText v.toNat ++ [0]),
          (hexText v.toNat).length) ∧ IsHex (hexText v.toNat) v.toNat) := by
  constructor
  · intro type v fuel mem buf hfuel hroom
    have hlength := length_digits_value v
    exact ⟨convert_eq (by omega) hroom, decimalText_isDecimal v.val⟩
  · intro v fuel mem buf hfuel hroom
    have hlength := length_hexText_le v
    exact ⟨convertHex_eq (by omega) hroom, hexText_isHex v.toNat⟩

/-- The least value of `long`, whose absolute value is not a `long`. -/
theorem integer_formatting_exact_minimum :
    decimalText (-9223372036854775808) = ascii "-9223372036854775808" ∧
    convert 20 (List.replicate 32 0) 0 (-9223372036854775808) =
      .ok (overwrite (List.replicate 32 0) 0 (decimalText (-9223372036854775808) ++ [0]),
        (decimalText (-9223372036854775808)).length) ∧
    IsDecimal (decimalText (-9223372036854775808)) (-9223372036854775808) :=
  ⟨by decide, integer_formatting_exact.1 .long
    ⟨-9223372036854775808, by decide, by decide⟩ 20 (List.replicate 32 0) 0 (by decide) (by decide)⟩

/-! ## `FixedBuffer<kSmallBuffer>` -/

/-- `detail::kSmallBuffer`. -/
def kSmallBuffer : Nat := 4000

/-- The array, whatever is behind the current position, and that position. -/
structure SmallBuffer where
  data_ : List UInt8
  cur_ : Nat
  deriving DecidableEq, Repr

namespace SmallBuffer

/-- `length()`. -/
def length (b : SmallBuffer) : Nat := b.cur_

/-- `avail()`. -/
def avail (b : SmallBuffer) : Nat := kSmallBuffer - b.cur_

/-- `append(buf, len)`: the copy reads `len` bytes from `buf` on. -/
def append (b : SmallBuffer) (buf : List UInt8) (len : Nat) : Exec SmallBuffer :=
  if b.avail > len then
    if len ≤ buf.length then
      CharArray.copy b.data_ b.cur_ (buf.take len) >>= fun data => .ok ⟨data, b.cur_ + len⟩
    else .error .outOfBounds
  else .ok b

/-- The bytes up to the current position. -/
def contents (b : SmallBuffer) : List UInt8 := b.data_.take b.cur_

/-- The array has its size, and the current position is in it. -/
structure Inv (b : SmallBuffer) : Prop where
  size : b.data_.length = kSmallBuffer
  room : b.cur_ < kSmallBuffer

theorem Inv.length_contents {b : SmallBuffer} (h : b.Inv) : b.contents.length = b.cur_ := by
  have hsize := h.size
  have hroom := h.room
  rw [contents, List.length_take]
  omega

/-- What is written from the current position on, and then counted, is appended. -/
theorem Inv.write {b : SmallBuffer} (h : b.Inv) {text rest : List UInt8}
    (hroom : b.cur_ + (text ++ rest).length ≤ kSmallBuffer)
    (hcur : b.cur_ + text.length < kSmallBuffer) :
    Inv ⟨overwrite b.data_ b.cur_ (text ++ rest), b.cur_ + text.length⟩ ∧
      contents ⟨overwrite b.data_ b.cur_ (text ++ rest), b.cur_ + text.length⟩ =
        b.contents ++ text := by
  have hsize := h.size
  refine ⟨⟨?_, hcur⟩, ?_⟩
  · rw [overwrite_length (by omega), hsize]
  · have hlength := h.length_contents
    have hfront : b.cur_ + text.length = (b.contents ++ text).length := by
      rw [List.length_append, hlength]
    rw [contents, overwrite, hfront, ← List.append_assoc, List.append_assoc _ rest]
    exact List.take_left

theorem append_of_lt {b : SmallBuffer} (h : b.Inv) {buf : List UInt8} {len : Nat}
    (hlt : len < b.avail) (hlen : len ≤ buf.length) :
    ∃ b', b.append buf len = .ok b' ∧ b'.Inv ∧ b'.contents = b.contents ++ buf.take len := by
  have hsize := h.size
  have hroom := h.room
  have htake : (buf.take len).length = len := by
    rw [List.length_take]
    omega
  have hfits : b.cur_ + (buf.take len).length ≤ b.data_.length := by
    unfold avail at hlt
    omega
  have hwrite := @Inv.write b h (buf.take len) [] (by rw [List.append_nil]; omega)
    (by unfold avail at hlt; omega)
  rw [List.append_nil, htake] at hwrite
  refine ⟨_, ?_, hwrite⟩
  rw [append, if_pos hlt, if_pos hlen, CharArray.copy, if_pos hfits, ok_bind]

theorem append_of_le {b : SmallBuffer} {buf : List UInt8} {len : Nat} (hle : b.avail ≤ len) :
    b.append buf len = .ok b := if_neg (Nat.not_lt.mpr hle)

end SmallBuffer

/-! ## `class LogStream` -/

/-- `class LogStream`. -/
structure LogStream where
  buffer_ : SmallBuffer
  deriving DecidableEq, Repr

/-- Bytes and an `int` that says how many of them are meant. -/
structure Piece where
  bytes : List UInt8
  size : Int
  isInt : CInt.Fits size
  le : size ≤ bytes.length

/-- The size where a `size_t` is expected. -/
def Piece.toSizeT (v : Piece) : Nat := (v.size % 2 ^ 64).toNat

/-- `LogStream::kMaxNumericSize`. -/
def kMaxNumericSize : Nat := 32

/-- What is streamed: the operand of `operator<<` or the arguments of `append`. -/
inductive Item where
  | bool (v : Bool)
  | char (v : UInt8)
  /-- the characters up to the terminating zero, or more -/
  | cString (v : List UInt8)
  | string (v : List UInt8)
  | stringPiece (v : Piece)
  | append (v : Piece)
  | short (v : { v : Int // -2 ^ 15 ≤ v ∧ v ≤ 2 ^ 15 - 1 })
  | unsignedShort (v : { v : Int // 0 ≤ v ∧ v ≤ 2 ^ 16 - 1 })
  | integer (type : IntType) (v : type.Value)
  | pointer (v : UInt64)
  /-- what `%.12g` makes of the number, which is never as long as the bound -/
  | double (v : { text : List UInt8 // text.length < kMaxNumericSize })


namespace Item

/-- What the item writes. -/
def text : Item → List UInt8
  | bool v => if v then [49] else [48]
  | char v => [v]
  | cString v => v.takeWhile (· ≠ 0)
  | string v => v
  | stringPiece v | append v => v.bytes.take v.toSizeT
  | short v => decimalText v.val
  | unsignedShort v => decimalText v.val
  | integer _ v => decimalText v.val
  | pointer v => ascii "0x" ++ hexText v.toNat
  | double v => v.val

/-- The least `avail()` the item is kept at: the size of a number, more than the length of a
text. -/
def needs : Item → Nat
  | short _ | unsignedShort _ | integer _ _ | pointer _ | double _ => kMaxNumericSize
  | stringPiece v | append v => v.toSizeT + 1
  | item => item.text.length + 1

end Item

namespace LogStream

/-- `buffer_.append(...)`. -/
def appendBytes (s : LogStream) (buf : List UInt8) (len : Nat) : Exec LogStream :=
  s.buffer_.append buf len >>= fun b => .ok ⟨b⟩

/-- No value of an integer type has more than 20 digits, and none of a pointer more than 16. -/
def formatInteger (s : LogStream) (v : Int) : Exec LogStream :=
  if s.buffer_.avail ≥ kMaxNumericSize then do
    let r ← convert 20 s.buffer_.data_ s.buffer_.cur_ v
    return ⟨r.1, s.buffer_.cur_ + r.2⟩
  else .ok s

/-- `operator<<(const void *)`. -/
def formatPointer (s : LogStream) (v : Nat) : Exec LogStream :=
  if s.buffer_.avail ≥ kMaxNumericSize then do
    let buf := s.buffer_.cur_
    let mem ← CharArray.put s.buffer_.data_ buf 48
    let mem ← CharArray.put mem (buf + 1) 120
    let r ← convertHex 16 mem (buf + 2) v
    return ⟨r.1, buf + (r.2 + 2)⟩
  else .ok s

/-- `operator<<(double)`. -/
def formatDouble (s : LogStream) (text : List UInt8) : Exec LogStream :=
  if s.buffer_.avail ≥ kMaxNumericSize then do
    let r ← CharArray.snprintf s.buffer_.data_ s.buffer_.cur_ kMaxNumericSize text
    return ⟨r.1, s.buffer_.cur_ + r.2⟩
  else .ok s

/-- `operator<<`, and `append`. -/
def put (s : LogStream) : Item → Exec LogStream
  | .bool v => s.appendBytes (if v then [49] else [48]) 1
  | .char v => s.appendBytes [v] 1
  | .cString v => s.appendBytes v (v.takeWhile (· ≠ 0)).length
  | .string v => s.appendBytes v v.length
  | .stringPiece v | .append v => s.appendBytes v.bytes v.toSizeT
  | .short v => s.formatInteger v.val
  | .unsignedShort v => s.formatInteger v.val
  | .integer _ v => s.formatInteger v.val
  | .pointer v => s.formatPointer v.toNat
  | .double v => s.formatDouble v.val

/-- `operator<<` for each of the items. -/
def putAll (s : LogStream) (items : List Item) : Exec LogStream := items.foldlM put s

/-- A new stream; the array is not initialised. -/
def new (data : Vector UInt8 kSmallBuffer) : LogStream := ⟨data.toList, 0⟩

/-- `avail()` of the buffer. -/
def avail (s : LogStream) : Nat := s.buffer_.avail

/-- What was streamed so far. -/
def contents (s : LogStream) : List UInt8 := s.buffer_.contents

/-- The buffer is in order. -/
def Inv (s : LogStream) : Prop := s.buffer_.Inv

/-- The result of a call that appends a text where `needs` bytes are left, and else changes
nothing. -/
def AdmitsWhole (s : LogStream) (result : Exec LogStream) (needs : Nat) (text : List UInt8) :
    Prop :=
  ∃ s', result = .ok s' ∧ s'.Inv ∧ (needs ≤ s.avail → s'.contents = s.contents ++ text) ∧
    (¬ needs ≤ s.avail → s' = s)

theorem new_inv (data : Vector UInt8 kSmallBuffer) : (new data).Inv :=
  ⟨data.size_toArray, (by decide : 0 < kSmallBuffer)⟩

@[simp] theorem new_contents (data : Vector UInt8 kSmallBuffer) : (new data).contents = [] := rfl

theorem Inv.avail_eq {s : LogStream} (h : s.Inv) :
    s.avail = kSmallBuffer - s.contents.length ∧ s.contents.length < kSmallBuffer := by
  have hlength := SmallBuffer.Inv.length_contents h
  have hroom := SmallBuffer.Inv.room h
  unfold avail contents SmallBuffer.avail
  omega

theorem appendBytes_admits {s : LogStream} (h : s.Inv) {buf : List UInt8} {len : Nat}
    (hlen : len < s.avail → len ≤ buf.length) :
    AdmitsWhole s (s.appendBytes buf len) (len + 1) (buf.take len) := by
  by_cases hlt : len < s.avail
  · obtain ⟨b', happend, hinv, hcontents⟩ := SmallBuffer.append_of_lt h hlt (hlen hlt)
    refine ⟨⟨b'⟩, ?_, hinv, fun _ => hcontents, fun hnot => absurd hlt hnot⟩
    rw [appendBytes, happend, ok_bind]
  · have happend := @SmallBuffer.append_of_le s.buffer_ buf len (Nat.not_lt.mp hlt)
    refine ⟨s, ?_, h, fun hneeds => absurd hneeds hlt, fun _ => rfl⟩
    rw [appendBytes, happend, ok_bind]

/-- A number that fits into its 32 bytes with the terminating zero. -/
theorem write_admits {s : LogStream} (h : s.Inv) {text : List UInt8} {result : Exec LogStream}
    (hlength : text.length + 1 ≤ kMaxNumericSize)
    (hkept : kMaxNumericSize ≤ s.avail → result =
      .ok ⟨overwrite s.buffer_.data_ s.buffer_.cur_ (text ++ [0]), s.buffer_.cur_ + text.length⟩)
    (hdropped : ¬ kMaxNumericSize ≤ s.avail → result = .ok s) :
    AdmitsWhole s result kMaxNumericSize text := by
  by_cases hroom : kMaxNumericSize ≤ s.avail
  · have hfits : s.buffer_.cur_ + kMaxNumericSize ≤ kSmallBuffer := by
      have hcur := SmallBuffer.Inv.room h
      unfold avail SmallBuffer.avail at hroom
      omega
    obtain ⟨hinv, hcontents⟩ := @SmallBuffer.Inv.write s.buffer_ h text [0]
      (by rw [List.length_append, List.length_singleton]; omega) (by omega)
    exact ⟨_, hkept hroom, hinv, fun _ => hcontents, fun hnot => absurd hroom hnot⟩
  · exact ⟨s, hdropped hroom, h, fun hneeds => absurd hneeds hroom, fun _ => rfl⟩

theorem formatInteger_admits {s : LogStream} (h : s.Inv) {v : Int}
    (hdigits : (decimalDigits v.natAbs).length ≤ 20) :
    AdmitsWhole s (s.formatInteger v) kMaxNumericSize (decimalText v) := by
  have hlength : (decimalText v).length + 1 ≤ kMaxNumericSize := by
    rw [length_decimalText]
    unfold kMaxNumericSize
    split <;> omega
  refine write_admits h hlength ?_ fun hroom => if_neg hroom
  intro hroom
  have hsize := SmallBuffer.Inv.size h
  have hmem : s.buffer_.cur_ + (decimalText v).length < s.buffer_.data_.length := by
    unfold avail SmallBuffer.avail at hroom
    omega
  rw [formatInteger, if_pos (show s.buffer_.avail ≥ kMaxNumericSize from hroom),
    convert_eq hdigits hmem]
  rfl

theorem formatPointer_admits {s : LogStream} (h : s.Inv) (v : UInt64) :
    AdmitsWhole s (s.formatPointer v.toNat) kMaxNumericSize (ascii "0x" ++ hexText v.toNat) := by
  have hhex := length_hexText_le v
  have hhead : ascii "0x" = [48] ++ [120] := by decide
  have htwo : (ascii "0x").length = 2 := by rw [hhead]; rfl
  have hlength : (ascii "0x" ++ hexText v.toNat).length + 1 ≤ kMaxNumericSize := by
    rw [List.length_append, htwo]
    unfold kMaxNumericSize
    omega
  refine write_admits h hlength ?_ fun hroom => if_neg hroom
  intro hroom
  have hsize := SmallBuffer.Inv.size h
  have hfits : s.buffer_.cur_ + kMaxNumericSize ≤ s.buffer_.data_.length := by
    have hcur := SmallBuffer.Inv.room h
    unfold avail SmallBuffer.avail at hroom
    omega
  unfold kMaxNumericSize at hfits
  -- the two bytes of the prefix and the digits lie one behind the other
  have hzero : CharArray.put s.buffer_.data_ s.buffer_.cur_ 48 =
      .ok (overwrite s.buffer_.data_ s.buffer_.cur_ [48]) :=
    CharArray.put_eq_overwrite (by omega) 48
  have hlength48 : (overwrite s.buffer_.data_ s.buffer_.cur_ [48]).length =
      s.buffer_.data_.length := overwrite_length (by rw [List.length_singleton]; omega)
  have hx : CharArray.put (overwrite s.buffer_.data_ s.buffer_.cur_ [48]) (s.buffer_.cur_ + 1)
      120 = .ok (overwrite s.buffer_.data_ s.buffer_.cur_ (ascii "0x")) := by
    rw [CharArray.put_eq_overwrite (by omega), hhead]
    exact congrArg Except.ok (overwrite_overwrite (by omega))
  have hlength0x : (overwrite s.buffer_.data_ s.buffer_.cur_ (ascii "0x")).length =
      s.buffer_.data_.length := overwrite_length (by rw [htwo]; omega)
  have hall : overwrite (overwrite s.buffer_.data_ s.buffer_.cur_ (ascii "0x"))
      (s.buffer_.cur_ + 2) (hexText v.toNat ++ [0]) =
        overwrite s.buffer_.data_ s.buffer_.cur_ (ascii "0x" ++ hexText v.toNat ++ [0]) := by
    rw [List.append_assoc]
    exact overwrite_overwrite (by omega)
  have hconvert : convertHex 16 (overwrite s.buffer_.data_ s.buffer_.cur_ (ascii "0x"))
      (s.buffer_.cur_ + 2) v.toNat = .ok (overwrite s.buffer_.data_ s.buffer_.cur_
        (ascii "0x" ++ hexText v.toNat ++ [0]), (hexText v.toNat).length) := by
    rw [convertHex_eq (by omega) (by omega), hall]
  rw [formatPointer, if_pos (show s.buffer_.avail ≥ kMaxNumericSize from hroom)]
  dsimp only
  rw [hzero, ok_bind, hx, ok_bind, hconvert, ok_bind, List.length_append, htwo, Nat.add_comm 2]
  rfl

theorem formatDouble_admits {s : LogStream} (h : s.Inv) {text : List UInt8}
    (hlength : text.length < kMaxNumericSize) :
    AdmitsWhole s (s.formatDouble text) kMaxNumericSize text := by
  refine write_admits h hlength ?_ fun hroom => if_neg hroom
  intro hroom
  have hsize := SmallBuffer.Inv.size h
  have htake : text.take (kMaxNumericSize - 1) = text := List.take_of_length_le (by omega)
  have hfits : s.buffer_.cur_ + (text ++ [0]).length ≤ s.buffer_.data_.length := by
    rw [List.length_append, List.length_singleton]
    unfold avail SmallBuffer.avail at hroom
    unfold kMaxNumericSize at hlength hroom
    omega
  rw [formatDouble, if_pos (show s.buffer_.avail ≥ kMaxNumericSize from hroom), CharArray.snprintf,
    htake, CharArray.copy, if_pos hfits]
  rfl

/-- A size below zero is as a `size_t` larger than every buffer. -/
theorem piece_length {s : LogStream} {v : Piece} (hlt : v.toSizeT < s.avail) :
    v.toSizeT ≤ v.bytes.length := by
  have hfits := v.isInt
  have hle := v.le
  unfold Piece.toSizeT avail SmallBuffer.avail kSmallBuffer CInt.Fits at *
  omega

/-- Every item is appended whole or not at all. -/
theorem put_admits {s : LogStream} (h : s.Inv) (item : Item) :
    AdmitsWhole s (s.put item) item.needs item.text := by
  cases item with
  | bool v => cases v <;> exact appendBytes_admits h fun _ => Nat.le_refl 1
  | char v => exact appendBytes_admits h fun _ => Nat.le_refl 1
  | cString v =>
      have hhead : v.take (v.takeWhile (· ≠ 0)).length = v.takeWhile (· ≠ 0) :=
        (List.prefix_iff_eq_take.mp (List.takeWhile_prefix _)).symm
      have hadmits := @appendBytes_admits s h v (v.takeWhile (· ≠ 0)).length
        fun _ => (List.takeWhile_prefix _).length_le
      rw [hhead] at hadmits
      exact hadmits
  | string v =>
      have hadmits := @appendBytes_admits s h v v.length fun _ => Nat.le_refl _
      rw [List.take_length] at hadmits
      exact hadmits
  | stringPiece v => exact appendBytes_admits h piece_length
  | append v => exact appendBytes_admits h piece_length
  | short v =>
      obtain ⟨v, hmin, hmax⟩ := v
      exact formatInteger_admits h (@length_digits_value .int ⟨v, by
        change -2 ^ 31 ≤ v ∧ v ≤ 2 ^ 31 - 1
        omega⟩)
  | unsignedShort v =>
      obtain ⟨v, hmin, hmax⟩ := v
      exact formatInteger_admits h (@length_digits_value .int ⟨v, by
        change -2 ^ 31 ≤ v ∧ v ≤ 2 ^ 31 - 1
        omega⟩)
  | integer type v => exact formatInteger_admits h (length_digits_value v)
  | pointer v => exact formatPointer_admits h v
  | double v => exact formatDouble_admits h v.property

/-- What is in a stream afterwards is what was in it and the texts of some of the items. -/
theorem putAll_kept {s : LogStream} (h : s.Inv) (items : List Item) :
    ∃ (s' : LogStream) (kept : List Item), s.putAll items = .ok s' ∧ s'.Inv ∧ kept.Sublist items ∧
      s'.contents = s.contents ++ kept.flatMap Item.text := by
  induction items generalizing s with
  | nil => exact ⟨s, [], rfl, h, List.Sublist.refl _, (List.append_nil _).symm⟩
  | cons item items ih =>
      obtain ⟨s₁, hput, hinv, hkept, hdropped⟩ := put_admits h item
      obtain ⟨s', kept, hall, hinv', hsub, hcontents⟩ := ih hinv
      have hrun : s.putAll (item :: items) = .ok s' := by
        rw [putAll, List.foldlM_cons, hput]
        exact hall
      by_cases hneeds : item.needs ≤ s.avail
      · refine ⟨s', item :: kept, hrun, hinv', hsub.cons_cons item, ?_⟩
        rw [hcontents, hkept hneeds, List.flatMap_cons, List.append_assoc]
      · refine ⟨s', kept, hrun, hinv', hsub.cons item, ?_⟩
        rw [hcontents, hdropped hneeds]

end LogStream

/-- A stream never overruns and never splits an item.  Whatever is streamed into a new one, every
byte is written inside of the array, fewer than 4000 of them count, and they are the texts of some
of the items in their order.  The next item is appended whole if its size is left, and else it
changes nothing. -/
theorem stream_keeps_whole_items (data : Vector UInt8 kSmallBuffer) (items : List Item) :
    ∃ s, (LogStream.new data).putAll items = .ok s ∧
      s.buffer_.data_.length = 4000 ∧ s.buffer_.length ≤ 3999 ∧
      (∃ kept : List Item, kept.Sublist items ∧ s.contents = kept.flatMap Item.text) ∧
      ∀ item : Item, ∃ s', s.put item = .ok s' ∧
        (item.needs ≤ s.avail → s'.contents = s.contents ++ item.text) ∧
        (¬ item.needs ≤ s.avail → s' = s) := by
  obtain ⟨s, kept, hall, hinv, hsub, hcontents⟩ :=
    LogStream.putAll_kept (LogStream.new_inv data) items
  refine ⟨s, hall, SmallBuffer.Inv.size hinv, ?_, ⟨kept, hsub, hcontents⟩, ?_⟩
  · have hroom := SmallBuffer.Inv.room hinv
    unfold SmallBuffer.length
    unfold kSmallBuffer at hroom
    omega
  · intro item
    obtain ⟨s', hput, -, hkept, hdropped⟩ := LogStream.put_admits hinv item
    exact ⟨s', hput, hkept, hdropped⟩

end Muduo.Base
