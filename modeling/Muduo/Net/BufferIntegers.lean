/-
  Net/BufferIntegers.lean --- the integers of `Buffer`.

  A `TypedInt` is an `int8_t`, an `int16_t` or an `int32_t`; its bytes are its value in
  two's complement, most significant first.  A client that appends integers and reads them
  back in the order of their types works on a queue (`Fifo`): `integers_round_trip` says
  that the buffer refines it, whatever the interleaving.
-/
import Mathlib.Algebra.Group.Int.Defs
import Muduo.Foundation.Machine
import Muduo.Net.Buffer

set_option autoImplicit false

namespace Muduo.Net

open Muduo.Foundation

/-! ## Integers -/

/-- The integers a buffer takes. -/
inductive IntKind where
  | int8
  | int16
  | int32
  deriving DecidableEq, Repr

/-- `sizeof`. -/
def IntKind.size : IntKind → Nat
  | .int8 => 1
  | .int16 => 2
  | .int32 => 4

/-- An integer with its type. -/
inductive TypedInt where
  | int8 (x : BitVec 8)
  | int16 (x : BitVec 16)
  | int32 (x : BitVec 32)
  deriving DecidableEq, Repr

namespace TypedInt

/-- The type. -/
def kind : TypedInt → IntKind
  | .int8 _ => .int8
  | .int16 _ => .int16
  | .int32 _ => .int32

/-- The number. -/
def value : TypedInt → Int
  | .int8 x => x.toInt
  | .int16 x => x.toInt
  | .int32 x => x.toInt

/-- Two's complement, most significant byte first. -/
def bytes (x : TypedInt) : List UInt8 :=
  toNetwork x.kind.size (x.value % 256 ^ x.kind.size).toNat

/-- `appendInt8`, `appendInt16`, `appendInt32`. -/
def append : TypedInt → Buffer → Exec Buffer
  | .int8 x, b => b.appendInt8 x
  | .int16 x, b => b.appendInt16 x
  | .int32 x, b => b.appendInt32 x

/-- `prependInt8`, `prependInt16`, `prependInt32`. -/
def prepend : TypedInt → Buffer → Exec Buffer
  | .int8 x, b => b.prependInt8 x
  | .int16 x, b => b.prependInt16 x
  | .int32 x, b => b.prependInt32 x

end TypedInt

namespace IntKind

/-- `peekInt8`, `peekInt16`, `peekInt32`. -/
def peek : IntKind → Buffer → Exec TypedInt
  | .int8, b => do .ok (.int8 (← b.peekInt8))
  | .int16, b => do .ok (.int16 (← b.peekInt16))
  | .int32, b => do .ok (.int32 (← b.peekInt32))

/-- `readInt8`, `readInt16`, `readInt32`. -/
def read : IntKind → Buffer → Exec (TypedInt × Buffer)
  | .int8, b => do
      let (x, b) ← b.readInt8
      .ok (.int8 x, b)
  | .int16, b => do
      let (x, b) ← b.readInt16
      .ok (.int16 x, b)
  | .int32, b => do
      let (x, b) ← b.readInt32
      .ok (.int32 x, b)

/-- The integer with the given bytes. -/
def ofBytes : IntKind → List UInt8 → TypedInt
  | .int8, bs => .int8 (BitVec.ofNat 8 (fromNetwork bs))
  | .int16, bs => .int16 (BitVec.ofNat 16 (fromNetwork bs))
  | .int32, bs => .int32 (BitVec.ofNat 32 (fromNetwork bs))

end IntKind

/-! ## Bytes and values -/

section Width

variable {w n : Nat}

/-- Two's complement. -/
theorem toInt_emod (hw : 256 ^ n = 2 ^ w) (x : BitVec w) : x.toInt % 256 ^ n = x.toNat := by
  have hcast : ((2 ^ w : Nat) : Int) = 256 ^ n := by rw [← hw, Int.natCast_pow]; rfl
  rw [BitVec.toInt_eq_toNat_bmod, ← hcast, Int.bmod_emod]
  exact Int.emod_eq_of_lt (Int.natCast_nonneg _) (Int.ofNat_lt.mpr x.isLt)

theorem toNetwork_toInt (hw : 256 ^ n = 2 ^ w) (x : BitVec w) :
    toNetwork n (x.toInt % 256 ^ n).toNat = toNetwork n x.toNat := by
  rw [toInt_emod hw, Int.toNat_natCast]

theorem ofNat_toNetwork (hw : 256 ^ n = 2 ^ w) (x : BitVec w) :
    BitVec.ofNat w (fromNetwork (toNetwork n (x.toInt % 256 ^ n).toNat)) = x := by
  rw [toNetwork_toInt hw, fromNetwork_toNetwork, hw, Nat.mod_eq_of_lt x.isLt, BitVec.ofNat_toNat,
    BitVec.setWidth_eq]

theorem toInt_ofNat (hw : 256 ^ n = 2 ^ w) {bs : List UInt8} (h : bs.length = n) :
    (BitVec.ofNat w (fromNetwork bs)).toInt % 256 ^ n = fromNetwork bs := by
  have hlt : fromNetwork bs < 2 ^ w := hw ▸ h ▸ fromNetwork_lt bs
  rw [toInt_emod hw, BitVec.toNat_ofNat, Nat.mod_eq_of_lt hlt]

end Width

namespace TypedInt

@[simp] theorem length_bytes (x : TypedInt) : x.bytes.length = x.kind.size :=
  toNetwork_length _ _

/-- An integer is read back from its bytes. -/
theorem ofBytes_bytes (x : TypedInt) : x.kind.ofBytes x.bytes = x := by
  cases x with
  | int8 x => exact congrArg TypedInt.int8 (@ofNat_toNetwork 8 1 (by decide) x)
  | int16 x => exact congrArg TypedInt.int16 (@ofNat_toNetwork 16 2 (by decide) x)
  | int32 x => exact congrArg TypedInt.int32 (@ofNat_toNetwork 32 4 (by decide) x)

end TypedInt

namespace IntKind

@[simp] theorem kind_ofBytes (k : IntKind) (bs : List UInt8) : (k.ofBytes bs).kind = k := by
  cases k <;> rfl

/-- The value of the bytes read big-endian, up to the sign. -/
theorem value_ofBytes (k : IntKind) {bs : List UInt8} (h : bs.length = k.size) :
    (k.ofBytes bs).value % 256 ^ k.size = fromNetwork bs := by
  cases k with
  | int8 => exact toInt_ofNat (by decide) h
  | int16 => exact toInt_ofNat (by decide) h
  | int32 => exact toInt_ofNat (by decide) h

end IntKind

/-! ## One operation -/

theorem TypedInt.append_spec (x : TypedInt) {b : Buffer} (hb : b.Inv) :
    ∃ b', x.append b = .ok b' ∧ b'.Inv ∧ b'.contents = b.contents ++ x.bytes := by
  obtain ⟨b', hb', hinv, hcontents, _⟩ := Buffer.append_spec hb x.bytes
  refine ⟨b', ?_, hinv, hcontents⟩
  rw [← hb']
  cases x with
  | int8 x => exact congrArg b.append (toNetwork_toInt (by decide) x).symm
  | int16 x => exact congrArg b.append (toNetwork_toInt (by decide) x).symm
  | int32 x => exact congrArg b.append (toNetwork_toInt (by decide) x).symm

theorem TypedInt.prepend_spec (x : TypedInt) {b : Buffer} (hb : b.Inv)
    (h : x.kind.size ≤ b.prependableBytes) :
    ∃ b', x.prepend b = .ok b' ∧ b'.Inv ∧ b'.contents = x.bytes ++ b.contents := by
  obtain ⟨b', hb', hinv, hcontents⟩ := Buffer.prepend_spec hb (x.length_bytes ▸ h)
  refine ⟨b', ?_, hinv, hcontents⟩
  rw [← hb']
  cases x with
  | int8 x => exact congrArg b.prepend (toNetwork_toInt (by decide) x).symm
  | int16 x => exact congrArg b.prepend (toNetwork_toInt (by decide) x).symm
  | int32 x => exact congrArg b.prepend (toNetwork_toInt (by decide) x).symm

/-- `peek` and `read` return the value of the first bytes, and only `read` takes them. -/
theorem IntKind.read_spec (k : IntKind) {b : Buffer} (hb : b.Inv) (h : k.size ≤ b.readableBytes) :
    k.peek b = .ok (k.ofBytes (b.contents.take k.size)) ∧
      ∃ b', k.read b = .ok (k.ofBytes (b.contents.take k.size), b') ∧ b'.Inv ∧
        b'.contents = b.contents.drop k.size := by
  cases k with
  | int8 =>
      have hpeek := @Buffer.peekInt_spec b 1 h
      obtain ⟨b', hb', hinv, hcontents⟩ := Buffer.readInt8_spec hb h
      refine ⟨?_, b', by rw [read, hb', ok_bind]; rfl, hinv, hcontents⟩
      rw [peek, Buffer.peekInt8, hpeek]
      rfl
  | int16 =>
      have hpeek := @Buffer.peekInt_spec b 2 h
      obtain ⟨b', hb', hinv, hcontents⟩ := Buffer.readInt16_spec hb h
      refine ⟨?_, b', by rw [read, hb', ok_bind]; rfl, hinv, hcontents⟩
      rw [peek, Buffer.peekInt16, hpeek]
      rfl
  | int32 =>
      have hpeek := @Buffer.peekInt_spec b 4 h
      obtain ⟨b', hb', hinv, hcontents⟩ := Buffer.readInt32_spec hb h
      refine ⟨?_, b', by rw [read, hb', ok_bind]; rfl, hinv, hcontents⟩
      rw [peek, Buffer.peekInt32, hpeek]
      rfl

/-- An integer at the front is read back. -/
theorem IntKind.read_front {x : TypedInt} {b : Buffer} (hb : b.Inv) {rest : List UInt8}
    (h : b.contents = x.bytes ++ rest) :
    x.kind.peek b = .ok x ∧ ∃ b', x.kind.read b = .ok (x, b') ∧ b'.Inv ∧ b'.contents = rest := by
  have hlen : x.kind.size ≤ b.readableBytes := by
    rw [← Buffer.contents_length hb, h, List.length_append, x.length_bytes]
    exact Nat.le_add_right _ _
  have htake : b.contents.take x.kind.size = x.bytes := by
    rw [h, ← x.length_bytes, List.take_left]
  obtain ⟨hpeek, b', hread, hinv, hrest⟩ := x.kind.read_spec hb hlen
  rw [htake, x.ofBytes_bytes] at hpeek hread
  refine ⟨hpeek, b', hread, hinv, ?_⟩
  rw [hrest, h, ← x.length_bytes, List.drop_left]

/-- The wide integer is made of the narrow one and the two bytes behind it. -/
theorem peekInt32_eq {b : Buffer} (hb : b.Inv) (h : 4 ≤ b.readableBytes) :
    ∃ x y, b.peekInt32 = .ok x ∧ b.peekInt16 = .ok y ∧
      x.toInt = y.toInt * 65536 + fromNetwork ((b.contents.drop 2).take 2) := by
  have hx := @Buffer.peekInt_spec b 4 h
  have hy := @Buffer.peekInt_spec b 2 (Nat.le_trans (by decide) h)
  refine ⟨_, _, by rw [Buffer.peekInt32, hx, ok_bind], by rw [Buffer.peekInt16, hy, ok_bind], ?_⟩
  have hlen := Buffer.contents_length hb
  have hsplit : b.contents.take 4 = b.contents.take 2 ++ (b.contents.drop 2).take 2 :=
    @List.take_add _ b.contents 2 2
  have hlow : ((b.contents.drop 2).take 2).length = 2 := by
    rw [List.length_take, List.length_drop]
    omega
  have hhigh : (b.contents.take 2).length = 2 := by
    rw [List.length_take]
    omega
  have hlow' := fromNetwork_lt ((b.contents.drop 2).take 2)
  have hhigh' := fromNetwork_lt (b.contents.take 2)
  rw [hlow] at hlow'
  rw [hhigh] at hhigh'
  rw [hsplit, fromNetwork_append, hlow, BitVec.toInt_eq_toNat_cond, BitVec.toInt_eq_toNat_cond,
    BitVec.toNat_ofNat, BitVec.toNat_ofNat]
  split_ifs <;> omega

/-! ## Runs -/

/-- What a client does: append an integer, or look at or take the next one as one of a kind. -/
inductive IntOp where
  | append (x : TypedInt)
  | peek (k : IntKind)
  | read (k : IntKind)
  deriving DecidableEq, Repr

/-- A buffer, and the integers that were returned. -/
structure Integers where
  buffer : Buffer
  returned : List TypedInt
  deriving DecidableEq, Repr

/-- A queue of integers, and those that were returned. -/
structure Fifo where
  queue : List TypedInt
  returned : List TypedInt
  deriving DecidableEq, Repr

/-- What an operation does to a buffer. -/
def Integers.step (s : Integers) : IntOp → Exec Integers
  | .append x => do .ok { s with buffer := ← x.append s.buffer }
  | .peek k => do .ok { s with returned := s.returned ++ [← k.peek s.buffer] }
  | .read k => do
      let (x, buffer) ← k.read s.buffer
      .ok ⟨buffer, s.returned ++ [x]⟩

/-- What it does to a queue. -/
def Fifo.step (s : Fifo) : IntOp → Exec Fifo
  | .append x => .ok { s with queue := s.queue ++ [x] }
  | .peek _ => .ok { s with returned := s.returned ++ s.queue.head?.toList }
  | .read _ => .ok ⟨s.queue.tail, s.returned ++ s.queue.head?.toList⟩

/-- Only integers that were appended are read, each as one of its own kind. -/
def Fifo.legal (s : Fifo) : IntOp → Prop
  | .append _ => True
  | .peek k | .read k => s.queue.head?.map TypedInt.kind = some k

instance Fifo.decidableLegal (s : Fifo) : (op : IntOp) → Decidable (s.legal op)
  | .append _ => isTrue trivial
  | .peek _ | .read _ => inferInstanceAs (Decidable (_ = _))

/-- Any operations on a buffer. -/
def Integers.machine : Machine Integers IntOp where
  step := Integers.step
  legal _ _ := True

/-- Operations on a queue that find what they want. -/
def Fifo.machine : Machine Fifo IntOp where
  step := Fifo.step
  legal := Fifo.legal

instance (s : Fifo) (op : IntOp) : Decidable (Fifo.machine.legal s op) := Fifo.decidableLegal s op

/-- The buffer holds the bytes of the queue, and returned the same. -/
structure Encodes (q : Fifo) (s : Integers) : Prop where
  inv : s.buffer.Inv
  contents : s.buffer.contents = q.queue.flatMap TypedInt.bytes
  returned : s.returned = q.returned

theorem Encodes.step {q : Fifo} {s : Integers} (h : Encodes q s) {op : IntOp}
    (hlegal : q.legal op) :
    ∃ q' s', q.step op = .ok q' ∧ s.step op = .ok s' ∧ Encodes q' s' := by
  obtain ⟨queue, returned⟩ := q
  obtain ⟨buffer, returned'⟩ := s
  obtain ⟨hinv, hcontents, hreturned⟩ := h
  simp only at hinv hcontents hreturned
  subst hreturned
  -- what is looked at or taken stands at the front
  have hfront : ∀ k, queue.head?.map TypedInt.kind = some k →
      ∃ x rest, queue = x :: rest ∧ x.kind = k ∧
        buffer.contents = x.bytes ++ rest.flatMap TypedInt.bytes := by
    intro k hk
    cases queue with
    | nil => simp at hk
    | cons x rest => exact ⟨x, rest, rfl, Option.some.inj hk, hcontents⟩
  cases op with
  | append x =>
      obtain ⟨b', hb', hinv', hcontents'⟩ := x.append_spec hinv
      have hstep : Integers.step ⟨buffer, returned'⟩ (.append x) = .ok ⟨b', returned'⟩ := by
        simp only [Integers.step, hb', ok_bind]
      refine ⟨_, _, rfl, hstep, hinv', ?_, rfl⟩
      rw [hcontents', hcontents, List.flatMap_append, List.flatMap_singleton]
  | peek k =>
      obtain ⟨x, rest, rfl, rfl, hx⟩ := hfront k hlegal
      obtain ⟨hpeek, _⟩ := IntKind.read_front hinv hx
      have hstep : Integers.step ⟨buffer, returned'⟩ (.peek x.kind) =
          .ok ⟨buffer, returned' ++ [x]⟩ := by
        simp only [Integers.step, hpeek, ok_bind]
      exact ⟨_, _, rfl, hstep, hinv, hcontents, rfl⟩
  | read k =>
      obtain ⟨x, rest, rfl, rfl, hx⟩ := hfront k hlegal
      obtain ⟨_, b', hread, hinv', hrest⟩ := IntKind.read_front hinv hx
      have hstep : Integers.step ⟨buffer, returned'⟩ (.read x.kind) =
        .ok ⟨b', returned' ++ [x]⟩ := by
        simp only [Integers.step, hread, ok_bind]
      exact ⟨_, _, rfl, hstep, hinv', hrest, rfl⟩

/-- Integers are read back as they were appended, whatever the interleaving; the readable bytes
are their encodings; `peek` returns what the next `read` returns, the big-endian value of the first
bytes, however these were split when they were written; and `prepend` followed by `read` is
undone. -/
theorem integers_round_trip :
    (∀ (b : Buffer) (queue : List TypedInt) (ops : List IntOp), b.Inv →
      b.contents = queue.flatMap TypedInt.bytes → Fifo.machine.LegalRun ⟨queue, []⟩ ops →
      ∃ q s, Fifo.machine.run ⟨queue, []⟩ ops = .ok q ∧ Integers.machine.run ⟨b, []⟩ ops = .ok s ∧
        s.returned = q.returned ∧ s.buffer.contents = q.queue.flatMap TypedInt.bytes) ∧
    (∀ (b : Buffer) (k : IntKind), b.Inv → k.size ≤ b.readableBytes →
      ∃ x b', k.peek b = .ok x ∧ k.read b = .ok (x, b') ∧ x.kind = k ∧
        x.value % 256 ^ k.size = fromNetwork (b.contents.take k.size) ∧
        b'.contents = b.contents.drop k.size) ∧
    (∀ b : Buffer, b.Inv → 4 ≤ b.readableBytes →
      ∃ x y, b.peekInt32 = .ok x ∧ b.peekInt16 = .ok y ∧
        x.toInt = y.toInt * 65536 + fromNetwork ((b.contents.drop 2).take 2)) ∧
    (∀ (b : Buffer) (x : TypedInt), b.Inv → x.kind.size ≤ b.prependableBytes →
      ∃ b₁ b₂, x.prepend b = .ok b₁ ∧ b₁.contents = x.bytes ++ b.contents ∧
        x.kind.read b₁ = .ok (x, b₂) ∧ b₂.contents = b.contents) := by
  refine ⟨?_, ?_, fun b hb h => peekInt32_eq hb h, ?_⟩
  · intro b queue ops hb hcontents hlegal
    have hstart : Encodes ⟨queue, []⟩ ⟨b, []⟩ := ⟨hb, hcontents, rfl⟩
    obtain ⟨q, s, hq, hs, hrel⟩ := @Machine.run_of_simulation _ _ Fifo.machine _ Integers.machine
      Encodes (fun _ _ _ h hl => h.step hl) _ _ hstart _ hlegal
    exact ⟨q, s, hq, hs, hrel.returned, hrel.contents⟩
  · intro b k hb h
    obtain ⟨hpeek, b', hread, _, hcontents⟩ := k.read_spec hb h
    have hlen : (b.contents.take k.size).length = k.size := by
      rw [List.length_take, Buffer.contents_length hb]
      omega
    exact ⟨_, b', hpeek, hread, k.kind_ofBytes _, k.value_ofBytes hlen, hcontents⟩
  · intro b x hb h
    obtain ⟨b₁, hprepend, hinv, hcontents⟩ := x.prepend_spec hb h
    obtain ⟨_, b₂, hread, _, hrest⟩ := IntKind.read_front hinv hcontents
    exact ⟨b₁, b₂, hprepend, hcontents, hread, hrest⟩

/-- Negative integers of mixed widths, and a read in between. -/
def sampleInts : List IntOp :=
  [.append (.int16 (-2)), .append (.int8 (-1)), .peek .int16, .read .int16,
    .append (.int32 (-305419896)), .read .int8, .read .int32]

theorem integers_round_trip_sampleInts :
    (∃ q s, Fifo.machine.run ⟨[], []⟩ sampleInts = .ok q ∧
      Integers.machine.run ⟨.new, []⟩ sampleInts = .ok s ∧ s.returned = q.returned ∧
      s.buffer.contents = q.queue.flatMap TypedInt.bytes) ∧
    ∃ b₁ b₂, TypedInt.prepend (.int32 (-7)) .new = .ok b₁ ∧
      b₁.contents = [255, 255, 255, 249] ∧
      IntKind.int32.read b₁ = .ok (.int32 (-7), b₂) ∧ b₂.contents = [] := by
  have hnew : Buffer.new.contents = [] := Buffer.new_spec.2.1
  refine ⟨integers_round_trip.1 .new [] sampleInts Buffer.new_spec.1 hnew (by decide), ?_⟩
  have hprepend := integers_round_trip.2.2.2 .new (.int32 (-7)) Buffer.new_spec.1 (by decide)
  rw [hnew] at hprepend
  exact hprepend

end Muduo.Net
