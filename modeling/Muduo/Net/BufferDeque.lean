/-
  Net/BufferDeque.lean --- `Buffer` refines a byte deque.

  The abstract object is a plain list of bytes: append at the back, prepend and
  remove at the front.  `Op` lists what a client may do with a `Buffer`, with the
  result of every `readv` as an input; `Op.exec` performs the operation on the
  model of the class, `Op.deque` on the list.  Since `swap` exchanges two
  buffers, a run works on a family of them, indexed by `Nat`, all fresh at the
  start.

  The run lemma is `buffer_refines_deque`; its step lemma is `exec_refines`.
-/
import Mathlib.Logic.Function.Basic
import Muduo.Foundation.Machine
import Muduo.Net.Buffer

set_option autoImplicit false

namespace Muduo.Net.BufferDeque

open Muduo.Foundation

/-! ## Operations -/

/-- The operations of `Buffer` that clients use. -/
inductive Op where
  | append (data : List UInt8)
  | appendInt8 (x : BitVec 8)
  | appendInt16 (x : BitVec 16)
  | appendInt32 (x : BitVec 32)
  | retrieve (len : Nat)
  /-- `retrieveUntil(peek() + len)` -/
  | retrieveUntil (len : Nat)
  | retrieveAll
  | retrieveAsString (len : Nat)
  | retrieveAllAsString
  | readInt8
  | readInt16
  | readInt32
  | prepend (data : List UInt8)
  | prependInt8 (x : BitVec 8)
  | prependInt16 (x : BitVec 16)
  | prependInt32 (x : BitVec 32)
  | ensureWritableBytes (len : Nat)
  /-- bytes stored through `beginWrite()`, then `hasWritten` -/
  | write (data : List UInt8)
  | readFd (result : Buffer.ReadvResult)
  deriving DecidableEq, Repr

/-- What an operation returns. -/
inductive Out where
  | none
  | str (s : List UInt8)
  | int (x : Int)
  deriving DecidableEq, Repr

/-- The operation on the model of the class. -/
def Op.exec : Op → Buffer → Exec (Out × Buffer)
  | .append data, b => do .ok (.none, ← b.append data)
  | .appendInt8 x, b => do .ok (.none, ← b.appendInt8 x)
  | .appendInt16 x, b => do .ok (.none, ← b.appendInt16 x)
  | .appendInt32 x, b => do .ok (.none, ← b.appendInt32 x)
  | .retrieve len, b => do .ok (.none, ← b.retrieve len)
  | .retrieveUntil len, b => do .ok (.none, ← b.retrieveUntil (b.peek + len))
  | .retrieveAll, b => .ok (.none, b.retrieveAll)
  | .retrieveAsString len, b => do
      let (s, b) ← b.retrieveAsString len
      .ok (.str s, b)
  | .retrieveAllAsString, b => do
      let (s, b) ← b.retrieveAllAsString
      .ok (.str s, b)
  | .readInt8, b => do
      let (x, b) ← b.readInt8
      .ok (.int x.toInt, b)
  | .readInt16, b => do
      let (x, b) ← b.readInt16
      .ok (.int x.toInt, b)
  | .readInt32, b => do
      let (x, b) ← b.readInt32
      .ok (.int x.toInt, b)
  | .prepend data, b => do .ok (.none, ← b.prepend data)
  | .prependInt8 x, b => do .ok (.none, ← b.prependInt8 x)
  | .prependInt16 x, b => do .ok (.none, ← b.prependInt16 x)
  | .prependInt32 x, b => do .ok (.none, ← b.prependInt32 x)
  | .ensureWritableBytes len, b => do .ok (.none, ← b.ensureWritableBytes len)
  | .write data, b => .ok (.none, (b.store data).hasWritten data.length)
  | .readFd result, b => do
      let (n, _, b) ← b.readFd result
      .ok (.int n, b)

/-- The signed integer that the first `width` bytes denote in network order. -/
def signedPrefix (width : Nat) (bytes : List UInt8) : Int :=
  (BitVec.ofNat (8 * width) (fromNetwork (bytes.take width))).toInt

/-- The same operation on a plain list of bytes. -/
def Op.deque : Op → List UInt8 → Out × List UInt8
  | .append data, l => (.none, l ++ data)
  | .appendInt8 x, l => (.none, l ++ toNetwork 1 x.toNat)
  | .appendInt16 x, l => (.none, l ++ toNetwork 2 x.toNat)
  | .appendInt32 x, l => (.none, l ++ toNetwork 4 x.toNat)
  | .retrieve len, l => (.none, l.drop len)
  | .retrieveUntil len, l => (.none, l.drop len)
  | .retrieveAll, _ => (.none, [])
  | .retrieveAsString len, l => (.str (l.take len), l.drop len)
  | .retrieveAllAsString, l => (.str l, [])
  | .readInt8, l => (.int (signedPrefix 1 l), l.drop 1)
  | .readInt16, l => (.int (signedPrefix 2 l), l.drop 2)
  | .readInt32, l => (.int (signedPrefix 4 l), l.drop 4)
  | .prepend data, l => (.none, data ++ l)
  | .prependInt8 x, l => (.none, toNetwork 1 x.toNat ++ l)
  | .prependInt16 x, l => (.none, toNetwork 2 x.toNat ++ l)
  | .prependInt32 x, l => (.none, toNetwork 4 x.toNat ++ l)
  | .ensureWritableBytes _, l => (.none, l)
  | .write data, l => (.none, l ++ data)
  | .readFd (.failed _), l => (.int (-1), l)
  | .readFd (.received bytes), l => (.int bytes.length, l ++ bytes)

/-- The `size_t` argument of an operation. -/
def Op.size : Op → Nat
  | .append data | .prepend data | .write data => data.length
  | .appendInt8 _ | .prependInt8 _ | .readInt8 => 1
  | .appendInt16 _ | .prependInt16 _ | .readInt16 => 2
  | .appendInt32 _ | .prependInt32 _ | .readInt32 => 4
  | .retrieve len | .retrieveUntil len | .retrieveAsString len => len
  | .ensureWritableBytes len => len
  | .retrieveAll | .retrieveAllAsString | .readFd (.failed _) => 0
  | .readFd (.received bytes) => bytes.length

/-- What the caller of an operation promises. -/
def Op.Pre : Op → Buffer → Prop
  | .retrieve len, b | .retrieveUntil len, b | .retrieveAsString len, b => len ≤ b.readableBytes
  | .readInt8, b => 1 ≤ b.readableBytes
  | .readInt16, b => 2 ≤ b.readableBytes
  | .readInt32, b => 4 ≤ b.readableBytes
  | .prepend data, b => data.length ≤ b.prependableBytes
  | .prependInt8 _, b => 1 ≤ b.prependableBytes
  | .prependInt16 _, b => 2 ≤ b.prependableBytes
  | .prependInt32 _, b => 4 ≤ b.prependableBytes
  | .write data, b => data.length ≤ b.writableBytes
  | .readFd (.received bytes), b => bytes.length ≤ b.writableBytes + Buffer.kExtrabuf
  | _, _ => True

instance decidablePre : (op : Op) → (b : Buffer) → Decidable (op.Pre b)
  | .retrieve _, _ | .retrieveUntil _, _ | .retrieveAsString _, _ => Nat.decLe _ _
  | .readInt8, _ | .readInt16, _ | .readInt32, _ => Nat.decLe _ _
  | .prepend _, _ | .prependInt8 _, _ | .prependInt16 _, _ | .prependInt32 _, _ => Nat.decLe _ _
  | .write _, _ | .readFd (.received _), _ => Nat.decLe _ _
  | .append _, _ | .appendInt8 _, _ | .appendInt16 _, _ | .appendInt32 _, _ => isTrue trivial
  | .retrieveAll, _ | .retrieveAllAsString, _ => isTrue trivial
  | .ensureWritableBytes _, _ | .readFd (.failed _), _ => isTrue trivial

/-! ## One operation -/

/-- From `b`, the operation runs without a failed assertion, returns what the
deque returns and leaves what the deque leaves. -/
def Refines (op : Op) (b : Buffer) : Prop :=
  ∃ b', op.exec b = .ok ((op.deque b.contents).1, b') ∧ b'.Inv ∧
    b'.contents = (op.deque b.contents).2

/-- Every operation that is `append` of some bytes. -/
theorem refines_of_append {op : Op} {b : Buffer} (hb : b.Inv) (data : List UInt8)
    (hexec : op.exec b = do .ok (.none, ← b.append data))
    (hdeque : op.deque b.contents = (.none, b.contents ++ data)) : Refines op b := by
  obtain ⟨b', h, hinv, hc, _⟩ := Buffer.append_spec hb data
  exact ⟨b', by rw [hexec, h, hdeque]; rfl, hinv, by rw [hdeque, hc]⟩

/-- Every operation that is `prepend` of some bytes. -/
theorem refines_of_prepend {op : Op} {b : Buffer} (hb : b.Inv) (data : List UInt8)
    (hpre : data.length ≤ b.prependableBytes)
    (hexec : op.exec b = do .ok (.none, ← b.prepend data))
    (hdeque : op.deque b.contents = (.none, data ++ b.contents)) : Refines op b := by
  obtain ⟨b', h, hinv, hc⟩ := Buffer.prepend_spec hb hpre
  exact ⟨b', by rw [hexec, h, hdeque]; rfl, hinv, by rw [hdeque, hc]⟩

/-- The step lemma: one operation refines the same operation on the list. -/
theorem exec_refines (op : Op) {b : Buffer} (hb : b.Inv) (hpre : op.Pre b) : Refines op b := by
  cases op with
  | append data => exact refines_of_append hb data rfl rfl
  | appendInt8 x => exact refines_of_append hb (toNetwork 1 x.toNat) rfl rfl
  | appendInt16 x => exact refines_of_append hb (toNetwork 2 x.toNat) rfl rfl
  | appendInt32 x => exact refines_of_append hb (toNetwork 4 x.toNat) rfl rfl
  | prepend data => exact refines_of_prepend hb data hpre rfl rfl
  | prependInt8 x => exact refines_of_prepend hb (toNetwork 1 x.toNat) hpre rfl rfl
  | prependInt16 x => exact refines_of_prepend hb (toNetwork 2 x.toNat) hpre rfl rfl
  | prependInt32 x => exact refines_of_prepend hb (toNetwork 4 x.toNat) hpre rfl rfl
  | retrieve len =>
      obtain ⟨b', h, hinv, hc⟩ := Buffer.retrieve_spec hb hpre
      exact ⟨b', by simp [Op.exec, Op.deque, h], hinv, hc⟩
  | retrieveUntil len =>
      obtain ⟨b', h, hinv, hc⟩ := Buffer.retrieveUntil_spec hb hpre
      exact ⟨b', by simp [Op.exec, Op.deque, h], hinv, hc⟩
  | retrieveAll =>
      obtain ⟨hinv, hc⟩ := Buffer.retrieveAll_spec hb
      exact ⟨b.retrieveAll, rfl, hinv, hc⟩
  | retrieveAsString len =>
      obtain ⟨b', h, hinv, hc⟩ := Buffer.retrieveAsString_spec hb hpre
      exact ⟨b', by simp [Op.exec, Op.deque, h], hinv, hc⟩
  | retrieveAllAsString =>
      obtain ⟨b', h, hinv, hc⟩ := Buffer.retrieveAllAsString_spec hb
      exact ⟨b', by simp [Op.exec, Op.deque, h], hinv, hc⟩
  | readInt8 =>
      obtain ⟨b', h, hinv, hc⟩ := Buffer.readInt8_spec hb hpre
      exact ⟨b', by simp [Op.exec, Op.deque, h, signedPrefix], hinv, hc⟩
  | readInt16 =>
      obtain ⟨b', h, hinv, hc⟩ := Buffer.readInt16_spec hb hpre
      exact ⟨b', by simp [Op.exec, Op.deque, h, signedPrefix], hinv, hc⟩
  | readInt32 =>
      obtain ⟨b', h, hinv, hc⟩ := Buffer.readInt32_spec hb hpre
      exact ⟨b', by simp [Op.exec, Op.deque, h, signedPrefix], hinv, hc⟩
  | ensureWritableBytes len =>
      obtain ⟨b', h, hinv, hc, _⟩ := Buffer.ensureWritableBytes_spec hb len
      exact ⟨b', by simp [Op.exec, Op.deque, h], hinv, hc⟩
  | write data =>
      obtain ⟨hinv, hc⟩ := Buffer.store_hasWritten_spec hb hpre
      exact ⟨_, rfl, hinv, hc⟩
  | readFd result =>
      obtain ⟨saved, b', h, hinv, hc⟩ := Buffer.readFd_spec hb result
      cases result with
      | failed errno => exact ⟨b', by simp [Op.exec, Op.deque, h, Buffer.ReadvResult.count],
          hinv, hc⟩
      | received bytes => exact ⟨b', by simp [Op.exec, Op.deque, h, Buffer.ReadvResult.count],
          hinv, hc⟩

/-! ## Runs over a family of buffers -/

/-- One step of a client that owns many buffers. -/
inductive Action where
  /-- an operation on the `i`-th buffer -/
  | on (i : Nat) (op : Op)
  /-- the `i`-th buffer `.swap` the `j`-th -/
  | swap (i j : Nat)
  deriving DecidableEq, Repr

/-- All buffers, and what the operations have returned so far. -/
structure Pool where
  buffers : Nat → Buffer
  outs : List Out

/-- The same for the lists. -/
structure Deques where
  lists : Nat → List UInt8
  outs : List Out

/-- `Buffer::swap` exchanges vector and indices of two buffers. -/
def Pool.step (s : Pool) : Action → Exec Pool
  | .on i op => do
      let (out, b) ← op.exec (s.buffers i)
      .ok { buffers := Function.update s.buffers i b, outs := s.outs ++ [out] }
  | .swap i j =>
      .ok { s with
        buffers := Function.update (Function.update s.buffers i (s.buffers j)) j (s.buffers i) }

/-- What a step does to the deques. -/
def Deques.step (d : Deques) : Action → Deques
  | .on i op =>
      { lists := Function.update d.lists i (op.deque (d.lists i)).2
        outs := d.outs ++ [(op.deque (d.lists i)).1] }
  | .swap i j =>
      { d with lists := Function.update (Function.update d.lists i (d.lists j)) j (d.lists i) }

/-- An operation may be performed when its precondition holds and the sizes
involved are below 2^63. -/
def Pool.Legal (s : Pool) : Action → Prop
  | .on i op => op.Pre (s.buffers i) ∧ op.size < 2 ^ 63 ∧ (s.buffers i).buffer_.length < 2 ^ 63
  | .swap _ _ => True

instance (s : Pool) (a : Action) : Decidable (s.Legal a) :=
  match a with
  | .on i op => inferInstanceAs (Decidable (op.Pre (s.buffers i) ∧ _ ∧ _))
  | .swap _ _ => isTrue trivial

/-- Clients of buffers as a machine. -/
def machine : Machine Pool Action where
  step := Pool.step
  legal := Pool.Legal

instance (s : Pool) (a : Action) : Decidable (machine.legal s a) :=
  inferInstanceAs (Decidable (s.Legal a))

/-- All buffers fresh, nothing returned. -/
def Pool.fresh : Pool := ⟨fun _ => Buffer.new, []⟩
/-- All lists empty, nothing returned. -/
def Deques.empty : Deques := ⟨fun _ => [], []⟩

/-- The abstraction: every buffer's readable bytes. -/
def Pool.abs (s : Pool) : Deques := ⟨fun i => (s.buffers i).contents, s.outs⟩

theorem abs_fresh : Pool.fresh.abs = Deques.empty := by
  simp [Pool.abs, Pool.fresh, Deques.empty, Buffer.new_spec.2.1]

theorem contents_update (buffers : Nat → Buffer) (i : Nat) (b : Buffer) :
    (fun k => (Function.update buffers i b k).contents)
      = Function.update (fun k => (buffers k).contents) i b.contents := by
  funext k
  exact Function.apply_update (fun _ b => Buffer.contents b) buffers i b k

theorem inv_update {buffers : Nat → Buffer} (hs : ∀ k, (buffers k).Inv) {i : Nat} {b : Buffer}
    (hb : b.Inv) (k : Nat) : (Function.update buffers i b k).Inv := by
  by_cases hk : k = i
  · subst hk
    simpa using hb
  · simpa [Function.update_of_ne hk] using hs k

/-- One step of a client refines the same step on lists. -/
theorem step_refines {s : Pool} (hs : ∀ i, (s.buffers i).Inv) {a : Action} (ha : s.Legal a) :
    ∃ s', s.step a = .ok s' ∧ (∀ i, (s'.buffers i).Inv) ∧ s'.abs = s.abs.step a := by
  cases a with
  | on i op =>
      obtain ⟨b', h, hinv, hc⟩ := exec_refines op (hs i) ha.1
      refine ⟨⟨Function.update s.buffers i b', s.outs ++ [(op.deque (s.buffers i).contents).1]⟩,
        ?_, inv_update hs hinv, ?_⟩
      · simp [Pool.step, h]
      · simp only [Pool.abs, Deques.step, contents_update, hc]
  | swap i j =>
      refine ⟨_, rfl, inv_update (inv_update hs (hs j)) (hs i), ?_⟩
      simp only [Pool.abs, Deques.step, contents_update]

/-- `Buffer` refines a byte deque.  In every legal run over fresh buffers no
assertion fails, every buffer keeps the index invariant, the readable bytes and
the returned values are those of the same operations on plain lists, and no
`size_t` sum of the next operation can wrap. -/
theorem buffer_refines_deque (as : List Action) (h : machine.LegalRun Pool.fresh as) :
    ∃ s, machine.run Pool.fresh as = .ok s ∧ (∀ i, (s.buffers i).Inv) ∧
      s.abs = as.foldl Deques.step Deques.empty ∧
      ∀ i op, s.Legal (.on i op) → (s.buffers i).SumsFit op.size := by
  obtain ⟨s, hrun, hinv, habs⟩ := Machine.run_of_step
    (fun done s => (∀ i, (s.buffers i).Inv) ∧ s.abs = done.foldl Deques.step Deques.empty)
    (by
      rintro done s a ⟨hs, habs⟩ ha
      obtain ⟨s', hs', hinv', habs'⟩ := step_refines hs ha
      refine ⟨s', hs', hinv', ?_⟩
      rw [habs', habs, List.foldl_append, List.foldl_cons, List.foldl_nil])
    (show _ ∧ Pool.fresh.abs = [].foldl Deques.step Deques.empty from
      ⟨fun _ => Buffer.new_spec.1, abs_fresh⟩) h
  exact ⟨s, hrun, hinv, habs, fun i op hop => (hinv i).sumsFit hop.2.2 hop.2.1⟩

/-- A run that fills a buffer past the end of its vector, prepends and swaps. -/
def sampleRun : List Action :=
  [.on 0 (.readFd (.received (List.replicate 1025 65))), .on 0 (.prependInt32 7),
    .swap 0 1, .on 1 .readInt32, .on 1 (.retrieve 1000), .on 0 (.append [80, 79])]

theorem buffer_refines_deque_sampleRun :
    machine.LegalRun Pool.fresh sampleRun ∧
      ∃ s, machine.run Pool.fresh sampleRun = .ok s ∧ (∀ i, (s.buffers i).Inv) ∧
        s.abs = sampleRun.foldl Deques.step Deques.empty ∧
        ∀ i op, s.Legal (.on i op) → (s.buffers i).SumsFit op.size :=
  have hlegal : machine.LegalRun Pool.fresh sampleRun := by decide +kernel
  ⟨hlegal, buffer_refines_deque sampleRun hlegal⟩

end Muduo.Net.BufferDeque
