/-
  Foundation/ByteFile.lean --- code that reads a file from front to back and fills a record on
  the way, and that an exception may stop in the middle.

  What was filled before an exception stays: a computation always gives a state back.  `Takes`
  says of a reader that it takes a fixed number of bytes, or throws and leaves the record
  alone; readers of this kind compose (`Takes.bind`, `Takes.many`), and a loop that fills the
  record item by item fills it with the items that are complete (`readInto_ok`,
  `readInto_short`).  Nothing here names the program that is modelled.
-/
import Muduo.Foundation.Bytes
import Muduo.Foundation.Exec

set_option autoImplicit false

namespace Muduo.Foundation

/-- Why reading stopped. -/
inductive Interrupt where
  /-- a `std::logic_error` was thrown -/
  | logicError
  | fault (reason : Fault)
  deriving DecidableEq, Repr

/-- What is left of the file, and the record as it is filled so far. -/
structure FileState (δ : Type) where
  input : List UInt8
  data : δ
  deriving DecidableEq, Repr

/-- Code that reads the file and fills the record. -/
def FileM (δ α : Type) : Type := FileState δ → Except Interrupt α × FileState δ

namespace FileM

variable {δ α β : Type}

instance : Monad (FileM δ) where
  pure a := fun s => (.ok a, s)
  bind x f := fun s =>
    match x s with
    | (.ok a, s') => f a s'
    | (.error e, s') => (.error e, s')

theorem bind_ok {x : FileM δ α} {f : α → FileM δ β} {s s' : FileState δ} {a : α}
    (h : x s = (.ok a, s')) : (x >>= f) s = f a s' := by
  simp only [bind, h]

theorem bind_error {x : FileM δ α} {f : α → FileM δ β} {s s' : FileState δ} {e : Interrupt}
    (h : x s = (.error e, s')) : (x >>= f) s = (.error e, s') := by
  simp only [bind, h]

/-- The computation ends. -/
def stop (e : Interrupt) : FileM δ α := fun s => (.error e, s)

/-- An exception, if `p`. -/
def throwIf (p : Prop) [Decidable p] : FileM δ Unit :=
  if p then stop .logicError else pure ()

/-- Execute code on the record alone. -/
def onData (f : δ → Exec (α × δ)) : FileM δ α := fun s =>
  match f s.data with
  | .ok (a, data) => (.ok a, { s with data := data })
  | .error reason => (.error (.fault reason), s)

/-- The data are changed. -/
def modifyData (f : δ → δ) : FileM δ Unit := fun s => (.ok (), { s with data := f s.data })

/-- `catch (logic_error&)`: what was filled so far stays. -/
def caught : Except Interrupt Unit × FileState δ → Exec δ
  | (.error (.fault reason), _) => .error reason
  | (_, s) => .ok s.data

/-- `fread`: at most `n` bytes. -/
def fread (n : Nat) : FileM δ (List UInt8) := fun s =>
  (.ok (s.input.take n), { s with input := s.input.drop n })

/-! ## Readers of a fixed width -/

/-- The reader takes `width` bytes and gives what `value` says of the file from there on; if
there are fewer it throws, and the record is as before. -/
structure Takes (p : FileM δ α) (width : Nat) (value : List UInt8 → α) : Prop where
  whole : ∀ s : FileState δ, width ≤ s.input.length →
    p s = (.ok (value s.input), { s with input := s.input.drop width })
  short : ∀ s : FileState δ, s.input.length < width →
    ∃ rest, p s = (.error .logicError, { s with input := rest })

theorem takes_pure (a : α) : Takes (pure a : FileM δ α) 0 fun _ => a where
  whole _ _ := rfl
  short _ h := absurd h (Nat.not_lt_zero _)

theorem Takes.bind {p : FileM δ α} {q : α → FileM δ β} {width width' : Nat}
    {value : List UInt8 → α} {value' : α → List UInt8 → β} (hp : Takes p width value)
    (hq : ∀ a, Takes (q a) width' (value' a)) :
    Takes (p >>= q) (width + width') fun input =>
      value' (value input) (input.drop width) where
  whole s h := by
    rw [bind_ok (hp.whole s (by omega)), (hq _).whole _ (by rw [List.length_drop]; omega),
      List.drop_drop]
  short s h := by
    by_cases hshort : s.input.length < width
    · obtain ⟨rest, herror⟩ := hp.short s hshort
      exact ⟨rest, bind_error herror⟩
    · obtain ⟨rest, herror⟩ :=
        (hq (value s.input)).short { s with input := s.input.drop width }
          (by rw [List.length_drop]; omega)
      refine ⟨rest, ?_⟩
      rw [bind_ok (hp.whole s (by omega)), herror]

/-- The same reader with what it takes described in another way. -/
theorem Takes.congr {p : FileM δ α} {width width' : Nat} {value value' : List UInt8 → α}
    (hp : Takes p width value) (hwidth : width = width')
    (hvalue : ∀ input, value input = value' input) : Takes p width' value' := by
  obtain rfl : value = value' := funext hvalue
  exact hwidth ▸ hp

/-- The same item, `n` times. -/
def readMany (p : FileM δ α) : Nat → FileM δ (List α)
  | 0 => pure []
  | n + 1 => do
      let a ← p
      let rest ← readMany p n
      pure (a :: rest)

/-- The items that stand one after the other. -/
def itemsOf (value : List UInt8 → α) (width n : Nat) (input : List UInt8) : List α :=
  (List.range n).map fun i => value (input.drop (i * width))

theorem itemsOf_succ (value : List UInt8 → α) (width n : Nat) (input : List UInt8) :
    itemsOf value width (n + 1) input =
      value input :: itemsOf value width n (input.drop width) := by
  rw [itemsOf, List.range_succ_eq_map, List.map_cons, List.map_map, Nat.zero_mul, List.drop_zero]
  refine congrArg _ (List.map_congr_left ?_)
  intro i _
  rw [Function.comp_apply, List.drop_drop, Nat.succ_mul, Nat.add_comm]

theorem Takes.many {p : FileM δ α} {width : Nat} {value : List UInt8 → α}
    (hp : Takes p width value) (n : Nat) :
    Takes (readMany p n) (n * width) (itemsOf value width n) := by
  induction n with
  | zero => exact (takes_pure []).congr (Nat.zero_mul width).symm fun _ => rfl
  | succ n ih =>
      refine (hp.bind fun a => ih.bind fun rest => takes_pure (a :: rest)).congr ?_ ?_
      · rw [Nat.succ_mul]
        omega
      · intro input
        rw [itemsOf_succ]

/-! ## Filling the record -/

/-- Read the item `n` times, and put each into the record. -/
def readInto (p : FileM δ α) (push : δ → α → δ) : Nat → FileM δ Unit
  | 0 => pure ()
  | n + 1 => do
      let a ← p
      modifyData (push · a)
      readInto p push n

section ReadInto

variable {p : FileM δ α} {push : δ → α → δ} {width : Nat} {value : List UInt8 → α}

theorem readInto_step (hp : Takes p width value) {n : Nat} {s : FileState δ}
    (h : width ≤ s.input.length) :
    readInto p push (n + 1) s =
      readInto p push n ⟨s.input.drop width, push s.data (value s.input)⟩ := by
  rw [readInto, bind_ok (hp.whole s h), bind_ok (by rfl)]

theorem readInto_ok (hp : Takes p width value) {n : Nat} {s : FileState δ}
    (h : n * width ≤ s.input.length) :
    readInto p push n s =
      (.ok (), ⟨s.input.drop (n * width), (itemsOf value width n s.input).foldl push s.data⟩) := by
  induction n generalizing s with
  | zero =>
      rw [Nat.zero_mul, List.drop_zero]
      rfl
  | succ n ih =>
      rw [Nat.succ_mul] at h
      rw [readInto_step hp (by omega), ih (by rw [List.length_drop]; omega), List.drop_drop,
        itemsOf_succ, List.foldl_cons, Nat.succ_mul, Nat.add_comm]

/-- If the file is too short, the complete items are in the record. -/
theorem readInto_short (hp : Takes p width value) (hwidth : 0 < width) {n : Nat}
    {s : FileState δ} (h : s.input.length < n * width) :
    ∃ rest, readInto p push n s =
      (.error .logicError,
        ⟨rest, (itemsOf value width (s.input.length / width) s.input).foldl push s.data⟩) := by
  induction n generalizing s with
  | zero => exact absurd h (by omega)
  | succ n ih =>
      rw [Nat.succ_mul] at h
      by_cases hshort : s.input.length < width
      · obtain ⟨rest, herror⟩ := hp.short s hshort
        refine ⟨rest, ?_⟩
        rw [readInto, bind_error herror, Nat.div_eq_of_lt hshort]
        rfl
      · have hlength : s.input.length = (s.input.drop width).length + width := by
          rw [List.length_drop]
          omega
        have hcount : s.input.length / width = (s.input.drop width).length / width + 1 := by
          rw [hlength, Nat.add_div_right _ hwidth]
        obtain ⟨rest, herror⟩ :=
          @ih ⟨s.input.drop width, push s.data (value s.input)⟩ (by dsimp only; omega)
        refine ⟨rest, ?_⟩
        rw [readInto_step hp (by omega), herror, hcount, itemsOf_succ, List.foldl_cons]

end ReadInto

end FileM

end Muduo.Foundation
