/-
  Foundation/CharArray.lean --- writing into an array through a pointer, and digit loops that
  write a number from its last digit on.

  A pointer is a position of the array; a write behind the end has no result.  `Holds` says which
  text a C string in the array is.  `digitBody` is the loop
  `do { *p++ = digit(i % base); i /= base; } while (i != 0)` with truncating division, for numbers
  of either sign: it writes the digits of the absolute value, last one first (`run_digitBody`).
  Nothing here names the program that is modelled.
-/
import Muduo.Foundation.Digits
import Muduo.Foundation.Exec

set_option autoImplicit false

namespace Muduo.Foundation

namespace CharArray

variable {α : Type}

/-- `*p = c`. -/
def put (mem : List α) (p : Nat) (c : α) : Exec (List α) :=
  if p < mem.length then .ok (mem.set p c) else .error .outOfBounds

/-- `memcpy(p, data, n)` of all `n` elements of the data. -/
def copy (mem : List α) (p : Nat) (data : List α) : Exec (List α) :=
  if p + data.length ≤ mem.length then .ok (overwrite mem p data) else .error .outOfBounds

/-- `std::reverse(first, last)`. -/
def reverse (mem : List α) (first last : Nat) : List α :=
  mem.take first ++ ((mem.take last).drop first).reverse ++ mem.drop last

theorem put_eq_overwrite {mem : List α} {p : Nat} (hp : p < mem.length) (c : α) :
    put mem p c = .ok (overwrite mem p [c]) := by
  rw [put, if_pos hp, List.set_eq_take_append_cons_drop, if_pos hp, overwrite, List.append_assoc,
    List.singleton_append, List.length_singleton]

theorem put_append {front : List α} {x : α} {rest : List α} {p : Nat} (hp : p = front.length)
    (c : α) : put (front ++ x :: rest) p c = .ok (front ++ c :: rest) := by
  rw [put, if_pos (by rw [List.length_append, List.length_cons]; omega), hp,
    List.set_append_right _ _ (Nat.le_refl _), Nat.sub_self, List.set_cons_zero]

theorem reverse_append {front middle rest : List α} {first last : Nat}
    (hfirst : first = front.length) (hlast : last = first + middle.length) :
    reverse (front ++ (middle ++ rest)) first last = front ++ (middle.reverse ++ rest) := by
  have htake : (front ++ (middle ++ rest)).take last = front ++ middle := by
    rw [← List.append_assoc, hlast, hfirst, ← List.length_append, List.take_left]
  have hdrop : (front ++ (middle ++ rest)).drop last = rest := by
    rw [← List.append_assoc, hlast, hfirst, ← List.length_append, List.drop_left]
  rw [reverse, htake, hdrop, hfirst, List.take_left, List.drop_left, List.append_assoc]

/-- `strlen`. -/
def strlen (mem : List UInt8) : Exec Nat :=
  if 0 ∈ mem then .ok (mem.takeWhile (· ≠ 0)).length else .error .outOfBounds

/-- `snprintf(p, size, ...)`, where `text` is what the format makes of the arguments: the array,
and the length of the text, also if it did not fit. -/
def snprintf (mem : List UInt8) (p size : Nat) (text : List UInt8) : Exec (List UInt8 × Nat) := do
  let mem ← copy mem p (text.take (size - 1) ++ [0])
  return (mem, text.length)

/-- The array holds a text with its terminating zero. -/
def Holds (mem text : List UInt8) : Prop := 0 ∉ text ∧ ∃ rest, mem = text ++ 0 :: rest

theorem takeWhile_text {text : List UInt8} (hzero : 0 ∉ text) (rest : List UInt8) :
    (text ++ rest).takeWhile (· ≠ 0) = text ++ rest.takeWhile (· ≠ 0) := by
  refine List.takeWhile_append_of_pos ?_
  intro c hc
  rw [decide_eq_true_eq]
  rintro rfl
  exact hzero hc

theorem Holds.strlen {mem text : List UInt8} (h : Holds mem text) :
    strlen mem = .ok text.length := by
  obtain ⟨hzero, rest, rfl⟩ := h
  rw [CharArray.strlen, if_pos (List.mem_append_right text List.mem_cons_self),
    takeWhile_text hzero, List.takeWhile_cons_of_neg (by decide), List.append_nil]

theorem Holds.take {mem text : List UInt8} (h : Holds mem text) : mem.take text.length = text := by
  obtain ⟨-, rest, rfl⟩ := h
  exact List.take_left

theorem Holds.length_le {mem text : List UInt8} (h : Holds mem text) :
    text.length ≤ mem.length := by
  obtain ⟨-, rest, rfl⟩ := h
  rw [List.length_append]
  omega

/-- A text that fits is written with its terminating zero from the start of the array on. -/
theorem snprintf_holds {mem text : List UInt8} {size : Nat} (hsize : mem.length = size)
    (hfits : text.length < size) (hzero : 0 ∉ text) :
    ∃ mem', snprintf mem 0 size text = .ok (mem', text.length) ∧ mem'.length = size ∧
      Holds mem' text := by
  have htake : text.take (size - 1) = text := List.take_of_length_le (by omega)
  have hlength : 0 + (text ++ [0]).length ≤ mem.length := by
    rw [List.length_append, List.length_singleton]
    omega
  refine ⟨overwrite mem 0 (text ++ [0]), ?_, ?_, hzero, mem.drop (text.length + 1), ?_⟩
  · rw [snprintf, htake, copy, if_pos hlength]
    rfl
  · rw [overwrite_length hlength, hsize]
  · rw [overwrite, List.take_zero, List.nil_append, List.append_assoc, List.length_append,
      List.length_singleton, Nat.zero_add, List.singleton_append]

end CharArray

/-! ## Digit loops -/

/-- The locals of the loop, and the array. -/
structure DigitCursor where
  i : Int
  p : Nat
  mem : List UInt8
  deriving DecidableEq, Repr

/-- One round; the loop is left when nothing remains of the number. -/
def digitBody (base : Int) (digit : Int → Exec UInt8) (s : DigitCursor) :
    Exec (DigitCursor ⊕ DigitCursor) := do
  let lsd := s.i.tmod base
  let i := s.i.tdiv base
  let c ← digit lsd
  let mem ← CharArray.put s.mem s.p c
  let next := ⟨i, s.p + 1, mem⟩
  return if i ≠ 0 then .inl next else .inr next

section DigitLoop

variable {base : Nat} {symbol : Char → UInt8} {digit : Int → Exec UInt8} {P : Int → Prop}

theorem natAbs_tdiv (i : Int) : (i.tdiv base).natAbs = i.natAbs / base := by
  rw [Int.natAbs_tdiv, Int.natAbs_natCast]
  rfl

theorem digitBody_eq {i : Int}
    (hdigit : digit (i.tmod base) = .ok (symbol (i.natAbs % base).digitChar))
    (front : List UInt8) (x : UInt8) (rest : List UInt8) :
    digitBody base digit ⟨i, front.length, front ++ x :: rest⟩ =
      let next : DigitCursor := ⟨i.tdiv base, front.length + 1,
        front ++ symbol (i.natAbs % base).digitChar :: rest⟩
      .ok (if i.tdiv base ≠ 0 then .inl next else .inr next) := by
  have hput := @CharArray.put_append UInt8 front x rest front.length rfl
    (symbol (i.natAbs % base).digitChar)
  simp only [digitBody, hdigit, ok_bind, hput]
  rfl

/-- The loop leaves with the digits of the absolute value behind `front`, the last one first. -/
theorem run_digitBody (hbase : 1 < base) (hnext : ∀ i, P i → P (i.tdiv base))
    (hdigit : ∀ i, P i → digit (i.tmod base) = .ok (symbol (i.natAbs % base).digitChar))
    {fuel : Nat} {i : Int} (hi : P i) {front rest : List UInt8}
    (hfuel : (digits base symbol i.natAbs).length ≤ fuel)
    (hroom : (digits base symbol i.natAbs).length ≤ rest.length) :
    Loop.run (digitBody base digit) fuel ⟨i, front.length, front ++ rest⟩ =
      .ok ⟨0, front.length + (digits base symbol i.natAbs).length,
        front ++ ((digits base symbol i.natAbs).reverse ++
          rest.drop (digits base symbol i.natAbs).length)⟩ := by
  induction fuel generalizing i front rest with
  | zero => exact absurd hfuel (Nat.not_le.mpr length_digits_pos)
  | succ fuel ih =>
      have hpos := @length_digits_pos base symbol i.natAbs
      obtain ⟨x, rest, rfl⟩ : ∃ x rest', rest = x :: rest' :=
        List.exists_cons_of_ne_nil (List.ne_nil_of_length_pos (by omega))
      have hbody := digitBody_eq (hdigit i hi) front x rest
      have hreverse := @reverse_digits base symbol i.natAbs hbase
      have hlength := @length_digits base symbol i.natAbs hbase
      by_cases hzero : i.natAbs / base = 0
      · have hlast : i.tdiv base = 0 := by
          rw [← Int.natAbs_eq_zero, natAbs_tdiv, hzero]
        simp only [hlast, ne_eq, not_true_eq_false, if_false] at hbody
        rw [if_pos hzero] at hreverse hlength
        rw [Loop.run_succ_of_leave hbody, hlength, hreverse]
        rfl
      · have hmore : i.tdiv base ≠ 0 := by
          intro hlast
          rw [← Int.natAbs_eq_zero, natAbs_tdiv] at hlast
          exact hzero hlast
        simp only [hmore, ne_eq, not_false_eq_true, if_true] at hbody
        rw [if_neg hzero] at hreverse hlength
        rw [List.length_cons] at hroom
        have hrun := @ih (i.tdiv base) (hnext i hi)
          (front ++ [symbol (i.natAbs % base).digitChar]) rest
          (by rw [natAbs_tdiv]; omega) (by rw [natAbs_tdiv]; omega)
        rw [natAbs_tdiv, List.length_append, List.length_singleton, List.append_assoc,
          List.append_assoc, List.singleton_append, List.singleton_append] at hrun
        rw [Loop.run_succ_of_next hbody, hrun, hlength, hreverse, Nat.add_assoc, Nat.add_comm 1,
          List.drop_succ_cons]
        rfl

end DigitLoop

end Muduo.Foundation
