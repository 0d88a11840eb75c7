/-
  Foundation/Bytes.lean --- byte sequences as C++ code handles them: network
  (big-endian) integers, `std::copy` into a vector, `std::search`.

  Bytes are `UInt8` and byte sequences are lists.  An integer of `n` bytes is
  represented by its residue modulo `256 ^ n`, so the same encoder serves signed
  and unsigned types.  Nothing here names the program that is modelled.
-/
import Mathlib.Algebra.Group.Nat.Defs
import Mathlib.Data.List.Basic
import Mathlib.Data.Nat.Basic
import Mathlib.Tactic.Common

set_option autoImplicit false

namespace Muduo.Foundation

/-- The bytes of an ASCII string literal. -/
def ascii (s : String) : List UInt8 := s.toList.map fun c => UInt8.ofNat c.toNat

/-! ## Network byte order -/

/-- The `width` bytes of `value` in network order, most significant first. -/
def toNetwork : Nat → Nat → List UInt8
  | 0, _ => []
  | width + 1, value => UInt8.ofNat (value / 256 ^ width) :: toNetwork width value

/-- The number that bytes in network order denote. -/
def fromNetwork : List UInt8 → Nat
  | [] => 0
  | b :: bs => b.toNat * 256 ^ bs.length + fromNetwork bs

@[simp] theorem toNetwork_length (width value : Nat) :
    (toNetwork width value).length = width := by
  induction width with
  | zero => rfl
  | succ n ih => simp [toNetwork, ih]

theorem fromNetwork_toNetwork (width value : Nat) :
    fromNetwork (toNetwork width value) = value % 256 ^ width := by
  induction width with
  | zero => simp [toNetwork, fromNetwork, Nat.mod_one]
  | succ n ih =>
      simp only [toNetwork, fromNetwork, toNetwork_length, ih]
      rw [Nat.mod_pow_succ, Nat.add_comm, Nat.mul_comm]
      rfl

theorem fromNetwork_lt (bs : List UInt8) : fromNetwork bs < 256 ^ bs.length := by
  induction bs with
  | nil => simp [fromNetwork]
  | cons b bs ih =>
      have hb : (b.toNat + 1) * 256 ^ bs.length ≤ 256 * 256 ^ bs.length :=
        Nat.mul_le_mul_right _ b.toNat_lt
      rw [Nat.succ_mul] at hb
      rw [fromNetwork, List.length_cons, Nat.pow_succ']
      omega

theorem fromNetwork_append (as bs : List UInt8) :
    fromNetwork (as ++ bs) = fromNetwork as * 256 ^ bs.length + fromNetwork bs := by
  induction as with
  | nil => simp [fromNetwork]
  | cons a as ih =>
      rw [List.cons_append, fromNetwork, fromNetwork, ih, List.length_append, Nat.pow_add,
        Nat.add_mul, Nat.mul_assoc, Nat.add_assoc]

/-- Only the low bytes of a number are written. -/
theorem toNetwork_mul_add (width high value : Nat) :
    toNetwork width (high * 256 ^ width + value) = toNetwork width value := by
  induction width generalizing high with
  | zero => rfl
  | succ n ih =>
      have hsplit : high * 256 ^ (n + 1) + value = high * 256 * 256 ^ n + value := by
        rw [Nat.pow_succ', Nat.mul_assoc]
      have hhead : UInt8.ofNat ((high * 256 * 256 ^ n + value) / 256 ^ n) =
          UInt8.ofNat (value / 256 ^ n) := by
        rw [Nat.mul_comm, Nat.mul_add_div (Nat.pow_pos (by decide)), Nat.add_comm]
        apply UInt8.toNat_inj.mp
        rw [UInt8.toNat_ofNat', UInt8.toNat_ofNat', Nat.add_mul_mod_self_right]
      rw [hsplit, toNetwork, toNetwork, ih, hhead]

theorem toNetwork_fromNetwork (bs : List UInt8) : toNetwork bs.length (fromNetwork bs) = bs := by
  induction bs with
  | nil => rfl
  | cons b bs ih =>
      have hhead : (b.toNat * 256 ^ bs.length + fromNetwork bs) / 256 ^ bs.length = b.toNat := by
        rw [Nat.mul_comm, Nat.mul_add_div (Nat.pow_pos (by decide)),
          Nat.div_eq_of_lt (fromNetwork_lt bs), Nat.add_zero]
      rw [List.length_cons, fromNetwork, toNetwork, toNetwork_mul_add, ih, hhead,
        UInt8.ofNat_toNat]

/-! ## Copying into a vector -/

section Overwrite

variable {α : Type}

/-- `std::copy(data, data + n, begin + pos)`: the elements from `pos` on are
replaced by those of `data`. -/
def overwrite (vec : List α) (pos : Nat) (data : List α) : List α :=
  vec.take pos ++ data ++ vec.drop (pos + data.length)

theorem overwrite_length {vec : List α} {pos : Nat} {data : List α}
    (h : pos + data.length ≤ vec.length) : (overwrite vec pos data).length = vec.length := by
  simp only [overwrite, List.length_append, List.length_take, List.length_drop]
  omega

theorem overwrite_append (front tail data : List α) :
    overwrite (front ++ tail) front.length data = front ++ (data ++ tail.drop data.length) := by
  rw [overwrite, List.take_left, List.drop_append, List.drop_of_length_le (by omega),
    List.nil_append, Nat.add_sub_cancel_left, List.append_assoc]

/-- Two regions that are written one behind the other. -/
theorem overwrite_overwrite {vec data data' : List α} {pos : Nat} (h : pos ≤ vec.length) :
    overwrite (overwrite vec pos data) (pos + data.length) data' =
      overwrite vec pos (data ++ data') := by
  obtain ⟨front, tail, rfl, rfl⟩ : ∃ front tail, vec = front ++ tail ∧ pos = front.length :=
    ⟨vec.take pos, vec.drop pos, (List.take_append_drop pos vec).symm, by
      rw [List.length_take, Nat.min_eq_left h]⟩
  rw [overwrite_append, overwrite_append, ← List.append_assoc front, ← List.length_append,
    overwrite_append, List.drop_drop, List.length_append, List.append_assoc, List.append_assoc]

/-- The written region holds the data. -/
theorem take_overwrite_end {vec : List α} {pos : Nat} {data : List α}
    (h : pos ≤ vec.length) :
    (overwrite vec pos data).take (pos + data.length) = vec.take pos ++ data := by
  have hlen : (vec.take pos ++ data).length = pos + data.length := by simp [h]
  rw [overwrite, ← hlen, List.take_left]

/-- What lies behind the written region is unchanged. -/
theorem drop_overwrite {vec : List α} {pos : Nat} {data : List α}
    (h : pos ≤ vec.length) :
    (overwrite vec pos data).drop pos = data ++ vec.drop (pos + data.length) := by
  have hlen : (vec.take pos).length = pos := by simp [h]
  rw [overwrite, List.append_assoc, List.drop_left' hlen]

/-- `std::vector::resize`: cut off, or padded with `fill`, to exactly `n` elements. -/
def resize (fill : α) (vec : List α) (n : Nat) : List α :=
  vec.take n ++ List.replicate (n - vec.length) fill

@[simp] theorem resize_length (fill : α) (vec : List α) (n : Nat) :
    (resize fill vec n).length = n := by
  simp only [resize, List.length_append, List.length_take, List.length_replicate]
  omega

/-- Growing a vector keeps its elements. -/
theorem take_resize {fill : α} {vec : List α} {n m : Nat} (hm : m ≤ vec.length)
    (h : vec.length ≤ n) : (resize fill vec n).take m = vec.take m := by
  rw [resize, List.take_of_length_le h, List.take_append_of_le_length hm]

end Overwrite

/-! ## Searching -/

/-- What stands in front of the first separator, and behind it. -/
theorem append_cons_cancel {α : Type} {c : α} {front front' rest rest' : List α}
    (hfree : c ∉ front) (hfree' : c ∉ front') (h : front ++ c :: rest = front' ++ c :: rest') :
    front = front' ∧ rest = rest' := by
  induction front generalizing front' with
  | nil =>
      cases front' with
      | nil => exact ⟨rfl, (List.cons.inj h).2⟩
      | cons d front' => exact absurd ((List.cons.inj h).1 ▸ List.mem_cons_self) hfree'
  | cons d front ih =>
      cases front' with
      | nil => exact absurd ((List.cons.inj h).1 ▸ List.mem_cons_self) hfree
      | cons d' front' =>
          obtain ⟨rfl, htail⟩ := List.cons.inj h
          obtain ⟨rfl, hrest⟩ := ih (fun hmem => hfree (List.mem_cons_of_mem d hmem))
            (fun hmem => hfree' (List.mem_cons_of_mem d hmem)) htail
          exact ⟨rfl, hrest⟩

section Search

variable {α : Type} [DecidableEq α]

/-- `std::search`: the position of the first occurrence of `pattern`. -/
def search (pattern : List α) : List α → Option Nat
  | [] => if pattern <+: [] then some 0 else none
  | x :: xs => if pattern <+: x :: xs then some 0 else (search pattern xs).map (· + 1)

/-- Nothing but the empty pattern is found in the empty sequence. -/
theorem search_nil_eq_some {pattern : List α} {i : Nat} (h : search pattern [] = some i) :
    pattern <+: [] ∧ i = 0 := by
  simp only [search] at h
  split at h
  · rename_i hp
    exact ⟨hp, (Option.some.inj h).symm⟩
  · exact absurd h (by simp)

/-- The pattern is found here, or later on. -/
theorem search_cons_eq_some {pattern : List α} {x : α} {xs : List α} {i : Nat}
    (h : search pattern (x :: xs) = some i) :
    pattern <+: x :: xs ∧ i = 0 ∨
      ¬ pattern <+: x :: xs ∧ ∃ j, search pattern xs = some j ∧ i = j + 1 := by
  simp only [search] at h
  split at h
  · rename_i hp
    exact .inl ⟨hp, (Option.some.inj h).symm⟩
  · rename_i hp
    obtain ⟨j, hj, hi⟩ := Option.map_eq_some_iff.mp h
    exact .inr ⟨hp, j, hj, hi.symm⟩

/-- A found occurrence lies inside the searched sequence. -/
theorem search_add_length_le {pattern text : List α} {i : Nat}
    (h : search pattern text = some i) : i + pattern.length ≤ text.length := by
  induction text generalizing i with
  | nil =>
      obtain ⟨hp, rfl⟩ := search_nil_eq_some h
      have hle := hp.length_le
      omega
  | cons x xs ih =>
      obtain ⟨hp, rfl⟩ | ⟨-, j, hj, rfl⟩ := search_cons_eq_some h
      · have hle := hp.length_le
        omega
      · have hle := ih hj
        simp only [List.length_cons]
        omega

/-- The first occurrence does not move when more elements arrive. -/
theorem search_append {pattern text : List α} {i : Nat} (more : List α)
    (h : search pattern text = some i) : search pattern (text ++ more) = some i := by
  induction text generalizing i with
  | nil =>
      obtain ⟨hp, rfl⟩ := search_nil_eq_some h
      obtain rfl := List.prefix_nil.mp hp
      cases more <;> simp [search]
  | cons x xs ih =>
      rw [List.cons_append]
      obtain ⟨hp, rfl⟩ | ⟨hp, j, hj, rfl⟩ := search_cons_eq_some h
      · have hp' : pattern <+: x :: (xs ++ more) := hp.trans (List.prefix_append _ _)
        simp [search, hp']
      · have hle := search_add_length_le hj
        -- the pattern fits into `xs`, so it cannot begin to match only thanks to `more`
        have hp' : ¬ pattern <+: x :: (xs ++ more) := by
          intro hpre
          exact hp (List.prefix_of_prefix_length_le hpre (List.prefix_append (x :: xs) more)
            (by simp only [List.length_cons]; omega))
        simp [search, hp', ih hj]

/-- What is found is an occurrence of the pattern. -/
theorem search_occurs {pattern text : List α} {i : Nat} (h : search pattern text = some i) :
    pattern <+: text.drop i := by
  induction text generalizing i with
  | nil =>
      obtain ⟨hp, rfl⟩ := search_nil_eq_some h
      exact hp
  | cons x xs ih =>
      obtain ⟨hp, rfl⟩ | ⟨-, j, hj, rfl⟩ := search_cons_eq_some h
      · exact hp
      · exact ih hj

/-- What is found is the first occurrence. -/
theorem search_first {pattern text : List α} {i : Nat} (h : search pattern text = some i) {j : Nat}
    (hj : j < i) : ¬ pattern <+: text.drop j := by
  induction text generalizing i j with
  | nil =>
      obtain ⟨-, rfl⟩ := search_nil_eq_some h
      omega
  | cons x xs ih =>
      obtain ⟨-, rfl⟩ | ⟨hp, k, hk, rfl⟩ := search_cons_eq_some h
      · omega
      · cases j with
        | zero => exact hp
        | succ j => exact ih hk (by omega)

end Search

end Muduo.Foundation
