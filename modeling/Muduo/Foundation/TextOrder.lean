/-
  Foundation/TextOrder.lean --- texts that sort like what they say.

  Sequences are compared by their first difference.  When the parts of two texts have equal
  lengths, the texts compare like the parts, one after the other (`append_lt_append_iff`), and
  numbers written to one width, with spaces or zeros in front, compare like their values
  (`leftPadded_lt_iff`).  A text made of such numbers and of fixed separators is a `render`; these
  texts compare like the lists of numbers (`render_lt_iff`).

  Nothing here names the program that is modelled.
-/
import Mathlib
import Muduo.Foundation.Digits

set_option autoImplicit false

namespace Muduo.Foundation

/-! ## Sequences -/

section Sequences

variable {α : Type} [LT α]

theorem append_lt_append_iff [Std.Irrefl (· < · : α → α → Prop)] {a a' b b' : List α}
    (hlen : a.length = a'.length) : a ++ b < a' ++ b' ↔ a < a' ∨ a = a' ∧ b < b' := by
  induction a generalizing a' with
  | nil =>
      obtain rfl := List.length_eq_zero_iff.mp hlen.symm
      simp
  | cons x a ih =>
      cases a' with
      | nil => exact absurd hlen (by simp)
      | cons y a' =>
          have ih' := @ih a' (by simpa using hlen)
          simp only [List.cons_append, List.cons_lt_cons_iff, ih', List.cons.injEq]
          constructor
          · rintro (h | ⟨rfl, h | ⟨rfl, h⟩⟩)
            · exact .inl (.inl h)
            · exact .inl (.inr ⟨rfl, h⟩)
            · exact .inr ⟨⟨rfl, rfl⟩, h⟩
          · rintro ((h | ⟨rfl, h⟩) | ⟨⟨rfl, rfl⟩, h⟩)
            · exact .inl h
            · exact .inr ⟨rfl, .inl h⟩
            · exact .inr ⟨rfl, .inr ⟨rfl, h⟩⟩

/-- A table is found again from its rows, in whatever order they come, by sorting them by a key
that increases. -/
theorem sorted_listing {β : Type} [Std.Asymm (· < · : α → α → Prop)] {listing table : List (α × β)}
    (hperm : listing.Perm table) (hsorted : listing.Pairwise fun a b => ¬ b.1 < a.1)
    (htable : table.Pairwise fun a b => a.1 < b.1) : listing = table := by
  have hsymm : Std.Symm fun a b : α × β => a.1 < b.1 ∨ b.1 < a.1 := ⟨fun _ _ h => h.symm⟩
  have hordered : table.Pairwise fun a b => a.1 < b.1 ∨ b.1 < a.1 := htable.imp fun h => .inl h
  have hdistinct := hordered.forall
  refine hperm.eq_of_pairwise ?_ hsorted (htable.imp fun h => Std.Asymm.asymm _ _ h)
  intro a b ha hb hab hba
  by_contra hne
  rcases hdistinct (hperm.mem_iff.mp ha) hb hne with h | h
  · exact hba h
  · exact hab h

end Sequences

/-! ## Numbers of one width -/

/-- The last `width` decimal digits, with `pad` for the zeros in front. -/
def paddedDigits (pad : UInt8) : Nat → Nat → List UInt8
  | 0, _ => []
  | width + 1, n =>
      (if n < 10 then List.replicate width pad else paddedDigits pad width (n / 10)) ++
        [byteOf (n % 10).digitChar]

section Digits

variable {pad : UInt8} {width n n' : Nat}

theorem length_paddedDigits : (paddedDigits pad width n).length = width := by
  induction width generalizing n with
  | zero => rfl
  | succ width ih =>
      by_cases hn : n < 10
      · rw [paddedDigits, if_pos hn, List.length_append, List.length_replicate,
          List.length_singleton]
      · rw [paddedDigits, if_neg hn, List.length_append, ih, List.length_singleton]

theorem paddedDigits_of_lt (hn : n < 10) :
    paddedDigits pad (width + 1) n = List.replicate width pad ++ [byteOf n.digitChar] := by
  rw [paddedDigits, if_pos hn, Nat.mod_eq_of_lt hn]

theorem paddedDigits_of_le (hn : 10 ≤ n) : paddedDigits pad (width + 1) n =
    paddedDigits pad width (n / 10) ++ [byteOf (n % 10).digitChar] := by
  rw [paddedDigits, if_neg (by omega)]

theorem byteOf_digitChar_lt : ∀ d < 10, ∀ d' < 10,
    d < d' → byteOf d.digitChar < byteOf d'.digitChar := by decide

theorem zero_lt_byteOf_digitChar : ∀ d < 10, 0 < d → (48 : UInt8) < byteOf d.digitChar := by decide

/-- A number that is not zero comes after the padding alone. -/
theorem replicate_lt_paddedDigits (hpad : pad ≤ 48) (hpos : 0 < n) (h : n < 10 ^ width) :
    List.replicate width pad < paddedDigits pad width n := by
  induction width generalizing n with
  | zero =>
      rw [pow_zero] at h
      omega
  | succ width ih =>
      rw [List.replicate_succ']
      by_cases hn : n < 10
      · rw [paddedDigits_of_lt hn, append_lt_append_iff rfl, List.cons_lt_cons_iff]
        exact .inr ⟨rfl, .inl (UInt8.lt_of_le_of_lt hpad (zero_lt_byteOf_digitChar n hn hpos))⟩
      · rw [pow_succ] at h
        rw [paddedDigits_of_le (by omega),
          append_lt_append_iff (by rw [List.length_replicate, length_paddedDigits])]
        exact .inl (ih (by omega) (by omega))

/-- The digits before the last one decide first. -/
theorem paddedDigits_lt (hpad : pad ≤ 48) (h' : n' < 10 ^ width) (hlt : n < n') :
    paddedDigits pad width n < paddedDigits pad width n' := by
  induction width generalizing n n' with
  | zero =>
      rw [pow_zero] at h'
      omega
  | succ width ih =>
      rw [pow_succ] at h'
      have hlast : n / 10 = n' / 10 →
          byteOf (n % 10).digitChar < byteOf (n' % 10).digitChar :=
        fun _ => byteOf_digitChar_lt _ (by omega) _ (by omega) (by omega)
      rcases Nat.lt_or_ge n' 10 with hn' | hn'
      · have hn : n < 10 := by omega
        rw [paddedDigits_of_lt hn, paddedDigits_of_lt hn', append_lt_append_iff rfl,
          List.cons_lt_cons_iff]
        exact .inr ⟨rfl, .inl (byteOf_digitChar_lt n hn n' hn' hlt)⟩
      rcases Nat.lt_or_ge n 10 with hn | hn
      · rw [paddedDigits_of_lt hn, paddedDigits_of_le hn',
          append_lt_append_iff (by rw [List.length_replicate, length_paddedDigits])]
        exact .inl (replicate_lt_paddedDigits hpad (by omega) (by omega))
      rw [paddedDigits_of_le hn, paddedDigits_of_le hn',
        append_lt_append_iff (by rw [length_paddedDigits, length_paddedDigits])]
      rcases Nat.lt_or_ge (n / 10) (n' / 10) with hdiv | hdiv
      · exact .inl (ih (by omega) hdiv)
      · have heq : n / 10 = n' / 10 := by omega
        rw [heq]
        exact .inr ⟨rfl, List.cons_lt_cons_iff.mpr (.inl (hlast heq))⟩

theorem paddedDigits_lt_iff (hpad : pad ≤ 48) (h : n < 10 ^ width) (h' : n' < 10 ^ width) :
    paddedDigits pad width n < paddedDigits pad width n' ↔ n < n' := by
  refine ⟨fun hlt => ?_, paddedDigits_lt hpad h'⟩
  rcases Nat.lt_trichotomy n n' with hn | rfl | hn
  · exact hn
  · exact absurd hlt (List.lt_irrefl _)
  · exact absurd hlt (List.lt_asymm (paddedDigits_lt hpad h hn))

/-- A number that has no more digits than the width is padded to its digits at that width. -/
theorem leftpad_decimalDigits (hwidth : 0 < width) (h : n < 10 ^ width) :
    (decimalDigits n).leftpad width pad = paddedDigits pad width n := by
  induction width generalizing n with
  | zero => exact absurd hwidth (Nat.lt_irrefl 0)
  | succ width ih =>
      by_cases hn : n < 10
      · rw [decimalDigits, digits_of_lt hn, paddedDigits_of_lt hn]
        simp [List.leftpad]
      · rw [pow_succ] at h
        have hpos : 0 < width := by
          rcases Nat.eq_zero_or_pos width with rfl | hpos
          · exact absurd h (by simpa using hn)
          · exact hpos
        rw [paddedDigits_of_le (by omega), ← ih hpos (by omega), decimalDigits,
          digits_of_le (by decide) (by omega)]
        simp [List.leftpad, decimalDigits]

end Digits

/-! ## Texts of fixed widths -/

/-- A number to be printed in `width` characters, and the text behind it. -/
structure Field where
  pad : UInt8
  width : Nat
  behind : List UInt8

/-- `%wd` or `%0wd` of a number that is not negative. -/
def leftPadded (pad : UInt8) (width : Nat) (v : Int) : List UInt8 :=
  (decimalDigits v.natAbs).leftpad width pad

theorem spacePadded_eq {width : Nat} {v : Int} (h : 0 ≤ v) :
    spacePadded width v = leftPadded 32 width v := by
  rw [spacePadded, decimalText_of_nonneg h, leftPadded]

theorem zeroPadded_eq {width : Nat} {v : Int} (h : 0 ≤ v) :
    zeroPadded width v = leftPadded 48 width v := zeroPadded_of_nonneg h

/-- A number with all the digits of its width needs no padding. -/
theorem leftPadded_of_le {pad : UInt8} {width : Nat} {v : Int} (hwidth : 1 < width)
    (h : 10 ^ (width - 1) ≤ v.natAbs) : leftPadded pad width v = decimalDigits v.natAbs := by
  have hlen : ¬ (decimalDigits v.natAbs).length ≤ width - 1 := by
    rw [decimalDigits, length_digits_le_iff (by decide) (by omega)]
    omega
  rw [leftPadded, List.leftpad, Nat.sub_eq_zero_of_le (by omega), List.replicate_zero,
    List.nil_append]

/-- The number fits into the field. -/
structure Field.Holds (field : Field) (v : Int) : Prop where
  pad : field.pad ≤ 48
  width : 0 < field.width
  nonneg : 0 ≤ v
  lt : v.natAbs < 10 ^ field.width

section Fields

variable {field : Field} {v v' : Int}

theorem Field.Holds.text (h : field.Holds v) :
    leftPadded field.pad field.width v = paddedDigits field.pad field.width v.natAbs :=
  leftpad_decimalDigits h.width h.lt

theorem Field.Holds.length (h : field.Holds v) :
    (leftPadded field.pad field.width v).length = field.width := by
  rw [h.text, length_paddedDigits]

theorem leftPadded_lt_iff (h : field.Holds v) (h' : field.Holds v') :
    leftPadded field.pad field.width v < leftPadded field.pad field.width v' ↔ v < v' := by
  have hpos := h.nonneg
  have hpos' := h'.nonneg
  rw [h.text, h'.text, paddedDigits_lt_iff h.pad h.lt h'.lt]
  omega

theorem leftPadded_inj (h : field.Holds v) (h' : field.Holds v') :
    leftPadded field.pad field.width v = leftPadded field.pad field.width v' ↔ v = v' := by
  refine ⟨fun heq => ?_, fun heq => by rw [heq]⟩
  have hlt := (leftPadded_lt_iff h h').not.mp (heq ▸ List.lt_irrefl _)
  have hgt := (leftPadded_lt_iff h' h).not.mp (heq ▸ List.lt_irrefl _)
  omega

end Fields

/-- The text of some numbers. -/
def render : List Field → List Int → List UInt8
  | field :: fields, v :: vs =>
      leftPadded field.pad field.width v ++ (field.behind ++ render fields vs)
  | [], _ | _ :: _, [] => []

/-- Every number fits into its field. -/
def Fits (fields : List Field) (vs : List Int) : Prop := List.Forall₂ Field.Holds fields vs

theorem Fits.append {fields fields' : List Field} {vs vs' : List Int} (h : Fits fields vs)
    (h' : Fits fields' vs') : Fits (fields ++ fields') (vs ++ vs') := List.rel_append h h'

theorem length_render {fields : List Field} {vs : List Int} (h : Fits fields vs) :
    (render fields vs).length =
      (fields.map fun field => field.width + field.behind.length).sum := by
  induction h with
  | nil => rfl
  | cons hv _ ih =>
      rw [render, List.length_append, List.length_append, hv.length, ih, List.map_cons,
        List.sum_cons, Nat.add_assoc]

/-- Such texts compare like the lists of numbers. -/
theorem render_lt_iff {fields : List Field} {vs vs' : List Int} (h : Fits fields vs)
    (h' : Fits fields vs') : render fields vs < render fields vs' ↔ vs < vs' := by
  induction h generalizing vs' with
  | nil =>
      cases h'
      simp [render]
  | @cons field v _ _ hv _ ih =>
      cases h' with
      | cons hv' hrest' =>
          have hsame : ¬ field.behind < field.behind := List.lt_irrefl _
          rw [render, render, append_lt_append_iff (by rw [hv.length, hv'.length]),
            leftPadded_lt_iff hv hv', leftPadded_inj hv hv', append_lt_append_iff rfl, ih hrest',
            List.cons_lt_cons_iff]
          simp only [hsame, true_and, false_or]

end Muduo.Foundation
