/-
  Foundation/Digits.lean --- numbers as bytes: the digits in a base, decimal texts with a sign,
  and reading them back.

  `digits` is `Nat.toDigits` with a byte for each digit.  The last digit is split off at the end
  (`digits_of_le`), and every fact is an induction along that: the length, the value that is read
  back (`readDigits_digits`), and that no digit leads that is zero (`digits_head`).  Nothing here
  names the program that is modelled.
-/
import Muduo.Foundation.Decimal
import Muduo.Foundation.Bytes

set_option autoImplicit false

namespace Muduo.Foundation

/-- The byte of an ASCII character. -/
def byteOf (c : Char) : UInt8 := UInt8.ofNat c.toNat

/-- The digits of a number, most significant first. -/
def digits (base : Nat) (symbol : Char → UInt8) (n : Nat) : List UInt8 :=
  (Nat.toDigits base n).map symbol

section Digits

variable {base : Nat} {symbol : Char → UInt8} {n : Nat}

theorem digits_of_lt (h : n < base) : digits base symbol n = [symbol n.digitChar] := by
  rw [digits, Nat.toDigits_of_lt_base h, List.map_singleton]

theorem digits_of_le (hbase : 1 < base) (h : base ≤ n) : digits base symbol n =
    digits base symbol (n / base) ++ [symbol (n % base).digitChar] := by
  rw [digits, Nat.toDigits_of_base_le hbase h, List.map_append, List.map_singleton]
  rfl

theorem length_digits_le_iff (hbase : 1 < base) {k : Nat} (hk : 0 < k) :
    (digits base symbol n).length ≤ k ↔ n < base ^ k := by
  rw [digits, List.length_map, Nat.length_toDigits_le_iff hbase hk]

theorem length_digits_pos : 0 < (digits base symbol n).length := by
  rw [digits, List.length_map]
  exact Nat.length_toDigits_pos

/-- Written from the last digit on. -/
theorem reverse_digits (hbase : 1 < base) : (digits base symbol n).reverse =
    symbol (n % base).digitChar ::
      if n / base = 0 then [] else (digits base symbol (n / base)).reverse := by
  by_cases hlt : n < base
  · rw [digits_of_lt hlt, Nat.mod_eq_of_lt hlt, if_pos (Nat.div_eq_of_lt hlt),
      List.reverse_singleton]
  · have hne : n / base ≠ 0 := by
      have hpos := Nat.div_pos (Nat.not_lt.mp hlt) (by omega : 0 < base)
      omega
    rw [digits_of_le hbase (Nat.not_lt.mp hlt), if_neg hne, List.reverse_append,
      List.reverse_singleton, List.singleton_append]

theorem length_digits (hbase : 1 < base) : (digits base symbol n).length =
    1 + if n / base = 0 then 0 else (digits base symbol (n / base)).length := by
  rw [← List.length_reverse, reverse_digits hbase, List.length_cons, Nat.add_comm]
  by_cases hzero : n / base = 0
  · rw [if_pos hzero, if_pos hzero, List.length_nil]
  · rw [if_neg hzero, if_neg hzero, List.length_reverse]

theorem mem_digits (hbase : 1 < base) {c : UInt8} (hc : c ∈ digits base symbol n) :
    ∃ d < base, c = symbol d.digitChar := by
  induction n using Nat.strongRecOn with
  | _ n ih =>
      by_cases hlt : n < base
      · rw [digits_of_lt hlt, List.mem_singleton] at hc
        exact ⟨n, hlt, hc⟩
      · rw [digits_of_le hbase (Nat.not_lt.mp hlt), List.mem_append, List.mem_singleton] at hc
        rcases hc with hc | hc
        · exact ih (n / base) (Nat.div_lt_self (by omega) hbase) hc
        · exact ⟨n % base, Nat.mod_lt n (by omega), hc⟩

/-- The first digit is zero for zero alone. -/
theorem digits_head (hbase : 1 < base)
    (hsymbol : ∀ d < base, symbol d.digitChar = symbol (0).digitChar → d = 0)
    (h : (digits base symbol n).head? = some (symbol (0).digitChar)) : n = 0 := by
  induction n using Nat.strongRecOn with
  | _ n ih =>
      by_cases hlt : n < base
      · rw [digits_of_lt hlt, List.head?_cons, Option.some.injEq] at h
        exact hsymbol n hlt h
      · have hpos := Nat.div_pos (Nat.not_lt.mp hlt) (by omega : 0 < base)
        have hsmaller := Nat.div_lt_self (by omega : 0 < n) hbase
        have hne : digits base symbol (n / base) ≠ [] :=
          List.ne_nil_of_length_pos length_digits_pos
        rw [digits_of_le hbase (Nat.not_lt.mp hlt), List.head?_append_of_ne_nil _ hne] at h
        have hzero := ih (n / base) hsmaller h
        omega

/-- Read digits, most significant first. -/
def readDigits (base : Nat) (value : UInt8 → Option Nat) (text : List UInt8) : Option Nat :=
  if text = [] then none
  else text.foldlM (fun acc c => (value c).map fun d => acc * base + d) 0

theorem readDigits_digits (hbase : 1 < base) {value : UInt8 → Option Nat}
    (hvalue : ∀ d < base, value (symbol d.digitChar) = some d) :
    readDigits base value (digits base symbol n) = some n := by
  have hne : digits base symbol n ≠ [] := List.ne_nil_of_length_pos length_digits_pos
  rw [readDigits, if_neg hne]
  clear hne
  induction n using Nat.strongRecOn with
  | _ n ih =>
      by_cases hlt : n < base
      · rw [digits_of_lt hlt]
        simp [hvalue n hlt]
      · have hsmaller := Nat.div_lt_self (by omega : 0 < n) hbase
        have hdigit := hvalue (n % base) (Nat.mod_lt n (by omega))
        rw [digits_of_le hbase (Nat.not_lt.mp hlt), List.foldlM_append, ih _ hsmaller]
        simp [hdigit, Nat.div_add_mod']

end Digits

/-! ## Decimal texts -/

/-- The digits of a number, the highest first. -/
def decimalDigits (n : Nat) : List UInt8 := digits 10 byteOf n

/-- `%d`. -/
def decimalText (v : Int) : List UInt8 :=
  (if v < 0 then [45] else []) ++ decimalDigits v.natAbs

/-- `%wd`, of width `w`. -/
def spacePadded (width : Nat) (v : Int) : List UInt8 := (decimalText v).leftpad width 32

/-- `%0wd`, of width `w`: the zeros stand between the sign and the digits. -/
def zeroPadded (width : Nat) (v : Int) : List UInt8 :=
  (if v < 0 then [45] else []) ++
    (decimalDigits v.natAbs).leftpad (if v < 0 then width - 1 else width) 48

/-- The value of a decimal digit. -/
def decimalValue (c : UInt8) : Option Nat :=
  if 48 ≤ c ∧ c ≤ 57 then some (c.toNat - 48) else none

/-- The number that a text is, if it is one. -/
def readDecimal (text : List UInt8) : Option Int :=
  if text.head? = some 45 then (readDigits 10 decimalValue text.tail).map fun n : Nat => -(n : Int)
  else (readDigits 10 decimalValue text).map fun n : Nat => (n : Int)

/-- `%X`. -/
def hexText (n : Nat) : List UInt8 := digits 16 (fun c => byteOf c.toUpper) n

/-- The value of an upper-case hexadecimal digit. -/
def hexValue (c : UInt8) : Option Nat :=
  if 48 ≤ c ∧ c ≤ 57 then some (c.toNat - 48)
  else if 65 ≤ c ∧ c ≤ 70 then some (c.toNat - 55)
  else none

theorem decimalValue_digitChar : ∀ d < 10, decimalValue (byteOf d.digitChar) = some d := by decide

theorem hexValue_digitChar : ∀ d < 16, hexValue (byteOf d.digitChar.toUpper) = some d := by decide

theorem byteOf_digitChar : ∀ d < 10, 48 ≤ byteOf d.digitChar ∧ byteOf d.digitChar ≤ 57 := by decide

/-- Every byte of a decimal text without a sign is a digit. -/
theorem digit_of_mem {n : Nat} {c : UInt8} (hc : c ∈ decimalDigits n) : 48 ≤ c ∧ c ≤ 57 := by
  obtain ⟨d, hd, rfl⟩ := mem_digits (by decide) hc
  exact byteOf_digitChar d hd

theorem readDecimal_decimalText (v : Int) : readDecimal (decimalText v) = some v := by
  have hread : readDigits 10 decimalValue (decimalDigits v.natAbs) = some v.natAbs :=
    readDigits_digits (by decide) decimalValue_digitChar
  unfold readDecimal decimalText
  by_cases hneg : v < 0
  · rw [if_pos hneg, List.singleton_append, List.head?_cons, if_pos rfl, List.tail_cons, hread,
      Option.map_some, Option.some.injEq]
    omega
  · have hhead : (decimalDigits v.natAbs).head? ≠ some 45 := by
      intro hminus
      have hdigit := digit_of_mem (List.mem_of_mem_head? hminus)
      exact absurd hdigit.1 (by decide)
    rw [if_neg hneg, List.nil_append, if_neg hhead, hread, Option.map_some, Option.some.injEq]
    omega

/-! ## Padded texts -/

theorem decimalText_of_nonneg {v : Int} (h : 0 ≤ v) : decimalText v = decimalDigits v.natAbs := by
  rw [decimalText, if_neg (by omega), List.nil_append]

theorem zeroPadded_of_nonneg {width : Nat} {v : Int} (h : 0 ≤ v) :
    zeroPadded width v = (decimalDigits v.natAbs).leftpad width 48 := by
  rw [zeroPadded, if_neg (by omega), if_neg (by omega), List.nil_append]

/-- A number that has no more digits than the width has the width. -/
theorem length_zeroPadded {width : Nat} {v : Int} (hwidth : 0 < width) (h : 0 ≤ v)
    (hlt : v.natAbs < 10 ^ width) : (zeroPadded width v).length = width := by
  have hdigits : (decimalDigits v.natAbs).length ≤ width :=
    (length_digits_le_iff (by decide) hwidth).mpr hlt
  rw [zeroPadded_of_nonneg h, List.length_leftpad]
  omega

theorem length_spacePadded {width : Nat} {v : Int} (h : 0 ≤ v) :
    (spacePadded width v).length = max width (decimalDigits v.natAbs).length := by
  rw [spacePadded, List.length_leftpad, decimalText_of_nonneg h]

theorem digit_of_mem_zeroPadded {width : Nat} {v : Int} (h : 0 ≤ v) {c : UInt8}
    (hc : c ∈ zeroPadded width v) : 48 ≤ c ∧ c ≤ 57 := by
  rw [zeroPadded_of_nonneg h, List.leftpad, List.mem_append] at hc
  rcases hc with hzero | hdigit
  · rw [List.eq_of_mem_replicate hzero]
    decide
  · exact digit_of_mem hdigit

theorem ne_zero_of_mem_spacePadded {width : Nat} {v : Int} (h : 0 ≤ v) {c : UInt8}
    (hc : c ∈ spacePadded width v) : c ≠ 0 := by
  rw [spacePadded, List.leftpad, List.mem_append, decimalText_of_nonneg h] at hc
  rcases hc with hspace | hdigit
  · rw [List.eq_of_mem_replicate hspace]
    decide
  · rintro rfl
    exact absurd (digit_of_mem hdigit).1 (by decide)

/-- Leading zeros do not change the number. -/
theorem readDigits_zeroPadded {width : Nat} {v : Int} (h : 0 ≤ v) :
    readDigits 10 decimalValue (zeroPadded width v) = some v.natAbs := by
  have hread : readDigits 10 decimalValue (decimalDigits v.natAbs) = some v.natAbs :=
    readDigits_digits (by decide) decimalValue_digitChar
  have hne : decimalDigits v.natAbs ≠ [] := List.ne_nil_of_length_pos length_digits_pos
  rw [readDigits, if_neg hne] at hread
  have hne' : zeroPadded width v ≠ [] := by
    rw [zeroPadded_of_nonneg h, List.leftpad]
    exact List.append_ne_nil_of_right_ne_nil _ hne
  have hzeros : ∀ k : Nat, (List.replicate k (48 : UInt8)).foldlM
      (fun acc c => (decimalValue c).map fun d => acc * 10 + d) 0 = some 0 := by
    intro k
    induction k with
    | zero => rfl
    | succ k ih => exact ih
  rw [readDigits, if_neg hne', zeroPadded_of_nonneg h, List.leftpad, List.foldlM_append, hzeros]
  exact hread

theorem zeroPadded_injective {width : Nat} {v v' : Int} (h : 0 ≤ v) (h' : 0 ≤ v')
    (heq : zeroPadded width v = zeroPadded width v') : v = v' := by
  have hread := @readDigits_zeroPadded width v h
  rw [heq, readDigits_zeroPadded h', Option.some.injEq] at hread
  omega

/-! ## Canonical texts -/

/-- Digits of a number in canonical form: at least one, and no zero in front of others. -/
structure CanonicalDigits (isDigit : UInt8 → Prop) (text : List UInt8) : Prop where
  nonempty : text ≠ []
  digit : ∀ c ∈ text, isDigit c
  noLeadingZero : text.head? = some 48 → text = [48]

/-- The canonical decimal text of a number: the sign is there exactly for a negative number, and
reading the text back gives the number. -/
structure IsDecimal (text : List UInt8) (v : Int) : Prop where
  canonical : ∃ magnitude, text = (if v < 0 then [45] else []) ++ magnitude ∧
    CanonicalDigits (fun c => 48 ≤ c ∧ c ≤ 57) magnitude
  value : readDecimal text = some v

/-- The canonical upper-case hexadecimal text of a number. -/
structure IsHex (text : List UInt8) (n : Nat) : Prop where
  canonical : CanonicalDigits (fun c => 48 ≤ c ∧ c ≤ 57 ∨ 65 ≤ c ∧ c ≤ 70) text
  value : readDigits 16 hexValue text = some n

theorem decimal_zero_unique : ∀ d < 10, byteOf d.digitChar = byteOf (0).digitChar → d = 0 := by
  decide

theorem hex_zero_unique :
    ∀ d < 16, byteOf d.digitChar.toUpper = byteOf (0).digitChar.toUpper → d = 0 := by decide

theorem byteOf_toUpper : ∀ d < 16, 48 ≤ byteOf d.digitChar.toUpper ∧
    byteOf d.digitChar.toUpper ≤ 57 ∨ 65 ≤ byteOf d.digitChar.toUpper ∧
      byteOf d.digitChar.toUpper ≤ 70 := by decide

theorem decimalText_isDecimal (v : Int) : IsDecimal (decimalText v) v where
  canonical := by
    refine ⟨decimalDigits v.natAbs, rfl, ?_, fun c hc => digit_of_mem hc, ?_⟩
    · exact List.ne_nil_of_length_pos length_digits_pos
    · intro hhead
      have hzero : v.natAbs = 0 := digits_head (by decide) decimal_zero_unique hhead
      rw [hzero]
      rfl
  value := readDecimal_decimalText v

theorem readDigits_hexText (n : Nat) : readDigits 16 hexValue (hexText n) = some n :=
  readDigits_digits (by decide) hexValue_digitChar

theorem hexText_isHex (n : Nat) : IsHex (hexText n) n where
  canonical := by
    refine ⟨List.ne_nil_of_length_pos length_digits_pos, ?_, ?_⟩
    · intro c hc
      obtain ⟨d, hd, rfl⟩ := mem_digits (by decide) hc
      exact byteOf_toUpper d hd
    · intro hhead
      have hzero : n = 0 := digits_head (by decide) hex_zero_unique hhead
      rw [hzero]
      rfl
  value := readDigits_hexText n

end Muduo.Foundation
