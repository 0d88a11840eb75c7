/-
  Foundation/Bisection.lean --- `std::lower_bound`: the halving search for the first position
  whose element is not below a key.

  `bisect` is the library's loop on the first position and the length of what is left.  What
  the last probes saw holds of any list (`lowerBound_pred`, `lowerBound_at`), sorted or not.
  Nothing here names the program that is modelled.
-/
import Mathlib.Tactic.Common

set_option autoImplicit false

namespace Muduo.Foundation

/-- The loop, for at most `fuel` rounds: `below i` compares the element at `i` with the key. -/
def bisect (below : Nat → Bool) : Nat → Nat → Nat → Nat
  | 0, first, _ => first
  | fuel + 1, first, len =>
      if len = 0 then first
      else
        let half := len / 2
        if below (first + half) then bisect below fuel (first + half + 1) (len - half - 1)
        else bisect below fuel first half

/-- The result is in the interval; what is before it is below the key and what is at it is not,
unless these are the ends of the interval. -/
theorem bisect_spec (below : Nat → Bool) {fuel first len : Nat} (hfuel : len ≤ fuel) :
    first ≤ bisect below fuel first len ∧ bisect below fuel first len ≤ first + len ∧
      (bisect below fuel first len = first ∨
        below (bisect below fuel first len - 1) = true) ∧
      (bisect below fuel first len = first + len ∨
        below (bisect below fuel first len) = false) := by
  induction fuel generalizing first len with
  | zero =>
      have hlen : len = 0 := Nat.le_zero.mp hfuel
      simp [bisect, hlen]
  | succ fuel ih =>
      rw [bisect]
      by_cases hlen : len = 0
      · simp [hlen]
      rw [if_neg hlen]
      have hhalf : len / 2 < len := Nat.div_lt_self (Nat.pos_of_ne_zero hlen) (by decide)
      cases hbelow : below (first + len / 2) with
      | true =>
          obtain ⟨hlo, hhi, hpred, hat⟩ :=
            @ih (first + len / 2 + 1) (len - len / 2 - 1) (by omega)
          simp only [hbelow, if_true]
          refine ⟨by omega, by omega, ?_, ?_⟩
          · -- to the left of the new interval is the probe itself
            refine Or.inr ?_
            rcases hpred with hend | hprobe
            · rw [hend]
              exact hbelow
            · exact hprobe
          · exact hat.imp_left (fun hend => by omega)
      | false =>
          obtain ⟨hlo, hhi, hpred, hat⟩ := @ih first (len / 2) (by omega)
          simp only [hbelow, Bool.false_eq_true, if_false]
          refine ⟨hlo, by omega, hpred, ?_⟩
          refine Or.inr ?_
          rcases hat with hend | hprobe
          · rw [hend]
            exact hbelow
          · exact hprobe

section LowerBound

variable {α : Type}

/-- `lower_bound(begin, end, key)` as a position; `below x` is `x < key`. -/
def lowerBound (below : α → Bool) (l : List α) : Nat :=
  bisect (fun i => l[i]?.any below) l.length 0 l.length

variable (below : α → Bool) (l : List α)

theorem lowerBound_map {β : Type} (f : β → α) (l : List β) :
    lowerBound below (l.map f) = lowerBound (fun x => below (f x)) l := by
  simp only [lowerBound, List.length_map, List.getElem?_map, Option.any_map]

theorem lowerBound_le : lowerBound below l ≤ l.length := by
  obtain ⟨_, hle, _⟩ :=
    @bisect_spec (fun i => l[i]?.any below) l.length 0 l.length (Nat.le_refl _)
  rwa [Nat.zero_add] at hle

/-- The element before the result is below the key. -/
theorem lowerBound_pred (hpos : lowerBound below l ≠ 0) :
    ∃ x, l[lowerBound below l - 1]? = some x ∧ below x = true := by
  obtain ⟨_, _, hpred, _⟩ :=
    @bisect_spec (fun i => l[i]?.any below) l.length 0 l.length (Nat.le_refl _)
  exact (Option.any_eq_true _ _).mp (hpred.resolve_left hpos)

variable {below l}

/-- The element at the result is not. -/
theorem lowerBound_at {x : α} (hx : l[lowerBound below l]? = some x) : below x = false := by
  obtain ⟨_, _, _, hat⟩ :=
    @bisect_spec (fun i => l[i]?.any below) l.length 0 l.length (Nat.le_refl _)
  obtain ⟨hlt, _⟩ := List.getElem?_eq_some_iff.mp hx
  rcases hat with hend | hfalse
  · exact absurd hlt (by rw [lowerBound, hend]; omega)
  · change l[lowerBound below l]?.any below = false at hfalse
    rwa [hx] at hfalse

/-! ### The last element with a property -/

variable {p : α → Bool}

theorem findRev?_eq_none_iff : l.findRev? p = none ↔ ∀ x ∈ l, p x = false := by
  rw [List.findRev?_eq_find?_reverse, List.find?_eq_none]
  simp

theorem findRev?_spec {x : α} (h : l.findRev? p = some x) :
    ∃ i : Nat, l[i]? = some x ∧ p x = true ∧ ∀ j y, i < j → l[j]? = some y → p y = false := by
  induction l with
  | nil => exact absurd h (by simp [List.findRev?])
  | cons a l ih =>
      rw [List.findRev?] at h
      cases hrest : l.findRev? p with
      | some z =>
          rw [hrest] at h ih
          obtain ⟨i, hx, hp, hlast⟩ := ih h
          refine ⟨i + 1, hx, hp, ?_⟩
          intro j y hj hy
          obtain ⟨j, rfl⟩ : ∃ k, j = k + 1 := ⟨j - 1, by omega⟩
          exact hlast j y (by omega) hy
      | none =>
          simp only [hrest, Option.ite_none_right_eq_some, Option.some.injEq] at h
          obtain ⟨hp, rfl⟩ := h
          refine ⟨0, rfl, hp, ?_⟩
          intro j y hj hy
          obtain ⟨j, rfl⟩ : ∃ k, j = k + 1 := ⟨j - 1, by omega⟩
          exact findRev?_eq_none_iff.mp hrest y (List.mem_of_getElem? hy)

/-- No element after the one that is found has the property. -/
theorem findRev?_eq_some_iff {x : α} :
    l.findRev? p = some x ↔
      ∃ i : Nat, l[i]? = some x ∧ p x = true ∧ ∀ j y, i < j → l[j]? = some y → p y = false := by
  refine ⟨findRev?_spec, ?_⟩
  rintro ⟨i, hx, hp, hlast⟩
  cases hfound : l.findRev? p with
  | none =>
      rw [findRev?_eq_none_iff.mp hfound x (List.mem_of_getElem? hx)] at hp
      exact absurd hp (by decide)
  | some z =>
      obtain ⟨j, hz, hpz, hlastz⟩ := findRev?_spec hfound
      rcases Nat.lt_trichotomy i j with hlt | rfl | hgt
      · rw [hlast j z hlt hz] at hpz
        exact absurd hpz (by decide)
      · exact hz.symm.trans hx
      · rw [hlastz i x hgt hx] at hp
        exact absurd hp (by decide)

end LowerBound

end Muduo.Foundation
