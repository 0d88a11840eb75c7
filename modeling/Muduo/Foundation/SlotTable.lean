/-
  Foundation/SlotTable.lean --- a list of slots, each with one owner.

  The members of some set own the slots of a list: each member knows the position of its
  slot, and different members have different positions.  A slot in the middle is removed
  by moving the last one into its place, so that the positions stay without gaps; the
  owner of the last slot then has to be told.  Each lemma takes the positions before and
  after as functions and says where they must agree.  Nothing here names the program that
  is modelled.
-/
import Mathlib.Tactic.Common

set_option autoImplicit false

namespace Muduo.Foundation

/-- The members own the slots, one each. -/
structure SlotTable {α β : Type} (member : α → Prop) (index : α → Nat) (owns : α → β → Prop)
    (slots : List β) : Prop where
  slot : ∀ a, member a → ∃ b, slots[index a]? = some b ∧ owns a b
  owner : ∀ i, i < slots.length → ∃ a, member a ∧ index a = i
  inj : ∀ a a', member a → member a' → index a = index a' → a = a'

namespace SlotTable

variable {α β : Type} {member member' : α → Prop} {index index' : α → Nat}
  {owns owns' : α → β → Prop} {slots : List β} {a a' : α} {b : β}

theorem nil (h : ∀ a, ¬ member a) : SlotTable member index owns [] where
  slot a ha := absurd ha (h a)
  owner i hi := absurd hi (Nat.not_lt_zero i)
  inj a _ ha := absurd ha (h a)

theorem index_lt (h : SlotTable member index owns slots) (ha : member a) :
    index a < slots.length := by
  obtain ⟨_, hget, _⟩ := h.slot a ha
  exact (List.getElem?_eq_some_iff.mp hget).1

/-- A new member gets a slot at the end. -/
theorem push (h : SlotTable member index owns slots)
    (hmember : ∀ a', member' a' ↔ a' = a ∨ member a') (hself : index' a = slots.length)
    (hindex : ∀ a', member a' → index' a' = index a') (hown : owns' a b)
    (howns : ∀ a' b', member a' → owns a' b' → owns' a' b') :
    SlotTable member' index' owns' (slots ++ [b]) := by
  refine ⟨fun a' ha' => ?_, fun i hi => ?_, fun a₁ a₂ h₁ h₂ heq => ?_⟩
  · rcases (hmember a').mp ha' with rfl | ha'
    · exact ⟨b, by simp [hself], hown⟩
    · obtain ⟨b', hget, hb'⟩ := h.slot a' ha'
      refine ⟨b', ?_, howns a' b' ha' hb'⟩
      rw [hindex a' ha', List.getElem?_append_left (h.index_lt ha')]
      exact hget
  · rw [List.length_append, List.length_singleton] at hi
    by_cases hlast : i = slots.length
    · exact ⟨a, (hmember a).mpr (.inl rfl), hself.trans hlast.symm⟩
    · obtain ⟨a', ha', hi'⟩ := h.owner i (by omega)
      exact ⟨a', (hmember a').mpr (.inr ha'), (hindex a' ha').trans hi'⟩
  · rcases (hmember a₁).mp h₁ with rfl | h₁ <;> rcases (hmember a₂).mp h₂ with rfl | h₂
    · rfl
    · have := h.index_lt h₂
      rw [hself, hindex a₂ h₂] at heq
      omega
    · have := h.index_lt h₁
      rw [hself, hindex a₁ h₁] at heq
      omega
    · rw [hindex a₁ h₁, hindex a₂ h₂] at heq
      exact h.inj a₁ a₂ h₁ h₂ heq

/-- A member changes its slot. -/
theorem set (h : SlotTable member index owns slots) (ha : member a)
    (hmember : ∀ a', member' a' ↔ member a') (hindex : ∀ a', member a' → index' a' = index a')
    (hown : owns' a b) (howns : ∀ a' b', member a' → a' ≠ a → owns a' b' → owns' a' b') :
    SlotTable member' index' owns' (slots.set (index a) b) := by
  refine ⟨fun a' ha' => ?_, fun i hi => ?_, fun a₁ a₂ h₁ h₂ heq => ?_⟩
  · replace ha' := (hmember a').mp ha'
    rw [hindex a' ha']
    by_cases heq : a' = a
    · subst heq
      exact ⟨b, List.getElem?_set_self (h.index_lt ha'), hown⟩
    · obtain ⟨b', hget, hb'⟩ := h.slot a' ha'
      refine ⟨b', ?_, howns a' b' ha' heq hb'⟩
      rw [List.getElem?_set_ne (fun hi => heq (h.inj a' a ha' ha hi.symm))]
      exact hget
  · rw [List.length_set] at hi
    obtain ⟨a', ha', hi'⟩ := h.owner i hi
    exact ⟨a', (hmember a').mpr ha', (hindex a' ha').trans hi'⟩
  · replace h₁ := (hmember a₁).mp h₁
    replace h₂ := (hmember a₂).mp h₂
    rw [hindex a₁ h₁, hindex a₂ h₂] at heq
    exact h.inj a₁ a₂ h₁ h₂ heq

/-! ## Removal -/

/-- What a removal does: the slots of the others have the same contents, at positions
that are without gaps again. -/
theorem removal {slots' : List β} (h : SlotTable member index owns slots) (ha : member a)
    (hmember : ∀ a', member' a' ↔ a' ≠ a ∧ member a')
    (hlength : slots'.length = slots.length - 1)
    (hkeep : ∀ a', a' ≠ a → member a' → slots'[index' a']? = slots[index a']?)
    (hindex : ∀ a', a' ≠ a → member a' →
      index' a' = if index a' = slots.length - 1 then index a else index a') :
    SlotTable member' index' owns slots' := by
  have hlt := h.index_lt ha
  refine ⟨fun a' ha' => ?_, fun i hi => ?_, fun a₁ a₂ h₁ h₂ heq => ?_⟩
  · obtain ⟨hne, ha'⟩ := (hmember a').mp ha'
    rw [hkeep a' hne ha']
    exact h.slot a' ha'
  · -- the place of the removed slot is taken by the last one
    by_cases hplace : i = index a
    · obtain ⟨a', ha', hi'⟩ := h.owner (slots.length - 1) (by omega)
      have hne : a' ≠ a := by
        rintro rfl
        omega
      exact ⟨a', (hmember a').mpr ⟨hne, ha'⟩, by rw [hindex a' hne ha', if_pos hi', hplace]⟩
    · obtain ⟨a', ha', hi'⟩ := h.owner i (by omega)
      have hne : a' ≠ a := by
        rintro rfl
        exact hplace hi'.symm
      exact ⟨a', (hmember a').mpr ⟨hne, ha'⟩, by rw [hindex a' hne ha', if_neg (by omega), hi']⟩
  · obtain ⟨hne₁, h₁⟩ := (hmember a₁).mp h₁
    obtain ⟨hne₂, h₂⟩ := (hmember a₂).mp h₂
    have hi₁ : index a₁ ≠ index a := fun hi => hne₁ (h.inj a₁ a h₁ ha hi)
    have hi₂ : index a₂ ≠ index a := fun hi => hne₂ (h.inj a₂ a h₂ ha hi)
    rw [hindex a₁ hne₁ h₁, hindex a₂ hne₂ h₂] at heq
    exact h.inj a₁ a₂ h₁ h₂ (by split at heq <;> split at heq <;> omega)

/-- The last slot is dropped: the other members keep theirs. -/
theorem getElem?_pop (h : SlotTable member index owns slots) (ha : member a)
    (hlast : index a = slots.length - 1) (ha' : member a') (hne : a' ≠ a) :
    slots.dropLast[index a']? = slots[index a']? := by
  have hlt := h.index_lt ha'
  have hi : index a' ≠ index a := fun hi => hne (h.inj a' a ha' ha hi)
  rw [List.getElem?_dropLast, if_pos (by omega)]

theorem pop (h : SlotTable member index owns slots) (ha : member a)
    (hmember : ∀ a', member' a' ↔ a' ≠ a ∧ member a') (hlast : index a = slots.length - 1) :
    SlotTable member' index owns slots.dropLast := by
  refine h.removal ha hmember List.length_dropLast
    (fun a' hne ha' => h.getElem?_pop ha hlast ha' hne) (fun a' hne ha' => ?_)
  have hi : index a' ≠ index a := fun hi => hne (h.inj a' a ha' ha hi)
  exact (if_neg (by omega)).symm

section Swap

variable {e : α} (h : SlotTable member index owns slots) (ha : member a)
  (hlt : index a < slots.length - 1) (hlast : slots[slots.length - 1]? = some b) (he : member e)
  (hend : index e = slots.length - 1) (hmoved : index' e = index a)
  (hindex : ∀ a', member a' → a' ≠ e → index' a' = index a')

include h he hend hmoved hindex

/-- Only the owner of the last slot is told a new position. -/
theorem index_swap (ha' : member a') :
    index' a' = if index a' = slots.length - 1 then index a else index a' := by
  by_cases heq : a' = e
  · subst heq
    rw [if_pos hend, hmoved]
  · rw [if_neg (fun hi => heq (h.inj a' e ha' he (hi.trans hend.symm))), hindex a' ha' heq]

include ha hlt hlast

/-- The last slot is moved into the place of a slot that is dropped: the other members
keep theirs. -/
theorem getElem?_swap (ha' : member a') (hne : a' ≠ a) :
    (slots.set (index a) b).dropLast[index' a']? = slots[index a']? := by
  have hlt' := h.index_lt ha'
  have hother : index a' ≠ index a := fun heq => hne (h.inj a' a ha' ha heq)
  rw [List.getElem?_dropLast, List.length_set, h.index_swap he hend hmoved hindex ha']
  by_cases hi : index a' = slots.length - 1
  · rw [if_pos hi, if_pos hlt, List.getElem?_set_self (by omega), hi, hlast]
  · rw [if_neg hi, if_pos (by omega), List.getElem?_set_ne (Ne.symm hother)]

theorem swap (hmember : ∀ a', member' a' ↔ a' ≠ a ∧ member a') :
    SlotTable member' index' owns (slots.set (index a) b).dropLast :=
  h.removal ha hmember (by simp)
    (fun _ hne ha' => h.getElem?_swap ha hlt hlast he hend hmoved hindex ha' hne)
    (fun _ _ ha' => h.index_swap he hend hmoved hindex ha')

end Swap

end SlotTable

end Muduo.Foundation
