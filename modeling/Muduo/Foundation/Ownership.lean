/-
  Foundation/Ownership.lean --- objects that have one owner each.

  A heap maps addresses to live objects, and code holds references to them in variables
  and containers.  `Owned heap refs` says that the references `refs`, listed place by
  place, are to different live objects.  Moving a reference from one place to another
  permutes the list; what else can happen to it are allocation, a change of an object and
  deletion.  Nothing here names the program that is modelled.
-/
import Mathlib.Data.List.Nodup
import Mathlib.Logic.Function.Basic
import Mathlib.Tactic.Common

set_option autoImplicit false

namespace Muduo.Foundation

/-- The references are to different live objects. -/
structure Owned {β : Type} (heap : Nat → Option β) (refs : List Nat) : Prop where
  nodup : refs.Nodup
  live : ∀ a ∈ refs, ∃ b, heap a = some b

namespace Owned

variable {β : Type} {heap : Nat → Option β} {refs refs' : List Nat} {a : Nat} {b : β}

theorem perm (h : Owned heap refs) (hperm : refs.Perm refs') : Owned heap refs' :=
  ⟨hperm.nodup_iff.mp h.nodup, fun a ha => h.live a (hperm.mem_iff.mpr ha)⟩

/-- A new object. -/
theorem alloc (h : Owned heap refs) (hfree : heap a = none) (b : β) :
    Owned (Function.update heap a (some b)) (a :: refs) := by
  have hnot : a ∉ refs := by
    intro hmem
    obtain ⟨_, hlive⟩ := h.live a hmem
    exact absurd (hfree.symm.trans hlive) (by simp)
  refine ⟨List.nodup_cons.mpr ⟨hnot, h.nodup⟩, fun c hc => ?_⟩
  rcases List.mem_cons.mp hc with rfl | hc
  · exact ⟨b, Function.update_self _ _ _⟩
  · have hne : c ≠ a := fun heq => hnot (heq ▸ hc)
    rw [Function.update_of_ne hne]
    exact h.live c hc

/-- The objects that were there stay as they are. -/
theorem alloc_frame (h : Owned heap refs) (hfree : heap a = none) {c : Nat} (hc : c ∈ refs)
    (b : Option β) : Function.update heap a b c = heap c := by
  refine Function.update_of_ne ?_ _ _
  rintro rfl
  obtain ⟨_, hlive⟩ := h.live c hc
  exact absurd (hfree.symm.trans hlive) (by simp)

/-- An object changes. -/
theorem store (h : Owned heap refs) (a : Nat) (b : β) :
    Owned (Function.update heap a (some b)) refs := by
  refine ⟨h.nodup, fun c hc => ?_⟩
  by_cases hca : c = a
  · subst hca
    exact ⟨b, Function.update_self _ _ _⟩
  · rw [Function.update_of_ne hca]
    exact h.live c hc

end Owned

/-! ## Deletion -/

section Free

variable {β : Type} {heap : Nat → Option β}

/-- `delete` of some objects. -/
def free (heap : Nat → Option β) (dead : List Nat) : Nat → Option β :=
  fun a => if a ∈ dead then none else heap a

theorem free_of_not_mem {dead : List Nat} {a : Nat} (h : a ∉ dead) : free heap dead a = heap a :=
  if_neg h

theorem Owned.not_mem_of_append {dead refs : List Nat} (h : Owned heap (dead ++ refs)) {a : Nat}
    (ha : a ∈ refs) : a ∉ dead :=
  fun hdead => (List.nodup_append'.mp h.nodup).2.2 hdead ha

/-- Objects are deleted together with the references to them. -/
theorem Owned.free {dead refs : List Nat} (h : Owned heap (dead ++ refs)) :
    Owned (Foundation.free heap dead) refs := by
  refine ⟨(List.nodup_append'.mp h.nodup).2.1, fun a ha => ?_⟩
  rw [free_of_not_mem (h.not_mem_of_append ha)]
  exact h.live a (List.mem_append_right _ ha)

end Free

/-! ## The objects behind a list of references -/

section Contents

variable {β : Type} {heap heap' : Nat → Option β} {refs : List Nat} {a : Nat}

/-- What the references refer to. -/
def contents (heap : Nat → Option β) (refs : List Nat) : List β := refs.filterMap heap

theorem contents_congr (h : ∀ a ∈ refs, heap' a = heap a) :
    contents heap' refs = contents heap refs :=
  List.filterMap_congr h

@[simp] theorem contents_append (refs refs' : List Nat) :
    contents heap (refs ++ refs') = contents heap refs ++ contents heap refs' :=
  List.filterMap_append

@[simp] theorem contents_nil : contents heap [] = [] := rfl

theorem contents_cons_of {b : β} (h : heap a = some b) (refs : List Nat) :
    contents heap (a :: refs) = b :: contents heap refs :=
  List.filterMap_cons_some h

theorem contents_store (h : a ∉ refs) (b : Option β) :
    contents (Function.update heap a b) refs = contents heap refs := by
  refine contents_congr fun c hc => Function.update_of_ne ?_ _ _
  rintro rfl
  exact h hc

/-- The objects can be read one by one. -/
theorem contents_eq_map (default : β) (h : ∀ a ∈ refs, ∃ b, heap a = some b) :
    contents heap refs = refs.map fun a => (heap a).getD default := by
  rw [← List.filterMap_eq_map]
  refine List.filterMap_congr fun a ha => ?_
  obtain ⟨b, hb⟩ := h a ha
  simp [hb]

end Contents

end Muduo.Foundation
