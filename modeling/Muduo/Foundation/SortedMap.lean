/-
  Foundation/SortedMap.lean --- `std::map` as an association list in key order.

  Iteration visits the keys in order, so the list is the map as code can see it.
  Nothing here names the program that is modelled.
-/
import Mathlib.Tactic.Common

set_option autoImplicit false

namespace Muduo.Foundation

/-- A map from `α` to `β`, its entries in the order of their keys. -/
abbrev SortedMap (α β : Type) : Type := List (α × β)

namespace SortedMap

variable {α β : Type} [DecidableEq α] [LT α] [DecidableLT α]

/-- `m[key] = value`. -/
def assign : SortedMap α β → α → β → SortedMap α β
  | [], key, value => [(key, value)]
  | (k, v) :: m, key, value =>
      if k = key then (key, value) :: m
      else if key < k then (key, value) :: (k, v) :: m
      else (k, v) :: assign m key value

/-- `m.find(key)`. -/
def find : SortedMap α β → α → Option β
  | [], _ => none
  | (k, v) :: m, key => if k = key then some v else find m key

theorem find_assign (m : SortedMap α β) (key key' : α) (value : β) :
    (m.assign key value).find key' = if key = key' then some value else m.find key' := by
  induction m with
  | nil => rfl
  | cons e m ih =>
      obtain ⟨k, v⟩ := e
      rw [assign]
      by_cases hk : k = key
      · rw [if_pos hk, find, find, hk]
        split <;> rfl
      · rw [if_neg hk]
        by_cases hlt : key < k
        · rw [if_pos hlt, find]
        · rw [if_neg hlt, find, ih, find]
          by_cases hk' : k = key'
          · rw [if_pos hk', if_neg (fun h => hk (hk'.trans h.symm)), if_pos hk']
          · rw [if_neg hk', if_neg hk']

end SortedMap

end Muduo.Foundation
