/-
  Foundation/SortedSet.lean --- `std::set` as a strictly increasing list.

  Iteration visits the elements in order, so the list is the set as code can see it,
  and `begin()` is its head.  The order is a field of the structure: no operation has
  to be told that it holds.  Nothing here names the program that is modelled.
-/
import Mathlib.Data.List.Sort
import Mathlib.Data.List.TakeWhile
import Mathlib.Logic.Function.Basic

set_option autoImplicit false

namespace Muduo.Foundation

/-- A finite set whose elements are enumerated in increasing order. -/
structure SortedSet (α : Type) [LinearOrder α] where
  elems : List α
  sorted : elems.Pairwise (· < ·)

namespace SortedSet

variable {α : Type} [LinearOrder α]

instance : Membership α (SortedSet α) := ⟨fun s a => a ∈ s.elems⟩

instance (a : α) (s : SortedSet α) : Decidable (a ∈ s) := inferInstanceAs (Decidable (a ∈ s.elems))

theorem mem_def {a : α} {s : SortedSet α} : a ∈ s ↔ a ∈ s.elems := Iff.rfl

/-- Without elements. -/
def empty : SortedSet α := ⟨[], .nil⟩

@[simp] theorem not_mem_empty (a : α) : a ∉ (empty : SortedSet α) := List.not_mem_nil

/-- The number of elements. -/
def size (s : SortedSet α) : Nat := s.elems.length

theorem nodup (s : SortedSet α) : s.elems.Nodup := s.sorted.imp fun h => ne_of_lt h

/-- `*begin()`, if the set is not empty. -/
def first (s : SortedSet α) : Option α := s.elems.head?

theorem mem_of_first {s : SortedSet α} {a : α} (h : s.first = some a) : a ∈ s :=
  List.mem_of_mem_head? h

/-- The set starts with its least element. -/
theorem first_le {s : SortedSet α} {a b : α} (h : s.first = some a) (hb : b ∈ s) : a ≤ b := by
  obtain ⟨elems, hsorted⟩ := s
  cases elems with
  | nil => exact absurd h (by simp [first])
  | cons x xs =>
      obtain rfl : x = a := Option.some.inj h
      rcases List.mem_cons.mp hb with rfl | hmem
      · exact le_rfl
      · exact le_of_lt ((List.pairwise_cons.mp hsorted).1 b hmem)

theorem exists_first {s : SortedSet α} {a : α} (h : a ∈ s) : ∃ b, s.first = some b := by
  obtain ⟨elems, _⟩ := s
  cases elems with
  | nil => exact absurd h List.not_mem_nil
  | cons x xs => exact ⟨x, rfl⟩

/-! ## Insertion -/

theorem pairwise_orderedInsert {l : List α} (h : l.Pairwise (· < ·)) {a : α} (ha : a ∉ l) :
    (l.orderedInsert (· ≤ ·) a).Pairwise (· < ·) := by
  induction l with
  | nil => simp
  | cons b l ih =>
      obtain ⟨hb, hl⟩ := List.pairwise_cons.mp h
      obtain ⟨hne, hnot⟩ := List.ne_and_not_mem_of_not_mem_cons ha
      rw [List.orderedInsert_cons]
      split
      · rename_i hle
        have hlt : a < b := lt_of_le_of_ne hle hne
        refine List.pairwise_cons.mpr ⟨fun c hc => ?_, h⟩
        rcases List.mem_cons.mp hc with rfl | hc
        · exact hlt
        · exact hlt.trans (hb c hc)
      · rename_i hle
        refine List.pairwise_cons.mpr ⟨fun c hc => ?_, ih hl hnot⟩
        rcases (List.mem_orderedInsert _).mp hc with rfl | hc
        · exact not_le.mp hle
        · exact hb c hc

/-- `insert(a)`: the set after it, and whether `a` was not there before. -/
def insert (s : SortedSet α) (a : α) : SortedSet α × Bool :=
  if h : a ∈ s then (s, false)
  else (⟨s.elems.orderedInsert (· ≤ ·) a, pairwise_orderedInsert s.sorted h⟩, true)

theorem insert_snd {s : SortedSet α} {a : α} (h : a ∉ s) : (s.insert a).2 = true := by
  simp [insert, h]

@[simp] theorem mem_insert {s : SortedSet α} {a b : α} : b ∈ (s.insert a).1 ↔ b = a ∨ b ∈ s := by
  unfold insert
  split
  · rename_i h
    constructor
    · exact .inr
    · rintro (rfl | hb)
      · exact h
      · exact hb
  · exact List.mem_orderedInsert _

/-! ## Removal -/

/-- `erase(a)`: the set after it, and the number of elements that were removed. -/
def erase (s : SortedSet α) (a : α) : SortedSet α × Nat :=
  (⟨s.elems.erase a, s.sorted.sublist List.erase_sublist⟩, if a ∈ s then 1 else 0)

theorem erase_snd {s : SortedSet α} {a : α} (h : a ∈ s) : (s.erase a).2 = 1 := by
  simp [erase, h]

@[simp] theorem mem_erase {s : SortedSet α} {a b : α} : b ∈ (s.erase a).1 ↔ b ≠ a ∧ b ∈ s :=
  s.nodup.mem_erase_iff

/-! ## Ranges -/

/-- The range from `begin()` to `lower_bound(a)`. -/
def below (s : SortedSet α) (a : α) : SortedSet α :=
  ⟨s.elems.takeWhile (· < a), s.sorted.sublist (List.takeWhile_sublist _)⟩

/-- The range from `lower_bound(a)` to `end()`. -/
def notBelow (s : SortedSet α) (a : α) : SortedSet α :=
  ⟨s.elems.dropWhile (· < a), s.sorted.sublist (List.dropWhile_sublist _)⟩

theorem not_lt_of_mem_notBelow {s : SortedSet α} {a b : α} (h : b ∈ s.notBelow a) : ¬ b < a := by
  obtain ⟨elems, hsorted⟩ := s
  induction elems with
  | nil => exact absurd h List.not_mem_nil
  | cons x xs ih =>
      obtain ⟨hx, hxs⟩ := List.pairwise_cons.mp hsorted
      have h' : b ∈ (x :: xs).dropWhile (· < a) := h
      rw [List.dropWhile_cons] at h'
      split at h'
      · exact ih hxs h'
      · rename_i hlt
        have hax : a ≤ x := by simpa using hlt
        rcases List.mem_cons.mp h' with rfl | hb
        · exact not_lt.mpr hax
        · exact not_lt.mpr (hax.trans (le_of_lt (hx b hb)))

/-- The set is in two parts. -/
theorem mem_below_or_mem_notBelow {s : SortedSet α} {b : α} (h : b ∈ s) (a : α) :
    b ∈ s.below a ∨ b ∈ s.notBelow a := by
  rw [mem_def, ← @List.takeWhile_append_dropWhile _ (fun x => decide (x < a)) s.elems,
    List.mem_append] at h
  exact h

@[simp] theorem mem_below {s : SortedSet α} {a b : α} : b ∈ s.below a ↔ b ∈ s ∧ b < a := by
  constructor
  · intro h
    have hlt := List.mem_takeWhile_imp h
    exact ⟨(List.takeWhile_sublist _).subset h, by simpa using hlt⟩
  · rintro ⟨hmem, hlt⟩
    rcases mem_below_or_mem_notBelow hmem a with h | h
    · exact h
    · exact absurd hlt (not_lt_of_mem_notBelow h)

@[simp] theorem mem_notBelow {s : SortedSet α} {a b : α} : b ∈ s.notBelow a ↔ b ∈ s ∧ ¬ b < a := by
  constructor
  · intro h
    exact ⟨(List.dropWhile_sublist _).subset h, not_lt_of_mem_notBelow h⟩
  · rintro ⟨hmem, hlt⟩
    rcases mem_below_or_mem_notBelow hmem a with h | h
    · exact absurd (mem_below.mp h).2 hlt
    · exact h

/-! ## Indexes

An index of a partial map lists one entry for each key of its domain. -/

section Index

variable {κ τ : Type} {entry : κ → τ → α} {key : α → κ} {m : κ → Option τ} {s : SortedSet α}

/-- The set consists of the entries of the map. -/
def Index (s : SortedSet α) (entry : κ → τ → α) (m : κ → Option τ) : Prop :=
  ∀ e, e ∈ s ↔ ∃ k t, m k = some t ∧ entry k t = e

/-- An entry names its key. -/
def Keyed (entry : κ → τ → α) (key : α → κ) : Prop := ∀ k t, key (entry k t) = k

omit [LinearOrder α] in
theorem Keyed.inj (h : Keyed entry key) {k k' : κ} {t t' : τ}
    (he : entry k t = entry k' t') : k = k' := by
  rw [← h k t, he, h]

theorem Index.mem (h : Index s entry m) {k : κ} {t : τ} (hk : m k = some t) : entry k t ∈ s :=
  (h _).mpr ⟨k, t, hk, rfl⟩

theorem Index.mem_iff (h : Index s entry m) (hkeyed : Keyed entry key) {k : κ} {t : τ} :
    entry k t ∈ s ↔ ∃ t', m k = some t' ∧ entry k t' = entry k t := by
  rw [h]
  constructor
  · rintro ⟨k', t', hk', he⟩
    obtain rfl : k' = k := hkeyed.inj he
    exact ⟨t', hk', he⟩
  · rintro ⟨t', hk, he⟩
    exact ⟨k, t', hk, he⟩

theorem Index.not_mem (h : Index s entry m) (hkeyed : Keyed entry key) {k : κ} (hk : m k = none)
    (t : τ) : entry k t ∉ s := by
  rw [h.mem_iff hkeyed]
  rintro ⟨t', hk', _⟩
  exact absurd (hk.symm.trans hk') (by simp)

theorem index_empty (entry : κ → τ → α) : Index empty entry fun _ => none := by
  intro e
  simp

omit [LinearOrder α] in
theorem update_none_eq_some [DecidableEq κ] {k k' : κ} {t : τ} :
    Function.update m k none k' = some t ↔ k' ≠ k ∧ m k' = some t := by
  by_cases hk : k' = k
  · subst hk
    simp
  · simp [hk]

theorem Index.insert [DecidableEq κ] (h : Index s entry m) {k : κ} (hk : m k = none) (t : τ) :
    Index (s.insert (entry k t)).1 entry (Function.update m k (some t)) := by
  intro e
  rw [mem_insert, h e]
  constructor
  · rintro (rfl | ⟨k', t', hk', rfl⟩)
    · exact ⟨k, t, Function.update_self _ _ _, rfl⟩
    · have hne : k' ≠ k := by
        rintro rfl
        exact absurd (hk.symm.trans hk') (by simp)
      exact ⟨k', t', by rwa [Function.update_of_ne hne], rfl⟩
  · rintro ⟨k', t', hk', rfl⟩
    by_cases hne : k' = k
    · subst hne
      rw [Function.update_self] at hk'
      exact .inl (by rw [Option.some.inj hk'])
    · rw [Function.update_of_ne hne] at hk'
      exact .inr ⟨k', t', hk', rfl⟩

theorem Index.erase [DecidableEq κ] (h : Index s entry m) (hkeyed : Keyed entry key) {k : κ} {t : τ}
    (hk : m k = some t) :
    Index (s.erase (entry k t)).1 entry (Function.update m k none) := by
  intro e
  rw [mem_erase, h e]
  constructor
  · rintro ⟨hne, k', t', hk', rfl⟩
    have hkey : k' ≠ k := by
      rintro rfl
      obtain rfl : t = t' := Option.some.inj (hk.symm.trans hk')
      exact hne rfl
    exact ⟨k', t', update_none_eq_some.mpr ⟨hkey, hk'⟩, rfl⟩
  · rintro ⟨k', t', hk', rfl⟩
    obtain ⟨hkey, hk'⟩ := update_none_eq_some.mp hk'
    exact ⟨fun he => hkey (hkeyed.inj he), k', t', hk', rfl⟩

/-- The keys that an index lists. -/
theorem Index.map_key (h : Index s entry m) (hkeyed : Keyed entry key) :
    (s.elems.map key).Nodup ∧ ∀ k, k ∈ s.elems.map key ↔ (m k).isSome := by
  constructor
  · refine s.nodup.map_on ?_
    intro e he f hf hef
    obtain ⟨k, t, hk, rfl⟩ := (h e).mp he
    obtain ⟨k', t', hk', rfl⟩ := (h f).mp hf
    rw [hkeyed, hkeyed] at hef
    subst hef
    rw [Option.some.inj (hk.symm.trans hk')]
  · intro k
    rw [List.mem_map, Option.isSome_iff_exists]
    constructor
    · rintro ⟨e, he, rfl⟩
      obtain ⟨k, t, hk, rfl⟩ := (h e).mp he
      exact ⟨t, by rwa [hkeyed]⟩
    · rintro ⟨t, hk⟩
      exact ⟨entry k t, h.mem hk, hkeyed k t⟩

/-- Two indexes of one map have the same size. -/
theorem Index.size_eq {β : Type} [LinearOrder β] {s' : SortedSet β} {entry' : κ → τ → β}
    {key' : β → κ} (h : Index s entry m) (h' : Index s' entry' m) (hkeyed : Keyed entry key)
    (hkeyed' : Keyed entry' key') : s.size = s'.size := by
  obtain ⟨hnodup, hmem⟩ := h.map_key hkeyed
  obtain ⟨hnodup', hmem'⟩ := h'.map_key hkeyed'
  have hperm : (s.elems.map key).Perm (s'.elems.map key') :=
    (List.perm_ext_iff_of_nodup hnodup hnodup').mpr fun k => (hmem k).trans (hmem' k).symm
  have hlen := hperm.length_eq
  rwa [List.length_map, List.length_map] at hlen

end Index

end SortedSet

end Muduo.Foundation
