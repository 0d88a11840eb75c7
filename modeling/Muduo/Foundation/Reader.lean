/-
  Foundation/Reader.lean --- readers of a sequence: each takes something off its front.

  `cut` reads up to the first occurrence of a separator, `collect` reads items up to one
  that ends them, `many` reads items until nothing is left.  Each has two rules: what was
  written item by item is read back (`many_flatMap`, `collect_flatMap`), and what is read is
  not longer than the input (`length_of_many`, `length_of_collect`).  Nothing here names the
  program that is modelled.
-/
import Mathlib.Algebra.GroupWithZero.Nat
import Muduo.Foundation.Bytes

set_option autoImplicit false

namespace Muduo.Foundation

/-- What was read, and the rest. -/
abbrev Reader (α β : Type) : Type := List α → Option (β × List α)

section Cut

variable {α : Type} [DecidableEq α]

/-- Read up to the first occurrence of a separator, and the separator. -/
def cut (separator : List α) : Reader α (List α) := fun xs =>
  (search separator xs).map fun i => (xs.take i, xs.drop (i + separator.length))

theorem search_of_not_mem {c : α} {cs xs : List α} (h : c ∉ xs) (rest : List α) :
    search (c :: cs) (xs ++ (c :: cs ++ rest)) = some xs.length := by
  induction xs with
  | nil =>
      have hfront : c :: cs <+: c :: (cs ++ rest) := List.prefix_append (c :: cs) rest
      simp only [List.nil_append, List.cons_append, search, if_pos hfront, List.length_nil]
  | cons x xs ih =>
      have hne : ¬ c :: cs <+: x :: (xs ++ (c :: cs ++ rest)) := by
        intro hpre
        exact h (List.mem_cons.mpr (.inl (List.cons_prefix_cons.mp hpre).1))
      have htail := ih fun hmem => h (List.mem_cons_of_mem x hmem)
      simp only [List.cons_append] at htail hne ⊢
      simp only [search, if_neg hne, htail, Option.map_some, List.length_cons]

theorem cut_append {c : α} {cs xs : List α} (h : c ∉ xs) (rest : List α) :
    cut (c :: cs) (xs ++ (c :: cs ++ rest)) = some (xs, rest) := by
  rw [cut, search_of_not_mem h, Option.map_some, List.take_left, ← List.drop_drop, List.drop_left,
    List.drop_left]

theorem length_of_cut {separator xs ys rest : List α} (h : cut separator xs = some (ys, rest)) :
    ys.length + separator.length + rest.length = xs.length := by
  rw [cut, Option.map_eq_some_iff] at h
  obtain ⟨i, hsearch, h⟩ := h
  obtain ⟨rfl, rfl⟩ := Prod.mk.inj h
  have hle := search_add_length_le hsearch
  rw [List.length_take, List.length_drop]
  omega

end Cut

variable {α β γ : Type}

/-- Read items up to one that `stop` accepts, which is read as well. -/
def collect (p : Reader α β) (stop : β → Bool) : Nat → Reader α (List β)
  | 0, _ => none
  | fuel + 1, xs =>
      match p xs with
      | none => none
      | some (b, rest) =>
          if stop b then some ([], rest)
          else (collect p stop fuel rest).map fun r => (b :: r.1, r.2)

/-- Read items until nothing is left. -/
def many (p : Reader α β) : Nat → List α → Option (List β)
  | _, [] => some []
  | 0, _ :: _ => none
  | fuel + 1, x :: xs =>
      match p (x :: xs) with
      | none => none
      | some (b, rest) => (many p fuel rest).map fun bs => b :: bs

section Rules

variable {p : Reader α β}

/-- Items that take up room are not more than what they take up. -/
theorem length_le_flatMap {write : γ → List α} {cs : List γ} (hne : ∀ c ∈ cs, write c ≠ []) :
    cs.length ≤ (cs.flatMap write).length := by
  induction cs with
  | nil => exact Nat.zero_le _
  | cons c cs ih =>
      have hpos : 0 < (write c).length := List.length_pos_iff.mpr (hne c List.mem_cons_self)
      have hrest := ih fun c' hc' => hne c' (List.mem_cons_of_mem _ hc')
      rw [List.length_cons, List.flatMap_cons, List.length_append]
      omega

theorem collect_flatMap {stop : β → Bool} {write : β → List α} {bs : List β} {last : β}
    (hread : ∀ b ∈ last :: bs, ∀ rest, p (write b ++ rest) = some (b, rest))
    (hgo : ∀ b ∈ bs, stop b = false) (hlast : stop last = true) {fuel : Nat}
    (hfuel : bs.length < fuel) (rest : List α) :
    collect p stop fuel (bs.flatMap write ++ (write last ++ rest)) = some (bs, rest) := by
  induction bs generalizing fuel with
  | nil =>
      obtain ⟨n, rfl⟩ := Nat.exists_eq_add_of_lt hfuel
      have hp := hread last List.mem_cons_self rest
      simp only [List.flatMap_nil, List.nil_append, collect, hp, if_pos hlast]
  | cons b bs ih =>
      obtain ⟨n, rfl⟩ : ∃ n, fuel = n + 1 := ⟨fuel - 1, by omega⟩
      have hp := hread b (List.mem_cons_of_mem _ List.mem_cons_self)
        (bs.flatMap write ++ (write last ++ rest))
      have hstop := hgo b List.mem_cons_self
      have hrest := @ih (fun b' hb' => hread b' (by
          rcases List.mem_cons.mp hb' with rfl | hb'
          · exact List.mem_cons_self
          · exact List.mem_cons_of_mem _ (List.mem_cons_of_mem _ hb')))
        (fun b' hb' => hgo b' (List.mem_cons_of_mem _ hb')) n
        (by rw [List.length_cons] at hfuel; omega)
      rw [List.flatMap_cons, List.append_assoc, collect, hp]
      simp only [hstop, Bool.false_eq_true, if_false, hrest, Option.map_some]

theorem length_of_collect {stop : β → Bool} {size : β → Nat}
    (hsize : ∀ xs b rest, p xs = some (b, rest) → size b + rest.length ≤ xs.length) {fuel : Nat}
    {xs rest : List α} {bs : List β} (h : collect p stop fuel xs = some (bs, rest)) :
    ∃ last, (bs.map size).sum + size last + rest.length ≤ xs.length := by
  induction fuel generalizing xs bs with
  | zero => simp [collect] at h
  | succ n ih =>
      rw [collect] at h
      cases hp : p xs with
      | none => simp [hp] at h
      | some r =>
          obtain ⟨b, rest'⟩ := r
          have hb := hsize xs b rest' hp
          simp only [hp] at h
          by_cases hstop : stop b = true
          · rw [if_pos hstop] at h
            obtain ⟨rfl, rfl⟩ := Prod.mk.inj (Option.some.inj h)
            exact ⟨b, by simpa using hb⟩
          · rw [if_neg hstop, Option.map_eq_some_iff] at h
            obtain ⟨⟨bs', rest''⟩, hrest, h⟩ := h
            obtain ⟨rfl, rfl⟩ := Prod.mk.inj h
            obtain ⟨last, hlast⟩ := ih hrest
            simp only at hlast ⊢
            refine ⟨last, ?_⟩
            rw [List.map_cons, List.sum_cons]
            omega

theorem many_flatMap {write : γ → List α} {view : γ → β} {cs : List γ}
    (hread : ∀ c ∈ cs, ∀ rest, p (write c ++ rest) = some (view c, rest))
    (hne : ∀ c ∈ cs, write c ≠ []) {fuel : Nat} (hfuel : cs.length ≤ fuel) :
    many p fuel (cs.flatMap write) = some (cs.map view) := by
  induction cs generalizing fuel with
  | nil => cases fuel <;> rfl
  | cons c cs ih =>
      obtain ⟨n, rfl⟩ : ∃ n, fuel = n + 1 := ⟨fuel - 1, by rw [List.length_cons] at hfuel; omega⟩
      have hrest := @ih (fun c' hc' => hread c' (List.mem_cons_of_mem _ hc'))
        (fun c' hc' => hne c' (List.mem_cons_of_mem _ hc')) n
        (by rw [List.length_cons] at hfuel; omega)
      have hp := hread c List.mem_cons_self (cs.flatMap write)
      rw [List.flatMap_cons]
      rcases hfront : write c with _ | ⟨x, xs⟩
      · exact absurd hfront (hne c List.mem_cons_self)
      · rw [hfront, List.cons_append] at hp
        simp only [List.cons_append, many, hp, hrest, Option.map_some, List.map_cons]

theorem length_of_many {size : β → Nat}
    (hsize : ∀ xs b rest, p xs = some (b, rest) → size b + rest.length ≤ xs.length) {fuel : Nat}
    {xs : List α} {bs : List β} (h : many p fuel xs = some bs) : (bs.map size).sum ≤ xs.length := by
  induction fuel generalizing xs bs with
  | zero =>
      cases xs with
      | nil =>
          obtain rfl : [] = bs := Option.some.inj h
          simp
      | cons x xs => simp [many] at h
  | succ n ih =>
      cases xs with
      | nil =>
          obtain rfl : [] = bs := Option.some.inj h
          simp
      | cons x xs =>
          rw [many] at h
          cases hp : p (x :: xs) with
          | none => simp [hp] at h
          | some r =>
              obtain ⟨b, rest⟩ := r
              have hb := hsize (x :: xs) b rest hp
              simp only [hp, Option.map_eq_some_iff] at h
              obtain ⟨bs', hrest, rfl⟩ := h
              have hbs := ih hrest
              rw [List.map_cons, List.sum_cons]
              omega

end Rules

end Muduo.Foundation
