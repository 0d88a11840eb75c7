/-
  Foundation/Exec.lean --- code that can stop: failed assertions, reads outside
  the bytes a pointer may address, and loops that have not ended yet.

  WHAT THIS FILE IS FOR.  The C++ sources are full of `assert`s and `while`
  loops.  A model function that may trip an assertion returns `Exec α`; a `while`
  loop is a body `σ → Exec (σ ⊕ ρ)` (`inl`: go round again, `inr`: leave) that
  `Loop.run` executes for a bounded number of iterations.  The bound is not a
  property of the code: `Loop.Returns` and `Loop.Terminates` quantify over it,
  and a loop that has ended ends the same way with more (`Loop.run_eq_of_le`).

  Nothing here names the program that is modelled.
-/
import Mathlib.Algebra.Group.Nat.Defs
import Mathlib.Data.Nat.Basic
import Mathlib.Tactic.Common

set_option autoImplicit false

namespace Muduo.Foundation

/-! ## Faults -/

/-- Why an execution has no result. -/
inductive Fault where
  /-- an `assert` failed: the process aborts -/
  | assertion
  /-- a read outside the bytes the pointer may address -/
  | outOfBounds
  /-- the loop was still running after the given number of iterations -/
  | outOfFuel
  deriving DecidableEq, Repr, Inhabited

/-- The result of code that may stop early. -/
abbrev Exec (α : Type) : Type := Except Fault α

/-- The C `assert` macro. -/
def assertThat (p : Prop) [Decidable p] : Exec Unit :=
  if p then .ok () else .error .assertion

@[simp] theorem assertThat_of {p : Prop} [Decidable p] (h : p) :
    assertThat p = .ok () := by
  simp [assertThat, h]

theorem assertThat_of_not {p : Prop} [Decidable p] (h : ¬ p) :
    assertThat p = .error .assertion := by
  simp [assertThat, h]

theorem of_assertThat {p : Prop} [Decidable p] {u : Unit} (h : assertThat p = .ok u) : p := by
  by_contra hp
  exact absurd ((assertThat_of_not hp).symm.trans h) (by simp)

@[simp] theorem ok_bind {α β : Type} (a : α) (f : α → Exec β) :
    ((Except.ok a : Exec α) >>= f) = f a := rfl

@[simp] theorem error_bind {α β : Type} (e : Fault) (f : α → Exec β) :
    ((Except.error e : Exec α) >>= f) = .error e := rfl

/-- A composed execution succeeds exactly when both halves do. -/
theorem bind_eq_ok_iff {α β : Type} {x : Exec α} {f : α → Exec β} {b : β} :
    (x >>= f) = .ok b ↔ ∃ a, x = .ok a ∧ f a = .ok b := by
  cases x with
  | error e => simp
  | ok a => simp

/-- What comes after an assertion is executed when the assertion holds. -/
theorem assertThat_bind_eq_ok_iff {β : Type} {p : Prop} [Decidable p] {f : Unit → Exec β} {b : β} :
    (assertThat p >>= f) = .ok b ↔ p ∧ f () = .ok b := by
  by_cases hp : p
  · simp [hp]
  · rw [assertThat_of_not hp]
    simp [hp]

/-- If an execution has no result, an assertion has failed. -/
def AssertsOnly {α : Type} (x : Exec α) : Prop := ∀ e, x = .error e → e = .assertion

theorem assertsOnly_ok {α : Type} (a : α) : AssertsOnly (.ok a : Exec α) :=
  fun _ h => absurd h (by simp)

theorem assertsOnly_assertThat (p : Prop) [Decidable p] : AssertsOnly (assertThat p) := by
  intro e h
  by_cases hp : p
  · exact absurd ((assertThat_of hp).symm.trans h) (by simp)
  · exact (Except.error.inj ((assertThat_of_not hp).symm.trans h)).symm

theorem AssertsOnly.bind {α β : Type} {x : Exec α} {f : α → Exec β} (hx : AssertsOnly x)
    (hf : ∀ a, x = .ok a → AssertsOnly (f a)) : AssertsOnly (x >>= f) := by
  intro e h
  cases x with
  | error e' =>
      obtain rfl : e' = e := Except.error.inj h
      exact hx e' rfl
  | ok a => exact hf a rfl e h

/-- What comes after an assertion may rely on it. -/
theorem AssertsOnly.assertThat_bind {β : Type} {p : Prop} [Decidable p] {f : Unit → Exec β}
    (hf : p → AssertsOnly (f ())) : AssertsOnly (assertThat p >>= f) :=
  (assertsOnly_assertThat p).bind fun _ h => hf (of_assertThat h)

/-- It has a result, or an assertion has failed. -/
theorem AssertsOnly.cases {α : Type} {x : Exec α} (h : AssertsOnly x) :
    (∃ a, x = .ok a) ∨ x = .error .assertion := by
  cases x with
  | ok a => exact .inl ⟨a, rfl⟩
  | error e => exact .inr (congrArg Except.error (h e rfl))

/-- `v[i]` of a vector. -/
def readAt {α : Type} (v : List α) (i : Int) : Exec α :=
  if i < 0 then .error .outOfBounds
  else
    match v[i.toNat]? with
    | some a => .ok a
    | none => .error .outOfBounds

theorem readAt_eq_ok_iff {α : Type} {v : List α} {i : Int} {a : α} :
    readAt v i = .ok a ↔ 0 ≤ i ∧ v[i.toNat]? = some a := by
  unfold readAt
  by_cases hneg : i < 0
  · simp only [hneg, if_true]
    constructor
    · intro h
      exact absurd h (by simp)
    · rintro ⟨hpos, _⟩
      omega
  · simp only [hneg, if_false]
    cases hget : v[i.toNat]? with
    | none => simp
    | some b => simp [Int.not_lt.mp hneg]

/-- What every element of a list preserves, the whole fold preserves. -/
theorem foldlM_of_step {σ α : Type} {f : σ → α → Exec σ} (Inv : σ → Prop)
    (hstep : ∀ s a, Inv s → ∃ s', f s a = .ok s' ∧ Inv s') (as : List α) {s : σ} (hs : Inv s) :
    ∃ s', as.foldlM f s = .ok s' ∧ Inv s' := by
  induction as generalizing s with
  | nil => exact ⟨s, rfl, hs⟩
  | cons a as ih =>
      obtain ⟨s₁, hs₁, hinv₁⟩ := hstep s a hs
      obtain ⟨s', hs', hinv'⟩ := ih hinv₁
      exact ⟨s', by rw [List.foldlM_cons, hs₁, ok_bind, hs'], hinv'⟩

/-! ## Loops -/

namespace Loop

variable {σ ρ : Type}

/-- Execute at most `fuel` iterations of a `while` loop. -/
def run (body : σ → Exec (σ ⊕ ρ)) : Nat → σ → Exec ρ
  | 0, _ => .error .outOfFuel
  | fuel + 1, s =>
      match body s with
      | .error e => .error e
      | .ok (.inl s') => run body fuel s'
      | .ok (.inr r) => .ok r

/-- The loop leaves with result `r`. -/
def Returns (body : σ → Exec (σ ⊕ ρ)) (s : σ) (r : ρ) : Prop :=
  ∃ fuel, run body fuel s = .ok r

/-- The loop ends, by leaving or by a fault of its body, after finitely many
iterations. -/
def Terminates (body : σ → Exec (σ ⊕ ρ)) (s : σ) : Prop :=
  ∃ fuel, run body fuel s ≠ .error .outOfFuel

variable {body : σ → Exec (σ ⊕ ρ)}

theorem run_succ_of_next {s s' : σ} (h : body s = .ok (.inl s')) (fuel : Nat) :
    run body (fuel + 1) s = run body fuel s' := by
  simp [run, h]

theorem run_succ_of_leave {s : σ} {r : ρ} (h : body s = .ok (.inr r)) (fuel : Nat) :
    run body (fuel + 1) s = .ok r := by
  simp [run, h]

theorem run_succ_of_error {s : σ} {e : Fault} (h : body s = .error e) (fuel : Nat) :
    run body (fuel + 1) s = .error e := by
  simp [run, h]

/-- More fuel does not change the result of a loop that has ended. -/
theorem run_mono {fuel : Nat} {s : σ} (h : run body fuel s ≠ .error .outOfFuel)
    (extra : Nat) : run body (fuel + extra) s = run body fuel s := by
  induction fuel generalizing s with
  | zero => exact absurd rfl h
  | succ n ih =>
      rw [Nat.succ_add]
      rcases hb : body s with e | s' | r
      · rw [run_succ_of_error hb, run_succ_of_error hb]
      · rw [run_succ_of_next hb] at h ⊢
        rw [run_succ_of_next hb]
        exact ih h
      · rw [run_succ_of_leave hb, run_succ_of_leave hb]

/-- A loop that has ended with some fuel ends the same way with any larger one. -/
theorem run_eq_of_le {fuel fuel' : Nat} {s : σ} (hle : fuel ≤ fuel')
    (h : run body fuel s ≠ .error .outOfFuel) :
    run body fuel' s = run body fuel s := by
  obtain ⟨extra, rfl⟩ := Nat.exists_eq_add_of_le hle
  exact run_mono h extra

/-- What every round preserves holds of the result, wherever the loop has ended. -/
theorem run_ok_invariant (I : σ → Prop) (Q : ρ → Prop)
    (hnext : ∀ s s', I s → body s = .ok (.inl s') → I s')
    (hleave : ∀ s r, I s → body s = .ok (.inr r) → Q r) {fuel : Nat} {s : σ} {r : ρ} (hs : I s)
    (h : run body fuel s = .ok r) : Q r := by
  induction fuel generalizing s with
  | zero => exact absurd h (by simp [run])
  | succ n ih =>
      rcases hb : body s with e | s' | r'
      · rw [run_succ_of_error hb] at h
        exact absurd h (by simp)
      · rw [run_succ_of_next hb] at h
        exact ih (hnext s s' hs hb) h
      · rw [run_succ_of_leave hb] at h
        obtain rfl : r' = r := Except.ok.inj h
        exact hleave s r' hs hb

/-- One round of a loop neither creates nor destroys termination. -/
theorem terminates_iff_of_next {s s' : σ} (h : body s = .ok (.inl s')) :
    Terminates body s ↔ Terminates body s' := by
  constructor
  · rintro ⟨fuel, hfuel⟩
    cases fuel with
    | zero => exact absurd rfl hfuel
    | succ n => exact ⟨n, by rwa [run_succ_of_next h] at hfuel⟩
  · rintro ⟨fuel, hfuel⟩
    exact ⟨fuel + 1, by rwa [run_succ_of_next h]⟩

/-- A loop whose body can only go round again from the states of `I`, and stays
in `I` doing so, never ends. -/
theorem not_terminates_of_invariant (I : σ → Prop)
    (hstep : ∀ s, I s → ∃ s', body s = .ok (.inl s') ∧ I s') {s : σ} (hs : I s) :
    ¬ Terminates body s := by
  rintro ⟨fuel, hfuel⟩
  apply hfuel
  clear hfuel
  induction fuel generalizing s with
  | zero => rfl
  | succ n ih =>
      obtain ⟨s', hb, hs'⟩ := hstep s hs
      rw [run_succ_of_next hb]
      exact ih hs'

/-- The state after at most `n` iterations of a loop that leaves with its state,
whether it has ended or not. -/
def rounds (body : σ → Exec (σ ⊕ σ)) : Nat → σ → Exec σ
  | 0, s => .ok s
  | n + 1, s =>
      match body s with
      | .error e => .error e
      | .ok (.inl s') => rounds body n s'
      | .ok (.inr s') => .ok s'

theorem rounds_succ_of_next {body : σ → Exec (σ ⊕ σ)} {s s' : σ} (h : body s = .ok (.inl s'))
    (n : Nat) : rounds body (n + 1) s = rounds body n s' := by
  simp [rounds, h]

theorem rounds_succ_of_leave {body : σ → Exec (σ ⊕ σ)} {s s' : σ} (h : body s = .ok (.inr s'))
    (n : Nat) : rounds body (n + 1) s = .ok s' := by
  simp [rounds, h]

/-- A loop that has ended left with the state after its last round. -/
theorem rounds_of_run {body : σ → Exec (σ ⊕ σ)} {n : Nat} {s s' : σ} (h : run body n s = .ok s') :
    rounds body n s = .ok s' := by
  induction n generalizing s with
  | zero => exact absurd h (by simp [run])
  | succ n ih =>
      rcases hb : body s with e | s₁ | r
      · rw [run_succ_of_error hb] at h
        exact absurd h (by simp)
      · rw [run_succ_of_next hb] at h
        rw [rounds_succ_of_next hb]
        exact ih h
      · rw [run_succ_of_leave hb] at h
        rw [rounds_succ_of_leave hb]
        exact h

end Loop

end Muduo.Foundation
