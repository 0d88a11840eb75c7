/-
  Foundation/Machine.lean --- runs of a state machine.

  A machine has a step function, which may fault (an assertion of the code), and
  a legality predicate: which inputs the environment may offer in which state.
  `LegalRun` lists the inputs of a run, each legal in the state in which it is
  taken.  The one induction on runs is `run_of_step`: an invariant that may speak
  about the inputs taken so far, kept by every legal step, holds at the end of
  every legal run, and no such run faults.

  Concurrent code fits the same shape: an input is then the thread that takes the
  next step together with what that step reads from outside, and a legal run is
  an interleaving.  Nothing here names the program that is modelled.
-/
import Muduo.Foundation.Exec

set_option autoImplicit false

namespace Muduo.Foundation

/-- A state machine over states `σ` and inputs `α`. -/
structure Machine (σ α : Type) where
  /-- one step of the code -/
  step : σ → α → Exec σ
  /-- the inputs that the environment may offer -/
  legal : σ → α → Prop

namespace Machine

variable {σ α : Type}

/-- Execute the inputs in order. -/
def run (M : Machine σ α) : σ → List α → Exec σ
  | s, [] => .ok s
  | s, a :: as => M.step s a >>= fun s' => run M s' as

/-- Every input of the list is legal in the state in which it is taken; nothing
is required of the inputs that come after a fault. -/
def LegalRun (M : Machine σ α) : σ → List α → Prop
  | _, [] => True
  | s, a :: as =>
      M.legal s a ∧
        match M.step s a with
        | .ok s' => LegalRun M s' as
        | .error _ => True

/-- Legality of a concrete run can be evaluated. -/
instance decidableLegalRun (M : Machine σ α) [∀ s a, Decidable (M.legal s a)] :
    ∀ (s : σ) (as : List α), Decidable (M.LegalRun s as)
  | _, [] => isTrue trivial
  | s, a :: as =>
      have : Decidable (match M.step s a with
          | .ok s' => LegalRun M s' as
          | .error _ => True) :=
        match M.step s a with
        | .ok s' => decidableLegalRun M s' as
        | .error _ => isTrue trivial
      inferInstanceAs (Decidable (_ ∧ _))

/-- The machine whose environment also respects `cond`. -/
def restrict (M : Machine σ α) (cond : σ → α → Prop) : Machine σ α where
  step := M.step
  legal := fun s a => M.legal s a ∧ cond s a

variable {M : Machine σ α}

@[simp] theorem run_cons (s : σ) (a : α) (as : List α) :
    M.run s (a :: as) = M.step s a >>= fun s' => M.run s' as := rfl

theorem run_cons_of_step {s s' s'' : σ} {a : α} {as : List α} (hstep : M.step s a = .ok s')
    (hrun : M.run s' as = .ok s'') : M.run s (a :: as) = .ok s'' := by
  rw [run_cons, hstep, ok_bind, hrun]

theorem legalRun_cons_of_step {s s' : σ} {a : α} {as : List α} (hstep : M.step s a = .ok s') :
    M.LegalRun s (a :: as) ↔ M.legal s a ∧ M.LegalRun s' as := by
  rw [LegalRun, hstep]

theorem run_append (s : σ) (as bs : List α) :
    M.run s (as ++ bs) = M.run s as >>= fun s' => M.run s' bs := by
  induction as generalizing s with
  | nil => rfl
  | cons a as ih =>
      rw [List.cons_append, run_cons, run_cons]
      cases hstep : M.step s a with
      | error e => rfl
      | ok s' => exact ih s'

/-- A legal run can be cut anywhere. -/
theorem legalRun_append {s : σ} {as bs : List α} :
    M.LegalRun s (as ++ bs) ↔
      M.LegalRun s as ∧ ∀ s', M.run s as = .ok s' → M.LegalRun s' bs := by
  induction as generalizing s with
  | nil => simp [LegalRun, run]
  | cons a as ih =>
      rw [List.cons_append, LegalRun, LegalRun, run_cons]
      cases hstep : M.step s a with
      | error e => simp
      | ok s' => simp only [ok_bind, ih, and_assoc]

/-- A step of the restricted machine is a step of the machine. -/
theorem legalRun_restrict_cons {cond : σ → α → Prop} {s s' : σ} {a : α} {as : List α}
    (hstep : M.step s a = .ok s') :
    (M.restrict cond).LegalRun s (a :: as) ↔
      (M.legal s a ∧ cond s a) ∧ (M.restrict cond).LegalRun s' as :=
  @legalRun_cons_of_step _ _ (M.restrict cond) s s' a as hstep

@[simp] theorem run_restrict (cond : σ → α → Prop) (s : σ) (as : List α) :
    (M.restrict cond).run s as = M.run s as := by
  induction as generalizing s with
  | nil => rfl
  | cons a as ih =>
      simp only [run_cons]
      exact congrArg (M.step s a >>= ·) (funext ih)

/-- The invariant rule.  `Inv done s` relates a state to the inputs that led to
it; it must hold of the start, and every legal step must succeed and extend it. -/
theorem run_of_step (Inv : List α → σ → Prop)
    (hstep : ∀ done s a, Inv done s → M.legal s a →
      ∃ s', M.step s a = .ok s' ∧ Inv (done ++ [a]) s')
    {done : List α} {s : σ} (hs : Inv done s) {as : List α} (hlegal : M.LegalRun s as) :
    ∃ s', M.run s as = .ok s' ∧ Inv (done ++ as) s' := by
  induction as generalizing done s with
  | nil => exact ⟨s, rfl, by simpa using hs⟩
  | cons a as ih =>
      obtain ⟨ha, hrest⟩ := hlegal
      obtain ⟨s₁, hs₁, hinv₁⟩ := hstep done s a hs ha
      rw [hs₁] at hrest
      obtain ⟨s', hs', hinv'⟩ := ih hinv₁ hrest
      refine ⟨s', run_cons_of_step hs₁ hs', ?_⟩
      rwa [List.append_assoc] at hinv'

/-- `run_of_step` for an invariant of the state alone. -/
theorem run_invariant (Inv : σ → Prop)
    (hstep : ∀ s a, Inv s → M.legal s a → ∃ s', M.step s a = .ok s' ∧ Inv s')
    {s : σ} (hs : Inv s) {as : List α} (hlegal : M.LegalRun s as) :
    ∃ s', M.run s as = .ok s' ∧ Inv s' :=
  @run_of_step _ _ M (fun _ s => Inv s) (fun _ s a h ha => hstep s a h ha) [] s hs as hlegal

/-- The simulation rule.  A second machine takes every legal step of the first one, and
the relation between their states is kept: then it follows every legal run. -/
theorem run_of_simulation {τ : Type} {N : Machine τ α} (Rel : σ → τ → Prop)
    (hstep : ∀ s t a, Rel s t → M.legal s a →
      ∃ s' t', M.step s a = .ok s' ∧ N.step t a = .ok t' ∧ Rel s' t')
    {s : σ} {t : τ} (hrel : Rel s t) {as : List α} (hlegal : M.LegalRun s as) :
    ∃ s' t', M.run s as = .ok s' ∧ N.run t as = .ok t' ∧ Rel s' t' := by
  induction as generalizing s t with
  | nil => exact ⟨s, t, rfl, rfl, hrel⟩
  | cons a as ih =>
      obtain ⟨ha, hrest⟩ := hlegal
      obtain ⟨s₁, t₁, hs₁, ht₁, hrel₁⟩ := hstep s t a hrel ha
      rw [hs₁] at hrest
      obtain ⟨s', t', hs', ht', hrel'⟩ := ih hrel₁ hrest
      exact ⟨s', t', run_cons_of_step hs₁ hs', run_cons_of_step ht₁ ht', hrel'⟩

/-- The invariant rule for runs that an assertion may cut short: what every legal
step that succeeds preserves holds wherever a legal run has come to. -/
theorem run_ok_invariant (Inv : σ → Prop)
    (hstep : ∀ s a s', Inv s → M.legal s a → M.step s a = .ok s' → Inv s')
    {s s' : σ} (hs : Inv s) {as : List α} (hlegal : M.LegalRun s as)
    (hrun : M.run s as = .ok s') : Inv s' := by
  induction as generalizing s with
  | nil =>
      obtain rfl : s = s' := Except.ok.inj hrun
      exact hs
  | cons a as ih =>
      obtain ⟨ha, hrest⟩ := hlegal
      rw [run_cons, bind_eq_ok_iff] at hrun
      obtain ⟨s₁, hs₁, hrun⟩ := hrun
      rw [hs₁] at hrest
      exact ih (hstep s a s₁ hs ha hs₁) hrest hrun

/-- When only assertions fail in the states of the invariant, a legal run ends in such a state or
in a failed assertion. -/
theorem run_ok_or_assertion (Inv : σ → Prop)
    (hstep : ∀ s a s', Inv s → M.legal s a → M.step s a = .ok s' → Inv s')
    (hasserts : ∀ s a, Inv s → M.legal s a → AssertsOnly (M.step s a))
    {s : σ} (hs : Inv s) {as : List α} (hlegal : M.LegalRun s as) :
    (∃ s', M.run s as = .ok s' ∧ Inv s') ∨ M.run s as = .error .assertion := by
  induction as generalizing s with
  | nil => exact .inl ⟨s, rfl, hs⟩
  | cons a as ih =>
      obtain ⟨ha, hrest⟩ := hlegal
      rw [run_cons]
      obtain ⟨s₁, hs₁⟩ | herror := (hasserts s a hs ha).cases
      · rw [hs₁] at hrest ⊢
        exact ih (hstep s a s₁ hs ha hs₁) hrest
      · rw [herror]
        exact .inr rfl

/-- The simulation rule for runs that an assertion may cut short. -/
theorem run_ok_simulation {τ : Type} {N : Machine τ α} (Rel : σ → τ → Prop)
    (hstep : ∀ s t a s', Rel s t → M.step s a = .ok s' → ∃ t', N.step t a = .ok t' ∧ Rel s' t')
    {s s' : σ} {t : τ} (hrel : Rel s t) {as : List α} (hrun : M.run s as = .ok s') :
    ∃ t', N.run t as = .ok t' ∧ Rel s' t' := by
  induction as generalizing s t with
  | nil =>
      obtain rfl : s = s' := Except.ok.inj hrun
      exact ⟨t, rfl, hrel⟩
  | cons a as ih =>
      rw [run_cons, bind_eq_ok_iff] at hrun
      obtain ⟨s₁, hs₁, hrun⟩ := hrun
      obtain ⟨t₁, ht₁, hrel₁⟩ := hstep s t a s₁ hrel hs₁
      obtain ⟨t', ht', hrel'⟩ := ih hrel₁ hrun
      exact ⟨t', run_cons_of_step ht₁ ht', hrel'⟩

/-- When the states of `Inv` take exactly the steps that meet `cond`, a legal run faults
nowhere if and only if all its steps meet it. -/
theorem exists_run_iff_legalRun (Inv : σ → Prop) {cond : σ → α → Prop}
    (hok : ∀ s a, Inv s → M.legal s a → cond s a → ∃ s', M.step s a = .ok s' ∧ Inv s')
    (herror : ∀ s a, Inv s → M.legal s a → ¬ cond s a → ∃ e, M.step s a = .error e)
    {s : σ} (hs : Inv s) {as : List α} (hlegal : M.LegalRun s as) :
    (∃ s', M.run s as = .ok s') ↔ (M.restrict cond).LegalRun s as := by
  induction as generalizing s with
  | nil => exact ⟨fun _ => trivial, fun _ => ⟨s, rfl⟩⟩
  | cons a as ih =>
      obtain ⟨ha, hrest⟩ := hlegal
      by_cases hcond : cond s a
      · obtain ⟨s₁, hs₁, hinv⟩ := hok s a hs ha hcond
        rw [hs₁] at hrest
        have hrun : M.run s (a :: as) = M.run s₁ as := by rw [run_cons, hs₁, ok_bind]
        rw [hrun, ih hinv hrest, legalRun_restrict_cons hs₁]
        exact ⟨fun h => ⟨⟨ha, hcond⟩, h⟩, fun h => h.2⟩
      · obtain ⟨e, he⟩ := herror s a hs ha hcond
        constructor
        · rintro ⟨s', hrun⟩
          rw [run_cons, he] at hrun
          exact absurd hrun (by simp)
        · exact fun h => absurd h.1.2 hcond

/-- Where every legal step keeps the invariant or meets one fault, every legal run ends in a state
of the invariant or in that fault. -/
theorem run_or_error (Inv : σ → Prop) {e : Fault}
    (hstep : ∀ s a, Inv s → M.legal s a →
      (∃ s', M.step s a = .ok s' ∧ Inv s') ∨ M.step s a = .error e)
    {s : σ} (hs : Inv s) {as : List α} (hlegal : M.LegalRun s as) :
    (∃ s', M.run s as = .ok s' ∧ Inv s') ∨ M.run s as = .error e := by
  induction as generalizing s with
  | nil => exact .inl ⟨s, rfl, hs⟩
  | cons a as ih =>
      obtain ⟨ha, hrest⟩ := hlegal
      rcases hstep s a hs ha with ⟨s₁, hs₁, hinv⟩ | herror
      · rw [hs₁] at hrest
        rw [run_cons, hs₁, ok_bind]
        exact ih hinv hrest
      · rw [run_cons, herror]
        exact .inr rfl

/-- What a stricter environment offers is legal. -/
theorem legalRun_mono {N : Machine σ α} (hstep : N.step = M.step)
    (hlegal : ∀ s a, M.legal s a → N.legal s a) {s : σ} {as : List α} (h : M.LegalRun s as) :
    N.LegalRun s as := by
  induction as generalizing s with
  | nil => trivial
  | cons a as ih =>
      refine ⟨hlegal s a h.1, ?_⟩
      rw [hstep]
      cases hs : M.step s a with
      | error e => trivial
      | ok s' =>
          have hrest := h.2
          rw [hs] at hrest
          exact ih hrest

/-- When the environment may offer anything, every run is legal. -/
theorem legalRun_of_forall (hlegal : ∀ s a, M.legal s a) (s : σ) (as : List α) :
    M.LegalRun s as := by
  induction as generalizing s with
  | nil => trivial
  | cons a as ih =>
      refine ⟨hlegal s a, ?_⟩
      split
      · exact ih _
      · trivial

/-- Evaluate a test at the end of a concrete run. -/
def endsWith (M : Machine σ α) (s : σ) (as : List α) (p : σ → Bool) : Bool :=
  match M.run s as with
  | .ok s' => p s'
  | .error _ => false

theorem exists_of_endsWith (M : Machine σ α) (s : σ) (as : List α) (p : σ → Bool)
    (h : M.endsWith s as p = true) : ∃ s', M.run s as = .ok s' ∧ p s' = true := by
  unfold endsWith at h
  split at h
  · rename_i s' hs'
    exact ⟨s', hs', h⟩
  · exact absurd h (by simp)

end Machine

end Muduo.Foundation
