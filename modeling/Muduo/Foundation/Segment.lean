/-
  Foundation/Segment.lean --- decoders that are fed a stream piece by piece.

  A decoder looks at the elements that have arrived and either waits for more, or
  consumes some of them and goes on, or consumes some of them and stops.  Its
  verdicts must be stable: what it decides on some elements it also decides when
  more elements follow.  That is all that segmentation independence needs:
  `drains_of_feeds` says that feeding a stream in any pieces ends where feeding it
  whole ends.

  `run_of_drains` connects a decoder to a `while` loop over a buffer.  Nothing
  here names the program that is modelled.
-/
import Muduo.Foundation.Exec

set_option autoImplicit false

namespace Muduo.Foundation

/-- What a decoder in some state does with the elements that have arrived. -/
inductive Verdict (σ : Type) where
  | wait
  | next (s : σ) (consumed : Nat)
  | stop (s : σ) (consumed : Nat)

/-- An incremental decoder.  The laws say that a verdict never changes when more
elements arrive, that a decoder consumes only what is there, and that it never
goes on without consuming something. -/
structure Decoder (σ α : Type) where
  step : σ → List α → Verdict σ
  stable : ∀ (s : σ) (xs ys : List α), step s xs ≠ .wait → step s (xs ++ ys) = step s xs
  next_consumes : ∀ (s : σ) (xs : List α) (s' : σ) (n : Nat),
    step s xs = .next s' n → 0 < n ∧ n ≤ xs.length
  stop_consumes : ∀ (s : σ) (xs : List α) (s' : σ) (n : Nat),
    step s xs = .stop s' n → n ≤ xs.length

/-- Where a decoder has come to: its state, what it has not consumed, and whether
it has stopped or waits for more. -/
structure Progress (σ α : Type) where
  state : σ
  rest : List α
  stopped : Bool

namespace Decoder

variable {σ α : Type} {D : Decoder σ α}

/-- Take steps until the decoder waits or stops. -/
inductive Drains (D : Decoder σ α) : σ → List α → Progress σ α → Prop where
  | wait {s : σ} {xs : List α} (h : D.step s xs = .wait) : Drains D s xs ⟨s, xs, false⟩
  | next {s s' : σ} {xs : List α} {n : Nat} {p : Progress σ α}
      (h : D.step s xs = .next s' n) (hrest : Drains D s' (xs.drop n) p) : Drains D s xs p
  | stop {s s' : σ} {xs : List α} {n : Nat} (h : D.step s xs = .stop s' n) :
      Drains D s xs ⟨s', xs.drop n, true⟩

/-- Feed pieces one by one, draining after each; a stopped decoder only collects
what arrives. -/
inductive Feeds (D : Decoder σ α) : Progress σ α → List (List α) → Progress σ α → Prop where
  | nil (p : Progress σ α) : Feeds D p [] p
  | stopped {s : σ} {rest c : List α} {cs : List (List α)} {q : Progress σ α}
      (h : Feeds D ⟨s, rest ++ c, true⟩ cs q) : Feeds D ⟨s, rest, true⟩ (c :: cs) q
  | waiting {s : σ} {rest c : List α} {cs : List (List α)} {p q : Progress σ α}
      (hdrain : Drains D s (rest ++ c) p) (h : Feeds D p cs q) :
      Feeds D ⟨s, rest, false⟩ (c :: cs) q

/-! ## Draining is a function -/

theorem Drains.unique {s : σ} {xs : List α} {p q : Progress σ α} (hp : Drains D s xs p)
    (hq : Drains D s xs q) : p = q := by
  induction hp with
  | wait h =>
      cases hq with
      | wait _ => rfl
      | next h' _ => exact absurd (h.symm.trans h') (by simp)
      | stop h' => exact absurd (h.symm.trans h') (by simp)
  | next h _ ih =>
      cases hq with
      | wait h' => exact absurd (h.symm.trans h') (by simp)
      | next h' hrest' =>
          obtain ⟨rfl, rfl⟩ := Verdict.next.inj (h.symm.trans h')
          exact ih hrest'
      | stop h' => exact absurd (h.symm.trans h') (by simp)
  | stop h =>
      cases hq with
      | wait h' => exact absurd (h.symm.trans h') (by simp)
      | next h' _ => exact absurd (h.symm.trans h') (by simp)
      | stop h' =>
          obtain ⟨rfl, rfl⟩ := Verdict.stop.inj (h.symm.trans h')
          rfl

/-- Every step consumes something, so draining ends. -/
theorem exists_drains (D : Decoder σ α) (s : σ) (xs : List α) : ∃ p, Drains D s xs p := by
  induction hlen : xs.length using Nat.strong_induction_on generalizing s xs with
  | _ len ih =>
      rcases hstep : D.step s xs with _ | ⟨s', n⟩ | ⟨s', n⟩
      · exact ⟨_, .wait hstep⟩
      · obtain ⟨hpos, hle⟩ := D.next_consumes s xs s' n hstep
        have hlt : (xs.drop n).length < len := by
          rw [List.length_drop]
          omega
        obtain ⟨p, hp⟩ := ih _ hlt s' (xs.drop n) rfl
        exact ⟨p, .next hstep hp⟩
      · exact ⟨_, .stop hstep⟩

theorem exists_feeds (D : Decoder σ α) (p : Progress σ α) (cs : List (List α)) :
    ∃ q, Feeds D p cs q := by
  induction cs generalizing p with
  | nil => exact ⟨p, .nil p⟩
  | cons c cs ih =>
      obtain ⟨s, rest, stopped⟩ := p
      cases stopped with
      | true =>
          obtain ⟨q, hq⟩ := ih ⟨s, rest ++ c, true⟩
          exact ⟨q, .stopped hq⟩
      | false =>
          obtain ⟨p', hp'⟩ := exists_drains D s (rest ++ c)
          obtain ⟨q, hq⟩ := ih p'
          exact ⟨q, .waiting hp' hq⟩

/-! ## Segmentation -/

/-- More elements do not disturb the steps already taken: a stopped decoder leaves
them, a waiting one goes on with them. -/
theorem Drains.append {s : σ} {xs : List α} {p : Progress σ α} (h : Drains D s xs p)
    (ys : List α) :
    (p.stopped = true → Drains D s (xs ++ ys) ⟨p.state, p.rest ++ ys, true⟩) ∧
      (p.stopped = false → ∀ q, Drains D p.state (p.rest ++ ys) q → Drains D s (xs ++ ys) q) := by
  induction h with
  | wait h => exact ⟨fun hs => absurd hs (by simp), fun _ q hq => hq⟩
  | @next s s' xs n p h _ ih =>
      have hstep : D.step s (xs ++ ys) = .next s' n := by
        rw [D.stable s xs ys (by simp [h]), h]
      have hdrop : (xs ++ ys).drop n = xs.drop n ++ ys :=
        List.drop_append_of_le_length (D.next_consumes s xs s' n h).2
      exact ⟨fun hs => .next hstep (hdrop ▸ ih.1 hs),
        fun hs q hq => .next hstep (hdrop ▸ ih.2 hs q hq)⟩
  | @stop s s' xs n h =>
      have hstep : D.step s (xs ++ ys) = .stop s' n := by
        rw [D.stable s xs ys (by simp [h]), h]
      have hdrop : (xs ++ ys).drop n = xs.drop n ++ ys :=
        List.drop_append_of_le_length (D.stop_consumes s xs s' n h)
      exact ⟨fun _ => hdrop ▸ .stop hstep, fun hs => absurd hs (by simp)⟩

/-- A stopped decoder collects the pieces. -/
theorem feeds_stopped {s : σ} {rest : List α} {cs : List (List α)} {q : Progress σ α}
    (h : Feeds D ⟨s, rest, true⟩ cs q) : q = ⟨s, rest ++ cs.flatten, true⟩ := by
  induction cs generalizing rest with
  | nil =>
      cases h
      simp
  | cons c cs ih =>
      cases h with
      | stopped h =>
          rw [ih h, List.flatten_cons, List.append_assoc]

/-- Feeding a stream piece by piece ends where draining the whole stream ends. -/
theorem drains_of_feeds {s : σ} {xs : List α} {p q : Progress σ α} {cs : List (List α)}
    (hp : Drains D s xs p) (h : Feeds D p cs q) : Drains D s (xs ++ cs.flatten) q := by
  induction cs generalizing xs p with
  | nil =>
      cases h
      simpa using hp
  | cons c cs ih =>
      rw [List.flatten_cons, ← List.append_assoc]
      cases h with
      | @stopped _ rest _ _ _ h =>
          rw [feeds_stopped h, List.append_assoc, List.append_assoc]
          exact (hp.append (c ++ cs.flatten)).1 rfl
      | waiting hdrain h => exact ih ((hp.append c).2 rfl _ hdrain) h

/-- A decoder that stops behind `xs` does not stop while `xs` is incomplete. -/
theorem Drains.waiting_of_incomplete {s s' : σ} {xs rest ys : List α} {p : Progress σ α}
    (hfull : Drains D s (xs ++ rest) ⟨s', rest, true⟩) (hys : ys <+: xs ++ rest)
    (hlt : ys.length < xs.length) (hp : Drains D s ys p) : p.stopped = false := by
  cases hstopped : p.stopped with
  | false => rfl
  | true =>
      obtain ⟨more, hmore⟩ := hys
      -- what has stopped on `ys` leaves too much behind
      have hall := (hp.append more).1 hstopped
      rw [hmore] at hall
      have hrest := congrArg (fun p => p.rest.length) (hall.unique hfull)
      have hlength := congrArg List.length hmore
      simp only [List.length_append] at hrest hlength
      omega

/-! ## Loops that decode -/

/-- A `while` loop over a buffer that takes the steps of a decoder returns where
the decoder waits or stops, after at most one round for each element and one more.
`R` relates the loop's state to the decoder's, `Q` the loop's result to where the
decoder has come to. -/
theorem run_of_drains {τ ρ : Type} {body : τ → Exec (τ ⊕ ρ)}
    (R : τ → σ → List α → Prop) (Q : ρ → Progress σ α → Prop)
    (hwait : ∀ t s xs, R t s xs → D.step s xs = .wait →
      ∃ r, body t = .ok (.inr r) ∧ Q r ⟨s, xs, false⟩)
    (hnext : ∀ t s xs s' n, R t s xs → D.step s xs = .next s' n →
      ∃ t', body t = .ok (.inl t') ∧ R t' s' (xs.drop n))
    {s : σ} {xs : List α} {p : Progress σ α}
    (hstop : p.stopped = true → ∀ t s xs s' n, R t s xs → D.step s xs = .stop s' n →
      ∃ r, body t = .ok (.inr r) ∧ Q r ⟨s', xs.drop n, true⟩)
    (hdrain : Drains D s xs p) {t : τ} (ht : R t s xs) :
    ∃ r, Loop.run body (xs.length + 1) t = .ok r ∧ Q r p := by
  induction hdrain generalizing t with
  | wait h =>
      obtain ⟨r, hbody, hr⟩ := hwait t _ _ ht h
      exact ⟨r, Loop.run_succ_of_leave hbody _, hr⟩
  | @next s s' xs n p h _ ih =>
      obtain ⟨t', hbody, ht'⟩ := hnext t _ _ _ _ ht h
      obtain ⟨r, hrun, hr⟩ := ih hstop ht'
      obtain ⟨hpos, hle⟩ := D.next_consumes s xs s' n h
      have hfuel : (xs.drop n).length + 1 ≤ xs.length := by
        rw [List.length_drop]
        omega
      refine ⟨r, ?_, hr⟩
      rw [Loop.run_succ_of_next hbody, Loop.run_eq_of_le hfuel (by rw [hrun]; simp), hrun]
  | stop h =>
      obtain ⟨r, hbody, hr⟩ := hstop rfl t _ _ _ _ ht h
      exact ⟨r, Loop.run_succ_of_leave hbody _, hr⟩

end Decoder

end Muduo.Foundation
