/-
  Base/AsyncStop.lean --- the last lines of an `AsyncLogging` that is stopped.

  `stop()` clears `running_`, wakes the back end and joins it.  A back end that is between
  the test of `running_` and the swap then takes what the front end has, writes it and
  ends.  A back end that is writing finishes its cycle and ends at the next test, and what
  was appended during that cycle stays in the buffers.
-/
import Muduo.Base.AsyncLines

set_option autoImplicit false

namespace Muduo.Base

open Muduo.Foundation

/-- Every byte of the lines is in the file or was dropped. -/
theorem Batch.length_lines (batches : List Batch) :
    (batches.flatMap lines).flatten.length =
      (batches.filterMap kept?).flatten.length +
        ((batches.filterMap dropped?).map Prod.snd).flatten.length := by
  induction batches with
  | nil => rfl
  | cons batch batches ih =>
      cases batch with
      | kept lines =>
          simp only [List.flatMap_cons, Batch.lines, filterMap_kept_cons_kept,
            filterMap_dropped_cons_kept, List.flatten_append, List.flatten_cons,
            List.length_append, ih]
          omega
      | dropped found lines =>
          simp only [List.flatMap_cons, Batch.lines, filterMap_kept_cons_dropped,
            filterMap_dropped_cons_dropped, List.map_cons, List.flatten_append, List.flatten_cons,
            List.length_append, ih]
          omega

namespace LogFlow

variable {t : LogFlow} {action : AsyncLogging.Action}

/-! ## The back end comes back for the lines -/

/-- The lines were given away, or will be at the next swap. -/
def Covered (lines : List (List UInt8)) (t : LogFlow) : Prop :=
  ∃ past taken full current, t.Divides past taken full current ∧
    (t.AtLock ∧ lines <+: t.appended ∨ lines <+: handed past taken)

theorem covered_step {lines : List (List UInt8)} (h : Covered lines t) (hlegal : t.Legal action) :
    Covered lines (t.step action) := by
  obtain ⟨past, taken, full, current, d, hlines⟩ := h
  obtain ⟨past', taken', full', current', d', hhanded⟩ := d.step hlegal
  refine ⟨past', taken', full', current', d', ?_⟩
  have hprefix : handed past taken <+: t.appended := by
    rw [← d.lines, handed, List.append_assoc]
    exact List.prefix_append _ _
  rcases hlines with ⟨hlock, hlines⟩ | hlines
  · rcases hhanded with ⟨-, hstays⟩ | ⟨-, hall⟩
    · refine .inl ⟨hstays hlock, ?_⟩
      rw [appended_step]
      exact hlines.trans (List.prefix_append _ _)
    · exact .inr (hall ▸ hlines)
  · rcases hhanded with ⟨hsame, -⟩ | ⟨-, hall⟩
    · exact .inr (hsame ▸ hlines)
    · exact .inr (hall ▸ hlines.trans hprefix)

/-! ## The back end does not come back -/

/-- The back end will end without another swap. -/
structure Leaving (t : LogFlow) : Prop where
  running : t.running = false
  lock : ¬ t.AtLock
  started : t.pc ≠ .constructed

theorem leaving_step (h : Leaving t) (hlegal : t.Legal action) : Leaving (t.step action) := by
  cases action with
  | append logline fresh =>
      refine ⟨?_, ?_, ?_⟩
      · simpa [step] using h.running
      · simpa [step, AtLock] using h.lock
      · simpa [step] using h.started
  | start => exact absurd hlegal h.started
  | lock => exact absurd (.inl hlegal) h.lock
  | wake => exact absurd (.inr hlegal) h.lock
  | test =>
      have hnot : ¬ t.running = true := by simp [h.running]
      simp only [step, if_neg hnot]
      exact ⟨h.running, by simp [AtLock], by simp⟩
  | dropExcess =>
      simp only [step, dropExcess]
      split
      · exact ⟨h.running, by simp [AtLock], by simp⟩
      · exact ⟨h.running, by simp [AtLock], by simp⟩
  | write =>
      obtain ⟨i, hpc, -⟩ := hlegal
      simp only [step, hpc]
      exact ⟨h.running, by simp [AtLock, write], by simp [write]⟩
  | stop => exact ⟨rfl, h.lock, h.started⟩
  | _ => exact ⟨h.running, by simp [AtLock, step], by simp [step]⟩

/-- What was given away is all that ever will be. -/
def Closed (lines : List (List UInt8)) (t : LogFlow) : Prop :=
  Leaving t ∧ ∃ past taken full current,
    t.Divides past taken full current ∧ handed past taken = lines

theorem closed_step {lines : List (List UInt8)} (h : Closed lines t) (hlegal : t.Legal action) :
    Closed lines (t.step action) := by
  obtain ⟨hleaving, past, taken, full, current, d, hlines⟩ := h
  obtain ⟨past', taken', full', current', d', hhanded⟩ := d.step hlegal
  refine ⟨leaving_step hleaving hlegal, past', taken', full', current', d', ?_⟩
  rcases hhanded with ⟨hsame, -⟩ | ⟨hlock, -⟩
  · exact hsame.trans hlines
  · exact absurd hlock hleaving.lock

/-- When the back end has ended, the log file and the dropped buffers have what was given
away. -/
theorem Divides.of_done {past : List Batch} {taken full : List (List (List UInt8))}
    {current : List (List UInt8)} (d : t.Divides past taken full current) (hpc : t.pc = .done) :
    past.filterMap Batch.kept? = t.output.filterMap LogEntry.data? ∧
      handed past taken = past.flatMap Batch.lines := by
  have hquiet : t.quiet = true := by simp [quiet, hpc]
  refine ⟨d.kept.trans (settled_of_quiet hquiet), ?_⟩
  rw [d.taken_eq_nil (undecided_of_quiet hquiet), handed, List.flatten_nil, List.append_nil]

end LogFlow

namespace AsyncLogging

variable {s : AsyncLogging}

/-! ## `stop()` -/

/-- The lines are in the log file, except for those in buffers that were dropped because
there were more than 25. -/
def HandedOver (lines : List (List UInt8)) (s : AsyncLogging) : Prop :=
  ∃ batches : List Batch,
    lines <+: batches.flatMap Batch.lines ∧
    (batches.filterMap Batch.kept?).flatten = (s.output.filterMap LogEntry.data?).flatten ∧
    batches.filterMap Batch.dropped? = s.discarded ∧
    ∀ d ∈ s.discarded, 25 < d.1

/-- What is still with the front end. -/
def front (s : AsyncLogging) : List UInt8 :=
  (s.bytes s.buffers_ ++ s.bytes s.currentBuffer_.toList).flatten

theorem front_eq : s.front = s.view.full.flatten ++ s.view.current := by
  simp [front, view]

theorem HandedOver.length_le {lines : List (List UInt8)} (h : HandedOver lines s) :
    lines.flatten.length ≤ (s.output.filterMap LogEntry.data?).flatten.length +
      (s.discarded.map Prod.snd).flatten.length := by
  obtain ⟨batches, ⟨rest, hrest⟩, hkept, hdropped, -⟩ := h
  have hlength := Batch.length_lines batches
  rw [hkept, hdropped, ← hrest, List.flatten_append, List.length_append] at hlength
  omega

theorem handedOver_of_covered {lines : List (List UInt8)} (h : LogFlow.Covered lines s.view)
    (hpc : s.pc = .done) (hfound : ∀ d ∈ s.discarded, 25 < d.1) : HandedOver lines s := by
  obtain ⟨past, taken, full, current, d, hlines⟩ := h
  obtain ⟨hkept, hhanded⟩ := d.of_done hpc
  refine ⟨past, ?_, congrArg List.flatten hkept, d.dropped, hfound⟩
  rcases hlines with ⟨hlock, -⟩ | hlines
  · rcases hlock with hlock | hlock
    · exact absurd (hpc.symm.trans hlock) (by simp)
    · exact absurd (hpc.symm.trans hlock) (by simp)
  · rwa [hhanded] at hlines

/-- Of the lines behind those that were given away nothing is in the file. -/
theorem handedOver_iff_of_closed {given rest : List (List UInt8)} (h : LogFlow.Closed given s.view)
    (hpc : s.pc = .done) (hfound : ∀ d ∈ s.discarded, 25 < d.1) :
    HandedOver (given ++ rest) s ↔ rest.flatten = [] := by
  obtain ⟨-, past, taken, full, current, d, hgiven⟩ := h
  obtain ⟨hkept, hhanded⟩ := d.of_done hpc
  have hpast : past.flatMap Batch.lines = given := hhanded.symm.trans hgiven
  have hdropped : past.filterMap Batch.dropped? = s.discarded := d.dropped
  constructor
  · intro hover
    have hle := hover.length_le
    have hlength := Batch.length_lines past
    rw [hpast, hkept, hdropped] at hlength
    rw [List.flatten_append, List.length_append, hlength] at hle
    exact List.length_eq_zero_iff.mp (Nat.le_zero.mp (Nat.le_of_add_le_add_left hle))
  · intro hrest
    refine ⟨past ++ [.kept rest], ?_, ?_, ?_, hfound⟩
    · simp [hpast, Batch.lines]
    · rw [List.filterMap_append, hkept, List.flatten_append]
      simp [hrest, view]
    · rw [List.filterMap_append, hdropped]
      exact List.append_nil _

/-- The state in which `stop()` leaves the logger to the back end. -/
theorem stop_spec (h : Inv s) (hlegal : s.Legal .stop) :
    ∃ s', s.step .stop = .ok s' ∧ Inv s' ∧ s'.view = { s.view with running := false } ∧
      s.pc ≠ .constructed := by
  obtain ⟨s', hstep, hinv, hview⟩ := stop_follows h hlegal
  refine ⟨s', hstep, hinv, hview, fun hpc => ?_⟩
  exact absurd (hlegal.1.symm.trans (h.holds_at hpc).1) (by simp)

/-- The back end comes back once more. -/
theorem run_of_atLock (h : Inv s) {before after : List Action} (hlines : Lines before s.view)
    (hlock : s.view.AtLock) (hlegal : machine.LegalRun s after) :
    ∃ s', machine.run s after = .ok s' ∧
      (s'.pc = .done → HandedOver (before.filterMap LogFlow.line?) s') := by
  obtain ⟨past, taken, full, current, d⟩ := hlines.divides
  have hcovered : LogFlow.Covered (before.filterMap LogFlow.line?) s.view := by
    rw [← hlines.appended]
    exact ⟨past, taken, full, current, d, .inl ⟨hlock, List.prefix_rfl⟩⟩
  obtain ⟨s', hrun, -, hlines', hcovered'⟩ :=
    run_flow (fun done t => Lines done t ∧ LogFlow.Covered _ t)
      (fun _ _ _ h ha => ⟨lines_step h.1 ha, LogFlow.covered_step h.2 ha⟩)
      h ⟨hlines, hcovered⟩ hlegal
  exact ⟨s', hrun, fun hpc => handedOver_of_covered hcovered' hpc hlines'.found⟩

/-- The back end does not come back for what the front end has. -/
theorem run_of_leaving (h : Inv s) {before after : List Action} (hlines : Lines before s.view)
    (hleaving : s.view.Leaving) (hlegal : machine.LegalRun s after) :
    ∃ s', machine.run s after = .ok s' ∧
      (s'.pc = .done → (HandedOver (before.filterMap LogFlow.line?) s' ↔ s.front = [])) := by
  obtain ⟨past, taken, full, current, d⟩ := hlines.divides
  have hclosed : LogFlow.Closed (LogFlow.handed past taken) s.view :=
    ⟨hleaving, past, taken, full, current, d, rfl⟩
  obtain ⟨s', hrun, -, hlines', hclosed'⟩ :=
    run_flow (fun done t => Lines done t ∧ LogFlow.Closed _ t)
      (fun _ _ _ h ha => ⟨lines_step h.1 ha, LogFlow.closed_step h.2 ha⟩)
      h ⟨hlines, hclosed⟩ hlegal
  have hsplit : before.filterMap LogFlow.line? =
      LogFlow.handed past taken ++ (full.flatten ++ current) := by
    rw [← hlines.appended, ← d.lines, LogFlow.handed, List.append_assoc _ full.flatten]
  have hfront : s.front = (full.flatten ++ current).flatten := by
    rw [front_eq, ← d.filled, ← d.filling, List.flatten_append, List.flatten_flatten]
  refine ⟨s', hrun, fun hpc => ?_⟩
  rw [hsplit, handedOver_iff_of_closed hclosed' hpc hlines'.found, hfront]

/-- When `stop()` returns, the lines that were appended before it was called are in the log
file or dropped by the rule exactly when it was called while the back end was between its
test of `running_` and the swap, or while the front end had nothing. -/
theorem stop_hands_over_iff_at_lock (current next : Nat) (hne : current ≠ next)
    (before after : List Action)
    (hlegal : machine.LegalRun (new current next) (before ++ Action.stop :: after)) :
    ∃ s₁ s₂, machine.run (new current next) before = .ok s₁ ∧
      machine.run (new current next) (before ++ Action.stop :: after) = .ok s₂ ∧
      (s₂.pc = .done →
        (HandedOver (before.filterMap LogFlow.line?) s₂ ↔
          (s₁.pc = .locking ∨ s₁.pc = .waiting) ∨ s₁.front = [])) := by
  obtain ⟨hbefore, hrest⟩ := Machine.legalRun_append.mp hlegal
  obtain ⟨s₁, hrun₁, hinv₁, hlines₁⟩ := lines_run hne hbefore
  have hlegal₁ := hrest s₁ hrun₁
  obtain ⟨s', hstop, hinv', hview', hstarted⟩ := stop_spec hinv₁ hlegal₁.1
  have hlegal' := ((Machine.legalRun_cons_of_step hstop).mp hlegal₁).2
  have hlines' : Lines before s'.view := by
    obtain ⟨past, taken, full, cur, d⟩ := hlines₁.divides
    rw [hview']
    exact ⟨hlines₁.appended, hlines₁.found, past, taken, full, cur, d.still rfl rfl rfl rfl rfl rfl⟩
  have hfront : s'.front = s₁.front := by rw [front_eq, front_eq, hview']
  have hrun : ∀ {s₂}, machine.run s' after = .ok s₂ →
      machine.run (new current next) (before ++ Action.stop :: after) = .ok s₂ := fun h => by
    rw [Machine.run_append, hrun₁, ok_bind]
    exact Machine.run_cons_of_step hstop h
  refine ⟨s₁, ?_⟩
  by_cases hlock : s₁.pc = .locking ∨ s₁.pc = .waiting
  · obtain ⟨s₂, hrun₂, hover⟩ := run_of_atLock hinv' hlines' (by rw [hview']; exact hlock) hlegal'
    exact ⟨s₂, hrun₁, hrun hrun₂, fun hpc => iff_of_true (hover hpc) (.inl hlock)⟩
  · have hleaving : s'.view.Leaving := by
      rw [hview']
      exact ⟨rfl, hlock, hstarted⟩
    obtain ⟨s₂, hrun₂, hover⟩ := run_of_leaving hinv' hlines' hleaving hlegal'
    refine ⟨s₂, hrun₁, hrun hrun₂, fun hpc => ?_⟩
    rw [hover hpc, hfront]
    exact ⟨.inr, fun h => h.resolve_left hlock⟩

/-- The back end is stopped in its wait, and comes back for the last line. -/
def stoppedInWait : List Action :=
  [.start, .begin, .prepare 2 3, .append [104, 105] 4, .test, .lock, .append [33] 4]

/-- What the back end does when it is woken up and not running any more. -/
def afterWait : List Action := [.wake, .dropExcess, .write, .recycle, .test]

theorem stop_hands_over_stoppedInWait :
    machine.LegalRun (new 0 1) (stoppedInWait ++ Action.stop :: afterWait) ∧
      ∃ s, machine.run (new 0 1) (stoppedInWait ++ Action.stop :: afterWait) = .ok s ∧
        s.pc = .done ∧ HandedOver [[104, 105], [33]] s := by
  have hlegal : machine.LegalRun (new 0 1) (stoppedInWait ++ Action.stop :: afterWait) := by
    decide +kernel
  obtain ⟨s₁, s₂, hrun₁, hrun₂, hover⟩ :=
    stop_hands_over_iff_at_lock 0 1 (by decide) stoppedInWait afterWait hlegal
  obtain ⟨t₁, ht₁, hwait⟩ := machine.exists_of_endsWith (new 0 1) stoppedInWait
    (fun s => s.pc = .waiting) (by decide +kernel)
  obtain ⟨t₂, ht₂, hdone⟩ := machine.exists_of_endsWith (new 0 1)
    (stoppedInWait ++ Action.stop :: afterWait)
    (fun s => s.pc = .done) (by decide +kernel)
  obtain rfl : t₁ = s₁ := Except.ok.inj (ht₁.symm.trans hrun₁)
  obtain rfl : t₂ = s₂ := Except.ok.inj (ht₂.symm.trans hrun₂)
  have hdone : t₂.pc = .done := by simpa using hdone
  exact ⟨hlegal, t₂, hrun₂, hdone, (hover hdone).mpr (.inl (.inr (by simpa using hwait)))⟩

/-- The line "!" is appended while the back end writes, and `stop()` comes before the end of
the cycle. -/
def stoppedInWrite : List Action :=
  [.start, .begin, .prepare 2 3, .append [104, 105] 4, .test, .lock, .wake, .dropExcess,
    .append [33] 4]

theorem last_line_lost_stoppedInWrite :
    machine.LegalRun (new 0 1) (stoppedInWrite ++ [Action.stop, .write, .recycle, .test]) ∧
      ∃ s, machine.run (new 0 1) (stoppedInWrite ++ [Action.stop, .write, .recycle, .test])
        = .ok s ∧
        s.pc = .done ∧ s.output = [.data [104, 105]] ∧
        ¬ HandedOver (stoppedInWrite.filterMap LogFlow.line?) s := by
  refine ⟨by decide +kernel, ?_⟩
  obtain ⟨s, hrun, hs⟩ := machine.exists_of_endsWith (new 0 1)
    (stoppedInWrite ++ [Action.stop, .write, .recycle, .test])
    (fun s => s.pc = .done ∧ s.output = [.data [104, 105]] ∧ s.discarded = []) (by decide +kernel)
  obtain ⟨hpc, houtput, hdiscarded⟩ : s.pc = .done ∧ s.output = [.data [104, 105]] ∧
      s.discarded = [] := by simpa using hs
  refine ⟨s, hrun, hpc, houtput, fun hover => ?_⟩
  have hle := hover.length_le
  rw [houtput, hdiscarded] at hle
  exact absurd hle (by decide)

end AsyncLogging

end Muduo.Base
