/-
  Base/AsyncLines.lean --- the lines of `AsyncLogging`: none is lost while it runs, and
  what `stop()` does to the last ones.

  What every step of `LogFlow` preserves holds of the logger (`run_flow`).  The division of
  the lines among the buffers gives the order of the lines in the file.  `stop()` only
  clears `running_`: whether the back end comes back for the lines that the front end still
  has depends on where it is at that moment.
-/
import Muduo.Base.AsyncBuffers

set_option autoImplicit false

namespace Muduo.Base.AsyncLogging

open Muduo.Foundation

variable {s s' : AsyncLogging}

/-! ## From the flow to the logger -/

theorem legal_view (h : Inv s) {action : Action} (hlegal : s.Legal action) :
    s.view.Legal action := by
  cases action with
  | append logline fresh => trivial
  | stop => trivial
  | prepare buffer1 buffer2 => exact hlegal.1
  | write =>
      have hmore : s.more = true := hlegal
      cases hpc : s.pc with
      | writing i =>
          refine ⟨i, hpc, ?_⟩
          rw [h.length_taken]
          simpa [more, hpc] using hmore
      | _ => simp [more, hpc] at hmore
  | recycle =>
      have hthrough : s.through = true := hlegal
      cases hpc : s.pc with
      | writing i =>
          refine ⟨i, hpc, ?_⟩
          rw [h.length_taken]
          simpa [through, hpc] using hthrough
      | _ => simp [through, hpc] at hthrough
  | _ => exact hlegal

/-- What the steps of `LogFlow` preserve holds of the logger, whatever the threads do. -/
theorem run_flow (Holds : List Action → LogFlow → Prop)
    (hstep : ∀ done t a, Holds done t → t.Legal a → Holds (done ++ [a]) (t.step a))
    {done : List Action} (h : Inv s) (hs : Holds done s.view) {actions : List Action}
    (hlegal : machine.LegalRun s actions) :
    ∃ s', machine.run s actions = .ok s' ∧ Inv s' ∧ Holds (done ++ actions) s'.view := by
  refine machine.run_of_step (fun done s => Inv s ∧ Holds done s.view) ?_ ⟨h, hs⟩ hlegal
  rintro done s a ⟨hinv, hholds⟩ ha
  obtain ⟨s', hs', hinv', hview⟩ := step_follows hinv ha
  refine ⟨s', hs', hinv', ?_⟩
  rw [hview]
  exact hstep done s.view a hholds (legal_view hinv ha)

/-! ## Lines stay whole and in order -/

/-- What the flow knows of the lines. -/
structure Lines (done : List Action) (t : LogFlow) : Prop where
  appended : t.appended = done.filterMap LogFlow.line?
  found : ∀ d ∈ t.discarded, 25 < d.1
  divides : ∃ past taken full current, t.Divides past taken full current

theorem lines_step {done : List Action} {t : LogFlow} {a : Action} (h : Lines done t)
    (hlegal : t.Legal a) : Lines (done ++ [a]) (t.step a) := by
  obtain ⟨past, taken, full, current, d⟩ := h.divides
  obtain ⟨past', taken', full', current', d', -⟩ := d.step hlegal
  refine ⟨?_, LogFlow.found_step h.found a, past', taken', full', current', d'⟩
  rw [LogFlow.appended_step, h.appended, List.filterMap_append]
  cases hline : LogFlow.line? a with
  | none => simp [List.filterMap_cons_none hline]
  | some logline => simp [List.filterMap_cons_some hline]

theorem lines_new (current next : Nat) : Lines [] (new current next).view := by
  refine ⟨rfl, by simp [view, new], [], [], [], [], rfl, rfl, rfl, rfl, rfl, ?_⟩
  simp [view, new, bytes, contents, FixedBuffer.new]

theorem lines_run {current next : Nat} (hne : current ≠ next) {actions : List Action}
    (hlegal : machine.LegalRun (new current next) actions) :
    ∃ s, machine.run (new current next) actions = .ok s ∧ Inv s ∧ Lines actions s.view :=
  run_flow Lines (fun _ _ _ h ha => lines_step h ha) (inv_new hne) (lines_new current next) hlegal

/-- The buffers that the back end still has to write. -/
def unwritten (s : AsyncLogging) : List Nat :=
  match s.pc with
  | .swapped => s.buffersToWrite
  | .writing i => s.buffersToWrite.drop i
  | _ => []

/-- What was handed to the log file, and what is in the buffers behind it. -/
def pipeline (s : AsyncLogging) : List (List UInt8) :=
  s.output.filterMap LogEntry.data? ++ s.bytes s.unwritten ++ s.bytes s.buffers_ ++
    s.bytes s.currentBuffer_.toList

theorem settled_append_undecided (h : Inv s) :
    s.view.settled ++ s.view.undecided =
      s.output.filterMap LogEntry.data? ++ s.bytes s.unwritten := by
  have hlive := h.live_buffersToWrite
  cases hpc : s.pc with
  | writing i =>
      simp [LogFlow.settled, LogFlow.undecided, view, unwritten, hpc, bytes_drop hlive]
  | swapped => simp [LogFlow.settled, LogFlow.undecided, view, unwritten, hpc]
  | _ => simp [LogFlow.settled, LogFlow.undecided, view, unwritten, hpc, bytes]

/-- The whole division, as one list of buffers. -/
theorem exists_batches (h : Inv s) {past : List Batch} {taken full : List (List (List UInt8))}
    {current : List (List UInt8)} (d : s.view.Divides past taken full current) :
    ∃ batches : List Batch,
      batches.flatMap Batch.lines = s.appended ∧
      batches.filterMap Batch.kept? = s.pipeline ∧
      batches.filterMap Batch.dropped? = s.discarded := by
  obtain ⟨a, b, ha, hb⟩ := h.exists_current
  have hcurrent : s.bytes s.currentBuffer_.toList = [s.view.current] := by
    rw [view_current_of ha hb, ha]
    exact bytes_of hb
  refine ⟨past ++ (taken ++ full ++ [current]).map Batch.kept, ?_, ?_, ?_⟩
  · rw [List.flatMap_append, Batch.flatMap_lines_kept]
    show _ = s.view.appended
    simpa using d.lines
  · rw [List.filterMap_append, Batch.filterMap_kept_kept, d.kept, pipeline, hcurrent,
      ← settled_append_undecided h, ← d.undecided]
    simp only [List.map_append, d.filled, List.map_cons, List.map_nil, d.filling, view,
      List.append_assoc]
  · rw [List.filterMap_append, Batch.filterMap_dropped_kept, d.dropped, List.append_nil]
    rfl

/-- No cycle finds more than 25 buffers. -/
def FewBuffers (s : AsyncLogging) (action : Action) : Prop :=
  action = .dropExcess → s.buffersToWrite.length ≤ 25

/-- Such a run drops nothing. -/
theorem discarded_eq_nil (h : Inv s) (hnone : s.discarded = []) {actions : List Action}
    (hlegal : (machine.restrict FewBuffers).LegalRun s actions)
    (hrun : machine.run s actions = .ok s') : s'.discarded = [] := by
  rw [← Machine.run_restrict FewBuffers] at hrun
  refine ((machine.restrict FewBuffers).run_ok_invariant (fun s => Inv s ∧ s.discarded = [])
    ?_ ⟨h, hnone⟩ hlegal hrun).2
  rintro s a s' ⟨hinv, hnone⟩ ⟨ha, hfew⟩ hs'
  obtain ⟨s₁, hs₁, hinv₁, hview⟩ := step_follows hinv ha
  obtain rfl : s₁ = s' := Except.ok.inj (hs₁.symm.trans hs')
  refine ⟨hinv₁, ?_⟩
  have hdiscarded := congrArg LogFlow.discarded hview
  rw [LogFlow.discarded_step fun heq => by rw [hinv.length_taken]; exact not_lt.mpr (hfew heq)]
    at hdiscarded
  exact hdiscarded.trans hnone

theorem flatten_kept_of_dropped_eq_nil {batches : List Batch}
    (h : batches.filterMap Batch.dropped? = []) :
    (batches.filterMap Batch.kept?).flatten = (batches.flatMap Batch.lines).flatten := by
  induction batches with
  | nil => rfl
  | cons batch batches ih =>
      cases batch with
      | kept lines =>
          rw [List.filterMap_cons_none rfl] at h
          simp [Batch.kept?, Batch.lines, ih h]
      | dropped found lines => simp [Batch.dropped?] at h

/-- In every run of the threads the log file, the buffers that the back end has not written
yet, `buffers_` and `currentBuffer_` have, one after the other, the lines that were
appended, each buffer whole lines; only whole buffers are missing, each dropped in a cycle
that found more than 25.  When no cycle does, nothing is missing. -/
theorem lines_whole_and_in_order (current next : Nat) (hne : current ≠ next)
    (actions : List Action) (hlegal : machine.LegalRun (new current next) actions) :
    ∃ s, machine.run (new current next) actions = .ok s ∧
      (∃ batches : List Batch,
        batches.flatMap Batch.lines = actions.filterMap LogFlow.line? ∧
        batches.filterMap Batch.kept? = s.pipeline ∧
        batches.filterMap Batch.dropped? = s.discarded ∧
        ∀ d ∈ s.discarded, 25 < d.1) ∧
      ((machine.restrict FewBuffers).LegalRun (new current next) actions →
        s.pipeline.flatten = (actions.filterMap LogFlow.line?).flatten) := by
  obtain ⟨s, hrun, hinv, happended, hfound, past, taken, full, cur, d⟩ := lines_run hne hlegal
  obtain ⟨batches, hlines, hkept, hdropped⟩ := exists_batches hinv d
  have hlines : batches.flatMap Batch.lines = actions.filterMap LogFlow.line? :=
    hlines.trans happended
  refine ⟨s, hrun, ⟨batches, hlines, hkept, hdropped, hfound⟩, fun hfew => ?_⟩
  rw [discarded_eq_nil (inv_new hne) rfl hfew hrun] at hdropped
  rw [← hkept, flatten_kept_of_dropped_eq_nil hdropped, hlines]

instance (s : AsyncLogging) (a : Action) : Decidable ((machine.restrict FewBuffers).legal s a) :=
  inferInstanceAs (Decidable (Legal s a ∧ (a = .dropExcess → s.buffersToWrite.length ≤ 25)))

theorem lines_whole_and_in_order_oneCycle :
    machine.LegalRun (new 0 1) oneCycle ∧
      ∃ s, machine.run (new 0 1) oneCycle = .ok s ∧ s.pipeline.flatten = [104, 105, 33, 10] := by
  have hlegal : machine.LegalRun (new 0 1) oneCycle := by decide +kernel
  have hfew : (machine.restrict FewBuffers).LegalRun (new 0 1) oneCycle := by decide +kernel
  obtain ⟨s, hrun, -, hpipeline⟩ := lines_whole_and_in_order 0 1 (by decide) oneCycle hlegal
  exact ⟨hlegal, s, hrun, hpipeline hfew⟩

end Muduo.Base.AsyncLogging
