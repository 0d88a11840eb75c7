/-
  Base/LogFlow.lean --- what `AsyncLogging` does with the bytes, without the buffers.

  `LogFlow` is the state of the logger when it is forgotten which buffer holds which
  bytes: the contents of the buffers that the front end has filled (`full`) and is filling
  (`current`), and of those that the back end has taken.  `Divides` divides the lines
  that were appended among these places and the log file.
-/
import Muduo.Base.AsyncLogging

set_option autoImplicit false

namespace Muduo.Base

open Muduo.Foundation

/-- The bytes of an entry that is not a message about dropped buffers. -/
def LogEntry.data? : LogEntry → Option (List UInt8)
  | .notice _ => none
  | .data bytes => some bytes

/-- The lines that one buffer had, and what became of them. -/
inductive Batch where
  | kept (lines : List (List UInt8))
  /-- dropped in a cycle that found so many buffers -/
  | dropped (found : Nat) (lines : List (List UInt8))
  deriving DecidableEq, Repr

namespace Batch

/-- The lines of a buffer. -/
def lines : Batch → List (List UInt8)
  | .kept lines => lines
  | .dropped _ lines => lines

/-- The bytes of a buffer that was written. -/
def kept? : Batch → Option (List UInt8)
  | .kept lines => some lines.flatten
  | .dropped _ _ => none

/-- The bytes of a buffer that was dropped, with the number of buffers found. -/
def dropped? : Batch → Option (Nat × List UInt8)
  | .kept _ => none
  | .dropped found lines => some (found, lines.flatten)

section Cons

variable (found : Nat) (lines : List (List UInt8)) (batches : List Batch)

@[simp] theorem filterMap_kept_cons_kept :
    (kept lines :: batches).filterMap kept? = lines.flatten :: batches.filterMap kept? := rfl

@[simp] theorem filterMap_kept_cons_dropped :
    (dropped found lines :: batches).filterMap kept? = batches.filterMap kept? := rfl

@[simp] theorem filterMap_dropped_cons_kept :
    (kept lines :: batches).filterMap dropped? = batches.filterMap dropped? := rfl

@[simp] theorem filterMap_dropped_cons_dropped :
    (dropped found lines :: batches).filterMap dropped? =
      (found, lines.flatten) :: batches.filterMap dropped? := rfl

end Cons

section Map

variable (buffers : List (List (List UInt8))) (found : Nat)

@[simp] theorem flatMap_lines_kept : (buffers.map kept).flatMap lines = buffers.flatten := by
  induction buffers with
  | nil => rfl
  | cons buffer buffers ih => simp [lines, ih]

@[simp] theorem flatMap_lines_dropped :
    (buffers.map (dropped found)).flatMap lines = buffers.flatten := by
  induction buffers with
  | nil => rfl
  | cons buffer buffers ih => simp [lines, ih]

@[simp] theorem filterMap_kept_kept :
    (buffers.map kept).filterMap kept? = buffers.map List.flatten := by
  simp [List.filterMap_map, Function.comp_def, kept?, List.filterMap_eq_map']

@[simp] theorem filterMap_kept_dropped : (buffers.map (dropped found)).filterMap kept? = [] := by
  simp [List.filterMap_map, Function.comp_def, kept?]

@[simp] theorem filterMap_dropped_kept : (buffers.map kept).filterMap dropped? = [] := by
  simp [List.filterMap_map, Function.comp_def, dropped?]

@[simp] theorem filterMap_dropped_dropped :
    (buffers.map (dropped found)).filterMap dropped? =
      buffers.map fun lines => (found, lines.flatten) := by
  simp [List.filterMap_map, Function.comp_def, dropped?, List.filterMap_eq_map']

end Map

end Batch

/-- A logger whose buffers are their bytes. -/
@[ext] structure LogFlow where
  running : Bool
  pc : BackEnd
  full : List (List UInt8)
  current : List UInt8
  taken : List (List UInt8)
  output : List LogEntry
  appended : List (List UInt8)
  discarded : List (Nat × List UInt8)

namespace LogFlow

/-! ## The steps -/

/-- A line goes behind the other ones, in a new buffer when there is no room for it. -/
def append (t : LogFlow) (logline : List UInt8) : LogFlow :=
  if logline.length < kLargeBuffer - t.current.length then
    { t with current := t.current ++ logline, appended := t.appended ++ [logline] }
  else
    { t with
      full := t.full ++ [t.current]
      current := logline
      appended := t.appended ++ [logline] }

theorem append_of_room {t : LogFlow} {logline : List UInt8}
    (h : logline.length < kLargeBuffer - t.current.length) :
    t.append logline =
      { t with current := t.current ++ logline, appended := t.appended ++ [logline] } :=
  if_pos h

theorem append_of_full {t : LogFlow} {logline : List UInt8}
    (h : ¬ logline.length < kLargeBuffer - t.current.length) :
    t.append logline =
      { t with
        full := t.full ++ [t.current]
        current := logline
        appended := t.appended ++ [logline] } :=
  if_neg h

@[simp] theorem append_pc (t : LogFlow) (logline : List UInt8) :
    (t.append logline).pc = t.pc := by
  unfold append
  split <;> rfl

@[simp] theorem append_running (t : LogFlow) (logline : List UInt8) :
    (t.append logline).running = t.running := by
  unfold append
  split <;> rfl

/-- The back end takes everything. -/
def swap (t : LogFlow) : LogFlow :=
  { t with taken := t.full ++ [t.current], full := [], current := [], pc := .swapped }

/-- More than 25 buffers are cut to 2. -/
def dropExcess (t : LogFlow) : LogFlow :=
  if 25 < t.taken.length then
    { t with
      output := t.output ++ [.notice (t.taken.length - 2)]
      discarded := t.discarded ++ (t.taken.drop 2).map fun bytes => (t.taken.length, bytes)
      taken := t.taken.take 2
      pc := .writing 0 }
  else { t with pc := .writing 0 }

/-- A buffer is written. -/
def write (t : LogFlow) (i : Nat) : LogFlow :=
  { t with output := t.output ++ [.data (t.taken.getD i [])], pc := .writing (i + 1) }

/-- What a step of the logger does to the bytes. -/
def step (t : LogFlow) : AsyncLogging.Action → LogFlow
  | .append logline _ => t.append logline
  | .start => { t with running := true, pc := .starting }
  | .begin => { t with pc := .preparing }
  | .prepare _ _ => { t with pc := .testing }
  | .test => if t.running then { t with pc := .locking } else { t with taken := [], pc := .done }
  | .lock => if t.full = [] then { t with pc := .waiting } else t.swap
  | .wake => t.swap
  | .dropExcess => t.dropExcess
  | .write =>
      match t.pc with
      | .writing i => t.write i
      | _ => t
  | .recycle => { t with taken := [], pc := .testing }
  | .stop => { t with running := false }

/-- Where in its loop the back end takes which step. -/
def Legal (t : LogFlow) : AsyncLogging.Action → Prop
  | .append _ _ => True
  | .start => t.pc = .constructed
  | .begin => t.pc = .starting
  | .prepare _ _ => t.pc = .preparing
  | .test => t.pc = .testing
  | .lock => t.pc = .locking
  | .wake => t.pc = .waiting
  | .dropExcess => t.pc = .swapped
  | .write => ∃ i, t.pc = .writing i ∧ i < t.taken.length
  | .recycle => ∃ i, t.pc = .writing i ∧ t.taken.length ≤ i
  | .stop => True

/-- The line that is appended. -/
def line? : AsyncLogging.Action → Option (List UInt8)
  | .append logline _ => some logline
  | _ => none

theorem appended_step (t : LogFlow) (action : AsyncLogging.Action) :
    (t.step action).appended = t.appended ++ (line? action).toList := by
  cases action with
  | append logline fresh =>
      simp only [step, append]
      split <;> rfl
  | test =>
      simp only [step, line?, Option.toList_none, List.append_nil]
      split <;> rfl
  | lock =>
      simp only [step, line?, Option.toList_none, List.append_nil]
      split <;> rfl
  | dropExcess =>
      simp only [step, dropExcess, line?, Option.toList_none, List.append_nil]
      split <;> rfl
  | write =>
      simp only [step, line?, Option.toList_none, List.append_nil]
      split <;> rfl
  | _ => exact (List.append_nil _).symm

theorem discarded_step {t : LogFlow} {action : AsyncLogging.Action}
    (h : action = .dropExcess → ¬ 25 < t.taken.length) :
    (t.step action).discarded = t.discarded := by
  cases action with
  | append logline fresh =>
      simp only [step, append]
      split <;> rfl
  | dropExcess => simp only [step, dropExcess, if_neg (h rfl)]
  | test =>
      simp only [step]
      split <;> rfl
  | lock =>
      simp only [step]
      split <;> rfl
  | write =>
      simp only [step]
      split <;> rfl
  | _ => rfl

/-- Buffers are dropped only when there are more than 25. -/
theorem found_step {t : LogFlow} (h : ∀ d ∈ t.discarded, 25 < d.1) (action : AsyncLogging.Action) :
    ∀ d ∈ (t.step action).discarded, 25 < d.1 := by
  by_cases hdrop : action = .dropExcess ∧ 25 < t.taken.length
  · obtain ⟨rfl, hexcess⟩ := hdrop
    intro d hd
    simp only [step, dropExcess, if_pos hexcess, List.mem_append, List.mem_map] at hd
    rcases hd with hd | ⟨bytes, -, rfl⟩
    · exact h d hd
    · exact hexcess
  · rwa [discarded_step fun haction hexcess => hdrop ⟨haction, hexcess⟩]

/-! ## Which line is where -/

/-- The buffers that are written or will be written in this cycle. -/
def settled (t : LogFlow) : List (List UInt8) :=
  t.output.filterMap LogEntry.data? ++
    match t.pc with
    | .writing i => t.taken.drop i
    | _ => []

/-- The buffers of which the back end has not yet decided whether it drops them. -/
def undecided (t : LogFlow) : List (List UInt8) :=
  match t.pc with
  | .swapped => t.taken
  | _ => []

/-- The back end has no buffers of the front end. -/
def quiet (t : LogFlow) : Bool :=
  match t.pc with
  | .swapped => false
  | .writing _ => false
  | _ => true

/-- The back end is between the test of `running_` and the swap. -/
def AtLock (t : LogFlow) : Prop := t.pc = .locking ∨ t.pc = .waiting

theorem settled_of_quiet {t : LogFlow} (h : t.quiet = true) :
    t.settled = t.output.filterMap LogEntry.data? := by
  cases hpc : t.pc <;> simp [quiet, settled, hpc] at h ⊢

theorem undecided_of_quiet {t : LogFlow} (h : t.quiet = true) : t.undecided = [] := by
  cases hpc : t.pc <;> simp [quiet, undecided, hpc] at h ⊢

/-- The appended lines, divided: what the back end is through with, what it has taken, the
full buffers and the current one of the front end. -/
structure Divides (t : LogFlow) (past : List Batch) (taken full : List (List (List UInt8)))
    (current : List (List UInt8)) : Prop where
  lines : past.flatMap Batch.lines ++ taken.flatten ++ full.flatten ++ current = t.appended
  kept : past.filterMap Batch.kept? = t.settled
  dropped : past.filterMap Batch.dropped? = t.discarded
  undecided : taken.map List.flatten = t.undecided
  filled : full.map List.flatten = t.full
  filling : current.flatten = t.current

/-- The lines that the front end has given away. -/
def handed (past : List Batch) (taken : List (List (List UInt8))) : List (List UInt8) :=
  past.flatMap Batch.lines ++ taken.flatten

namespace Divides

variable {t t' : LogFlow} {past : List Batch} {taken full : List (List (List UInt8))}
  {current : List (List UInt8)}

/-- A step after which all lines are where they were. -/
theorem still (d : Divides t past taken full current) (hsettled : t'.settled = t.settled)
    (hundecided : t'.undecided = t.undecided) (hfull : t'.full = t.full)
    (hcurrent : t'.current = t.current) (happended : t'.appended = t.appended)
    (hdiscarded : t'.discarded = t.discarded) : Divides t' past taken full current :=
  ⟨d.lines.trans happended.symm, d.kept.trans hsettled.symm, d.dropped.trans hdiscarded.symm,
    d.undecided.trans hundecided.symm, d.filled.trans hfull.symm, d.filling.trans hcurrent.symm⟩

theorem still_of_quiet (d : Divides t past taken full current) (h : t.quiet = true)
    (h' : t'.quiet = true) (houtput : t'.output = t.output) (hfull : t'.full = t.full)
    (hcurrent : t'.current = t.current) (happended : t'.appended = t.appended)
    (hdiscarded : t'.discarded = t.discarded) : Divides t' past taken full current := by
  refine d.still ?_ ?_ hfull hcurrent happended hdiscarded
  · rw [settled_of_quiet h, settled_of_quiet h', houtput]
  · rw [undecided_of_quiet h, undecided_of_quiet h']

/-- The current buffer has room for one more line. -/
theorem room (d : Divides t past taken full current) (logline : List UInt8) :
    Divides { t with current := t.current ++ logline, appended := t.appended ++ [logline] }
      past taken full (current ++ [logline]) := by
  refine ⟨?_, d.kept, d.dropped, d.undecided, d.filled, ?_⟩
  · simp [← d.lines]
  · simp [← d.filling]

/-- The line goes to a new buffer. -/
theorem fill (d : Divides t past taken full current) (logline : List UInt8) :
    Divides { t with
      full := t.full ++ [t.current]
      current := logline
      appended := t.appended ++ [logline] }
      past taken (full ++ [current]) [logline] := by
  refine ⟨?_, d.kept, d.dropped, d.undecided, ?_, ?_⟩
  · simp [← d.lines]
  · simp [← d.filled, ← d.filling]
  · simp

theorem append (d : Divides t past taken full current) (logline : List UInt8) :
    ∃ full' current', Divides (t.append logline) past taken full' current' := by
  by_cases hroom : logline.length < kLargeBuffer - t.current.length
  · rw [append_of_room hroom]
    exact ⟨_, _, d.room logline⟩
  · rw [append_of_full hroom]
    exact ⟨_, _, d.fill logline⟩

theorem taken_eq_nil (d : Divides t past taken full current) (h : t.undecided = []) :
    taken = [] := by
  have hundecided := d.undecided
  rwa [h, List.map_eq_nil_iff] at hundecided

/-- The back end takes all buffers. -/
theorem swap (d : Divides t past taken full current) (h : t.quiet = true) :
    Divides t.swap past (full ++ [current]) [] [] ∧
      handed past (full ++ [current]) = t.appended := by
  obtain rfl := d.taken_eq_nil (undecided_of_quiet h)
  have hlines : past.flatMap Batch.lines ++ (full ++ [current]).flatten = t.appended := by
    simpa using d.lines
  refine ⟨⟨?_, ?_, d.dropped, ?_, rfl, rfl⟩, hlines⟩
  · show _ = t.appended
    simpa using hlines
  · exact d.kept.trans ((settled_of_quiet h).trans (List.append_nil _).symm)
  · simp [LogFlow.undecided, LogFlow.swap, d.filled, d.filling]

/-- Behind the lock nothing is decided. -/
theorem of_swapped (d : Divides t past taken full current) (hpc : t.pc = .swapped) :
    taken.map List.flatten = t.taken ∧
      past.filterMap Batch.kept? = t.output.filterMap LogEntry.data? := by
  refine ⟨by rw [d.undecided, LogFlow.undecided, hpc], ?_⟩
  rw [d.kept, settled, hpc, List.append_nil]

/-- The back end keeps two buffers of too many. -/
theorem drop_many (d : Divides t past taken full current) (hpc : t.pc = .swapped)
    (hexcess : 25 < t.taken.length) :
    Divides t.dropExcess
      (past ++ (taken.take 2).map Batch.kept ++ (taken.drop 2).map (Batch.dropped t.taken.length))
      [] full current := by
  obtain ⟨hundecided, hkept⟩ := d.of_swapped hpc
  have hsplit : (taken.take 2).flatten ++ (taken.drop 2).flatten = taken.flatten := by
    rw [← List.flatten_append, List.take_append_drop]
  have hfirst : (taken.take 2).map List.flatten = t.taken.take 2 := by
    rw [List.map_take, hundecided]
  have hrest : (taken.drop 2).map List.flatten = t.taken.drop 2 := by
    rw [List.map_drop, hundecided]
  rw [LogFlow.dropExcess, if_pos hexcess]
  refine ⟨?_, ?_, ?_, rfl, d.filled, d.filling⟩
  · simp only [List.flatMap_append, Batch.flatMap_lines_kept, Batch.flatMap_lines_dropped,
      List.append_assoc, List.flatten_nil, List.nil_append]
    rw [← d.lines, ← hsplit]
    simp only [List.append_assoc]
  · have hnotice : [LogEntry.notice (t.taken.length - 2)].filterMap LogEntry.data? = [] := rfl
    simp only [List.filterMap_append, Batch.filterMap_kept_kept,
      Batch.filterMap_kept_dropped, hkept,
      hfirst, List.append_nil, settled, List.drop_zero, hnotice]
  · simp only [List.filterMap_append, Batch.filterMap_dropped_kept,
      Batch.filterMap_dropped_dropped, d.dropped, List.append_nil, ← hrest, List.map_map]
    rfl

/-- The back end keeps all buffers. -/
theorem drop_none (d : Divides t past taken full current) (hpc : t.pc = .swapped)
    (hfew : ¬ 25 < t.taken.length) :
    Divides t.dropExcess (past ++ taken.map Batch.kept) [] full current := by
  obtain ⟨hundecided, hkept⟩ := d.of_swapped hpc
  rw [LogFlow.dropExcess, if_neg hfew]
  refine ⟨?_, ?_, ?_, rfl, d.filled, d.filling⟩
  · simp [← d.lines]
  · simp only [List.filterMap_append, Batch.filterMap_kept_kept, hkept, hundecided, settled,
      List.drop_zero]
  · simp only [List.filterMap_append, Batch.filterMap_dropped_kept, d.dropped, List.append_nil]

/-- Dropping decides about every buffer taken, and loses track of none. -/
theorem dropExcess (d : Divides t past taken full current) (hpc : t.pc = .swapped) :
    ∃ past', Divides t.dropExcess past' [] full current ∧ handed past' [] = handed past taken := by
  by_cases hexcess : 25 < t.taken.length
  · refine ⟨_, d.drop_many hpc hexcess, ?_⟩
    have hsplit : (taken.take 2).flatten ++ (taken.drop 2).flatten = taken.flatten := by
      rw [← List.flatten_append, List.take_append_drop]
    simp only [handed, List.flatMap_append, Batch.flatMap_lines_kept, List.append_assoc,
      Batch.flatMap_lines_dropped, List.flatten_nil, List.append_nil, hsplit]
  · refine ⟨_, d.drop_none hpc hexcess, ?_⟩
    simp [handed]

/-- Writing a buffer moves it from what is still to be written to the end of the log. -/
theorem write {i : Nat} (d : Divides t past taken full current) (hpc : t.pc = .writing i)
    (hi : i < t.taken.length) : Divides (t.write i) past taken full current := by
  refine d.still ?_ ?_ rfl rfl rfl rfl
  · have hdata : [LogEntry.data (t.taken.getD i [])].filterMap LogEntry.data? = [t.taken[i]] := by
      rw [List.getD_eq_getElem?_getD, List.getElem?_eq_getElem hi]
      rfl
    simp only [settled, LogFlow.write, hpc, List.filterMap_append, hdata, List.append_assoc]
    rw [List.singleton_append, ← List.drop_eq_getElem_cons hi]
  · simp [LogFlow.undecided, LogFlow.write, hpc]

/-- Once every buffer is written, nothing is lost with the list of them. -/
theorem recycle {i : Nat} (d : Divides t past taken full current) (hpc : t.pc = .writing i)
    (hi : t.taken.length ≤ i) : Divides (t.step .recycle) past taken full current := by
  refine d.still ?_ ?_ rfl rfl rfl rfl
  · simp [settled, LogFlow.step, hpc, List.drop_eq_nil_of_le hi]
  · simp [LogFlow.undecided, LogFlow.step, hpc]

/-- One step keeps the division.  What the front end has given away stays as it is, until
the back end takes everything. -/
theorem step (d : Divides t past taken full current) {action : AsyncLogging.Action}
    (hlegal : t.Legal action) :
    ∃ past' taken' full' current', Divides (t.step action) past' taken' full' current' ∧
      (handed past' taken' = handed past taken ∧ (t.AtLock → (t.step action).AtLock) ∨
        t.AtLock ∧ handed past' taken' = t.appended) := by
  cases action with
  | append logline fresh =>
      obtain ⟨full', current', d'⟩ := d.append logline
      exact ⟨past, taken, full', current', d', .inl ⟨rfl, fun hlock => by
        simpa only [AtLock, LogFlow.step, append_pc] using hlock⟩⟩
  | start =>
      have hpc : t.pc = .constructed := hlegal
      exact ⟨past, taken, full, current,
        d.still_of_quiet (by simp [quiet, hpc]) rfl rfl rfl rfl rfl rfl,
        .inl ⟨rfl, by simp [AtLock, hpc]⟩⟩
  | begin =>
      have hpc : t.pc = .starting := hlegal
      exact ⟨past, taken, full, current,
        d.still_of_quiet (by simp [quiet, hpc]) rfl rfl rfl rfl rfl rfl,
        .inl ⟨rfl, by simp [AtLock, hpc]⟩⟩
  | prepare buffer1 buffer2 =>
      have hpc : t.pc = .preparing := hlegal
      exact ⟨past, taken, full, current,
        d.still_of_quiet (by simp [quiet, hpc]) rfl rfl rfl rfl rfl rfl,
        .inl ⟨rfl, by simp [AtLock, hpc]⟩⟩
  | test =>
      have hpc : t.pc = .testing := hlegal
      have hquiet : t.quiet = true := by simp [quiet, hpc]
      refine ⟨past, taken, full, current, ?_, .inl ⟨rfl, by simp [AtLock, hpc]⟩⟩
      simp only [LogFlow.step]
      split
      · exact d.still_of_quiet hquiet rfl rfl rfl rfl rfl rfl
      · exact d.still_of_quiet hquiet rfl rfl rfl rfl rfl rfl
  | lock =>
      have hpc : t.pc = .locking := hlegal
      have hquiet : t.quiet = true := by simp [quiet, hpc]
      simp only [LogFlow.step]
      split
      · exact ⟨past, taken, full, current, d.still_of_quiet hquiet rfl rfl rfl rfl rfl rfl,
          .inl ⟨rfl, fun _ => .inr rfl⟩⟩
      · obtain ⟨d', hhanded⟩ := d.swap hquiet
        exact ⟨_, _, _, _, d', .inr ⟨.inl hpc, hhanded⟩⟩
  | wake =>
      have hpc : t.pc = .waiting := hlegal
      obtain ⟨d', hhanded⟩ := d.swap (by simp [quiet, hpc])
      exact ⟨_, _, _, _, d', .inr ⟨.inr hpc, hhanded⟩⟩
  | dropExcess =>
      have hpc : t.pc = .swapped := hlegal
      obtain ⟨past', d', hhanded⟩ := d.dropExcess hpc
      exact ⟨past', [], full, current, d', .inl ⟨hhanded, by simp [AtLock, hpc]⟩⟩
  | write =>
      obtain ⟨i, hpc, hi⟩ := hlegal
      have hwrite : t.step .write = t.write i := by simp only [LogFlow.step, hpc]
      rw [hwrite]
      exact ⟨past, taken, full, current, d.write hpc hi, .inl ⟨rfl, by simp [AtLock, hpc]⟩⟩
  | recycle =>
      obtain ⟨i, hpc, hi⟩ := hlegal
      exact ⟨past, taken, full, current, d.recycle hpc hi, .inl ⟨rfl, by simp [AtLock, hpc]⟩⟩
  | stop => exact ⟨past, taken, full, current, d.still rfl rfl rfl rfl rfl rfl, .inl ⟨rfl, id⟩⟩

end Divides

end LogFlow

end Muduo.Base
