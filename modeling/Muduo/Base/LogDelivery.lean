/-
  Base/LogDelivery.lean --- from `AsyncLogging::append` to the log files.

  The back end of `AsyncLogging` (src/muduo/base/AsyncLogging.cc) writes to a `LogFile`, the
  variable `output` of `threadFunc`.  Base/AsyncLogging.lean knows the order of its calls,
  Base/LogStore.lean what a `LogFile` makes of them; here the two are one machine.  A step of a
  thread comes with what it finds outside of the process: the clock, the host, and how its
  calls of `fwrite_unlocked`, `fflush` and `fclose` turn out.

  As long as the stream takes whole lines and no call comes with a write error, the files hold whole
  lines, in the order of `append`, each line in one file (`lines_reach_the_files`).
-/
import Muduo.Base.AsyncLines
import Muduo.Base.LogStore

set_option autoImplicit false

namespace Muduo.Base

open Muduo.Foundation

/-! ## `AsyncLogging` with its `LogFile` -/

/-- `"Dropped log messages at %s, %zd larger buffers\n"` in 255 characters. -/
def dropNotice (now : Timestamp) (count : Nat) : List UInt8 :=
  (ascii "Dropped log messages at " ++ now.toFormattedString ++ ascii ", " ++ decimalText count ++
    ascii " larger buffers" ++ [10]).take 255

/-- What a step finds outside of the process. -/
structure Outside where
  /-- `Timestamp::now()` for the message about dropped buffers -/
  timestamp : Timestamp
  time : Int
  now : Int
  rollNow : Int
  host : Host
  transfers : List Transfer
  flushing : Flushing
  deriving DecidableEq, Repr

/-- `output.append(logline, len)`. -/
def Outside.append (o : Outside) (logline : List UInt8) : LogCall :=
  .append ⟨⟨logline.length, o.time, o.now, o.rollNow, o.host⟩, logline, o.transfers,
    o.flushing, rfl⟩

/-- An `AsyncLogging` and the `LogFile` of its back end. -/
structure LogDelivery where
  basename_ : List UInt8
  rollSize_ : Nat
  logging : AsyncLogging
  /-- `output`, when `threadFunc` has constructed it -/
  output : Option LogStore
  /-- what the clock showed last -/
  clock : Int

namespace LogDelivery

/-- `AsyncLogging(basename, rollSize)`; its two buffers get the given addresses. -/
def new (basename : List UInt8) (rollSize : Nat) (now : Int) (current next : Nat) : LogDelivery :=
  ⟨basename, rollSize, .new current next, none, now⟩

/-- A call of a member function of `output`. -/
def call (s : LogDelivery) (c : LogCall) : Exec (Option LogStore) :=
  match s.output with
  | none => .error .outOfBounds
  | some output => do
      let output ← output.call c
      .ok (some output)

/-- What a step of the logger does with `output`; the `flushInterval` of a `LogFile` is 3 when none
is given. -/
def useOutput (s : LogDelivery) (o : Outside) : AsyncLogging.Action → Exec (Option LogStore)
  | .prepare _ _ => do
      let output ← LogStore.new s.basename_ s.rollSize_ 3 o.rollNow o.host
      .ok (some output)
  | .dropExcess =>
      let found := s.logging.buffersToWrite.length
      if 25 < found then s.call (o.append (dropNotice o.timestamp (found - 2))) else .ok s.output
  | .write =>
      match s.logging.pc with
      | .writing i => do
          let (_, b) ← s.logging.deref s.logging.buffersToWrite[i]?
          s.call (o.append b.data)
      | _ => .ok s.output
  | .recycle => s.call (.flush o.flushing)
  | .test => if s.logging.running_ then .ok s.output else s.call (.flush o.flushing)
  | _ => .ok s.output

/-- A step of a thread. -/
def step (s : LogDelivery) (a : AsyncLogging.Action × Outside) : Exec LogDelivery := do
  let logging ← s.logging.step a.1
  let output ← s.useOutput a.2 a.1
  .ok { s with logging := logging, output := output, clock := a.2.rollNow }

/-- The threads do what they may, and the clock never goes backwards. -/
def Legal (s : LogDelivery) (a : AsyncLogging.Action × Outside) : Prop :=
  s.logging.Legal a.1 ∧ s.clock ≤ a.2.time ∧ a.2.time ≤ a.2.now ∧ a.2.now ≤ a.2.rollNow

/-- Every interleaving of the threads. -/
def machine : Machine LogDelivery (AsyncLogging.Action × Outside) := ⟨step, Legal⟩

instance (s : LogDelivery) (a : AsyncLogging.Action × Outside) : Decidable (machine.legal s a) :=
  inferInstanceAs (Decidable (_ ∧ _ ∧ _ ∧ _))

/-- No `fwrite_unlocked` but the first of a line takes nothing, and no call comes with a write
error. -/
def Completes (_ : LogDelivery) (a : AsyncLogging.Action × Outside) : Prop :=
  File.Progress a.2.transfers ∧ File.Kept a.2.transfers ∧ a.2.flushing = .done

instance (s : LogDelivery) (a : AsyncLogging.Action × Outside) :
    Decidable ((machine.restrict Completes).legal s a) :=
  inferInstanceAs (Decidable (machine.legal s a ∧ (∀ t ∈ a.2.transfers.tail, 0 < t.taken) ∧
    (∀ t ∈ a.2.transfers, t.lost = 0) ∧ a.2.flushing = .done))

/-- What the files hold, oldest first. -/
def contents (s : LogDelivery) : List (List UInt8) := (s.output.map LogStore.contents).getD []

/-- What the kernel has of them. -/
def onDisk (s : LogDelivery) : List (List UInt8) := (s.output.map LogStore.onDisk).getD []

end LogDelivery

/-! ## What `output` holds -/

/-- `threadFunc` has not constructed `output` yet. -/
def BackEnd.early : BackEnd → Bool
  | .constructed | .starting | .preparing => true
  | _ => false

/-- What is written for an entry. -/
inductive WrittenFor : LogEntry → List UInt8 → Prop
  | notice (now : Timestamp) (count : Nat) : WrittenFor (.notice count) (dropNotice now count)
  | data (bytes : List UInt8) : WrittenFor (.data bytes) bytes

/-- The files hold the entries of the logger, and the kernel has them all when no buffer was written
since the last `flush`. -/
structure Delivered (t : LogFlow) (clock : Int) (output : LogStore) : Prop where
  clocked : ∃ file, LogFile.Inv clock output.log file
  holds : ∃ written, output.Holds written ∧ List.Forall₂ WrittenFor t.output written
  flushed : (∀ i, t.pc ≠ .writing i) → output.onDisk = output.contents

/-- There is an `output` from its construction on. -/
def OutputHolds (t : LogFlow) (clock : Int) : Option LogStore → Prop
  | none => t.pc.early = true ∧ t.output = []
  | some output => t.pc.early = false ∧ Delivered t clock output

section Output

variable {t t' : LogFlow} {clock clock' : Int} {output : LogStore}

theorem LogFile.Inv.later {log : LogFile} {file : File} (h : LogFile.Inv clock log file)
    (hle : clock ≤ clock') : LogFile.Inv clock' log file :=
  { h with
    past := Int.le_trans h.past hle
    appended := fun time htime => Int.le_trans (h.appended time htime) hle }

/-- A step that does not use `output`. -/
theorem OutputHolds.still {output : Option LogStore} (h : OutputHolds t clock output)
    (hle : clock ≤ clock') (hearly : t'.pc.early = t.pc.early) (houtput : t'.output = t.output)
    (hpc : (∀ i, t'.pc ≠ .writing i) → ∀ i, t.pc ≠ .writing i) : OutputHolds t' clock' output := by
  cases output with
  | none => exact ⟨hearly.trans h.1, houtput.trans h.2⟩
  | some output =>
      obtain ⟨hnot, hdelivered⟩ := h
      obtain ⟨file, hinv⟩ := hdelivered.clocked
      exact ⟨hearly.trans hnot, ⟨file, hinv.later hle⟩, houtput ▸ hdelivered.holds,
        fun hwriting => hdelivered.flushed (hpc hwriting)⟩

/-- Where no buffer is being written. -/
theorem OutputHolds.quiet {output : Option LogStore} (h : OutputHolds t clock output)
    (hle : clock ≤ clock') {pc : BackEnd} (hpc : t.pc = pc) (hnot : ∀ i, pc ≠ .writing i)
    (hearly : t'.pc.early = pc.early) (houtput : t'.output = t.output) :
    OutputHolds t' clock' output :=
  h.still hle (hearly.trans (congrArg BackEnd.early hpc).symm) houtput fun _ => hpc ▸ hnot

/-- A buffer or a message is appended, and all of it is written. -/
theorem Delivered.append (h : Delivered t clock output) {o : Outside} (htime : clock ≤ o.time)
    (hnow : o.time ≤ o.now) (hroll : o.now ≤ o.rollNow) {s : LogDelivery}
    {a : AsyncLogging.Action} (hall : s.Completes (a, o)) {e : LogEntry} {logline : List UInt8}
    (he : WrittenFor e logline)
    (houtput : t'.output = t.output ++ [e]) {i : Nat} (hpc : t'.pc = .writing i) :
    ∃ output', output.call (o.append logline) = .ok output' ∧ Delivered t' o.rollNow output' := by
  obtain ⟨file, hinv⟩ := h.clocked
  obtain ⟨written, hholds, hwritten⟩ := h.holds
  obtain ⟨output', taken, written', happend, hlog, hholds', ⟨-, hwhole⟩, hleft⟩ :=
    hholds.append_unlocked hinv.current ⟨⟨logline.length, o.time, o.now, o.rollNow, o.host⟩,
      logline, o.transfers, o.flushing, rfl⟩
  obtain ⟨log, file', happend', hinv'⟩ := @LogFile.Inv.append_unlocked clock output.log file
    ⟨logline.length, o.time, o.now, o.rollNow, o.host⟩ hinv htime hnow hroll
  obtain rfl : output'.log = log := Except.ok.inj (hlog.symm.trans happend')
  obtain rfl := hwhole hall.1
  obtain rfl := hleft.all hall.2
  refine ⟨output', happend, ⟨file', hinv'⟩, ⟨_, hholds', ?_⟩,
    fun hwriting => absurd hpc (hwriting i)⟩
  rw [houtput]
  exact List.rel_append hwritten (.cons he .nil)

theorem Delivered.flush (h : Delivered t clock output) (hle : clock ≤ clock')
    (houtput : t'.output = t.output) :
    ∃ output', output.call (.flush .done) = .ok output' ∧ Delivered t' clock' output' := by
  obtain ⟨file, hinv⟩ := h.clocked
  obtain ⟨written, hholds, hwritten⟩ := h.holds
  obtain ⟨output', written', hflush, hlog, hholds', hleft⟩ := hholds.flush .done
  obtain rfl := hleft.all rfl
  exact ⟨output', hflush, ⟨file, hlog ▸ hinv.later hle⟩, ⟨_, hholds', houtput ▸ hwritten⟩,
    fun _ => LogStore.onDisk_of_flush hflush⟩

theorem OutputHolds.exists_output {output : Option LogStore} (h : OutputHolds t clock output)
    (hpc : t.pc.early = false) : ∃ store, output = some store ∧ Delivered t clock store := by
  cases output with
  | none => exact absurd (hpc.symm.trans h.1) Bool.false_ne_true
  | some store => exact ⟨store, rfl, h.2⟩

end Output

/-- A new file is empty. -/
theorem LogStore.onDisk_of_new {basename : List UInt8} {rollSize : Nat} {flushInterval now : Int}
    {host : Host} {store : LogStore} (h : new basename rollSize flushInterval now
    host = .ok store) :
    store.onDisk = store.contents := by
  rw [new] at h
  obtain ⟨-, -, hroll⟩ := bind_eq_ok_iff.mp h
  obtain rfl := Except.ok.inj hroll
  rw [rollFile]
  split <;> rfl

/-! ## One step -/

namespace LogDelivery

/-- What holds after the steps `done`. -/
structure Inv (done : List (AsyncLogging.Action × Outside)) (s : LogDelivery) : Prop where
  basename : 47 ∉ s.basename_
  positive : 0 < s.clock
  buffers : AsyncLogging.Inv s.logging
  lines : AsyncLogging.Lines (done.map Prod.fst) s.logging.view
  output : OutputHolds s.logging.view s.clock s.output

section Step

variable {s : LogDelivery} {done : List (AsyncLogging.Action × Outside)} {o : Outside}

theorem call_of {store store' : LogStore} {c : LogCall} (hstore : s.output = some store)
    (hcall : store.call c = .ok store') : s.call c = .ok (some store') := by
  rw [call, hstore]
  simp only [hcall, ok_bind]

/-- Behind the last write of a cycle, and behind the loop. -/
theorem flush_spec (h : Inv done s) (hle : s.clock ≤ o.rollNow) (hdone : o.flushing = .done)
    {t : LogFlow}
    (hbefore : s.logging.pc.early = false) (hearly : t.pc.early = false)
    (houtput : t.output = s.logging.output) :
    ∃ output, s.call (.flush o.flushing) = .ok output ∧ OutputHolds t o.rollNow output := by
  obtain ⟨store, hstore, hdelivered⟩ := h.output.exists_output hbefore
  obtain ⟨store', hflush, hdelivered'⟩ := hdelivered.flush hle houtput
  exact ⟨some store', hdone ▸ call_of hstore hflush, hearly, hdelivered'⟩

theorem append_spec {a : AsyncLogging.Action} (h : Inv done s) (hlegal : s.Legal (a, o))
    (hall : s.Completes (a, o)) {e : LogEntry} {logline : List UInt8}
    (he : WrittenFor e logline) {t : LogFlow} (hbefore : s.logging.pc.early = false)
    (houtput : t.output = s.logging.output ++ [e]) {i : Nat} (hpc : t.pc = .writing i) :
    ∃ output, s.call (o.append logline) = .ok output ∧ OutputHolds t o.rollNow output := by
  obtain ⟨-, htime, hnow, hroll⟩ := hlegal
  obtain ⟨store, hstore, hdelivered⟩ := h.output.exists_output hbefore
  obtain ⟨store', happend, hdelivered'⟩ :=
    hdelivered.append htime hnow hroll hall he houtput hpc
  exact ⟨some store', call_of hstore happend, by rw [hpc]; rfl, hdelivered'⟩

/-- The calls on `output` succeed, and write what the logger wants to have written. -/
theorem useOutput_spec {a : AsyncLogging.Action} (h : Inv done s) (hlegal : s.Legal (a, o))
    (hall : s.Completes (a, o)) :
    ∃ output, s.useOutput o a = .ok output ∧ OutputHolds
      (s.logging.view.step a) o.rollNow output := by
  have hle : s.clock ≤ o.rollNow :=
    Int.le_trans hlegal.2.1 (Int.le_trans hlegal.2.2.1 hlegal.2.2.2)
  cases a with
  | append logline fresh =>
      refine ⟨_, rfl, h.output.still hle ?_ ?_ ?_⟩
      · simp only [LogFlow.step, LogFlow.append_pc]
      · simp only [LogFlow.step, LogFlow.append]
        split <;> rfl
      · simp only [LogFlow.step, LogFlow.append_pc]
        exact id
  | start =>
      have hpc : s.logging.pc = .constructed := hlegal.1
      exact ⟨_, rfl, h.output.quiet hle hpc (by simp) rfl rfl⟩
  | begin =>
      have hpc : s.logging.pc = .starting := hlegal.1
      exact ⟨_, rfl, h.output.quiet hle hpc (by simp) rfl rfl⟩
  | prepare buffer1 buffer2 =>
      have hpc : s.logging.pc = .preparing := hlegal.1.1
      obtain ⟨store, file, hnew, hinv, hholds⟩ := LogStore.new_holds h.basename
        (Int.lt_of_lt_of_le h.positive hle) s.rollSize_ 3 o.host
      have hnone : s.logging.output = [] := by
        have hbefore := h.output
        cases hstore : s.output with
        | none =>
            rw [hstore] at hbefore
            exact hbefore.2
        | some store' =>
            rw [hstore] at hbefore
            have hnot : s.logging.pc.early = false := hbefore.1
            rw [hpc] at hnot
            exact absurd hnot (by decide)
      refine ⟨some store, by rw [useOutput, hnew]; rfl, rfl, ⟨file, hinv⟩, ⟨[], hholds, ?_⟩,
        fun _ => LogStore.onDisk_of_new hnew⟩
      rw [show (s.logging.view.step (.prepare buffer1 buffer2)).output = [] from hnone]
      exact .nil
  | test =>
      have hpc : s.logging.pc = .testing := hlegal.1
      simp only [useOutput, LogFlow.step]
      cases hrunning : s.logging.running_ with
      | true =>
          have hview : s.logging.view.running = true := hrunning
          rw [if_pos rfl, if_pos hview]
          exact ⟨_, rfl, h.output.quiet hle hpc (by simp) rfl rfl⟩
      | false =>
          have hview : s.logging.view.running = false := hrunning
          rw [if_neg Bool.false_ne_true, if_neg (by simp [hview])]
          exact flush_spec h hle hall.2.2 (by rw [hpc]; rfl) rfl rfl
  | lock =>
      have hpc : s.logging.pc = .locking := hlegal.1
      refine ⟨_, rfl, ?_⟩
      simp only [LogFlow.step]
      split
      · exact h.output.quiet hle hpc (by simp) rfl rfl
      · exact h.output.quiet hle hpc (by simp) rfl rfl
  | wake =>
      have hpc : s.logging.pc = .waiting := hlegal.1
      exact ⟨_, rfl, h.output.quiet hle hpc (by simp) rfl rfl⟩
  | dropExcess =>
      have hpc : s.logging.pc = .swapped := hlegal.1
      have hlength := h.buffers.length_taken
      simp only [useOutput, LogFlow.step, LogFlow.dropExcess, hlength]
      by_cases hexcess : 25 < s.logging.buffersToWrite.length
      · rw [if_pos hexcess, if_pos hexcess]
        exact append_spec h hlegal hall (.notice _ _) (by rw [hpc]; rfl) rfl rfl
      · rw [if_neg hexcess, if_neg hexcess]
        exact ⟨_, rfl, h.output.quiet hle hpc (by simp) rfl rfl⟩
  | write =>
      obtain ⟨i, hpc, hi⟩ := AsyncLogging.legal_view h.buffers hlegal.1
      have hpc' : s.logging.pc = .writing i := hpc
      rw [h.buffers.length_taken] at hi
      have hget := List.getElem?_eq_getElem hi
      obtain ⟨b, hb⟩ := h.buffers.live_buffersToWrite _ (List.getElem_mem hi)
      simp only [useOutput, LogFlow.step, hpc, hpc', AsyncLogging.deref_of hget hb, ok_bind]
      refine append_spec h hlegal hall (.data b.data) (by rw [hpc']; rfl) ?_ rfl
      simp [LogFlow.write, AsyncLogging.view,
        AsyncLogging.bytes_eq_map h.buffers.live_buffersToWrite, hi, hb]
  | recycle =>
      obtain ⟨i, hpc, -⟩ := AsyncLogging.legal_view h.buffers hlegal.1
      have hpc' : s.logging.pc = .writing i := hpc
      exact flush_spec h hle hall.2.2 (by rw [hpc']; rfl) rfl rfl
  | stop => exact ⟨_, rfl, h.output.still hle rfl rfl id⟩

theorem inv_step (h : Inv done s) {a : AsyncLogging.Action × Outside}
    (hlegal : (machine.restrict Completes).legal s a) :
    ∃ s', (machine.restrict Completes).step s a = .ok s' ∧ Inv (done ++ [a]) s' := by
  obtain ⟨ha, hall⟩ := hlegal
  obtain ⟨logging, hstep, hbuffers, hview⟩ := AsyncLogging.step_follows h.buffers ha.1
  obtain ⟨output, huse, houtput⟩ := useOutput_spec h ha hall
  refine ⟨{ s with logging := logging, output := output, clock := a.2.rollNow }, ?_, h.basename, ?_,
    hbuffers, ?_, ?_⟩
  · show LogDelivery.step s a = _
    rw [LogDelivery.step, hstep, ok_bind, huse, ok_bind]
  · have hpositive := h.positive
    obtain ⟨-, htime, hnow, hroll⟩ := ha
    exact Int.lt_of_lt_of_le hpositive (Int.le_trans htime (Int.le_trans hnow hroll))
  · rw [hview, List.map_append]
    exact AsyncLogging.lines_step h.lines (AsyncLogging.legal_view h.buffers ha.1)
  · rw [hview]
    exact houtput

end Step

theorem inv_new {basename : List UInt8} (hname : 47 ∉ basename) (rollSize : Nat) {now : Int}
    (hpos : 0 < now) {current next : Nat} (hne : current ≠ next) :
    Inv [] (new basename rollSize now current next) :=
  ⟨hname, hpos, AsyncLogging.inv_new hne, AsyncLogging.lines_new current next, rfl, rfl⟩

end LogDelivery

/-! ## Cutting the files into lines -/

/-- A line of a file. -/
inductive FileLine where
  | logline (text : List UInt8)
  /-- the message about dropped buffers -/
  | notice (text : List UInt8)
  deriving DecidableEq, Repr

namespace FileLine

/-- The bytes of a line. -/
def text : FileLine → List UInt8
  | .logline text => text
  | .notice text => text

/-- The line, unless it is the message. -/
def logline? : FileLine → Option (List UInt8)
  | .logline text => some text
  | .notice _ => none

end FileLine

/-- The lines of a buffer that was not dropped. -/
def Batch.keptBuffer? : Batch → Option (List (List UInt8))
  | .kept lines => some lines
  | .dropped _ _ => none

theorem Batch.map_flatten_kept (batches : List Batch) :
    (batches.filterMap Batch.keptBuffer?).map List.flatten = batches.filterMap Batch.kept? := by
  rw [List.map_filterMap]
  refine List.filterMap_congr fun batch _ => ?_
  cases batch <;> rfl

/-- What was written is cut as the buffers are. -/
theorem exists_cut {entries : List LogEntry} {written : List (List UInt8)}
    (h : List.Forall₂ WrittenFor entries written) {buffers : List (List (List UInt8))}
    (hbuffers : buffers.map List.flatten = entries.filterMap LogEntry.data?) :
    ∃ cut : List (List FileLine), cut.map (List.flatMap FileLine.text) = written ∧
      cut.flatten.filterMap FileLine.logline? = buffers.flatten := by
  induction h generalizing buffers with
  | nil =>
      obtain rfl := List.map_eq_nil_iff.mp hbuffers
      exact ⟨[], rfl, rfl⟩
  | @cons e piece entries written he _ ih =>
      cases he with
      | notice now count =>
          obtain ⟨cut, htext, hlines⟩ := ih hbuffers
          refine ⟨[.notice (dropNotice now count)] :: cut, by simp [htext, FileLine.text], ?_⟩
          rw [List.flatten_cons, List.filterMap_append, hlines]
          rfl
      | data bytes =>
          obtain ⟨lines, rest, rfl, hbytes, hrest⟩ := List.map_eq_cons_iff.mp hbuffers
          obtain ⟨cut, htext, hlines⟩ := ih hrest
          refine ⟨lines.map .logline :: cut, ?_, ?_⟩
          · simp [htext, List.flatMap_map, FileLine.text, hbytes]
          · rw [List.flatten_cons, List.filterMap_append, hlines]
            simp [List.filterMap_map, Function.comp_def, FileLine.logline?]

/-- A cut of the pieces of all files is a cut of each file. -/
theorem exists_cut_blocks {α β : Type} {f : α → β} {cut : List α} {blocks : List (List β)}
    (h : cut.map f = blocks.flatten) :
    ∃ cuts : List (List α), cut = cuts.flatten ∧ cuts.map (List.map f) = blocks := by
  induction blocks generalizing cut with
  | nil => exact ⟨[], List.map_eq_nil_iff.mp h, rfl⟩
  | cons block blocks ih =>
      obtain ⟨first, rest, rfl, hfirst, hrest⟩ := List.map_eq_append_iff.mp h
      obtain ⟨cuts, rfl, hcuts⟩ := ih hrest
      exact ⟨first :: cuts, rfl, by rw [List.map_cons, hfirst, hcuts]⟩

/-- The files hold the lines of the buffers that the back end has written, each line in one file. -/
theorem Delivered.exists_files {t : LogFlow} {clock : Int} {store : LogStore}
    (h : Delivered t clock store) {buffers : List (List (List UInt8))}
    (hbuffers : buffers.map List.flatten = t.output.filterMap LogEntry.data?) :
    ∃ files : List (List FileLine), store.contents = files.map (List.flatMap FileLine.text) ∧
      files.flatten.filterMap FileLine.logline? = buffers.flatten := by
  obtain ⟨written, hholds, hwritten⟩ := h.holds
  obtain ⟨fp, blocks, last, hfp, -, hclosed, hlast, hpieces⟩ := hholds.blocks
  obtain ⟨cut, htext, hlines⟩ := exists_cut hwritten hbuffers
  have hblocks : cut.map (List.flatMap FileLine.text) = (blocks ++ [last]).flatten := by
    rw [htext, hpieces, List.flatten_append, List.flatten_singleton]
  obtain ⟨cuts, rfl, hcuts⟩ := exists_cut_blocks hblocks
  refine ⟨cuts.map List.flatten, ?_, by rw [← List.flatten_flatten, hlines]⟩
  have hcontents : store.contents = (blocks ++ [last]).map List.flatten := by
    rw [LogStore.contents, hfp, hclosed, List.map_append]
    simp [hlast]
  rw [hcontents, ← hcuts, List.map_map, List.map_map]
  refine List.map_congr_left fun c _ => ?_
  rw [Function.comp_apply, Function.comp_apply, List.flatMap_def, List.map_flatten,
    List.flatten_flatten, List.map_map]
  rfl

theorem Batch.flatten_kept_of_dropped_eq_nil {batches : List Batch}
    (h : batches.filterMap Batch.dropped? = []) :
    (batches.filterMap Batch.keptBuffer?).flatten = batches.flatMap Batch.lines := by
  induction batches with
  | nil => rfl
  | cons batch batches ih =>
      cases batch with
      | kept lines =>
          rw [List.filterMap_cons_none rfl] at h
          simp [Batch.keptBuffer?, Batch.lines, ih h]
      | dropped found lines => simp [Batch.dropped?] at h

namespace LogDelivery

/-- Where the lines are.  In every run of the threads under a clock that never goes backwards and in
which the stream takes whole lines without a write error, no assertion fails; the lines that
were appended are divided among buffers, and those of the buffers that were not dropped are in the
files, in the order of `append` and each in one file, as far as they are not still in a buffer.
Only a cycle that found more than 25 buffers drops some, and when none did, no line is missing.
Between two cycles and behind the loop the kernel has everything that was written. -/
theorem lines_reach_the_files {basename : List UInt8} (hname : 47 ∉ basename) (rollSize : Nat)
    {now : Int} (hpos : 0 < now) {current next : Nat} (hne : current ≠ next)
    {as : List (AsyncLogging.Action × Outside)}
    (hlegal : (machine.restrict Completes).LegalRun (new basename rollSize now current next) as) :
    ∃ s, machine.run (new basename rollSize now current next) as = .ok s ∧
      (∃ (files : List (List FileLine)) (batches : List Batch) (pending : List (List UInt8)),
        s.contents = files.map (List.flatMap FileLine.text) ∧
        batches.flatMap Batch.lines = as.filterMap (fun a => LogFlow.line? a.1) ∧
        files.flatten.filterMap FileLine.logline? ++ pending =
          (batches.filterMap Batch.keptBuffer?).flatten ∧
        pending.flatten = (s.logging.bytes s.logging.unwritten ++
          s.logging.bytes s.logging.buffers_ ++
          s.logging.bytes s.logging.currentBuffer_.toList).flatten ∧
        batches.filterMap Batch.dropped? = s.logging.discarded ∧
        (∀ d ∈ s.logging.discarded, 25 < d.1) ∧
        (s.logging.discarded = [] → files.flatten.filterMap FileLine.logline? ++ pending =
          as.filterMap (fun a => LogFlow.line? a.1))) ∧
      ((∀ i, s.logging.pc ≠ .writing i) → s.onDisk = s.contents) := by
  obtain ⟨s, hrun, hinv⟩ := (machine.restrict Completes).run_of_step Inv
    (fun _ _ _ h ha => inv_step h ha) (inv_new hname rollSize hpos hne) hlegal
  rw [Machine.run_restrict] at hrun
  obtain ⟨happended, hfound, past, taken, full, cur, d⟩ := hinv.lines
  obtain ⟨batches, hlines, hkept, hdropped⟩ := AsyncLogging.exists_batches hinv.buffers d
  have hlines : batches.flatMap Batch.lines = as.filterMap (fun a => LogFlow.line? a.1) := by
    rw [hlines, show s.logging.appended = _ from happended, List.nil_append, List.filterMap_map]
    rfl
  rw [← Batch.map_flatten_kept, AsyncLogging.pipeline, List.append_assoc,
    List.append_assoc] at hkept
  obtain ⟨written, rest, hsplit, hwritten, hrest⟩ := List.map_eq_append_iff.mp hkept
  have houtput := hinv.output
  refine ⟨s, hrun, ?_, fun hpc => ?_⟩
  · obtain ⟨files, hcontents, hfiles⟩ : ∃ files : List (List FileLine),
        s.contents = files.map (List.flatMap FileLine.text) ∧
          files.flatten.filterMap FileLine.logline? = written.flatten := by
      cases hstore : s.output with
      | none =>
          rw [hstore] at houtput
          have hnone : s.logging.output = [] := houtput.2
          rw [hnone] at hwritten
          obtain rfl := List.map_eq_nil_iff.mp hwritten
          exact ⟨[], by rw [contents, hstore]; rfl, rfl⟩
      | some store =>
          rw [hstore] at houtput
          rw [contents, hstore]
          exact houtput.2.exists_files hwritten
    have hall : files.flatten.filterMap FileLine.logline? ++ rest.flatten =
        (batches.filterMap Batch.keptBuffer?).flatten := by
      rw [hfiles, hsplit, List.flatten_append]
    refine ⟨files, batches, rest.flatten, hcontents, hlines, hall, ?_, hdropped, hfound,
      fun hnone => ?_⟩
    · rw [List.flatten_flatten, hrest, List.append_assoc]
    · rw [hall, Batch.flatten_kept_of_dropped_eq_nil (hdropped.trans hnone), hlines]
  · cases hstore : s.output with
    | none => rw [onDisk, contents, hstore]; rfl
    | some store =>
        rw [hstore] at houtput
        rw [onDisk, contents, hstore]
        exact houtput.2.flushed hpc

/-- What every step of the run below finds. -/
def oneSecond : Outside := ⟨⟨101000000⟩, 101, 101, 101, ⟨ascii "host", 7⟩,
    [⟨1, 0, 0⟩, ⟨2, 1, 0⟩], .done⟩

/-- Two of three lines are written, in parts, and flushed. -/
theorem lines_reach_the_files_oneCycle :
    ∃ s, machine.run (new (ascii "test") 1000 100 0 1)
        (AsyncLogging.oneCycle.map fun a => (a, oneSecond)) = .ok s ∧
      s.contents = [[104, 105, 33]] ∧ s.onDisk = s.contents ∧
      ∃ (files : List (List FileLine)) (pending : List (List UInt8)),
        s.contents = files.map (List.flatMap FileLine.text) ∧
        files.flatten.filterMap FileLine.logline? ++ pending = [[104, 105], [33], [10]] := by
  have hlegal : (machine.restrict Completes).LegalRun (new (ascii "test") 1000 100 0 1)
      (AsyncLogging.oneCycle.map fun a => (a, oneSecond)) := by decide +kernel
  obtain ⟨s, hrun, ⟨files, batches, pending, hcontents, -, -, -, -, -, hall⟩, hflushed⟩ :=
    @lines_reach_the_files (ascii "test") (by decide) 1000 100 (by decide) 0 1 (by decide) _ hlegal
  obtain ⟨s', hrun', hend⟩ := machine.exists_of_endsWith (new (ascii "test") 1000 100 0 1)
    (AsyncLogging.oneCycle.map fun a => (a, oneSecond))
    (fun s => decide (s.contents = [[104, 105, 33]] ∧ s.logging.pc = .testing ∧
      s.logging.discarded = [])) (by decide +kernel)
  obtain rfl : s = s' := Except.ok.inj (hrun.symm.trans hrun')
  obtain ⟨htext, hpc, hnone⟩ := of_decide_eq_true hend
  exact ⟨s, hrun, htext, hflushed (by simp [hpc]), files, pending, hcontents, hall hnone⟩

end LogDelivery

end Muduo.Base
