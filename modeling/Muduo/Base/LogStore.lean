/-
  Base/LogStore.lean --- what `LogFile` (src/muduo/base/LogFile.cc) leaves on the disk.

  `LogStore` is the state of Base/LogFile.lean with the stream of the open file and what the
  replaced files hold.  The steps are those of the source once more, with the calls of
  `fwrite_unlocked`, `fflush` and `fclose` and how each of them turns out; the source looks at none
  of their results but the number of bytes `fwrite_unlocked` takes.  Without the bytes they are the
  steps of Base/LogFile.lean (`Holds.append_unlocked`).  `fopen` succeeds, as the constructor of
  `File` asserts, on a name that no file has yet.

  No line is split between two files: the lines are cut into one block for each file
  (`Holds.blocks`).  The file names are in the order of the files, so that reading the directory by
  name reads the log (`log_files_hold_the_log`).
-/
import Muduo.Foundation.Stdio
import Muduo.Base.LogFile
import Muduo.Base.TimeText

set_option autoImplicit false

namespace Muduo.Base

open Muduo.Foundation

/-! ## File names in order -/

section Names

variable {t t' : Int}

/-- What stands in the name between the base name and the host. -/
theorem nameText_eq (hlo : 0 ≤ t) :
    dateText (gmtime t) ++ ([45] ++ clockText (gmtime t)) =
      render (dateFormat [] [] [45] ++ clockFormat [] [] [])
        ((gmtime t).dateFields ++ (gmtime t).clockFields) := by
  have hutc := gmtime_isUtc t
  have hyear := gmtime_year_ge hlo
  have hmonth := hutc.valid.1.1
  have hday := hutc.valid.2.1
  obtain ⟨⟨hsec, -⟩, ⟨hmin, -⟩, ⟨hhour, -⟩⟩ := hutc.time
  simp only [Tm.date] at hyear hmonth hday
  have hfour : decimalText ((gmtime t).tm_year + 1900) =
      leftPadded 32 4 ((gmtime t).tm_year + 1900) := by
    rw [decimalText_of_nonneg (by omega), leftPadded_of_le (by decide) (by norm_num; omega)]
  rw [dateText, clockText, hfour, zeroPadded_eq (by omega), zeroPadded_eq (by omega),
    zeroPadded_eq hhour, zeroPadded_eq hmin, zeroPadded_eq hsec]
  simp only [render, dateFormat, clockFormat, Tm.dateFields, Tm.clockFields, List.cons_append,
    List.nil_append, List.append_nil, List.append_assoc]

/-- Of two files with the same base name, the one that is opened in the earlier second is first in
the order of the names. -/
theorem getLogFileName_lt {basename : List UInt8} {host host' : Host} (hlo : 0 ≤ t) (hlt : t < t')
    (hhi : t' < 253402300800) :
    getLogFileName basename t host < getLogFileName basename t' host' := by
  have hfits : ∀ {u : Int}, 0 ≤ u → u < 253402300800 →
      Fits (dateFormat [] [] [45] ++ clockFormat [] [] [])
        ((gmtime u).dateFields ++ (gmtime u).clockFields) :=
    fun h h' => (fits_gmtime _ _ _ h h').append (fits_clock _ _ _ (gmtime_isUtc _).time)
  have hname : ∀ {u : Int} {h : Host}, 0 ≤ u → getLogFileName basename u h =
      (basename ++ [46]) ++ (render (dateFormat [] [] [45] ++ clockFormat [] [] [])
        ((gmtime u).dateFields ++ (gmtime u).clockFields) ++ ([46] ++ (h.hostname ++ ([46] ++
          decimalText h.pid ++ ascii ".log")))) := by
    intro u h hu
    rw [← nameText_eq hu]
    simp only [getLogFileName, List.append_assoc]
  have hbefore := hfits hlo (by omega)
  have hafter := hfits (show 0 ≤ t' by omega) hhi
  rw [hname hlo, hname (show 0 ≤ t' by omega), append_lt_append_iff rfl]
  refine .inr ⟨rfl, ?_⟩
  rw [append_lt_append_iff (by rw [length_render hbefore, length_render hafter])]
  exact .inl ((render_lt_iff hbefore hafter).mpr (gmtime_fields_lt_iff.mpr hlt))

end Names

/-! ## `LogFile::File` -/

namespace File

/-- `sizeof(buffer_)`. -/
def kBufferSize : Nat := 64 * 1024

/-- The `while` of `append`, with the outcomes of its calls of `fwrite_unlocked`; a call beyond them
takes everything.  The stream behind it, and what it has not taken. -/
def writeRemain (fp : Stream) (remain : List UInt8) : List Transfer → Stream × List UInt8
  | [] =>
      if remain = [] then (fp, [])
      else ((fp.fwrite kBufferSize remain ⟨remain.length, 0, 0⟩).2, [])
  | t :: transfers =>
      if remain = [] then (fp, [])
      else
        let (x, fp) := fp.fwrite kBufferSize remain t
        -- the message to stderr
        if x = 0 then (fp, remain)
        else writeRemain fp (remain.drop x) transfers

/-- `append(logline, len)`. -/
def write (fp : Stream) (logline : List UInt8) (transfers : List Transfer) :
    Stream × List UInt8 :=
  let (n, fp) := fp.fwrite kBufferSize logline (transfers.headD ⟨logline.length, 0, 0⟩)
  writeRemain fp (logline.drop n) transfers.tail

/-- No call but the first takes nothing. -/
def Progress (transfers : List Transfer) : Prop := ∀ t ∈ transfers.tail, 0 < t.taken

/-- No call loses a byte that was taken. -/
def Kept (transfers : List Transfer) : Prop := ∀ t ∈ transfers, t.lost = 0

section Write

variable {fp fp' : Stream} {remain rest : List UInt8} {transfers : List Transfer}

/-- What is not taken is the end of what there was, and only a call that takes nothing leaves it. -/
theorem writeRemain_spec (h : writeRemain fp remain transfers = (fp', rest)) :
    ∃ taken, remain = taken ++ rest ∧ fp'.contents.Sublist (fp.contents ++ taken) ∧
      (Kept transfers → fp'.contents = fp.contents ++ taken) ∧
      (fp.Fits kBufferSize → fp'.Fits kBufferSize) ∧
      ((∀ t ∈ transfers, 0 < t.taken) → rest = []) := by
  induction transfers generalizing fp remain with
  | nil =>
      rw [writeRemain] at h
      by_cases hempty : remain = []
      · rw [if_pos hempty] at h
        cases h
        exact ⟨[], by rw [hempty]; rfl, by rw [List.append_nil], fun _ => (List.append_nil _).symm,
          id, fun _ => rfl⟩
      · rw [if_neg hempty] at h
        cases h
        have hcontents : (fp.fwrite kBufferSize remain ⟨remain.length, 0, 0⟩).2.contents =
            fp.contents ++ remain := by
          rw [Stream.contents_fwrite rfl]
          simp [Stream.fwrite]
        exact ⟨remain, (List.append_nil _).symm, by rw [hcontents], fun _ => hcontents,
          fun _ => Stream.fits_fwrite, fun _ => rfl⟩
  | cons t transfers ih =>
      rw [writeRemain] at h
      by_cases hempty : remain = []
      · rw [if_pos hempty] at h
        cases h
        exact ⟨[], by rw [hempty]; rfl, by rw [List.append_nil], fun _ => (List.append_nil _).symm,
          id, fun _ => rfl⟩
      rw [if_neg hempty] at h
      simp only at h
      have hsome := @Stream.contents_fwrite_sublist kBufferSize fp remain t
      have hwhole : Kept (t :: transfers) → _ := fun hkept =>
        @Stream.contents_fwrite kBufferSize fp remain t (hkept t List.mem_cons_self)
      by_cases hnone : (fp.fwrite kBufferSize remain t).1 = 0
      · rw [if_pos hnone] at h
        cases h
        rw [hnone, List.take_zero] at hsome hwhole
        refine ⟨[], rfl, hsome, hwhole, fun _ => Stream.fits_fwrite, fun hpos => ?_⟩
        have htaken := @Stream.fwrite_fst_pos kBufferSize fp _ t hempty (hpos t List.mem_cons_self)
        omega
      · rw [if_neg hnone] at h
        obtain ⟨taken, hremain, hsome', hwhole', hfits, hall⟩ := ih h
        refine ⟨remain.take (fp.fwrite kBufferSize remain t).1 ++ taken, ?_, ?_, ?_,
          fun _ => hfits Stream.fits_fwrite, fun hpos => hall fun t' ht' => hpos t' (.tail _ ht')⟩
        · rw [List.append_assoc, ← hremain, List.take_append_drop]
        · rw [← List.append_assoc]
          exact hsome'.trans (hsome.append (.refl _))
        · intro hkept
          rw [hwhole' fun t' ht' => hkept t' (.tail _ ht'), hwhole hkept, List.append_assoc]

theorem write_spec (h : write fp remain transfers = (fp', rest)) :
    ∃ taken, remain = taken ++ rest ∧ fp'.contents.Sublist (fp.contents ++ taken) ∧
      (Kept transfers → fp'.contents = fp.contents ++ taken) ∧
      fp'.Fits kBufferSize ∧ (Progress transfers → rest = []) := by
  obtain ⟨t, ht, hkept⟩ : ∃ t, transfers.headD ⟨remain.length, 0, 0⟩ = t ∧
      (Kept transfers → t.lost = 0) := by
    refine ⟨_, rfl, fun hkept => ?_⟩
    cases transfers with
    | nil => rfl
    | cons t transfers => exact hkept t List.mem_cons_self
  have hrest : writeRemain (fp.fwrite kBufferSize remain t).2
      (remain.drop (fp.fwrite kBufferSize remain t).1) transfers.tail = (fp', rest) := ht ▸ h
  obtain ⟨taken, hremain, hsome, hwhole, hfits, hall⟩ := writeRemain_spec hrest
  refine ⟨remain.take (fp.fwrite kBufferSize remain t).1 ++ taken, ?_, ?_, ?_,
    hfits Stream.fits_fwrite, hall⟩
  · rw [List.append_assoc, ← hremain, List.take_append_drop]
  · rw [← List.append_assoc]
    exact hsome.trans (Stream.contents_fwrite_sublist.append (.refl _))
  · intro h'
    rw [hwhole fun t' ht' => h' t' (List.mem_of_mem_tail ht'), Stream.contents_fwrite (hkept h'),
      List.append_assoc]

end Write

end File

/-! ## `LogFile` with its files -/

/-- A `LogFile` and its files. -/
structure LogStore where
  log : LogFile
  /-- `fp_` of `file_` -/
  fp_ : Option Stream
  /-- what the replaced files hold, oldest first -/
  closed : List (List UInt8)
  deriving DecidableEq, Repr

/-- A call of `append_unlocked` with the bytes of the line and the outcomes of the calls of
`fwrite_unlocked`, and of the `fflush` or `fclose` if it makes one. -/
structure LineCall extends AppendCall where
  logline : List UInt8
  transfers : List Transfer
  flushing : Flushing
  len_eq : len = logline.length
  deriving DecidableEq, Repr

/-- A call of a member function. -/
inductive LogCall where
  | append (l : LineCall)
  | flush (flushing : Flushing)
  deriving DecidableEq, Repr

/-- The call comes without a write error. -/
def LogCall.Kept : LogCall → Prop
  | .append l => File.Kept l.transfers ∧ l.flushing = .done
  | .flush flushing => flushing = .done

namespace LogStore

/-- `file_.reset(new File(filename))` closes the file that was open. -/
def rollFile (s : LogStore) (now : Int) (host : Host) (flushing : Flushing) : LogStore :=
  if now > s.log.lastRoll_ then
    { log := s.log.rollFile now host
      fp_ := some .opened
      closed := s.closed ++ (s.fp_.map fun fp => fp.fclose flushing).toList }
  else s

/-- `LogFile(basename, rollSize, threadSafe, flushInterval)`. -/
def new (basename : List UInt8) (rollSize : Nat) (flushInterval : Int) (now : Int) (host : Host) :
    Exec LogStore := do
  assertThat (47 ∉ basename)
  return rollFile ⟨⟨basename, rollSize, flushInterval, 0, 0, 0, 0, none, []⟩, none, []⟩ now
    host .done

/-- `append_unlocked`, when `file_` has taken the line. -/
def checkRoll (s : LogStore) (file : File) (c : AppendCall) (flushing : Flushing) : LogStore :=
  if file.writtenBytes_ > s.log.rollSize_ then s.rollFile c.rollNow c.host flushing
  else if s.log.count_ > LogFile.kCheckTimeRoll_ then
    let s := { s with log := { s.log with count_ := 0 } }
    let thisPeriod_ := c.now.tdiv LogFile.kRollPerSeconds_ * LogFile.kRollPerSeconds_
    if thisPeriod_ ≠ s.log.startOfPeriod_ then s.rollFile c.rollNow c.host flushing
    else if c.now - s.log.lastFlush_ > s.log.flushInterval_ then
      { s with
        log := { s.log with lastFlush_ := c.now }
        fp_ := s.fp_.map fun fp => fp.fflush flushing }
    else s
  else { s with log := { s.log with count_ := s.log.count_ + 1 } }

/-- `append_unlocked(logline, len)`. -/
def append_unlocked (s : LogStore) (l : LineCall) : Exec LogStore :=
  match s.log.file_, s.fp_ with
  | some file, some fp =>
      let file := file.append l.len l.time
      let (fp, _) := File.write fp l.logline l.transfers
      .ok ({ s with log := { s.log with file_ := some file }, fp_ := some fp }.checkRoll file
        l.toAppendCall l.flushing)
  | _, _ => .error .assertion

/-- `flush()`. -/
def flush (s : LogStore) (flushing : Flushing) : Exec LogStore :=
  match s.fp_ with
  | some fp => .ok { s with fp_ := some (fp.fflush flushing) }
  | none => .error .assertion

/-- A call of a member function. -/
def call (s : LogStore) : LogCall → Exec LogStore
  | .append l => s.append_unlocked l
  | .flush flushing => s.flush flushing

/-- Some calls, one after the other. -/
def run (s : LogStore) (calls : List LogCall) : Exec LogStore := calls.foldlM call s

/-- What the files hold, oldest first, with the bytes that are still in the buffer. -/
def contents (s : LogStore) : List (List UInt8) := s.closed ++ (s.fp_.map Stream.contents).toList

/-- What the kernel has of them. -/
def onDisk (s : LogStore) : List (List UInt8) := s.closed ++ (s.fp_.map Stream.kernel).toList

/-! ## The steps without the bytes -/

theorem log_rollFile (s : LogStore) (now : Int) (host : Host) (flushing : Flushing) :
    (s.rollFile now host flushing).log = s.log.rollFile now host := by
  by_cases hlater : now > s.log.lastRoll_
  · rw [rollFile, if_pos hlater]
  · rw [rollFile, if_neg hlater, LogFile.rollFile, if_neg hlater]

theorem log_checkRoll (s : LogStore) (file : File) (c : AppendCall) (flushing : Flushing) :
    (s.checkRoll file c flushing).log = s.log.checkRoll file c := by
  simp only [checkRoll, LogFile.checkRoll]
  split_ifs <;> first | exact log_rollFile _ _ _ _ | rfl

/-! ## The invariant -/

/-- The files hold `written`, a piece for each line: the pieces are cut into one block for each
file that was replaced and one for the open file. -/
structure Holds (s : LogStore) (written : List (List UInt8)) : Prop where
  count : s.closed.length = s.log.replaced.length
  blocks : ∃ (fp : Stream) (blocks : List (List (List UInt8))) (last : List (List UInt8)),
    s.fp_ = some fp ∧ fp.Fits File.kBufferSize ∧ s.closed = blocks.map List.flatten ∧
      fp.contents = last.flatten ∧ written = blocks.flatten ++ last

section Step

variable {s : LogStore} {written : List (List UInt8)} {file : File}

theorem Holds.counters (h : s.Holds written) (log : LogFile)
    (hlog : log.replaced = s.log.replaced) : Holds { s with log := log } written :=
  ⟨h.count.trans (congrArg List.length hlog.symm), h.blocks⟩

/-- What is left of the pieces in the open file. -/
theorem exists_left {l : List UInt8} {last : List (List UInt8)} {kept : Prop}
    (h : l.Sublist last.flatten) (hkept : kept → l = last.flatten)
    (blocks : List (List (List UInt8))) :
    ∃ last', l = last'.flatten ∧ LeftOf kept (blocks.flatten ++ last')
      (blocks.flatten ++ last) := by
  obtain ⟨last', hl, hleft⟩ := LeftOf.of_flatten h hkept
  exact ⟨last', hl, (LeftOf.refl kept _).append hleft⟩

/-- An `fflush` may lose bytes of the open file. -/
theorem Holds.fflush (h : s.Holds written) (log : LogFile) (hlog : log.replaced = s.log.replaced)
    (flushing : Flushing) : ∃ written',
      Holds { s with log := log, fp_ := s.fp_.map fun fp => fp.fflush flushing } written' ∧
      LeftOf (flushing = .done) written' written := by
  obtain ⟨fp, blocks, last, hfp, hfits, hclosed, hlast, rfl⟩ := h.blocks
  obtain ⟨last', hlast', hleft⟩ := @exists_left _ last (flushing = .done)
    (hlast ▸ fp.contents_fflush_sublist flushing) (fun hdone => by rw [hdone, ← hlast]; simp) blocks
  refine ⟨_, ⟨h.count.trans (congrArg List.length hlog.symm), fp.fflush flushing, blocks, last', ?_,
    hfits.fflush flushing, hclosed, hlast', rfl⟩, hleft⟩
  simp only [hfp, Option.map_some]

/-- The block of the file that is closed is complete; that of the new file is empty. -/
theorem Holds.rollFile (h : s.Holds written) (hfile : s.log.file_ = some file) (now : Int)
    (host : Host) (flushing : Flushing) : ∃ written',
      (s.rollFile now host flushing).Holds written' ∧
      LeftOf (flushing = .done) written' written := by
  by_cases hlater : now > s.log.lastRoll_
  · obtain ⟨fp, blocks, last, hfp, -, hclosed, hlast, rfl⟩ := h.blocks
    obtain ⟨last', hlast', hleft⟩ := @exists_left _ last (flushing = .done)
      (hlast ▸ fp.fclose_sublist flushing) (fun hdone => by rw [hdone, ← hlast]; simp) blocks
    rw [LogStore.rollFile, if_pos hlater]
    refine ⟨_, ⟨?_, .opened, blocks ++ [last'], [], rfl, Nat.zero_le _, ?_, rfl, ?_⟩, hleft⟩
    · rw [LogFile.rollFile, if_pos hlater, hfp, hfile]
      simp [h.count]
    · rw [hclosed, hfp, List.map_append]
      simp [hlast']
    · rw [List.flatten_append, List.flatten_singleton, List.append_nil]
  · rw [LogStore.rollFile, if_neg hlater]
    exact ⟨written, h, .refl _ _⟩

theorem Holds.checkRoll (h : s.Holds written) (hfile : s.log.file_ = some file) (c : AppendCall)
    (flushing : Flushing) : ∃ written', (s.checkRoll file c flushing).Holds written' ∧
      LeftOf (flushing = .done) written' written := by
  simp only [LogStore.checkRoll]
  split_ifs
  · exact h.rollFile hfile _ _ _
  · exact (h.counters { s.log with count_ := 0 } rfl).rollFile hfile _ _ _
  · exact h.fflush { s.log with count_ := 0, lastFlush_ := c.now } rfl flushing
  · exact ⟨written, h.counters _ rfl, .refl _ _⟩
  · exact ⟨written, h.counters _ rfl, .refl _ _⟩

/-- What `fwrite_unlocked` takes of a line: its beginning, and all of it if no call but the first
takes nothing. -/
def TakenOf (l : LineCall) (taken : List UInt8) : Prop :=
  taken <+: l.logline ∧ (File.Progress l.transfers → taken = l.logline)

/-- The line is added to the block of the open file, before the file is replaced. -/
theorem Holds.append_unlocked (h : s.Holds written) (hfile : s.log.file_ = some file)
    (l : LineCall) : ∃ s' taken written', s.append_unlocked l = .ok s' ∧
      s.log.append_unlocked l.toAppendCall = .ok s'.log ∧ s'.Holds written' ∧ TakenOf l taken ∧
      LeftOf (LogCall.append l).Kept written' (written ++ [taken]) := by
  obtain ⟨fp, blocks, last, hfp, -, hclosed, hlast, rfl⟩ := h.blocks
  obtain ⟨fp', rest, hwrite⟩ : ∃ fp' rest, File.write fp l.logline l.transfers = (fp', rest) :=
    ⟨_, _, rfl⟩
  obtain ⟨taken, hline, hsome, hwhole, hfits, hall⟩ := File.write_spec hwrite
  have hflatten : (last ++ [taken]).flatten = fp.contents ++ taken := by
    rw [List.flatten_append, List.flatten_singleton, hlast]
  obtain ⟨last', hlast', hleft⟩ := @exists_left _ (last ++ [taken]) (File.Kept l.transfers)
    (hflatten ▸ hsome) (fun hkept => (hwhole hkept).trans hflatten.symm) blocks
  have hholds : Holds { s with
      log := { s.log with file_ := some (file.append l.len l.time) }
      fp_ := some fp' } (blocks.flatten ++ last') :=
    ⟨h.count, _, blocks, last', rfl, hfits, hclosed, hlast', rfl⟩
  obtain ⟨written', hholds', hleft'⟩ := hholds.checkRoll rfl l.toAppendCall l.flushing
  refine ⟨_, taken, written', ?_, ?_, hholds', ⟨⟨_, hline.symm⟩, ?_⟩, ?_⟩
  · simp only [LogStore.append_unlocked, hfile, hfp, hwrite]
  · rw [LogFile.append_unlocked, hfile, log_checkRoll]
  · intro hprogress
    rw [hall hprogress, List.append_nil] at hline
    exact hline.symm
  · rw [List.append_assoc]
    exact (hleft'.trans hleft).imp fun hkept => ⟨hkept.2, hkept.1⟩

theorem Holds.flush (h : s.Holds written) (flushing : Flushing) :
    ∃ s' written', s.flush flushing = .ok s' ∧ s'.log = s.log ∧ s'.Holds written' ∧
      LeftOf (flushing = .done) written' written := by
  obtain ⟨fp, -, -, hfp, -⟩ := h.blocks
  obtain ⟨written', hholds, hleft⟩ := h.fflush s.log rfl flushing
  refine ⟨{ s with fp_ := s.fp_.map fun fp => fp.fflush flushing }, written', ?_, rfl,
    hholds, hleft⟩
  simp only [LogStore.flush, hfp, Option.map_some]

/-- Behind a `flush` that succeeds the kernel has everything. -/
theorem onDisk_of_flush {s' : LogStore} (h : s.flush .done = .ok s') :
    s'.onDisk = s'.contents := by
  rw [LogStore.flush] at h
  split at h
  · cases h
    simp [onDisk, contents, Stream.fflush, Stream.contents]
  · exact absurd h (by simp)

end Step

/-! ## Every run -/

/-- The lines of some calls. -/
def lines : List LogCall → List LineCall
  | [] => []
  | .append l :: calls => l :: lines calls
  | .flush _ :: calls => lines calls

/-- What is taken of the lines is added to the pieces, and of all of it the files hold what no write
error has lost. -/
theorem Holds.run {s : LogStore} {written : List (List UInt8)} {clock : Int} {file : File}
    (h : s.Holds written) (hinv : LogFile.Inv clock s.log file) {calls : List LogCall}
    (hclock : ClockRuns clock ((lines calls).map LineCall.toAppendCall)) {limit : Int}
    (hnow : clock < limit) (hlimit : ∀ l ∈ lines calls, l.rollNow < limit) :
    ∃ s' clock' file' written' taken, s.run calls = .ok s' ∧ LogFile.Inv clock' s'.log file' ∧
      clock' < limit ∧ s'.Holds written' ∧ List.Forall₂ TakenOf (lines calls) taken ∧
      LeftOf (∀ c ∈ calls, c.Kept) written' (written ++ taken) := by
  induction calls generalizing clock s file written with
  | nil =>
      refine ⟨s, clock, file, written, [], rfl, hinv, hnow, h, .nil, ?_⟩
      rw [List.append_nil]
      exact .refl _ _
  | cons call calls ih =>
      have hkept : (∀ c ∈ call :: calls, c.Kept) → (∀ c ∈ calls, c.Kept) ∧ call.Kept := fun h =>
        ⟨fun c hc => h c (List.mem_cons_of_mem _ hc), h call List.mem_cons_self⟩
      cases call with
      | append l =>
          obtain ⟨htime, hclocked, hroll, hclock⟩ := hclock
          obtain ⟨s₁, first, written₁, happend, hlog, hholds, hfirst, hleft⟩ :=
            h.append_unlocked hinv.current l
          obtain ⟨log, file₁, happend', hinv₁⟩ := hinv.append_unlocked htime hclocked hroll
          obtain rfl : s₁.log = log := Except.ok.inj (hlog.symm.trans happend')
          obtain ⟨s', clock', file', written', taken, hrun, hinv', hbelow, hholds', htaken,
            hleft'⟩ :=
            ih hholds hinv₁ hclock (hlimit l List.mem_cons_self)
              fun l' hl' => hlimit l' (List.mem_cons_of_mem _ hl')
          refine ⟨s', clock', file', written', first :: taken, ?_, hinv', hbelow, hholds',
            .cons hfirst htaken, ?_⟩
          · rw [LogStore.run, List.foldlM_cons, LogStore.call, happend]
            exact hrun
          · rw [List.append_cons]
            exact (hleft'.trans (hleft.append (.refl _ _))).imp hkept
      | flush flushing =>
          obtain ⟨s₁, written₁, hflush, hlog, hholds, hleft⟩ := h.flush flushing
          obtain ⟨s', clock', file', written', taken, hrun, hinv', hbelow, hholds', htaken,
            hleft'⟩ :=
            ih hholds (hlog ▸ hinv) hclock hnow hlimit
          refine ⟨s', clock', file', written', taken, ?_, hinv', hbelow, hholds', htaken,
            (hleft'.trans (hleft.append (.refl _ _))).imp hkept⟩
          rw [LogStore.run, List.foldlM_cons, LogStore.call, hflush]
          exact hrun

theorem new_holds {basename : List UInt8} {now : Int} (hname : 47 ∉ basename) (hpos : 0 < now)
    (rollSize : Nat) (flushInterval : Int) (host : Host) :
    ∃ s file, new basename rollSize flushInterval now host = .ok s ∧
      LogFile.Inv now s.log file ∧ s.Holds [] := by
  obtain ⟨log, file, hnew, hinv⟩ := LogFile.new_inv hname hpos rollSize flushInterval host
  rw [LogFile.new, assertThat_of hname] at hnew
  refine ⟨rollFile ⟨⟨basename, rollSize, flushInterval, 0, 0, 0, 0, none, []⟩, none, []⟩ now
    host .done,
    file, ?_, ?_, ?_⟩
  · rw [new, assertThat_of hname]
    rfl
  · rw [log_rollFile]
    exact Except.ok.inj hnew ▸ hinv
  · rw [rollFile, if_pos hpos]
    refine ⟨?_, .opened, [], [], rfl, Nat.zero_le _, rfl, rfl, rfl⟩
    rw [LogFile.rollFile, if_pos hpos]
    rfl

/-- The names of the files are in the order in which the files were opened. -/
theorem names_increase {log : LogFile} {clock : Int} {file : File} (h : LogFile.Inv clock log file)
    (hclock : clock < 253402300800) : (log.files.map File.filename).Pairwise (· < ·) := by
  have hopened : ∀ f ∈ log.files, f.opened ≤ log.lastRoll_ := by
    have horder := h.order
    rw [LogFile.files, h.current, Option.toList_some, List.map_append,
      List.pairwise_append] at horder
    rw [LogFile.files, h.current, Option.toList_some]
    intro f hf
    rcases List.mem_append.mp hf with hold | hnew
    · rw [← h.opened]
      exact Int.le_of_lt (horder.2.2 _ (List.mem_map_of_mem hold) _ List.mem_cons_self)
    · rw [List.mem_singleton.mp hnew, h.opened]
  have hpast := h.past
  have horder := h.order
  rw [List.pairwise_map] at horder ⊢
  refine horder.imp_of_mem ?_
  intro f f' hf hf' hlt
  obtain ⟨hpos, host, hname⟩ := h.names f hf
  obtain ⟨-, host', hname'⟩ := h.names f' hf'
  have hlast := hopened f' hf'
  rw [hname, hname']
  exact getLogFileName_lt (by omega) hlt (by omega)

end LogStore

/-- What the log files hold.  In every run of `append_unlocked` and `flush`, under a clock that
is positive, never goes backwards and has not reached the year 10000, and however each call of
`fwrite_unlocked`, `fflush` and `fclose` turns out: the lines are cut into one block for each
file, so that none is split between two.  Of each line `fwrite_unlocked` takes its beginning,
and all of it if no call but the first takes nothing; of the bytes taken the files hold some,
in order, and all of them if no call comes with a write error.  At most 65536 bytes at the end
are not in the kernel yet, and none behind a `flush` that succeeds; and the files, listed in
any way that is sorted by name, are in the order of the lines. -/
theorem log_files_hold_the_log {basename : List UInt8} (hname : 47 ∉ basename) (rollSize : Nat)
    (flushInterval : Int) {now : Int} (hpos : 0 < now) (host : Host) {calls : List LogCall}
    (hclock : ClockRuns now ((LogStore.lines calls).map LineCall.toAppendCall))
    (hnow : now < 253402300800) (hlimit : ∀ l ∈ LogStore.lines calls, l.rollNow < 253402300800) :
    ∃ (s₀ s : LogStore) (blocks : List (List (List UInt8))) (taken : List (List UInt8)),
      LogStore.new basename rollSize flushInterval now host = .ok s₀ ∧
      s₀.run calls = .ok s ∧ s.contents = blocks.map List.flatten ∧
      List.Forall₂ LogStore.TakenOf (LogStore.lines calls) taken ∧
      List.Forall₂ List.Sublist blocks.flatten taken ∧
      ((∀ c ∈ calls, c.Kept) → blocks.flatten = taken) ∧
      (∃ unflushed, unflushed.length ≤ 65536 ∧
        s.contents.flatten = s.onDisk.flatten ++ unflushed) ∧
      (∀ before, calls = before ++ [.flush .done] → s.onDisk = s.contents) ∧
      s.contents.length = s.log.files.length ∧
      ∀ listing : List (List UInt8 × List UInt8),
        listing.Perm ((s.log.files.map File.filename).zip s.contents) →
        (listing.Pairwise fun a b => ¬ b.1 < a.1) → listing.map Prod.snd = s.contents := by
  obtain ⟨s₀, file₀, hnew, hinv₀, hholds₀⟩ :=
    LogStore.new_holds hname hpos rollSize flushInterval host
  obtain ⟨s, clock, file, written, taken, hrun, hinv, hbelow, hholds, htaken, hleft⟩ :=
    hholds₀.run hinv₀ hclock hnow hlimit
  obtain ⟨fp, blocks, last, hfp, hfits, hclosed, hlast, rfl⟩ := hholds.blocks
  have hcontents : s.contents = (blocks ++ [last]).map List.flatten := by
    rw [LogStore.contents, hfp, hclosed, List.map_append]
    simp [hlast]
  have hlength : s.contents.length = s.log.files.length := by
    rw [LogStore.contents, LogFile.files, hfp, hinv.current]
    simp [hholds.count]
  have hflatten : (blocks ++ [last]).flatten = blocks.flatten ++ last := by
    rw [List.flatten_append, List.flatten_singleton]
  refine ⟨s₀, s, blocks ++ [last], taken, hnew, hrun, hcontents, htaken, hflatten ▸ hleft.sublists,
    fun hkept => hflatten.trans (hleft.all hkept), ⟨fp.buffer, hfits, ?_⟩, ?_, hlength, ?_⟩
  · rw [LogStore.contents, LogStore.onDisk, hfp]
    simp [Stream.contents]
  · rintro before rfl
    rw [LogStore.run, List.foldlM_append] at hrun
    obtain ⟨s₁, -, hflush⟩ := bind_eq_ok_iff.mp hrun
    rw [List.foldlM_cons, LogStore.call] at hflush
    cases hlast : s₁.flush .done with
    | error e =>
        rw [hlast] at hflush
        exact absurd hflush (by simp)
    | ok s₂ =>
        rw [hlast] at hflush
        obtain rfl : s₂ = s := Except.ok.inj hflush
        exact LogStore.onDisk_of_flush hlast
  · intro listing hperm hsorted
    have hzip : (s.log.files.map File.filename).length ≤ s.contents.length := by
      rw [List.length_map, hlength]
    have hnames := LogStore.names_increase hinv hbelow
    rw [← List.map_fst_zip hzip, List.pairwise_map] at hnames
    rw [sorted_listing hperm hsorted hnames, List.map_snd_zip (by rw [List.length_map, hlength])]

/-- A line that makes the file roll, written in two parts, and one behind it of which a failing
`fflush` loses a byte. -/
theorem log_files_hold_the_log_roll :
    ∃ (s₀ s : LogStore) (blocks : List (List (List UInt8))),
      LogStore.new (ascii "test") 2 3 100 ⟨ascii "host", 7⟩ = .ok s₀ ∧
      s₀.run [.append ⟨⟨3, 101, 101, 101, ⟨ascii "host", 7⟩⟩, [97, 98, 99], [⟨1, 0, 0⟩, ⟨2, 0, 0⟩],
          .done, rfl⟩,
        .append ⟨⟨2, 102, 102, 102, ⟨ascii "host", 7⟩⟩, [100, 101], [], .done, rfl⟩,
        .flush (.failed 0 1), .flush .done] = .ok s ∧
      s.contents = blocks.map List.flatten ∧ s.contents = [[97, 98, 99], [101]] ∧
      s.onDisk = s.contents := by
  obtain ⟨s₀, s, blocks, -, hnew, hrun, hblocks, -, -, -, -, hflush, -⟩ :=
    @log_files_hold_the_log (ascii "test") (by decide) 2 3 100 (by decide) ⟨ascii "host", 7⟩
      [.append ⟨⟨3, 101, 101, 101, ⟨ascii "host", 7⟩⟩, [97, 98, 99], [⟨1, 0, 0⟩, ⟨2, 0, 0⟩],
          .done, rfl⟩,
        .append ⟨⟨2, 102, 102, 102, ⟨ascii "host", 7⟩⟩, [100, 101], [], .done, rfl⟩,
        .flush (.failed 0 1), .flush .done]
      ⟨by decide, by decide, by decide, by decide, by decide, by decide, trivial⟩ (by decide)
      (by decide)
  refine ⟨s₀, s, blocks, hnew, hrun, hblocks, ?_, hflush [_, _, _] rfl⟩
  obtain rfl := Except.ok.inj hnew
  obtain rfl := Except.ok.inj hrun
  decide

end Muduo.Base
