/-
  Base/LogFile.lean --- `LogFile` (src/muduo/base/LogFile.h, LogFile.cc): when a log file is
  replaced by the next one.

  A call of `append_unlocked` comes with the readings of the clock that it may take: when the line
  is appended, in the check of the day, and in `getLogFileName`.  The files that were replaced
  stay in the state, with the second each was opened at and the times of its lines, which the
  code does not keep.

  `Inv` carries the bound on the lines of a day that has ended: from the end of the day on every
  line is counted by `count_` until the file is replaced.
-/
import Muduo.Foundation.Digits
import Muduo.Foundation.Exec
import Muduo.Base.UtcTime

set_option autoImplicit false

namespace Muduo.Base

open Muduo.Foundation

/-! ## File names -/

/-- What `ProcessInfo::hostname` and `ProcessInfo::pid` return. -/
structure Host where
  hostname : List UInt8
  pid : Int
  deriving DecidableEq, Repr

/-- `"%Y%m%d"`. -/
def dateText (tm : Tm) : List UInt8 :=
  decimalText (tm.tm_year + 1900) ++ (zeroPadded 2 (tm.tm_mon + 1) ++ zeroPadded 2 tm.tm_mday)

/-- `"%H%M%S"`. -/
def clockText (tm : Tm) : List UInt8 :=
  zeroPadded 2 tm.tm_hour ++ (zeroPadded 2 tm.tm_min ++ zeroPadded 2 tm.tm_sec)

/-- The name that `getLogFileName` makes for the time `now`. -/
def getLogFileName (basename : List UInt8) (now : Int) (host : Host) : List UInt8 :=
  basename ++ ([46] ++ (dateText (gmtime now) ++ ([45] ++ (clockText (gmtime now) ++ ([46] ++
    (host.hostname ++ ([46] ++ decimalText host.pid ++ ascii ".log")))))))

section Names

variable {a b : Tm}

theorem length_clockText {tm : Tm} (h : tm.ValidTime) : (clockText tm).length = 6 := by
  obtain ⟨hsec, hmin, hhour⟩ := h
  rw [clockText, List.length_append, List.length_append,
    length_zeroPadded (by decide) hhour.1 (by omega),
      length_zeroPadded (by decide) hmin.1 (by omega),
    length_zeroPadded (by decide) hsec.1 (by omega)]

theorem clockText_injective (ha : a.ValidTime) (hb : b.ValidTime)
    (h : clockText a = clockText b) :
    a.tm_hour = b.tm_hour ∧ a.tm_min = b.tm_min ∧ a.tm_sec = b.tm_sec := by
  obtain ⟨hsec, hmin, hhour⟩ := ha
  obtain ⟨hsec', hmin', hhour'⟩ := hb
  have htwo : ∀ {v : Int}, 0 ≤ v → v ≤ 59 → (zeroPadded 2 v).length = 2 :=
    fun hv hv' => length_zeroPadded (by decide) hv (by omega)
  obtain ⟨hhours, h⟩ := List.append_inj h
    (by rw [htwo hhour.1 (by omega), htwo hhour'.1 (by omega)])
  obtain ⟨hmins, hsecs⟩ := List.append_inj h (by rw [htwo hmin.1 hmin.2, htwo hmin'.1 hmin'.2])
  exact ⟨zeroPadded_injective hhour.1 hhour'.1 hhours, zeroPadded_injective hmin.1 hmin'.1 hmins,
    zeroPadded_injective hsec.1 hsec'.1 hsecs⟩

/-- The day and the month have two digits each, whatever the year has. -/
theorem dateText_injective (ha : a.date.Valid) (hb : b.date.Valid)
    (h : dateText a = dateText b) : a.date = b.date := by
  obtain ⟨hmonth, hday, hlast⟩ := ha
  obtain ⟨hmonth', hday', hlast'⟩ := hb
  have hdays := Int.le_trans hlast (daysInMonth_le a.date.year a.date.month).1
  have hdays' := Int.le_trans hlast' (daysInMonth_le b.date.year b.date.month).1
  simp only [Tm.date] at hmonth hmonth' hday hday' hdays hdays'
  have htwo : ∀ {v : Int}, 1 ≤ v → v ≤ 31 → (zeroPadded 2 v).length = 2 :=
    fun hv hv' => length_zeroPadded (by decide) (by omega) (by omega)
  have hmonLength : (zeroPadded 2 (a.tm_mon + 1)).length =
    (zeroPadded 2 (b.tm_mon + 1)).length := by
    rw [htwo hmonth.1 (by omega), htwo hmonth'.1 (by omega)]
  have hdayLength : (zeroPadded 2 a.tm_mday).length = (zeroPadded 2 b.tm_mday).length := by
    rw [htwo hday hdays, htwo hday' hdays']
  obtain ⟨hyears, h⟩ := List.append_inj' h (by
    rw [List.length_append, List.length_append, hmonLength, hdayLength])
  obtain ⟨hmons, hmdays⟩ := List.append_inj h hmonLength
  have hyear := readDecimal_decimalText (a.tm_year + 1900)
  rw [hyears, readDecimal_decimalText, Option.some.injEq] at hyear
  have hmon := zeroPadded_injective (by omega) (by omega) hmons
  have hmday := zeroPadded_injective (by omega) (by omega) hmdays
  rw [Tm.date, Tm.date, ← hyear, hmon, hmday]

theorem dash_not_mem_dateText {tm : Tm} (hyear : 0 ≤ tm.date.year) (h : tm.date.Valid) :
    45 ∉ dateText tm := by
  obtain ⟨hmonth, hday, -⟩ := h
  intro hdash
  rw [dateText, List.mem_append, List.mem_append,
    decimalText_of_nonneg (show 0 ≤ tm.tm_year + 1900 from hyear)] at hdash
  rcases hdash with hdash | hdash | hdash
  · exact absurd (digit_of_mem hdash).1 (by decide)
  · exact absurd (digit_of_mem_zeroPadded (Int.le_trans (by decide) hmonth.1) hdash).1 (by decide)
  · exact absurd (digit_of_mem_zeroPadded (Int.le_trans (by decide) hday) hdash).1 (by decide)

/-- Files that are opened at different seconds have different names, on whatever host. -/
theorem getLogFileName_injective {basename : List UInt8} {now now' : Int} {host host' : Host}
    (hpos : 0 ≤ now) (hpos' : 0 ≤ now')
    (h : getLogFileName basename now host = getLogFileName basename now' host') : now = now' := by
  have hutc := gmtime_isUtc now
  have hutc' := gmtime_isUtc now'
  have hdash := dash_not_mem_dateText (Int.le_trans (by decide) (gmtime_year_ge hpos)) hutc.valid
  have hdash' := dash_not_mem_dateText (Int.le_trans (by decide) (gmtime_year_ge hpos')) hutc'.valid
  have hbehind := List.append_cancel_left (List.append_cancel_left h)
  obtain ⟨hdate, hrest⟩ := append_cons_cancel hdash hdash' hbehind
  have hlength : (clockText (gmtime now)).length = (clockText (gmtime now')).length := by
    rw [length_clockText hutc.time, length_clockText hutc'.time]
  have hclock : clockText (gmtime now) = clockText (gmtime now') :=
    List.append_inj_left
      (show clockText (gmtime now) ++ _ = clockText (gmtime now') ++ _ from hrest)
      hlength
  have hday := dateText_injective hutc.valid hutc'.valid hdate
  obtain ⟨hhour, hmin, hsec⟩ := clockText_injective hutc.time hutc'.time hclock
  rw [← timegm_gmtime now, ← timegm_gmtime now', timegm_of_month hutc.valid.1,
    timegm_of_month hutc'.valid.1, hday, Tm.secondOfDay, Tm.secondOfDay, hhour, hmin, hsec]

end Names

/-! ## `class LogFile` -/

/-- `LogFile::File`; when it was opened, and when each line was appended to it. -/
structure File where
  filename : List UInt8
  writtenBytes_ : Nat
  opened : Int
  appended : List Int
  deriving DecidableEq, Repr

namespace File

/-- `File(filename)`, opened at a time. -/
def new (filename : List UInt8) (now : Int) : File := ⟨filename, 0, now, []⟩

/-- `append(logline, len)`; `writtenBytes_` counts the line whether all of it was written or not. -/
def append (f : File) (len : Nat) (time : Int) : File :=
  { f with
    writtenBytes_ := (f.writtenBytes_ + len) % 2 ^ 64
    appended := f.appended ++ [time] }

/-- The end of the UTC day the file was opened in. -/
def endOfDay (f : File) : Int := f.opened / 86400 * 86400 + 86400

/-- The lines that were appended after that day. -/
def late (f : File) : List Int := f.appended.filter fun time => f.endOfDay ≤ time

end File

/-- `class LogFile`, with the files that were replaced. -/
structure LogFile where
  basename_ : List UInt8
  rollSize_ : Nat
  flushInterval_ : Int
  count_ : Nat
  startOfPeriod_ : Int
  lastRoll_ : Int
  lastFlush_ : Int
  file_ : Option File
  /-- the files that were replaced, oldest first -/
  replaced : List File
  deriving DecidableEq, Repr

/-- A call of `append_unlocked`: the length of the line, the clock while it runs, and the host. -/
structure AppendCall where
  len : Nat
  /-- when the line is appended -/
  time : Int
  /-- `time(NULL)` in `append_unlocked` -/
  now : Int
  /-- `time(NULL)` in `getLogFileName` -/
  rollNow : Int
  host : Host
  deriving DecidableEq, Repr

namespace LogFile

/-- `kCheckTimeRoll_`. -/
def kCheckTimeRoll_ : Nat := 1024

/-- `kRollPerSeconds_`: a day. -/
def kRollPerSeconds_ : Int := 60 * 60 * 24

/-- `rollFile()`. -/
def rollFile (s : LogFile) (now : Int) (host : Host) : LogFile :=
  let filename := getLogFileName s.basename_ now host
  let start := now.tdiv kRollPerSeconds_ * kRollPerSeconds_
  if now > s.lastRoll_ then
    { s with
      lastRoll_ := now
      lastFlush_ := now
      startOfPeriod_ := start
      file_ := some (File.new filename now)
      replaced := s.replaced ++ s.file_.toList }
  else s

/-- The constructor, which opens the first file. -/
def new (basename : List UInt8) (rollSize : Nat) (flushInterval : Int) (now : Int) (host : Host) :
    Exec LogFile := do
  assertThat (47 ∉ basename)
  return rollFile ⟨basename, rollSize, flushInterval, 0, 0, 0, 0, none, []⟩ now host

/-- `append_unlocked`, when `file_` has taken the line. -/
def checkRoll (s : LogFile) (file : File) (c : AppendCall) : LogFile :=
  if file.writtenBytes_ > s.rollSize_ then s.rollFile c.rollNow c.host
  else if s.count_ > kCheckTimeRoll_ then
    let s := { s with count_ := 0 }
    let thisPeriod_ := c.now.tdiv kRollPerSeconds_ * kRollPerSeconds_
    if thisPeriod_ ≠ s.startOfPeriod_ then s.rollFile c.rollNow c.host
    -- `file_->flush()` changes nothing that is kept here
    else if c.now - s.lastFlush_ > s.flushInterval_ then { s with lastFlush_ := c.now }
    else s
  else { s with count_ := s.count_ + 1 }

/-- `scoped_ptr` asserts that there is a file. -/
def append_unlocked (s : LogFile) (c : AppendCall) : Exec LogFile :=
  match s.file_ with
  | none => .error .assertion
  | some file =>
      let file := file.append c.len c.time
      .ok ({ s with file_ := some file }.checkRoll file c)

/-- Some calls of `append_unlocked`, one after the other. -/
def run (s : LogFile) (calls : List AppendCall) : Exec LogFile := calls.foldlM append_unlocked s

/-- All files, in the order they were opened. -/
def files (s : LogFile) : List File := s.replaced ++ s.file_.toList

end LogFile

/-- The clock never goes backwards. -/
def ClockRuns : Int → List AppendCall → Prop
  | _, [] => True
  | clock, c :: calls =>
      clock ≤ c.time ∧ c.time ≤ c.now ∧ c.now ≤ c.rollNow ∧ ClockRuns c.rollNow calls

/-! ## The invariant -/

namespace LogFile

/-- What holds when the clock shows `clock`.  Since the day of the file has ended, every line was
counted. -/
structure Inv (clock : Int) (s : LogFile) (file : File) : Prop where
  current : s.file_ = some file
  opened : file.opened = s.lastRoll_
  positive : 0 < s.lastRoll_
  past : s.lastRoll_ ≤ clock
  period : s.startOfPeriod_ = s.lastRoll_ / 86400 * 86400
  count : s.count_ ≤ kCheckTimeRoll_ + 1
  appended : ∀ time ∈ file.appended, time ≤ clock
  late : file.late.length ≤ s.count_
  replacedLate : ∀ f ∈ s.replaced, f.late.length ≤ kCheckTimeRoll_ + 2
  order : (s.files.map File.opened).Pairwise (· < ·)
  names : ∀ f ∈ s.files, 0 < f.opened ∧
    ∃ host, f.filename = getLogFileName s.basename_ f.opened host

end LogFile

theorem File.late_append_of_lt {f : File} {clock time : Int} {len : Nat}
    (happended : ∀ t ∈ f.appended, t ≤ clock) (hclock : clock ≤ time) (hlt : time < f.endOfDay) :
    (f.append len time).late = [] := by
  rw [late, List.filter_eq_nil_iff]
  intro t ht
  rw [decide_eq_true_eq, Int.not_le]
  rcases List.mem_append.mp ht with hbefore | hnow
  · exact Int.lt_of_le_of_lt (Int.le_trans (happended t hbefore) hclock) hlt
  · rw [List.mem_singleton.mp hnow]
    exact hlt

theorem File.length_late_append_le (f : File) (len : Nat) (time : Int) :
    (f.append len time).late.length ≤ f.late.length + 1 := by
  change ((f.appended ++ [time]).filter _).length ≤ _
  rw [List.filter_append, List.length_append]
  exact Nat.add_le_add_left (List.length_filter_le _ _) _

namespace LogFile

section Step

variable {clock : Int} {s : LogFile} {file : File} {c : AppendCall}

theorem period_eq {now : Int} (h : 0 ≤ now) :
    now.tdiv kRollPerSeconds_ * kRollPerSeconds_ = now / 86400 * 86400 := by
  rw [Int.tdiv_eq_ediv_of_nonneg h]
  rfl

theorem Inv.order_append (h : Inv clock s file) (len : Nat) (time : Int) :
    ((s.replaced ++ [file.append len time]).map File.opened).Pairwise (· < ·) := by
  have horder := h.order
  rw [files, h.current, Option.toList_some, List.map_append] at horder
  rw [List.map_append]
  exact horder

theorem Inv.names_append (h : Inv clock s file) (len : Nat) (time : Int) :
    ∀ f ∈ s.replaced ++ [file.append len time], 0 < f.opened ∧
      ∃ host, f.filename = getLogFileName s.basename_ f.opened host := by
  have hnames := h.names
  rw [files, h.current, Option.toList_some] at hnames
  intro f hf
  rcases List.mem_append.mp hf with hold | hnew
  · exact hnames f (List.mem_append_left _ hold)
  · rw [List.mem_singleton.mp hnew]
    exact hnames file (List.mem_append_right _ (List.mem_singleton.mpr rfl))

/-- Every file was opened before the clock showed a later second than the last roll. -/
theorem Inv.opened_le (h : Inv clock s file) (len : Nat) (time : Int) :
    ∀ f ∈ s.replaced ++ [file.append len time], f.opened ≤ s.lastRoll_ := by
  have horder := h.order_append len time
  rw [List.map_append, List.pairwise_append] at horder
  intro f hf
  rcases List.mem_append.mp hf with hold | hnew
  · have hlt := horder.2.2 f.opened (List.mem_map_of_mem hold) file.opened List.mem_cons_self
    rw [← h.opened]
    exact Int.le_of_lt hlt
  · rw [List.mem_singleton.mp hnew]
    exact Int.le_of_eq h.opened

/-- The file stays and takes the line. -/
theorem Inv.keep (h : Inv clock s file) (htime : clock ≤ c.time) (hroll : c.time ≤ c.rollNow)
    {count : Nat} {lastFlush : Int} (hcount : count ≤ kCheckTimeRoll_ + 1)
    (hlate : (file.append c.len c.time).late.length ≤ count) :
    Inv c.rollNow { s with
      file_ := some (file.append c.len c.time), count_ := count, lastFlush_ := lastFlush }
      (file.append c.len c.time) where
  current := rfl
  opened := h.opened
  positive := h.positive
  past := Int.le_trans h.past (Int.le_trans htime hroll)
  period := h.period
  count := hcount
  appended := by
    intro t ht
    rcases List.mem_append.mp ht with hbefore | hnow
    · exact Int.le_trans (h.appended t hbefore) (Int.le_trans htime hroll)
    · rw [List.mem_singleton.mp hnow]
      exact hroll
  late := hlate
  replacedLate := h.replacedLate
  order := h.order_append c.len c.time
  names := h.names_append c.len c.time

/-- The file takes the line and is replaced, if the clock shows a later second than the one it was
opened at; a second one in the same second is not opened. -/
theorem Inv.roll (h : Inv clock s file) (htime : clock ≤ c.time) (hroll : c.time ≤ c.rollNow)
    {count : Nat} (hcount : count ≤ kCheckTimeRoll_ + 1) :
    ∃ f, Inv c.rollNow (rollFile { s with
      file_ := some (file.append c.len c.time), count_ := count } c.rollNow c.host) f := by
  have hpositive := h.positive
  by_cases hlater : c.rollNow > s.lastRoll_
  · refine ⟨File.new (getLogFileName s.basename_ c.rollNow c.host) c.rollNow, ?_⟩
    rw [rollFile, if_pos hlater]
    have hlate : (file.append c.len c.time).late.length ≤ kCheckTimeRoll_ + 2 := by
      have hone := file.length_late_append_le c.len c.time
      have hbefore := h.late
      have hmax := h.count
      omega
    exact {
      current := rfl
      opened := rfl
      positive := by
        change 0 < c.rollNow
        omega
      past := Int.le_refl _
      period := period_eq (by omega)
      count := hcount
      appended := fun t ht => absurd ht List.not_mem_nil
      late := Nat.zero_le _
      replacedLate := by
        intro f hf
        rcases List.mem_append.mp hf with hold | hnew
        · exact h.replacedLate f hold
        · rw [List.mem_singleton.mp hnew]
          exact hlate
      order := by
        rw [files, Option.toList_some, Option.toList_some, List.map_append, List.pairwise_append]
        refine ⟨h.order_append c.len c.time, List.pairwise_singleton _ _, ?_⟩
        intro a ha b hb
        obtain ⟨f, hf, rfl⟩ := List.mem_map.mp ha
        rw [List.map_singleton, List.mem_singleton] at hb
        rw [hb]
        exact Int.lt_of_le_of_lt (h.opened_le c.len c.time f hf) hlater
      names := by
        intro f hf
        rcases List.mem_append.mp hf with hold | hnew
        · exact h.names_append c.len c.time f hold
        · rw [Option.toList_some, List.mem_singleton] at hnew
          rw [hnew]
          exact ⟨by change 0 < c.rollNow; omega, c.host, rfl⟩ }
  · refine ⟨file.append c.len c.time, ?_⟩
    rw [rollFile, if_neg hlater]
    have hday : c.time < file.endOfDay := by
      rw [File.endOfDay, h.opened]
      omega
    refine Inv.keep h htime hroll hcount ?_
    rw [File.late_append_of_lt h.appended htime hday]
    exact Nat.zero_le _

/-- One call, whichever way it takes through the two conditions and the counter. -/
theorem Inv.append_unlocked (h : Inv clock s file) (htime : clock ≤ c.time) (hnow : c.time ≤ c.now)
    (hrollNow : c.now ≤ c.rollNow) :
    ∃ s' file', s.append_unlocked c = .ok s' ∧ Inv c.rollNow s' file' := by
  have hroll : c.time ≤ c.rollNow := Int.le_trans hnow hrollNow
  have hpositive := h.positive
  have hpast := h.past
  have hcount := h.count
  have happend : s.append_unlocked c = .ok (checkRoll
      { s with file_ := some (file.append c.len c.time) } (file.append c.len c.time) c) := by
    rw [LogFile.append_unlocked, h.current]
  rw [happend, checkRoll]
  by_cases hsize : (file.append c.len c.time).writtenBytes_ > s.rollSize_
  · rw [if_pos hsize]
    obtain ⟨f, hinv⟩ := h.roll htime hroll hcount
    exact ⟨_, f, rfl, hinv⟩
  rw [if_neg hsize]
  by_cases hcheck : s.count_ > kCheckTimeRoll_
  · rw [if_pos hcheck]
    simp only [period_eq (show 0 ≤ c.now by omega)]
    by_cases hday : c.now / 86400 * 86400 ≠ s.startOfPeriod_
    · rw [if_pos hday]
      obtain ⟨f, hinv⟩ := h.roll htime hroll (Nat.zero_le _)
      exact ⟨_, f, rfl, hinv⟩
    · -- the day has not ended, so no line was late
      have hsame : c.now / 86400 * 86400 = s.lastRoll_ / 86400 * 86400 :=
        (Decidable.not_not.mp hday).trans h.period
      have hnone : (file.append c.len c.time).late.length ≤ 0 := by
        rw [File.late_append_of_lt h.appended htime (by rw [File.endOfDay, h.opened]; omega)]
        exact Nat.le_refl 0
      rw [if_neg hday]
      by_cases hflush : c.now - s.lastFlush_ > s.flushInterval_
      · rw [if_pos hflush]
        exact ⟨_, _, rfl, h.keep htime hroll (Nat.zero_le _) hnone⟩
      · rw [if_neg hflush]
        exact ⟨_, _, rfl, h.keep htime hroll (Nat.zero_le _) hnone⟩
  · rw [if_neg hcheck]
    have hlate : (file.append c.len c.time).late.length ≤ s.count_ + 1 :=
      Nat.le_trans (file.length_late_append_le c.len c.time) (Nat.add_le_add_right h.late 1)
    have hcounted : s.count_ + 1 ≤ kCheckTimeRoll_ + 1 := Nat.succ_le_succ (Nat.not_lt.mp hcheck)
    exact ⟨_, _, rfl, h.keep htime hroll hcounted hlate⟩

/-- Over every run. -/
theorem Inv.run (h : Inv clock s file) {calls : List AppendCall} (hclock : ClockRuns clock calls) :
    ∃ s' clock' file', s.run calls = .ok s' ∧ Inv clock' s' file' := by
  induction calls generalizing clock s file with
  | nil => exact ⟨s, clock, file, rfl, h⟩
  | cons c calls ih =>
      obtain ⟨htime, hnow, hrollNow, hclock⟩ := hclock
      obtain ⟨s₁, file₁, happend, hinv⟩ := h.append_unlocked htime hnow hrollNow
      obtain ⟨s', clock', file', hrun, hinv'⟩ := ih hinv hclock
      refine ⟨s', clock', file', ?_, hinv'⟩
      rw [LogFile.run, List.foldlM_cons, happend]
      exact hrun

end Step

theorem new_inv {basename : List UInt8} {now : Int} (hname : 47 ∉ basename) (hpos : 0 < now)
    (rollSize : Nat) (flushInterval : Int) (host : Host) :
    ∃ s file, new basename rollSize flushInterval now host = .ok s ∧ Inv now s file := by
  have hroll : rollFile ⟨basename, rollSize, flushInterval, 0, 0, 0, 0, none, []⟩ now host =
      ⟨basename, rollSize, flushInterval, 0, now.tdiv kRollPerSeconds_ * kRollPerSeconds_, now, now,
        some (File.new (getLogFileName basename now host) now), []⟩ := if_pos hpos
  refine ⟨rollFile ⟨basename, rollSize, flushInterval, 0, 0, 0, 0, none, []⟩ now host,
    File.new (getLogFileName basename now host) now, ?_, ?_⟩
  · rw [new, assertThat_of hname]
    rfl
  · rw [hroll]
    exact {
      current := rfl
      opened := rfl
      positive := hpos
      past := Int.le_refl now
      period := period_eq (Int.le_of_lt hpos)
      count := Nat.zero_le _
      appended := fun t ht => absurd ht List.not_mem_nil
      late := Nat.le_refl 0
      replacedLate := fun f hf => absurd hf List.not_mem_nil
      order := List.pairwise_singleton _ _
      names := by
        intro f hf
        rw [List.mem_singleton.mp hf]
        exact ⟨hpos, host, rfl⟩ }

theorem Inv.nodup_names {clock : Int} {s : LogFile} {file : File} (h : Inv clock s file) :
    (s.files.map File.filename).Nodup := by
  have hopened : (s.files.map File.opened).Nodup := h.order.imp fun hlt => Int.ne_of_lt hlt
  rw [List.Nodup, List.pairwise_map] at hopened ⊢
  refine hopened.imp_of_mem ?_
  intro f f' hf hf' hne heq
  obtain ⟨hpos, host, hname⟩ := h.names f hf
  obtain ⟨hpos', host', hname'⟩ := h.names f' hf'
  rw [hname, hname'] at heq
  exact hne (getLogFileName_injective (Int.le_of_lt hpos) (Int.le_of_lt hpos') heq)

end LogFile

/-- The discipline of rolling.  In every run of `append_unlocked` under a clock that is positive
and never goes backwards, `startOfPeriod_` is the start of the UTC day of `lastRoll_`, the files
are opened at strictly increasing seconds and have different names, and no file gets more than
1026 lines after the UTC day in which it was opened. -/
theorem log_rolling_discipline {basename : List UInt8} (hname : 47 ∉ basename) (rollSize : Nat)
    (flushInterval : Int) {now : Int} (hpos : 0 < now) (host : Host) {calls : List AppendCall}
    (hclock : ClockRuns now calls) :
    ∃ s₀ s, LogFile.new basename rollSize flushInterval now host = .ok s₀ ∧
      s₀.run calls = .ok s ∧
      s.startOfPeriod_ = s.lastRoll_ / 86400 * 86400 ∧
      (s.files.map File.opened).Pairwise (· < ·) ∧ (s.files.map File.filename).Nodup ∧
      ∀ f ∈ s.files, f.late.length ≤ 1026 := by
  obtain ⟨s₀, file₀, hnew, hinv₀⟩ := LogFile.new_inv hname hpos rollSize flushInterval host
  obtain ⟨s, clock, file, hrun, hinv⟩ := hinv₀.run hclock
  refine ⟨s₀, s, hnew, hrun, hinv.period, hinv.order, hinv.nodup_names, ?_⟩
  have hlate := hinv.late
  have hcount := hinv.count
  unfold LogFile.kCheckTimeRoll_ at hcount
  rw [LogFile.files, hinv.current]
  intro f hf
  rcases List.mem_append.mp hf with hold | hnew
  · exact hinv.replacedLate f hold
  · rw [Option.toList_some, List.mem_singleton] at hnew
    rw [hnew]
    omega

/-- Two lines around a midnight. -/
theorem log_rolling_discipline_midnight :
    ∃ s₀ s, LogFile.new (ascii "test") 1000 3 86390 ⟨ascii "host", 7⟩ = .ok s₀ ∧
      s₀.run [⟨40, 86391, 86391, 86391, ⟨ascii "host", 7⟩⟩,
        ⟨2000, 86410, 86410, 86410, ⟨ascii "host", 7⟩⟩] = .ok s ∧
      s.startOfPeriod_ = s.lastRoll_ / 86400 * 86400 ∧
      (s.files.map File.opened).Pairwise (· < ·) ∧ (s.files.map File.filename).Nodup ∧
      ∀ f ∈ s.files, f.late.length ≤ 1026 :=
  log_rolling_discipline (by decide) 1000 3 (by decide) ⟨ascii "host", 7⟩
    ⟨by decide, by decide, by decide, by decide, by decide, by decide, trivial⟩

end Muduo.Base
