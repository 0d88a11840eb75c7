/-
  Base/Logging.lean --- `Logger` (src/muduo/base/Logging.h, Logging.cc) with the thread id of
  `CurrentThread::cacheTid` and the beginning of a thread (src/muduo/base/Thread.cc).

  A record is what one `Logger` makes: its constructor writes the head, the user streams items,
  and the destructor finishes the line and passes the bytes to the output function.  What a
  thread keeps between its records is `ThreadLocals`; `Coherent` says that the cached texts are
  those of the cached id and second.

  Two hard-coded lengths are not those of every thread and every line.  The id has six
  characters up to 99999 (`record_heads_iff`), and the newline is dropped like everything else
  that does not fit (`record_ends_line_iff`).
-/
import Muduo.Base.LogStream
import Muduo.Base.Timestamp
import Muduo.Base.UtcTime

set_option autoImplicit false

namespace Muduo.Base

open Muduo.Foundation

/-! ## The locals of a thread -/

/-- The thread-local variables of Thread.cc and Logging.cc. -/
structure ThreadLocals where
  t_cachedTid : Int
  t_tidString : List UInt8
  t_time : List UInt8
  t_lastSecond : Int
  deriving DecidableEq, Repr

namespace ThreadLocals

/-- Thread-local variables start as zeros. -/
def initial : ThreadLocals := ⟨0, List.replicate 32 0, List.replicate 32 0, 0⟩

/-- `"%5d "`. -/
def tidText (tid : Int) : List UInt8 := spacePadded 5 tid ++ [32]

/-- `CurrentThread::cacheTid`, where `gettid` returns `tid`. -/
def cacheTid (tid : Int) (t : ThreadLocals) : Exec ThreadLocals :=
  if t.t_cachedTid = 0 then do
    let r ← CharArray.snprintf t.t_tidString 0 32 (tidText tid)
    assertThat (r.2 = 6)
    return { t with t_cachedTid := tid, t_tidString := r.1 }
  else .ok t

/-- `CurrentThread::tid`. -/
def tid (gettid : Int) (t : ThreadLocals) : Exec ThreadLocals :=
  if t.t_cachedTid = 0 then t.cacheTid gettid else .ok t

/-- `detail::afterFork` in the one thread of a forked process, which finds the variables of the
thread that called `fork`. -/
def afterFork (gettid : Int) (t : ThreadLocals) : Exec ThreadLocals :=
  { t with t_cachedTid := 0 }.tid gettid

/-- `"%4d%02d%02d %02d:%02d:%02d"`. -/
def timeText (tm_time : Tm) : List UInt8 :=
  spacePadded 4 (tm_time.tm_year + 1900) ++ zeroPadded 2 (tm_time.tm_mon + 1) ++
    zeroPadded 2 tm_time.tm_mday ++ [32] ++ zeroPadded 2 tm_time.tm_hour ++ [58] ++
    zeroPadded 2 tm_time.tm_min ++ [58] ++ zeroPadded 2 tm_time.tm_sec

/-- The part of `formatTime` that keeps the text of the second. -/
def cacheTime (seconds : Int) (t : ThreadLocals) : Exec ThreadLocals :=
  if seconds ≠ t.t_lastSecond then do
    let r ← CharArray.snprintf t.t_time 0 32 (timeText (gmtime seconds))
    assertThat (r.2 = 17)
    return { t with t_lastSecond := seconds, t_time := r.1 }
  else .ok t

end ThreadLocals

/-- How a thread begins. -/
inductive ThreadStart where
  /-- `runInThread`, and `ThreadNameInitializer` in the main thread -/
  | created
  /-- `afterFork`, with the variables of the thread that called `fork` -/
  | forked (t : ThreadLocals)

/-- The variables of a thread that has begun: its id was asked for, before any record. -/
def ThreadStart.begin (gettid : Int) : ThreadStart → Exec ThreadLocals
  | .created => ThreadLocals.initial.tid gettid
  | .forked t => t.afterFork gettid

/-! ## The helpers of `operator<<` -/

/-- `Fmt`. -/
structure Fmt where
  buf_ : List UInt8
  length_ : Nat
  deriving DecidableEq, Repr

/-- `Fmt(fmt, val)`, where `text` is what the format makes of the value.  What the text does not
overwrite is never read. -/
def Fmt.new (text : List UInt8) : Exec Fmt := do
  let r ← CharArray.snprintf (List.replicate 32 0) 0 32 text
  assertThat (r.2 < 32)
  return ⟨r.1, r.2⟩

/-- `stream << T(str, len)`. -/
def LogStream.putT (s : LogStream) (str : List UInt8) (len : Nat) : Exec LogStream := do
  let n ← CharArray.strlen str
  assertThat (n = len)
  s.appendBytes str len

/-- `".%06dZ "`. -/
def microsecondsText (microseconds : Int) : List UInt8 :=
  [46] ++ zeroPadded 6 microseconds ++ [90, 32]

/-! ## Source files -/

/-- The characters of a file name, in front of the terminating zero. -/
structure FileName where
  bytes : List UInt8
  small : bytes.length < 2 ^ 31

/-- `strrchr(text, c)`, as a position. -/
def strrchr (text : List UInt8) (c : UInt8) : Option Nat :=
  let cString := text.takeWhile (· ≠ 0)
  (cString.reverse.findIdx? (· = c)).map fun i => cString.length - 1 - i

/-- Where `data_` starts: behind the last slash. -/
def afterSlash (filename : List UInt8) : Nat :=
  match strrchr filename 47 with
  | some slash => slash + 1
  | none => 0

/-- `Logger::SourceFile` is a piece of text of a known size. -/
abbrev SourceFile := Piece

theorem afterSlash_le (filename : List UInt8) : afterSlash filename ≤ filename.length := by
  unfold afterSlash
  split
  · rename_i slash hslash
    obtain ⟨i, hi, rfl⟩ := Option.map_eq_some_iff.mp hslash
    have hlt := (List.findIdx?_eq_some_iff_findIdx_eq.mp hi).1
    have hle := (List.takeWhile_prefix (l := filename) (· ≠ 0)).length_le
    rw [List.length_reverse] at hlt
    omega
  · exact Nat.zero_le _

namespace SourceFile

/-- `SourceFile(const char (&arr)[N])`; the size is that of the array. -/
def ofArray (arr : FileName) : SourceFile where
  bytes := arr.bytes.drop (afterSlash arr.bytes)
  size := arr.bytes.length - afterSlash arr.bytes
  isInt := by
    have hsmall := arr.small
    have hle := afterSlash_le arr.bytes
    unfold CInt.Fits
    omega
  le := by
    have hle := afterSlash_le arr.bytes
    rw [List.length_drop]
    omega

/-- `SourceFile(const char *filename)`. -/
def ofPointer (filename : FileName) : SourceFile where
  bytes := filename.bytes.drop (afterSlash filename.bytes)
  size := ((filename.bytes.drop (afterSlash filename.bytes)).takeWhile (· ≠ 0)).length
  isInt := by
    have hsmall := filename.small
    have hle := (List.takeWhile_prefix (l := filename.bytes.drop (afterSlash filename.bytes))
      (· ≠ 0)).length_le
    rw [List.length_drop] at hle
    unfold CInt.Fits
    omega
  le := by
    have hle := (List.takeWhile_prefix (l := filename.bytes.drop (afterSlash filename.bytes))
      (· ≠ 0)).length_le
    omega

end SourceFile

theorem takeWhile_of_not_mem {text : List UInt8} (hzero : 0 ∉ text) :
    text.takeWhile (· ≠ 0) = text := by
  have htext := CharArray.takeWhile_text hzero []
  rw [List.append_nil, List.takeWhile_nil, List.append_nil] at htext
  exact htext

/-- Nothing behind the last slash is a slash. -/
theorem slash_not_mem_drop {filename : List UInt8} (hzero : 0 ∉ filename) :
    47 ∉ filename.drop (afterSlash filename) := by
  unfold afterSlash strrchr
  rw [takeWhile_of_not_mem hzero]
  cases hfound : filename.reverse.findIdx? (· = 47) with
  | none =>
      rw [List.findIdx?_eq_none_iff] at hfound
      intro hslash
      exact absurd (hfound 47 (List.mem_reverse.mpr (List.mem_of_mem_drop hslash))) (by decide)
  | some i =>
      obtain ⟨hlt, -, hnone⟩ := List.findIdx?_eq_some_iff_getElem.mp hfound
      rw [List.length_reverse] at hlt
      have hstart : filename.length - 1 - i + 1 = filename.length - i := by omega
      simp only [hfound, Option.map_some, hstart]
      rw [← List.mem_reverse, ← List.take_reverse]
      intro hslash
      obtain ⟨j, hj, hget⟩ := List.mem_take_iff_getElem.mp hslash
      exact hnone j (by omega) (by rw [hget]; decide)

/-- Both constructors keep what is behind the last slash. -/
theorem SourceFile.text_eq (filename : FileName) (hzero : 0 ∉ filename.bytes) :
    (Item.append (ofArray filename)).text = filename.bytes.drop (afterSlash filename.bytes) ∧
      (Item.append (ofPointer filename)).text =
        filename.bytes.drop (afterSlash filename.bytes) ∧
      47 ∉ (Item.append (ofArray filename)).text := by
  have hle := afterSlash_le filename.bytes
  have hsmall := filename.small
  have hbehind : 0 ∉ filename.bytes.drop (afterSlash filename.bytes) :=
    fun hmem => hzero (List.mem_of_mem_drop hmem)
  have hlength := @List.length_drop _ (afterSlash filename.bytes) filename.bytes
  have harray : (Item.append (ofArray filename)).text =
      filename.bytes.drop (afterSlash filename.bytes) := by
    refine List.take_of_length_le ?_
    change (filename.bytes.drop (afterSlash filename.bytes)).length ≤
      (((filename.bytes.length : Int) - afterSlash filename.bytes) % 2 ^ 64).toNat
    omega
  refine ⟨harray, ?_, harray ▸ slash_not_mem_drop hzero⟩
  refine List.take_of_length_le ?_
  change (filename.bytes.drop (afterSlash filename.bytes)).length ≤
    ((((filename.bytes.drop (afterSlash filename.bytes)).takeWhile (· ≠ 0)).length : Int) %
      2 ^ 64).toNat
  rw [takeWhile_of_not_mem hbehind]
  omega

/-! ## `class Logger` -/

/-- `Logger::LogLevel`. -/
inductive LogLevel where
  | TRACE
  | DEBUG
  | INFO
  | WARN
  | ERROR
  | FATAL
  deriving DecidableEq, Repr

/-- `LogLevelName[level]`. -/
def LogLevelName : LogLevel → List UInt8
  | .TRACE => ascii "TRACE "
  | .DEBUG => ascii "DEBUG "
  | .INFO => ascii "INFO  "
  | .WARN => ascii "WARN  "
  | .ERROR => ascii "ERROR "
  | .FATAL => ascii "FATAL "

/-- The stream, the level, the line and the base name that `Logger::Impl` keeps. -/
structure Logger where
  stream_ : LogStream
  level_ : LogLevel
  line_ : IntType.int.Value
  basename_ : SourceFile

/-- The arguments of the four constructors. -/
inductive LoggerArgs where
  | info (file : SourceFile) (line : IntType.int.Value)
  | level (file : SourceFile) (line : IntType.int.Value) (level : LogLevel)
  | func (file : SourceFile) (line : IntType.int.Value) (level : LogLevel) (func : List UInt8)
  /-- with the value of `errno` -/
  | toAbort (file : SourceFile) (line : IntType.int.Value) (toAbort : Bool)
      (errno : IntType.int.Value)

namespace LoggerArgs

/-- The name of the source file. -/
def file : LoggerArgs → SourceFile
  | info file _ | level file _ _ | func file _ _ _ | toAbort file _ _ _ => file

/-- The line in it. -/
def line : LoggerArgs → IntType.int.Value
  | info _ line | level _ line _ | func _ line _ _ | toAbort _ line _ _ => line

/-- The level the constructor passes on. -/
def logLevel : LoggerArgs → LogLevel
  | info _ _ => .INFO
  | level _ _ l | func _ _ l _ => l
  | toAbort _ _ b _ => if b then .FATAL else .ERROR

end LoggerArgs

/-- What a record is made of: the time `Timestamp::now` returns, the arguments of the
constructor, the items the user streams, and whatever is in the array of the stream before. -/
structure Record where
  now : Timestamp
  args : LoggerArgs
  items : List Item
  data_ : Vector UInt8 kSmallBuffer

namespace Logger

/-- `Impl::formatTime`. -/
def formatTime (time_ : Timestamp) (t : ThreadLocals) (s : LogStream) :
    Exec (ThreadLocals × LogStream) := do
  let seconds := time_.microSecondsSinceEpoch_.tdiv 1000000
  let microseconds := CInt.wrap (time_.microSecondsSinceEpoch_.tmod 1000000)
  let t ← t.cacheTime seconds
  let us ← Fmt.new (microsecondsText microseconds)
  assertThat (us.length_ = 9)
  let s ← s.putT t.t_time 17
  let s ← s.putT us.buf_ 9
  return (t, s)

section Run

-- the texts of `strerror_r`, and the id of the thread
variable (strerror_tl : Int → List UInt8) (gettid : Int)

/-- `Impl::Impl(level, savedErrno, file, line)`. -/
def newImpl (r : Record) (level : LogLevel) (savedErrno : IntType.int.Value) (file : SourceFile)
    (line : IntType.int.Value) (t : ThreadLocals) : Exec (ThreadLocals × Logger) := do
  let (t, s) ← formatTime r.now t (LogStream.new r.data_)
  let t ← t.tid gettid
  let s ← s.putT t.t_tidString 6
  let s ← s.putT (LogLevelName level ++ [0]) 6
  let s ←
    if savedErrno.val ≠ 0 then
      s.putAll [.cString (strerror_tl savedErrno.val), .cString (ascii " (errno="),
        .integer .int savedErrno, .cString (ascii ") ")]
    else .ok s
  return (t, ⟨s, level, line, file⟩)

/-- No error is reported. -/
def noErrno : IntType.int.Value := ⟨0, by decide, by decide⟩

/-- The constructors. -/
def new (r : Record) (t : ThreadLocals) : Exec (ThreadLocals × Logger) :=
  match r.args with
  | .info file line => newImpl strerror_tl gettid r .INFO noErrno file line t
  | .level file line level => newImpl strerror_tl gettid r level noErrno file line t
  | .func file line level func => do
      let (t, logger) ← newImpl strerror_tl gettid r level noErrno file line t
      let s ← logger.stream_.putAll [.cString func, .char 32]
      return (t, { logger with stream_ := s })
  | .toAbort file line toAbort errno =>
      newImpl strerror_tl gettid r (if toAbort then .FATAL else .ERROR) errno file line t

/-- `Impl::finish`. -/
def finish (logger : Logger) : Exec Logger := do
  let s ← logger.stream_.putAll [.cString (ascii " - "), .append logger.basename_, .char 58,
    .integer .int logger.line_, .char 10]
  return { logger with stream_ := s }

/-- `~Logger`: the bytes that the output function gets, and whether the process is aborted. -/
def destroy (logger : Logger) : Exec (List UInt8 × Bool) := do
  let logger ← logger.finish
  return (logger.stream_.contents, decide (logger.level_ = .FATAL))

/-- One record. -/
def emit (r : Record) (t : ThreadLocals) : Exec (ThreadLocals × List UInt8 × Bool) := do
  let (t, logger) ← new strerror_tl gettid r t
  let s ← logger.stream_.putAll r.items
  let out ← { logger with stream_ := s }.destroy
  return (t, out)

/-- The records a thread emits, until one of them aborts the process. -/
def emitAll : List Record → ThreadLocals → Exec (ThreadLocals × List (List UInt8))
  | [], t => .ok (t, [])
  | r :: records, t => do
      let (t, msg, aborted) ← emit strerror_tl gettid r t
      if aborted then return (t, [msg])
      else
        let (t, msgs) ← emitAll records t
        return (t, msg :: msgs)

/-- The records of a thread from its beginning on. -/
def emitThread (start : ThreadStart) (records : List Record) :
    Exec (ThreadLocals × List (List UInt8)) := do
  let t ← start.begin gettid
  emitAll strerror_tl gettid records t

end Run

end Logger

/-! ## The cached texts -/

/-- The seconds from the first one after the epoch to the end of the year 9999. -/
def InYears (seconds : Int) : Prop := 1 ≤ seconds ∧ seconds < 253402300800

instance (seconds : Int) : Decidable (InYears seconds) := inferInstanceAs (Decidable (_ ∧ _))

/-- The year has four digits. -/
theorem InYears.year {seconds : Int} (h : InYears seconds) :
    1970 ≤ (gmtime seconds).date.year ∧ (gmtime seconds).date.year ≤ 9999 :=
  ⟨gmtime_year_ge (Int.le_trans (by decide) h.1), gmtime_year_le h.2⟩

namespace ThreadLocals

/-- The parts of the text have their widths. -/
theorem length_timeText {seconds : Int} (h : InYears seconds) :
    (timeText (gmtime seconds)).length = 17 ∧ 0 ∉ timeText (gmtime seconds) := by
  have hyear := h.year
  obtain ⟨⟨hsec, hmin, hhour⟩, -, ⟨hmonth, hday, hdays⟩, -⟩ := gmtime_isUtc seconds
  have hlast := (daysInMonth_le (gmtime seconds).date.year (gmtime seconds).date.month).1
  simp only [Tm.date] at hyear hmonth hday hdays hlast
  have hdigits : (decimalDigits ((gmtime seconds).tm_year + 1900).natAbs).length ≤ 4 :=
    (length_digits_le_iff (by decide) (by decide)).mpr (by omega)
  have hwidth : (spacePadded 4 ((gmtime seconds).tm_year + 1900)).length = 4 := by
    rw [length_spacePadded (by omega)]
    omega
  have htwo : ∀ {v : Int}, 0 ≤ v → v ≤ 99 → (zeroPadded 2 v).length = 2 ∧ 0 ∉ zeroPadded 2 v := by
    intro v hv hv'
    refine ⟨length_zeroPadded (by decide) hv (by omega), fun hzero => ?_⟩
    exact absurd (digit_of_mem_zeroPadded hv hzero).1 (by decide)
  obtain ⟨hmonLength, hmonZero⟩ := @htwo ((gmtime seconds).tm_mon + 1) (by omega) (by omega)
  obtain ⟨hdayLength, hdayZero⟩ := @htwo (gmtime seconds).tm_mday (by omega) (by omega)
  obtain ⟨hhourLength, hhourZero⟩ := @htwo (gmtime seconds).tm_hour (by omega) (by omega)
  obtain ⟨hminLength, hminZero⟩ := @htwo (gmtime seconds).tm_min (by omega) (by omega)
  obtain ⟨hsecLength, hsecZero⟩ := @htwo (gmtime seconds).tm_sec (by omega) (by omega)
  constructor
  · simp only [timeText, List.length_append, List.length_singleton, hwidth, hmonLength, hdayLength,
      hhourLength, hminLength, hsecLength]
  · have hyearZero : 0 ∉ spacePadded 4 ((gmtime seconds).tm_year + 1900) :=
      fun hzero => ne_zero_of_mem_spacePadded (by omega) hzero rfl
    simp [timeText, hyearZero, hmonZero, hdayZero, hhourZero, hminZero, hsecZero]

/-- The id has five digits at least, and so six characters with the blank up to 99999. -/
theorem length_tidText {tid : Int} (h : 1 ≤ tid) :
    ((tidText tid).length = 6 ↔ tid ≤ 99999) ∧ (tid ≤ 2 ^ 22 → (tidText tid).length < 32) ∧
      0 ∉ tidText tid := by
  have hlength : (tidText tid).length = max 5 (decimalDigits tid.natAbs).length + 1 := by
    rw [tidText, List.length_append, length_spacePadded (by omega), List.length_singleton]
  have hfive : (decimalDigits tid.natAbs).length ≤ 5 ↔ tid.natAbs < 10 ^ 5 :=
    length_digits_le_iff (by decide) (by decide)
  refine ⟨?_, ?_, ?_⟩
  · omega
  · intro hmax
    have hseven : (decimalDigits tid.natAbs).length ≤ 7 :=
      (length_digits_le_iff (by decide) (by decide)).mpr (by omega)
    omega
  · intro hzero
    rw [tidText, List.mem_append] at hzero
    rcases hzero with hzero | hzero
    · exact ne_zero_of_mem_spacePadded (by omega) hzero rfl
    · exact absurd hzero (by decide)

/-- What is cached is the text of the thread's id, and of the second it is kept for. -/
structure Coherent (gettid : Int) (t : ThreadLocals) : Prop where
  sizeTid : t.t_tidString.length = 32
  sizeTime : t.t_time.length = 32
  tid : t.t_cachedTid = 0 ∨ CharArray.Holds t.t_tidString (tidText gettid)
  time : t.t_lastSecond = 0 ∨ CharArray.Holds t.t_time (timeText (gmtime t.t_lastSecond))

theorem initial_coherent (gettid : Int) : initial.Coherent gettid :=
  ⟨rfl, rfl, .inl rfl, .inl rfl⟩

variable {gettid seconds : Int} {t : ThreadLocals}

/-- Whether it was cached or not, the text is that of the second afterwards. -/
theorem cacheTime_eq (h : t.Coherent gettid) (hseconds : InYears seconds) :
    ∃ t', t.cacheTime seconds = .ok t' ∧ t'.Coherent gettid ∧
      CharArray.Holds t'.t_time (timeText (gmtime seconds)) := by
  obtain ⟨hlength, hzero⟩ := length_timeText hseconds
  by_cases hnew : seconds ≠ t.t_lastSecond
  · obtain ⟨mem, hprint, hsize, hholds⟩ :=
      CharArray.snprintf_holds h.sizeTime (by omega : (timeText (gmtime seconds)).length < 32) hzero
    refine ⟨{ t with t_lastSecond := seconds, t_time := mem }, ?_,
      ⟨h.sizeTid, hsize, h.tid, .inr hholds⟩, hholds⟩
    rw [cacheTime, if_pos hnew, hprint, ok_bind, hlength, assertThat_of rfl]
    rfl
  · have hsame : seconds = t.t_lastSecond := Decidable.not_not.mp hnew
    have hholds : CharArray.Holds t.t_time (timeText (gmtime seconds)) := by
      rcases h.time with hnone | hholds
      · have hpos := hseconds.1
        omega
      · rw [hsame]
        exact hholds
    exact ⟨t, if_neg hnew, h, hholds⟩

/-- The id is cached with its text, unless the text is longer than the assertion says. -/
theorem tid_eq (h : t.Coherent gettid) (hmin : 1 ≤ gettid) (hmax : gettid ≤ 2 ^ 22) :
    (gettid ≤ 99999 → ∃ t', t.tid gettid = .ok t' ∧ t'.Coherent gettid ∧ t'.t_time = t.t_time ∧
      CharArray.Holds t'.t_tidString (tidText gettid)) ∧
    (¬ gettid ≤ 99999 → t.t_cachedTid = 0 → t.tid gettid = .error .assertion) := by
  obtain ⟨hsix, hfits, hzero⟩ := length_tidText hmin
  obtain ⟨mem, hprint, hsize, hholds⟩ := CharArray.snprintf_holds h.sizeTid (hfits hmax) hzero
  constructor
  · intro hle
    by_cases hnone : t.t_cachedTid = 0
    · refine ⟨{ t with t_cachedTid := gettid, t_tidString := mem }, ?_,
        ⟨hsize, h.sizeTime, .inr hholds, h.time⟩, rfl, hholds⟩
      rw [tid, if_pos hnone, cacheTid, if_pos hnone, hprint, ok_bind, hsix.mpr hle,
        assertThat_of rfl]
      rfl
    · exact ⟨t, if_neg hnone, h, rfl, h.tid.resolve_left hnone⟩
  · intro hlong hnone
    rw [tid, if_pos hnone, cacheTid, if_pos hnone, hprint, ok_bind,
      assertThat_of_not (fun heq => hlong (hsix.mp heq))]
    rfl

end ThreadLocals

/-- A forked thread finds the variables of a thread that has emitted records. -/
def ThreadStart.Coherent : ThreadStart → Prop
  | .created => True
  | .forked t => ∃ parent, t.Coherent parent

/-- A thread begins with its id cached, unless the text of the id is longer than the assertion
says. -/
theorem ThreadStart.begin_eq {start : ThreadStart} (h : start.Coherent) {gettid : Int}
    (hmin : 1 ≤ gettid) (hmax : gettid ≤ 2 ^ 22) :
    (gettid ≤ 99999 → ∃ t, start.begin gettid = .ok t ∧ t.Coherent gettid) ∧
      (¬ gettid ≤ 99999 → start.begin gettid = .error .assertion) := by
  have htid : ∀ t : ThreadLocals, t.Coherent gettid → t.t_cachedTid = 0 →
      (gettid ≤ 99999 → ∃ t', t.tid gettid = .ok t' ∧ t'.Coherent gettid) ∧
        (¬ gettid ≤ 99999 → t.tid gettid = .error .assertion) := by
    intro t ht hnone
    obtain ⟨hshort, hlong⟩ := ThreadLocals.tid_eq ht hmin hmax
    refine ⟨fun hle => ?_, fun hnot => hlong hnot hnone⟩
    obtain ⟨t', ht', hcoherent, -, -⟩ := hshort hle
    exact ⟨t', ht', hcoherent⟩
  cases start with
  | created => exact htid .initial (ThreadLocals.initial_coherent gettid) rfl
  | forked t =>
      obtain ⟨parent, ht⟩ := h
      exact htid { t with t_cachedTid := 0 } ⟨ht.sizeTid, ht.sizeTime, .inl rfl, ht.time⟩ rfl

/-! ## The head of a record -/

theorem LogStream.putT_eq {s : LogStream} (h : s.Inv) {str text : List UInt8} {len : Nat}
    (hholds : CharArray.Holds str text) (hlen : text.length = len) (hroom : len < s.avail) :
    ∃ s', s.putT str len = .ok s' ∧ s'.Inv ∧ s'.contents = s.contents ++ text := by
  have hle := hholds.length_le
  obtain ⟨s', happend, hinv, hkept, -⟩ := @appendBytes_admits s h str len fun _ => by omega
  rw [← hlen, hholds.take] at hkept
  refine ⟨s', ?_, hinv, hkept (by omega)⟩
  rw [putT, hholds.strlen, ok_bind, assertThat_of hlen, ok_bind, happend]

/-- What is in the stream stays at its front. -/
theorem LogStream.putAll_extends {s : LogStream} (h : s.Inv) (items : List Item) :
    ∃ s', s.putAll items = .ok s' ∧ s'.Inv ∧ s.contents <+: s'.contents := by
  obtain ⟨s', kept, hall, hinv, -, hcontents⟩ := putAll_kept h items
  exact ⟨s', hall, hinv, kept.flatMap Item.text, hcontents.symm⟩

theorem Fmt.new_eq {text : List UInt8} (hfits : text.length < 32) (hzero : 0 ∉ text) :
    ∃ fmt, Fmt.new text = .ok fmt ∧ fmt.length_ = text.length ∧
      CharArray.Holds fmt.buf_ text := by
  obtain ⟨mem, hprint, -, hholds⟩ :=
    @CharArray.snprintf_holds (List.replicate 32 0) text 32 (List.length_replicate) hfits hzero
  refine ⟨⟨mem, text.length⟩, ?_, rfl, hholds⟩
  rw [Fmt.new, hprint, ok_bind, assertThat_of hfits]
  rfl

theorem length_microsecondsText {v : Int} (h : 0 ≤ v ∧ v < 1000000) :
    (microsecondsText v).length = 9 ∧ 0 ∉ microsecondsText v := by
  have hsix : (zeroPadded 6 v).length = 6 := length_zeroPadded (by decide) h.1 (by omega)
  have hzero : 0 ∉ zeroPadded 6 v :=
    fun hzero => absurd (digit_of_mem_zeroPadded h.1 hzero).1 (by decide)
  constructor
  · rw [microsecondsText, List.length_append, List.length_append, hsix]
    rfl
  · simp [microsecondsText, hzero]

theorem levelName_holds (level : LogLevel) :
    CharArray.Holds (LogLevelName level ++ [0]) (LogLevelName level) ∧
      (LogLevelName level).length = 6 := by
  refine ⟨⟨?_, [], rfl⟩, ?_⟩
  · cases level <;> decide
  · cases level <;> rfl

/-- The bytes start with the UTC time of the record's own second, the microseconds, the id of the
thread and the level, and each of these has its width. -/
def HasHead (gettid : Int) (r : Record) (msg : List UInt8) : Prop :=
  ∃ tm time microseconds id level rest,
    msg = time ++ microseconds ++ id ++ level ++ rest ∧
    IsUtc (r.now.microSecondsSinceEpoch_ / 1000000) tm ∧
    time = ThreadLocals.timeText tm ∧ time.length = 17 ∧
    microseconds = microsecondsText (r.now.microSecondsSinceEpoch_ % 1000000) ∧
    microseconds.length = 9 ∧
    id = ThreadLocals.tidText gettid ∧ id.length = 6 ∧
    level = LogLevelName r.args.logLevel ∧ level.length = 6

theorem HasHead.mono {gettid : Int} {r : Record} {msg msg' : List UInt8}
    (h : HasHead gettid r msg) (hfront : msg <+: msg') : HasHead gettid r msg' := by
  obtain ⟨tm, time, microseconds, id, level, rest, rfl, hparts⟩ := h
  obtain ⟨more, rfl⟩ := hfront
  exact ⟨tm, time, microseconds, id, level, rest ++ more, List.append_assoc _ rest more, hparts⟩

/-- The time of the record lies after the first second of 1970 and before the year 10000. -/
def Record.InRange (r : Record) : Prop := InYears (r.now.microSecondsSinceEpoch_ / 1000000)

namespace Logger

section Head

variable {gettid : Int} {r : Record} {t : ThreadLocals}

theorem formatTime_eq (h : t.Coherent gettid) (hrange : r.InRange) :
    ∃ t' s, formatTime r.now t (LogStream.new r.data_) = .ok (t', s) ∧ t'.Coherent gettid ∧
      s.Inv ∧ s.contents =
        ThreadLocals.timeText (gmtime (r.now.microSecondsSinceEpoch_ / 1000000)) ++
          microsecondsText (r.now.microSecondsSinceEpoch_ % 1000000) := by
  obtain ⟨now, args, items, data⟩ := r
  obtain ⟨count⟩ := now
  change InYears (count / 1000000) at hrange
  have hpos : 0 ≤ count := by
    have hfirst := hrange.1
    omega
  have hmicro : 0 ≤ count % 1000000 ∧ count % 1000000 < 1000000 := by omega
  obtain ⟨hnine, hmicroZero⟩ := length_microsecondsText hmicro
  obtain ⟨t', htime, hcoherent, htext⟩ := ThreadLocals.cacheTime_eq h hrange
  obtain ⟨us, hus, husLength, husHolds⟩ := @Fmt.new_eq (microsecondsText (count % 1000000))
    (by omega) hmicroZero
  have hnew := LogStream.new_inv data
  obtain ⟨s₁, hput₁, hinv₁, hcontents₁⟩ := LogStream.putT_eq hnew htext
    (ThreadLocals.length_timeText hrange).1 (by decide : 17 < kSmallBuffer)
  rw [LogStream.new_contents, List.nil_append] at hcontents₁
  have havail₁ : 9 < s₁.avail := by
    obtain ⟨havail, -⟩ := hinv₁.avail_eq
    rw [havail, hcontents₁, (ThreadLocals.length_timeText hrange).1]
    decide
  obtain ⟨s₂, hput₂, hinv₂, hcontents₂⟩ := LogStream.putT_eq hinv₁ husHolds hnine havail₁
  refine ⟨t', s₂, ?_, hcoherent, hinv₂, ?_⟩
  · have hdiv : count.tdiv 1000000 = count / 1000000 := Int.tdiv_eq_ediv_of_nonneg hpos
    have hmod : count.tmod 1000000 = count % 1000000 := Int.tmod_eq_emod_of_nonneg hpos
    simp only [formatTime, hdiv, hmod]
    rw [CInt.wrap_of (by omega) (by omega), htime, ok_bind, hus, ok_bind, husLength, hnine,
      assertThat_of rfl, ok_bind, hput₁, ok_bind, hput₂]
    rfl
  · rw [hcontents₂, hcontents₁]

variable {strerror_tl : Int → List UInt8}

/-- Behind the time stand the id and the level; the text of an error is behind the head. -/
theorem newImpl_eq (h : t.Coherent gettid) (hmin : 1 ≤ gettid) (hmax : gettid ≤ 99999)
    (hrange : r.InRange) (savedErrno : IntType.int.Value) (file : SourceFile)
    (line : IntType.int.Value) :
    ∃ t' logger, newImpl strerror_tl gettid r r.args.logLevel savedErrno file line t =
        .ok (t', logger) ∧ t'.Coherent gettid ∧ logger.stream_.Inv ∧
      HasHead gettid r logger.stream_.contents ∧ logger.level_ = r.args.logLevel ∧
      (savedErrno.val = 0 → logger.stream_.contents.length = 38) := by
  obtain ⟨t₁, s₂, htime, hcoherent₁, hinv₂, hcontents₂⟩ := formatTime_eq h hrange
  obtain ⟨htid, -⟩ := ThreadLocals.tid_eq hcoherent₁ hmin (Int.le_trans hmax (by decide))
  obtain ⟨t₂, hcache, hcoherent₂, -, hholds⟩ := htid hmax
  have hsix := (ThreadLocals.length_tidText hmin).1.mpr hmax
  obtain ⟨hlevelHolds, hlevelSix⟩ := levelName_holds r.args.logLevel
  have hseventeen := (ThreadLocals.length_timeText hrange).1
  have hpos := hrange.1
  have hnine := (@length_microsecondsText (r.now.microSecondsSinceEpoch_ % 1000000)
    (by omega)).1
  have havail₂ : s₂.avail = 3974 := by
    rw [hinv₂.avail_eq.1, hcontents₂, List.length_append, hseventeen, hnine]
    rfl
  obtain ⟨s₃, hput₃, hinv₃, hcontents₃⟩ := LogStream.putT_eq hinv₂ hholds hsix (by omega)
  have havail₃ : s₃.avail = 3968 := by
    rw [hinv₃.avail_eq.1, hcontents₃, hcontents₂, List.length_append, List.length_append,
      hseventeen, hnine, hsix]
    rfl
  obtain ⟨s₄, hput₄, hinv₄, hcontents₄⟩ :=
    LogStream.putT_eq hinv₃ hlevelHolds hlevelSix (by omega)
  have hhead : HasHead gettid r s₄.contents := by
    refine ⟨_, _, _, _, _, [], ?_, gmtime_isUtc _, rfl, hseventeen, rfl, hnine, rfl, hsix, rfl,
      hlevelSix⟩
    rw [hcontents₄, hcontents₃, hcontents₂, List.append_nil]
  simp only [newImpl, htime, ok_bind, hcache, hput₃, hput₄]
  by_cases herrno : savedErrno.val ≠ 0
  · obtain ⟨s₅, hall, hinv₅, hfront⟩ := LogStream.putAll_extends hinv₄
      [.cString (strerror_tl savedErrno.val), .cString (ascii " (errno="),
        .integer .int savedErrno, .cString (ascii ") ")]
    rw [if_pos herrno, hall]
    exact ⟨t₂, _, rfl, hcoherent₂, hinv₅, hhead.mono hfront, rfl, fun hnone => absurd hnone herrno⟩
  · refine ⟨t₂, ⟨s₄, r.args.logLevel, line, file⟩, ?_, hcoherent₂, hinv₄, hhead, rfl, ?_⟩
    · rw [if_neg herrno]
      rfl
    · intro _
      rw [hcontents₄, hcontents₃, hcontents₂, List.length_append, List.length_append,
        List.length_append, hseventeen, hnine, hsix, hlevelSix]

/-- Whichever constructor it is. -/
theorem new_eq (h : t.Coherent gettid) (hmin : 1 ≤ gettid) (hmax : gettid ≤ 99999)
    (hrange : r.InRange) :
    ∃ t' logger, new strerror_tl gettid r t = .ok (t', logger) ∧ t'.Coherent gettid ∧
      logger.stream_.Inv ∧ HasHead gettid r logger.stream_.contents ∧
      logger.level_ = r.args.logLevel := by
  have himpl : ∀ savedErrno file line, ∃ t' logger,
      newImpl strerror_tl gettid r r.args.logLevel savedErrno file line t = .ok (t', logger) ∧
        t'.Coherent gettid ∧ logger.stream_.Inv ∧ HasHead gettid r logger.stream_.contents ∧
        logger.level_ = r.args.logLevel := by
    intro savedErrno file line
    obtain ⟨t', logger, himpl, hcoherent, hinv, hhead, hlevel, -⟩ :=
      newImpl_eq h hmin hmax hrange savedErrno file line
    exact ⟨t', logger, himpl, hcoherent, hinv, hhead, hlevel⟩
  unfold new
  cases hargs : r.args with
  | info file line =>
      rw [hargs] at himpl
      exact himpl noErrno file line
  | level file line level =>
      rw [hargs] at himpl
      exact himpl noErrno file line
  | toAbort file line toAbort errno =>
      rw [hargs] at himpl
      exact himpl errno file line
  | func file line level func =>
      rw [hargs] at himpl
      obtain ⟨t', logger, himpl, hcoherent, hinv, hhead, hlevel⟩ := himpl noErrno file line
      obtain ⟨s, hall, hinv', hfront⟩ := LogStream.putAll_extends hinv [.cString func, .char 32]
      change newImpl strerror_tl gettid r level noErrno file line t = _ at himpl
      refine ⟨t', { logger with stream_ := s }, ?_, hcoherent, hinv', hhead.mono hfront, hlevel⟩
      simp only [himpl, ok_bind, hall]
      rfl

/-- `~Logger` only adds to what is in the stream. -/
theorem destroy_extends {logger : Logger} (h : logger.stream_.Inv) :
    ∃ msg, logger.destroy = .ok (msg, decide (logger.level_ = .FATAL)) ∧
      logger.stream_.contents <+: msg := by
  obtain ⟨s, hall, -, hfront⟩ := LogStream.putAll_extends h [.cString (ascii " - "),
    .append logger.basename_, .char 58, .integer .int logger.line_, .char 10]
  refine ⟨s.contents, ?_, hfront⟩
  rw [destroy, finish, hall]
  rfl

theorem emit_of_new {t' : ThreadLocals} {logger : Logger} {s : LogStream}
    (hnew : new strerror_tl gettid r t = .ok (t', logger))
    (hall : logger.stream_.putAll r.items = .ok s) : emit strerror_tl gettid r t =
      ({ logger with stream_ := s }.destroy >>= fun out => .ok (t', out)) := by
  simp only [emit, hnew, ok_bind, hall]
  rfl

theorem emit_eq (h : t.Coherent gettid) (hmin : 1 ≤ gettid) (hmax : gettid ≤ 99999)
    (hrange : r.InRange) :
    ∃ t' msg, emit strerror_tl gettid r t = .ok (t', msg, decide (r.args.logLevel = .FATAL)) ∧
      t'.Coherent gettid ∧ HasHead gettid r msg := by
  obtain ⟨t', logger, hnew, hcoherent, hinv, hhead, hlevel⟩ :=
    @new_eq gettid r t strerror_tl h hmin hmax hrange
  obtain ⟨s, hall, hinv', hfront⟩ := LogStream.putAll_extends hinv r.items
  obtain ⟨msg, hdestroy, hfront'⟩ := @destroy_extends { logger with stream_ := s } hinv'
  refine ⟨t', msg, ?_, hcoherent, hhead.mono (hfront.trans hfront')⟩
  rw [emit_of_new hnew hall, hdestroy, ok_bind, ← hlevel]

/-- The records up to the first that aborts the process. -/
def untilFatal : List Record → List Record
  | [] => []
  | r :: records => if r.args.logLevel = .FATAL then [r] else r :: untilFatal records

theorem emitAll_eq {records : List Record} (h : t.Coherent gettid) (hmin : 1 ≤ gettid)
    (hmax : gettid ≤ 99999) (hrange : ∀ r ∈ records, r.InRange) :
    ∃ t' msgs, emitAll strerror_tl gettid records t = .ok (t', msgs) ∧ t'.Coherent gettid ∧
      List.Forall₂ (HasHead gettid) (untilFatal records) msgs := by
  induction records generalizing t with
  | nil => exact ⟨t, [], rfl, h, .nil⟩
  | cons r records ih =>
      obtain ⟨hr, hrest⟩ := List.forall_mem_cons.mp hrange
      obtain ⟨t₁, msg, hemit, hcoherent, hhead⟩ := @emit_eq gettid r t strerror_tl h hmin hmax hr
      by_cases hfatal : r.args.logLevel = .FATAL
      · refine ⟨t₁, [msg], ?_, hcoherent, ?_⟩
        · simp only [emitAll, hemit, ok_bind, hfatal, decide_true, if_true]
          rfl
        · rw [untilFatal, if_pos hfatal]
          exact .cons hhead .nil
      · obtain ⟨t', msgs, hall, hcoherent', hheads⟩ := ih hcoherent hrest
        refine ⟨t', msg :: msgs, ?_, hcoherent', ?_⟩
        · simp only [emitAll, hemit, ok_bind, hfatal, decide_false, Bool.false_eq_true, if_false,
            hall]
          rfl
        · rw [untilFatal, if_neg hfatal]
          exact .cons hhead hheads

end Head

end Logger

/-- Log records have a fixed-width head up to five digits of the thread id.  For every thread,
from its beginning over every sequence of records that it emits, no assertion fails and each
record starts with its head, exactly if the id is at most 99999. -/
theorem record_heads_iff (strerror_tl : Int → List UInt8) {gettid : Int} (hmin : 1 ≤ gettid)
    (hmax : gettid ≤ 2 ^ 22) {start : ThreadStart} (hstart : start.Coherent)
    {records : List Record} (hrange : ∀ r ∈ records, r.InRange) :
    (∃ t msgs, Logger.emitThread strerror_tl gettid start records = .ok (t, msgs) ∧
      List.Forall₂ (HasHead gettid) (Logger.untilFatal records) msgs) ↔ gettid ≤ 99999 := by
  obtain ⟨hshort, hlong⟩ := ThreadStart.begin_eq hstart hmin hmax
  constructor
  · rintro ⟨t, msgs, hall, -⟩
    by_contra hnot
    rw [Logger.emitThread, hlong hnot, error_bind] at hall
    exact absurd hall (by simp)
  · intro hle
    obtain ⟨t, hbegin, hcoherent⟩ := hshort hle
    obtain ⟨t', msgs, hall, -, hheads⟩ := Logger.emitAll_eq hcoherent hmin hle hrange
    exact ⟨t', msgs, by rw [Logger.emitThread, hbegin, ok_bind, hall], hheads⟩

/-- The name of a source file with a directory. -/
def mainFile : SourceFile := SourceFile.ofArray ⟨ascii "src/main.cc", by decide⟩

/-- `LOG_INFO` in the first line of `main.cc`. -/
def logInfo (items : List Item) : Record where
  now := ⟨1366635600123456⟩
  args := .info mainFile ⟨1, by decide, by decide⟩
  items := items
  data_ := Vector.replicate kSmallBuffer 0

theorem logInfo_inRange (items : List Item) : (logInfo items).InRange :=
  (by decide : InYears (1366635600123456 / 1000000))

theorem record_heads_iff_five :
    (∃ t msgs, Logger.emitThread (fun _ => []) 99999 .created
        [logInfo [.string (ascii "hello")], logInfo []] = .ok (t, msgs) ∧
      List.Forall₂ (HasHead 99999)
        (Logger.untilFatal [logInfo [.string (ascii "hello")], logInfo []]) msgs) ↔
    (99999 : Int) ≤ 99999 :=
  have hstart : ThreadStart.created.Coherent := trivial
  record_heads_iff (fun _ => []) (by decide) (by decide) hstart
    (List.forall_mem_cons.mpr ⟨logInfo_inRange _,
    List.forall_mem_singleton.mpr (logInfo_inRange _)⟩)

/-- The first id with six digits: the thread does not come to its first record. -/
theorem six_digit_id_trips_assertion : (logInfo []).InRange ∧
    Logger.emitThread (fun _ => []) 100000 .created [logInfo []] = .error .assertion := by
  refine ⟨logInfo_inRange [], ?_⟩
  have hbegin := (@ThreadStart.begin_eq .created trivial 100000 (by decide) (by decide)).2
    (by decide)
  rw [Logger.emitThread, hbegin, error_bind]

/-! ## The end of a record -/

/-- A stream that a call leaves is one with its position in the array. -/
theorem LogStream.putT_inv {s s' : LogStream} (h : s.Inv) {str : List UInt8} {len : Nat}
    (hput : s.putT str len = .ok s') : s'.Inv := by
  obtain ⟨n, hlength, hput⟩ := bind_eq_ok_iff.mp hput
  obtain ⟨rfl, hput⟩ := assertThat_bind_eq_ok_iff.mp hput
  have hle : n ≤ str.length := by
    unfold CharArray.strlen at hlength
    split at hlength
    · obtain rfl := Except.ok.inj hlength
      exact (List.takeWhile_prefix _).length_le
    · cases hlength
  obtain ⟨s₁, happend, hinv, -⟩ := @appendBytes_admits s h str n fun _ => hle
  rw [happend] at hput
  obtain rfl := Except.ok.inj hput
  exact hinv

theorem LogStream.putAll_inv {s s' : LogStream} (h : s.Inv) {items : List Item}
    (hput : s.putAll items = .ok s') : s'.Inv := by
  obtain ⟨s₁, kept, hall, hinv, -⟩ := putAll_kept h items
  rw [hall] at hput
  obtain rfl := Except.ok.inj hput
  exact hinv

/-- One item more, with what is left of the array afterwards. -/
theorem LogStream.put_avail {s : LogStream} (h : s.Inv) (item : Item) :
    ∃ s', s.put item = .ok s' ∧ s'.Inv ∧
      (item.needs ≤ s.avail ∧ s'.contents = s.contents ++ item.text ∧
          s'.avail = s.avail - item.text.length ∨
        ¬ item.needs ≤ s.avail ∧ s' = s) := by
  obtain ⟨s', hput, hinv, hkept, hdropped⟩ := put_admits h item
  refine ⟨s', hput, hinv, ?_⟩
  by_cases hneeds : item.needs ≤ s.avail
  · refine .inl ⟨hneeds, hkept hneeds, ?_⟩
    rw [hinv.avail_eq.1, h.avail_eq.1, hkept hneeds, List.length_append]
    omega
  · exact .inr ⟨hneeds, hdropped hneeds⟩

/-- What is left of `avail` bytes behind a text of `n` bytes, which is kept if it is shorter. -/
def roomBehind (avail n : Nat) : Nat := if n < avail then avail - n else avail

/-- Behind `" - "` and the base name at least three bytes are left of the stream; or one, and what
is in front of it ends with a newline already. -/
def NewlineFits (s : LogStream) (basename : SourceFile) : Prop :=
  3 ≤ roomBehind (roomBehind s.avail 3) basename.toSizeT ∨
  roomBehind (roomBehind s.avail 3) basename.toSizeT = 1 ∧
    if 0 < basename.toSizeT ∧ basename.toSizeT < roomBehind s.avail 3 then
      (basename.bytes.take basename.toSizeT).getLast? = some 10
    else s.avail ≤ 3 ∧ s.contents.getLast? = some 10

instance (s : LogStream) (basename : SourceFile) : Decidable (NewlineFits s basename) :=
  inferInstanceAs (Decidable (_ ∨ _ ∧ ite _ _ _))

namespace LogStream

variable {s : LogStream}

/-- `" - "` and the base name; what they leave, and what is last if that is one byte. -/
theorem putAll_basename (h : s.Inv) (basename : SourceFile) :
    ∃ s', s.putAll [.cString (ascii " - "), .append basename] = .ok s' ∧ s'.Inv ∧
      s'.avail = roomBehind (roomBehind s.avail 3) basename.toSizeT ∧
      (s'.avail = 1 → (s'.contents.getLast? = some 10 ↔
        if 0 < basename.toSizeT ∧ basename.toSizeT < roomBehind s.avail 3 then
          (basename.bytes.take basename.toSizeT).getLast? = some 10
        else s.avail ≤ 3 ∧ s.contents.getLast? = some 10)) := by
  obtain ⟨s₁, hput₁, hinv₁, hcase₁⟩ := put_avail h (.cString (ascii " - "))
  obtain ⟨s₂, hput₂, hinv₂, hcase₂⟩ := put_avail hinv₁ (.append basename)
  have htext : (Item.cString (ascii " - ")).text = [32, 45, 32] := by decide
  simp only [Item.needs, htext, List.length_cons, List.length_nil] at hcase₁
  simp only [Item.needs, Item.text] at hcase₂
  have hroom₁ : s₁.avail = roomBehind s.avail 3 := by
    unfold roomBehind
    rcases hcase₁ with ⟨hfits, -, havail⟩ | ⟨hnot, rfl⟩
    · rw [if_pos (by omega), havail]
    · rw [if_neg (by omega)]
  have hlast₁ : s₁.contents.getLast? = some 10 ↔ s.avail ≤ 3 ∧ s.contents.getLast? = some 10 := by
    rcases hcase₁ with ⟨hfits, hcontents, -⟩ | ⟨hnot, rfl⟩
    · rw [hcontents, List.getLast?_append_of_ne_nil _ (by decide)]
      constructor
      · intro hblank
        exact absurd hblank (by decide)
      · intro hfew
        omega
    · exact ⟨fun hlast => ⟨by omega, hlast⟩, fun hlast => hlast.2⟩
  refine ⟨s₂, ?_, hinv₂, ?_, ?_⟩
  · simp only [putAll, List.foldlM_cons, List.foldlM_nil, hput₁, hput₂, ok_bind]
    rfl
  · rw [← hroom₁]
    unfold roomBehind
    rcases hcase₂ with ⟨hfits, -, havail⟩ | ⟨hnot, rfl⟩
    · have hle := piece_length (show basename.toSizeT < s₁.avail by omega)
      rw [if_pos (by omega), havail, List.length_take, Nat.min_eq_left hle]
    · rw [if_neg (by omega)]
  · intro _
    rw [← hroom₁]
    rcases hcase₂ with ⟨hfits, hcontents, -⟩ | ⟨hnot, rfl⟩
    · have hle := piece_length (show basename.toSizeT < s₁.avail by omega)
      by_cases hempty : basename.toSizeT = 0
      · rw [if_neg (by omega), hcontents, hempty, List.take_zero, List.append_nil]
        exact hlast₁
      · have hne : basename.bytes.take basename.toSizeT ≠ [] := by
          refine List.ne_nil_of_length_pos ?_
          rw [List.length_take]
          omega
        rw [if_pos (by omega), hcontents, List.getLast?_append_of_ne_nil _ hne]
    · rw [if_neg (by omega)]
      exact hlast₁

/-- `':'`, the line and the newline: it is dropped where one byte is left in front of it, and the
line is a number and leaves more than that. -/
theorem putAll_newline (h : s.Inv) (line : IntType.int.Value) :
    ∃ s', s.putAll [.char 58, .integer .int line, .char 10] = .ok s' ∧
      (s'.contents.getLast? = some 10 ↔
        3 ≤ s.avail ∨ s.avail = 1 ∧ s.contents.getLast? = some 10) := by
  obtain ⟨s₁, hput₁, hinv₁, hcase₁⟩ := put_avail h (.char 58)
  obtain ⟨s₂, hput₂, hinv₂, hcase₂⟩ := put_avail hinv₁ (.integer .int line)
  obtain ⟨s₃, hput₃, -, hcase₃⟩ := put_avail hinv₂ (.char 10)
  have hline := length_value_le line
  have hpos := h.avail_eq
  have hpos₂ := hinv₂.avail_eq
  simp only [Item.needs, Item.text, List.length_singleton] at hcase₁ hcase₂ hcase₃
  unfold kMaxNumericSize at hcase₂
  refine ⟨s₃, ?_, ?_⟩
  · simp only [putAll, List.foldlM_cons, List.foldlM_nil, hput₁, hput₂, hput₃, ok_bind]
    rfl
  rcases hcase₃ with ⟨hfits, hcontents, -⟩ | ⟨hdropped, rfl⟩
  · rw [hcontents, List.getLast?_concat]
    refine iff_of_true rfl (.inl ?_)
    rcases hcase₂ with ⟨hthirty, -, havail₂⟩ | ⟨-, rfl⟩
    · rcases hcase₁ with ⟨-, -, havail₁⟩ | ⟨hfew, rfl⟩ <;> omega
    · rcases hcase₁ with ⟨-, -, havail₁⟩ | ⟨hfew, rfl⟩ <;> omega
  · rcases hcase₂ with ⟨hthirty, -, havail₂⟩ | ⟨-, rfl⟩
    · omega
    · rcases hcase₁ with ⟨-, hcontents₁, havail₁⟩ | ⟨hfew, rfl⟩
      · rw [hcontents₁, List.getLast?_concat]
        refine iff_of_false (by decide) ?_
        omega
      · constructor
        · intro hlast
          exact .inr ⟨by omega, hlast⟩
        · rintro (hthree | ⟨-, hlast⟩)
          · omega
          · exact hlast

end LogStream

namespace Logger

/-- The bytes of `~Logger` end with a newline exactly if there is room for it. -/
theorem destroy_newline_iff {logger : Logger} (h : logger.stream_.Inv) :
    ∃ msg, logger.destroy = .ok (msg, decide (logger.level_ = .FATAL)) ∧
      (msg.getLast? = some 10 ↔ NewlineFits logger.stream_ logger.basename_) := by
  obtain ⟨s₁, hall₁, hinv₁, hroom, hlast⟩ := LogStream.putAll_basename h logger.basename_
  obtain ⟨s₂, hall₂, hnewline⟩ := LogStream.putAll_newline hinv₁ logger.line_
  refine ⟨s₂.contents, ?_, ?_⟩
  · have hall : logger.stream_.putAll ([.cString (ascii " - "), .append logger.basename_] ++
        [.char 58, .integer .int logger.line_, .char 10]) = .ok s₂ := by
      rw [LogStream.putAll, List.foldlM_append]
      change (logger.stream_.putAll _ >>= _) = _
      rw [hall₁]
      exact hall₂
    rw [destroy, finish]
    change (logger.stream_.putAll ([.cString (ascii " - "), .append logger.basename_] ++
      [.char 58, .integer .int logger.line_, .char 10]) >>= _) >>= _ = _
    rw [hall]
    rfl
  · rw [hnewline, NewlineFits, ← hroom]
    constructor
    · rintro (hthree | ⟨hone, hends⟩)
      · exact .inl hthree
      · exact .inr ⟨hone, (hlast hone).mp hends⟩
    · rintro (hthree | ⟨hone, hends⟩)
      · exact .inl hthree
      · exact .inr ⟨hone, (hlast hone).mpr hends⟩

end Logger

namespace Logger

variable {strerror_tl : Int → List UInt8} {gettid : Int} {r : Record} {t t' : ThreadLocals}
  {logger : Logger}

theorem formatTime_inv {time_ : Timestamp} {s s' : LogStream} (h : s.Inv)
    (hformat : formatTime time_ t s = .ok (t', s')) : s'.Inv := by
  obtain ⟨t₁, -, hformat⟩ := bind_eq_ok_iff.mp hformat
  obtain ⟨us, -, hformat⟩ := bind_eq_ok_iff.mp hformat
  obtain ⟨-, hformat⟩ := assertThat_bind_eq_ok_iff.mp hformat
  obtain ⟨s₁, hput₁, hformat⟩ := bind_eq_ok_iff.mp hformat
  obtain ⟨s₂, hput₂, hformat⟩ := bind_eq_ok_iff.mp hformat
  cases hformat
  exact LogStream.putT_inv (LogStream.putT_inv h hput₁) hput₂

/-- Whatever the thread has cached, a constructor that returns leaves a stream in its array and
keeps the name of the file. -/
theorem newImpl_inv {level : LogLevel} {savedErrno line : IntType.int.Value} {file : SourceFile}
    (hnew : newImpl strerror_tl gettid r level savedErrno file line t = .ok (t', logger)) :
    logger.stream_.Inv ∧ logger.basename_ = file := by
  obtain ⟨⟨t₁, s₁⟩, htime, hnew⟩ := bind_eq_ok_iff.mp hnew
  obtain ⟨t₂, -, hnew⟩ := bind_eq_ok_iff.mp hnew
  obtain ⟨s₂, hput₂, hnew⟩ := bind_eq_ok_iff.mp hnew
  obtain ⟨s₃, hput₃, hnew⟩ := bind_eq_ok_iff.mp hnew
  have hinv₃ : s₃.Inv := LogStream.putT_inv (LogStream.putT_inv
    (formatTime_inv (LogStream.new_inv r.data_) htime) hput₂) hput₃
  by_cases herrno : savedErrno.val ≠ 0
  · rw [if_pos herrno] at hnew
    obtain ⟨s₄, hall, hnew⟩ := bind_eq_ok_iff.mp hnew
    cases hnew
    exact ⟨LogStream.putAll_inv hinv₃ hall, rfl⟩
  · rw [if_neg herrno] at hnew
    cases hnew
    exact ⟨hinv₃, rfl⟩

theorem new_inv (hnew : new strerror_tl gettid r t = .ok (t', logger)) :
    logger.stream_.Inv ∧ logger.basename_ = r.args.file := by
  unfold new at hnew
  cases hargs : r.args with
  | info file line =>
      rw [hargs] at hnew
      exact newImpl_inv hnew
  | level file line level =>
      rw [hargs] at hnew
      exact newImpl_inv hnew
  | toAbort file line toAbort errno =>
      rw [hargs] at hnew
      exact newImpl_inv hnew
  | func file line level func =>
      rw [hargs] at hnew
      obtain ⟨⟨t₁, logger₁⟩, himpl, hnew⟩ := bind_eq_ok_iff.mp hnew
      obtain ⟨s, hall, hnew⟩ := bind_eq_ok_iff.mp hnew
      obtain ⟨hinv, hfile⟩ := newImpl_inv himpl
      cases hnew
      exact ⟨LogStream.putAll_inv hinv hall, hfile⟩

end Logger

/-- A log record ends its line if the user leaves room.  Whichever items are streamed into a
logger, the bytes that `~Logger` passes on end with a newline exactly if it fits behind the base
name. -/
theorem record_ends_line_iff (strerror_tl : Int → List UInt8) {gettid : Int} {r : Record}
    {t t' : ThreadLocals} {logger : Logger}
    (hnew : Logger.new strerror_tl gettid r t = .ok (t', logger)) :
    ∃ s msg aborted, logger.stream_.putAll r.items = .ok s ∧
      Logger.emit strerror_tl gettid r t = .ok (t', msg, aborted) ∧
      (msg.getLast? = some 10 ↔ NewlineFits s r.args.file) := by
  obtain ⟨hinv, hfile⟩ := Logger.new_inv hnew
  obtain ⟨s, hall, hinv', -⟩ := LogStream.putAll_extends hinv r.items
  obtain ⟨msg, hdestroy, hnewline⟩ := @Logger.destroy_newline_iff { logger with stream_ := s } hinv'
  refine ⟨s, msg, decide (logger.level_ = .FATAL), hall, ?_, hfile ▸ hnewline⟩
  rw [Logger.emit_of_new hnew hall, hdestroy, ok_bind]

theorem record_ends_line_iff_hello : ∃ t' logger s msg aborted,
    Logger.new (fun _ => []) 4242 (logInfo [.string (ascii "hello"), .char 32]) .initial =
        .ok (t', logger) ∧
      logger.stream_.putAll [.string (ascii "hello"), .char 32] = .ok s ∧
      Logger.emit (fun _ => []) 4242 (logInfo [.string (ascii "hello"), .char 32]) .initial =
        .ok (t', msg, aborted) ∧
      (msg.getLast? = some 10 ↔ NewlineFits s (logInfo []).args.file) := by
  obtain ⟨t', logger, hnew, -⟩ := @Logger.new_eq 4242
    (logInfo [.string (ascii "hello"), .char 32]) .initial (fun _ => [])
    (ThreadLocals.initial_coherent 4242) (by decide) (by decide) (logInfo_inRange _)
  obtain ⟨s, msg, aborted, hall, hemit, hnewline⟩ := record_ends_line_iff (fun _ => []) hnew
  exact ⟨t', logger, s, msg, aborted, hnew, hall, hemit, hnewline⟩

/-- A text of 3961 characters leaves one byte behind the head. -/
theorem logInfo_filled {text : List UInt8} (hlength : text.length = 3961)
    (hends : text.getLast? ≠ some 10) : ∃ t msg aborted,
      Logger.emit (fun _ => []) 4242 (logInfo [.string text]) .initial = .ok (t, msg, aborted) ∧
        msg.getLast? ≠ some 10 := by
  obtain ⟨t, logger, hnew, -, hinv, -, -, hhead⟩ := @Logger.newImpl_eq 4242
    (logInfo [.string text]) .initial (fun _ => []) (ThreadLocals.initial_coherent 4242)
    (by decide) (by decide) (logInfo_inRange _) Logger.noErrno (logInfo []).args.file
    (logInfo []).args.line
  change Logger.new (fun _ => []) 4242 (logInfo [.string text]) .initial = _ at hnew
  have hfile := (Logger.new_inv hnew).2
  obtain ⟨s, hput, hinv', hcase⟩ := LogStream.put_avail hinv (.string text)
  have havail : logger.stream_.avail = 3962 := by
    rw [hinv.avail_eq.1, hhead rfl]
    rfl
  simp only [Item.needs, Item.text] at hcase
  obtain ⟨-, hcontents, hone⟩ := hcase.resolve_right (fun hnot => by omega)
  have hne : text ≠ [] := List.ne_nil_of_length_pos (by omega)
  have hlast : s.contents.getLast? ≠ some 10 := by
    rw [hcontents, List.getLast?_append_of_ne_nil _ hne]
    exact hends
  have hall : logger.stream_.putAll [.string text] = .ok s := by
    rw [LogStream.putAll, List.foldlM_cons, hput]
    rfl
  obtain ⟨msg, hdestroy, hnewline⟩ := @Logger.destroy_newline_iff { logger with stream_ := s } hinv'
  refine ⟨t, msg, decide (logger.level_ = .FATAL), ?_, ?_⟩
  · rw [Logger.emit_of_new hnew hall, hdestroy, ok_bind]
  · have hbasename : logger.basename_.toSizeT = 7 := by
      rw [hfile]
      exact (by decide : mainFile.toSizeT = 7)
    have hroom : roomBehind (roomBehind s.avail 3) 7 = 1 ∧ ¬ 7 < roomBehind s.avail 3 := by
      rw [hone, havail, hlength]
      decide
    rw [ne_eq, hnewline, NewlineFits, hbasename, hroom.1, if_neg (fun hfits => hroom.2 hfits.2)]
    rintro (hthree | ⟨-, -, hnewline⟩)
    · exact absurd hthree (by decide)
    · exact hlast hnewline

theorem full_record_has_no_newline : ∃ t msg aborted,
    Logger.emit (fun _ => []) 4242 (logInfo [.string (List.replicate 3961 120)]) .initial =
        .ok (t, msg, aborted) ∧ msg.getLast? ≠ some 10 :=
  logInfo_filled List.length_replicate (by rw [List.getLast?_replicate]; decide)

end Muduo.Base
