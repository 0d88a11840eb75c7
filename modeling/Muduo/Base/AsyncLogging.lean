/-
  Base/AsyncLogging.lean --- `AsyncLogging` (src/muduo/base/AsyncLogging.h,
  AsyncLogging.cc) and `FixedBuffer` (src/muduo/base/LogStream.h).

  Any threads call `append`; one back-end thread collects the buffers and writes them to
  the log file.  Everything under the mutex is one step.  The back end is cut at the
  points where it is outside of the mutex: at the head of its loop, in front of the lock,
  in the wait, and between the writes.  The wait ends by a notification, by its timeout or
  for no reason, so at any time.

  A `Buffer*` is an address; `heap` has the buffers that are alive.  `BufferPtr` and
  `BufferVector` own what they point to: the references move, and what they drop is
  deleted.
-/
import Muduo.Foundation.Machine
import Muduo.Foundation.Ownership

set_option autoImplicit false

namespace Muduo.Base

open Muduo.Foundation

/-! ## Buffers -/

/-- `FixedBuffer<SIZE>`: the bytes of `data_` up to `cur_`. -/
structure FixedBuffer (SIZE : Nat) where
  data : List UInt8
  deriving DecidableEq, Repr

namespace FixedBuffer

variable {SIZE : Nat}

/-- An empty buffer. -/
def new : FixedBuffer SIZE := ⟨[]⟩

/-- `length()`. -/
def length (b : FixedBuffer SIZE) : Nat := b.data.length

/-- `avail()`. -/
def avail (b : FixedBuffer SIZE) : Nat := SIZE - b.length

/-- `append(buf, len)`: nothing is copied when there is no room. -/
def append (b : FixedBuffer SIZE) (buf : List UInt8) : FixedBuffer SIZE :=
  if buf.length < b.avail then ⟨b.data ++ buf⟩ else b

/-- `reset()`. -/
def reset (_ : FixedBuffer SIZE) : FixedBuffer SIZE := ⟨[]⟩

end FixedBuffer

/-- `detail::kLargeBuffer`. -/
def kLargeBuffer : Nat := 4000 * 1000

/-- The `Buffer` of `AsyncLogging`. -/
abbrev LargeBuffer : Type := FixedBuffer kLargeBuffer

/-! ## `class AsyncLogging` -/

/-- What was written to the log file. -/
inductive LogEntry where
  /-- the message about dropped buffers, with their number -/
  | notice (count : Nat)
  | data (bytes : List UInt8)
  deriving DecidableEq, Repr

/-- Where the back end is. -/
inductive BackEnd where
  | constructed
  /-- `start()` was called, and waits for the latch -/
  | starting
  /-- past the latch, before its two buffers are allocated -/
  | preparing
  /-- at the head of the loop -/
  | testing
  /-- in front of the lock -/
  | locking
  /-- in `waitForSeconds` -/
  | waiting
  /-- behind the lock -/
  | swapped
  /-- in the loop of writes, with the number of buffers written -/
  | writing (i : Nat)
  | done
  deriving DecidableEq, Repr

/-- `class AsyncLogging`, with the back end and the histories. -/
structure AsyncLogging where
  heap : Nat → Option LargeBuffer
  running_ : Bool
  currentBuffer_ : Option Nat
  nextBuffer_ : Option Nat
  buffers_ : List Nat
  /-- the back end and its local variables -/
  pc : BackEnd
  newBuffer1 : Option Nat
  newBuffer2 : Option Nat
  buffersToWrite : List Nat
  output : List LogEntry
  /-- the lines so far, in the order in which `append` had the mutex -/
  appended : List (List UInt8)
  /-- the buffers that were dropped: how many the cycle had found, and the contents -/
  discarded : List (Nat × List UInt8)

namespace AsyncLogging

/-- `AsyncLogging(...)`; the two buffers get the given addresses. -/
def new (current next : Nat) : AsyncLogging where
  heap := Function.update (Function.update (fun _ => none) next (some .new)) current (some .new)
  running_ := false
  currentBuffer_ := some current
  nextBuffer_ := some next
  buffers_ := []
  pc := .constructed
  newBuffer1 := none
  newBuffer2 := none
  buffersToWrite := []
  output := []
  appended := []
  discarded := []

/-- Access to a buffer through a pointer. -/
def deref (s : AsyncLogging) (p : Option Nat) : Exec (Nat × LargeBuffer) :=
  match p with
  | none => .error .outOfBounds
  | some a =>
      match s.heap a with
      | none => .error .outOfBounds
      | some b => .ok (a, b)

/-- Change the buffer at an address. -/
def store (s : AsyncLogging) (a : Nat) (b : LargeBuffer) : AsyncLogging :=
  { s with heap := Function.update s.heap a (some b) }

/-- `currentBuffer_->append(logline, len)`. -/
def appendCurrent (s : AsyncLogging) (logline : List UInt8) : Exec AsyncLogging := do
  let (a, current) ← s.deref s.currentBuffer_
  .ok (s.store a (current.append logline))

/-- `append(logline, len)`; a new buffer gets the address `fresh`. -/
def append (s : AsyncLogging) (logline : List UInt8) (fresh : Nat) : Exec AsyncLogging := do
  let (a, current) ← s.deref s.currentBuffer_
  let s ←
    if logline.length < current.avail then s.appendCurrent logline
    else
      let s := { s with buffers_ := s.buffers_ ++ [a] }
      match s.nextBuffer_ with
      | some next =>
          let s := { s with currentBuffer_ := some next, nextBuffer_ := none }
          s.appendCurrent logline
      | none =>
          let s := { s.store fresh FixedBuffer.new with currentBuffer_ := some fresh }
          s.appendCurrent logline
  .ok { s with appended := s.appended ++ [logline] }

/-- The part of the loop under the mutex, behind the wait. -/
def swapBuffers (s : AsyncLogging) : Exec AsyncLogging := do
  let (a, _) ← s.deref s.currentBuffer_
  let buffers := s.buffers_ ++ [a]
  let s := { s with
    currentBuffer_ := s.newBuffer1
    newBuffer1 := none
    buffersToWrite := buffers
    buffers_ := s.buffersToWrite
    pc := .swapped }
  match s.nextBuffer_ with
  | some _ => .ok s
  | none => .ok { s with nextBuffer_ := s.newBuffer2, newBuffer2 := none }

/-- The assertion that a spare buffer is there and empty. -/
def assertSpare (s : AsyncLogging) (p : Option Nat) : Exec Unit := do
  assertThat (p ≠ none)
  let (_, b) ← s.deref p
  assertThat (b.length = 0)

/-- The end of `threadFunc`: its variables are destroyed, with the buffers they own. -/
def leave (s : AsyncLogging) : AsyncLogging :=
  { s with
    heap := free s.heap (s.buffersToWrite ++ s.newBuffer1.toList ++ s.newBuffer2.toList)
    newBuffer1 := none
    newBuffer2 := none
    buffersToWrite := []
    pc := .done }

/-- The head of the loop. -/
def test (s : AsyncLogging) : Exec AsyncLogging :=
  if s.running_ then do
    s.assertSpare s.newBuffer1
    s.assertSpare s.newBuffer2
    assertThat (s.buffersToWrite = [])
    .ok { s with pc := .locking }
  else .ok s.leave

/-- Under the mutex: wait when there is no full buffer, or go on. -/
def lock (s : AsyncLogging) : Exec AsyncLogging :=
  if s.buffers_ = [] then .ok { s with pc := .waiting } else s.swapBuffers

/-- When there are too many buffers, only the first two are kept. -/
def dropExcess (s : AsyncLogging) : Exec AsyncLogging := do
  assertThat (s.buffersToWrite ≠ [])
  let found := s.buffersToWrite.length
  if 25 < found then
    let dropped := s.buffersToWrite.drop 2
    .ok { s with
      output := s.output ++ [.notice (found - 2)]
      discarded := s.discarded ++ (contents s.heap dropped).map fun b => (found, b.data)
      heap := free s.heap dropped
      buffersToWrite := s.buffersToWrite.take 2
      pc := .writing 0 }
  else .ok { s with pc := .writing 0 }

/-- `output.append(buffersToWrite[i].data(), buffersToWrite[i].length())`. -/
def write (s : AsyncLogging) (i : Nat) : Exec AsyncLogging := do
  let (_, b) ← s.deref s.buffersToWrite[i]?
  .ok { s with output := s.output ++ [.data b.data], pc := .writing (i + 1) }

/-- `buffersToWrite.resize(2)` when there are more. -/
def keepTwo (s : AsyncLogging) : AsyncLogging :=
  if 2 < s.buffersToWrite.length then
    { s with
      heap := free s.heap (s.buffersToWrite.drop 2)
      buffersToWrite := s.buffersToWrite.take 2 }
  else s

/-- `newBuffer = buffersToWrite.pop_back(); newBuffer->reset()`. -/
def popReset (s : AsyncLogging) : Exec (Nat × AsyncLogging) := do
  assertThat (s.buffersToWrite ≠ [])
  let (a, b) ← s.deref s.buffersToWrite.getLast?
  .ok (a, { s.store a b.reset with buffersToWrite := s.buffersToWrite.dropLast })

/-- `if (!newBuffer1)`. -/
def refill1 (s : AsyncLogging) : Exec AsyncLogging :=
  match s.newBuffer1 with
  | some _ => .ok s
  | none => do
      let (a, s) ← s.popReset
      .ok { s with newBuffer1 := some a }

/-- `if (!newBuffer2)`. -/
def refill2 (s : AsyncLogging) : Exec AsyncLogging :=
  match s.newBuffer2 with
  | some _ => .ok s
  | none => do
      let (a, s) ← s.popReset
      .ok { s with newBuffer2 := some a }

/-- The end of the loop: the back end takes back its spare buffers. -/
def recycle (s : AsyncLogging) : Exec AsyncLogging := do
  let s ← s.keepTwo.refill1
  let s ← s.refill2
  .ok { s with heap := free s.heap s.buffersToWrite, buffersToWrite := [], pc := .testing }

/-! ## The threads -/

/-- A step of a front end, of the back end or of the owner. -/
inductive Action where
  | append (logline : List UInt8) (fresh : Nat)
  | start
  /-- the new thread passes its first assertion and the latch -/
  | begin
  /-- the back end allocates its two buffers -/
  | prepare (buffer1 buffer2 : Nat)
  | test
  | lock
  /-- the wait ends -/
  | wake
  | dropExcess
  | write
  | recycle
  /-- `stop()`, up to `join()` -/
  | stop
  deriving DecidableEq, Repr

/-- What a step does. -/
def step (s : AsyncLogging) : Action → Exec AsyncLogging
  | .append logline fresh => s.append logline fresh
  | .start => .ok { s with running_ := true, pc := .starting }
  | .begin => do
      assertThat (s.running_ = true)
      .ok { s with pc := .preparing }
  | .prepare buffer1 buffer2 =>
      .ok { (s.store buffer1 FixedBuffer.new).store buffer2 FixedBuffer.new with
        newBuffer1 := some buffer1
        newBuffer2 := some buffer2
        pc := .testing }
  | .test => s.test
  | .lock => s.lock
  | .wake => s.swapBuffers
  | .dropExcess => s.dropExcess
  | .write =>
      match s.pc with
      | .writing i => s.write i
      | _ => .ok s
  | .recycle => s.recycle
  | .stop => .ok { s with running_ := false }

/-- The back end is in its loop of writes, and has more to write. -/
def more (s : AsyncLogging) : Bool :=
  match s.pc with
  | .writing i => i < s.buffersToWrite.length
  | _ => false

/-- The back end has written everything. -/
def through (s : AsyncLogging) : Bool :=
  match s.pc with
  | .writing i => s.buffersToWrite.length ≤ i
  | _ => false

/-- What the threads and the allocator may do.  Lines are shorter than a buffer, and
`stop()` is called once, after `start()` has returned. -/
def Legal (s : AsyncLogging) : Action → Prop
  | .append logline fresh => logline.length < kLargeBuffer ∧ s.heap fresh = none
  | .start => s.pc = .constructed
  | .begin => s.pc = .starting
  | .prepare buffer1 buffer2 =>
      s.pc = .preparing ∧ s.heap buffer1 = none ∧ s.heap buffer2 = none ∧ buffer1 ≠ buffer2
  | .test => s.pc = .testing
  | .lock => s.pc = .locking
  | .wake => s.pc = .waiting
  | .dropExcess => s.pc = .swapped
  | .write => s.more = true
  | .recycle => s.through = true
  | .stop => s.running_ = true ∧ s.pc ≠ .starting

instance decidableLegal (s : AsyncLogging) : ∀ a, Decidable (Legal s a)
  | .append _ _ => inferInstanceAs (Decidable (_ ∧ _))
  | .start => inferInstanceAs (Decidable (_ = _))
  | .begin => inferInstanceAs (Decidable (_ = _))
  | .prepare _ _ => inferInstanceAs (Decidable (_ ∧ _ ∧ _ ∧ _))
  | .test => inferInstanceAs (Decidable (_ = _))
  | .lock => inferInstanceAs (Decidable (_ = _))
  | .wake => inferInstanceAs (Decidable (_ = _))
  | .dropExcess => inferInstanceAs (Decidable (_ = _))
  | .write => inferInstanceAs (Decidable (_ = _))
  | .recycle => inferInstanceAs (Decidable (_ = _))
  | .stop => inferInstanceAs (Decidable (_ ∧ _))

/-- The threads in any order. -/
def machine : Machine AsyncLogging Action := ⟨step, Legal⟩

instance (s : AsyncLogging) (a : Action) : Decidable (machine.legal s a) :=
  decidableLegal s a

end AsyncLogging

end Muduo.Base
