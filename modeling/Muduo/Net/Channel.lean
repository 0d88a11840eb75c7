/-
  Net/Channel.lean --- the interest set of a `Channel`
  (src/muduo/net/Channel.h, Channel.cc).

  `events_` is an `int` of `poll(2)` flags; the `enable*`/`disable*` methods set
  and clear bits of it and pass the result to the poller.  What the poller reports
  comes back as `revents_`, and `handleEventWithGuard` calls the callbacks for it.
-/
import Mathlib.Tactic.Common
import Muduo.Foundation.Exec

set_option autoImplicit false

namespace Muduo.Net

open Muduo.Foundation

/-! ## `poll(2)` flags -/

/-- There is something to read. -/
def POLLIN : BitVec 32 := 0x001#32

/-- There is urgent data. -/
def POLLPRI : BitVec 32 := 0x002#32

/-- Something can be written. -/
def POLLOUT : BitVec 32 := 0x004#32

/-- There is an error. -/
def POLLERR : BitVec 32 := 0x008#32

/-- The connection is hung up. -/
def POLLHUP : BitVec 32 := 0x010#32

/-- The descriptor is not open. -/
def POLLNVAL : BitVec 32 := 0x020#32

/-- The other end has shut down its write side. -/
def POLLRDHUP : BitVec 32 := 0x2000#32

/-- `class Channel`: the descriptor and the events it asks for. -/
structure Channel where
  fd_ : Int
  events_ : BitVec 32
  deriving DecidableEq, Repr

namespace Channel

/-- `Channel::kNoneEvent`. -/
def kNoneEvent : BitVec 32 := 0#32

/-- `Channel::kReadEvent`. -/
def kReadEvent : BitVec 32 := POLLIN ||| POLLPRI

/-- `Channel::kWriteEvent`. -/
def kWriteEvent : BitVec 32 := POLLOUT

/-- `Channel(loop, fd)`: no events are requested. -/
def new (fd : Int) : Channel := ⟨fd, kNoneEvent⟩

/-- `enableReading()`, without `update()`. -/
def enableReading (ch : Channel) : Channel := { ch with events_ := ch.events_ ||| kReadEvent }

/-- `enableWriting()`. -/
def enableWriting (ch : Channel) : Channel := { ch with events_ := ch.events_ ||| kWriteEvent }

/-- `disableWriting()`. -/
def disableWriting (ch : Channel) : Channel := { ch with events_ := ch.events_ &&& ~~~kWriteEvent }

/-- `disableAll()`. -/
def disableAll (ch : Channel) : Channel := { ch with events_ := kNoneEvent }

/-- `isNoneEvent()`. -/
def isNoneEvent (ch : Channel) : Bool := ch.events_ == kNoneEvent

/-- `isWriting()`. -/
def isWriting (ch : Channel) : Bool := ch.events_ &&& kWriteEvent != 0#32

/-- Call a callback if some flag is set. -/
def callIf {σ : Type} (p : Prop) [Decidable p] (callback : σ → Exec σ) (s : σ) : Exec σ :=
  if p then callback s else .ok s

theorem callIf_of {σ : Type} {p : Prop} [Decidable p] (h : p) (callback : σ → Exec σ) (s : σ) :
    callIf p callback s = callback s :=
  if_pos h

theorem callIf_of_not {σ : Type} {p : Prop} [Decidable p] (h : ¬ p) (callback : σ → Exec σ)
    (s : σ) :
    callIf p callback s = .ok s :=
  if_neg h

/-- `handleEventWithGuard` for the given `revents_`, with the callbacks of the owner of
the channel. -/
def handleEventWithGuard {σ : Type} (revents_ : BitVec 32)
    (closeCallback_ errorCallback_ readCallback_ writeCallback_ : σ → Exec σ) (s : σ) : Exec σ := do
  let s ← callIf (revents_ &&& POLLHUP ≠ 0#32 ∧ revents_ &&& POLLIN = 0#32) closeCallback_ s
  let s ← callIf (revents_ &&& (POLLERR ||| POLLNVAL) ≠ 0#32) errorCallback_ s
  let s ← callIf (revents_ &&& (POLLIN ||| POLLPRI ||| POLLRDHUP) ≠ 0#32) readCallback_ s
  callIf (revents_ &&& POLLOUT ≠ 0#32) writeCallback_ s

/-- A callback that is not set. -/
theorem callIf_ok {σ : Type} {p : Prop} [Decidable p] (s : σ) : callIf p .ok s = .ok s :=
  ite_self _

theorem callIf_invariant {σ : Type} {p : Prop} [Decidable p] {callback : σ → Exec σ} {P : σ → Prop}
    (h : ∀ s s', P s → callback s = .ok s' → P s') {s s' : σ} (hs : P s)
    (hcall : callIf p callback s = .ok s') : P s' := by
  unfold callIf at hcall
  split at hcall
  · exact h s s' hs hcall
  · exact Except.ok.inj hcall ▸ hs

/-- A callback that is not called leaves the state as it is. -/
theorem callIf_succeeds {σ : Type} {p : Prop} [Decidable p] (callback : σ → Exec σ) (P : σ → Prop)
    {s : σ} (hs : P s) (h : p → ∃ s', callback s = .ok s' ∧ P s') :
    ∃ s', callIf p callback s = .ok s' ∧ P s' := by
  by_cases hp : p
  · rw [callIf_of hp]
    exact h hp
  · exact ⟨s, callIf_of_not hp callback s, hs⟩

/-- What every callback preserves, an event preserves. -/
theorem handleEventWithGuard_invariant {σ : Type} {revents_ : BitVec 32}
    {closeCallback_ errorCallback_ readCallback_ writeCallback_ : σ → Exec σ} (P : σ → Prop)
    (hclose : ∀ s s', P s → closeCallback_ s = .ok s' → P s')
    (herror : ∀ s s', P s → errorCallback_ s = .ok s' → P s')
    (hread : ∀ s s', P s → readCallback_ s = .ok s' → P s')
    (hwrite : ∀ s s', P s → writeCallback_ s = .ok s' → P s') {s s' : σ} (hs : P s)
    (h : handleEventWithGuard revents_ closeCallback_ errorCallback_ readCallback_
    writeCallback_ s =
      .ok s') : P s' := by
  obtain ⟨s₁, hs₁, h⟩ := bind_eq_ok_iff.mp h
  obtain ⟨s₂, hs₂, h⟩ := bind_eq_ok_iff.mp h
  obtain ⟨s₃, hs₃, h⟩ := bind_eq_ok_iff.mp h
  have h₁ := callIf_invariant hclose hs hs₁
  have h₂ := callIf_invariant herror h₁ hs₂
  have h₃ := callIf_invariant hread h₂ hs₃
  exact callIf_invariant hwrite h₃ h

/-- When only assertions fail in the callbacks, only assertions fail in an event. -/
theorem handleEventWithGuard_assertsOnly {σ : Type} {revents_ : BitVec 32}
    {closeCallback_ errorCallback_ readCallback_ writeCallback_ : σ → Exec σ} (P : σ → Prop)
    (hclose : ∀ s, P s → AssertsOnly (closeCallback_ s) ∧ ∀ s', closeCallback_ s = .ok s' → P s')
    (herror : ∀ s, P s → AssertsOnly (errorCallback_ s) ∧ ∀ s', errorCallback_ s = .ok s' → P s')
    (hread : ∀ s, P s → AssertsOnly (readCallback_ s) ∧ ∀ s', readCallback_ s = .ok s' → P s')
    (hwrite : ∀ s, P s → AssertsOnly (writeCallback_ s) ∧ ∀ s', writeCallback_ s = .ok s' → P s')
    {s : σ} (hs : P s) : AssertsOnly (handleEventWithGuard revents_ closeCallback_ errorCallback_
      readCallback_ writeCallback_ s) := by
  have hcall : ∀ {p : Prop} [Decidable p] {callback : σ → Exec σ} {s : σ}, P s →
      (∀ s, P s → AssertsOnly (callback s) ∧ ∀ s', callback s = .ok s' → P s') →
      AssertsOnly (callIf p callback s) := by
    intro p _ callback s hs hcallback
    unfold callIf
    split
    · exact (hcallback s hs).1
    · exact assertsOnly_ok s
  refine (hcall hs hclose).bind fun s₁ hs₁ => ?_
  have h₁ := callIf_invariant (fun s s' hs => (hclose s hs).2 s') hs hs₁
  refine (hcall h₁ herror).bind fun s₂ hs₂ => ?_
  have h₂ := callIf_invariant (fun s s' hs => (herror s hs).2 s') h₁ hs₂
  refine (hcall h₂ hread).bind fun s₃ hs₃ => ?_
  exact hcall (callIf_invariant (fun s s' hs => (hread s hs).2 s') h₂ hs₃) hwrite

theorem isNoneEvent_iff {ch : Channel} : ch.isNoneEvent = true ↔ ch.events_ = 0#32 := by
  simp [isNoneEvent, kNoneEvent]

/-! ## How the operations change `isWriting` -/

@[simp] theorem isWriting_new (fd : Int) : (Channel.new fd).isWriting = false := by
  simp [isWriting, new, kNoneEvent]

@[simp] theorem isWriting_enableWriting (ch : Channel) : ch.enableWriting.isWriting = true := by
  have habsorb : (ch.events_ ||| kWriteEvent) &&& kWriteEvent = kWriteEvent := by
    ext i hi
    simp only [BitVec.getElem_and, BitVec.getElem_or]
    cases kWriteEvent[i] <;> simp
  simp only [isWriting, enableWriting, habsorb]
  decide

@[simp] theorem isWriting_disableWriting (ch : Channel) : ch.disableWriting.isWriting = false := by
  simp [isWriting, disableWriting, BitVec.and_assoc]

@[simp] theorem isWriting_disableAll (ch : Channel) : ch.disableAll.isWriting = false := by
  simp [isWriting, disableAll, kNoneEvent]

@[simp] theorem isWriting_enableReading (ch : Channel) :
    ch.enableReading.isWriting = ch.isWriting := by
  have hdisjoint : kReadEvent &&& kWriteEvent = 0#32 := by decide
  have hkeep : (ch.events_ ||| kReadEvent) &&& kWriteEvent = ch.events_ &&& kWriteEvent := by
    ext i hi
    have hbit : (kReadEvent &&& kWriteEvent)[i] = false := by simp [hdisjoint]
    simp only [BitVec.getElem_and, BitVec.getElem_or] at hbit ⊢
    rw [Bool.and_or_distrib_right, hbit, Bool.or_false]
  simp only [isWriting, enableReading, hkeep]

/-! ## Asking for input -/

/-- The channel asks for `kReadEvent`. -/
def Reads (ch : Channel) : Prop := ch.events_ &&& kReadEvent = kReadEvent

theorem reads_enableReading (ch : Channel) : ch.enableReading.Reads := by
  unfold Reads enableReading
  ext i hi
  simp only [BitVec.getElem_and, BitVec.getElem_or]
  cases kReadEvent[i] <;> simp

theorem Reads.enableWriting {ch : Channel} (h : ch.Reads) : ch.enableWriting.Reads := by
  have hdisjoint : kWriteEvent &&& kReadEvent = 0#32 := by decide
  unfold Reads Channel.enableWriting
  ext i hi
  have hbit : (kWriteEvent &&& kReadEvent)[i] = false := by simp [hdisjoint]
  have hread : (ch.events_ &&& kReadEvent)[i] = kReadEvent[i] := by rw [h]
  simp only [BitVec.getElem_and, BitVec.getElem_or] at hbit hread ⊢
  rw [Bool.and_or_distrib_right, hbit, Bool.or_false, hread]

theorem Reads.disableWriting {ch : Channel} (h : ch.Reads) : ch.disableWriting.Reads := by
  have hkeep : ~~~kWriteEvent &&& kReadEvent = kReadEvent := by decide
  unfold Reads Channel.disableWriting
  rw [BitVec.and_assoc, hkeep]
  exact h

theorem Reads.isNoneEvent {ch : Channel} (h : ch.Reads) : ch.isNoneEvent = false := by
  have hne : kReadEvent ≠ 0#32 := by decide
  rw [Bool.eq_false_iff]
  intro hnone
  rw [isNoneEvent_iff] at hnone
  rw [Reads, hnone, BitVec.zero_and] at h
  exact hne h.symm

/-! ## What the poller reports -/

/-- The poller reports what the channel asks for, and errors and hang-ups. -/
def Reports (ch : Channel) (revents_ : BitVec 32) : Prop :=
  revents_ &&& ~~~(ch.events_ ||| (POLLERR ||| POLLHUP)) = 0#32

instance (ch : Channel) (revents_ : BitVec 32) : Decidable (ch.Reports revents_) :=
  inferInstanceAs (Decidable (_ = _))

/-- A channel that asks for nothing hears of errors and hang-ups only. -/
theorem Reports.of_none {ch : Channel} {revents_ flags : BitVec 32} (h : ch.Reports revents_)
    (hnone : ch.events_ = 0#32) (hflags : (POLLERR ||| POLLHUP) &&& flags = 0#32) :
    revents_ &&& flags = 0#32 := by
  unfold Reports at h
  rw [hnone, BitVec.zero_or] at h
  ext i hi
  have hbit : (revents_ &&& ~~~(POLLERR ||| POLLHUP))[i] = false := by simp [h]
  have hflag : ((POLLERR ||| POLLHUP) &&& flags)[i] = false := by simp [hflags]
  rw [BitVec.getElem_and, BitVec.getElem_not] at hbit
  rw [BitVec.getElem_and] at hflag
  rw [BitVec.getElem_and, BitVec.getElem_zero]
  cases hr : revents_[i] <;> cases hp : (POLLERR ||| POLLHUP)[i] <;> simp_all

end Channel

end Muduo.Net
