/-
  Net/WaterMark.lean --- the flow-control callbacks of a connection
  (src/muduo/net/TcpConnection.cc, `sendInLoop` and `handleWrite`).

  `highWaterMarkCallback_` tells the user that the backlog has grown too long, and
  `writeCompleteCallback_` that it is gone.  The source queues them in three places,
  each with a test of its own.  `notifications` says what the user is owed for a
  step, looking only at the backlog and at the system calls before and after it;
  `notifications_mirror_backlog` says that this is what is queued, at every step of
  every run.

  A step is described by what it queues (`Emits`), and the descriptions of the
  halves of `sendInLoop` and `handleWrite` are put together by `Emits.trans`.
-/
import Muduo.Net.TcpStream

set_option autoImplicit false

namespace Muduo.Net.WaterMark

open Muduo.Foundation TcpConnection

/-! ## What the user is owed -/

/-- The system calls made between two states of a connection. -/
def callsMade (c c' : TcpConnection) : List SockCall :=
  c'.socket_.calls.drop c.socket_.calls.length

/-- A `write` that took bytes, or that was given none and succeeded. -/
def handsOver : SockCall → Bool
  | .write data (.wrote n) => decide (0 < n) || data.isEmpty
  | .write _ (.failed _) => false
  | .shutdownWrite _ => false

/-- The backlog was below the high-water mark and no longer is. -/
def Raises (c c' : TcpConnection) : Prop :=
  c.outputBuffer_.readableBytes < c.highWaterMark_ ∧
    c.highWaterMark_ ≤ c'.outputBuffer_.readableBytes

/-- Something was handed to the kernel, which now has all bytes `sent` so far. -/
def Completes (sent : List UInt8) (c c' : TcpConnection) : Prop :=
  (callsMade c c').any handsOver = true ∧ c'.socket_.accepted = sent

instance (c c' : TcpConnection) : Decidable (Raises c c') := inferInstanceAs (Decidable (_ ∧ _))

instance (sent : List UInt8) (c c' : TcpConnection) : Decidable (Completes sent c c') :=
  inferInstanceAs (Decidable (_ ∧ _))

/-- The callbacks that are due for a step from `c` to `c'`, when the user has sent
the bytes `sent` up to then. -/
def notifications (sent : List UInt8) (c c' : TcpConnection) : List ConnFunctor :=
  (if Completes sent c c' then [.writeCompleteCallback] else []) ++
    (if Raises c c' then [.highWaterMarkCallback c'.outputBuffer_.readableBytes] else [])

/-- No callback is due for a step that hands nothing to the kernel and does not
change the backlog. -/
theorem notifications_of_quiet {sent : List UInt8} {c c' : TcpConnection}
    (hcalls : (callsMade c c').any handsOver = false)
    (hbacklog : c'.outputBuffer_ = c.outputBuffer_) : notifications sent c c' = [] := by
  have hcompletes : ¬ Completes sent c c' := by
    rintro ⟨h, _⟩
    rw [hcalls] at h
    exact absurd h (by simp)
  have hraises : ¬ Raises c c' := by
    rintro ⟨hlt, hle⟩
    rw [hbacklog] at hle
    omega
  rw [notifications, if_neg hcompletes, if_neg hraises, List.append_nil]

theorem callsMade_of_eq {c c' : TcpConnection} (h : c'.socket_ = c.socket_) :
    callsMade c c' = [] := by
  rw [callsMade, h, List.drop_length]

theorem callsMade_of_append {c c' : TcpConnection} {calls : List SockCall}
    (h : c'.socket_.calls = c.socket_.calls ++ calls) : callsMade c c' = calls := by
  rw [callsMade, h, List.drop_left]

/-- The kernel has the whole stream when nothing waits in the buffer. -/
theorem accepted_eq_stream_iff (c : TcpConnection) :
    c.socket_.accepted = c.stream ↔ c.outputBuffer_.contents = [] := by
  rw [stream]
  simp

/-! ## What the code queues -/

/-- Both callbacks are set. -/
structure Watched (c : TcpConnection) : Prop where
  writeComplete : c.writeCompleteCallback_ = true
  highWaterMark : c.highWaterMarkCallback_ = true

/-- A part of a step queues the callbacks `queued` and leaves the settings alone. -/
structure Emits (c c' : TcpConnection) (queued : List ConnFunctor) : Prop where
  pending : c'.loop_.pendingFunctors_ = c.loop_.pendingFunctors_ ++ queued
  mark : c'.highWaterMark_ = c.highWaterMark_
  writeComplete : c'.writeCompleteCallback_ = c.writeCompleteCallback_
  highWaterMark : c'.highWaterMarkCallback_ = c.highWaterMarkCallback_

namespace Emits

variable {c c₁ c' : TcpConnection} {q q' : List ConnFunctor}

theorem of_same (hloop : c'.loop_ = c.loop_) (hmark : c'.highWaterMark_ = c.highWaterMark_)
    (hwrite : c'.writeCompleteCallback_ = c.writeCompleteCallback_)
    (hhigh : c'.highWaterMarkCallback_ = c.highWaterMarkCallback_) : Emits c c' [] :=
  ⟨by rw [hloop, List.append_nil], hmark, hwrite, hhigh⟩

theorem refl (c : TcpConnection) : Emits c c [] := of_same rfl rfl rfl rfl

theorem queueInLoop (c : TcpConnection) (cb : ConnFunctor) : Emits c (c.queueInLoop cb) [cb] :=
  ⟨rfl, rfl, rfl, rfl⟩

theorem trans (h : Emits c c₁ q) (h' : Emits c₁ c' q') : Emits c c' (q ++ q') :=
  ⟨by rw [h'.pending, h.pending, List.append_assoc], h'.mark.trans h.mark,
    h'.writeComplete.trans h.writeComplete, h'.highWaterMark.trans h.highWaterMark⟩

theorem watched (h : Emits c c' q) (hc : Watched c) : Watched c' :=
  ⟨h.writeComplete.trans hc.writeComplete, h.highWaterMark.trans hc.highWaterMark⟩

end Emits

section Operations

variable {c c' : TcpConnection}

/-! ### `sendInLoop` -/

/-- The direct write queues `writeCompleteCallback_` when it took the whole message. -/
theorem writeDirectly_emits (hwatched : Watched c) (hidle : c.channel_.isWriting = false)
    (hempty : c.outputBuffer_.readableBytes = 0) (data : List UInt8) (w : WriteResult) :
    Emits c (c.writeDirectly data w).1
      (if handsOver (.write data w) = true ∧
          (WriteAttempt.ofResult data.length w).remaining = 0 then
        [.writeCompleteCallback] else []) := by
  have hwrite : Emits c { c with socket_ := c.socket_.write data w } [] := .of_same rfl rfl rfl rfl
  cases w with
  | failed errno => simpa [writeDirectly, hidle, hempty, handsOver] using hwrite
  | wrote n =>
      by_cases hall : data.length - n = 0
      · have hhanded : handsOver (.write data (.wrote n)) = true := by
          simp only [handsOver, Bool.or_eq_true, decide_eq_true_eq, List.isEmpty_iff]
          by_cases hn : 0 < n
          · exact .inl hn
          · exact .inr (List.length_eq_zero_iff.mp (by omega))
        rw [if_pos ⟨hhanded, hall⟩]
        simpa [writeDirectly, hidle, hempty, WriteAttempt.ofResult, hall, hwatched.writeComplete]
          using hwrite.trans (.queueInLoop _ .writeCompleteCallback)
      · rw [if_neg (fun h => hall h.2)]
        simpa [writeDirectly, hidle, hempty, WriteAttempt.ofResult, hall] using hwrite

theorem checkHighWaterMark_emits (hwatched : Watched c) (remaining : Nat) :
    Emits c (c.checkHighWaterMark remaining)
      (if c.outputBuffer_.readableBytes < c.highWaterMark_ ∧
          c.highWaterMark_ ≤ c.outputBuffer_.readableBytes + remaining then
        [.highWaterMarkCallback (c.outputBuffer_.readableBytes + remaining)] else []) := by
  by_cases hcross : c.outputBuffer_.readableBytes < c.highWaterMark_ ∧
      c.highWaterMark_ ≤ c.outputBuffer_.readableBytes + remaining
  · rw [if_pos hcross]
    simpa [checkHighWaterMark, hcross.1, hcross.2, hwatched.highWaterMark]
      using Emits.queueInLoop c (.highWaterMarkCallback (c.outputBuffer_.readableBytes + remaining))
  · have hskip : c.checkHighWaterMark remaining = c := by
      simp only [checkHighWaterMark, Bool.and_eq_true, decide_eq_true_eq]
      rw [if_neg (fun h => hcross ⟨h.1.2, h.1.1⟩)]
    rw [if_neg hcross, hskip]
    exact .refl c

/-- The second half of `sendInLoop` queues `highWaterMarkCallback_` exactly when
what it buffers takes the backlog over the mark. -/
theorem bufferRest_emits (hwatched : Watched c) (hb : c.outputBuffer_.Inv) {data : List UInt8}
    {attempt : WriteAttempt} (hrem : attempt.remaining = data.length - attempt.nwrote)
    (herror : attempt.error = false) (h : c.bufferRest data attempt = .ok c') :
    Emits c c' (if Raises c c' then
      [.highWaterMarkCallback c'.outputBuffer_.readableBytes] else []) := by
  obtain ⟨c₁, hc₁, _, _, hinv, hcontents, _⟩ := bufferRest_spec hb data attempt hrem
  obtain rfl : c₁ = c' := Except.ok.inj (hc₁.symm.trans h)
  have hlength : c₁.outputBuffer_.readableBytes =
      c.outputBuffer_.readableBytes + attempt.remaining := by
    rw [← Buffer.contents_length hinv, ← Buffer.contents_length hb, hcontents, herror, hrem]
    simp
  have hraises : Raises c c₁ ↔ c.outputBuffer_.readableBytes < c.highWaterMark_ ∧
      c.highWaterMark_ ≤ c.outputBuffer_.readableBytes + attempt.remaining := by
    rw [Raises, hlength]
  rw [hlength, if_congr hraises rfl rfl]
  by_cases hgo : 0 < attempt.remaining
  · have hcheck := checkHighWaterMark_emits hwatched attempt.remaining
    simp only [bufferRest, herror, hgo, Bool.not_false, decide_true, Bool.and_self, if_true,
      bind_eq_ok_iff] at h
    obtain ⟨b, _, h⟩ := h
    split at h
    · obtain rfl := Except.ok.inj h
      exact ⟨hcheck.pending, hcheck.mark, hcheck.writeComplete, hcheck.highWaterMark⟩
    · obtain rfl := Except.ok.inj h
      exact ⟨hcheck.pending, hcheck.mark, hcheck.writeComplete, hcheck.highWaterMark⟩
  · have hskip : c.bufferRest data attempt = .ok c := by simp [bufferRest, hgo]
    obtain rfl : c = c₁ := Except.ok.inj (hskip.symm.trans h)
    rw [if_neg (by omega)]
    exact .refl c

/-- Behind a backlog nothing is written, and only the high-water mark matters. -/
theorem sendInLoop_emits_of_writing (hwatched : Watched c) (hc : c.OutputInv)
    (hlive : c.state_ ≠ .kDisconnected) (hwriting : c.channel_.isWriting = true)
    {data : List UInt8} {w : WriteResult} (hsocket : c'.socket_ = c.socket_)
    (h : c.sendInLoop data w = .ok c') (sent : List UInt8) :
    Emits c c' (notifications sent c c') := by
  simp only [sendInLoop, if_neg hlive] at h
  rw [writeDirectly_of_writing hwriting, assertThat_of (Nat.le_refl _), ok_bind] at h
  have hcompletes : ¬ Completes sent c c' := by
    rintro ⟨hcalls, _⟩
    rw [callsMade_of_eq hsocket] at hcalls
    exact absurd hcalls (by simp)
  rw [notifications, if_neg hcompletes]
  exact bufferRest_emits hwatched hc.buffer rfl rfl h

/-- With nothing buffered the message is written directly; what is left of it decides
between the two callbacks. -/
theorem sendInLoop_emits_of_idle (hwatched : Watched c) (hc : c.OutputInv)
    (hlive : c.state_ ≠ .kDisconnected) (hidle : c.channel_.isWriting = false)
    {data : List UInt8} {w : WriteResult} (hw : w.Possible data.length)
    (hpipe : w ≠ .failed .EPIPE) (hsocket : c'.socket_ = c.socket_.write data w)
    (h : c.sendInLoop data w = .ok c') : Emits c c' (notifications c'.stream c c') := by
  have hempty : c.outputBuffer_.readableBytes = 0 := by
    rw [← Buffer.contents_length hc.buffer, hc.contents_eq_nil hidle]
    rfl
  obtain ⟨c₁, hc₁, hq⟩ := writeDirectly_of_idle hc hidle data w
  obtain ⟨hrem, hok⟩ := WriteAttempt.ofResult_spec hw
  have hle : (WriteAttempt.ofResult data.length w).remaining ≤ data.length := by omega
  have hfirst := writeDirectly_emits hwatched hidle hempty data w
  simp only [sendInLoop, if_neg hlive] at h
  rw [hc₁] at hfirst h
  simp only [assertThat_of hle, ok_bind] at h
  have hbuffer : c₁.outputBuffer_ = c.outputBuffer_ := hq.outputBuffer
  have hinv₁ : c₁.outputBuffer_.Inv := hbuffer ▸ hc.buffer
  have hsecond := bufferRest_emits (hfirst.watched hwatched) hinv₁ hrem (hok hpipe).2 h
  have hraises : Raises c₁ c' ↔ Raises c c' := by
    rw [Raises, Raises, hbuffer, hfirst.mark]
  have hcompletes : Completes c'.stream c c' ↔
      handsOver (.write data w) = true ∧
        (WriteAttempt.ofResult data.length w).remaining = 0 := by
    obtain ⟨c₂, hc₂, _, _, _, hcontents, _⟩ := bufferRest_spec hinv₁ data _ hrem
    obtain rfl : c₂ = c' := Except.ok.inj (hc₂.symm.trans h)
    rw [hbuffer, hc.contents_eq_nil hidle, (hok hpipe).2] at hcontents
    rw [Completes, accepted_eq_stream_iff, hcontents, hrem,
      callsMade_of_append (by rw [hsocket]; rfl)]
    simp [Nat.sub_eq_zero_iff_le]
  rw [notifications, if_congr hcompletes rfl rfl, if_congr hraises.symm rfl rfl]
  exact hfirst.trans hsecond

/-- `sendInLoop` queues what is due. -/
theorem sendInLoop_emits (hwatched : Watched c) (hc : c.OutputInv)
    (hlive : c.state_ ≠ .kDisconnected) {data : List UInt8} {w : WriteResult}
    (hw : w.Possible data.length) (hpipe : w ≠ .failed .EPIPE)
    (h : c.sendInLoop data w = .ok c') : Emits c c' (notifications (c.stream ++ data) c c') := by
  obtain ⟨c₁, hc₁, _, _, hsocket, hstream⟩ := sendInLoop_spec hc hlive hw
  obtain rfl : c₁ = c' := Except.ok.inj (hc₁.symm.trans h)
  cases hwriting : c.channel_.isWriting with
  | true =>
      rw [hwriting, if_pos rfl] at hsocket
      exact sendInLoop_emits_of_writing hwatched hc hlive hwriting hsocket h _
  | false =>
      rw [hwriting, if_neg (by simp)] at hsocket
      rw [← hstream hpipe]
      exact sendInLoop_emits_of_idle hwatched hc hlive hwriting hw hpipe hsocket h

/-! ### `handleWrite` -/

/-- `handleWrite` queues `writeCompleteCallback_` when its write has taken the last
byte of the buffer. -/
theorem writeOutput_emits (hwatched : Watched c) {w : WriteResult} {drained : Bool}
    (h : c.writeOutput w = .ok (c', drained)) :
    Emits c c' (if drained then [.writeCompleteCallback] else []) ∧
      (drained = true → handsOver (.write c.outputBuffer_.contents w) = true) := by
  unfold writeOutput at h
  split at h
  · cases w with
    | failed errno =>
        obtain ⟨rfl, rfl⟩ := Prod.mk.inj (Except.ok.inj h)
        exact ⟨.of_same rfl rfl rfl rfl, fun hdrained => absurd hdrained (by simp)⟩
    | wrote n =>
        simp only at h
        split at h
        · rename_i hn
          obtain ⟨b, _, h⟩ := bind_eq_ok_iff.mp h
          split at h
          · simp only [hwatched.writeComplete, if_true] at h
            obtain ⟨rfl, rfl⟩ := Prod.mk.inj (Except.ok.inj h)
            exact ⟨⟨rfl, rfl, hwatched.writeComplete.symm, rfl⟩, fun _ => by simp [handsOver, hn]⟩
          · obtain ⟨rfl, rfl⟩ := Prod.mk.inj (Except.ok.inj h)
            exact ⟨.of_same rfl rfl rfl rfl, fun hdrained => absurd hdrained (by simp)⟩
        · obtain ⟨rfl, rfl⟩ := Prod.mk.inj (Except.ok.inj h)
          exact ⟨.of_same rfl rfl rfl rfl, fun hdrained => absurd hdrained (by simp)⟩
  · obtain ⟨rfl, rfl⟩ := Prod.mk.inj (Except.ok.inj h)
    exact ⟨.refl c, fun hdrained => absurd hdrained (by simp)⟩

/-- Nothing is queued, nothing written, and the backlog stays as it is. -/
structure Quiet (c c' : TcpConnection) : Prop where
  emits : Emits c c' []
  buffer : c'.outputBuffer_ = c.outputBuffer_
  accepted : c'.socket_.accepted = c.socket_.accepted
  calls : ∃ calls, c'.socket_.calls = c.socket_.calls ++ calls ∧ calls.any handsOver = false

theorem Quiet.of_socket (hemits : Emits c c' []) (hbuffer : c'.outputBuffer_ = c.outputBuffer_)
    (hsocket : c'.socket_ = c.socket_) : Quiet c c' :=
  ⟨hemits, hbuffer, by rw [hsocket], [], by rw [hsocket, List.append_nil], rfl⟩

theorem Quiet.notifications (h : Quiet c c') (sent : List UInt8) :
    Emits c c' (notifications sent c c') := by
  obtain ⟨calls, hcalls, hnone⟩ := h.calls
  rw [notifications_of_quiet (by rw [callsMade_of_append hcalls]; exact hnone) h.buffer]
  exact h.emits

theorem shutdownInLoop_quiet (c : TcpConnection) : Quiet c c.shutdownInLoop := by
  unfold shutdownInLoop
  split
  · exact ⟨.of_same rfl rfl rfl rfl, rfl, Socket.accepted_shutdownWrite _ _,
      [.shutdownWrite _], rfl, rfl⟩
  · exact .of_socket (.refl c) rfl rfl

theorem shutdownIfDisconnecting_quiet (c : TcpConnection) : Quiet c c.shutdownIfDisconnecting := by
  unfold shutdownIfDisconnecting
  split
  · exact shutdownInLoop_quiet c
  · exact .of_socket (.refl c) rfl rfl

/-- The backlog never grows in `handleWrite`. -/
theorem readableBytes_le_of_writeOutput (hc : c.OutputInv) {w : WriteResult} (hinv : c'.OutputInv)
    (hsocket : c'.socket_ = if c.channel_.isWriting then
      c.socket_.write c.outputBuffer_.contents w else c.socket_)
    (hstream : c'.stream = c.stream) :
    c'.outputBuffer_.readableBytes ≤ c.outputBuffer_.readableBytes := by
  have hlength := congrArg List.length hstream
  have haccepted : c.socket_.accepted.length ≤ c'.socket_.accepted.length := by
    rw [hsocket]
    split
    · simp
    · exact Nat.le_refl _
  rw [stream, stream, List.length_append, List.length_append,
    Buffer.contents_length hinv.buffer, Buffer.contents_length hc.buffer] at hlength
  omega

/-- `handleWrite` queues what is due. -/
theorem handleWrite_emits (hwatched : Watched c) (hc : c.OutputInv) {w : WriteResult}
    (hw : w.Possible c.outputBuffer_.readableBytes) (h : c.handleWrite w = .ok c') :
    Emits c c' (notifications c.stream c c') := by
  obtain ⟨c₁, drained, hc₁, hinv, _, hsocket, hstream, hdrained⟩ := writeOutput_spec hc hw
  obtain ⟨hemits, hhanded⟩ := writeOutput_emits hwatched hc₁
  have hquiet : Quiet c₁ c' := by
    simp only [handleWrite, hc₁, ok_bind, Except.ok.injEq] at h
    subst h
    split
    · exact shutdownIfDisconnecting_quiet c₁
    · exact .of_socket (.refl c₁) rfl rfl
  have hraises : ¬ Raises c c' := by
    rintro ⟨hlt, hle⟩
    have hshrinks := readableBytes_le_of_writeOutput hc hinv hsocket hstream
    rw [hquiet.buffer] at hle
    omega
  have hcompletes : Completes c.stream c c' ↔ drained = true := by
    obtain ⟨calls, hcalls, hnone⟩ := hquiet.calls
    rw [Completes, hquiet.accepted, ← hstream, accepted_eq_stream_iff]
    cases hwriting : c.channel_.isWriting with
    | false =>
        have hnothing : drained ≠ true := fun h => absurd ((hdrained.mp h).1) (by simp [hwriting])
        rw [callsMade_of_append (by rw [hcalls, hsocket, hwriting]; rfl), hnone]
        simp [hnothing]
    | true =>
        have hmade : callsMade c c' = .write c.outputBuffer_.contents w :: calls :=
          callsMade_of_append (by rw [hcalls, hsocket, hwriting]; simp [Socket.write])
        have hstops : c₁.channel_.isWriting = false ↔ c₁.outputBuffer_.contents = [] := by
          rw [← Bool.not_eq_true, hinv.writing, not_not]
        rw [hmade, List.any_cons, hnone, Bool.or_false, ← hstops]
        constructor
        · rintro ⟨_, hstopped⟩
          exact hdrained.mpr ⟨hwriting, hstopped⟩
        · intro h
          exact ⟨hhanded h, (hdrained.mp h).2⟩
  rw [notifications, if_neg hraises, if_congr hcompletes rfl rfl]
  exact (List.append_nil _ ▸ hemits.trans hquiet.emits)

end Operations

/-! ## Runs -/

/-- What happens to a connection in its loop thread. -/
inductive Action where
  | connectEstablished
  /-- the user moves the high-water mark -/
  | setHighWaterMarkCallback (highWaterMark : Nat)
  /-- `sendInLoop`, `handleWrite`, the halves of `shutdown()`, `handleClose` -/
  | output (a : TcpStream.Action)
  deriving DecidableEq, Repr

/-- `setHighWaterMarkCallback(cb, highWaterMark)`. -/
def setHighWaterMarkCallback (c : TcpConnection) (highWaterMark : Nat) : TcpConnection :=
  { c with highWaterMarkCallback_ := true, highWaterMark_ := highWaterMark }

/-- What a step does. -/
def step (c : TcpConnection) : Action → Exec TcpConnection
  | .connectEstablished => c.connectEstablished
  | .setHighWaterMarkCallback highWaterMark => .ok (setHighWaterMarkCallback c highWaterMark)
  | .output a => TcpStream.step c a

/-- A connection is established once; `write(2)` is as in `TcpStream.Legal`. -/
def Legal (c : TcpConnection) : Action → Prop
  | .connectEstablished => c.state_ = .kConnecting
  | .setHighWaterMarkCallback _ => True
  | .output a => TcpStream.Legal c a

/-- A connection from `connectEstablished` on. -/
def machine : Machine TcpConnection Action where
  step := step
  legal := Legal

instance (c : TcpConnection) (a : Action) : Decidable (machine.legal c a) :=
  match a with
  | .connectEstablished => inferInstanceAs (Decidable (_ = _))
  | .setHighWaterMarkCallback _ => isTrue trivial
  | .output a => inferInstanceAs (Decidable (TcpStream.machine.legal c a))

/-- The step of the output side. -/
def Action.output? : Action → Option TcpStream.Action
  | .connectEstablished | .setHighWaterMarkCallback _ => none
  | .output a => some a

/-- The bytes handed to `sendInLoop` in a run. -/
def sent (as : List Action) : List UInt8 := TcpStream.messages (as.filterMap Action.output?)

/-- The invariant of the output side, and both callbacks set. -/
structure Inv (done : List Action) (c : TcpConnection) : Prop where
  stream : TcpStream.Inv (done.filterMap Action.output?) c
  watched : Watched c

theorem inv_configured (fd : Int) (highWaterMark : Nat) :
    Inv [] (TcpStream.configured fd highWaterMark true true) := by
  refine ⟨.of_live (by simp [TcpStream.configured, TcpConnection.new])
    ⟨⟨Buffer.new_spec.1, ?_⟩, ?_, ?_⟩,
    rfl, rfl⟩
  · simp [TcpStream.configured, TcpConnection.new, Buffer.new_spec.2.1]
  · simp [TcpConnection.stream, TcpStream.configured, TcpConnection.new, Socket.accepted,
      TcpStream.messages, Buffer.new_spec.2.1]
  · intro unsent hmem
    exact absurd hmem (by simp [TcpStream.configured, TcpConnection.new])

/-- A closed connection sends nothing and hears of no event. -/
theorem output_of_closed {c c' : TcpConnection} {a : TcpStream.Action}
    (hclosed : c.state_ = .kDisconnected) (hquiet : c.channel_.isWriting = false)
    (ha : TcpStream.Legal c a) (h : TcpStream.step c a = .ok c') : Quiet c c' := by
  suffices hsame : c' = c ∨ c' = c.shutdownInLoop by
    rcases hsame with rfl | rfl
    · exact .of_socket (.refl c') rfl rfl
    · exact shutdownInLoop_quiet c
  cases a with
  | sendInLoop data w =>
      simp only [TcpStream.step, sendInLoop, if_pos hclosed, Except.ok.injEq] at h
      exact .inl h.symm
  | handleWrite w =>
      simp [TcpStream.step, handleWrite, writeOutput, hquiet] at h
      exact .inl h.symm
  | beginShutdown =>
      simp [TcpStream.step, TcpStream.beginShutdown, hclosed] at h
      exact .inl h.symm
  | shutdownInLoop => exact .inr (Except.ok.inj h).symm
  | handleClose => rcases ha with ha | ha <;> rw [hclosed] at ha <;> exact absurd ha (by simp)

theorem beginShutdown_quiet (c : TcpConnection) : Quiet c (TcpStream.beginShutdown c) := by
  unfold TcpStream.beginShutdown
  split
  · exact .of_socket (.of_same rfl rfl rfl rfl) rfl rfl
  · exact .of_socket (.refl c) rfl rfl

/-- The steps of the output side queue what is due. -/
theorem output_emits {done : List TcpStream.Action} {c c' : TcpConnection} {a : TcpStream.Action}
    (hinv : TcpStream.Inv done c) (hwatched : Watched c) (ha : TcpStream.Legal c a)
    (h : TcpStream.step c a = .ok c') :
    Emits c c' (notifications (TcpStream.messages (done ++ [a])) c c') := by
  by_cases hclosed : c.state_ = .kDisconnected
  · exact (output_of_closed hclosed (hinv.2 hclosed) ha h).notifications _
  have hlive := hinv.1 hclosed
  rw [TcpStream.messages_append, ← hlive.stream]
  cases a with
  | sendInLoop data w => exact sendInLoop_emits hwatched hlive.output hclosed ha.1 ha.2 h
  | handleWrite w =>
      have hnone : (TcpStream.Action.handleWrite w).message = [] := rfl
      rw [hnone, List.append_nil]
      exact handleWrite_emits hwatched hlive.output ha h
  | beginShutdown =>
      obtain rfl := Except.ok.inj h
      exact (beginShutdown_quiet c).notifications _
  | shutdownInLoop =>
      obtain rfl := Except.ok.inj h
      exact (shutdownInLoop_quiet c).notifications _
  | handleClose =>
      obtain rfl := Except.ok.inj ((handleClose_eq ha).symm.trans h)
      refine (Quiet.of_socket ?_ ?_ ?_).notifications _
      · exact .of_same rfl rfl rfl rfl
      · rfl
      · rfl

/-- What holds of a live connection does not depend on its settings. -/
theorem live_of_same {done : List TcpStream.Action} {c c' : TcpConnection}
    (h : TcpStream.Live done c) (hbuffer : c'.outputBuffer_ = c.outputBuffer_)
    (hsocket : c'.socket_ = c.socket_) (hwriting : c'.channel_.isWriting = c.channel_.isWriting) :
    TcpStream.Live done c' := by
  refine ⟨⟨?_, ?_⟩, ?_, ?_⟩
  · rw [hbuffer]
    exact h.output.buffer
  · rw [hwriting, hbuffer]
    exact h.output.writing
  · rw [stream, hsocket, hbuffer]
    exact h.stream
  · rw [hsocket]
    exact h.clean

theorem connectEstablished_eq {c : TcpConnection} (h : c.state_ = .kConnecting) :
    c.connectEstablished = .ok
      { c with
        state_ := .kConnected
        channel_ := c.channel_.enableReading
        userCalls := c.userCalls ++ [.connectionCallback true] } := by
  simp only [connectEstablished, assertThat_of h, ok_bind]
  rfl

/-- Nothing is queued and nothing is due when queue, buffer and socket stay as they are. -/
theorem pending_of_same {sent : List UInt8} {c c' : TcpConnection} (hloop : c'.loop_ = c.loop_)
    (hbuffer : c'.outputBuffer_ = c.outputBuffer_) (hsocket : c'.socket_ = c.socket_) :
    c'.loop_.pendingFunctors_ = c.loop_.pendingFunctors_ ++ notifications sent c c' := by
  rw [notifications_of_quiet (by rw [callsMade_of_eq hsocket]; rfl) hbuffer, List.append_nil, hloop]

/-- Every legal step succeeds, keeps the invariant and queues what is due. -/
theorem step_notifies {done : List Action} {c : TcpConnection} {a : Action} (h : Inv done c)
    (ha : Legal c a) :
    ∃ c', step c a = .ok c' ∧ Inv (done ++ [a]) c' ∧
      c'.loop_.pendingFunctors_ =
        c.loop_.pendingFunctors_ ++ notifications (sent (done ++ [a])) c c' := by
  cases a with
  | connectEstablished =>
      have hlive := h.stream.1 (by rw [show c.state_ = .kConnecting from ha]; simp)
      refine ⟨_, connectEstablished_eq ha, ⟨?_, h.watched.writeComplete, h.watched.highWaterMark⟩,
        ?_⟩
      · rw [List.filterMap_append, List.filterMap_cons_none rfl, List.filterMap_nil,
          List.append_nil]
        refine .of_live (by simp) (live_of_same hlive rfl rfl ?_)
        exact Channel.isWriting_enableReading c.channel_
      · exact pending_of_same rfl rfl rfl
  | setHighWaterMarkCallback highWaterMark =>
      refine ⟨_, rfl, ⟨?_, h.watched.writeComplete, rfl⟩, ?_⟩
      · rw [List.filterMap_append, List.filterMap_cons_none rfl, List.filterMap_nil,
          List.append_nil]
        exact ⟨fun hlive => live_of_same (h.stream.1 hlive) rfl rfl rfl, h.stream.2⟩
      · exact pending_of_same rfl rfl rfl
  | output a =>
      obtain ⟨c', hc', hinv⟩ := TcpStream.step_inv h.stream ha
      have hemits := output_emits h.stream h.watched ha hc'
      refine ⟨c', hc', ⟨?_, hemits.watched h.watched⟩, ?_⟩
      · rw [List.filterMap_append]
        exact hinv
      · rw [sent, List.filterMap_append]
        exact hemits.pending

/-- The callbacks that are due along a run, in order, when `done` has come before. -/
def owed (done : List Action) (c : TcpConnection) : List Action → List ConnFunctor
  | [] => []
  | a :: as =>
      match step c a with
      | .ok c' => notifications (sent (done ++ [a])) c c' ++ owed (done ++ [a]) c' as
      | .error _ => []

/-- The queue at the end of a run. -/
theorem run_notifies {done : List Action} {c : TcpConnection} (h : Inv done c) {as : List Action}
    (hlegal : machine.LegalRun c as) :
    ∃ c', machine.run c as = .ok c' ∧ Inv (done ++ as) c' ∧
      c'.loop_.pendingFunctors_ = c.loop_.pendingFunctors_ ++ owed done c as := by
  induction as generalizing done c with
  | nil => exact ⟨c, rfl, by rwa [List.append_nil], by rw [owed, List.append_nil]⟩
  | cons a as ih =>
      obtain ⟨ha, hrest⟩ := hlegal
      obtain ⟨c₁, hc₁, hinv, hqueue⟩ := step_notifies h ha
      have hstep : machine.step c a = .ok c₁ := hc₁
      rw [hstep] at hrest
      obtain ⟨c', hc', hinv', hqueue'⟩ := ih hinv hrest
      refine ⟨c', Machine.run_cons_of_step hstep hc', by rwa [List.append_assoc] at hinv', ?_⟩
      rw [hqueue', hqueue, owed, hc₁, List.append_assoc]

/-- After a step, the kernel has everything that was sent exactly when the buffer is
empty. -/
theorem accepted_eq_sent_iff {done : List Action} {c : TcpConnection} (h : Inv done c)
    (hlive : c.state_ ≠ .kDisconnected) :
    c.socket_.accepted = sent done ↔ c.outputBuffer_.readableBytes = 0 := by
  have hstream : c.stream = sent done := (h.stream.1 hlive).stream
  rw [← hstream, accepted_eq_stream_iff, ← List.length_eq_zero_iff,
    Buffer.contents_length (h.stream.1 hlive).output.buffer]

/-- The flow-control callbacks mirror the backlog.  Both callbacks are set on a new
connection, on which then anything may happen in any order, with any results of
`write(2)`.  What is queued along the whole run is what is owed.  Each step of it
queues `highWaterMarkCallback_`, with the new length, if it took the backlog to the
mark or over it, and `writeCompleteCallback_` if it handed something to the kernel
and left nothing unsent; each once, and otherwise nothing. -/
theorem notifications_mirror_backlog (fd : Int) (highWaterMark : Nat) {as : List Action}
    (hlegal : machine.LegalRun (TcpStream.configured fd highWaterMark true true) as) :
    (∃ c, machine.run (TcpStream.configured fd highWaterMark true true) as = .ok c ∧
      c.loop_.pendingFunctors_ = owed [] (TcpStream.configured fd highWaterMark true true) as) ∧
    ∀ before a after, as = before ++ a :: after →
      ∃ c c' queued, machine.run (TcpStream.configured fd highWaterMark true true) before = .ok c ∧
        machine.step c a = .ok c' ∧
        c'.loop_.pendingFunctors_ = c.loop_.pendingFunctors_ ++ queued ∧
        queued =
          (if Completes (sent (before ++ [a])) c c' then [.writeCompleteCallback] else []) ++
            (if Raises c c' then
              [.highWaterMarkCallback c'.outputBuffer_.readableBytes] else []) ∧
        (c'.state_ ≠ .kDisconnected →
          (c'.socket_.accepted = sent (before ++ [a]) ↔ c'.outputBuffer_.readableBytes = 0) ∧
          (.writeCompleteCallback ∈ queued → c'.outputBuffer_.readableBytes = 0)) := by
  have hstart := inv_configured fd highWaterMark
  constructor
  · obtain ⟨c, hrun, _, hqueue⟩ := run_notifies hstart hlegal
    exact ⟨c, hrun, hqueue⟩
  · rintro before a after rfl
    obtain ⟨hbefore, hafter⟩ := Machine.legalRun_append.mp hlegal
    obtain ⟨c, hrun, hinv, _⟩ := run_notifies hstart hbefore
    obtain ⟨c', hstep, hinv', hqueue⟩ := step_notifies hinv (hafter c hrun).1
    refine ⟨c, c', notifications (sent (before ++ [a])) c c', hrun, hstep, hqueue, rfl, ?_⟩
    intro hlive
    have hempty := accepted_eq_sent_iff hinv' hlive
    refine ⟨hempty, ?_⟩
    intro hmem
    by_cases hcompletes : Completes (sent (before ++ [a])) c c'
    · exact hempty.mp hcompletes.2
    · rw [notifications, if_neg hcompletes, List.nil_append] at hmem
      split at hmem
      · exact absurd (List.mem_singleton.mp hmem) (by simp)
      · exact absurd hmem (by simp)

/-- The mark is two bytes: a partial write that leaves two, a send behind it, the
drain of both, a direct write, and an empty message. -/
def sampleRun : List Action :=
  [.connectEstablished, .output (.sendInLoop [1, 2, 3] (.wrote 1)),
    .output (.sendInLoop [4] (.failed .EWOULDBLOCK)), .output (.handleWrite (.wrote 2)),
    .output (.handleWrite (.wrote 1)), .output (.sendInLoop [5] (.wrote 1)),
    .setHighWaterMarkCallback 1, .output (.sendInLoop [] (.wrote 0))]

theorem notifications_mirror_backlog_sampleRun :
    machine.LegalRun (TcpStream.configured 7 2 true true) sampleRun ∧
      owed [] (TcpStream.configured 7 2 true true) sampleRun =
        [.highWaterMarkCallback 2, .writeCompleteCallback, .writeCompleteCallback,
          .writeCompleteCallback] ∧
      ∃ c, machine.run (TcpStream.configured 7 2 true true) sampleRun = .ok c ∧
        c.loop_.pendingFunctors_ = owed [] (TcpStream.configured 7 2 true true) sampleRun := by
  have hlegal : machine.LegalRun (TcpStream.configured 7 2 true true) sampleRun := by decide +kernel
  exact ⟨hlegal, by decide +kernel, (notifications_mirror_backlog 7 2 hlegal).1⟩

end Muduo.Net.WaterMark
