/-
  Net/TcpClientRuns.lean --- a `TcpClient` over whole runs of its loop.

  The connector's state, its channel, the queued `resetChannel`, the retry timer and the
  client's connection change at different times.  `Sound` says what holds among the
  parts of the connector, `Inv` what holds between the connector, the connection and
  the phase of the loop.  They hold as long as the calls of the client and the timers
  stay away from the corners that `Careful` names.
-/
import Muduo.Net.TcpClient

set_option autoImplicit false

namespace Muduo.Net.TcpClientRuns

open Muduo.Foundation

/-! ## The uses that the code survives -/

/-- `connect()` is called on a connector that has not connected yet, that has no retry
timer, and whose old channel is gone; `stop()` is not called by the handler of another
channel while the connector's channel is active; a retry timer does not expire while the
old channel is still there. -/
def Careful (s : System) : Action → Prop
  | .connect savedErrno =>
      s.connector.state_ ≠ .kConnected ∧ s.connector.timers = [] ∧
        (savedErrno.isPending = true → s.connector.channel_ = none)
  | .stop =>
      ¬ (s.connector.state_ = .kConnecting ∧ s.connector.loop_.eventHandling_ = true ∧
        s.connector.loop_.active = true)
  | .retryTimer _ savedErrno =>
      s.connector.connect_ = true → savedErrno.isPending = true → s.connector.channel_ = none
  | _ => True

instance (s : System) (a : Action) : Decidable (Careful s a) :=
  match a with
  | .enableRetry => isTrue trivial
  | .connect _ => inferInstanceAs (Decidable (_ ∧ _ ∧ _))
  | .disconnect => isTrue trivial
  | .stop => inferInstanceAs (Decidable (¬ (_ ∧ _ ∧ _)))
  | .poll _ => isTrue trivial
  | .connectorEvent _ _ _ => isTrue trivial
  | .retryTimer _ _ => inferInstanceAs (Decidable (_ → _ → _))
  | .connectionDown => isTrue trivial
  | .removeConnection _ _ => isTrue trivial
  | .endEvents => isTrue trivial
  | .runFunctor _ => isTrue trivial
  | .endFunctors => isTrue trivial

/-! ## The connector -/

/-- How many times `resetChannel` is queued. -/
def resets (c : Connector) : Nat := c.loop_.backlog.count .resetChannel

/-- What holds of the connector. -/
structure Sound (c : Connector) : Prop where
  queue : ∀ f ∈ c.loop_.backlog, f = .resetChannel ∨ f = .connectDestroyed
  resets : resets c = if c.channel_ = none ∨ c.state_ = .kConnecting then 0 else 1
  off : ∀ channel ∈ c.channel_, c.state_ ≠ .kConnecting → channel.isNoneEvent = true
  connecting : c.state_ = .kConnecting → c.channel_ ≠ none ∧ c.connect_ = true
  timers : c.timers = [] ∨ c.timers.length = 1 ∧ c.state_ = .kDisconnected

section Connector

variable {c : Connector} {channel : Channel} {savedErrno : ConnectErrno}

/-- Where the loop is does not matter, but what it has still to run. -/
theorem Sound.of_backlog (h : Sound c) {loop : ConnectorLoop}
    (hbacklog : loop.backlog = c.loop_.backlog) : Sound { c with loop_ := loop } := by
  refine ⟨?_, ?_, h.off, h.connecting, h.timers⟩
  · rw [hbacklog]
    exact h.queue
  · have hresets := h.resets
    rw [TcpClientRuns.resets, ← hbacklog] at hresets
    exact hresets

theorem Sound.timers_of_ne (h : Sound c) (hstate : c.state_ ≠ .kDisconnected) : c.timers = [] := by
  rcases h.timers with htimers | ⟨_, hdis⟩
  · exact htimers
  · exact absurd hdis hstate

/-- A change that leaves channel, queue and timers alone and does not concern an
attempt. -/
theorem Sound.of_idle (h : Sound c) {c' : Connector} (hstate : c.state_ ≠ .kConnecting)
    (hstate' : c'.state_ ≠ .kConnecting) (hchannel : c'.channel_ = c.channel_)
    (hloop : c'.loop_ = c.loop_)
    (htimers : c'.timers = [] ∨ c'.timers.length = 1 ∧ c'.state_ = .kDisconnected) : Sound c' := by
  refine ⟨?_, ?_, ?_, fun hc => absurd hc hstate', htimers⟩
  · rw [hloop]
    exact h.queue
  · have hresets := h.resets
    simp only [hstate, or_false] at hresets
    simp only [TcpClientRuns.resets, hloop, hchannel, hstate', or_false]
    exact hresets
  · rw [hchannel]
    exact fun ch hch _ => h.off ch hch hstate

/-- `startInLoop` of a connector that is idle. -/
theorem Sound.startInLoop (h : Sound c) (hstate : c.state_ = .kDisconnected)
    (htimers : c.timers = [])
    (hnone : c.connect_ = true → savedErrno.isPending = true → c.channel_ = none) :
    ∃ c', c.startInLoop savedErrno = .ok c' ∧ Sound c' ∧ c'.loop_ = c.loop_ ∧
      c'.state_ ≠ .kConnected := by
  have hne : c.state_ ≠ .kConnecting := by simp [hstate]
  obtain ⟨c', hc'⟩ := Connector.startInLoop_ok hstate hnone
  refine ⟨c', hc', ?_⟩
  obtain ⟨_, ⟨hconnect, hc'⟩ | ⟨_, rfl⟩⟩ := Connector.startInLoop_cases hc'
  · rcases Connector.connect_cases hc' with ⟨_, hgone, rfl⟩ | rfl | rfl
    · refine ⟨⟨h.queue, ?_, ?_, ?_, .inl htimers⟩, rfl, by simp [Connector.holding]⟩
      · have hresets := h.resets
        simp only [hgone, true_or, if_true] at hresets
        simp only [Connector.holding, or_true, if_true]
        exact hresets
      · intro _ _ hnot
        exact absurd rfl hnot
      · intro _
        exact ⟨by simp [Connector.holding], hconnect⟩
    · -- a timer is started
      have hlater : c.createNonblockingOrDie.retry c.nextSocket =
          { c.createNonblockingOrDie with
            closed := c.closed ++ [c.nextSocket]
            state_ := .kDisconnected
            timers := c.timers ++ [c.retryDelayMs_]
            retryDelayMs_ := min (c.retryDelayMs_ * 2) Connector.kMaxRetryDelayMs } := by
        simp only [Connector.retry, Connector.retryLater]
        rw [if_pos (show ((c.createNonblockingOrDie.close c.nextSocket).setState
          .kDisconnected).connect_ = true from hconnect)]
        rfl
      rw [hlater]
      refine ⟨h.of_idle hne (by simp) rfl rfl (.inr ⟨?_, rfl⟩), rfl, by simp⟩
      simp [htimers]
    · exact ⟨h.of_idle hne hne rfl rfl (.inl htimers), rfl, by
        simp [Connector.close, Connector.createNonblockingOrDie, hstate]⟩
  · exact ⟨h, rfl, by simp [hstate]⟩

/-- The end of an attempt: the channel is off and about to be reset. -/
theorem Sound.detached (h : Sound c) (hstate : c.state_ = .kConnecting) {c' : Connector}
    (hstate' : c'.state_ ≠ .kConnecting)
    (hchannel' : c'.channel_ = some channel.disableAll)
    (hloop : c'.loop_ = c.loop_.queueInLoop .resetChannel)
    (htimers : c'.timers = [] ∨ c'.timers.length = 1 ∧ c'.state_ = .kDisconnected) : Sound c' := by
  have hbacklog : c'.loop_.backlog = c.loop_.backlog ++ [.resetChannel] := by
    rw [hloop]
    exact EventLoop.backlog_queueInLoop _ _
  refine ⟨?_, ?_, ?_, fun hc => absurd hc hstate', htimers⟩
  · intro f hf
    rw [hbacklog, List.mem_append, List.mem_singleton] at hf
    rcases hf with hf | rfl
    · exact h.queue f hf
    · exact .inl rfl
  · have hresets := h.resets
    simp only [hstate, or_true, if_true] at hresets
    have hcount : TcpClientRuns.resets c' = TcpClientRuns.resets c + 1 := by
      rw [TcpClientRuns.resets, hbacklog, List.count_append]
      rfl
    simp only [hcount, hresets, hchannel', hstate', reduceCtorEq, or_false, if_false]
  · rw [hchannel']
    intro ch hch _
    obtain rfl := Option.some.inj hch
    exact Channel.isNoneEvent_iff.mpr rfl

/-- The end of an attempt that failed. -/
theorem Sound.retry (h : Sound c) (hstate : c.state_ = .kConnecting) (channel : Channel) :
    Sound ((c.detached channel).retry channel.fd_) ∧
      ((c.detached channel).retry channel.fd_).loop_.functors = c.loop_.functors ∧
      ((c.detached channel).retry channel.fd_).state_ = .kDisconnected := by
  have htimers := h.timers_of_ne (by simp [hstate])
  unfold Connector.retry Connector.retryLater
  split
  · refine ⟨h.detached hstate ?_ rfl rfl (.inr ⟨?_, rfl⟩), rfl, rfl⟩
    · simp [Connector.setState]
    · simp [Connector.setState, Connector.close, Connector.detached, htimers]
  · exact ⟨h.detached hstate (by simp [Connector.setState]) rfl rfl (.inl htimers), rfl,
      rfl⟩

/-- `stop()`, where the channel may be removed. -/
theorem Sound.stop (h : Sound c) (hremove : c.state_ = .kConnecting → c.Removable) :
    ∃ c', c.stop = .ok c' ∧ Sound c' ∧ c'.loop_.functors = c.loop_.functors ∧
      (c.state_ ≠ .kConnecting → c'.state_ = c.state_ ∧ c'.channel_ = c.channel_) := by
  by_cases hstate : c.state_ = .kConnecting
  · obtain ⟨channel, hchannel⟩ := Option.ne_none_iff_exists'.mp (h.connecting hstate).1
    have hoff : ({ c with connect_ := false } : Connector).channel_ = some channel := hchannel
    refine ⟨_, Connector.stopInLoop_ok hstate hoff (hremove hstate),
      h.detached hstate ?_ rfl rfl ?_, rfl, ?_⟩
    · simp [Connector.retry, Connector.retryLater, Connector.setState, Connector.close,
        Connector.detached]
    · exact .inl (h.timers_of_ne (by simp [hstate]))
    · exact fun hnot => absurd hstate hnot
  · exact ⟨_, if_neg hstate, h.of_idle hstate hstate rfl rfl h.timers, rfl, fun _ => ⟨rfl, rfl⟩⟩

end Connector

/-! ## Events on the channel of the connector -/

section Events

variable {t : TcpClient}

/-- What an event that comes during an attempt may do to the client. -/
structure Handled (t t' : TcpClient) : Prop where
  sound : Sound t'.connector_
  batch : t'.connector_.loop_.functors = t.connector_.loop_.functors
  connection : t'.connection_ = t.connection_ ∨ t'.connector_.state_ = .kConnected

theorem handleError_ok (h : Sound t.connector_) (hstate : t.connector_.state_ = .kConnecting)
    (hremove : t.connector_.Removable) :
    ∃ t', t.onConnector Connector.handleError = .ok t' ∧ Handled t t' ∧
      t'.connector_.state_ = .kDisconnected := by
  obtain ⟨channel, hchannel⟩ := Option.ne_none_iff_exists'.mp (h.connecting hstate).1
  obtain ⟨hsound, hloop, hdis⟩ := h.retry hstate channel
  refine ⟨{ t with connector_ := (t.connector_.detached channel).retry channel.fd_ }, ?_,
    ⟨hsound, hloop, .inl rfl⟩, hdis⟩
  unfold TcpClient.onConnector
  rw [Connector.handleError_ok hstate hchannel hremove, ok_bind]

theorem handleWrite_ok (h : Sound t.connector_) (hstate : t.connector_.state_ = .kConnecting)
    (hremove : t.connector_.Removable) (err : Int) (isSelfConnect : Bool) :
    ∃ t', t.handleWrite err isSelfConnect = .ok t' ∧ Handled t t' := by
  obtain ⟨channel, hchannel⟩ := Option.ne_none_iff_exists'.mp (h.connecting hstate).1
  obtain ⟨⟨c', passed⟩, hc'⟩ :=
    Connector.handleWrite_ok hstate hchannel hremove err isSelfConnect
  unfold TcpClient.handleWrite
  rw [hc', ok_bind]
  have htimers := h.timers_of_ne (by simp [hstate])
  rcases Connector.handleWrite_cases hc' with ⟨hdis, _⟩ | ⟨_, channel', _, hcase⟩
  · exact absurd (hstate.symm.trans hdis) (by simp)
  rcases hcase with ⟨rfl, rfl⟩ | ⟨_, rfl, rfl⟩ | ⟨_, rfl, rfl⟩
  · obtain ⟨hsound, hloop, _⟩ := h.retry hstate channel'
    exact ⟨_, rfl, hsound, hloop, .inl rfl⟩
  · have hup : Sound ((t.connector_.detached channel').setState .kConnected) :=
      h.detached hstate (by simp [Connector.setState]) rfl rfl (.inl htimers)
    exact ⟨_, rfl, hup, rfl, .inr rfl⟩
  · exact ⟨_, rfl, h.detached hstate (by simp [Connector.setState, Connector.close]) rfl rfl
      (.inl htimers), rfl, .inr rfl⟩

/-- After an error the write handler finds nothing to do. -/
theorem handleWrite_of_disconnected (hstate : t.connector_.state_ = .kDisconnected) (err : Int)
    (isSelfConnect : Bool) : t.handleWrite err isSelfConnect = .ok t := by
  have hne : t.connector_.state_ ≠ .kConnecting := by simp [hstate]
  unfold TcpClient.handleWrite Connector.handleWrite
  rw [if_neg hne, assertThat_of hstate, ok_bind, ok_bind]

theorem handleEvent_ok (h : Sound t.connector_) (hstate : t.connector_.state_ = .kConnecting)
    (hremove : t.connector_.Removable) (revents_ : BitVec 32) (err : Int) (isSelfConnect : Bool) :
    ∃ t', t.handleEvent revents_ err isSelfConnect = .ok t' ∧ Handled t t' := by
  unfold TcpClient.handleEvent Channel.handleEventWithGuard
  simp only [Channel.callIf_ok, ok_bind]
  by_cases herror : revents_ &&& (POLLERR ||| POLLNVAL) ≠ 0#32
  · obtain ⟨t', ht', hhandled, hdis⟩ := handleError_ok h hstate hremove
    simp only [Channel.callIf_of herror, ht', ok_bind]
    refine ⟨t', ?_, hhandled⟩
    unfold Channel.callIf
    simp only [handleWrite_of_disconnected hdis, ite_self]
  · simp only [Channel.callIf_of_not herror, ok_bind]
    exact Channel.callIf_succeeds _ (Handled t) ⟨h, rfl, .inl rfl⟩ fun _ =>
      handleWrite_ok h hstate hremove err isSelfConnect

end Events

/-! ## The invariant -/

/-- What holds of the client and its loop. -/
structure Inv (s : System) : Prop where
  sound : Sound s.connector
  batch : s.phase ≠ .functors → s.connector.loop_.functors = []
  live : s.client.connection_ ≠ none → s.connector.state_ = .kConnected
  settled : s.client.connection_ ≠ none →
    s.connector.channel_ = none ∨ s.phase = .handling ∧ s.polled = false ∨
      s.phase = .functors ∧ .resetChannel ∈ s.connector.loop_.functors
  awaiting : s.awaiting = true →
    s.connector.state_ = .kConnecting ∧ s.polled = false ∧
      s.connector.loop_.eventHandling_ = true ∧ s.connector.loop_.active = true
  closing : s.closing = true →
    s.client.connection_ ≠ none ∧ s.phase = .handling ∧ s.polled = true

theorem inv_new : Inv .new where
  sound := ⟨by simp [System.connector, System.new, TcpClient.new, Connector.new,
      ConnectorLoop.idle, EventLoop.idle, EventLoop.backlog], rfl,
    by simp [System.connector, System.new, TcpClient.new, Connector.new],
    by simp [System.connector, System.new, TcpClient.new, Connector.new], .inl rfl⟩
  batch _ := rfl
  live h := absurd rfl h
  settled h := absurd rfl h
  awaiting h := absurd h (by simp [System.new])
  closing h := absurd h (by simp [System.new])

section Steps

variable {s : System}

theorem onClient_ok {f : TcpClient → Exec TcpClient} {t : TcpClient} (h : f s.client = .ok t) :
    s.onClient f = .ok { s with client := t } := by
  unfold System.onClient
  rw [h, ok_bind]

theorem onConnector_ok {t : TcpClient} {f : Connector → Exec Connector} {c : Connector}
    (h : f t.connector_ = .ok c) : t.onConnector f = .ok { t with connector_ := c } := by
  unfold TcpClient.onConnector
  rw [h, ok_bind]

/-- While the connector is not connecting, nothing waits for its event. -/
theorem Inv.not_awaiting (h : Inv s) (hstate : s.connector.state_ ≠ .kConnecting) :
    s.awaiting = false := by
  rw [Bool.eq_false_iff]
  exact fun hawaiting => hstate (h.awaiting hawaiting).1

theorem Inv.no_connection (h : Inv s) (hstate : s.connector.state_ ≠ .kConnected) :
    s.client.connection_ = none := by
  by_contra hsome
  exact hstate (h.live hsome)

theorem Inv.not_closing (h : Inv s) (hstate : s.connector.state_ ≠ .kConnected) :
    s.closing = false := by
  rw [Bool.eq_false_iff]
  exact fun hclosing => (h.closing hclosing).1 (h.no_connection hstate)

/-- An idle connector starts an attempt. -/
theorem Inv.startInLoop (h : Inv s) {c : Connector} (hsound : Sound c)
    (hstate : s.connector.state_ = .kDisconnected) (hloop : c.loop_ = s.connector.loop_)
    (connect_ : Bool) : Inv { s with client := { s.client with connector_ := c, connect_ } } := by
  have hgone := h.no_connection (by simp [hstate])
  have hquiet := h.not_awaiting (by simp [hstate])
  have hopen := h.not_closing (by simp [hstate])
  refine ⟨hsound, ?_, fun hsome => absurd hgone hsome, fun hsome => absurd hgone hsome, ?_, ?_⟩
  · intro hphase
    show c.loop_.functors = []
    rw [hloop]
    exact h.batch hphase
  · exact fun hawaiting => absurd (hquiet.symm.trans hawaiting) (by simp)
  · exact fun hclosing => absurd (hopen.symm.trans hclosing) (by simp)

/-! ### Calls of the client -/

theorem connect_step (h : Inv s) {savedErrno : ConnectErrno}
    (hlegal : Legal s (.connect savedErrno))
    (hcareful : Careful s (.connect savedErrno)) :
    ∃ s', step s (.connect savedErrno) = .ok s' ∧ Inv s' := by
  obtain ⟨hup, htimers, hnone⟩ := hcareful
  have hne : s.connector.state_ ≠ .kConnecting := by
    intro hstate
    exact hlegal.2 ⟨(h.sound.connecting hstate).2, .inl hstate⟩
  have hstate : s.connector.state_ = .kDisconnected := by
    rcases hs : s.connector.state_ with _ | _ | _
    · rfl
    · exact absurd hs hne
    · exact absurd hs hup
  have hidle : Sound { s.connector with connect_ := true } :=
    h.sound.of_idle hne hne rfl rfl (.inl htimers)
  obtain ⟨c, hc, hsound, hloop, _⟩ := hidle.startInLoop hstate htimers fun _ hpending =>
    hnone hpending
  have hclient : s.client.connect savedErrno =
      .ok { s.client with connector_ := c, connect_ := true } := onConnector_ok hc
  simp only [step]
  exact ⟨_, onClient_ok hclient, h.startInLoop hsound hstate hloop true⟩

theorem stop_step (h : Inv s) (hcareful : Careful s .stop) :
    ∃ s', step s .stop = .ok s' ∧ Inv s' := by
  have hremove : s.connector.state_ = .kConnecting → s.connector.Removable := by
    intro hstate hevent
    refine .inr ?_
    rw [Bool.eq_false_iff]
    exact fun hactive => hcareful ⟨hstate, hevent, hactive⟩
  have hquiet : s.awaiting = false := by
    rw [Bool.eq_false_iff]
    intro hawaiting
    obtain ⟨hstate, _, hevent, hactive⟩ := h.awaiting hawaiting
    exact hcareful ⟨hstate, hevent, hactive⟩
  obtain ⟨c, hc, hsound, hbatch, hkeep⟩ := h.sound.stop hremove
  refine ⟨_, onClient_ok (onConnector_ok hc), hsound, ?_, ?_, ?_, ?_, h.closing⟩
  · exact fun hphase => hbatch.trans (h.batch hphase)
  · intro hsome
    have hstate := h.live hsome
    exact (hkeep (by simp [hstate])).1.trans hstate
  · intro hsome
    have hstate := h.live hsome
    have hchannel := (hkeep (by simp [hstate])).2
    refine (h.settled hsome).imp (fun hnone => hchannel.trans hnone) (Or.imp_right fun hreset => ?_)
    exact ⟨hreset.1, hbatch ▸ hreset.2⟩
  · exact fun hawaiting => absurd (hquiet.symm.trans hawaiting) (by simp)

/-- A call that only sets a flag of the client. -/
theorem flag_step (h : Inv s) (retry_ connect_ : Bool) :
    Inv { s with client := { s.client with retry_, connect_ } } :=
  ⟨h.sound, h.batch, h.live, h.settled, h.awaiting, h.closing⟩

/-! ### Events -/

theorem poll_step (h : Inv s) {active : Bool} (hlegal : Legal s (.poll active)) :
    ∃ s', step s (.poll active) = .ok s' ∧ Inv s' := by
  obtain ⟨hphase, hwatched⟩ := hlegal
  have hsettled : s.client.connection_ ≠ none → s.connector.channel_ = none := by
    intro hsome
    rcases h.settled hsome with hnone | ⟨hhandling, _⟩ | ⟨hfunctors, _⟩
    · exact hnone
    · exact absurd (hphase.symm.trans hhandling) (by simp)
    · exact absurd (hphase.symm.trans hfunctors) (by simp)
  refine ⟨_, rfl, h.sound.of_backlog rfl, ?_, h.live, fun hsome => .inl (hsettled hsome), ?_, ?_⟩
  · exact fun _ => h.batch (by simp [hphase])
  · intro hactive
    obtain ⟨channel, hchannel, hon⟩ := hwatched hactive
    have hstate : s.connector.state_ = .kConnecting := by
      by_contra hne
      exact absurd ((h.sound.off channel hchannel hne).symm.trans hon) (by simp)
    refine ⟨hstate, ?_, rfl, hactive⟩
    show s.client.connection_.isSome = false
    rw [h.no_connection (by simp [hstate])]
    rfl
  · intro hclosing
    exact absurd (hphase.symm.trans (h.closing hclosing).2.1) (by simp)

theorem connectorEvent_step (h : Inv s) {revents_ : BitVec 32} {err : Int} {isSelfConnect : Bool}
    (hlegal : Legal s (.connectorEvent revents_ err isSelfConnect)) :
    ∃ s', step s (.connectorEvent revents_ err isSelfConnect) = .ok s' ∧ Inv s' := by
  obtain ⟨hphase, hopen, hawaiting, _⟩ := hlegal
  obtain ⟨hstate, hpolled, _, _⟩ := h.awaiting hawaiting
  have hgone := h.no_connection (by simp [hstate])
  -- the connector's channel is the current one
  have hsound : Sound (s.onLoop fun loop => { loop with current := true }).client.connector_ :=
    h.sound.of_backlog rfl
  obtain ⟨t, ht, hhandled⟩ := handleEvent_ok hsound hstate (fun _ => .inl rfl) revents_ err
    isSelfConnect
  refine ⟨{ ({ s with client := t } : System).onLoop fun loop => { loop with current := false } with
    awaiting := false }, ?_, ?_⟩
  · have hstep := @onClient_ok (s.onLoop fun loop => { loop with current := true })
      (fun t => t.handleEvent revents_ err isSelfConnect) t ht
    simp only [step, hstep, ok_bind]
    rfl
  · refine ⟨hhandled.sound.of_backlog rfl, ?_, ?_, fun _ => .inr (.inl ⟨hphase, hpolled⟩),
      fun hawaits => absurd hawaits (by simp), ?_⟩
    · intro hnot
      exact hhandled.batch.trans (h.batch hnot)
    · intro hsome
      refine hhandled.connection.resolve_left fun hsame => hsome (hsame.trans hgone)
    · exact fun hclosing => absurd (hopen.symm.trans hclosing) (by simp)

theorem retryTimer_step (h : Inv s) {i : Nat} {savedErrno : ConnectErrno}
    (hlegal : Legal s (.retryTimer i savedErrno))
    (hcareful : Careful s (.retryTimer i savedErrno)) :
    ∃ s', step s (.retryTimer i savedErrno) = .ok s' ∧ Inv s' := by
  obtain ⟨_, _, hi⟩ := hlegal
  have htimers : s.connector.timers.length = 1 ∧ s.connector.state_ = .kDisconnected := by
    refine h.sound.timers.resolve_left fun hnil => ?_
    rw [hnil] at hi
    exact absurd hi (Nat.not_lt_zero i)
  obtain ⟨hlength, hstate⟩ := htimers
  have hne : s.connector.state_ ≠ .kConnecting := by simp [hstate]
  have herase : s.connector.timers.eraseIdx i = [] := by
    rw [← List.length_eq_zero_iff, List.length_eraseIdx, if_pos hi, hlength]
  have hidle : Sound { s.connector with timers := s.connector.timers.eraseIdx i } :=
    h.sound.of_idle hne hne rfl rfl (.inl herase)
  obtain ⟨c, hc, hsound, hloop, _⟩ := hidle.startInLoop hstate herase hcareful
  have hclient : (s.client.onConnector fun c =>
      { c with timers := c.timers.eraseIdx i }.startInLoop savedErrno) =
      .ok { s.client with connector_ := c } := onConnector_ok hc
  simp only [step]
  exact ⟨_, onClient_ok hclient, h.startInLoop hsound hstate hloop s.client.connect_⟩

/-! ### The end of the connection -/

theorem connectionDown_step (h : Inv s) (hlegal : Legal s .connectionDown) :
    ∃ s', step s .connectionDown = .ok s' ∧ Inv s' := by
  obtain ⟨hphase, _, hsome, hpolled⟩ := hlegal
  exact ⟨_, rfl, h.sound, h.batch, h.live, h.settled, h.awaiting,
    fun _ => ⟨hsome, hphase, hpolled⟩⟩

/-- The client without its connection. -/
def afterRemoval (t : TcpClient) : TcpClient :=
  { t with
    connection_ := none
    connector_ := { t.connector_ with loop_ := t.connector_.loop_.queueInLoop .connectDestroyed } }

theorem Sound.queueConnectDestroyed {c : Connector} (h : Sound c) :
    Sound { c with loop_ := c.loop_.queueInLoop .connectDestroyed } := by
  have hbacklog : (c.loop_.queueInLoop .connectDestroyed).backlog =
      c.loop_.backlog ++ [.connectDestroyed] := EventLoop.backlog_queueInLoop _ _
  refine ⟨?_, ?_, h.off, h.connecting, h.timers⟩
  · intro f hf
    simp only [hbacklog, List.mem_append, List.mem_singleton] at hf
    rcases hf with hf | rfl
    · exact h.queue f hf
    · exact .inr rfl
  · have hcount : TcpClientRuns.resets { c with loop_ := c.loop_.queueInLoop .connectDestroyed } =
        TcpClientRuns.resets c := by
      simp only [TcpClientRuns.resets, hbacklog, List.count_append]
      rfl
    rw [hcount]
    exact h.resets

/-- While the connection is closing, the channel of the attempt that led to it is gone. -/
theorem Inv.channel_gone (h : Inv s) (hclosing : s.closing = true) :
    s.connector.channel_ = none := by
  obtain ⟨hsome, hphase, hpolled⟩ := h.closing hclosing
  rcases h.settled hsome with hnone | ⟨_, hnot⟩ | ⟨hfunctors, _⟩
  · exact hnone
  · exact absurd (hpolled.symm.trans hnot) (by simp)
  · exact absurd (hphase.symm.trans hfunctors) (by simp)

/-- Whatever the connector does after the removal, it does without a connection. -/
theorem Inv.removed (h : Inv s) (hstate : s.connector.state_ = .kConnected) {c : Connector}
    (hsound : Sound c) (hfunctors : c.loop_.functors = s.connector.loop_.functors) :
    Inv { s with client := { afterRemoval s.client with connector_ := c }, closing := false } := by
  have hquiet := h.not_awaiting (by simp [hstate])
  refine ⟨hsound, fun hnot => hfunctors.trans (h.batch hnot), fun hsome => absurd rfl hsome,
    fun hsome => absurd rfl hsome, fun hawaiting => ?_, fun hclosing => absurd hclosing (by simp)⟩
  exact absurd (hquiet.symm.trans hawaiting) (by simp)

theorem removeConnection_eq {t : TcpClient} {conn : Int} {savedErrno : ConnectErrno}
    (hconn : t.connection_ = some conn) :
    t.removeConnection conn savedErrno =
      if t.retry_ && t.connect_ then
        (afterRemoval t).onConnector fun c => c.restart savedErrno
      else .ok (afterRemoval t) := by
  simp only [TcpClient.removeConnection, hconn, assertThat_of, ok_bind]
  rfl

theorem removeConnection_step (h : Inv s) {conn : Int} {savedErrno : ConnectErrno}
    (hlegal : Legal s (.removeConnection conn savedErrno)) :
    ∃ s', step s (.removeConnection conn savedErrno) = .ok s' ∧ Inv s' := by
  obtain ⟨hclosing, hconn⟩ := hlegal
  have hstate := h.live (h.closing hclosing).1
  have hsound : Sound (afterRemoval s.client).connector_ := h.sound.queueConnectDestroyed
  simp only [step]
  by_cases hretry : (s.client.retry_ && s.client.connect_) = true
  · have htimers : s.connector.timers = [] := h.sound.timers_of_ne (by simp [hstate])
    have hidle : Sound { (afterRemoval s.client).connector_.setState .kDisconnected with
        retryDelayMs_ := Connector.kInitRetryDelayMs, connect_ := true } := by
      have hne : (afterRemoval s.client).connector_.state_ ≠ .kConnecting := by
        show s.connector.state_ ≠ .kConnecting
        simp [hstate]
      exact hsound.of_idle hne (by simp [Connector.setState]) rfl rfl (.inl htimers)
    obtain ⟨c, hc, hsound', hloop, _⟩ := hidle.startInLoop rfl htimers fun _ _ =>
      h.channel_gone hclosing
    have hclient : s.client.removeConnection conn savedErrno =
        .ok { afterRemoval s.client with connector_ := c } := by
      rw [removeConnection_eq hconn, if_pos hretry]
      exact onConnector_ok hc
    refine ⟨_, by rw [onClient_ok hclient, ok_bind], h.removed hstate hsound' ?_⟩
    rw [hloop]
    rfl
  · have hclient : s.client.removeConnection conn savedErrno = .ok (afterRemoval s.client) := by
      rw [removeConnection_eq hconn, if_neg hretry]
    exact ⟨_, by rw [onClient_ok hclient, ok_bind], h.removed hstate hsound rfl⟩

/-! ### Functors -/

theorem endEvents_step (h : Inv s) (hlegal : Legal s .endEvents) :
    ∃ s', step s .endEvents = .ok s' ∧ Inv s' := by
  obtain ⟨hphase, hopen, hquiet⟩ := hlegal
  have hbatch := h.batch (by simp [hphase])
  have hbacklog : s.connector.loop_.toEventLoop.swapPending.backlog = s.connector.loop_.backlog :=
    EventLoop.backlog_swapPending hbatch
  have hfunctors : s.connector.loop_.toEventLoop.swapPending.functors =
    s.connector.loop_.backlog := by
    rw [EventLoop.backlog, hbatch]
    rfl
  refine ⟨_, rfl, h.sound.of_backlog hbacklog, fun hnot => absurd rfl hnot, h.live, ?_, ?_, ?_⟩
  · intro hsome
    rcases hchannel : s.connector.channel_ with _ | channel
    · exact .inl hchannel
    · refine .inr (.inr ⟨rfl, ?_⟩)
      have hresets := h.sound.resets
      simp only [hchannel, h.live hsome, reduceCtorEq, or_self, if_false] at hresets
      have hmem : ClientFunctor.resetChannel ∈ s.connector.loop_.backlog := by
        rw [← List.count_pos_iff, ← resets, hresets]
        exact Nat.one_pos
      rw [← hfunctors] at hmem
      exact hmem
  · exact fun hawaiting => absurd (hquiet.symm.trans hawaiting) (by simp)
  · exact fun hclosing => absurd (hopen.symm.trans hclosing) (by simp)

/-- The connector whose loop has `rest` still to run. -/
def dequeued (c : Connector) (rest : List ClientFunctor) : Connector :=
  c.withLoop { c.loop_.toEventLoop with functors := rest }

theorem Sound.dequeued {c : Connector} (h : Sound c) {rest : List ClientFunctor}
    (hfunctors : c.loop_.functors = .connectDestroyed :: rest) :
    Sound (TcpClientRuns.dequeued c rest) := by
  have hbacklog : c.loop_.backlog =
      .connectDestroyed :: (TcpClientRuns.dequeued c rest).loop_.backlog := by
    rw [EventLoop.backlog, hfunctors]
    rfl
  refine ⟨fun f hf => h.queue f (hbacklog ▸ List.mem_cons_of_mem _ hf), ?_, h.off, h.connecting,
    h.timers⟩
  have hresets := h.resets
  rw [TcpClientRuns.resets, hbacklog, List.count_cons_of_ne (by simp)] at hresets
  exact hresets

theorem Sound.resetChannel {c : Connector} (h : Sound c) {rest : List ClientFunctor}
    (hfunctors : c.loop_.functors = .resetChannel :: rest) :
    c.state_ ≠ .kConnecting ∧ Sound (TcpClientRuns.dequeued c rest).resetChannel := by
  have hbacklog : c.loop_.backlog =
      .resetChannel :: (TcpClientRuns.dequeued c rest).loop_.backlog := by
    rw [EventLoop.backlog, hfunctors]
    rfl
  have hresets := h.resets
  rw [TcpClientRuns.resets, hbacklog, List.count_cons_self] at hresets
  -- it is queued once, for a channel that is off
  have hone : ¬ (c.channel_ = none ∨ c.state_ = .kConnecting) := by
    intro hzero
    rw [if_pos hzero] at hresets
    exact absurd hresets (Nat.succ_ne_zero _)
  rw [if_neg hone] at hresets
  have hne : c.state_ ≠ .kConnecting := fun hstate => hone (.inr hstate)
  refine ⟨hne, fun f hf => h.queue f (hbacklog ▸ List.mem_cons_of_mem _ hf), ?_, ?_,
    fun hstate => absurd hstate hne, h.timers⟩
  · have hnone : (TcpClientRuns.dequeued c rest).resetChannel.channel_ = none := rfl
    rw [if_pos (.inl hnone)]
    exact Nat.succ.inj hresets
  · intro channel hchannel
    exact absurd hchannel (by simp [Connector.resetChannel])

theorem runFunctor_step (h : Inv s) {savedErrno : ConnectErrno}
    (hlegal : Legal s (.runFunctor savedErrno)) :
    ∃ s', step s (.runFunctor savedErrno) = .ok s' ∧ Inv s' := by
  obtain ⟨hphase, hne⟩ := hlegal
  obtain ⟨f, rest, hfunctors⟩ := List.exists_cons_of_ne_nil hne
  have hmem : f ∈ s.connector.loop_.backlog := by
    rw [EventLoop.backlog, hfunctors]
    exact List.mem_cons_self
  have hclosing : s.closing = false := by
    rw [Bool.eq_false_iff]
    intro hclosing
    exact absurd (hphase.symm.trans (h.closing hclosing).2.1) (by simp)
  have hnext : ∀ c, (dequeued s.connector rest).runFunctor savedErrno f = .ok c →
      step s (.runFunctor savedErrno) =
        .ok { s with client := { s.client with connector_ := c } } := by
    intro c hc
    have hrun : s.client.connector_.runNext savedErrno = .ok c := by
      unfold Connector.runNext
      rw [show s.client.connector_.loop_.functors = f :: rest from hfunctors]
      exact hc
    have hclient : (s.client.onConnector fun c => c.runNext savedErrno) =
        .ok { s.client with connector_ := c } := onConnector_ok hrun
    simp only [step]
    exact onClient_ok hclient
  rcases h.sound.queue f hmem with rfl | rfl
  · obtain ⟨hstate, hsound⟩ := h.sound.resetChannel hfunctors
    refine ⟨_, hnext _ rfl, hsound, fun hnot => absurd hphase hnot, h.live,
      fun _ => .inl rfl, ?_, ?_⟩
    · exact fun hawaiting => absurd (h.awaiting hawaiting).1 hstate
    · exact fun hclose => absurd (hclosing.symm.trans hclose) (by simp)
  · refine ⟨_, hnext _ rfl, h.sound.dequeued hfunctors, fun hnot => absurd hphase hnot, h.live, ?_,
      h.awaiting, ?_⟩
    · intro hsome
      refine (h.settled hsome).imp_right (Or.imp_right fun hreset => ⟨hreset.1, ?_⟩)
      have hrest := hreset.2
      rw [hfunctors, List.mem_cons] at hrest
      exact hrest.resolve_left (by simp)
    · exact fun hclose => absurd (hclosing.symm.trans hclose) (by simp)

theorem endFunctors_step (h : Inv s) (hlegal : Legal s .endFunctors) :
    ∃ s', step s .endFunctors = .ok s' ∧ Inv s' := by
  obtain ⟨hphase, hbatch⟩ := hlegal
  refine ⟨_, rfl, h.sound.of_backlog rfl, fun _ => hbatch, h.live, ?_, h.awaiting, ?_⟩
  · intro hsome
    rcases h.settled hsome with hnone | ⟨hhandling, _⟩ | ⟨_, hmem⟩
    · exact .inl hnone
    · exact absurd (hphase.symm.trans hhandling) (by simp)
    · rw [hbatch] at hmem
      exact absurd hmem List.not_mem_nil
  · intro hclosing
    exact absurd (hphase.symm.trans (h.closing hclosing).2.1) (by simp)

end Steps

/-! ## Whole runs -/

theorem step_ok {s : System} {a : Action} (h : Inv s) (hlegal : Legal s a)
    (hcareful : Careful s a) :
    ∃ s', step s a = .ok s' ∧ Inv s' := by
  cases a with
  | enableRetry => exact ⟨_, rfl, flag_step h true s.client.connect_⟩
  | connect savedErrno => exact connect_step h hlegal hcareful
  | disconnect => exact ⟨_, rfl, flag_step h s.client.retry_ false⟩
  | stop => exact stop_step h hcareful
  | poll active => exact poll_step h hlegal
  | connectorEvent revents_ err isSelfConnect => exact connectorEvent_step h hlegal
  | retryTimer i savedErrno => exact retryTimer_step h hlegal hcareful
  | connectionDown => exact connectionDown_step h hlegal
  | removeConnection conn savedErrno => exact removeConnection_step h hlegal
  | endEvents => exact endEvents_step h hlegal
  | runFunctor savedErrno => exact runFunctor_step h hlegal
  | endFunctors => exact endFunctors_step h hlegal

/-- No assertion fails in a run of careful steps. -/
theorem careful_run_survives (actions : List Action)
    (hlegal : (machine.restrict Careful).LegalRun .new actions) :
    ∃ s, machine.run .new actions = .ok s := by
  have hstep : ∀ s a, Inv s → (machine.restrict Careful).legal s a →
      ∃ s', (machine.restrict Careful).step s a = .ok s' ∧ Inv s' := by
    intro s a hs ha
    exact step_ok hs ha.1 ha.2
  obtain ⟨s, hrun, _⟩ := Machine.run_invariant Inv hstep inv_new hlegal
  rw [Machine.run_restrict] at hrun
  exact ⟨s, hrun⟩

instance (s : System) (a : Action) : Decidable (machine.legal s a) :=
  inferInstanceAs (Decidable (Legal s a))

instance (s : System) (a : Action) : Decidable ((machine.restrict Careful).legal s a) :=
  inferInstanceAs (Decidable (Legal s a ∧ Careful s a))

/-- An attempt is refused and made again; the connection comes up, goes down and is made
once more, and the user stops the last attempt. -/
def carefulRun : List Action :=
  [.enableRetry, .connect .ECONNREFUSED, .poll false, .retryTimer 0 .EINPROGRESS, .endEvents,
    .endFunctors, .poll true, .connectorEvent POLLOUT 0 false, .endEvents, .runFunctor .zero,
    .endFunctors, .poll false, .connectionDown, .removeConnection 1 .EINPROGRESS, .endEvents,
    .runFunctor .zero, .stop, .endFunctors]

theorem carefulRun_survives :
    (machine.restrict Careful).LegalRun .new carefulRun ∧
      ∃ s, machine.run .new carefulRun = .ok s := by
  have hlegal : (machine.restrict Careful).LegalRun .new carefulRun := by decide +kernel
  exact ⟨hlegal, careful_run_survives carefulRun hlegal⟩

/-- The client connects, its connection goes down, and it connects again. -/
def reconnectRun : List Action :=
  [.connect .EINPROGRESS, .poll true, .connectorEvent POLLOUT 0 false, .endEvents,
    .runFunctor .zero, .endFunctors, .poll false, .connectionDown, .removeConnection 0 .zero,
    .connect .EINPROGRESS]

/-- The connector still believes that it is connected. -/
theorem reconnect_fails_assertion :
    machine.LegalRun .new reconnectRun ∧ machine.run .new reconnectRun = .error .assertion := by
  exact ⟨by decide +kernel, by decide +kernel⟩

end Muduo.Net.TcpClientRuns
