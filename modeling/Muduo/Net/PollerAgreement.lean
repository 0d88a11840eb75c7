/-
  Net/PollerAgreement.lean --- the two pollers side by side.

  The same methods of channels are executed over an `EPollPoller` and over a
  `PollPoller`, beside the abstract poller that says what should be watched.  The two
  agree as long as the methods stay away from three corners: a first update without
  interest, any update of a channel whose interest is switched off, and any use of a
  channel that was removed.
-/
import Muduo.Net.EPollPoller
import Muduo.Net.PollPoller

set_option autoImplicit false

namespace Muduo.Net

open Muduo.Foundation

namespace PollerAgreement

/-- Both pollers have the registered channels, and watch what these ask for. -/
structure Agree (s : Interest) (e : EPollPoller) (p : PollPoller) : Prop where
  epoll : Interest.Mirrors e.heap e.channels_ s
  poll : Interest.Mirrors p.heap p.channels_ s
  epollWatches : ∀ fd events, e.Watches fd events ↔ s.Wants fd events
  pollWatches : ∀ fd events, p.Watches fd events ↔ s.Wants fd events

/-- No assertion fails in either poller, and they agree after every step. -/
def AgreesThroughout (s : Interest) (e : EPollPoller) (p : PollPoller) : List ChannelOp → Prop
  | [] => Agree s e p
  | op :: ops =>
      Agree s e p ∧ ∃ s' e' p', s.step op = .ok s' ∧ e.step op = .ok e' ∧ p.step op = .ok p' ∧
        AgreesThroughout s' e' p' ops

/-- The methods that both pollers follow. -/
def Restrained (s : Interest) : ChannelOp → Prop
  | .update c u =>
      match s.status c with
      | .fresh => (u.apply (s.channel c)).events_ ≠ 0#32
      | .registered => (s.channel c).events_ ≠ 0#32
      | .removed => False
  | .remove c => s.status c = .registered

instance (s : Interest) (op : ChannelOp) : Decidable (Restrained s op) :=
  match op with
  | .update c u =>
      match h : s.status c with
      | .fresh => decidable_of_iff ((u.apply (s.channel c)).events_ ≠ 0#32)
          (by simp [Restrained, h])
      | .registered => decidable_of_iff ((s.channel c).events_ ≠ 0#32) (by simp [Restrained, h])
      | .removed => isFalse (by simp [Restrained, h])
  | .remove _ => inferInstanceAs (Decidable (_ = _))

/-! ## One step -/

/-- Both pollers track the abstract one, whose channels have different descriptors. -/
structure Follow (s : Interest) (e : EPollPoller) (p : PollPoller) : Prop where
  epoll : EPollPoller.Tracks e s
  poll : PollPoller.Tracks p s
  distinct : ∀ c c', (s.channel c).fd_ = (s.channel c').fd_ → c = c'

section Steps

variable {s : Interest} {e : EPollPoller} {p : PollPoller} {op : ChannelOp}

theorem Follow.agree (h : Follow s e p) : Agree s e p :=
  ⟨h.epoll.toMirrors, h.poll.toMirrors, h.epoll.kernel, h.poll.watches_iff⟩

theorem Follow.unshared (h : Follow s e p) (c : Nat) : s.Unshared c :=
  fun c' _ hfd => h.distinct c' c hfd

theorem Follow.distinct_updated (h : Follow s e p) (c : Nat) (u : ChannelUpdate) (d d' : Nat)
    (hfd : ((s.updated c u).channel d).fd_ = ((s.updated c u).channel d').fd_) : d = d' := by
  rw [Interest.updated_fd, Interest.updated_fd] at hfd
  exact h.distinct d d' hfd

/-- Both pollers follow a first update that asks for something. -/
theorem follow_first {c : Nat} {u : ChannelUpdate} (h : Follow s e p)
    (hstatus : s.status c = .fresh)
    (hnew : (u.apply (s.channel c)).events_ ≠ 0#32) :
    ∃ e' p', e.step (.update c u) = .ok e' ∧ p.step (.update c u) = .ok p' ∧
      Follow (s.updated c u) e' p' := by
  have hfree := h.unshared c
  exact ⟨_, _, EPollPoller.step_update h.epoll hfree (.inr hnew),
    PollPoller.step_update_fresh h.poll hstatus hfree hnew,
    EPollPoller.tracks_updated h.epoll hfree u,
    PollPoller.tracks_update_fresh h.poll hstatus hfree u, h.distinct_updated c u⟩

/-- Both pollers follow an update of a channel that is watched. -/
theorem follow_watched {c : Nat} {u : ChannelUpdate} (h : Follow s e p)
    (hstatus : s.status c = .registered) (hold : (s.channel c).events_ ≠ 0#32) :
    ∃ e' p', e.step (.update c u) = .ok e' ∧ p.step (.update c u) = .ok p' ∧
      Follow (s.updated c u) e' p' := by
  have hfree := h.unshared c
  obtain ⟨i, hi, hslot⟩ := h.poll.slot c hstatus
  exact ⟨_, _, EPollPoller.step_update h.epoll hfree (.inl ⟨hstatus, hold⟩),
    PollPoller.step_update_registered h.poll hstatus (.inl hold) hi hslot,
    EPollPoller.tracks_updated h.epoll hfree u,
    PollPoller.tracks_update_registered h.poll hstatus hfree u hi, h.distinct_updated c u⟩

/-- Both pollers follow the removal of a channel without interest. -/
theorem follow_removed {c : Nat} (h : Follow s e p) (hstatus : s.status c = .registered)
    (hnone : (s.channel c).events_ = 0#32) :
    ∃ e' p', e.step (.remove c) = .ok e' ∧ p.step (.remove c) = .ok p' ∧
      Follow (s.removed c) e' p' := by
  obtain ⟨p', hp', htracks⟩ := PollPoller.tracks_remove h.poll hstatus hnone
  exact ⟨_, p', EPollPoller.step_remove h.epoll hstatus hnone, hp',
    EPollPoller.tracks_removed h.epoll hstatus hnone, htracks, h.distinct⟩

/-- A restrained step succeeds in all three. -/
theorem follow_step (h : Follow s e p) (hlegal : s.Legal op) (hop : Restrained s op) :
    ∃ s' e' p', s.step op = .ok s' ∧ e.step op = .ok e' ∧ p.step op = .ok p' ∧ Follow s' e' p' := by
  cases op with
  | update c u =>
      unfold Restrained at hop
      rcases hstatus : s.status c with _ | _ | _
      · simp only [hstatus] at hop
        obtain ⟨e', p', he, hp, hfollow⟩ := follow_first h hstatus hop
        exact ⟨_, e', p', rfl, he, hp, hfollow⟩
      · simp only [hstatus] at hop
        obtain ⟨e', p', he, hp, hfollow⟩ := follow_watched h hstatus hop
        exact ⟨_, e', p', rfl, he, hp, hfollow⟩
      · simp only [hstatus] at hop
  | remove c =>
      have hnone := Channel.isNoneEvent_iff.mp hlegal.1
      obtain ⟨e', p', he, hp, hfollow⟩ := follow_removed h hop hnone
      exact ⟨_, e', p', rfl, he, hp, hfollow⟩

/-- Any other step either fails an assertion or makes the pollers differ. -/
theorem restrained_of_agree (h : Follow s e p) (hlegal : s.Legal op) {s' : Interest}
    {e' : EPollPoller} {p' : PollPoller} (hs : s.step op = .ok s') (he : e.step op = .ok e')
    (hp : p.step op = .ok p') (hagree : Agree s' e' p') : Restrained s op := by
  cases op with
  | update c u =>
      have hfree := h.unshared c
      obtain rfl : s.updated c u = s' := Except.ok.inj hs
      -- nobody wants to be watched for nothing
      have hblank : EPollPoller.NotBlank s (.update c u) := by
        by_contra hblank
        have hwatch := EPollPoller.watches_of_blank h.epoll hfree hblank he
        obtain ⟨_, _, _, _, hne⟩ := (hagree.epollWatches _ _).mp hwatch
        exact hne rfl
      unfold Restrained
      rcases hstatus : s.status c with _ | _ | _
      · simp only [hstatus]
        refine hblank.resolve_left fun hold => ?_
        exact absurd (hstatus.symm.trans hold.1) (by simp)
      · simp only [hstatus]
        intro hold
        have hnew : (u.apply (s.channel c)).events_ ≠ 0#32 := hblank.resolve_left fun hb =>
          hb.2 hold
        have hoff := PollPoller.not_watches_of_reenabled h.poll hstatus hold hnew hp
          (u.apply (s.channel c)).events_
        refine hoff ((hagree.pollWatches _ _).mpr ?_)
        rw [Interest.wants_updated hfree, if_pos rfl]
        exact ⟨rfl, hnew⟩
      · rw [PollPoller.step_update_removed h.poll hstatus hfree u] at hp
        exact absurd hp (by simp)
  | remove c =>
      by_contra hstatus
      rw [EPollPoller.step_remove_not_registered h.epoll hstatus (h.unshared c) hlegal.1] at he
      exact absurd he (by simp)

end Steps

/-! ## Whole runs -/

/-- From matching states the pollers agree exactly along the restrained runs. -/
theorem agreesThroughout_iff {s : Interest} {e : EPollPoller} {p : PollPoller} (h : Follow s e p)
    {ops : List ChannelOp} (hlegal : Interest.machine.LegalRun s ops) :
    AgreesThroughout s e p ops ↔ (Interest.machine.restrict Restrained).LegalRun s ops := by
  induction ops generalizing s e p with
  | nil => exact ⟨fun _ => trivial, fun _ => h.agree⟩
  | cons op ops ih =>
      obtain ⟨hop, hrest⟩ := hlegal
      constructor
      · rintro ⟨_, s', e', p', hs, he, hp, hthroughout⟩
        have hagree : Agree s' e' p' := by
          cases ops with
          | nil => exact hthroughout
          | cons _ _ => exact hthroughout.1
        have hrestrained := restrained_of_agree h hop hs he hp hagree
        obtain ⟨s₁, e₁, p₁, hs₁, he₁, hp₁, hfollow⟩ := follow_step h hop hrestrained
        obtain rfl := Except.ok.inj (hs₁.symm.trans hs)
        obtain rfl := Except.ok.inj (he₁.symm.trans he)
        obtain rfl := Except.ok.inj (hp₁.symm.trans hp)
        have hstep : Interest.machine.step s op = .ok s₁ := hs
        rw [hstep] at hrest
        exact (Machine.legalRun_restrict_cons hstep).mpr
          ⟨⟨hop, hrestrained⟩, (ih hfollow hrest).mp hthroughout⟩
      · intro hrun
        have hrestrained : Restrained s op := hrun.1.2
        obtain ⟨s₁, e₁, p₁, hs, he, hp, hfollow⟩ := follow_step h hop hrestrained
        have hstep : Interest.machine.step s op = .ok s₁ := hs
        rw [hstep] at hrest
        obtain ⟨_, hrest'⟩ := (Machine.legalRun_restrict_cons hstep).mp hrun
        exact ⟨h.agree, s₁, e₁, p₁, hs, he, hp, (ih hfollow hrest).mpr hrest'⟩

/-- From the empty state, over channels with different descriptors, the two pollers are
interchangeable exactly along the restrained runs. -/
theorem pollers_agree_iff_restrained (fd : Nat → Int) (hinj : Function.Injective fd)
    (hfd : ∀ c, 0 ≤ fd c) (ops : List ChannelOp)
    (hlegal : Interest.machine.LegalRun (.new fd) ops) :
    AgreesThroughout (.new fd) (.new fd) (.new fd) ops ↔
      (Interest.machine.restrict Restrained).LegalRun (.new fd) ops :=
  agreesThroughout_iff
    ⟨EPollPoller.tracks_new fd, PollPoller.tracks_new hfd, fun _ _ h => hinj h⟩ hlegal

/-- Channel `c` is for descriptor `c + 3`. -/
def sampleFd (c : Nat) : Int := c + 3

theorem sampleFd_injective : Function.Injective sampleFd := by
  intro c c' h
  unfold sampleFd at h
  omega

theorem sampleFd_nonneg (c : Nat) : 0 ≤ sampleFd c := by
  unfold sampleFd
  omega

/-- Two channels come and the first one goes. -/
def sampleOps : List ChannelOp :=
  [.update 0 .enableReading, .update 1 .enableReading, .update 1 .enableWriting,
    .update 0 .disableAll, .remove 0, .update 1 .disableWriting]

instance (s : Interest) (op : ChannelOp) : Decidable (Interest.machine.legal s op) :=
  inferInstanceAs (Decidable (s.Legal op))

instance (s : Interest) (op : ChannelOp) :
    Decidable ((Interest.machine.restrict Restrained).legal s op) :=
  inferInstanceAs (Decidable (s.Legal op ∧ Restrained s op))

theorem pollers_agree_sampleOps :
    AgreesThroughout (.new sampleFd) (.new sampleFd) (.new sampleFd) sampleOps := by
  have hlegal : Interest.machine.LegalRun (.new sampleFd) sampleOps := by decide +kernel
  rw [pollers_agree_iff_restrained sampleFd sampleFd_injective sampleFd_nonneg sampleOps hlegal]
  decide +kernel

/-- The destructor of an `Acceptor` that never listened. -/
def neverListened : List ChannelOp := [.update 0 .disableAll, .remove 0]

/-- `epoll` watches the descriptor of a channel without interest, and `PollPoller` fails
an assertion when that channel is removed. -/
theorem pollers_disagree_neverListened :
    Function.Injective sampleFd ∧ (∀ c, 0 ≤ sampleFd c) ∧
      Interest.machine.LegalRun (.new sampleFd) neverListened ∧
      ¬ AgreesThroughout (.new sampleFd) (.new sampleFd) (.new sampleFd) neverListened ∧
      PollPoller.machine.run (.new sampleFd) neverListened = .error .assertion := by
  refine ⟨sampleFd_injective, sampleFd_nonneg, by decide +kernel, ?_, by rfl⟩
  rintro ⟨_, s', e', p', hs, he, _, hagree, _⟩
  obtain rfl := Except.ok.inj hs
  obtain rfl := Except.ok.inj he
  obtain ⟨_, _, _, _, hne⟩ := (hagree.epollWatches 3 0#32).mp (by rfl)
  exact hne rfl

end PollerAgreement

end Muduo.Net
