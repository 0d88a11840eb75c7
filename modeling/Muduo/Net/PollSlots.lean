/-
  Net/PollSlots.lean --- the slots of `PollPoller`, along every run whose assertions hold
  (src/muduo/net/poller/PollPoller.cc).

  `PollPoller.Tracks` says that each slot is the one the channel should have, which fails
  as soon as a channel that was switched off is switched on again.  What never fails is
  weaker: the registered channels own the slots, one each, and each slot is about its
  owner's descriptor, switched on or off, with its owner's events.  Only the assertions of
  the methods are needed for that, and nothing but an assertion can fail: no slot outside
  the array is used, and the channel of the last slot is always found.
-/
import Muduo.Foundation.SlotTable
import Muduo.Net.PollPoller

set_option autoImplicit false

namespace Muduo.Net

open Muduo.Foundation

namespace PollPoller

/-- The slot is about the descriptor of the channel, and has its events. -/
def About (pfd : Pollfd) (ch : Channel) : Prop :=
  (pfd.fd = ch.fd_ ∨ pfd.fd = -ch.fd_ - 1) ∧ pfd.events.signExtend 32 = ch.events_

/-- `pollfds_[channel->index()]`. -/
def slotAt (p : PollPoller) (c : Nat) : Option Pollfd := p.pollfds_[(p.heap c).index_.toNat]?

/-- The registered channels own the slots. -/
structure Slots (p : PollPoller) (s : Interest) : Prop
    extends Interest.Mirrors p.heap p.channels_ s where
  table : SlotTable (fun c => s.status c = .registered) (fun c => (p.heap c).index_.toNat)
    (fun c pfd => About pfd (s.channel c)) p.pollfds_
  fresh : ∀ c, (p.heap c).index_ < 0 ↔ s.status c = .fresh
  nonneg : ∀ c, 0 ≤ (s.channel c).fd_
  requested : ∀ c, Requested (s.channel c).events_
  distinct : ∀ c c', (s.channel c).fd_ = (s.channel c').fd_ → c = c'

theorem slots_new {fd : Nat → Int} (hinj : Function.Injective fd) (hfd : ∀ c, 0 ≤ fd c) :
    Slots (new fd) (.new fd) where
  toMirrors := Interest.mirrors_new fd
  table := .nil (by simp [Interest.new])
  fresh _ := by simp [new, ChannelTable.new, Interest.new]
  nonneg := hfd
  requested _ := .inl rfl
  distinct _ _ h := hinj h

section Steps

variable {p p' : PollPoller} {s : Interest} {c : Nat}

theorem Slots.unshared (h : Slots p s) (c : Nat) : s.Unshared c :=
  fun c' _ hfd => h.distinct c' c hfd

theorem Slots.index_nonneg (h : Slots p s) (hstatus : s.status c ≠ .fresh) :
    0 ≤ (p.heap c).index_ := by
  by_contra hneg
  exact hstatus ((h.fresh c).mp (by omega))

/-- The descriptor that a slot is about, switched on or off. -/
theorem fd_of_about {pfd : Pollfd} {ch : Channel} (h : About pfd ch) (hfd : 0 ≤ ch.fd_) :
    (if pfd.fd < 0 then -pfd.fd - 1 else pfd.fd) = ch.fd_ := by
  rcases h.1 with hpfd | hpfd <;> rw [hpfd] <;> split <;> omega

/-- An update of a channel leaves the slots of the others theirs. -/
theorem about_updated {u : ChannelUpdate} {c' : Nat} {pfd : Pollfd} (hc : c' ≠ c)
    (h : About pfd (s.channel c')) : About pfd ((s.updated c u).channel c') := by
  rwa [Interest.updated_channel_of_ne hc]

/-- The parts of `Slots` that an update touches. -/
theorem Slots.updated (h : Slots p s) {u : ChannelUpdate}
    (hmirrors : Interest.Mirrors p'.heap p'.channels_ (s.updated c u))
    (htable : SlotTable (fun c' => c' = c ∨ s.status c' = .registered)
      (fun c' => (p'.heap c').index_.toNat)
      (fun c' pfd => About pfd ((s.updated c u).channel c')) p'.pollfds_)
    (hself : 0 ≤ (p'.heap c).index_)
    (hindex : ∀ c', c' ≠ c → (p'.heap c').index_ = (p.heap c').index_) :
    Slots p' (s.updated c u) := by
  refine ⟨hmirrors, ?_, fun c' => ?_, fun c' => ?_, requested_updated h.requested u,
    fun c₁ c₂ => ?_⟩
  · simpa only [registered_updated] using htable
  · rw [fresh_updated]
    by_cases hc : c' = c
    · subst hc
      exact ⟨fun hneg => by omega, fun hne => absurd rfl hne.1⟩
    · rw [hindex c' hc, h.fresh c']
      exact ⟨fun hf => ⟨hc, hf⟩, fun hf => hf.2⟩
  · rw [Interest.updated_fd]
    exact h.nonneg c'
  · rw [Interest.updated_fd, Interest.updated_fd]
    exact h.distinct c₁ c₂

/-- A channel without a slot gets one at the end. -/
theorem slots_update_fresh (h : Slots p s) (hstatus : s.status c = .fresh) {u : ChannelUpdate}
    (hstep : p.step (.update c u) = .ok p') : Slots p' (s.updated c u) := by
  have hneg : (p.heap c).index_ < 0 := (h.fresh c).mpr hstatus
  have hother : ∀ c', s.status c' = .registered → c' ≠ c := by
    rintro c' hc' rfl
    exact absurd (hstatus.symm.trans hc') (by simp)
  unfold step updateChannel at hstep
  simp only [ChannelTable.change_index, ChannelTable.change_self, ChannelUpdate.apply_fd, h.heap,
    if_pos hneg, assertThat_bind_eq_ok_iff, Except.ok.injEq, List.length_append,
    List.length_singleton] at hstep
  obtain ⟨_, rfl⟩ := hstep
  have hidx : ((p.pollfds_.length + 1 : Nat) : Int) - 1 = p.pollfds_.length := by omega
  have hself : ((p.heap.change c u).set_index c ((p.pollfds_.length + 1 : Nat) - 1) c).index_ =
      p.pollfds_.length := by rw [ChannelTable.set_index_self, hidx]
  have hindex : ∀ c', c' ≠ c → ((p.heap.change c u).set_index c
      ((p.pollfds_.length + 1 : Nat) - 1) c').index_ = (p.heap c').index_ := by
    intro c' hc
    rw [ChannelTable.set_index_of_ne _ hc, ChannelTable.change_index]
  refine h.updated ((h.toMirrors.updated (h.unshared c) u).set_index c _) ?_
    (by simp only [hself]; omega) hindex
  refine h.table.push (fun _ => Iff.rfl) (by simp only [hself, Int.toNat_natCast])
    (fun c' hc' => by simp only [hindex c' (hother c' hc')]) ⟨.inl ?_, ?_⟩
    (fun c' _ hc' => about_updated (hother c' hc'))
  · rw [Interest.updated_channel_self, ChannelUpdate.apply_fd]
  · rw [Interest.updated_channel_self]
    exact signExtend_setWidth (requested_apply (h.requested c) u)

/-- A channel that has a slot changes it. -/
theorem slots_update_registered (h : Slots p s) (hstatus : s.status c ≠ .fresh) {u : ChannelUpdate}
    (hstep : p.step (.update c u) = .ok p') : Slots p' (s.updated c u) := by
  have hnonneg := h.index_nonneg hstatus
  unfold step updateChannel at hstep
  simp only [ChannelTable.change_index, ChannelTable.change_self, ChannelUpdate.apply_fd, h.heap,
    if_neg (show ¬ (p.heap c).index_ < 0 by omega), assertThat_bind_eq_ok_iff] at hstep
  obtain ⟨_, hmap, _, hstep⟩ := hstep
  obtain ⟨pfd, hpfd, hstep⟩ := bind_eq_ok_iff.mp hstep
  obtain ⟨habout, hstep⟩ := assertThat_bind_eq_ok_iff.mp hstep
  obtain rfl := Except.ok.inj hstep
  -- only a registered channel is in the map
  have hreg : s.status c = .registered := ((h.map _ c).mp hmap).1
  have hmirrors := h.toMirrors.updated (h.unshared c) u
  rw [← hmap, Function.update_eq_self] at hmirrors
  refine h.updated hmirrors ?_ (by simpa using hnonneg)
    (fun c' _ => ChannelTable.change_index _ _ _ _)
  simp only [ChannelTable.change_index]
  refine h.table.set hreg (fun c' => ⟨fun hc' => ?_, .inr⟩) (fun _ _ => rfl) ⟨?_, ?_⟩
    (fun c' _ _ hc' => about_updated hc')
  · rcases hc' with rfl | hc'
    · exact hreg
    · exact hc'
  · rw [Interest.updated_channel_self, ChannelUpdate.apply_fd]
    split
    · exact .inr rfl
    · exact habout
  · rw [Interest.updated_channel_self]
    have hfit := signExtend_setWidth (requested_apply (h.requested c) u)
    split <;> exact hfit

/-- The parts of `Slots` that a removal touches. -/
theorem Slots.removed (h : Slots p s) (hreg : s.status c = .registered)
    (hmirrors : Interest.Mirrors p'.heap p'.channels_ (s.removed c))
    (htable : SlotTable (fun c' => (s.removed c).status c' = .registered)
      (fun c' => (p'.heap c').index_.toNat) (fun c' pfd => About pfd (s.channel c')) p'.pollfds_)
    (hfresh : ∀ c', (p'.heap c').index_ < 0 ↔ (p.heap c').index_ < 0) :
    Slots p' (s.removed c) := by
  refine ⟨hmirrors, htable, fun c' => ?_, h.nonneg, h.requested, h.distinct⟩
  rw [hfresh, h.fresh]
  by_cases hc : c' = c
  · subst hc
    simp [hreg]
  · rw [Interest.removed_status_of_ne hc]

/-- `removeChannel` after its assertions, when the slot is the last one. -/
theorem slots_remove_last (h : Slots p s) (hreg : s.status c = .registered)
    (hlast : (p.heap c).index_.toNat = p.pollfds_.length - 1)
    (hp' : p' = { p with
      channels_ := Function.update p.channels_ (s.channel c).fd_ none
      pollfds_ := p.pollfds_.dropLast }) :
    Slots p' (s.removed c) ∧
      ∀ c', c' ≠ c → s.status c' = .registered → p'.slotAt c' = p.slotAt c' := by
  subst hp'
  exact ⟨h.removed hreg (h.toMirrors.removed hreg)
      (h.table.pop hreg (fun _ => registered_removed) hlast) (fun _ => Iff.rfl),
    fun c' hc hc' => h.table.getElem?_pop hreg hlast hc' hc⟩

/-- `removeChannel` after its assertions, when the last slot has to move. -/
theorem slots_remove_middle (h : Slots p s) (hreg : s.status c = .registered) {e : Nat}
    (hlt : (p.heap c).index_.toNat < p.pollfds_.length - 1) (he : s.status e = .registered)
    (hlast : (p.heap e).index_.toNat = p.pollfds_.length - 1) {last : Pollfd}
    (hslot : p.pollfds_[p.pollfds_.length - 1]? = some last)
    (hp' : p' = { p with
      heap := p.heap.set_index e (p.heap c).index_
      channels_ := Function.update p.channels_ (s.channel c).fd_ none
      pollfds_ := (p.pollfds_.set (p.heap c).index_.toNat last).dropLast }) :
    Slots p' (s.removed c) ∧
      ∀ c', c' ≠ c → s.status c' = .registered → p'.slotAt c' = p.slotAt c' := by
  subst hp'
  have hmoved : (p.heap.set_index e (p.heap c).index_ e).index_.toNat =
    (p.heap c).index_.toNat := by
    rw [ChannelTable.set_index_self]
  have hindex : ∀ c', s.status c' = .registered → c' ≠ e →
      (p.heap.set_index e (p.heap c).index_ c').index_.toNat = (p.heap c').index_.toNat := by
    intro c' _ hce
    rw [ChannelTable.set_index_of_ne _ hce]
  refine ⟨h.removed hreg ((h.toMirrors.removed hreg).set_index e _)
      (h.table.swap hreg hlt hslot he hlast hmoved hindex fun _ => registered_removed) fun c' => ?_,
    fun c' hc hc' => h.table.getElem?_swap hreg hlt hslot he hlast hmoved hindex hc' hc⟩
  by_cases hce : c' = e
  · subst hce
    have hc := h.index_nonneg (c := c) (by rw [hreg]; simp)
    have he := h.index_nonneg (c := c') (by rw [he]; simp)
    simp only [ChannelTable.set_index_self]
    omega
  · simp only [ChannelTable.set_index_of_ne _ hce]

/-- The owner of the last slot is the channel that its descriptor leads to. -/
theorem Slots.last_owner (h : Slots p s) (hreg : s.status c = .registered)
    (hlast : (p.heap c).index_.toNat ≠ p.pollfds_.length - 1) :
    ∃ e last, s.status e = .registered ∧
      ((p.heap e).index_.toNat = p.pollfds_.length - 1 ∧
        p.pollfds_[p.pollfds_.length - 1]? = some last) ∧
      ({ p with channels_ := Function.update p.channels_ (s.channel c).fd_ none } :
        PollPoller).slot ((p.pollfds_.length : Int) - 1) = .ok last ∧
      Function.update p.channels_ (s.channel c).fd_ none
        (if last.fd < 0 then -last.fd - 1 else last.fd) = some e := by
  have hlt := h.table.index_lt hreg
  obtain ⟨e, he, hend⟩ := h.table.owner (p.pollfds_.length - 1) (by omega)
  obtain ⟨last, hslot, habout⟩ := h.table.slot e he
  rw [hend] at hslot
  have hne : (s.channel e).fd_ ≠ (s.channel c).fd_ := by
    intro hfd
    obtain rfl := h.distinct e c hfd
    exact hlast hend
  refine ⟨e, last, he, ⟨hend, hslot⟩, ?_, ?_⟩
  · rw [show (p.pollfds_.length : Int) - 1 = (p.pollfds_.length - 1 : Nat) by omega]
    exact slot_of hslot
  · rw [fd_of_about habout (h.nonneg e), Function.update_of_ne hne, h.channels_eq he]

/-- Whichever slot is removed, the others keep theirs. -/
theorem slots_remove (h : Slots p s) (hstep : p.step (.remove c) = .ok p') :
    Slots p' (s.removed c) ∧
      ∀ c', c' ≠ c → s.status c' = .registered → p'.slotAt c' = p.slotAt c' := by
  unfold step removeChannel at hstep
  simp only [h.heap, assertThat_bind_eq_ok_iff] at hstep
  obtain ⟨_, _, hmap, _, hrange, hstep⟩ := hstep
  obtain ⟨_, _, hstep⟩ := bind_eq_ok_iff.mp hstep
  simp only [assertThat_bind_eq_ok_iff] at hstep
  obtain ⟨_, _, hstep⟩ := hstep
  have hreg : s.status c = .registered := ((h.map _ c).mp hmap).1
  have hlt := h.table.index_lt hreg
  unfold dropSlot at hstep
  by_cases hlast : (p.heap c).index_.toNat = p.pollfds_.length - 1
  · simp only [if_pos hlast] at hstep
    exact slots_remove_last h hreg hlast (Except.ok.inj hstep).symm
  · simp only [if_neg hlast] at hstep
    obtain ⟨e, last, he, ⟨hend, hslot⟩, hget, hmap⟩ := h.last_owner hreg hlast
    simp only [hget, ok_bind, hmap, Except.ok.injEq] at hstep
    exact slots_remove_middle h hreg (by omega) he hend hslot hstep.symm

/-- A slot whose position was asserted exists. -/
theorem slot_assertsOnly {idx : Int} (h : 0 ≤ idx ∧ idx < p.pollfds_.length) :
    AssertsOnly (p.slot idx) := by
  have hlt : idx.toNat < p.pollfds_.length := by omega
  unfold slot
  rw [List.getElem?_eq_getElem hlt]
  exact assertsOnly_ok _

theorem updateChannel_assertsOnly (p : PollPoller) (c : Nat) : AssertsOnly (p.updateChannel c) := by
  unfold updateChannel
  simp only
  split
  · exact .assertThat_bind fun _ => assertsOnly_ok _
  · refine .assertThat_bind fun _ => .assertThat_bind fun _ => .assertThat_bind fun hrange => ?_
    refine (slot_assertsOnly hrange).bind fun pfd _ => ?_
    exact .assertThat_bind fun _ => assertsOnly_ok _

/-- The last slot is about a channel that is in the map, also when its sign is flipped. -/
theorem dropSlot_assertsOnly (h : Slots p s) (hreg : s.status c = .registered) :
    AssertsOnly ({ p with
      channels_ := Function.update p.channels_ (s.channel c).fd_ none }.dropSlot
        (p.heap c).index_) := by
  have hlt := h.table.index_lt hreg
  unfold dropSlot
  by_cases hlast : (p.heap c).index_.toNat = p.pollfds_.length - 1
  · rw [if_pos hlast]
    exact assertsOnly_ok _
  · rw [if_neg hlast]
    obtain ⟨e, last, he, _, hget, hmap⟩ := h.last_owner hreg hlast
    simp only [hget, ok_bind, hmap]
    exact assertsOnly_ok _

/-- No method does anything undefined: it succeeds, or one of its assertions fails. -/
theorem step_assertsOnly (h : Slots p s) (op : ChannelOp) : AssertsOnly (p.step op) := by
  cases op with
  | update c u => exact updateChannel_assertsOnly _ c
  | remove c =>
      unfold step removeChannel
      simp only [h.heap]
      refine .assertThat_bind fun _ => .assertThat_bind fun _ => .assertThat_bind fun hmap =>
        .assertThat_bind fun _ => .assertThat_bind fun hrange => ?_
      refine (slot_assertsOnly hrange).bind fun pfd _ => ?_
      refine .assertThat_bind fun _ => .assertThat_bind fun _ => ?_
      exact dropSlot_assertsOnly h ((h.map _ c).mp hmap).1

theorem slots_step {op : ChannelOp} (h : Slots p s) (hstep : p.step op = .ok p') :
    ∃ s', s.step op = .ok s' ∧ Slots p' s' := by
  cases op with
  | update c u =>
      refine ⟨_, rfl, ?_⟩
      by_cases hstatus : s.status c = .fresh
      · exact slots_update_fresh h hstatus hstep
      · exact slots_update_registered h hstatus hstep
  | remove c => exact ⟨_, rfl, (slots_remove h hstep).1⟩

end Steps

/-! ## Whole runs -/

/-- The positions of the registered channels are those of the slots, one each, and each
slot is about the channel that owns it. -/
structure Bijective (p : PollPoller) (s : Interest) : Prop where
  index : ∀ c, s.status c = .registered →
    ∃ i : Nat, i < p.pollfds_.length ∧ (p.heap c).index_ = i
  owner : ∀ i : Nat, i < p.pollfds_.length → ∃ c, s.status c = .registered ∧ (p.heap c).index_ = i
  inj : ∀ c c', s.status c = .registered → s.status c' = .registered →
    (p.heap c).index_ = (p.heap c').index_ → c = c'
  map : ∀ fd c, p.channels_ fd = some c ↔ s.status c = .registered ∧ (p.heap c).fd_ = fd
  slot : ∀ c, s.status c = .registered → ∃ pfd, p.slotAt c = some pfd ∧
    About pfd (p.heap c).toChannel

theorem Slots.bijective {p : PollPoller} {s : Interest} (h : Slots p s) : Bijective p s := by
  have hnonneg : ∀ c, s.status c = .registered → 0 ≤ (p.heap c).index_ :=
    fun c hc => h.index_nonneg (by rw [hc]; simp)
  refine ⟨fun c hc => ?_, fun i hi => ?_, fun c c' hc hc' heq => ?_, fun fd c => ?_, fun c hc => ?_⟩
  · have := hnonneg c hc
    exact ⟨(p.heap c).index_.toNat, h.table.index_lt hc, by omega⟩
  · obtain ⟨c, hc, hi⟩ := h.table.owner i hi
    have := hnonneg c hc
    exact ⟨c, hc, by omega⟩
  · exact h.table.inj c c' hc hc' (congrArg Int.toNat heq)
  · rw [h.heap]
    exact h.map fd c
  · rw [h.heap]
    exact h.table.slot c hc

/-- Over channels with different descriptors, every run either fails an assertion of the methods,
or ends with the registered channels and the slots in one to one correspondence; and there a
removal fails an assertion, or leaves every other channel with the slot that it had. -/
theorem slots_bijective (fd : Nat → Int) (hinj : Function.Injective fd) (hfd : ∀ c, 0 ≤ fd c)
    (ops : List ChannelOp) :
    machine.run (.new fd) ops = .error .assertion ∨
      ∃ p s, machine.run (.new fd) ops = .ok p ∧ Interest.machine.run (.new fd) ops = .ok s ∧
        Bijective p s ∧
        ∀ c, p.step (.remove c) = .error .assertion ∨
          ∃ p', p.step (.remove c) = .ok p' ∧
            ∀ c', c' ≠ c → s.status c' = .registered → p'.slotAt c' = p.slotAt c' := by
  have hlegal : machine.LegalRun (.new fd) ops :=
    Machine.legalRun_of_forall (fun _ _ => trivial) _ _
  have hrun := machine.run_ok_or_assertion (fun p => ∃ s, Slots p s)
    (fun p op p' ⟨s, h⟩ _ hstep => by
      obtain ⟨s', _, h'⟩ := slots_step h hstep
      exact ⟨s', h'⟩)
    (fun p op ⟨s, h⟩ _ => step_assertsOnly h op) ⟨_, slots_new hinj hfd⟩ hlegal
  rcases hrun with ⟨p, hp, _⟩ | herror
  · obtain ⟨s, hs, hslots⟩ := @Machine.run_ok_simulation _ _ machine _ Interest.machine Slots
      (fun _ _ _ _ h hstep => slots_step h hstep) _ _ _ (slots_new hinj hfd) _ hp
    refine .inr ⟨p, s, hp, hs, hslots.bijective, fun c => ?_⟩
    rcases (step_assertsOnly hslots (.remove c)).cases with ⟨p', hp'⟩ | herror
    · exact .inr ⟨p', hp', (slots_remove hslots hp').2⟩
    · exact .inl herror
  · exact .inl herror

/-- Channel `c` is for descriptor `c + 3`. -/
def offsetFd (c : Nat) : Int := c + 3

/-- Of three channels the second is switched off, the last too, and the second is
removed. -/
def middleRemoved : List ChannelOp :=
  [.update 0 .enableReading, .update 1 .enableReading, .update 2 .enableWriting,
    .update 2 .disableAll, .update 1 .disableAll, .remove 1]

theorem slots_bijective_middleRemoved :
    ∃ p s, machine.run (.new offsetFd) middleRemoved = .ok p ∧
      Interest.machine.run (.new offsetFd) middleRemoved = .ok s ∧ Bijective p s := by
  have hinj : Function.Injective offsetFd := by
    intro c c' h
    unfold offsetFd at h
    omega
  obtain ⟨p, hp, _⟩ := Machine.exists_of_endsWith machine (.new offsetFd) middleRemoved
    (fun _ => true) (by decide +kernel)
  rcases slots_bijective offsetFd hinj (fun c => by unfold offsetFd; omega) middleRemoved with
    herror | ⟨p', s, hp', hs, hbij, _⟩
  · exact absurd (hp.symm.trans herror) (by simp)
  · exact ⟨p', s, hp', hs, hbij⟩

end PollPoller

end Muduo.Net
