/-
  Base/AsyncBuffers.lean --- the buffers of `AsyncLogging`.

  The assertions of the back end rest on two facts that the code does not state: the
  reserve `nextBuffer_` is empty-handed only when `buffers_` has a buffer, and each buffer
  has one owner.  `Inv` has them for every point of the back end.  Every legal step of any
  thread succeeds, keeps `Inv`, and does to the bytes what `LogFlow.step` does.
-/
import Muduo.Base.LogFlow

set_option autoImplicit false

namespace Muduo.Base.AsyncLogging

open Muduo.Foundation

/-! ## Who owns which buffer -/

/-- The places of the buffers that have something in them. -/
def loaded (s : AsyncLogging) : List Nat :=
  s.currentBuffer_.toList ++ (s.buffers_ ++ s.buffersToWrite)

/-- The places of the buffers in reserve. -/
def spares (s : AsyncLogging) : List Nat :=
  s.nextBuffer_.toList ++ (s.newBuffer1.toList ++ s.newBuffer2.toList)

/-- All the places that point to a buffer. -/
def refs (s : AsyncLogging) : List Nat := s.loaded ++ s.spares

/-- Which of its buffers the back end has at which point. -/
def Holds (s : AsyncLogging) : BackEnd → Prop
  | .constructed =>
      s.running_ = false ∧ s.newBuffer1 = none ∧ s.newBuffer2 = none ∧ s.buffersToWrite = []
  | .starting =>
      s.running_ = true ∧ s.newBuffer1 = none ∧ s.newBuffer2 = none ∧ s.buffersToWrite = []
  | .preparing => s.newBuffer1 = none ∧ s.newBuffer2 = none ∧ s.buffersToWrite = []
  | .testing => s.newBuffer1 ≠ none ∧ s.newBuffer2 ≠ none ∧ s.buffersToWrite = []
  | .locking => s.newBuffer1 ≠ none ∧ s.newBuffer2 ≠ none ∧ s.buffersToWrite = []
  | .waiting => s.newBuffer1 ≠ none ∧ s.newBuffer2 ≠ none ∧ s.buffersToWrite = []
  | .swapped =>
      s.newBuffer1 = none ∧ s.buffersToWrite ≠ [] ∧
        (s.newBuffer2 = none → 2 ≤ s.buffersToWrite.length)
  | .writing _ =>
      s.newBuffer1 = none ∧ s.buffersToWrite ≠ [] ∧
        (s.newBuffer2 = none → 2 ≤ s.buffersToWrite.length)
  | .done => s.newBuffer1 = none ∧ s.newBuffer2 = none ∧ s.buffersToWrite = []

/-- What holds of the buffers in every state. -/
structure Inv (s : AsyncLogging) : Prop where
  owned : Owned s.heap s.refs
  current : s.currentBuffer_ ≠ none
  /-- the front end uses the reserve only when it fills a buffer -/
  next : s.nextBuffer_ = none → s.buffers_ ≠ []
  empty : ∀ a ∈ s.spares, s.heap a = some FixedBuffer.new
  holds : s.Holds s.pc

/-! ## The bytes -/

/-- What is in some buffers. -/
def bytes (s : AsyncLogging) (refs : List Nat) : List (List UInt8) :=
  (contents s.heap refs).map FixedBuffer.data

/-- The logger without its buffers. -/
def view (s : AsyncLogging) : LogFlow where
  running := s.running_
  pc := s.pc
  full := s.bytes s.buffers_
  current := (s.bytes s.currentBuffer_.toList).flatten
  taken := s.bytes s.buffersToWrite
  output := s.output
  appended := s.appended
  discarded := s.discarded

variable {s s' : AsyncLogging} {a : Nat} {b : LargeBuffer}

theorem bytes_append (refs refs' : List Nat) :
    s.bytes (refs ++ refs') = s.bytes refs ++ s.bytes refs' := by
  simp [bytes]

theorem bytes_of (h : s.heap a = some b) : s.bytes [a] = [b.data] := by
  rw [bytes, contents_cons_of h]
  rfl

theorem bytes_congr {refs : List Nat} (h : ∀ a ∈ refs, s'.heap a = s.heap a) :
    s'.bytes refs = s.bytes refs := by
  rw [bytes, contents_congr h]
  rfl

theorem bytes_eq_map {refs : List Nat} (h : ∀ a ∈ refs, ∃ b, s.heap a = some b) :
    s.bytes refs = refs.map fun a => ((s.heap a).getD FixedBuffer.new).data := by
  rw [bytes, contents_eq_map FixedBuffer.new h, List.map_map]
  rfl

theorem bytes_take {refs : List Nat} (h : ∀ a ∈ refs, ∃ b, s.heap a = some b) (n : Nat) :
    s.bytes (refs.take n) = (s.bytes refs).take n := by
  rw [bytes_eq_map h, ← List.map_take]
  exact bytes_eq_map fun a ha => h a (List.mem_of_mem_take ha)

theorem bytes_drop {refs : List Nat} (h : ∀ a ∈ refs, ∃ b, s.heap a = some b) (n : Nat) :
    s.bytes (refs.drop n) = (s.bytes refs).drop n := by
  rw [bytes_eq_map h, ← List.map_drop]
  exact bytes_eq_map fun a ha => h a (List.mem_of_mem_drop ha)

theorem deref_of {p : Option Nat} (hp : p = some a) (hb : s.heap a = some b) :
    s.deref p = .ok (a, b) := by
  subst hp
  simp only [deref, hb]

/-- A line goes to the current buffer. -/
theorem appendCurrent_of {logline : List UInt8} (hcurrent : s.currentBuffer_ = some a)
    (hb : s.heap a = some b) (hroom : logline.length < b.avail) :
    s.appendCurrent logline = .ok (s.store a ⟨b.data ++ logline⟩) := by
  rw [appendCurrent, deref_of hcurrent hb]
  simp only [ok_bind, FixedBuffer.append, if_pos hroom]

theorem mem_refs_of_current (h : a ∈ s.currentBuffer_.toList) : a ∈ s.refs :=
  List.mem_append_left _ (List.mem_append_left _ h)

theorem mem_refs_of_buffers (h : a ∈ s.buffers_) : a ∈ s.refs :=
  List.mem_append_left _ (List.mem_append_right _ (List.mem_append_left _ h))

theorem mem_refs_of_buffersToWrite (h : a ∈ s.buffersToWrite) : a ∈ s.refs :=
  List.mem_append_left _ (List.mem_append_right _ (List.mem_append_right _ h))

namespace Inv

theorem holds_at (h : Inv s) {pc : BackEnd} (hpc : s.pc = pc) : s.Holds pc := hpc ▸ h.holds

/-- Where the back end has its two buffers, they are empty. -/
theorem exists_spares (h : Inv s) (hsome1 : s.newBuffer1 ≠ none) (hsome2 : s.newBuffer2 ≠ none) :
    (∃ a, s.newBuffer1 = some a ∧ s.heap a = some FixedBuffer.new) ∧
      ∃ a, s.newBuffer2 = some a ∧ s.heap a = some FixedBuffer.new := by
  obtain ⟨a₁, h₁⟩ := Option.ne_none_iff_exists'.mp hsome1
  obtain ⟨a₂, h₂⟩ := Option.ne_none_iff_exists'.mp hsome2
  exact ⟨⟨a₁, h₁, h.empty a₁ (by simp [spares, h₁])⟩, ⟨a₂, h₂, h.empty a₂ (by simp [spares, h₂])⟩⟩

theorem exists_current (h : Inv s) : ∃ a b, s.currentBuffer_ = some a ∧ s.heap a = some b := by
  obtain ⟨a, ha⟩ := Option.ne_none_iff_exists'.mp h.current
  obtain ⟨b, hb⟩ := h.owned.live a (by simp [refs, loaded, ha])
  exact ⟨a, b, ha, hb⟩

theorem live_buffersToWrite (h : Inv s) : ∀ a ∈ s.buffersToWrite, ∃ b, s.heap a = some b :=
  fun a ha => h.owned.live a (mem_refs_of_buffersToWrite ha)

theorem length_taken (h : Inv s) : s.view.taken.length = s.buffersToWrite.length := by
  simp only [view, bytes_eq_map h.live_buffersToWrite, List.length_map]

/-- No other place points to the current buffer. -/
theorem current_not_mem (h : Inv s) (ha : s.currentBuffer_ = some a) :
    a ∉ s.buffers_ ∧ a ∉ s.buffersToWrite ∧ a ∉ s.spares := by
  have hnodup := h.owned.nodup
  simp only [refs, loaded, ha, Option.toList_some, List.cons_append, List.nil_append,
    List.nodup_cons, List.mem_append, not_or] at hnodup
  exact ⟨hnodup.1.1.1, hnodup.1.1.2, hnodup.1.2⟩

end Inv

/-! ## One step -/

/-- The step succeeds, keeps the invariant, and does to the bytes what `LogFlow` does. -/
def Follows (s : AsyncLogging) (action : Action) : Prop :=
  ∃ s', s.step action = .ok s' ∧ Inv s' ∧ s'.view = s.view.step action

/-! ### `append` -/

section Append

variable {logline : List UInt8} {fresh : Nat}

theorem view_current_of (ha : s.currentBuffer_ = some a) (hb : s.heap a = some b) :
    s.view.current = b.data := by
  simp [view, ha, bytes_of hb]

theorem bytes_update_of_not_mem {refs : List Nat} (h : a ∉ refs)
    (hheap : s'.heap = Function.update s.heap a (some b)) : s'.bytes refs = s.bytes refs := by
  rw [bytes, hheap, contents_store h, bytes]

/-- There is room in the current buffer. -/
theorem append_room (h : Inv s) (ha : s.currentBuffer_ = some a) (hb : s.heap a = some b)
    (hroom : logline.length < b.avail) : s.Follows (.append logline fresh) := by
  have hstep : s.step (.append logline fresh) =
      .ok { s with
        heap := Function.update s.heap a (some ⟨b.data ++ logline⟩)
        appended := s.appended ++ [logline] } := by
    simp only [step, append]
    rw [deref_of ha hb, ok_bind, if_pos hroom, appendCurrent_of ha hb hroom, ok_bind]
    rfl
  obtain ⟨hfull, htaken, hspare⟩ := h.current_not_mem ha
  refine ⟨_, hstep, ⟨h.owned.store _ _, h.current, h.next, fun c hc => ?_, h.holds⟩, ?_⟩
  · have hne : c ≠ a := fun heq => hspare (heq ▸ hc)
    exact (Function.update_of_ne hne _ _).trans (h.empty c hc)
  · have hcurrent := view_current_of ha hb
    have hview : s.view.step (.append logline fresh) = _ :=
      LogFlow.append_of_room (by rw [hcurrent]; exact hroom)
    rw [hview]
    refine LogFlow.ext rfl rfl (bytes_update_of_not_mem hfull rfl) ?_
      (bytes_update_of_not_mem htaken rfl) rfl rfl rfl
    simp only [hcurrent]
    exact view_current_of ha (Function.update_self _ _ _)

/-- The current buffer is full, and the line goes to the buffer `c`. -/
def switched (s : AsyncLogging) (logline : List UInt8) (a c : Nat) : AsyncLogging :=
  { s with
    heap := Function.update s.heap c (some ⟨logline⟩)
    currentBuffer_ := some c
    nextBuffer_ := none
    buffers_ := s.buffers_ ++ [a]
    appended := s.appended ++ [logline] }

theorem append_switch (h : Inv s) (ha : s.currentBuffer_ = some a) (hb : s.heap a = some b)
    (hfull : ¬ logline.length < b.avail) {c : Nat}
    (hstep : s.step (.append logline fresh) = .ok (s.switched logline a c))
    (howned : Owned (s.switched logline a c).heap (s.switched logline a c).refs) :
    s.Follows (.append logline fresh) := by
  have hnot : (c ∉ s.buffers_ ++ [a] ∧ c ∉ s.buffersToWrite) ∧
      c ∉ s.newBuffer1.toList ++ s.newBuffer2.toList := by
    have hnodup := howned.nodup
    simp only [refs, loaded, spares, switched, Option.toList_some, Option.toList_none,
      List.cons_append, List.nil_append, List.nodup_cons] at hnodup
    simpa only [List.mem_append, not_or] using hnodup.1
  refine ⟨_, hstep, ⟨howned, by simp [switched], by simp [switched], fun d hd => ?_, h.holds⟩, ?_⟩
  · have hne : d ≠ c := fun heq => hnot.2 (heq ▸ hd)
    exact (Function.update_of_ne hne _ _).trans (h.empty d (List.mem_append_right _ hd))
  · have hcurrent := view_current_of ha hb
    have hview : s.view.step (.append logline fresh) = _ :=
      LogFlow.append_of_full (by rw [hcurrent]; exact hfull)
    rw [hview]
    refine LogFlow.ext rfl rfl ?_ ?_ (bytes_update_of_not_mem hnot.1.2 rfl) rfl rfl rfl
    · simp only [hcurrent]
      exact (bytes_update_of_not_mem hnot.1.1 rfl).trans
        ((bytes_append _ _).trans (by rw [bytes_of hb]; rfl))
    · exact view_current_of rfl (Function.update_self _ _ _)

/-- The two ways to a new current buffer. -/
theorem append_follows (h : Inv s) (hlegal : s.Legal (.append logline fresh)) :
    s.Follows (.append logline fresh) := by
  obtain ⟨hline, hfresh⟩ := hlegal
  obtain ⟨a, b, ha, hb⟩ := h.exists_current
  by_cases hroom : logline.length < b.avail
  · exact append_room h ha hb hroom
  · have hempty : logline.length < (FixedBuffer.new : LargeBuffer).avail := hline
    cases hnext : s.nextBuffer_ with
    | some next =>
        have hnew : s.heap next = some FixedBuffer.new := h.empty next (by simp [spares, hnext])
        refine append_switch h ha hb hroom ?_ ((h.owned.store next ⟨logline⟩).perm ?_)
        · have happend : AsyncLogging.appendCurrent
              { s with
                buffers_ := s.buffers_ ++ [a]
                currentBuffer_ := some next
                nextBuffer_ := none }
              logline = .ok _ := appendCurrent_of rfl hnew hempty
          simp only [step, append]
          rw [deref_of ha hb, ok_bind, if_neg hroom, hnext]
          simp only
          rw [happend]
          rfl
        · refine List.perm_iff_count.mpr fun c => ?_
          simp [refs, loaded, spares, switched, ha, hnext, List.count_append, List.count_cons]
          omega
    | none =>
        refine append_switch h ha hb hroom ?_ ((h.owned.alloc hfresh ⟨logline⟩).perm ?_)
        · simp only [step, append]
          rw [deref_of ha hb, ok_bind, if_neg hroom, hnext]
          simp only
          rw [appendCurrent_of rfl (Function.update_self _ _ _) hempty]
          simp [switched, store, FixedBuffer.new]
        · refine List.perm_iff_count.mpr fun c => ?_
          simp [refs, loaded, spares, switched, ha, hnext, List.count_append, List.count_cons]
          omega

end Append

/-! ### The threads start and stop -/

theorem start_follows (h : Inv s) (hlegal : s.Legal .start) : s.Follows .start := by
  have hholds := h.holds_at (show s.pc = .constructed from hlegal)
  exact ⟨_, rfl, ⟨h.owned, h.current, h.next, h.empty, rfl, hholds.2⟩, rfl⟩

theorem begin_follows (h : Inv s) (hlegal : s.Legal .begin) : s.Follows .begin := by
  have hholds := h.holds_at (show s.pc = .starting from hlegal)
  have hstep : s.step .begin = .ok { s with pc := .preparing } := by
    simp only [step, assertThat_of hholds.1, ok_bind]
  exact ⟨_, hstep, ⟨h.owned, h.current, h.next, h.empty, hholds.2⟩, rfl⟩

theorem stop_follows (h : Inv s) (hlegal : s.Legal .stop) : s.Follows .stop := by
  refine ⟨_, rfl, ⟨h.owned, h.current, h.next, h.empty, ?_⟩, rfl⟩
  show Holds { s with running_ := false } s.pc
  cases hpc : s.pc with
  | starting => exact absurd hpc hlegal.2
  | constructed => exact ⟨rfl, (h.holds_at hpc).2⟩
  | _ => exact h.holds_at hpc

theorem prepare_follows {buffer1 buffer2 : Nat} (h : Inv s)
    (hlegal : s.Legal (.prepare buffer1 buffer2)) : s.Follows (.prepare buffer1 buffer2) := by
  obtain ⟨hpc, hfree1, hfree2, hne⟩ := hlegal
  obtain ⟨hnone1, hnone2, htaken⟩ := h.holds_at hpc
  have howned1 := h.owned.alloc hfree1 FixedBuffer.new
  have hfree2' : Function.update s.heap buffer1 (some FixedBuffer.new) buffer2 = none :=
    (Function.update_of_ne hne.symm _ _).trans hfree2
  have howned2 := howned1.alloc hfree2' FixedBuffer.new
  have hframe : ∀ c ∈ s.refs, Function.update
    (Function.update s.heap buffer1 (some FixedBuffer.new))
      buffer2 (some FixedBuffer.new) c = s.heap c := fun c hc =>
    (howned1.alloc_frame hfree2' (List.mem_cons_of_mem _ hc) _).trans
      (h.owned.alloc_frame hfree1 hc _)
  refine ⟨_, rfl, ⟨howned2.perm ?_, h.current, h.next, fun c hc => ?_, by simp, by simp,
    htaken⟩, ?_⟩
  · refine List.perm_iff_count.mpr fun c => ?_
    simp [refs, loaded, spares, store, hnone1, hnone2, List.count_append, List.count_cons]
    omega
  · simp only [spares, store, Option.toList_some, List.mem_append, List.mem_singleton] at hc
    rcases hc with hc | rfl | rfl
    · have hc : c ∈ s.spares := List.mem_append_left _ hc
      exact (hframe c (List.mem_append_right _ hc)).trans (h.empty c hc)
    · exact (Function.update_of_ne hne _ _).trans (Function.update_self _ _ _)
    · exact Function.update_self _ _ _
  · refine LogFlow.ext rfl rfl ?_ ?_ ?_ rfl rfl rfl
    · exact bytes_congr fun c hc => hframe c (mem_refs_of_buffers hc)
    · exact congrArg List.flatten (bytes_congr fun c hc => hframe c (mem_refs_of_current hc))
    · exact bytes_congr fun c hc => hframe c (mem_refs_of_buffersToWrite hc)

/-! ### The loop of the back end -/

theorem assertSpare_of {p : Option Nat} (hp : p = some a) (hb : s.heap a = some FixedBuffer.new) :
    s.assertSpare p = .ok () := by
  simp [assertSpare, hp, deref, hb, FixedBuffer.new, FixedBuffer.length]

/-- The assertions at the head of the loop hold. -/
theorem test_running (h : Inv s) (hpc : s.pc = .testing) (hrunning : s.running_ = true) :
    s.Follows .test := by
  obtain ⟨hsome1, hsome2, htaken⟩ := h.holds_at hpc
  obtain ⟨⟨a₁, h₁, hempty1⟩, a₂, h₂, hempty2⟩ := h.exists_spares hsome1 hsome2
  have hstep : s.step .test = .ok { s with pc := .locking } := by
    simp only [step, test]
    rw [if_pos hrunning, assertSpare_of h₁ hempty1, ok_bind, assertSpare_of h₂ hempty2, ok_bind,
      assertThat_of htaken, ok_bind]
  refine ⟨_, hstep, ⟨h.owned, h.current, h.next, h.empty, hsome1, hsome2, htaken⟩, ?_⟩
  exact (if_pos hrunning).symm

/-- `threadFunc` ends. -/
theorem test_stopped (h : Inv s) (hrunning : s.running_ = false) : s.Follows .test := by
  have hnot : ¬ s.running_ = true := by simp [hrunning]
  have hstep : s.step .test = .ok s.leave := by
    simp only [step, test]
    rw [if_neg hnot]
  have howned : Owned s.heap ((s.buffersToWrite ++ s.newBuffer1.toList ++ s.newBuffer2.toList) ++
      (s.currentBuffer_.toList ++ (s.buffers_ ++ s.nextBuffer_.toList))) := by
    refine h.owned.perm (List.perm_iff_count.mpr fun c => ?_)
    simp only [refs, loaded, spares, List.count_append]
    omega
  have hframe : ∀ c ∈ s.currentBuffer_.toList ++ (s.buffers_ ++ s.nextBuffer_.toList),
      s.leave.heap c = s.heap c := fun c hc => free_of_not_mem (howned.not_mem_of_append hc)
  refine ⟨_, hstep, ⟨howned.free.perm (List.perm_iff_count.mpr fun c => ?_), h.current, h.next,
    fun c hc => ?_, rfl, rfl, rfl⟩, ?_⟩
  · simp [refs, loaded, spares, leave]
  · simp only [spares, leave, Option.toList_none, List.append_nil] at hc
    exact (hframe c (by simp [hc])).trans (h.empty c (List.mem_append_left _ hc))
  · refine Eq.trans ?_ (if_neg hnot).symm
    refine LogFlow.ext rfl rfl ?_ ?_ rfl rfl rfl rfl
    · exact bytes_congr fun c hc =>
        hframe c (List.mem_append_right _ (List.mem_append_left _ hc))
    · exact congrArg List.flatten
        (bytes_congr fun c hc => hframe c (List.mem_append_left _ hc))

/-- What the back end has behind the lock. -/
def taking (s : AsyncLogging) (a : Nat) : AsyncLogging :=
  { s with
    currentBuffer_ := s.newBuffer1
    newBuffer1 := none
    buffersToWrite := s.buffers_ ++ [a]
    buffers_ := s.buffersToWrite
    pc := .swapped }

theorem view_taking (h : Inv s) (ha : s.currentBuffer_ = some a) (hb : s.heap a = some b) {c : Nat}
    (h₁ : s.newBuffer1 = some c) (htaken : s.buffersToWrite = []) :
    (s.taking a).view = s.view.swap := by
  refine LogFlow.ext rfl rfl ?_ ?_ ?_ rfl rfl rfl
  · simp [view, taking, htaken, bytes, LogFlow.swap]
  · exact view_current_of h₁ (h.empty c (by simp [spares, h₁]))
  · simp only [LogFlow.swap, view_current_of ha hb]
    have hlast : (s.taking a).bytes [a] = [b.data] := bytes_of hb
    exact (bytes_append _ _).trans (by rw [hlast]; rfl)

/-- Behind the lock there is a current buffer and one in reserve. -/
theorem swapBuffers_follows {action : Action} (h : Inv s) (hsome1 : s.newBuffer1 ≠ none)
    (hsome2 : s.newBuffer2 ≠ none) (htaken : s.buffersToWrite = [])
    (hstep : s.step action = s.swapBuffers) (hview : s.view.step action = s.view.swap) :
    s.Follows action := by
  obtain ⟨a, b, ha, hb⟩ := h.exists_current
  obtain ⟨a₁, h₁⟩ := Option.ne_none_iff_exists'.mp hsome1
  have htaking := view_taking h ha hb h₁ htaken
  cases hnext : s.nextBuffer_ with
  | some next =>
      have hswap : s.swapBuffers = .ok (s.taking a) := by
        simp only [swapBuffers, deref_of ha hb, ok_bind, hnext, taking]
      refine ⟨_, hstep.trans hswap, ⟨h.owned.perm ?_, hsome1, ?_, fun c hc => h.empty c ?_, rfl,
        by simp [taking], fun hnone => absurd hnone hsome2⟩, htaking.trans hview.symm⟩
      · refine List.perm_iff_count.mpr fun c => ?_
        simp [refs, loaded, spares, taking, ha, htaken, List.count_append, List.count_cons]
        omega
      · exact fun hnone => absurd (hnext.symm.trans hnone) (by simp)
      · simp only [spares, taking, Option.toList_none, List.nil_append, List.mem_append] at hc ⊢
        exact hc.imp_right .inr
  | none =>
      have hswap : s.swapBuffers =
          .ok { s.taking a with nextBuffer_ := s.newBuffer2, newBuffer2 := none } := by
        simp only [swapBuffers, deref_of ha hb, ok_bind, hnext, taking]
      have hfull : 0 < s.buffers_.length := List.length_pos_iff.mpr (h.next hnext)
      refine ⟨_, hstep.trans hswap, ⟨h.owned.perm ?_, hsome1, fun hnone => absurd hnone hsome2,
        fun c hc => h.empty c ?_, rfl, by simp [taking], fun _ => ?_⟩, htaking.trans hview.symm⟩
      · refine List.perm_iff_count.mpr fun c => ?_
        simp [refs, loaded, spares, taking, ha, hnext, htaken, List.count_append, List.count_cons]
        omega
      · simp only [spares, taking, Option.toList_none, List.append_nil, List.mem_append] at hc ⊢
        exact .inr (.inr hc)
      · simp only [taking, List.length_append, List.length_singleton]
        omega

theorem lock_follows (h : Inv s) (hlegal : s.Legal .lock) : s.Follows .lock := by
  obtain ⟨hsome1, hsome2, htaken⟩ := h.holds_at (show s.pc = .locking from hlegal)
  have hlive : ∀ c ∈ s.buffers_, ∃ b, s.heap c = some b :=
    fun c hc => h.owned.live c (mem_refs_of_buffers hc)
  have hfull : s.view.full = [] ↔ s.buffers_ = [] := by
    rw [← List.length_eq_zero_iff, ← List.length_eq_zero_iff]
    simp [view, bytes_eq_map hlive]
  by_cases hnil : s.buffers_ = []
  · have hstep : s.step .lock = .ok { s with pc := .waiting } := by
      simp only [step, lock, if_pos hnil]
    refine ⟨_, hstep, ⟨h.owned, h.current, h.next, h.empty, hsome1, hsome2, htaken⟩, ?_⟩
    exact (if_pos (hfull.mpr hnil)).symm
  · refine swapBuffers_follows h hsome1 hsome2 htaken ?_ (if_neg (hfull.not.mpr hnil))
    simp only [step, lock, if_neg hnil]

theorem wake_follows (h : Inv s) (hlegal : s.Legal .wake) : s.Follows .wake := by
  obtain ⟨hsome1, hsome2, htaken⟩ := h.holds_at (show s.pc = .waiting from hlegal)
  exact swapBuffers_follows h hsome1 hsome2 htaken rfl rfl

/-- All but the first two buffers can be deleted. -/
theorem owned_free_drop (h : Inv s) :
    Owned (free s.heap (s.buffersToWrite.drop 2))
      { s with buffersToWrite := s.buffersToWrite.take 2 }.refs := by
  refine Owned.free (h.owned.perm (List.perm_iff_count.mpr fun c => ?_))
  have hsplit := congrArg (List.count c) (List.take_append_drop 2 s.buffersToWrite)
  rw [List.count_append] at hsplit
  simp only [refs, loaded, spares, List.count_append]
  omega

/-- The buffers that stay have what they had. -/
theorem free_drop_frame (h : Inv s) {c : Nat}
    (hc : c ∈ { s with buffersToWrite := s.buffersToWrite.take 2 }.refs) :
    free s.heap (s.buffersToWrite.drop 2) c = s.heap c := by
  refine free_of_not_mem fun hdrop => ?_
  have hnodup := List.nodup_iff_count_le_one.mp h.owned.nodup c
  have hsplit := congrArg (List.count c) (List.take_append_drop 2 s.buffersToWrite)
  have hpos := List.count_pos_iff.mpr hc
  have hpos' := List.count_pos_iff.mpr hdrop
  rw [List.count_append] at hsplit
  simp only [refs, loaded, spares, List.count_append] at hnodup hpos
  omega

theorem dropExcess_follows (h : Inv s) (hlegal : s.Legal .dropExcess) : s.Follows .dropExcess := by
  obtain ⟨hnone1, hne, htwo⟩ := h.holds_at (show s.pc = .swapped from hlegal)
  have hlength := h.length_taken
  by_cases hexcess : 25 < s.buffersToWrite.length
  · have hstep : s.step .dropExcess = .ok { s with
        output := s.output ++ [.notice (s.buffersToWrite.length - 2)]
        discarded := s.discarded ++ (contents s.heap (s.buffersToWrite.drop 2)).map fun b =>
          (s.buffersToWrite.length, b.data)
        heap := free s.heap (s.buffersToWrite.drop 2)
        buffersToWrite := s.buffersToWrite.take 2
        pc := .writing 0 } := by
      simp only [step, dropExcess, assertThat_of hne, ok_bind, if_pos hexcess]
    refine ⟨_, hstep, ⟨owned_free_drop h, h.current, h.next, fun c hc => ?_, hnone1, ?_, ?_⟩, ?_⟩
    · exact (free_drop_frame h (List.mem_append_right _ hc)).trans (h.empty c hc)
    · simp [hne]
    · simp only [List.length_take]
      omega
    · refine Eq.trans ?_ (if_pos (hlength ▸ hexcess)).symm
      refine LogFlow.ext rfl rfl ?_ ?_ ?_ ?_ rfl ?_
      · exact bytes_congr fun c hc => free_drop_frame h (mem_refs_of_buffers hc)
      · exact congrArg List.flatten
          (bytes_congr fun c hc => free_drop_frame h (mem_refs_of_current hc))
      · exact (bytes_congr fun c hc => free_drop_frame h (mem_refs_of_buffersToWrite hc)).trans
          (bytes_take h.live_buffersToWrite 2)
      · simp only [hlength]
        rfl
      · have hdropped := bytes_drop h.live_buffersToWrite 2
        simp only [hlength]
        refine congrArg (s.discarded ++ ·) ?_
        exact List.map_map.symm.trans (congrArg (List.map _) hdropped)
  · have hstep : s.step .dropExcess = .ok { s with pc := .writing 0 } := by
      simp only [step, dropExcess, assertThat_of hne, ok_bind, if_neg hexcess]
    refine ⟨_, hstep, ⟨h.owned, h.current, h.next, h.empty, hnone1, hne, htwo⟩, ?_⟩
    exact (if_neg (hlength ▸ hexcess)).symm

theorem write_follows (h : Inv s) (hlegal : s.Legal .write) : s.Follows .write := by
  have hmore : s.more = true := hlegal
  cases hpc : s.pc with
  | writing i =>
      have hholds := h.holds_at hpc
      simp only [more, hpc, decide_eq_true_eq] at hmore
      obtain ⟨b, hb⟩ := h.live_buffersToWrite _ (List.getElem_mem hmore)
      have hstep : s.step .write =
          .ok { s with output := s.output ++ [.data b.data], pc := .writing (i + 1) } := by
        simp only [step, hpc, write, deref_of (List.getElem?_eq_getElem hmore) hb, ok_bind]
      refine ⟨_, hstep, ⟨h.owned, h.current, h.next, h.empty, hholds⟩, ?_⟩
      have hview : s.view.step .write = s.view.write i := by
        simp only [LogFlow.step, view, hpc]
      have hbytes : s.view.taken.getD i [] = b.data := by
        simp [view, bytes_eq_map h.live_buffersToWrite, hmore, hb]
      rw [hview, LogFlow.write, hbytes]
      rfl
  | _ => simp [more, hpc] at hmore

/-! ### The back end takes back its spare buffers -/

/-- `k` has come from `s` at the end of the loop: the front end is untouched, and every
buffer still has one owner. -/
structure Recycling (s k : AsyncLogging) : Prop where
  rest : ∃ heap newBuffer1 newBuffer2 buffersToWrite, k = { s with
    heap := heap
    newBuffer1 := newBuffer1
    newBuffer2 := newBuffer2
    buffersToWrite := buffersToWrite }
  owned : Owned k.heap k.refs
  frame : ∀ c ∈ s.currentBuffer_.toList ++ s.buffers_, k.heap c = s.heap c
  empty : ∀ c ∈ k.spares, k.heap c = some FixedBuffer.new

theorem recycling_keepTwo (h : Inv s) : Recycling s s.keepTwo := by
  by_cases hmore : 2 < s.buffersToWrite.length
  · rw [keepTwo, if_pos hmore]
    refine ⟨⟨_, _, _, _, rfl⟩, owned_free_drop h, fun c hc => free_drop_frame h ?_, fun c hc => ?_⟩
    · rcases List.mem_append.mp hc with hc | hc
      · exact mem_refs_of_current hc
      · exact mem_refs_of_buffers hc
    · exact (free_drop_frame h (List.mem_append_right _ hc)).trans (h.empty c hc)
  · rw [keepTwo, if_neg hmore]
    exact ⟨⟨_, _, _, _, rfl⟩, h.owned, fun _ _ => rfl, h.empty⟩

theorem length_keepTwo : s.keepTwo.buffersToWrite.length = min 2 s.buffersToWrite.length := by
  by_cases hmore : 2 < s.buffersToWrite.length
  · simp [keepTwo, hmore]
  · simp only [keepTwo, if_neg hmore]
    omega

theorem popReset_of {init : List Nat} (htaken : s.buffersToWrite = init ++ [a])
    (hb : s.heap a = some b) :
    s.popReset = .ok (a, { s with
      heap := Function.update s.heap a (some FixedBuffer.new)
      buffersToWrite := init }) := by
  have hne : s.buffersToWrite ≠ [] := by simp [htaken]
  have hlast : s.buffersToWrite.getLast? = some a := by simp [htaken]
  rw [popReset, assertThat_of hne, ok_bind, deref_of hlast hb, ok_bind]
  simp only [store, FixedBuffer.reset, FixedBuffer.new, htaken, List.dropLast_concat]

namespace Recycling

variable {k : AsyncLogging} {init : List Nat}

/-- No other place points to the last of the buffers that were written. -/
theorem last_not_mem (h : Recycling s k) (htaken : k.buffersToWrite = init ++ [a]) :
    a ∉ s.currentBuffer_.toList ++ s.buffers_ ∧ a ∉ k.spares := by
  have hnodup := List.nodup_iff_count_le_one.mp h.owned.nodup a
  obtain ⟨_, _, _, taken, rfl⟩ := h.rest
  obtain rfl : taken = init ++ [a] := htaken
  simp only [refs, loaded, List.count_append, List.count_singleton_self] at hnodup
  constructor <;> intro hmem <;> have hpos := List.count_pos_iff.mpr hmem
  · rw [List.count_append] at hpos
    omega
  · omega

/-- The last buffer moves to an empty place. -/
theorem refilled (h : Recycling s k) (htaken : k.buffersToWrite = init ++ [a])
    {newBuffer1 newBuffer2 : Option Nat}
    (hperm : (a :: k.spares).Perm
      (k.nextBuffer_.toList ++ (newBuffer1.toList ++ newBuffer2.toList))) :
    Recycling s { k with
      heap := Function.update k.heap a (some FixedBuffer.new)
      newBuffer1 := newBuffer1
      newBuffer2 := newBuffer2
      buffersToWrite := init } := by
  obtain ⟨hfront, hspare⟩ := h.last_not_mem htaken
  refine ⟨?_, (h.owned.store a FixedBuffer.new).perm ?_, fun c hc => ?_, fun c hc => ?_⟩
  · obtain ⟨_, _, _, _, rfl⟩ := h.rest
    exact ⟨_, _, _, _, rfl⟩
  · refine List.perm_iff_count.mpr fun c => ?_
    have hcount := List.perm_iff_count.mp hperm c
    simp only [refs, loaded, spares, htaken, List.count_append, List.count_cons, List.count_nil]
      at hcount ⊢
    omega
  · have hne : c ≠ a := fun heq => hfront (heq ▸ hc)
    exact (Function.update_of_ne hne _ _).trans (h.frame c hc)
  · rcases List.mem_cons.mp (hperm.mem_iff.mpr hc) with rfl | hc
    · exact Function.update_self _ _ _
    · have hne : c ≠ a := fun heq => hspare (heq ▸ hc)
      exact (Function.update_of_ne hne _ _).trans (h.empty c hc)

theorem exists_last (h : Recycling s k) (hne : k.buffersToWrite ≠ []) :
    ∃ init a b, k.buffersToWrite = init ++ [a] ∧ k.heap a = some b := by
  obtain ⟨b, hb⟩ := h.owned.live _ (mem_refs_of_buffersToWrite (List.getLast_mem hne))
  exact ⟨_, _, b, (List.dropLast_concat_getLast hne).symm, hb⟩

theorem refill1 (h : Recycling s k) (hnone : k.newBuffer1 = none) (hne : k.buffersToWrite ≠ []) :
    ∃ k', k.refill1 = .ok k' ∧ Recycling s k' ∧ k'.newBuffer1 ≠ none ∧
      k'.newBuffer2 = k.newBuffer2 ∧
      k'.buffersToWrite.length + 1 = k.buffersToWrite.length := by
  obtain ⟨init, a, b, htaken, hb⟩ := h.exists_last hne
  have hrefill : k.refill1 = .ok { k with
      heap := Function.update k.heap a (some FixedBuffer.new)
      newBuffer1 := some a
      buffersToWrite := init } := by
    simp only [AsyncLogging.refill1, hnone, popReset_of htaken hb, ok_bind]
  refine ⟨_, hrefill, h.refilled htaken (List.perm_iff_count.mpr fun c => ?_), by simp, rfl,
    by simp [htaken]⟩
  simp [spares, hnone, List.count_append, List.count_cons]
  omega

theorem refill2 (h : Recycling s k) (hne : k.newBuffer2 = none → k.buffersToWrite ≠ []) :
    ∃ k', k.refill2 = .ok k' ∧ Recycling s k' ∧ k'.newBuffer1 = k.newBuffer1 ∧
      k'.newBuffer2 ≠ none := by
  cases hsome : k.newBuffer2 with
  | some c => exact ⟨k, by simp only [AsyncLogging.refill2, hsome], h, rfl, by simp [hsome]⟩
  | none =>
      obtain ⟨init, a, b, htaken, hb⟩ := h.exists_last (hne hsome)
      have hrefill : k.refill2 = .ok { k with
          heap := Function.update k.heap a (some FixedBuffer.new)
          newBuffer2 := some a
          buffersToWrite := init } := by
        simp only [AsyncLogging.refill2, hsome, popReset_of htaken hb, ok_bind]
      refine ⟨_, hrefill, h.refilled htaken (List.perm_iff_count.mpr fun c => ?_), rfl, by simp⟩
      simp [spares, hsome, List.count_append, List.count_cons]
      omega

/-- The rest is deleted, and the loop starts again. -/
theorem cleared (h : Recycling s k) (hinv : Inv s) (hsome1 : k.newBuffer1 ≠ none)
    (hsome2 : k.newBuffer2 ≠ none) (hstep : s.step .recycle = .ok { k with
      heap := free k.heap k.buffersToWrite
      buffersToWrite := []
      pc := .testing }) : s.Follows .recycle := by
  have howned : Owned k.heap
      (k.buffersToWrite ++ { k with buffersToWrite := [] }.refs) := by
    refine h.owned.perm (List.perm_iff_count.mpr fun c => ?_)
    simp [refs, loaded, spares, List.count_append]
    omega
  have hframe : ∀ c ∈ { k with buffersToWrite := [] }.refs,
      free k.heap k.buffersToWrite c = k.heap c :=
    fun c hc => free_of_not_mem (howned.not_mem_of_append hc)
  obtain ⟨_, _, _, _, rfl⟩ := h.rest
  refine ⟨_, hstep, ⟨howned.free, hinv.current, hinv.next, fun c hc => ?_, hsome1, hsome2, rfl⟩, ?_⟩
  · exact (hframe c (List.mem_append_right _ hc)).trans (h.empty c hc)
  · refine LogFlow.ext rfl rfl ?_ ?_ rfl rfl rfl rfl
    · exact bytes_congr fun c hc =>
        (hframe c (mem_refs_of_buffers hc)).trans (h.frame c (List.mem_append_right _ hc))
    · exact congrArg List.flatten (bytes_congr fun c hc =>
        (hframe c (mem_refs_of_current hc)).trans (h.frame c (List.mem_append_left _ hc)))

end Recycling

theorem recycle_follows (h : Inv s) (hlegal : s.Legal .recycle) : s.Follows .recycle := by
  have hholds : s.newBuffer1 = none ∧ s.buffersToWrite ≠ [] ∧
      (s.newBuffer2 = none → 2 ≤ s.buffersToWrite.length) := by
    have hthrough : s.through = true := hlegal
    cases hpc : s.pc with
    | writing i => exact h.holds_at hpc
    | _ => simp [through, hpc] at hthrough
  obtain ⟨hnone1, hne, htwo⟩ := hholds
  have hpos := List.length_pos_iff.mpr hne
  have hlength := @length_keepTwo s
  have hkept := recycling_keepTwo h
  have hkept1 : s.keepTwo.newBuffer1 = s.newBuffer1 := by
    unfold keepTwo
    split <;> rfl
  have hkept2 : s.keepTwo.newBuffer2 = s.newBuffer2 := by
    unfold keepTwo
    split <;> rfl
  obtain ⟨k₁, hk₁, hrecycling₁, hsome1, hsame2, hlength₁⟩ := hkept.refill1 (hkept1.trans hnone1)
    (List.length_pos_iff.mp (by omega))
  -- with one buffer left there was a spare one already
  obtain ⟨k₂, hk₂, hrecycling₂, hsame1, hsome2⟩ := hrecycling₁.refill2 fun hnone => by
    have := htwo (hkept2.symm.trans (hsame2.symm.trans hnone))
    exact List.length_pos_iff.mp (by omega)
  refine hrecycling₂.cleared h (hsame1 ▸ hsome1) hsome2 ?_
  simp only [step, recycle, hk₁, ok_bind, hk₂]

/-! ## Every run -/

/-- One step of any thread. -/
theorem step_follows (h : Inv s) {action : Action} (hlegal : s.Legal action) :
    s.Follows action := by
  cases action with
  | append logline fresh => exact append_follows h hlegal
  | start => exact start_follows h hlegal
  | begin => exact begin_follows h hlegal
  | prepare buffer1 buffer2 => exact prepare_follows h hlegal
  | test =>
      cases hrunning : s.running_ with
      | true => exact test_running h hlegal hrunning
      | false => exact test_stopped h hrunning
  | lock => exact lock_follows h hlegal
  | wake => exact wake_follows h hlegal
  | dropExcess => exact dropExcess_follows h hlegal
  | write => exact write_follows h hlegal
  | recycle => exact recycle_follows h hlegal
  | stop => exact stop_follows h hlegal

theorem inv_new {current next : Nat} (hne : current ≠ next) : Inv (new current next) := by
  have hnil : Owned (fun _ => none : Nat → Option LargeBuffer) [] := ⟨List.nodup_nil, by simp⟩
  have hnext := hnil.alloc rfl (FixedBuffer.new : LargeBuffer) (a := next)
  have hcurrent := hnext.alloc (Function.update_of_ne hne _ _) (FixedBuffer.new : LargeBuffer)
  refine ⟨hcurrent, by simp [new], by simp [new], fun a ha => ?_, rfl, rfl, rfl, rfl⟩
  obtain rfl : a = next := by simpa [spares, new] using ha
  exact (Function.update_of_ne hne.symm _ _).trans (Function.update_self _ _ _)

/-- No run of the threads fails an assertion or loses its last spare buffer: at the head of
the loop both spare buffers are there and empty and nothing is left to write, behind the
lock there is something to write, the front end always has a buffer, and no two places
point to one buffer. -/
theorem never_out_of_buffers (current next : Nat) (hne : current ≠ next) (actions : List Action)
    (hlegal : machine.LegalRun (new current next) actions) :
    ∃ s, machine.run (new current next) actions = .ok s ∧
      (s.pc = .testing →
        (∃ a, s.newBuffer1 = some a ∧ s.heap a = some FixedBuffer.new) ∧
        (∃ a, s.newBuffer2 = some a ∧ s.heap a = some FixedBuffer.new) ∧
        s.buffersToWrite = []) ∧
      (s.pc = .swapped → s.buffersToWrite ≠ []) ∧
      s.currentBuffer_ ≠ none ∧
      s.refs.Nodup ∧
      ∀ a ∈ s.refs, ∃ b, s.heap a = some b := by
  obtain ⟨s, hrun, hinv⟩ := machine.run_invariant Inv (fun s a h ha => by
    obtain ⟨s', hstep, hinv, -⟩ := step_follows h ha
    exact ⟨s', hstep, hinv⟩) (inv_new hne) hlegal
  refine ⟨s, hrun, fun hpc => ?_, fun hpc => ?_, hinv.current, hinv.owned.nodup, hinv.owned.live⟩
  · obtain ⟨hsome1, hsome2, htaken⟩ := hinv.holds_at hpc
    obtain ⟨hspare1, hspare2⟩ := hinv.exists_spares hsome1 hsome2
    exact ⟨hspare1, hspare2, htaken⟩
  · exact (hinv.holds_at hpc).2.1

/-- One whole cycle of the back end, up to the next head of the loop. -/
def oneCycle : List Action :=
  [.start, .begin, .prepare 2 3, .append [104, 105] 4, .test, .lock, .append [33] 4, .wake,
    .dropExcess, .append [10] 4, .write, .recycle]

theorem never_out_of_buffers_oneCycle :
    machine.LegalRun (new 0 1) oneCycle ∧
      ∃ s, machine.run (new 0 1) oneCycle = .ok s ∧ s.currentBuffer_ ≠ none ∧ s.refs.Nodup := by
  have hlegal : machine.LegalRun (new 0 1) oneCycle := by decide +kernel
  obtain ⟨s, hrun, -, -, hcurrent, hnodup, -⟩ :=
    never_out_of_buffers 0 1 (by decide) oneCycle hlegal
  exact ⟨hlegal, s, hrun, hcurrent, hnodup⟩

end Muduo.Base.AsyncLogging
