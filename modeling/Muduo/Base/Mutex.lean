/-
  Base/Mutex.lean --- `MutexLock`, `MutexLockGuard` and `Condition::wait`
  (src/muduo/base/Mutex.h, Condition.h).

  Here a thread takes the mutex, sets `holder_`, works on the guarded data in single
  operations, clears `holder_` and gives the mutex back, each in a step of its own.
  `pthread_cond_wait` gives the mutex back and takes it again behind the back of
  `holder_`: after `wait()` the thread has the mutex, but `isLockedByThisThread()` may
  deny it.

  The other models take what is done under a mutex as one step.  `sections_are_whole` is
  the reason: every run of this machine is a run of whole sections (`sectionMachine`).
-/
import Mathlib.Logic.Function.Basic
import Muduo.Foundation.Machine

set_option autoImplicit false

namespace Muduo.Base

open Muduo.Foundation

/-- `class MutexLock`; `mutex_` is the thread that has the pthread mutex.  Threads are
their `tid`s, and 0 is none. -/
structure MutexLock where
  mutex_ : Option Nat
  holder_ : Nat
  deriving DecidableEq, Repr

namespace MutexLock

/-- `MutexLock()`. -/
def new : MutexLock := ⟨none, 0⟩

/-- `isLockedByThisThread()`, called by the thread `tid`. -/
def isLockedByThisThread (m : MutexLock) (tid : Nat) : Bool := m.holder_ = tid

/-- `assertLocked()`. -/
def assertLocked (m : MutexLock) (tid : Nat) : Exec Unit :=
  assertThat (m.isLockedByThisThread tid = true)

/-- The assertion of `~MutexLock()`. -/
def destroy (m : MutexLock) : Exec Unit := assertThat (m.holder_ = 0)

end MutexLock

/-- Where a thread is with respect to a mutex. -/
inductive MutexPlace where
  | outside
  /-- in `lock()`, before `holder_` is set -/
  | acquired
  | inside
  /-- in `pthread_cond_wait`, without the mutex -/
  | waiting
  /-- inside, after `pthread_cond_wait` -/
  | woken
  /-- in `unlock()`, after `holder_` was cleared -/
  | leaving
  deriving DecidableEq, Repr

namespace MutexPlace

/-- The thread has the mutex. -/
def hasMutex : MutexPlace → Bool
  | .outside | .waiting => false
  | _ => true

/-- The thread may work on what the mutex guards. -/
def works : MutexPlace → Bool
  | .inside | .woken => true
  | _ => false

/-- The thread has set `holder_` and not cleared it. -/
def entered : MutexPlace → Bool
  | .inside | .waiting | .woken => true
  | _ => false

theorem hasMutex_of_works {place : MutexPlace} (h : place.works = true) :
    place.hasMutex = true := by
  cases place <;> first | rfl | exact absurd h (by decide)

theorem entered_of_works {place : MutexPlace} (h : place.works = true) : place.entered = true := by
  cases place <;> first | rfl | exact absurd h (by decide)

end MutexPlace

/-- What happens to `holder_`. -/
inductive HolderEvent where
  | entered (tid : Nat)
  | left (tid : Nat)
  deriving DecidableEq, Repr

/-- A mutex with its threads and the data it guards.  A section is what a thread does
between taking the mutex and giving it back. -/
structure MutexSystem (σ α : Type) where
  lock : MutexLock
  places : Nat → MutexPlace
  data : σ
  /-- what the thread has done in its present section -/
  body : Nat → List α
  /-- the sections that are over, in order -/
  sections : List (Nat × List α)
  /-- all operations, in order -/
  history : List (Nat × α)
  holders : List HolderEvent

namespace MutexSystem

variable {σ α : Type}

/-- Nobody is in a critical section. -/
def start (data : σ) : MutexSystem σ α :=
  ⟨.new, fun _ => .outside, data, fun _ => [], [], [], []⟩

/-- A step of one thread. -/
inductive Action (α : Type) where
  /-- `pthread_mutex_lock` returns, in `lock()` -/
  | acquire (tid : Nat)
  /-- `holder_ = CurrentThread::tid()` -/
  | setHolder (tid : Nat)
  | operate (tid : Nat) (operation : α)
  /-- `pthread_cond_wait` gives the mutex back -/
  | wait (tid : Nat)
  /-- `pthread_cond_wait` returns -/
  | wake (tid : Nat)
  /-- `holder_ = 0`, in `unlock()` -/
  | clearHolder (tid : Nat)
  /-- `pthread_mutex_unlock` -/
  | release (tid : Nat)
  deriving DecidableEq, Repr

/-- The thread that takes a step. -/
def Action.tid : Action α → Nat
  | .acquire tid | .setHolder tid | .operate tid _ | .wait tid | .wake tid | .clearHolder tid
  | .release tid => tid

/-- A thread is somewhere else. -/
def goto (s : MutexSystem σ α) (tid : Nat) (place : MutexPlace) : MutexSystem σ α :=
  { s with places := Function.update s.places tid place }

/-- The thread gives the mutex back: its section is over. -/
def endSection (s : MutexSystem σ α) (tid : Nat) : MutexSystem σ α :=
  { s with
    lock := { s.lock with mutex_ := none }
    body := Function.update s.body tid []
    sections := s.sections ++ [(tid, s.body tid)] }

section Machine

variable (apply : σ → α → σ)

/-- What a step does. -/
def step (s : MutexSystem σ α) : Action α → Exec (MutexSystem σ α)
  | .acquire tid => .ok { s.goto tid .acquired with lock := { s.lock with mutex_ := some tid } }
  | .setHolder tid =>
      .ok { s.goto tid .inside with
        lock := { s.lock with holder_ := tid }
        holders := s.holders ++ [.entered tid] }
  | .operate tid operation =>
      .ok { s with
        data := apply s.data operation
        body := Function.update s.body tid (s.body tid ++ [operation])
        history := s.history ++ [(tid, operation)] }
  | .wait tid => .ok ((s.goto tid .waiting).endSection tid)
  | .wake tid => .ok { s.goto tid .woken with lock := { s.lock with mutex_ := some tid } }
  | .clearHolder tid =>
      .ok { s.goto tid .leaving with
        lock := { s.lock with holder_ := 0 }
        holders := s.holders ++ [.left tid] }
  | .release tid => .ok ((s.goto tid .outside).endSection tid)

/-- The pthread mutex is given to one thread at a time; `Condition::wait` may return
without a notification. -/
def Legal (s : MutexSystem σ α) : Action α → Prop
  | .acquire tid => 0 < tid ∧ s.places tid = .outside ∧ s.lock.mutex_ = none
  | .setHolder tid => s.places tid = .acquired
  | .operate tid _ => (s.places tid).works = true
  | .wait tid => (s.places tid).works = true
  | .wake tid => s.places tid = .waiting ∧ s.lock.mutex_ = none
  | .clearHolder tid => (s.places tid).works = true
  | .release tid => s.places tid = .leaving

/-- The threads in any order. -/
def machine : Machine (MutexSystem σ α) (Action α) := ⟨step apply, Legal⟩

/-- The guarded data as the other models see it: a section is one step. -/
def sectionMachine : Machine σ (Nat × List α) :=
  ⟨fun data body => .ok (body.2.foldl apply data), fun _ _ => True⟩

end Machine

instance (apply : σ → α → σ) (s : MutexSystem σ α) (a : Action α) :
    Decidable ((machine apply).legal s a) :=
  match a with
  | .acquire _ => inferInstanceAs (Decidable (_ ∧ _ ∧ _))
  | .setHolder _ => inferInstanceAs (Decidable (_ = _))
  | .operate _ _ => inferInstanceAs (Decidable (_ = _))
  | .wait _ => inferInstanceAs (Decidable (_ = _))
  | .wake _ => inferInstanceAs (Decidable (_ ∧ _))
  | .clearHolder _ => inferInstanceAs (Decidable (_ = _))
  | .release _ => inferInstanceAs (Decidable (_ = _))

/-! ## Who has the mutex -/

/-- What is known of one thread. -/
structure Thread (s : MutexSystem σ α) (tid : Nat) : Prop where
  mutex : s.lock.mutex_ = some tid ↔ (s.places tid).hasMutex = true
  positive : s.places tid ≠ .outside → 0 < tid
  inside : s.places tid = .inside → s.lock.holder_ = tid
  /-- only a thread that has entered is taken for the holder -/
  holder : 0 < tid → s.lock.holder_ = tid → (s.places tid).entered = true
  /-- it is taken for the holder while nobody has entered or left after it -/
  last : (s.places tid).entered = true →
    (s.lock.holder_ = tid ↔ s.holders.getLast? = some (.entered tid))
  idle : (s.places tid).hasMutex = false → s.body tid = []

theorem thread_start (data : σ) (tid : Nat) : Thread (start data : MutexSystem σ α) tid where
  mutex := by simp [start, MutexLock.new, MutexPlace.hasMutex]
  positive h := absurd rfl h
  inside h := absurd h (by simp [start])
  holder hpos h := absurd (h.symm : tid = 0) (Nat.ne_of_gt hpos)
  last h := absurd h (by simp [start, MutexPlace.entered])
  idle _ := rfl

section Steps

variable {apply : σ → α → σ} {s s' : MutexSystem σ α} {a : Action α}

theorem goto_self (s : MutexSystem σ α) (tid : Nat) (place : MutexPlace) :
    (s.goto tid place).places tid = place := Function.update_self ..

/-- The step leaves the other threads where they are. -/
theorem places_other (hstep : step apply s a = .ok s') {u : Nat} (h : u ≠ a.tid) :
    s'.places u = s.places u := by
  cases a <;> obtain rfl := Except.ok.inj hstep <;>
    first | rfl | exact Function.update_of_ne h ..

theorem body_other (hstep : step apply s a = .ok s') {u : Nat} (h : u ≠ a.tid) :
    s'.body u = s.body u := by
  cases a <;> obtain rfl := Except.ok.inj hstep <;>
    first | rfl | exact Function.update_of_ne h ..

/-- The mutex is with the thread that moves, before or after its step, or with nobody. -/
theorem mutex_other (h : ∀ tid, Thread s tid) (hlegal : Legal s a) (hstep : step apply s a = .ok s')
    {u : Nat} (hu : u ≠ a.tid) : s'.lock.mutex_ = some u ↔ s.lock.mutex_ = some u := by
  have hne : some a.tid ≠ some u := fun heq => hu (Option.some.inj heq).symm
  have hmutex := (h a.tid).mutex.mpr
  have hnone : (none : Option Nat) ≠ some u := by simp
  cases a <;> obtain rfl := Except.ok.inj hstep
  case acquire tid =>
    rw [hlegal.2.2]
    exact iff_of_false hne hnone
  case wake tid =>
    rw [hlegal.2]
    exact iff_of_false hne hnone
  case wait tid =>
    rw [hmutex (MutexPlace.hasMutex_of_works hlegal)]
    exact iff_of_false hnone hne
  case release tid =>
    rw [hmutex (congrArg MutexPlace.hasMutex hlegal)]
    exact iff_of_false hnone hne
  all_goals rfl

/-- Two threads do not have the mutex together. -/
theorem Thread.only_one {tid u : Nat} (ht : Thread s tid) (hu : Thread s u)
    (htid : (s.places tid).hasMutex = true) (hhas : (s.places u).hasMutex = true) : tid = u :=
  Option.some.inj ((ht.mutex.mpr htid).symm.trans (hu.mutex.mpr hhas))

/-- `holder_` is not touched, and the thread stays where it is. -/
theorem Thread.stay {u : Nat} (h : Thread s u) (hplace : s'.places u = s.places u)
    (hbody : s'.body u = s.body u) (hmutex : s'.lock.mutex_ = some u ↔ s.lock.mutex_ = some u)
    (hholder : s'.lock.holder_ = s.lock.holder_) (hholders : s'.holders = s.holders) :
    Thread s' u := by
  constructor <;> simp only [hplace, hbody, hmutex, hholder, hholders]
  exacts [h.mutex, h.positive, h.inside, h.holder, h.last, h.idle]

/-- Another thread enters or leaves. -/
theorem Thread.overwritten {u : Nat} (h : Thread s u) (hplace : s'.places u = s.places u)
    (hbody : s'.body u = s.body u) (hmutex : s'.lock.mutex_ = some u ↔ s.lock.mutex_ = some u)
    (hinside : s.places u ≠ .inside) (hholder : 0 < u → s'.lock.holder_ ≠ u)
    (hlast : s'.holders.getLast? ≠ some (.entered u)) : Thread s' u := by
  constructor <;> simp only [hplace, hbody, hmutex]
  case inside => exact fun h => absurd h hinside
  case holder => exact fun hpos heq => absurd heq (hholder hpos)
  case last =>
    intro hentered
    have hpos : 0 < u := h.positive fun heq => by
      rw [heq] at hentered
      exact absurd hentered (by decide)
    exact iff_of_false (hholder hpos) hlast
  exacts [h.mutex, h.positive, h.idle]

theorem thread_other (h : ∀ tid, Thread s tid) (hlegal : Legal s a)
    (hstep : step apply s a = .ok s')
    {u : Nat} (hu : u ≠ a.tid) : Thread s' u := by
  have hplace := places_other hstep hu
  have hbody := body_other hstep hu
  have hmutex := mutex_other h hlegal hstep hu
  -- only one thread is inside
  have halone : (s.places a.tid).hasMutex = true → s.places u ≠ .inside := by
    intro hhas hinside
    exact hu ((h a.tid).only_one (h u) hhas (by rw [hinside]; rfl)).symm
  cases a <;> obtain rfl := Except.ok.inj hstep
  case setHolder tid =>
    refine (h u).overwritten hplace hbody hmutex (halone (congrArg MutexPlace.hasMutex hlegal))
      (fun _ heq => hu heq.symm) ?_
    simpa using fun heq => hu heq.symm
  case clearHolder tid =>
    refine (h u).overwritten hplace hbody hmutex (halone (MutexPlace.hasMutex_of_works hlegal))
      (fun hpos heq => Nat.ne_of_gt hpos heq.symm) ?_
    simp
  all_goals exact (h u).stay hplace hbody hmutex rfl rfl

theorem Thread.of_place {tid : Nat} {place : MutexPlace} (hplace : s.places tid = place)
    (hpos : 0 < tid) (mutex : s.lock.mutex_ = some tid ↔ place.hasMutex = true)
    (inside : place = .inside → s.lock.holder_ = tid)
    (holder : s.lock.holder_ = tid → place.entered = true)
    (last : place.entered = true →
      (s.lock.holder_ = tid ↔ s.holders.getLast? = some (.entered tid)))
    (idle : place.hasMutex = false → s.body tid = []) : Thread s tid := by
  subst hplace
  exact ⟨mutex, fun _ => hpos, inside, fun _ => holder, last, idle⟩

/-- The thread that moves. -/
theorem thread_self (h : ∀ tid, Thread s tid) (hlegal : Legal s a)
    (hstep : step apply s a = .ok s') :
    Thread s' a.tid := by
  have hself := h a.tid
  -- what holds where the thread works
  have hworks : (s.places a.tid).works = true → 0 < a.tid ∧ s.lock.mutex_ = some a.tid ∧
      (s.lock.holder_ = a.tid ↔ s.holders.getLast? = some (.entered a.tid)) := fun h =>
    ⟨hself.positive fun heq => absurd (heq ▸ h) (by decide),
      hself.mutex.mpr (MutexPlace.hasMutex_of_works h), hself.last (MutexPlace.entered_of_works h)⟩
  cases a with
  | acquire tid =>
      obtain ⟨hpos, hplace, _⟩ := hlegal
      obtain rfl := Except.ok.inj hstep
      have hidle : s.body tid = [] := hself.idle (congrArg MutexPlace.hasMutex hplace)
      refine .of_place (s.goto_self tid .acquired) hpos (iff_of_true rfl rfl)
        (fun h => absurd h (by decide))
        (fun heq => ?_) (fun h => absurd h (by decide)) (fun _ => hidle)
      -- outside it is not taken for the holder
      have hentered := hself.holder hpos heq
      exact absurd (hentered.symm.trans (congrArg MutexPlace.entered hplace)) (by decide)
  | setHolder tid =>
      obtain rfl := Except.ok.inj hstep
      have hplace : s.places tid = .acquired := hlegal
      have hmutex := hself.mutex.mpr (congrArg MutexPlace.hasMutex hplace)
      have hpos : 0 < tid := hself.positive fun heq => absurd (hplace.symm.trans heq) (by decide)
      exact .of_place (s.goto_self tid .inside) hpos (iff_of_true hmutex rfl) (fun _ => rfl)
        (fun _ => rfl)
        (fun _ => iff_of_true rfl List.getLast?_concat) (fun h => absurd h (by decide))
  | operate tid operation =>
      obtain ⟨hpos, hmutex, _⟩ := hworks hlegal
      obtain rfl := Except.ok.inj hstep
      refine .of_place rfl hpos hself.mutex hself.inside (hself.holder hpos) hself.last fun h => ?_
      exact absurd (h.symm.trans (MutexPlace.hasMutex_of_works hlegal)) (by decide)
  | wait tid =>
      obtain ⟨hpos, _, hlast⟩ := hworks hlegal
      obtain rfl := Except.ok.inj hstep
      exact .of_place (s.goto_self tid .waiting) hpos (by simp [endSection, MutexPlace.hasMutex])
        (fun h => absurd h (by decide)) (fun _ => rfl) (fun _ => hlast)
        (fun _ => Function.update_self ..)
  | wake tid =>
      obtain ⟨hplace, _⟩ := hlegal
      obtain rfl := Except.ok.inj hstep
      have hpos : 0 < tid := hself.positive fun heq => absurd (hplace.symm.trans heq) (by decide)
      exact .of_place (s.goto_self tid .woken) hpos (iff_of_true rfl rfl)
        (fun h => absurd h (by decide))
        (fun _ => rfl) (fun _ => hself.last (congrArg MutexPlace.entered hplace))
        (fun h => absurd h (by decide))
  | clearHolder tid =>
      obtain ⟨hpos, hmutex, _⟩ := hworks hlegal
      obtain rfl := Except.ok.inj hstep
      exact .of_place (s.goto_self tid .leaving) hpos (iff_of_true hmutex rfl)
        (fun h => absurd h (by decide))
        (fun heq => absurd heq (Nat.ne_of_lt hpos)) (fun h => absurd h (by decide))
        (fun h => absurd h (by decide))
  | release tid =>
      obtain rfl := Except.ok.inj hstep
      have hplace : s.places tid = .leaving := hlegal
      have hpos : 0 < tid := hself.positive fun heq => absurd (hplace.symm.trans heq) (by decide)
      refine .of_place (s.goto_self tid .outside) hpos (by simp [endSection, MutexPlace.hasMutex])
        (fun h => absurd h (by decide)) (fun heq => ?_) (fun h => absurd h (by decide))
        (fun _ => Function.update_self ..)
      have hentered := hself.holder hpos heq
      exact absurd (hentered.symm.trans (congrArg MutexPlace.entered hplace)) (by decide)

/-- What is known of the threads is kept by every step. -/
theorem thread_step (h : ∀ tid, Thread s tid) (hlegal : Legal s a)
    (hstep : step apply s a = .ok s') : ∀ tid, Thread s' tid := by
  intro u
  by_cases hu : u = a.tid
  · rw [hu]
    exact thread_self h hlegal hstep
  · exact thread_other h hlegal hstep hu

end Steps

/-! ## Sections are whole -/

/-- A section in the history. -/
def steps (body : Nat × List α) : List (Nat × α) := body.2.map fun operation => (body.1, operation)

/-- What the thread that has the mutex has done with it. -/
def openSteps (s : MutexSystem σ α) : List (Nat × α) :=
  s.lock.mutex_.elim [] fun tid => steps (tid, s.body tid)

/-- The history can be cut into sections, of which only the last one may be unfinished. -/
structure Whole (apply : σ → α → σ) (init : σ) (s : MutexSystem σ α) : Prop where
  cut : s.history = s.sections.flatMap steps ++ s.openSteps
  data : s.data = s.history.foldl (fun data step => apply data step.2) init

section Sections

variable {apply : σ → α → σ} {init : σ} {s s' : MutexSystem σ α} {a : Action α}

theorem openSteps_of_some {tid : Nat} (h : s.lock.mutex_ = some tid) :
    s.openSteps = steps (tid, s.body tid) := by
  rw [openSteps, h]
  rfl

theorem openSteps_of_none (h : s.lock.mutex_ = none) : s.openSteps = [] := by
  rw [openSteps, h]
  rfl

/-- A thread takes the mutex: a section begins, with nothing in it. -/
theorem Whole.begins (h : Whole apply init s) {tid : Nat} (hfree : s.lock.mutex_ = none)
    (hbody : s.body tid = []) (hmutex : s'.lock.mutex_ = some tid) (hbodies : s'.body = s.body)
    (hsections : s'.sections = s.sections) (hhistory : s'.history = s.history)
    (hdata : s'.data = s.data) : Whole apply init s' := by
  refine ⟨?_, by rw [hdata, hhistory, h.data]⟩
  rw [hhistory, hsections, openSteps_of_some hmutex, hbodies, hbody, h.cut, openSteps_of_none hfree]
  rfl

/-- It gives the mutex back: the section is over. -/
theorem Whole.ends (h : Whole apply init s) {tid : Nat} (hmutex : s.lock.mutex_ = some tid)
    (place : MutexPlace) : Whole apply init ((s.goto tid place).endSection tid) := by
  refine ⟨?_, h.data⟩
  change s.history = (s.sections ++ [(tid, s.body tid)]).flatMap steps ++ []
  rw [List.append_nil, List.flatMap_append, List.flatMap_singleton, h.cut, openSteps_of_some hmutex]

theorem whole_step (hthreads : ∀ tid, Thread s tid) (h : Whole apply init s) (hlegal : Legal s a)
    (hstep : step apply s a = .ok s') : Whole apply init s' := by
  have hself := hthreads a.tid
  cases a with
  | acquire tid =>
      obtain ⟨_, hplace, hfree⟩ := hlegal
      obtain rfl := Except.ok.inj hstep
      exact h.begins hfree (hself.idle (congrArg MutexPlace.hasMutex hplace)) rfl rfl rfl rfl rfl
  | wake tid =>
      obtain ⟨hplace, hfree⟩ := hlegal
      obtain rfl := Except.ok.inj hstep
      exact h.begins hfree (hself.idle (congrArg MutexPlace.hasMutex hplace)) rfl rfl rfl rfl rfl
  | operate tid operation =>
      have hmutex : s.lock.mutex_ = some tid :=
        hself.mutex.mpr (MutexPlace.hasMutex_of_works hlegal)
      obtain rfl := Except.ok.inj hstep
      refine ⟨?_, ?_⟩
      · change s.history ++ [(tid, operation)] = s.sections.flatMap steps ++ s.lock.mutex_.elim [] _
        rw [h.cut, openSteps_of_some hmutex, hmutex, List.append_assoc]
        simp [steps]
      · change apply s.data operation = _
        rw [List.foldl_append, ← h.data]
        rfl
  | wait tid =>
      obtain rfl := Except.ok.inj hstep
      exact h.ends (hself.mutex.mpr (MutexPlace.hasMutex_of_works hlegal)) .waiting
  | release tid =>
      obtain rfl := Except.ok.inj hstep
      exact h.ends (hself.mutex.mpr (congrArg MutexPlace.hasMutex hlegal)) .outside
  | setHolder tid | clearHolder tid =>
      obtain rfl := Except.ok.inj hstep
      exact ⟨h.cut, h.data⟩

/-- Sections that are executed one after the other. -/
theorem run_sections (apply : σ → α → σ) (sections : List (Nat × List α)) (data : σ) :
    (sectionMachine apply).run data sections =
      .ok ((sections.flatMap steps).foldl (fun data step => apply data step.2) data) := by
  induction sections generalizing data with
  | nil => rfl
  | cons body sections ih =>
      rw [Machine.run_cons, List.flatMap_cons, List.foldl_append]
      change (sectionMachine apply).run (body.2.foldl apply data) sections = _
      rw [ih, steps, List.foldl_map]

end Sections

/-! ## What is promised -/

/-- What a mutex is good for.  `isLockedByThisThread()` is never true for a thread outside, and
true for one that has not waited; for one that has, until another enters or leaves. -/
structure Guards (apply : σ → α → σ) (init : σ) (s : MutexSystem σ α) : Prop where
  exclusive : ∀ tid u, (s.places tid).hasMutex = true → (s.places u).hasMutex = true → tid = u
  free : s.lock.mutex_ = none ↔ ∀ tid, (s.places tid).hasMutex = false
  whole : s.history = s.sections.flatMap steps ++ s.openSteps
  atomic : s.lock.mutex_ = none → (sectionMachine apply).run init s.sections = .ok s.data
  outside : ∀ tid, 0 < tid → s.places tid = .outside → s.lock.isLockedByThisThread tid = false
  inside : ∀ tid, s.places tid = .inside → s.lock.assertLocked tid = .ok ()
  woken : ∀ tid, s.places tid = .woken →
    (s.lock.assertLocked tid = .ok () ↔ s.holders.getLast? = some (.entered tid))
  destroy : (∀ tid, s.places tid = .outside) → s.lock.destroy = .ok ()

theorem assertLocked_eq_ok_iff {m : MutexLock} {tid : Nat} :
    m.assertLocked tid = .ok () ↔ m.holder_ = tid := by
  unfold MutexLock.assertLocked MutexLock.isLockedByThisThread
  constructor
  · intro h
    exact of_decide_eq_true (of_assertThat h)
  · intro h
    exact assertThat_of (decide_eq_true h)

theorem Whole.guards {apply : σ → α → σ} {init : σ} {s : MutexSystem σ α}
    (hthreads : ∀ tid, Thread s tid) (h : Whole apply init s) : Guards apply init s where
  exclusive tid u := (hthreads tid).only_one (hthreads u)
  free := by
    constructor
    · intro hfree tid
      refine Bool.eq_false_iff.mpr fun hhas => ?_
      exact absurd (hfree.symm.trans ((hthreads tid).mutex.mpr hhas)) (by simp)
    · intro hnone
      refine Option.eq_none_iff_forall_ne_some.mpr fun tid hmutex => ?_
      exact absurd ((hnone tid).symm.trans ((hthreads tid).mutex.mp hmutex)) (by decide)
  whole := h.cut
  atomic hfree := by
    have hcut := h.cut
    rw [openSteps_of_none hfree, List.append_nil] at hcut
    rw [run_sections, ← hcut, ← h.data]
  outside tid hpos hplace := by
    refine decide_eq_false fun heq => ?_
    have hentered := (hthreads tid).holder hpos heq
    exact absurd (hentered.symm.trans (congrArg MutexPlace.entered hplace)) (by decide)
  inside tid hplace := assertLocked_eq_ok_iff.mpr ((hthreads tid).inside hplace)
  woken tid hplace := by
    rw [assertLocked_eq_ok_iff]
    exact (hthreads tid).last (congrArg MutexPlace.entered hplace)
  destroy houtside := by
    refine assertThat_of (Nat.eq_zero_of_not_pos fun hpos => ?_)
    have hentered := (hthreads s.lock.holder_).holder hpos rfl
    exact absurd (hentered.symm.trans (congrArg MutexPlace.entered (houtside _))) (by decide)

/-- However threads take the mutex, wait and give it back: only one has it at a time; what they
did to the guarded data is what their sections do, executed whole, one after the other, where
a `wait()` ends one section and begins the next; and when all are outside the mutex can be
destroyed. -/
theorem sections_are_whole (apply : σ → α → σ) (init : σ) (actions : List (Action α))
    (hlegal : (machine apply).LegalRun (start init) actions) :
    ∃ s, (machine apply).run (start init) actions = .ok s ∧ Guards apply init s := by
  obtain ⟨s, hrun, hthreads, hwhole⟩ := Machine.run_invariant
    (fun s => (∀ tid, Thread s tid) ∧ Whole apply init s)
    (by
      rintro s a ⟨hthreads, hwhole⟩ hlegal
      have hstep : ∃ s', step apply s a = .ok s' := by
        cases a <;> exact ⟨_, rfl⟩
      obtain ⟨s', hstep⟩ := hstep
      exact ⟨s', hstep, thread_step hthreads hlegal hstep, whole_step hthreads hwhole hlegal hstep⟩)
    ⟨thread_start init, rfl, rfl⟩ hlegal
  exact ⟨s, hrun, hwhole.guards hthreads⟩

/-- Thread 7 waits, and 9 goes through a whole section before it returns. -/
def waitingRun : List (Action Int) :=
  [.acquire 7, .setHolder 7, .operate 7 1, .wait 7, .acquire 9, .setHolder 9, .operate 9 10,
    .operate 9 100, .clearHolder 9, .release 9, .wake 7, .operate 7 2]

theorem sections_are_whole_waitingRun :
    (machine (· + ·)).LegalRun (start (0 : Int)) waitingRun ∧
      ∃ s, (machine (· + ·)).run (start 0) waitingRun = .ok s ∧ Guards (· + ·) 0 s := by
  have hlegal : (machine (· + ·)).LegalRun (start (0 : Int)) waitingRun := by decide +kernel
  exact ⟨hlegal, sections_are_whole (· + ·) 0 waitingRun hlegal⟩

end MutexSystem

end Muduo.Base
