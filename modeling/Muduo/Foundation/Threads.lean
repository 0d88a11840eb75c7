/-
  Foundation/Threads.lean --- threads in front of a condition variable.

  A concurrent program is a list of places, one for each thread.  What is in the hands of
  the threads is counted (`total`) or collected (`held`), and when one thread moves, both
  change by what it had and what it has.

  `Covered` is the invariant behind "no lost wakeup": as long as a thread waits, whatever
  it could wait for is announced, by a notification that is on its way or by a thread that
  was woken and has not looked yet.  It is kept by a thread that moves without beginning to
  wait, by a thread that finds nothing and begins to wait, and by a notification.

  Nothing here names the program that is modelled.
-/
import Mathlib

set_option autoImplicit false

namespace Muduo.Foundation

namespace Threads

variable {π α : Type}

/-! ## What the threads have -/

/-- The sum over all threads. -/
def total (f : π → Nat) (threads : List π) : Nat := (threads.map f).sum

/-- What the threads hold, one after the other. -/
def held (f : π → List α) (threads : List π) : List α := threads.flatMap f

section Moves

variable {threads : List π} {i : Nat} {pc : π}

/-- The places before a thread and behind it, when it moves. -/
theorem exists_split (h : threads[i]? = some pc) :
    ∃ before after, threads = before ++ pc :: after ∧
      ∀ pc', threads.set i pc' = before ++ pc' :: after := by
  obtain ⟨hi, rfl⟩ := List.getElem?_eq_some_iff.mp h
  refine ⟨threads.take i, threads.drop (i + 1), ?_, fun pc' => ?_⟩
  · rw [List.getElem_cons_drop, List.take_append_drop]
  · rw [List.set_eq_take_append_cons_drop, if_pos hi]

/-- When a thread moves, the sum loses what it counted and gains what it counts now. -/
theorem total_set (h : threads[i]? = some pc) (f : π → Nat) (pc' : π) :
    total f (threads.set i pc') + f pc = total f threads + f pc' := by
  obtain ⟨before, after, hthreads, hset⟩ := exists_split h
  rw [hset, hthreads]
  simp only [total, List.map_append, List.map_cons, List.sum_append, List.sum_cons]
  omega

theorem held_set (h : threads[i]? = some pc) (f : π → List α) (pc' : π) :
    (held f (threads.set i pc') ++ f pc).Perm (held f threads ++ f pc') := by
  obtain ⟨before, after, hthreads, hset⟩ := exists_split h
  rw [hset, hthreads]
  simp only [held, List.flatMap_append, List.flatMap_cons, List.append_assoc]
  refine List.Perm.append_left _ ?_
  rw [← List.append_assoc, ← List.append_assoc]
  calc ((f pc' ++ after.flatMap f) ++ f pc).Perm (f pc ++ (f pc' ++ after.flatMap f)) :=
        List.perm_append_comm
    _ = (f pc ++ f pc') ++ after.flatMap f := by rw [List.append_assoc]
    (f pc ++ f pc' ++ after.flatMap f).Perm (f pc ++ (after.flatMap f ++ f pc')) := by
        rw [List.append_assoc]
        exact List.Perm.append_left _ List.perm_append_comm
    _ = f pc ++ after.flatMap f ++ f pc' := by rw [List.append_assoc]

theorem le_total_of_get (h : threads[i]? = some pc) (f : π → Nat) : f pc ≤ total f threads := by
  obtain ⟨before, after, hthreads, -⟩ := exists_split h
  rw [hthreads]
  simp only [total, List.map_append, List.map_cons, List.sum_append, List.sum_cons]
  omega

theorem total_eq_zero_iff (f : π → Nat) : total f threads = 0 ↔ ∀ pc ∈ threads, f pc = 0 := by
  induction threads with
  | nil => simp [total]
  | cons pc threads ih =>
      simp only [total, List.map_cons, List.sum_cons, Nat.add_eq_zero_iff, List.forall_mem_cons]
      exact and_congr_right fun _ => ih

theorem total_pos_of_mem {f : π → Nat} (hmem : pc ∈ threads) (hpos : 0 < f pc) :
    0 < total f threads := by
  refine Nat.pos_of_ne_zero fun hzero => ?_
  have hnone := (total_eq_zero_iff f).mp hzero pc hmem
  omega

theorem total_le {f : π → Nat} {bound : Nat} (h : ∀ pc, f pc ≤ bound) (threads : List π) :
    total f threads ≤ bound * threads.length := by
  induction threads with
  | nil => exact Nat.zero_le _
  | cons pc threads ih =>
      have hpc := h pc
      simp only [total, List.map_cons, List.sum_cons, List.length_cons] at ih ⊢
      rw [Nat.mul_succ]
      omega

/-- All threads move at once, as a broadcast lets them. -/
theorem total_map (f : π → Nat) (g : π → π) (threads : List π) :
    total f (threads.map g) = total (f ∘ g) threads := by
  rw [total, total, List.map_map]

end Moves

/-! ## A condition variable -/

/-- Where threads stand with respect to a condition variable. -/
structure Condition (π : Type) where
  /-- the thread is in `wait()` and has not been notified -/
  waits : π → Bool
  /-- how many notifications the thread is going to issue or has received -/
  announces : π → Nat

namespace Condition

variable (c : Condition π)

/-- How many threads wait. -/
def waiting (threads : List π) : Nat := total (fun pc => (c.waits pc).toNat) threads

/-- How many notifications are on their way. -/
def pending (threads : List π) : Nat := total c.announces threads

/-- As long as somebody waits, everything that is available is announced. -/
def Covered (available : Nat) (threads : List π) : Prop :=
  0 < c.waiting threads → available ≤ c.pending threads

variable {c} {available available' : Nat} {threads : List π} {i : Nat} {pc : π}

theorem covered_of_waiting_eq_zero (h : c.waiting threads = 0) : c.Covered available threads := by
  intro hpos
  omega

/-- Nothing is available, so nobody can miss it. -/
theorem covered_zero (threads : List π) : c.Covered 0 threads := fun _ => Nat.zero_le _

/-- One thread moves without beginning to wait, and announces what becomes available. -/
theorem covered_set (hcovered : c.Covered available threads) (h : threads[i]? = some pc) {pc' : π}
    (hwaits : c.waits pc' = true → c.waits pc = true)
    (havailable : available' + c.announces pc ≤ available + c.announces pc') :
    c.Covered available' (threads.set i pc') := by
  have hwaiting := total_set h (fun pc => (c.waits pc).toNat) pc'
  have hpending := total_set h c.announces pc'
  have hle : (c.waits pc').toNat ≤ (c.waits pc).toNat := by
    cases hcase : c.waits pc' with
    | false => exact Nat.zero_le _
    | true => exact Nat.le_of_eq (congrArg Bool.toNat (hwaits hcase)).symm
  intro hpos
  have hbefore := hcovered (by simp only [waiting] at hpos ⊢; omega)
  simp only [pending] at hbefore ⊢
  omega

/-- A thread waits although there is something, and nobody is going to tell anyone. -/
def Stuck (c : Condition π) (available : Nat) (threads : List π) : Prop :=
  (∃ pc ∈ threads, c.waits pc = true) ∧ 0 < available ∧ ∀ pc ∈ threads, c.announces pc = 0

theorem not_stuck_of_covered (h : c.Covered available threads) : ¬ c.Stuck available threads := by
  rintro ⟨⟨pc, hmem, hwaits⟩, hpos, hnone⟩
  have hwaiting : 0 < c.waiting threads :=
    total_pos_of_mem hmem (by rw [hwaits]; exact Nat.one_pos)
  have hle := h hwaiting
  rw [pending, (total_eq_zero_iff _).mpr hnone] at hle
  omega

end Condition

end Threads

end Muduo.Foundation
