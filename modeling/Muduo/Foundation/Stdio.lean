/-
  Foundation/Stdio.lean --- a stream of the C library that is opened for appending, with a buffer
  of its own.

  What is written goes to the buffer, and from there to the kernel at times the library chooses;
  only the size of the buffer bounds what it may keep back.  A `Transfer` says how one call of
  `fwrite` turns out, a `Flushing` how one of `fflush` or `fclose` does.  A write error may take
  bytes of the buffer with it, also such as earlier calls have taken: the contents of the stream are
  then some of the bytes it took, in order (`contents_fwrite_sublist`, `contents_fflush_sublist`).
  Without one they are all of them (`contents_fwrite`, `contents_fflush`).

  Nothing here names the program that is modelled.
-/
import Mathlib.Data.List.Forall2
import Mathlib.Tactic.Common

set_option autoImplicit false

namespace Muduo.Foundation

/-- A stream on a file, which was empty when it was opened. -/
structure Stream where
  /-- what the kernel has -/
  kernel : List UInt8
  /-- what it does not have yet -/
  buffer : List UInt8
  deriving DecidableEq, Repr

/-- The outcome of a call of `fwrite`: how many bytes it takes at most, how many of those in the
buffer it passes on at least, and how many behind these a write error takes from the buffer. -/
structure Transfer where
  taken : Nat
  passed : Nat
  lost : Nat
  deriving DecidableEq, Repr

/-- The outcome of a call of `fflush` or `fclose`. -/
inductive Flushing where
  /-- it returns 0 -/
  | done
  /-- it returns `EOF`, when it has passed on some bytes and lost others behind these -/
  | failed (passed lost : Nat)
  deriving DecidableEq, Repr

namespace Stream

/-- Of a new file. -/
def opened : Stream := ⟨[], []⟩

/-- What was written and is not lost. -/
def contents (f : Stream) : List UInt8 := f.kernel ++ f.buffer

/-- `fwrite(bytes, 1, len, fp)`, with a buffer of `capacity` bytes; the number of bytes taken. -/
def fwrite (capacity : Nat) (f : Stream) (bytes : List UInt8) (t : Transfer) : Nat × Stream :=
  let taken := bytes.take t.taken
  let pending := f.buffer ++ taken
  let passed := max t.passed (pending.length - t.lost - capacity)
  (taken.length, ⟨f.kernel ++ pending.take passed, pending.drop (passed + t.lost)⟩)

/-- `fflush(fp)`. -/
def fflush (f : Stream) : Flushing → Stream
  | .done => ⟨f.contents, []⟩
  | .failed passed lost => ⟨f.kernel ++ f.buffer.take passed, f.buffer.drop (passed + lost)⟩

/-- `fclose(fp)`: what the file holds.  What is still in the buffer is lost. -/
def fclose (f : Stream) (o : Flushing) : List UInt8 := (f.fflush o).kernel

/-- The buffer keeps its size. -/
def Fits (capacity : Nat) (f : Stream) : Prop := f.buffer.length ≤ capacity

section Write

variable {capacity : Nat} {f : Stream} {bytes : List UInt8} {t : Transfer}

/-- Some bytes behind a beginning are lost. -/
theorem take_append_drop_sublist (pending : List UInt8) (passed lost : Nat) :
    (pending.take passed ++ pending.drop (passed + lost)).Sublist pending := by
  conv_rhs => rw [← List.take_append_drop passed pending]
  rw [← List.drop_drop]
  exact (List.Sublist.refl _).append (List.drop_sublist _ _)

@[simp] theorem contents_fflush : (f.fflush .done).contents = f.contents := List.append_nil _

theorem contents_fflush_sublist (o : Flushing) : ((f.fflush o).contents).Sublist f.contents := by
  cases o with
  | done => rw [contents_fflush]
  | failed passed lost =>
      simp only [fflush, contents, List.append_assoc]
      exact (List.Sublist.refl _).append (take_append_drop_sublist _ _ _)

@[simp] theorem fclose_done : f.fclose .done = f.contents := rfl

theorem fclose_sublist (o : Flushing) : (f.fclose o).Sublist f.contents :=
  (List.sublist_append_left _ _).trans (contents_fflush_sublist o)

theorem Fits.fflush (h : f.Fits capacity) (o : Flushing) : (f.fflush o).Fits capacity := by
  cases o with
  | done => exact Nat.zero_le _
  | failed passed lost =>
      simp only [Fits, Stream.fflush, List.length_drop] at h ⊢
      omega

theorem fwrite_fst_pos (hbytes : bytes ≠ []) (ht : 0 < t.taken) :
    0 < (f.fwrite capacity bytes t).1 := by
  rw [fwrite, List.length_take]
  exact Nat.lt_min.mpr ⟨ht, List.length_pos_iff.mpr hbytes⟩

/-- The bytes taken are added, in the kernel or in the buffer. -/
theorem contents_fwrite (ht : t.lost = 0) : (f.fwrite capacity bytes t).2.contents =
    f.contents ++ bytes.take (f.fwrite capacity bytes t).1 := by
  simp only [fwrite, contents, ht, Nat.add_zero, List.append_assoc, List.take_append_drop,
    List.length_take, ← List.take_eq_take_min]

/-- The bytes taken are added, and of all of them some may be lost. -/
theorem contents_fwrite_sublist : ((f.fwrite capacity bytes t).2.contents).Sublist
    (f.contents ++ bytes.take (f.fwrite capacity bytes t).1) := by
  simp only [fwrite, contents, List.append_assoc, List.length_take, ← List.take_eq_take_min]
  exact (List.Sublist.refl _).append (take_append_drop_sublist _ _ _)

theorem fits_fwrite : (f.fwrite capacity bytes t).2.Fits capacity := by
  simp only [fwrite, Fits, List.length_drop]
  omega

end Write

end Stream

/-! ## What is left of pieces -/

section Pieces

variable {α : Type} {left pieces more : List (List α)}

/-- Of each piece some elements are left, in order, and all of them if nothing is lost. -/
structure LeftOf (kept : Prop) (left pieces : List (List α)) : Prop where
  sublists : List.Forall₂ List.Sublist left pieces
  all : kept → left = pieces

/-- What is left of all pieces is cut as they are. -/
theorem exists_pieces {l : List α} (h : l.Sublist pieces.flatten) :
    ∃ left : List (List α), l = left.flatten ∧ List.Forall₂ List.Sublist left pieces := by
  induction pieces generalizing l with
  | nil => exact ⟨[], List.sublist_nil.mp h, .nil⟩
  | cons piece pieces ih =>
      obtain ⟨first, rest, rfl, hfirst, hrest⟩ := List.sublist_append_iff.mp h
      obtain ⟨left, rfl, hleft⟩ := ih hrest
      exact ⟨first :: left, rfl, .cons hfirst hleft⟩

theorem sublists_trans (h : List.Forall₂ List.Sublist left pieces)
    (h' : List.Forall₂ List.Sublist pieces more) : List.Forall₂ List.Sublist left more := by
  induction h generalizing more with
  | nil => exact h'
  | cons hfirst _ ih =>
      cases h' with
      | cons hfirst' hrest => exact .cons (hfirst.trans hfirst') (ih hrest)

namespace LeftOf

theorem of_flatten {kept : Prop} {l : List α} (h : l.Sublist pieces.flatten)
    (hkept : kept → l = pieces.flatten) : ∃ left, l = left.flatten ∧ LeftOf kept left pieces := by
  by_cases hk : kept
  · exact ⟨pieces, hkept hk, List.forall₂_same.mpr fun _ _ => .refl _, fun _ => rfl⟩
  · obtain ⟨left, hl, hleft⟩ := exists_pieces h
    exact ⟨left, hl, hleft, fun hk' => absurd hk' hk⟩

theorem refl (kept : Prop) (pieces : List (List α)) : LeftOf kept pieces pieces :=
  ⟨List.forall₂_same.mpr fun _ _ => .refl _, fun _ => rfl⟩

theorem append {kept : Prop} {left' pieces' : List (List α)} (h : LeftOf kept left pieces)
    (h' : LeftOf kept left' pieces') : LeftOf kept (left ++ left') (pieces ++ pieces') :=
  ⟨List.rel_append h.sublists h'.sublists, fun hk => by rw [h.all hk, h'.all hk]⟩

theorem trans {kept kept' : Prop} (h : LeftOf kept left pieces) (h' : LeftOf kept' pieces more) :
    LeftOf (kept ∧ kept') left more :=
  ⟨sublists_trans h.sublists h'.sublists, fun hk => (h.all hk.1).trans (h'.all hk.2)⟩

theorem imp {kept kept' : Prop} (h : LeftOf kept left pieces) (himp : kept' → kept) :
    LeftOf kept' left pieces :=
  ⟨h.sublists, fun hk => h.all (himp hk)⟩

end LeftOf

end Pieces

end Muduo.Foundation
