/-
  Net/Inspector.lean --- the paths of the inspector: `split` and `Inspector::onRequest`
  (src/muduo/net/inspect/Inspector.cc).

  `IsPart` says which positions bound a part of a path: a part is not empty, holds no slash, and
  cannot be made longer.  `Scanned` is the invariant of the loop: the parts that end before
  `start` have been found, in order.  `split_exact` is what comes of it at the end, and
  `onRequest_registered` what a request for a registered command is answered with.
-/
import Muduo.Foundation.Exec
import Muduo.Http.HttpRequest
import Muduo.Http.HttpResponse

set_option autoImplicit false

namespace Muduo.Net

open Muduo.Foundation Muduo.Http

/-- `Inspector::Callback`: the method and the arguments give the text; it may be empty. -/
abbrev Callback : Type := Option (Method → List (List UInt8) → List UInt8)

/-- `class Inspector`, with its commands and their helps. -/
structure Inspector where
  commands_ : SortedMap (List UInt8) (SortedMap (List UInt8) Callback)
  helps_ : SortedMap (List UInt8) (SortedMap (List UInt8) (List UInt8))

namespace Inspector

/-! ## `std::string` -/

/-- `'/'`. -/
def slash : UInt8 := 47

/-- `str.find(c, start)`. -/
def find (str : List UInt8) (c : UInt8) (start : Nat) : Option Nat :=
  ((str.drop start).idxOf? c).map (start + ·)

/-- `str.substr(pos, n)`; it throws if `pos` is beyond the end, and there is no `n` for `npos`. -/
def substr (str : List UInt8) (pos : Nat) (n : Option Nat) : Exec (List UInt8) :=
  if pos ≤ str.length then .ok ((str.drop pos).take (n.getD str.length)) else .error .outOfBounds

theorem find_eq_none_iff {str : List UInt8} {c : UInt8} {start : Nat} :
    find str c start = none ↔ ∀ k, start ≤ k → str[k]? ≠ some c := by
  rw [find, Option.map_eq_none_iff, List.idxOf?_eq_none_iff]
  constructor
  · intro hmem k hk hc
    refine hmem (List.mem_iff_getElem?.mpr ⟨k - start, ?_⟩)
    rwa [List.getElem?_drop, Nat.add_sub_cancel' hk]
  · intro hfree hmem
    obtain ⟨k, hk⟩ := List.mem_iff_getElem?.mp hmem
    rw [List.getElem?_drop] at hk
    exact hfree (start + k) (by omega) hk

theorem find_eq_some {str : List UInt8} {c : UInt8} {start pos : Nat}
    (h : find str c start = some pos) :
    start ≤ pos ∧ str[pos]? = some c ∧ ∀ k, start ≤ k → k < pos → str[k]? ≠ some c := by
  obtain ⟨i, hi, rfl⟩ := Option.map_eq_some_iff.mp h
  obtain ⟨hlt, hget, hfirst⟩ := List.idxOf?_eq_some_iff.mp hi
  refine ⟨by omega, ?_, ?_⟩
  · rw [← List.getElem?_drop, List.getElem?_eq_getElem hlt, hget]
  · intro k hk hlt' hc
    obtain ⟨j, rfl⟩ := Nat.exists_eq_add_of_le hk
    rw [← List.getElem?_drop] at hc
    obtain ⟨_, hcj⟩ := List.getElem?_eq_some_iff.mp hc
    exact hfirst j (by omega) hcj

/-! ## `split` -/

/-- The variables of the loop of `split`. -/
structure SplitState where
  result : List (List UInt8)
  start : Nat
  pos : Option Nat
  deriving DecidableEq, Repr

/-- `result.push_back(str.substr(pos, n))` if the condition holds. -/
def pushIf (p : Prop) [Decidable p] (result : List (List UInt8)) (part : Exec (List UInt8)) :
    Exec (List (List UInt8)) :=
  if p then part >>= fun part => .ok (result ++ [part]) else .ok result

/-- One round of the loop. -/
def splitBody (str : List UInt8) (s : SplitState) : Exec (SplitState ⊕ SplitState) :=
  match s.pos with
  | none => .ok (.inr s)
  | some pos => do
      let result ← pushIf (pos > s.start) s.result (substr str s.start (some (pos - s.start)))
      let start := pos + 1
      return .inl ⟨result, start, find str slash start⟩

/-- `split(str)`. -/
def split (fuel : Nat) (str : List UInt8) : Exec (List (List UInt8)) := do
  let s ← Loop.run (splitBody str) fuel ⟨[], 0, find str slash 0⟩
  pushIf (s.start < str.length) s.result (substr str s.start none)

/-! ## The parts of a path -/

/-- The bytes from `i` up to `j` are a part: they are not empty, hold no slash, and what is next
to them on either side is a slash or the end of the path. -/
structure IsPart (str : List UInt8) (i j : Nat) : Prop where
  nonempty : i < j
  le : j ≤ str.length
  free : ∀ k, i ≤ k → k < j → str[k]? ≠ some slash
  left : i = 0 ∨ str[i - 1]? = some slash
  right : j = str.length ∨ str[j]? = some slash

/-- The bytes between two positions. -/
def slice (str : List UInt8) (span : Nat × Nat) : List UInt8 :=
  (str.drop span.1).take (span.2 - span.1)

/-- What is between the slashes and not empty. -/
def pieces (str : List UInt8) : List (List UInt8) :=
  (str.splitOn slash).filter fun piece => !piece.isEmpty

/-- `spans` are the parts that end before `start`, in order, and what follows `start` are the
other pieces; before `start` is a slash or nothing. -/
structure Scanned (str : List UInt8) (spans : List (Nat × Nat)) (start : Nat) : Prop where
  le : start ≤ str.length
  begins : start = 0 ∨ str[start - 1]? = some slash
  ordered : spans.Pairwise fun a b => a.2 < b.1
  exact : ∀ i j, (i, j) ∈ spans ↔ IsPart str i j ∧ j < start
  rest : spans.map (slice str) ++ pieces (str.drop start) = pieces str

section Scan

variable {str : List UInt8} {spans : List (Nat × Nat)} {start stop : Nat}

theorem scanned_zero (str : List UInt8) : Scanned str [] 0 where
  le := Nat.zero_le _
  begins := Or.inl rfl
  ordered := List.Pairwise.nil
  exact := by simp
  rest := by simp

/-- The spans with the one from `start` to `stop`, unless it is empty. -/
def extend (spans : List (Nat × Nat)) (start stop : Nat) : List (Nat × Nat) :=
  if stop > start then spans ++ [(start, stop)] else spans

theorem map_slice_extend : (extend spans start stop).map (slice str) =
    spans.map (slice str) ++ if stop > start then [slice str (start, stop)] else [] := by
  unfold extend
  by_cases hlt : stop > start
  · rw [if_pos hlt, if_pos hlt, List.map_append, List.map_singleton]
  · rw [if_neg hlt, if_neg hlt, List.append_nil]

/-- What is between `start` and `stop` is one piece, unless it is empty. -/
theorem filter_slice (hlen : stop ≤ str.length) :
    [slice str (start, stop)].filter (fun piece => !piece.isEmpty) =
    if stop > start then [slice str (start, stop)] else [] := by
  have hlength : (slice str (start, stop)).length = stop - start := by
    rw [slice, List.length_take, List.length_drop]
    omega
  by_cases hlt : stop > start
  · have hne : slice str (start, stop) ≠ [] := by
      refine List.ne_nil_of_length_pos ?_
      omega
    simp [hlt, hne]
  · have hnil : slice str (start, stop) = [] := by
      refine List.eq_nil_of_length_eq_zero ?_
      omega
    simp [hlt, hnil]

theorem slash_not_mem_slice (hle : start ≤ stop)
    (hfree : ∀ k, start ≤ k → k < stop → str[k]? ≠ some slash) :
    slash ∉ slice str (start, stop) := by
  intro hmem
  obtain ⟨k, hk⟩ := List.mem_iff_getElem?.mp hmem
  rw [slice, List.getElem?_take, List.getElem?_drop] at hk
  by_cases hlt : k < stop - start
  · rw [if_pos hlt] at hk
    exact hfree (start + k) (by omega) (by omega) hk
  · rw [if_neg hlt] at hk
    exact absurd hk (by simp)

theorem Scanned.ordered_extend (h : Scanned str spans start) :
    (extend spans start stop).Pairwise fun a b => a.2 < b.1 := by
  unfold extend
  by_cases hlt : stop > start
  · rw [if_pos hlt, List.pairwise_append]
    refine ⟨h.ordered, List.pairwise_singleton _ _, ?_⟩
    intro a ha b hb
    rw [List.mem_singleton] at hb
    rw [hb]
    exact ((h.exact a.1 a.2).mp ha).2
  · rw [if_neg hlt]
    exact h.ordered

section Next

variable (h : Scanned str spans start) (hle : start ≤ stop) (hlen : stop ≤ str.length)
  (hfree : ∀ k, start ≤ k → k < stop → str[k]? ≠ some slash)
  (hend : stop = str.length ∨ str[stop]? = some slash)

include h hle hlen hfree hend

/-- The next part, if there is one, is all that is between `start` and `stop`. -/
theorem Scanned.part_iff {i j : Nat} :
    IsPart str i j ∧ start ≤ j ∧ j ≤ stop ↔ start < stop ∧ i = start ∧ j = stop := by
  constructor
  · rintro ⟨hpart, hj, hj'⟩
    have hi : start ≤ i := by
      by_contra hlt
      rcases h.begins with hzero | hslash
      · omega
      · exact hpart.free (start - 1) (by omega) (by omega) hslash
    have hnonempty := hpart.nonempty
    have hi' : i = start := by
      rcases hpart.left with hzero | hslash
      · omega
      · by_contra hne
        exact hfree (i - 1) (by omega) (by omega) hslash
    have hj'' : j = stop := by
      rcases hpart.right with hend' | hslash
      · omega
      · by_contra hne
        exact hfree j hj (by omega) hslash
    omega
  · rintro ⟨hlt, rfl, rfl⟩
    exact ⟨⟨hlt, hlen, hfree, h.begins, hend⟩, hle, Nat.le_refl _⟩

theorem Scanned.mem_extend_iff (i j : Nat) :
    (i, j) ∈ extend spans start stop ↔ IsPart str i j ∧ j ≤ stop := by
  have hnext := h.part_iff hle hlen hfree hend (i := i) (j := j)
  have hold := h.exact i j
  have hsplit : IsPart str i j ∧ j ≤ stop ↔
      (IsPart str i j ∧ j < start) ∨ (IsPart str i j ∧ start ≤ j ∧ j ≤ stop) := by
    constructor
    · rintro ⟨hpart, hj⟩
      by_cases hlt : j < start
      · exact Or.inl ⟨hpart, hlt⟩
      · exact Or.inr ⟨hpart, Nat.not_lt.mp hlt, hj⟩
    · rintro (⟨hpart, hlt⟩ | ⟨hpart, _, hj⟩)
      · exact ⟨hpart, by omega⟩
      · exact ⟨hpart, hj⟩
  rw [hsplit, hnext, ← hold, extend]
  by_cases hlt : start < stop
  · simp [hlt]
  · simp [hlt]

omit hend in
/-- At a slash the next round begins behind it. -/
theorem Scanned.next (hslash : str[stop]? = some slash) :
    Scanned str (extend spans start stop) (stop + 1) where
  le := by
    obtain ⟨hlt, _⟩ := List.getElem?_eq_some_iff.mp hslash
    exact hlt
  begins := Or.inr (by rwa [Nat.add_sub_cancel])
  ordered := h.ordered_extend
  exact i j := by
    rw [h.mem_extend_iff hle hlen hfree (Or.inr hslash) i j, Nat.lt_succ_iff]
  rest := by
    obtain ⟨hlt, hget⟩ := List.getElem?_eq_some_iff.mp hslash
    have hdrop : str.drop start = slice str (start, stop) ++ slash :: str.drop (stop + 1) := by
      rw [slice, ← hget, List.getElem_cons_drop]
      conv_lhs => rw [← List.take_append_drop (stop - start) (str.drop start)]
      rw [List.drop_drop, Nat.add_sub_cancel' hle]
    have hrest := h.rest
    rw [hdrop, pieces, List.splitOn_append_cons_self_of_not_mem (slash_not_mem_slice hle hfree),
      ← List.singleton_append, List.filter_append, filter_slice hlen] at hrest
    rw [map_slice_extend, List.append_assoc]
    exact hrest

end Next

/-- Without another slash the last part ends with the path. -/
theorem Scanned.finish (h : Scanned str spans start)
    (hfree : ∀ k, start ≤ k → str[k]? ≠ some slash) :
    (∀ i j, (i, j) ∈ extend spans start str.length ↔ IsPart str i j) ∧
      (extend spans start str.length).map (slice str) = pieces str := by
  have hfree' : ∀ k, start ≤ k → k < str.length → str[k]? ≠ some slash := fun k hk _ => hfree k hk
  constructor
  · intro i j
    rw [h.mem_extend_iff h.le (Nat.le_refl _) hfree' (Or.inl rfl) i j]
    exact ⟨fun hpart => hpart.1, fun hpart => ⟨hpart, hpart.le⟩⟩
  · have hdrop : str.drop start = slice str (start, str.length) := by
      rw [slice, List.take_of_length_le (by rw [List.length_drop])]
    have hrest := h.rest
    rw [hdrop, pieces, List.splitOn_eq_singleton (slash_not_mem_slice h.le hfree'),
      filter_slice (Nat.le_refl _)] at hrest
    rw [map_slice_extend]
    exact hrest

end Scan

/-! ## The loop -/

section Run

variable {str : List UInt8} {spans : List (Nat × Nat)} {start : Nat}

theorem pushIf_substr {stop : Nat} {n : Option Nat} (hlen : start ≤ str.length)
    (hn : (str.drop start).take (n.getD str.length) = slice str (start, stop)) :
    pushIf (stop > start) (spans.map (slice str)) (substr str start n) =
      .ok ((extend spans start stop).map (slice str)) := by
  rw [pushIf, substr, if_pos hlen, ok_bind, hn, map_slice_extend]
  by_cases hlt : stop > start
  · rw [if_pos hlt, if_pos hlt]
  · rw [if_neg hlt, if_neg hlt, List.append_nil]

/-- The loop leaves with every part that ends before the last slash. -/
theorem run_splitBody (h : Scanned str spans start) {fuel : Nat}
    (hfuel : str.length - start < fuel) :
    ∃ spans' start', Loop.run (splitBody str) fuel
        ⟨spans.map (slice str), start, find str slash start⟩ =
          .ok ⟨spans'.map (slice str), start', none⟩ ∧
      Scanned str spans' start' ∧ ∀ k, start' ≤ k → str[k]? ≠ some slash := by
  induction fuel generalizing spans start with
  | zero => exact absurd hfuel (Nat.not_lt_zero _)
  | succ fuel ih =>
      cases hpos : find str slash start with
      | none =>
          exact ⟨spans, start, Loop.run_succ_of_leave rfl fuel, h, find_eq_none_iff.mp hpos⟩
      | some pos =>
          obtain ⟨hle, hslash, hfree⟩ := find_eq_some hpos
          obtain ⟨hlt, _⟩ := List.getElem?_eq_some_iff.mp hslash
          have hnext := h.next hle (by omega) hfree hslash
          obtain ⟨spans', start', hrun, hscanned, hlast⟩ := ih hnext (by omega)
          refine ⟨spans', start', ?_, hscanned, hlast⟩
          have hpush : pushIf (pos > start) (spans.map (slice str))
              (substr str start (some (pos - start))) =
                .ok ((extend spans start pos).map (slice str)) :=
            pushIf_substr (by omega) rfl
          have hbody : splitBody str ⟨spans.map (slice str), start, some pos⟩ =
              .ok (.inl ⟨(extend spans start pos).map (slice str), pos + 1,
                find str slash (pos + 1)⟩) := by
            simp only [splitBody, hpush, ok_bind]
            rfl
          rw [Loop.run_succ_of_next hbody, hrun]

end Run

theorem split_eq (str : List UInt8) {fuel : Nat} (hfuel : str.length < fuel) :
    ∃ spans start, split fuel str = .ok ((extend spans start str.length).map (slice str)) ∧
      Scanned str spans start ∧ ∀ k, start ≤ k → str[k]? ≠ some slash := by
  obtain ⟨spans, start, hrun, hscanned, hlast⟩ := run_splitBody (scanned_zero str) hfuel
  refine ⟨spans, start, ?_, hscanned, hlast⟩
  rw [List.map_nil] at hrun
  rw [split, hrun, ok_bind]
  refine pushIf_substr hscanned.le ?_
  rw [Option.getD_none, slice, List.take_of_length_le (by rw [List.length_drop]; omega),
    List.take_of_length_le (by rw [List.length_drop])]

/-- `split` ends, and gives the parts of the path in order: the slices between the positions that
bound a part, each once.  These are what is between the slashes and not empty. -/
theorem split_exact (str : List UInt8) {fuel : Nat} (hfuel : str.length < fuel) :
    ∃ spans : List (Nat × Nat), split fuel str = .ok (spans.map (slice str)) ∧
      spans.Pairwise (fun a b => a.2 < b.1) ∧ (∀ i j, (i, j) ∈ spans ↔ IsPart str i j) ∧
      spans.map (slice str) = (str.splitOn slash).filter fun piece => !piece.isEmpty := by
  obtain ⟨spans, start, hsplit, hscanned, hlast⟩ := split_eq str hfuel
  obtain ⟨hexact, hpieces⟩ := hscanned.finish hlast
  exact ⟨extend spans start str.length, hsplit, hscanned.ordered_extend, hexact, hpieces⟩

theorem split_exact_proc :
    split 20 (ascii "//proc//pid/") = .ok [ascii "proc", ascii "pid"] ∧
    ∃ spans : List (Nat × Nat),
      split 20 (ascii "//proc//pid/") = .ok (spans.map (slice (ascii "//proc//pid/"))) ∧
      spans.Pairwise (fun a b => a.2 < b.1) ∧
      (∀ i j, (i, j) ∈ spans ↔ IsPart (ascii "//proc//pid/") i j) ∧
      spans.map (slice (ascii "//proc//pid/")) =
        ((ascii "//proc//pid/").splitOn slash).filter fun piece => !piece.isEmpty :=
  ⟨by decide, split_exact _ (by decide)⟩

/-! ## `onRequest` -/

/-- `add(module, command, cb, help)`. -/
def add (s : Inspector) (module command : List UInt8) (cb : Callback) (help : List UInt8) :
    Inspector where
  commands_ := s.commands_.assign module (((s.commands_.find module).getD []).assign command cb)
  helps_ := s.helps_.assign module (((s.helps_.find module).getD []).assign command help)

/-- The lines of all commands, as they are listed for the path `/`. -/
def helpText (s : Inspector) : List UInt8 :=
  s.helps_.flatMap fun (module, list) => list.flatMap fun (command, help) =>
    ascii "/" ++ module ++ ascii "/" ++ command ++ ascii "\t" ++ help ++ ascii "\n"

/-- `200 OK` with a text. -/
def answer (resp : HttpResponse) (body : List UInt8) : HttpResponse :=
  (((resp.setStatusCode .k200Ok).setStatusMessage (ascii "OK")).setContentType
    (ascii "text/plain")).setBody body

/-- The answer to a path that names no command. -/
def notFound (resp : HttpResponse) : HttpResponse :=
  (resp.setStatusCode .k404NotFound).setStatusMessage (ascii "Not Found")

/-- The callback of a command, if there is one that is not empty. -/
def callback (s : Inspector) (module command : List UInt8) : Callback :=
  (s.commands_.find module).bind fun commList => (commList.find command).join

/-- `onRequest(req, resp)`. -/
def onRequest (s : Inspector) (req : HttpRequest) (resp : HttpResponse) : Exec HttpResponse :=
  if req.path_ = [slash] then .ok (answer resp s.helpText)
  else do
    let result ← split (req.path_.length + 1) req.path_
    match result with
    | module :: command :: args =>
        match s.callback module command with
        | some cb => return answer resp (cb req.method_ args)
        | none => return notFound resp
    | _ => return notFound resp

theorem split_eq_pieces (str : List UInt8) : split (str.length + 1) str = .ok (pieces str) := by
  obtain ⟨spans, start, hsplit, hscanned, hlast⟩ := split_eq str (Nat.lt_succ_self _)
  rw [hsplit, (hscanned.finish hlast).2]

/-- The path of a list of names. -/
def pathOf (names : List (List UInt8)) : List UInt8 := names.flatMap (slash :: ·)

theorem pieces_pathOf {names : List (List UInt8)} (h : ∀ name ∈ names, name ≠ [] ∧ slash ∉ name) :
    pieces (pathOf names) = names := by
  have hcut : ∀ {names : List (List UInt8)} {name : List UInt8}, slash ∉ name →
      (∀ name ∈ names, name ≠ [] ∧ slash ∉ name) →
      (name ++ pathOf names).splitOn slash = name :: names := by
    intro names
    induction names with
    | nil =>
        intro name hfree _
        rw [pathOf, List.flatMap_nil, List.append_nil, List.splitOn_eq_singleton hfree]
    | cons next names ih =>
        intro name hfree hall
        obtain ⟨hnext, hrest⟩ := List.forall_mem_cons.mp hall
        rw [pathOf, List.flatMap_cons, List.cons_append,
          List.splitOn_append_cons_self_of_not_mem hfree]
        exact congrArg _ (ih hnext.2 hrest)
  have hnil := @hcut names [] List.not_mem_nil h
  rw [List.nil_append] at hnil
  rw [pieces, hnil, List.filter_cons_of_neg (by simp), List.filter_eq_self]
  intro name hname
  simp [(h name hname).1]

theorem callback_add (s : Inspector) (module command : List UInt8) (cb : Callback)
    (help : List UInt8) : (s.add module command cb help).callback module command = cb := by
  rw [callback, add, SortedMap.find_assign, if_pos rfl, Option.bind_some, SortedMap.find_assign,
    if_pos rfl, Option.join_some]

/-- A command that was added answers every path that names it, with the further names as its
arguments. -/
theorem onRequest_registered (s : Inspector) {module command : List UInt8}
    {args : List (List UInt8)} (cb : Method → List (List UInt8) → List UInt8) (help : List UInt8)
    (h : ∀ name ∈ module :: command :: args, name ≠ [] ∧ slash ∉ name)
    (req : HttpRequest) (hpath : req.path_ = pathOf (module :: command :: args))
    (resp : HttpResponse) :
    (s.add module command (some cb) help).onRequest req resp =
      .ok (answer resp (cb req.method_ args)) := by
  have hne : req.path_ ≠ [slash] := by
    rw [hpath]
    intro hroot
    have hlength := congrArg List.length hroot
    have hname := List.length_pos_of_ne_nil (h module List.mem_cons_self).1
    simp only [pathOf, List.flatMap_cons, List.length_append, List.length_cons,
      List.length_nil] at hlength
    omega
  rw [onRequest, if_neg hne, split_eq_pieces, hpath, pieces_pathOf h, ok_bind]
  simp only [callback_add]
  rfl

end Inspector

end Muduo.Net
