/-
  Http/HttpSoundness.lean --- what `parseRequest` accepts.

  `HeadText` is the grammar that the parser is written for: a request line, header
  lines, an empty line.  The parser does not look for the empty line, though: in the
  header state it takes the first line without a colon for the end of the head,
  whatever stands in it.  `accepted_iff_blank_line` says that this is the only way in
  which it accepts more than the grammar.
-/
import Muduo.Http.HttpGrammar

set_option autoImplicit false

namespace Muduo.Http

open Muduo.Foundation Muduo.Base Muduo.Net

/-! ## Lines -/

/-- Lines as bytes, each followed by its terminator. -/
def unlines (ls : List (List UInt8)) : List UInt8 := ls.flatMap fun l => l ++ Buffer.kCRLF

@[simp] theorem unlines_nil : unlines [] = [] := rfl

@[simp] theorem unlines_cons (l : List UInt8) (ls : List (List UInt8)) :
    unlines (l :: ls) = l ++ (Buffer.kCRLF ++ unlines ls) := by
  simp [unlines]

@[simp] theorem unlines_append (ls ms : List (List UInt8)) :
    unlines (ls ++ ms) = unlines ls ++ unlines ms := by
  simp [unlines]

/-- The complete lines of some bytes, without their terminators. -/
def lines (xs : List UInt8) : List (List UInt8) :=
  match h : search Buffer.kCRLF xs with
  | some i => xs.take i :: lines (xs.drop (i + 2))
  | none => []
termination_by xs.length
decreasing_by
  have := search_kCRLF_le h
  rw [List.length_drop]
  omega

theorem lines_of_search {xs : List UInt8} {i : Nat} (h : search Buffer.kCRLF xs = some i) :
    lines xs = xs.take i :: lines (xs.drop (i + 2)) := by
  rw [lines.eq_def]
  split
  · rename_i j hj
    obtain rfl : j = i := Option.some.inj (hj.symm.trans h)
    rfl
  · rename_i hnone
    exact absurd (hnone.symm.trans h) (by simp)

/-- The lines of some bytes are read back from them. -/
theorem lines_unlines {ls : List (List UInt8)} (h : ∀ l ∈ ls, NoCRLF l) (rest : List UInt8) :
    lines (unlines ls ++ rest) = ls ++ lines rest := by
  induction ls with
  | nil => rfl
  | cons l ls ih =>
      have hl : NoCRLF l := h l List.mem_cons_self
      have hbytes : unlines (l :: ls) ++ rest = l ++ (Buffer.kCRLF ++ (unlines ls ++ rest)) := by
        simp
      have hdrop : (l ++ (Buffer.kCRLF ++ (unlines ls ++ rest))).drop (l.length + 2) =
          unlines ls ++ rest := (step_line hl .new _).2
      rw [hbytes, lines_of_search (search_line hl _), List.take_left, hdrop,
        ih fun m hm => h m (List.mem_cons_of_mem _ hm), List.cons_append]

/-- The line at the front, as it was found. -/
theorem split_at_search {xs : List UInt8} {i : Nat} (h : search Buffer.kCRLF xs = some i) :
    xs = unlines [xs.take i] ++ xs.drop (i + 2) ∧ NoCRLF (xs.take i) := by
  constructor
  · obtain ⟨rest, hrest⟩ := search_occurs h
    have hdrop : xs.drop (i + 2) = rest := by
      rw [← List.drop_drop, ← hrest]
      rfl
    rw [hdrop, unlines_cons, unlines_nil, List.append_nil, List.append_assoc, hrest,
      List.take_append_drop]
  · rintro ⟨before, after, hpat⟩
    have hlen : before.length + 2 + after.length ≤ i := by
      have := congrArg List.length hpat
      simp only [List.length_append, List.length_take, Buffer.kCRLF, List.length_cons,
        List.length_nil] at this
      omega
    apply @search_first _ _ _ _ _ h before.length (by omega)
    refine ⟨after ++ xs.drop i, ?_⟩
    have hxs : xs = before ++ (Buffer.kCRLF ++ (after ++ xs.drop i)) := by
      rw [← List.append_assoc Buffer.kCRLF, ← List.append_assoc before, ← List.append_assoc before,
        hpat, List.take_append_drop]
    rw [hxs, List.drop_left]
    rw [← hxs]

/-! ## The grammar -/

/-- The head of a request: what stands on its request line, and its header lines. -/
structure HeadText where
  method : Method
  path : List UInt8
  version : Version
  headers : List (List UInt8)
  deriving DecidableEq, Repr

namespace HeadText

/-- The first line. -/
def requestLine (h : HeadText) : List UInt8 :=
  h.method.text ++ 32 :: (h.path ++ 32 :: h.version.text)

/-- The head as bytes: request line, header lines, and an empty line. -/
def bytes (h : HeadText) : List UInt8 := unlines (h.requestLine :: (h.headers ++ [[]]))

/-- What `parseRequest` accepts. -/
structure WellFormed (h : HeadText) : Prop where
  method : h.method ≠ .kInvalid
  space : 32 ∉ h.path
  version : h.version ≠ .kUnknown
  line : NoCRLF h.requestLine
  headers : ∀ l ∈ h.headers, NoCRLF l ∧ 58 ∈ l

end HeadText

/-- Some bytes are a request head of the grammar. -/
def IsHead (xs : List UInt8) : Prop := ∃ h : HeadText, h.WellFormed ∧ xs = h.bytes

theorem noCRLF_nil : NoCRLF [] := noCRLF_of_not_mem (by simp)

/-- The header block of an input as the parser sees it: the first line behind the
request line that has no colon. -/
def endOfHead (xs : List UInt8) : Option (List UInt8) :=
  (lines xs).tail.find? fun l => decide (58 ∉ l)

/-- The lines of some bytes decide where their head ends. -/
theorem endOfHead_of_lines {line last : List UInt8} {headers : List (List UInt8)}
    (hline : NoCRLF line) (hheaders : ∀ l ∈ headers, NoCRLF l ∧ 58 ∈ l) (hlast : NoCRLF last)
    (hcolon : 58 ∉ last) (rest : List UInt8) :
    endOfHead (unlines (line :: (headers ++ [last])) ++ rest) = some last := by
  have hall : ∀ l ∈ line :: (headers ++ [last]), NoCRLF l := by
    intro l hl
    simp only [List.mem_cons, List.mem_append, List.not_mem_nil, or_false] at hl
    rcases hl with rfl | hl | rfl
    · exact hline
    · exact (hheaders l hl).1
    · exact hlast
  have hnone : headers.find? (fun l => decide (58 ∉ l)) = none := by
    rw [List.find?_eq_none]
    intro l hl
    simp [(hheaders l hl).2]
  rw [endOfHead, lines_unlines hall, List.cons_append, List.tail_cons, List.append_assoc,
    List.find?_append, hnone, Option.none_or, List.singleton_append,
    List.find?_cons_of_pos (by simpa using hcolon)]

/-! ## What was read -/

theorem Method.eq_text {m : List UInt8} (h : Method.ofString m ≠ .kInvalid) :
    m = (Method.ofString m).text := by
  unfold Method.ofString at h ⊢
  split
  · assumption
  split
  · assumption
  split
  · assumption
  split
  · assumption
  split
  · assumption
  rename_i hget hpost hhead hput hdelete
  simp [hget, hpost, hhead, hput, hdelete] at h

/-- A version that is accepted is one of the two. -/
theorem processVersion_sound {request request' : HttpRequest} {version : List UInt8}
    (h : processVersion request version = (true, request')) :
    ∃ v : Version, v ≠ .kUnknown ∧ version = v.text := by
  unfold processVersion at h
  split at h
  · rename_i hform
    obtain ⟨hlen, htake⟩ := hform
    have hsplit : version = ascii "HTTP/1." ++ version.drop 7 := by
      rw [← htake, List.take_append_drop]
    have hlast : ∀ c, version[7]? = some c → version = ascii "HTTP/1." ++ [c] := by
      intro c hc
      obtain ⟨hlt, hc⟩ := List.getElem?_eq_some_iff.mp hc
      have hdrop := List.drop_eq_getElem_cons hlt
      have hnil : version.drop (7 + 1) = [] := List.drop_eq_nil_of_le (by omega)
      rw [hc, hnil] at hdrop
      rw [← hdrop]
      exact hsplit
    split at h
    · rename_i hone
      exact ⟨.kHttp11, by simp, hlast 49 hone⟩
    · split at h
      · rename_i hzero
        exact ⟨.kHttp10, by simp, hlast 48 hzero⟩
      · simp at h
  · simp at h

/-- Cut a list at the first occurrence of an element. -/
theorem split_at_idxOf {c : UInt8} {xs : List UInt8} (h : xs.idxOf c ≠ xs.length) :
    xs = xs.take (xs.idxOf c) ++ c :: xs.drop (xs.idxOf c + 1) ∧ c ∉ xs.take (xs.idxOf c) := by
  have hlt : xs.idxOf c < xs.length := lt_of_le_of_ne List.idxOf_le_length h
  constructor
  · have hdrop := List.drop_eq_getElem_cons hlt
    rw [List.getElem_idxOf hlt] at hdrop
    rw [← hdrop, List.take_append_drop]
  · intro hmem
    have hin : c ∈ xs := List.mem_of_mem_take hmem
    exact absurd ((List.mem_take_iff_idxOf_lt hin).mp hmem) (lt_irrefl _)

/-- A request line that is accepted has the form of the grammar. -/
theorem requestLine_sound {line : List UInt8} {context context' : HttpContext}
    (h : requestLine line context = (true, context')) (headers : List (List UInt8)) :
    ∃ head : HeadText, head.method ≠ .kInvalid ∧ 32 ∉ head.path ∧ head.version ≠ .kUnknown ∧
      line = head.requestLine ∧ head.headers = headers := by
  unfold requestLine at h
  by_cases hspace : line.idxOf 32 ≠ line.length
  · obtain ⟨hline, _⟩ := split_at_idxOf hspace
    simp only [if_pos hspace, HttpRequest.assignMethod] at h
    generalize line.take (line.idxOf 32) = name at h hline
    generalize line.drop (line.idxOf 32 + 1) = rest at h hline
    by_cases hmethod : Method.ofString name = .kInvalid
    · simp [hmethod] at h
    simp only [bne_iff_ne.mpr hmethod, if_true] at h
    have hpath := congrArg Prod.fst h
    simp only [processPath] at hpath
    by_cases hsecond : rest.idxOf 32 ≠ rest.length
    · rw [if_pos hsecond] at hpath
      obtain ⟨hsplit, hnot⟩ := split_at_idxOf hsecond
      obtain ⟨v, hv, hversion⟩ := processVersion_sound (Prod.ext hpath rfl)
      refine ⟨⟨Method.ofString name, rest.take (rest.idxOf 32), v, headers⟩, hmethod, hnot, hv,
        ?_, rfl⟩
      rw [HeadText.requestLine, ← Method.eq_text hmethod, ← hversion, ← hsplit]
      exact hline
    · simp [hsecond] at hpath
  · simp [hspace] at h

/-- The header state takes lines with a colon, and one without. -/
theorem drains_headers_sound {context : HttpContext} {xs : List UInt8}
    {p : Progress HttpContext UInt8} (hdrain : requestDecoder.Drains context xs p)
    (hstate : context.state_ = .kExpectHeaders) (hgot : p.state.gotAll = true) :
    ∃ headers last, (∀ l ∈ headers, NoCRLF l ∧ 58 ∈ l) ∧ NoCRLF last ∧ 58 ∉ last ∧
      xs = unlines (headers ++ [last]) ++ p.rest := by
  induction hdrain with
  | wait h => simp [HttpContext.gotAll, hstate] at hgot
  | @next context context' xs n p h _ ih =>
      obtain ⟨i, hsearch, rfl, ⟨hline, _⟩ | ⟨_, hcolon, rfl⟩⟩ := lineAt_eq_next h
      · exact absurd (hline.symm.trans hstate) (by simp)
      · obtain ⟨headers, last, hheaders, hlast, hnone, hrest⟩ := ih hstate hgot
        obtain ⟨hsplit, hno⟩ := split_at_search hsearch
        refine ⟨xs.take i :: headers, last, ?_, hlast, hnone, ?_⟩
        · intro l hl
          rcases List.mem_cons.mp hl with rfl | hl
          · exact ⟨hno, hcolon⟩
          · exact hheaders l hl
        · rw [hrest] at hsplit
          rw [List.cons_append, unlines_cons]
          simpa using hsplit
  | @stop context context' xs n h =>
      obtain ⟨i, hsearch, ⟨hline, _⟩ | ⟨_, rfl, hcolon, rfl⟩⟩ := lineAt_eq_stop h
      · exact absurd (hline.symm.trans hstate) (by simp)
      · obtain ⟨hsplit, hno⟩ := split_at_search hsearch
        exact ⟨[], xs.take i, by simp, hno, hcolon, hsplit⟩

/-- A complete head is a request line of the grammar, header lines with a colon, and
one line without. -/
theorem drains_sound {context : HttpContext} {xs : List UInt8} {p : Progress HttpContext UInt8}
    (hdrain : requestDecoder.Drains context xs p) (hstate : context.state_ = .kExpectRequestLine)
    (hgot : p.state.gotAll = true) :
    ∃ (head : HeadText) (last : List UInt8), head.WellFormed ∧ NoCRLF last ∧ 58 ∉ last ∧
      xs = unlines (head.requestLine :: (head.headers ++ [last])) ++ p.rest := by
  cases hdrain with
  | wait h => simp [HttpContext.gotAll, hstate] at hgot
  | @next _ context' _ n _ h hdrain =>
      obtain ⟨i, hsearch, rfl, ⟨_, c, hline, rfl⟩ | ⟨hheaders, _⟩⟩ := lineAt_eq_next h
      · obtain ⟨headers, last, hheaders, hlast, hcolon, hrest⟩ :=
          drains_headers_sound hdrain rfl hgot
        obtain ⟨hsplit, hno⟩ := split_at_search hsearch
        obtain ⟨head, hmethod, hspace, hversion, hhead, rfl⟩ := requestLine_sound hline headers
        refine ⟨head, last, ⟨hmethod, hspace, hversion, hhead ▸ hno, hheaders⟩, hlast, hcolon, ?_⟩
        rw [hrest, hhead] at hsplit
        simpa using hsplit
      · exact absurd (hheaders.symm.trans hstate) (by simp)
  | @stop _ context' _ n h =>
      obtain ⟨i, _, ⟨_, rfl, hline⟩ | ⟨hheaders, _⟩⟩ := lineAt_eq_stop h
      · -- a bad request line leaves the parser where it was
        have hkeep : context'.state_ = .kExpectRequestLine := by
          have hline' := requestLine_state (xs.take i) context
          rw [hline] at hline'
          exact hline'.trans hstate
        simp [HttpContext.gotAll, hkeep] at hgot
      · exact absurd (hheaders.symm.trans hstate) (by simp)

/-! ## The consumed bytes -/

/-- Parse a byte string from a fresh context. -/
def parseInput (assertions : Bool) (input : List UInt8) (receiveTime : Timestamp) :
    Exec (Bool × Buffer × HttpContext) := do
  let buf ← Buffer.new.append input
  parseRequest assertions buf .new receiveTime

theorem parseInput_spec (assertions : Bool) (input : List UInt8) (receiveTime : Timestamp) :
    ∃ r p, parseInput assertions input receiveTime = .ok r ∧
      requestDecoder.Drains HttpContext.new input p ∧ Parsed assertions r p := by
  obtain ⟨buf, hbuf, hinv, hcontents, _⟩ := Buffer.append_spec Buffer.new_spec.1 input
  rw [Buffer.new_spec.2.1, List.nil_append] at hcontents
  obtain ⟨p, hdrain⟩ := requestDecoder.exists_drains HttpContext.new input
  have hdrain' := hdrain
  rw [← hcontents] at hdrain'
  obtain ⟨r, hr, hparsed⟩ := @parseRequest_spec assertions receiveTime buf HttpContext.new hinv
    (.inl ⟨rfl, fun _ => rfl⟩) p hdrain'
  exact ⟨r, p, by rw [parseInput, hbuf, ok_bind, hr], hdrain, hparsed⟩

/-- What was consumed is a head of the grammar exactly if the line that ended it was
empty. -/
theorem isHead_iff_of_parseInput {assertions : Bool} {input : List UInt8} {receiveTime : Timestamp}
    {r : Bool × Buffer × HttpContext} (hparse : parseInput assertions input receiveTime = .ok r)
    (hgot : r.2.2.gotAll = true) :
    ∃ consumed, input = consumed ++ r.2.1.contents ∧
      (IsHead consumed ↔ endOfHead input = some []) := by
  obtain ⟨r', p, hr', hdrain, hparsed⟩ := parseInput_spec assertions input receiveTime
  obtain rfl : r = r' := Except.ok.inj (hparse.symm.trans hr')
  have hgot' : p.state.gotAll = true := by
    rw [← hparsed.context]
    exact hgot
  obtain ⟨head, last, hwf, hlast, hcolon, hbytes⟩ := drains_sound hdrain rfl hgot'
  have hend : endOfHead input = some last := by
    rw [hbytes]
    exact endOfHead_of_lines hwf.line hwf.headers hlast hcolon _
  rw [← hparsed.contents] at hbytes
  refine ⟨_, hbytes, ?_⟩
  constructor
  · rintro ⟨head', hwf', hbytes'⟩
    rw [hbytes, hbytes', HeadText.bytes]
    exact endOfHead_of_lines hwf'.line hwf'.headers noCRLF_nil (by simp) _
  · intro hempty
    obtain rfl : last = [] := Option.some.inj (hend.symm.trans hempty)
    exact ⟨head, hwf, rfl⟩

/-- For every byte string: when `parseRequest` brings a fresh context to `kGotAll`,
the bytes that it consumed are a request head of the grammar if and only if the first
line behind the request line that contains no colon is the empty line. -/
theorem accepted_iff_blank_line (assertions : Bool) (input : List UInt8) (receiveTime : Timestamp) :
    ∃ r, parseInput assertions input receiveTime = .ok r ∧
      (r.2.2.gotAll = true → ∃ consumed, input = consumed ++ r.2.1.contents ∧
        (IsHead consumed ↔ endOfHead input = some [])) := by
  obtain ⟨r, _, hr, _⟩ := parseInput_spec assertions input receiveTime
  exact ⟨r, hr, fun hgot => isHead_iff_of_parseInput hr hgot⟩

/-- A test of the context after `parseInput`. -/
def parsesTo (input : List UInt8) (p : HttpContext → Bool) : Bool :=
  match parseInput true input ⟨1⟩ with
  | .ok r => p r.2.2
  | .error _ => false

theorem exists_of_parsesTo {input : List UInt8} {p : HttpContext → Bool}
    (h : parsesTo input p = true) :
    ∃ r, parseInput true input ⟨1⟩ = .ok r ∧ p r.2.2 = true := by
  unfold parsesTo at h
  split at h
  · rename_i r hr
    exact ⟨r, hr, h⟩
  · exact absurd h (by simp)

theorem accepted_iff_blank_line_oneHeader :
    ∃ r, parseInput true (ascii "GET / HTTP/1.1\r\nHost: a\r\n\r\n") ⟨1⟩ = .ok r ∧
      r.2.2.gotAll = true ∧
      ∃ consumed, ascii "GET / HTTP/1.1\r\nHost: a\r\n\r\n" = consumed ++ r.2.1.contents ∧
        (IsHead consumed ↔ endOfHead (ascii "GET / HTTP/1.1\r\nHost: a\r\n\r\n") = some []) := by
  obtain ⟨r, hr, hhead⟩ :=
    accepted_iff_blank_line true (ascii "GET / HTTP/1.1\r\nHost: a\r\n\r\n") ⟨1⟩
  obtain ⟨r', hr', hgot⟩ := @exists_of_parsesTo (ascii "GET / HTTP/1.1\r\nHost: a\r\n\r\n")
    (fun c => c.gotAll) (by decide +kernel)
  obtain rfl : r' = r := Except.ok.inj (hr'.symm.trans hr)
  exact ⟨r', hr', hgot, hhead hgot⟩

/-- A head that ends with the line `foo`. -/
def headWithoutBlankLine : List UInt8 := ascii "GET / HTTP/1.1\r\nfoo\r\n"

/-- The parser accepts it, and what it consumed is no head of the grammar. -/
theorem accepts_head_without_blank_line :
    ∃ r, parseInput true headWithoutBlankLine ⟨1⟩ = .ok r ∧ r.2.2.gotAll = true ∧
      ∀ consumed, headWithoutBlankLine = consumed ++ r.2.1.contents → ¬ IsHead consumed := by
  obtain ⟨r, hr, hgot⟩ := @exists_of_parsesTo headWithoutBlankLine (fun c => c.gotAll)
    (by decide +kernel)
  refine ⟨r, hr, hgot, ?_⟩
  intro consumed hconsumed hhead
  obtain ⟨consumed', hconsumed', hiff⟩ := isHead_iff_of_parseInput hr hgot
  obtain rfl : consumed = consumed' :=
    List.append_cancel_right (hconsumed.symm.trans hconsumed')
  have hend : endOfHead headWithoutBlankLine = some (ascii "foo") := by
    have hbytes : headWithoutBlankLine =
        unlines (ascii "GET / HTTP/1.1" :: ([] ++ [ascii "foo"])) ++ [] := by decide
    rw [hbytes]
    exact endOfHead_of_lines (noCRLF_of_not_mem (by decide)) (by simp)
      (noCRLF_of_not_mem (by decide)) (by decide) _
  rw [hiff.mp hhead] at hend
  exact absurd hend (by decide)

end Muduo.Http
