/-
  Http/HttpPipeline.lean --- several requests on one connection.

  `onMessage` dispatches at most one request each time it is called, whatever the
  buffer holds.  Requests that arrive together therefore wait for further reads, and
  the last ones are answered only if enough reads follow
  (`pipelined_requests_dispatched_iff`); two requests in one read are the smallest
  case in which one is left over (`second_request_not_dispatched`).
-/
import Mathlib.Algebra.GroupWithZero.Nat
import Muduo.Http.HttpGrammar
import Muduo.Http.HttpServer

set_option autoImplicit false

namespace Muduo.Http

open Muduo.Foundation Muduo.Base Muduo.Net

/-! ## Counting reads

Requests are known by their sizes and reads by how many bytes they bring; `pending`
bytes have been received and belong to requests that are still to come. -/

/-- How many requests are dispatched, if every read dispatches one complete request
at most. -/
def served : List Nat → Nat → List Nat → Nat
  | [], _, _ => 0
  | _ :: _, _, [] => 0
  | size :: sizes, pending, read :: reads =>
      if size ≤ pending + read then served sizes (pending + read - size) reads + 1
      else served (size :: sizes) (pending + read) reads

/-- How many of the reads end at or behind byte `n`. -/
def readsCovering (n : Nat) : Nat → List Nat → Nat
  | _, [] => 0
  | pending, read :: reads =>
      (if n ≤ pending + read then 1 else 0) + readsCovering n (pending + read) reads

/-- From the read that completes a request on there is a read for it and for every
request behind it. -/
def EnoughReads (sizes : List Nat) (pending : Nat) (reads : List Nat) : Prop :=
  ∀ k < sizes.length, sizes.length - k ≤ readsCovering (sizes.take (k + 1)).sum pending reads

theorem readsCovering_le (n pending : Nat) (reads : List Nat) :
    readsCovering n pending reads ≤ reads.length := by
  induction reads generalizing pending with
  | nil => exact Nat.le_refl 0
  | cons read reads ih =>
      have htail := ih (pending + read)
      simp only [readsCovering, List.length_cons]
      split <;> omega

/-- Bytes that are there already are covered by every read. -/
theorem readsCovering_of_le {n pending : Nat} (h : n ≤ pending) (reads : List Nat) :
    readsCovering n pending reads = reads.length := by
  induction reads generalizing pending with
  | nil => rfl
  | cons read reads ih =>
      have hle : n ≤ pending + read := by omega
      simp only [readsCovering, if_pos hle, ih hle, List.length_cons]
      omega

/-- Bytes that have been consumed need not be counted. -/
theorem readsCovering_sub {size pending : Nat} (h : size ≤ pending) (n : Nat) (reads : List Nat) :
    readsCovering (size + n) pending reads = readsCovering n (pending - size) reads := by
  induction reads generalizing pending with
  | nil => rfl
  | cons read reads ih =>
      have hiff : size + n ≤ pending + read ↔ n ≤ pending - size + read := by omega
      have htail : pending + read - size = pending - size + read := by omega
      simp only [readsCovering, ih (show size ≤ pending + read by omega), hiff, htail]

/-- A read that completes the first request leaves enough reads for the others
exactly if there were enough for all. -/
theorem enoughReads_cons_of_le {size : Nat} {sizes : List Nat} {pending read : Nat}
    {reads : List Nat} (h : size ≤ pending + read) :
    EnoughReads (size :: sizes) pending (read :: reads) ↔
      EnoughReads sizes (pending + read - size) reads := by
  -- this read and all that follow cover the first request
  have hfirst : readsCovering ((size :: sizes).take (0 + 1)).sum pending (read :: reads) =
      1 + reads.length := by
    have hsum : ((size :: sizes).take (0 + 1)).sum = size := by simp
    rw [hsum, readsCovering, if_pos h, readsCovering_of_le h]
  have hothers : ∀ k, readsCovering ((size :: sizes).take (k + 1 + 1)).sum pending (read :: reads) =
      (if size + (sizes.take (k + 1)).sum ≤ pending + read then 1 else 0) +
        readsCovering (sizes.take (k + 1)).sum (pending + read - size) reads := by
    intro k
    rw [List.take_succ_cons, List.sum_cons, readsCovering, readsCovering_sub h]
  constructor
  · intro henough k hk
    have hall := henough 0 (by simp)
    have hnext := henough (k + 1) (by simpa using hk)
    rw [hfirst, List.length_cons] at hall
    rw [hothers, List.length_cons] at hnext
    by_cases hcovered : size + (sizes.take (k + 1)).sum ≤ pending + read
    · rw [readsCovering_of_le (by omega)]
      omega
    · rw [if_neg hcovered] at hnext
      omega
  · intro henough k hk
    cases k with
    | zero =>
        rw [hfirst, List.length_cons]
        rcases Nat.eq_zero_or_pos sizes.length with hnone | hsome
        · omega
        · have hnext := henough 0 hsome
          have hle := readsCovering_le (sizes.take (0 + 1)).sum (pending + read - size) reads
          omega
    | succ k =>
        have hrest := henough k (by simpa using hk)
        rw [hothers, List.length_cons]
        omega

/-- A read that does not complete the first request completes none. -/
theorem enoughReads_cons_of_lt {size : Nat} {sizes : List Nat} {pending read : Nat}
    {reads : List Nat} (h : pending + read < size) :
    EnoughReads (size :: sizes) pending (read :: reads) ↔
      EnoughReads (size :: sizes) (pending + read) reads := by
  refine forall_congr' fun k => forall_congr' fun _ => ?_
  have hnot : ¬ ((size :: sizes).take (k + 1)).sum ≤ pending + read := by
    rw [List.take_succ_cons, List.sum_cons]
    omega
  rw [readsCovering, if_neg hnot, Nat.zero_add]

theorem served_eq_length_iff (sizes : List Nat) (pending : Nat) (reads : List Nat) :
    served sizes pending reads = sizes.length ↔ EnoughReads sizes pending reads := by
  induction reads generalizing sizes pending with
  | nil =>
      cases sizes with
      | nil => simp [served, EnoughReads]
      | cons size sizes =>
          simp only [served, List.length_cons]
          constructor
          · intro h
            omega
          · intro h
            have := h 0 (by simp)
            simp [readsCovering] at this
  | cons read reads ih =>
      cases sizes with
      | nil => simp [served, EnoughReads]
      | cons size sizes =>
          by_cases hle : size ≤ pending + read
          · rw [enoughReads_cons_of_le hle, ← ih, served, if_pos hle, List.length_cons]
            omega
          · rw [enoughReads_cons_of_lt (Nat.not_le.mp hle), ← ih, served, if_neg hle]

theorem served_le (sizes : List Nat) (pending : Nat) (reads : List Nat) :
    served sizes pending reads ≤ sizes.length := by
  induction reads generalizing sizes pending with
  | nil => cases sizes <;> simp [served]
  | cons read reads ih =>
      cases sizes with
      | nil => simp [served]
      | cons size sizes =>
          have hdispatched := ih sizes (pending + read - size)
          have hwaiting := ih (size :: sizes) (pending + read)
          simp only [served, List.length_cons] at hwaiting ⊢
          split <;> omega

/-! ## A connection that is sent requests -/

namespace HttpServer

/-- The connection has received `xs` since the last dispatched request, which left
version `v` behind. -/
structure Serving (assertions : Bool) (s : HttpConnection) (v : Version) (xs : List UInt8) :
    Prop where
  buffer : s.inputBuffer_.Inv
  ready : s.context.Ready assertions
  resumes : ∀ more q,
    requestDecoder.Drains s.context.timeless (s.inputBuffer_.contents ++ more) q →
      requestDecoder.Drains (.fresh v) (xs ++ more) q

theorem serving_new (assertions : Bool) : Serving assertions .new .kUnknown [] := by
  refine ⟨Buffer.new_spec.1, .inl ⟨rfl, fun _ => rfl⟩, ?_⟩
  intro more q hq
  have hempty : HttpConnection.new.inputBuffer_.contents = [] := Buffer.new_spec.2.1
  rw [hempty] at hq
  exact hq

section Chunks

variable {assertions : Bool} (server : HttpServer) {s : HttpConnection} {v : Version}
  {xs : List UInt8}

/-- A chunk that completes the next request: it is dispatched, and what follows it
stays in the buffer. -/
theorem receive_of_complete (hs : Serving assertions s v xs) {chunk : List UInt8 × Timestamp}
    {r : RequestText} (hr : r.WellFormed) {rest : List UInt8}
    (hbytes : xs ++ chunk.1 = r.bytes ++ rest) :
    ∃ s', server.receive assertions s chunk = .ok s' ∧
      s'.dispatched = s.dispatched ++ [r.request] ∧ Serving assertions s' r.version rest := by
  obtain ⟨q, hq⟩ := requestDecoder.exists_drains s.context.timeless
    (s.inputBuffer_.contents ++ chunk.1)
  have hfresh := hs.resumes chunk.1 q hq
  rw [hbytes] at hfresh
  obtain rfl := hfresh.unique (drains_bytes hr v rest)
  obtain ⟨s', hs', hinv, hcontents, _, hdone, _⟩ := receive_spec server hs.buffer hs.ready chunk hq
  obtain ⟨hcontext, hdispatched, _⟩ := hdone rfl rfl
  have hreset : s'.context = .fresh r.version := hcontext
  refine ⟨s', hs', hdispatched, hinv, ?_, ?_⟩
  · rw [hreset]
    exact .inl ⟨rfl, fun _ => rfl⟩
  · intro more q hq
    rw [hreset, hcontents] at hq
    exact hq

/-- Any other chunk only adds to what has been received. -/
theorem receive_of_incomplete (hs : Serving assertions s v xs) {chunk : List UInt8 × Timestamp}
    (hwait : ∀ q, requestDecoder.Drains (.fresh v) (xs ++ chunk.1) q → q.stopped = false) :
    ∃ s', server.receive assertions s chunk = .ok s' ∧ s'.dispatched = s.dispatched ∧
      Serving assertions s' v (xs ++ chunk.1) := by
  obtain ⟨q, hq⟩ := requestDecoder.exists_drains s.context.timeless
    (s.inputBuffer_.contents ++ chunk.1)
  have hfresh := hs.resumes chunk.1 q hq
  have hstopped := hwait q hfresh
  obtain ⟨s', hs', hinv, hcontents, hwaiting, _⟩ :=
    receive_spec server hs.buffer hs.ready chunk hq
  obtain ⟨hcontext, hready, hdispatched, _⟩ := hwaiting hstopped
  refine ⟨s', hs', hdispatched, hinv, hready, ?_⟩
  intro more q' hq'
  rw [hcontext, hcontents] at hq'
  exact (hfresh.append more).2 hstopped q' hq'

end Chunks

/-- The bytes of some requests. -/
def stream (requests : List RequestText) : List UInt8 := requests.flatMap RequestText.bytes

/-- The requests dispatched on a connection that receives the bytes of some
requests. -/
theorem run_dispatches {assertions : Bool} (server : HttpServer) {requests : List RequestText}
    (hwf : ∀ r ∈ requests, r.WellFormed) {chunks : List (List UInt8 × Timestamp)}
    {s : HttpConnection} {v : Version} {xs : List UInt8} (hs : Serving assertions s v xs)
    (hbytes : xs ++ (chunks.map Prod.fst).flatten = stream requests) :
    ∃ s', (server.machine assertions).run s chunks = .ok s' ∧
      s'.dispatched = s.dispatched ++ (requests.map RequestText.request).take
        (served (requests.map fun r => r.bytes.length) xs.length
          (chunks.map fun c => c.1.length)) := by
  induction chunks generalizing requests s v xs with
  | nil =>
      refine ⟨s, rfl, ?_⟩
      cases requests <;> simp [served]
  | cons chunk chunks ih =>
      have hstream : (xs ++ chunk.1) ++ (chunks.map Prod.fst).flatten = stream requests := by
        simpa using hbytes
      cases requests with
      | nil =>
          have hnil : xs ++ chunk.1 = [] := (List.append_eq_nil_iff.mp hstream).1
          obtain ⟨s', hs', hdispatched, hserving⟩ := receive_of_incomplete server hs
            (fun q hq => by rw [hnil] at hq; rw [hq.unique (.wait rfl)])
          obtain ⟨s'', hrun, hall⟩ := ih hwf hserving hstream
          refine ⟨s'', Machine.run_cons_of_step hs' hrun, ?_⟩
          simpa [served, hdispatched] using hall
      | cons r requests =>
          have hr := hwf r List.mem_cons_self
          have hcons : stream (r :: requests) = r.bytes ++ stream requests := List.flatMap_cons
          rw [hcons] at hstream
          by_cases hle : r.bytes.length ≤ xs.length + chunk.1.length
          · obtain ⟨rest, hrest⟩ : r.bytes <+: xs ++ chunk.1 := by
              refine List.prefix_of_prefix_length_le (List.prefix_append _ _) ⟨_, hstream⟩ ?_
              rwa [List.length_append]
            obtain ⟨s', hs', hdispatched, hserving⟩ := receive_of_complete server hs hr hrest.symm
            have htail : rest ++ (chunks.map Prod.fst).flatten = stream requests := by
              rw [← hrest, List.append_assoc] at hstream
              exact List.append_cancel_left hstream
            have hlength : rest.length = xs.length + chunk.1.length - r.bytes.length := by
              have := congrArg List.length hrest
              simp only [List.length_append] at this
              omega
            obtain ⟨s'', hrun, hall⟩ :=
              ih (fun r' hr' => hwf r' (List.mem_cons_of_mem _ hr')) hserving htail
            refine ⟨s'', Machine.run_cons_of_step hs' hrun, ?_⟩
            rw [hall, hdispatched, hlength]
            simp [served, if_pos hle]
          · have hlt : (xs ++ chunk.1).length < r.bytes.length := by
              rw [List.length_append]
              omega
            obtain ⟨s', hs', hdispatched, hserving⟩ := receive_of_incomplete server hs
              (fun q hq => (drains_bytes hr v (stream requests)).waiting_of_incomplete
              ⟨_, hstream⟩ hlt hq)
            obtain ⟨s'', hrun, hall⟩ := ih hwf hserving (hcons ▸ hstream)
            refine ⟨s'', Machine.run_cons_of_step hs' hrun, ?_⟩
            rw [hall, hdispatched, List.length_append]
            simp only [List.map_cons, served, if_neg hle]

/-- Well-formed requests without bodies, their bytes cut into chunks in any way: all
of them are dispatched, in order, if and only if for every request at least as many
chunks end at or behind its last byte as requests remain from it on. -/
theorem pipelined_requests_dispatched_iff (assertions : Bool) (server : HttpServer)
    {requests : List RequestText} (hwf : ∀ r ∈ requests, r.WellFormed)
    {chunks : List (List UInt8 × Timestamp)}
    (hchunks : (chunks.map Prod.fst).flatten = requests.flatMap RequestText.bytes) :
    ∃ s, (server.machine assertions).run .new chunks = .ok s ∧
      (s.dispatched = requests.map RequestText.request ↔
        EnoughReads (requests.map fun r => r.bytes.length) 0 (chunks.map fun c => c.1.length)) := by
  obtain ⟨s, hrun, hdispatched⟩ := run_dispatches server hwf (serving_new assertions) hchunks
  have hle := served_le (requests.map fun r => r.bytes.length) 0 (chunks.map fun c => c.1.length)
  refine ⟨s, hrun, ?_⟩
  rw [← served_eq_length_iff, hdispatched]
  constructor
  · intro h
    have hlength := congrArg List.length h
    simp only [HttpConnection.dispatched, HttpConnection.new, List.filterMap_nil, List.nil_append,
      List.length_take, List.length_map, List.length_nil] at hlength hle ⊢
    omega
  · intro h
    rw [List.length_nil, h, List.take_of_length_le (by simp)]
    rfl

/-- `GET / HTTP/1.1`, without headers. -/
def sampleRequest : RequestText := ⟨.kGet, ascii "/", .kHttp11, []⟩

theorem sampleRequest_wellFormed : sampleRequest.WellFormed :=
  ⟨by decide, by decide, noCRLF_of_not_mem (by decide), by decide,
    fun _ h => absurd h List.not_mem_nil⟩

/-- A server that answers every request and keeps the connection. -/
def sampleServer : HttpServer where
  httpCallback_ _ resp := (resp.setStatusCode .k200Ok).setStatusMessage (ascii "OK")

theorem pipelined_requests_dispatched_iff_twoReads :
    ∃ s, (machine true sampleServer).run .new
        [(sampleRequest.bytes, ⟨1⟩), (sampleRequest.bytes, ⟨2⟩)] = .ok s ∧
      (s.dispatched = [sampleRequest, sampleRequest].map RequestText.request ↔
        EnoughReads ([sampleRequest, sampleRequest].map fun r => r.bytes.length) 0
          ([(sampleRequest.bytes, (⟨1⟩ : Timestamp)), (sampleRequest.bytes, ⟨2⟩)].map
            fun c => c.1.length)) := by
  refine pipelined_requests_dispatched_iff true sampleServer ?_ rfl
  intro r hr
  obtain rfl : r = sampleRequest := by simpa using hr
  exact sampleRequest_wellFormed

/-- Two keep-alive requests that arrive in one read: only the first is dispatched. -/
theorem second_request_not_dispatched :
    sampleRequest.WellFormed ∧ sampleRequest.version = .kHttp11 ∧
      sampleRequest.request.getHeader (ascii "Connection") ≠ ascii "close" ∧
      ∃ s, (machine true sampleServer).run .new
          [(sampleRequest.bytes ++ sampleRequest.bytes, ⟨1⟩)] = .ok s ∧
        s.dispatched ≠ [sampleRequest.request, sampleRequest.request] := by
  obtain ⟨s, hrun, hs⟩ := (machine true sampleServer).exists_of_endsWith .new
    [(sampleRequest.bytes ++ sampleRequest.bytes, ⟨1⟩)]
    (fun s => s.dispatched = [sampleRequest.request]) (by decide +kernel)
  refine ⟨sampleRequest_wellFormed, rfl, by decide, s, hrun, ?_⟩
  simp only [decide_eq_true_eq] at hs
  rw [hs]
  simp

end HttpServer

end Muduo.Http
