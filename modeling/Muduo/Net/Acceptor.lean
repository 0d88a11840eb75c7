/-
  Net/Acceptor.lean --- `Acceptor::handleRead` and the descriptors of the process
  (src/muduo/net/Acceptor.h, Acceptor.cc, Socket.cc, `sockets::accept` of SocketsOps.cc).

  When the process has no descriptor left, `handleRead` gives up the one that it keeps in
  reserve, accepts the connection with it, closes that, and takes the reserve again.  These
  are four system calls, and other threads open and close descriptors between them: they may
  even get the number that `idleFd_` still has.

  Whatever they do, every open descriptor has one owner: the acceptor closes what it owns
  and nothing else, forgets none, and serves the connections in the order of the backlog
  (`descriptors_have_one_owner`).  If they leave it alone meanwhile, the connection is
  refused and the reserve is there again (`emfile_refuses_one`).
-/
import Mathlib.Data.List.Perm.Basic
import Mathlib.Data.List.Nodup
import Muduo.Foundation.Machine

set_option autoImplicit false

namespace Muduo.Net

open Muduo.Foundation

/-- What `sockets::accept` finds in `errno`. -/
inductive AcceptErrno where
  | EMFILE
  /-- `EAGAIN`, `ECONNABORTED`, `EINTR`, `EPROTO` or `EPERM` -/
  | transient
  /-- any other value -/
  | fatal
  deriving DecidableEq, Repr

/-- Where the loop thread is in `handleRead`. -/
inductive HandleRead where
  | outside
  /-- in front of `::close(idleFd_)`, the first one -/
  | givingUp
  /-- in front of `idleFd_ = ::accept(...)` -/
  | accepting
  /-- in front of `::close(idleFd_)`, the second one -/
  | refusing
  /-- in front of `idleFd_ = ::open("/dev/null", ...)` -/
  | reopening
  /-- the acceptor has been destroyed -/
  | gone
  deriving DecidableEq, Repr

/-- `class Acceptor`, with the descriptors of the process.  `idleFd_` is `none` for -1.
Connections are numbered; `served` are those that left the backlog, with the descriptor
that `newConnectionCallback_` got, or `none` if the connection was closed. -/
structure Acceptor where
  acceptSocket_ : Nat
  idleFd_ : Option Nat
  /-- whether `newConnectionCallback_` is set -/
  newConnectionCallback_ : Bool
  pc : HandleRead
  /-- the open descriptors of the process -/
  files : List Nat
  /-- those of them that belong to other code -/
  others : List Nat
  backlog : List Nat
  served : List (Nat × Option Nat)
  arrived : List Nat
  deriving DecidableEq, Repr

namespace Acceptor

/-- An acceptor that was just constructed, in a process with other descriptors. -/
def new (acceptSocket_ idleFd_ : Nat) (newConnectionCallback_ : Bool) (others : List Nat) :
    Acceptor :=
  ⟨acceptSocket_, some idleFd_, newConnectionCallback_, .outside,
    acceptSocket_ :: idleFd_ :: others,
    others, [], [], []⟩

/-- `::close(fd)`, whoever owns it; -1 is no descriptor. -/
def close (s : Acceptor) (fd : Option Nat) : Acceptor :=
  { s with files := fd.elim s.files s.files.erase }

/-- The first connection of the backlog has a descriptor. -/
def takeConnection (s : Acceptor) (fd : Nat) : Acceptor :=
  { s with files := fd :: s.files, backlog := s.backlog.tail }

/-- `handleRead`, up to the system calls for EMFILE. -/
def handleRead (s : Acceptor) : Except AcceptErrno Nat → Exec Acceptor
  | .ok connfd =>
      let s' := s.takeConnection connfd
      let conn := s.backlog.headD 0
      if s.newConnectionCallback_ then
        .ok { s' with served := s.served ++ [(conn, some connfd)], others := connfd :: s.others }
      else .ok ({ s' with served := s.served ++ [(conn, none)] }.close (some connfd))
  | .error .EMFILE => .ok { s with pc := .givingUp }
  | .error .transient => .ok s
  -- LOG_FATAL
  | .error .fatal => .error .assertion

/-- The next system call; `fd` is the descriptor that it returns, if it opens one. -/
def next (s : Acceptor) (fd : Option Nat) : Acceptor :=
  match s.pc with
  | .givingUp => { s.close s.idleFd_ with pc := .accepting }
  | .accepting =>
      match fd with
      | some connfd =>
          { s.takeConnection connfd with
            idleFd_ := some connfd
            served := s.served ++ [(s.backlog.headD 0, none)]
            pc := .refusing }
      | none => { s with idleFd_ := none, pc := .refusing }
  | .refusing => { s.close s.idleFd_ with pc := .reopening }
  | .reopening =>
      { s with idleFd_ := fd, files := fd.toList ++ s.files, pc := .outside }
  | .outside => s
  | .gone => s

/-- `~Acceptor()` and `~Socket()`. -/
def destroy (s : Acceptor) : Acceptor :=
  { (s.close s.idleFd_).close (some s.acceptSocket_) with pc := .gone }

/-- A step of the loop thread, of a client or of other code in the process. -/
inductive Action where
  /-- a client connects -/
  | connect (conn : Nat)
  | handleRead (result : Except AcceptErrno Nat)
  | next (fd : Option Nat)
  | destroy
  /-- other code opens a descriptor, or closes one of its own -/
  | openOther (fd : Nat)
  | closeOther (fd : Nat)

/-- What a step does. -/
def step (s : Acceptor) : Action → Exec Acceptor
  | .connect conn => .ok { s with backlog := s.backlog ++ [conn], arrived := s.arrived ++ [conn] }
  | .handleRead result => s.handleRead result
  | .next fd => .ok (s.next fd)
  | .destroy => .ok s.destroy
  | .openOther fd => .ok { s with files := fd :: s.files, others := fd :: s.others }
  | .closeOther fd => .ok { s with files := s.files.erase fd, others := s.others.erase fd }

/-- The kernel can open a descriptor with that number. -/
def Free (limit : Nat) (s : Acceptor) (fd : Nat) : Prop :=
  fd ∉ s.files ∧ s.files.length < limit

/-- What `sockets::accept` returns: it only fails for want of a descriptor when there is
none, and with no fatal error. -/
def Answers (limit : Nat) (s : Acceptor) : Except AcceptErrno Nat → Prop
  | .ok connfd => s.backlog ≠ [] ∧ s.Free limit connfd
  | .error .EMFILE => limit ≤ s.files.length
  | .error .transient => True
  | .error .fatal => False

/-- What the system call at a place of `handleRead` returns. -/
def Returns (limit : Nat) (s : Acceptor) : HandleRead → Option Nat → Prop
  | .accepting, some connfd => s.backlog ≠ [] ∧ s.Free limit connfd
  | .accepting, none => s.backlog = [] ∨ limit ≤ s.files.length
  | .reopening, some fd => s.Free limit fd
  | .reopening, none => limit ≤ s.files.length
  | .givingUp, fd => fd = none
  | .refusing, fd => fd = none
  | .outside, _ => False
  | .gone, _ => False

/-- What can happen in a process that may have `limit` descriptors. -/
def Legal (limit : Nat) (s : Acceptor) : Action → Prop
  | .connect _ => True
  | .handleRead result => s.pc = .outside ∧ s.Answers limit result
  | .next fd => s.Returns limit s.pc fd
  | .destroy => s.pc = .outside
  | .openOther fd => s.Free limit fd
  | .closeOther fd => fd ∈ s.others

/-- Clients, the acceptor and other code, with `limit` descriptors for the process. -/
def machine (limit : Nat) : Machine Acceptor Action := ⟨step, Legal limit⟩

instance (limit : Nat) (s : Acceptor) (fd : Nat) : Decidable (s.Free limit fd) :=
  inferInstanceAs (Decidable (_ ∧ _))

instance (limit : Nat) (s : Acceptor) : ∀ result, Decidable (s.Answers limit result)
  | .ok _ => inferInstanceAs (Decidable (_ ∧ _))
  | .error .EMFILE => inferInstanceAs (Decidable (_ ≤ _))
  | .error .transient => isTrue trivial
  | .error .fatal => isFalse id

instance (limit : Nat) (s : Acceptor) : ∀ pc fd, Decidable (s.Returns limit pc fd)
  | .accepting, some _ => inferInstanceAs (Decidable (_ ∧ _))
  | .accepting, none => inferInstanceAs (Decidable (_ ∨ _))
  | .reopening, some _ => inferInstanceAs (Decidable (_ ∧ _))
  | .reopening, none => inferInstanceAs (Decidable (_ ≤ _))
  | .givingUp, _ => inferInstanceAs (Decidable (_ = _))
  | .refusing, _ => inferInstanceAs (Decidable (_ = _))
  | .outside, _ => isFalse id
  | .gone, _ => isFalse id

instance (limit : Nat) (s : Acceptor) (a : Action) : Decidable ((machine limit).legal s a) :=
  match a with
  | .connect _ => isTrue trivial
  | .handleRead _ => inferInstanceAs (Decidable (_ ∧ _))
  | .next fd => inferInstanceAs (Decidable (s.Returns limit s.pc fd))
  | .destroy => inferInstanceAs (Decidable (_ = _))
  | .openOther fd => inferInstanceAs (Decidable (s.Free limit fd))
  | .closeOther _ => inferInstanceAs (Decidable (_ ∈ _))

/-! ## The invariant -/

/-- The descriptors that the acceptor owns.  While it has no reserve, `idleFd_` is the number
of a descriptor that was closed, and that others may have opened since. -/
def owned (s : Acceptor) : List Nat :=
  match s.pc with
  | .accepting => [s.acceptSocket_]
  | .reopening => [s.acceptSocket_]
  | .gone => []
  | _ => s.acceptSocket_ :: s.idleFd_.toList

/-- What holds in every state. -/
structure Inv (limit : Nat) (s : Acceptor) : Prop where
  nodup : s.files.Nodup
  bound : s.files.length ≤ limit
  /-- every open descriptor has an owner, and what is owned is open -/
  owners : s.files.Perm (s.owned ++ s.others)
  order : s.served.map Prod.fst ++ s.backlog = s.arrived

section Steps

variable {limit : Nat} {s : Acceptor}

theorem inv_new {acceptSocket_ idleFd_ : Nat} {newConnectionCallback_ : Bool} {others : List Nat}
    (hnodup : (acceptSocket_ :: idleFd_ :: others).Nodup) (hbound : others.length + 2 ≤ limit) :
    Inv limit (new acceptSocket_ idleFd_ newConnectionCallback_ others) :=
  ⟨hnodup, hbound, List.Perm.refl _, rfl⟩

/-- The first connection of the backlog is served. -/
theorem order_takeConnection (h : Inv limit s) (hbacklog : s.backlog ≠ []) (fd : Option Nat) :
    (s.served ++ [(s.backlog.headD 0, fd)]).map Prod.fst ++ s.backlog.tail = s.arrived := by
  have horder := h.order
  cases hqueue : s.backlog with
  | nil => exact absurd hqueue hbacklog
  | cons conn rest =>
      rw [hqueue] at horder
      simpa using horder

/-- What is closed was owned, once. -/
theorem perm_close (h : Inv limit s) {fd : Nat} {rest : List Nat}
    (howned : (s.owned ++ s.others).Perm (fd :: rest)) : (s.files.erase fd).Perm rest := by
  have hperm := (h.owners.trans howned).erase fd
  rwa [List.erase_cons_head] at hperm

/-- A descriptor is closed, and the table gets no longer. -/
theorem length_erase_le (h : Inv limit s) (fd : Nat) : (s.files.erase fd).length ≤ limit :=
  Nat.le_trans (List.erase_sublist.length_le) h.bound

theorem inv_handleRead (h : Inv limit s) {result : Except AcceptErrno Nat}
    (hlegal : Legal limit s (.handleRead result)) :
    ∃ s', s.handleRead result = .ok s' ∧ Inv limit s' := by
  obtain ⟨hpc, hresult⟩ := hlegal
  have howned : s.owned = s.acceptSocket_ :: s.idleFd_.toList := by rw [owned, hpc]
  have howners := h.owners
  rw [howned] at howners
  cases result with
  | error errno =>
      cases errno with
      | EMFILE => exact ⟨_, rfl, h.nodup, h.bound, howners, h.order⟩
      | transient => exact ⟨s, rfl, h⟩
      | fatal => exact absurd hresult id
  | ok connfd =>
      obtain ⟨hbacklog, hfree, hroom⟩ := hresult
      have hnodup : (connfd :: s.files).Nodup := List.nodup_cons.mpr ⟨hfree, h.nodup⟩
      unfold handleRead
      dsimp only
      split
      · refine ⟨_, rfl, hnodup, hroom, ?_, order_takeConnection h hbacklog _⟩
        show (connfd :: s.files).Perm _
        rw [owned, takeConnection, hpc]
        exact ((List.perm_cons connfd).mpr howners).trans List.perm_middle.symm
      · have hfiles : (connfd :: s.files).erase connfd = s.files := List.erase_cons_head ..
        refine ⟨_, rfl, ?_, ?_, ?_, order_takeConnection h hbacklog _⟩
        · simp only [close, takeConnection, Option.elim_some, hfiles]
          exact h.nodup
        · simp only [close, takeConnection, Option.elim_some, hfiles]
          exact h.bound
        · simp only [close, takeConnection, Option.elim_some, hfiles, owned, hpc]
          exact howners

/-- The reserve is closed, if there is one, and only the socket is left. -/
theorem close_idleFd_ (h : Inv limit s) (howned : s.owned = s.acceptSocket_ :: s.idleFd_.toList) :
    (s.close s.idleFd_).files.Nodup ∧ (s.close s.idleFd_).files.length ≤ limit ∧
      (s.close s.idleFd_).files.Perm (s.acceptSocket_ :: s.others) := by
  have howners := h.owners
  rw [howned] at howners
  cases hidle : s.idleFd_ with
  | none =>
      rw [hidle] at howners
      exact ⟨h.nodup, h.bound, howners⟩
  | some idle =>
      refine ⟨h.nodup.erase idle, length_erase_le h idle, perm_close h ?_⟩
      rw [howned, hidle]
      exact List.Perm.swap _ _ _

theorem inv_next (h : Inv limit s) {fd : Option Nat} (hlegal : s.Returns limit s.pc fd) :
    Inv limit (s.next fd) := by
  have howners := h.owners
  unfold next
  cases hpc : s.pc with
  | outside =>
      rw [hpc] at hlegal
      exact absurd hlegal id
  | gone =>
      rw [hpc] at hlegal
      exact absurd hlegal id
  | givingUp =>
      obtain ⟨hnodup, hbound, hperm⟩ := close_idleFd_ h (by rw [owned, hpc])
      exact ⟨hnodup, hbound, hperm, h.order⟩
  | refusing =>
      obtain ⟨hnodup, hbound, hperm⟩ := close_idleFd_ h (by rw [owned, hpc])
      exact ⟨hnodup, hbound, hperm, h.order⟩
  | accepting =>
      rw [show s.owned = [s.acceptSocket_] by rw [owned, hpc]] at howners
      rw [hpc] at hlegal
      cases fd with
      | none => exact ⟨h.nodup, h.bound, howners, h.order⟩
      | some connfd =>
          obtain ⟨hbacklog, hfree, hroom⟩ := hlegal
          refine ⟨List.nodup_cons.mpr ⟨hfree, h.nodup⟩, hroom, ?_,
            order_takeConnection h hbacklog none⟩
          exact ((List.perm_cons connfd).mpr howners).trans (List.Perm.swap _ _ _)
  | reopening =>
      rw [show s.owned = [s.acceptSocket_] by rw [owned, hpc]] at howners
      rw [hpc] at hlegal
      cases fd with
      | none => exact ⟨h.nodup, h.bound, howners, h.order⟩
      | some fd =>
          refine ⟨List.nodup_cons.mpr ⟨hlegal.1, h.nodup⟩, hlegal.2, ?_, h.order⟩
          exact ((List.perm_cons fd).mpr howners).trans (List.Perm.swap _ _ _)

theorem inv_destroy (h : Inv limit s) (hpc : s.pc = .outside) : Inv limit s.destroy := by
  obtain ⟨hnodup, hbound, hperm⟩ := close_idleFd_ h (by rw [owned, hpc])
  refine ⟨hnodup.erase _, ?_, ?_, h.order⟩
  · exact Nat.le_trans (List.erase_sublist.length_le) hbound
  · have hrest := hperm.erase s.acceptSocket_
    rwa [List.erase_cons_head] at hrest

theorem inv_step (h : Inv limit s) {a : Action} (hlegal : Legal limit s a) :
    ∃ s', s.step a = .ok s' ∧ Inv limit s' := by
  cases a with
  | connect conn =>
      refine ⟨_, rfl, h.nodup, h.bound, h.owners, ?_⟩
      simp only
      rw [← List.append_assoc, h.order]
  | handleRead result => exact inv_handleRead h hlegal
  | next fd => exact ⟨_, rfl, inv_next h hlegal⟩
  | destroy => exact ⟨_, rfl, inv_destroy h hlegal⟩
  | openOther fd =>
      refine ⟨_, rfl, List.nodup_cons.mpr ⟨hlegal.1, h.nodup⟩, hlegal.2, ?_, h.order⟩
      exact ((List.perm_cons fd).mpr h.owners).trans List.perm_middle.symm
  | closeOther fd =>
      refine ⟨_, rfl, h.nodup.erase fd, length_erase_le h fd, ?_, h.order⟩
      have hnot : fd ∉ s.owned := fun hmem =>
        (List.nodup_append'.mp (h.owners.nodup_iff.mp h.nodup)).2.2 hmem hlegal
      have hperm := h.owners.erase fd
      rwa [List.erase_append_right _ hnot] at hperm

end Steps

/-! ## Whole runs -/

theorem run_inv {limit acceptSocket_ idleFd_ : Nat} {newConnectionCallback_ : Bool}
    {others : List Nat} (hnodup : (acceptSocket_ :: idleFd_ :: others).Nodup)
    (hbound : others.length + 2 ≤ limit) {actions : List Action}
    (hlegal : (machine limit).LegalRun (new acceptSocket_ idleFd_ newConnectionCallback_ others)
      actions) :
    ∃ s, (machine limit).run (new acceptSocket_ idleFd_ newConnectionCallback_ others)
      actions = .ok s ∧
      Inv limit s :=
  Machine.run_invariant (Inv limit) (fun _ _ h hop => inv_step h hop) (inv_new hnodup hbound) hlegal

/-- In a process with any limit on its descriptors, and however other code opens and closes
descriptors between the system calls of the acceptor: every open descriptor is owned either
by the acceptor or by other code, and only by one of them, so the acceptor never closes what
is not its own and forgets nothing that it opened.  The connections are handed over or closed
one by one, in the order in which they arrived. -/
theorem descriptors_have_one_owner (limit acceptSocket_ idleFd_ : Nat)
    (newConnectionCallback_ : Bool) (others : List Nat)
    (hnodup : (acceptSocket_ :: idleFd_ :: others).Nodup) (hbound : others.length + 2 ≤ limit)
    (actions : List Action)
    (hlegal : (machine limit).LegalRun (new acceptSocket_ idleFd_ newConnectionCallback_ others)
      actions) :
    ∃ s, (machine limit).run (new acceptSocket_ idleFd_ newConnectionCallback_ others)
      actions = .ok s ∧
      s.files.Nodup ∧ s.files.length ≤ limit ∧ s.files.Perm (s.owned ++ s.others) ∧
      s.served.map Prod.fst ++ s.backlog = s.arrived := by
  obtain ⟨s, hrun, h⟩ := run_inv hnodup hbound hlegal
  exact ⟨s, hrun, h.nodup, h.bound, h.owners, h.order⟩

/-- At most four descriptors.  The reserve is 4; while the acceptor does without it, other code
gets that number, and there is no descriptor for the second connection until a third one is
closed. -/
def race : List Action :=
  [.connect 1, .connect 2, .handleRead (.ok 6), .handleRead (.error .EMFILE), .next none,
    .openOther 4, .next none, .next none, .closeOther 5, .next (some 5), .closeOther 6,
    .handleRead (.ok 6), .destroy]

theorem descriptors_have_one_owner_race :
    (machine 4).LegalRun (new 3 4 true [5]) race ∧
      ∃ s, (machine 4).run (new 3 4 true [5]) race = .ok s ∧
        s.files.Nodup ∧ s.files.length ≤ 4 ∧ s.files.Perm (s.owned ++ s.others) ∧
        s.served.map Prod.fst ++ s.backlog = s.arrived := by
  have hlegal : (machine 4).LegalRun (new 3 4 true [5]) race := by decide +kernel
  exact ⟨hlegal,
    descriptors_have_one_owner 4 3 4 true [5] (by decide) (by decide) race hlegal⟩

/-- The five steps of `handleRead` when the process has no descriptor left. -/
def onEMFILE (connfd idleFd_ : Option Nat) : List Action :=
  [.handleRead (.error .EMFILE), .next none, .next connfd, .next none, .next idleFd_]

/-- When the process has no descriptor left, a connection waits, and other code leaves the
descriptors alone until `handleRead` is done: the connection that waits longest is closed,
the others are still there, and the acceptor has a reserve again. -/
theorem emfile_refuses_one (limit acceptSocket_ idleFd_ : Nat) (newConnectionCallback_ : Bool)
    (others : List Nat) (hnodup : (acceptSocket_ :: idleFd_ :: others).Nodup)
    (hbound : others.length + 2 ≤ limit) (actions : List Action) (s : Acceptor)
    (hrun : (machine limit).run (new acceptSocket_ idleFd_ newConnectionCallback_ others) actions =
      .ok s)
    (connfd idleFd' : Option Nat) (hwaits : s.backlog ≠ []) (hreserve : s.idleFd_.isSome = true)
    (hlegal : (machine limit).LegalRun (new acceptSocket_ idleFd_ newConnectionCallback_ others)
      (actions ++ onEMFILE connfd idleFd')) :
    ∃ s', (machine limit).run (new acceptSocket_ idleFd_ newConnectionCallback_ others)
        (actions ++ onEMFILE connfd idleFd') = .ok s' ∧
      s'.backlog = s.backlog.tail ∧ s'.served = s.served ++ [(s.backlog.headD 0, none)] ∧
      s'.others = s.others ∧ s'.files.length = s.files.length ∧
      s'.pc = .outside ∧ s'.idleFd_.isSome = true := by
  obtain ⟨hfirst, hsecond⟩ := Machine.legalRun_append.mp hlegal
  obtain ⟨s₀, hrun₀, h⟩ := run_inv hnodup hbound hfirst
  obtain rfl := Except.ok.inj (hrun.symm.trans hrun₀)
  have htrick := hsecond s hrun
  obtain ⟨idle, hidle⟩ := Option.isSome_iff_exists.mp hreserve
  have hmem : idle ∈ s.files := by
    refine h.owners.mem_iff.mpr (List.mem_append_left _ ?_)
    obtain ⟨⟨hpc, -⟩, -⟩ := htrick
    simp [owned, hpc, hidle]
  have hlength : (s.files.erase idle).length + 1 = s.files.length := by
    rw [List.length_erase_of_mem hmem]
    have hpos := List.length_pos_of_mem hmem
    omega
  have hlt : (s.files.erase idle).length < limit := by
    have hbound := h.bound
    omega
  -- the reserve is given up, and so there is a free descriptor
  let s₂ : Acceptor := { s with files := s.files.erase idle, pc := .accepting }
  have hstep₁ : (machine limit).step s (.handleRead (.error .EMFILE)) =
    .ok { s with pc := .givingUp } :=
    rfl
  have hstep₂ : (machine limit).step { s with pc := .givingUp } (.next none) = .ok s₂ := by
    simp [machine, step, next, close, hidle, s₂]
  have hlegal₂ := ((Machine.legalRun_cons_of_step hstep₂).mp
    ((Machine.legalRun_cons_of_step hstep₁).mp htrick).2).2
  cases connfd with
  | none =>
      rcases hlegal₂.1 with hnone | hfull
      · exact absurd hnone hwaits
      · exact absurd hfull (Nat.not_le.mpr hlt)
  | some connfd =>
      -- the connection gets it, and gives it back
      let s₄ : Acceptor := { s with
        files := s.files.erase idle
        backlog := s.backlog.tail
        served := s.served ++ [(s.backlog.headD 0, none)]
        idleFd_ := some connfd
        pc := .reopening }
      have hstep₃ : (machine limit).step s₂ (.next (some connfd)) =
          .ok { s₄ with files := connfd :: s.files.erase idle, pc := .refusing } := rfl
      have hstep₄ : (machine limit).step
          { s₄ with files := connfd :: s.files.erase idle, pc := .refusing }
          (.next none) = .ok s₄ := by
        simp [machine, step, next, close, s₄]
      have hlegal₄ := ((Machine.legalRun_cons_of_step hstep₄).mp
        ((Machine.legalRun_cons_of_step hstep₃).mp hlegal₂).2).2
      cases idleFd' with
      | none => exact absurd hlegal₄.1 (Nat.not_le.mpr hlt)
      | some idle' =>
          let s₅ : Acceptor := { s₄ with
            idleFd_ := some idle'
            files := idle' :: s.files.erase idle
            pc := .outside }
          have hstep₅ : (machine limit).step s₄ (.next (some idle')) = .ok s₅ := rfl
          refine ⟨s₅, ?_, rfl, rfl, rfl, hlength, rfl, rfl⟩
          rw [Machine.run_append, hrun, ok_bind]
          exact Machine.run_cons_of_step hstep₁ (Machine.run_cons_of_step hstep₂
            (Machine.run_cons_of_step hstep₃ (Machine.run_cons_of_step hstep₄
              (Machine.run_cons_of_step hstep₅ rfl))))

theorem emfile_refuses_one_second :
    ∃ s, (machine 4).run (new 3 4 true [5]) [.connect 1, .connect 2, .handleRead (.ok 6)] = .ok s ∧
      s.backlog = [2] ∧
      ∃ s', (machine 4).run (new 3 4 true [5])
          ([.connect 1, .connect 2, .handleRead (.ok 6)] ++ onEMFILE (some 4) (some 4)) = .ok s' ∧
        s'.backlog = s.backlog.tail ∧ s'.served = s.served ++ [(s.backlog.headD 0, none)] ∧
        s'.others = s.others ∧ s'.files.length = s.files.length ∧
        s'.pc = .outside ∧ s'.idleFd_.isSome = true := by
  refine ⟨⟨3, some 4, true, .outside, [6, 3, 4, 5], [6, 5], [2], [(1, some 6)], [1, 2]⟩,
    by decide +kernel, rfl, ?_⟩
  exact emfile_refuses_one 4 3 4 true [5] (by decide) (by decide) _ _ (by decide +kernel) (some 4)
    (some 4) (by decide) rfl (by decide +kernel)

end Acceptor

end Muduo.Net
