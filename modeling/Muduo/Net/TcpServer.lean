/-
  Net/TcpServer.lean --- `TcpServer` (src/muduo/net/TcpServer.cc): the map of connections,
  and the names it is keyed by (src/muduo/net/InetAddress.cc, SocketsOps.cc).

  A connection is named after the listen address and a number that only grows.  The name
  goes through a buffer of 32 bytes, and with a long address the end of a long number is
  cut off: then two connections can have one name.  `leading` says which.

  Of a `TcpConnection` the server uses the identity and `name_`.  What `newConnection` does
  with the new connection behind the map is not modelled here.
-/
import Mathlib.Logic.Function.Basic
import Muduo.Foundation.Decimal
import Muduo.Foundation.Machine

set_option autoImplicit false

namespace Muduo.Net

open Muduo.Foundation

/-! ## Addresses as text -/

/-- `sockaddr_in`: the four bytes of `sin_addr` in network order, and the port. -/
structure InetAddress where
  a : UInt8
  b : UInt8
  c : UInt8
  d : UInt8
  port : UInt16
  deriving DecidableEq, Repr

namespace InetAddress

/-- `sockets::toIp`: `inet_ntop` into a buffer that is large enough. -/
def toIp (addr : InetAddress) : List Char :=
  decimal addr.a.toNat ++ '.' :: decimal addr.b.toNat ++ '.' :: decimal addr.c.toNat ++
    '.' :: decimal addr.d.toNat

/-- `toIpPort`, with `char buf[32]`. -/
def toIpPort (addr : InetAddress) : List Char :=
  snprintf 32 (addr.toIp ++ ':' :: decimal addr.port.toNat)

theorem length_decimal_byte (x : UInt8) : (decimal x.toNat).length ≤ 3 :=
  (length_decimal_le_iff (by decide)).mpr (Nat.lt_trans x.toNat_lt (by decide))

theorem length_decimal_port (x : UInt16) : (decimal x.toNat).length ≤ 5 :=
  (length_decimal_le_iff (by decide)).mpr (Nat.lt_trans x.toNat_lt (by decide))

/-- The longest text is that of 255.255.255.255:65535. -/
theorem length_toIpPort_le (addr : InetAddress) : addr.toIpPort.length ≤ 21 := by
  have ha := length_decimal_byte addr.a
  have hb := length_decimal_byte addr.b
  have hc := length_decimal_byte addr.c
  have hd := length_decimal_byte addr.d
  have hport := length_decimal_port addr.port
  simp only [toIpPort, snprintf, toIp, List.length_take, List.length_append, List.length_cons]
  omega

end InetAddress

/-! ## `class TcpServer` -/

/-- A `TcpConnection`: which one it is, in the order of the accepts, and `name_`. -/
structure Connection where
  number : Nat
  name_ : List Char
  deriving DecidableEq, Repr

/-- `class TcpServer`, with the connections that it should know. -/
structure TcpServer where
  hostport_ : List Char
  name_ : List Char
  nextConnId_ : Nat
  connections_ : List Char → Option Connection
  /-- the connections that were accepted and not yet removed -/
  live : List Connection

namespace TcpServer

/-- `TcpServer(loop, listenAddr, nameArg)`. -/
def new (listenAddr : InetAddress) (nameArg : List Char) : TcpServer where
  hostport_ := listenAddr.toIpPort
  name_ := nameArg
  nextConnId_ := 1
  connections_ := fun _ => none
  live := []

/-- `connName` of the connection with the given number; `char buf[32]`. -/
def connName (s : TcpServer) (number : Nat) : List Char :=
  s.name_ ++ snprintf 32 (':' :: s.hostport_ ++ '#' :: decimal number)

/-- The connection with the given number. -/
def connection (s : TcpServer) (number : Nat) : Connection := ⟨number, s.connName number⟩

/-- `newConnection`. -/
def newConnection (s : TcpServer) : TcpServer :=
  let conn := s.connection s.nextConnId_
  { s with
    nextConnId_ := s.nextConnId_ + 1
    connections_ := Function.update s.connections_ conn.name_ (some conn)
    live := s.live ++ [conn] }

/-- `connections_.erase(key)`: how many entries were erased, and the rest. -/
def erase (s : TcpServer) (key : List Char) : Nat × TcpServer :=
  (if (s.connections_ key).isSome then 1 else 0,
    { s with connections_ := Function.update s.connections_ key none })

/-- `removeConnectionInLoop`. -/
def removeConnectionInLoop (s : TcpServer) (conn : Connection) : Exec TcpServer := do
  let (n, s) := s.erase conn.name_
  assertThat (n = 1)
  .ok { s with live := s.live.erase conn }

/-- A step of the acceptor's loop. -/
inductive Action where
  | newConnection
  | removeConnectionInLoop (conn : Connection)
  deriving DecidableEq, Repr

/-- What a step does. -/
def step (s : TcpServer) : Action → Exec TcpServer
  | .newConnection => .ok s.newConnection
  | .removeConnectionInLoop conn => s.removeConnectionInLoop conn

/-- Fewer than 2^31 connections are accepted, and each is removed at most once. -/
def Legal (s : TcpServer) : Action → Prop
  | .newConnection => s.nextConnId_ < 2 ^ 31
  | .removeConnectionInLoop conn => conn ∈ s.live

/-- Connections come and go. -/
def machine : Machine TcpServer Action := ⟨step, Legal⟩

/-! ## The map is exact -/

/-- The map has the live connections, each under its name. -/
def Exact (s : TcpServer) : Prop :=
  ∀ key conn, s.connections_ key = some conn ↔ conn ∈ s.live ∧ conn.name_ = key

/-- A new connection overwrites no entry, and what is erased is the entry of the connection
that is removed. -/
def Fits (s : TcpServer) : Action → Prop
  | .newConnection => s.connections_ (s.connName s.nextConnId_) = none
  | .removeConnectionInLoop conn => s.connections_ conn.name_ = some conn

/-- Along the whole run the map is exact, every step fits, and no assertion fails. -/
def ExactRun : TcpServer → List Action → Prop
  | s, [] => s.Exact
  | s, a :: as => s.Exact ∧ s.Fits a ∧ ∃ s', s.step a = .ok s' ∧ ExactRun s' as

/-- How many digits of a number the buffer has room for, behind the address. -/
def digits (s : TcpServer) : Nat := 29 - s.hostport_.length

/-- No live connection has a number with the same first digits. -/
def Distinct (s : TcpServer) : Action → Prop
  | .newConnection => ∀ conn ∈ s.live,
      leading s.digits conn.number ≠ leading s.digits s.nextConnId_
  | .removeConnectionInLoop _ => True

/-- What holds whether or not the names are different. -/
structure Inv (s : TcpServer) : Prop where
  hostport : s.hostport_.length ≤ 21
  named : ∀ conn ∈ s.live, conn = s.connection conn.number
  older : ∀ conn ∈ s.live, conn.number < s.nextConnId_
  nodup : s.live.Nodup

section Steps

variable {s s' : TcpServer}

theorem inv_new (listenAddr : InetAddress) (nameArg : List Char) :
    Inv (new listenAddr nameArg) where
  hostport := listenAddr.length_toIpPort_le
  named _ h := absurd h List.not_mem_nil
  older _ h := absurd h List.not_mem_nil
  nodup := List.nodup_nil

theorem exact_of_empty (hconnections : s.connections_ = fun _ => none) (hlive : s.live = []) :
    s.Exact := by
  intro key conn
  simp [hconnections, hlive]

/-- Two connections have one name exactly when the digits that fit agree. -/
theorem connName_eq_iff (h : s.hostport_.length ≤ 21) (m n : Nat) :
    s.connName m = s.connName n ↔ leading s.digits m = leading s.digits n := by
  have hdigits : 0 < s.digits := by
    unfold digits
    omega
  have hsplit : ∀ number, snprintf 32 (':' :: s.hostport_ ++ '#' :: decimal number) =
      (':' :: s.hostport_ ++ ['#']) ++ (decimal number).take s.digits := by
    intro number
    have hlength : (':' :: s.hostport_ ++ ['#']).length = s.hostport_.length + 2 := by simp
    have happend : ':' :: s.hostport_ ++ '#' :: decimal number =
        (':' :: s.hostport_ ++ ['#']) ++ decimal number := by simp
    rw [snprintf, happend, List.take_append, List.take_of_length_le (by omega), hlength, digits]
    congr 2
    omega
  rw [connName, connName, List.append_cancel_left_eq, hsplit, hsplit, List.append_cancel_left_eq,
    take_decimal_eq_iff hdigits]

/-- An exact map has no entry for the new name exactly when no live connection has it. -/
theorem fits_newConnection_iff (h : Inv s) (hexact : s.Exact) :
    s.Fits .newConnection ↔ s.Distinct .newConnection := by
  constructor
  · intro hfits conn hmem heq
    have hname : conn.name_ = s.connName s.nextConnId_ := by
      rw [h.named conn hmem]
      exact (connName_eq_iff h.hostport _ _).mpr heq
    have hentry := (hexact _ conn).mpr ⟨hmem, hname⟩
    exact absurd (hfits.symm.trans hentry) (by simp)
  · intro hdistinct
    refine Option.eq_none_iff_forall_ne_some.mpr fun conn hentry => ?_
    obtain ⟨hmem, hname⟩ := (hexact _ conn).mp hentry
    refine hdistinct conn hmem ((connName_eq_iff h.hostport _ _).mp ?_)
    rw [← hname, h.named conn hmem]
    rfl

theorem inv_newConnection (h : Inv s) : Inv s.newConnection := by
  refine ⟨h.hostport, fun conn hmem => ?_, fun conn hmem => ?_, ?_⟩
  · rcases List.mem_append.mp hmem with hmem | hmem
    · exact h.named conn hmem
    · obtain rfl := List.mem_singleton.mp hmem
      rfl
  · rcases List.mem_append.mp hmem with hmem | hmem
    · exact Nat.lt_succ_of_lt (h.older conn hmem)
    · obtain rfl := List.mem_singleton.mp hmem
      exact Nat.lt_succ_self s.nextConnId_
  · refine List.nodup_append.mpr ⟨h.nodup, by simp, fun conn hmem other hother => ?_⟩
    obtain rfl := List.mem_singleton.mp hother
    rintro rfl
    exact Nat.lt_irrefl _ (h.older _ hmem)

theorem exact_newConnection (hexact : s.Exact) (hfits : s.Fits .newConnection) :
    s.newConnection.Exact := by
  intro key conn
  simp only [newConnection, List.mem_append, List.mem_singleton]
  by_cases hkey : key = s.connName s.nextConnId_
  · subst hkey
    rw [connection, Function.update_self]
    constructor
    · intro heq
      obtain rfl := Option.some.inj heq
      exact ⟨.inr rfl, rfl⟩
    · rintro ⟨hmem | rfl, hname⟩
      · have hentry := (hexact _ conn).mpr ⟨hmem, hname⟩
        exact absurd (hfits.symm.trans hentry) (by simp)
      · rfl
  · rw [connection, Function.update_of_ne hkey, hexact key conn]
    constructor
    · exact fun h => ⟨.inl h.1, h.2⟩
    · rintro ⟨hmem | rfl, hname⟩
      · exact ⟨hmem, hname⟩
      · exact absurd hname.symm hkey

/-- The state after a connection is removed. -/
def removed (s : TcpServer) (conn : Connection) : TcpServer :=
  { s with
    connections_ := Function.update s.connections_ conn.name_ none
    live := s.live.erase conn }

theorem removeConnectionInLoop_of_some {conn other : Connection}
    (h : s.connections_ conn.name_ = some other) :
    s.removeConnectionInLoop conn = .ok (s.removed conn) := by
  simp [removeConnectionInLoop, erase, h, removed]

theorem removeConnectionInLoop_of_none {conn : Connection} (h : s.connections_ conn.name_ = none) :
    s.removeConnectionInLoop conn = .error .assertion := by
  simp [removeConnectionInLoop, erase, h, assertThat]

theorem inv_removed (h : Inv s) (conn : Connection) : Inv (s.removed conn) :=
  ⟨h.hostport, fun other hmem => h.named other (List.mem_of_mem_erase hmem),
    fun other hmem => h.older other (List.mem_of_mem_erase hmem), h.nodup.erase conn⟩

theorem exact_removed (h : Inv s) (hexact : s.Exact) {conn : Connection} (hmem : conn ∈ s.live) :
    (s.removed conn).Exact := by
  intro key other
  simp only [removed, h.nodup.mem_erase_iff]
  by_cases hkey : key = conn.name_
  · subst hkey
    rw [Function.update_self]
    constructor
    · exact fun hentry => absurd hentry (by simp)
    · rintro ⟨⟨hne, hother⟩, hname⟩
      -- the entry is that of `conn`
      have hentry := (hexact _ other).mpr ⟨hother, hname⟩
      exact absurd (Option.some.inj (hentry.symm.trans ((hexact _ conn).mpr ⟨hmem, rfl⟩))) hne
  · rw [Function.update_of_ne hkey, hexact key other]
    constructor
    · rintro ⟨hother, rfl⟩
      exact ⟨⟨fun heq => hkey (congrArg Connection.name_ heq), hother⟩, rfl⟩
    · exact fun hother => ⟨hother.1.2, hother.2⟩

/-- The steps that fit are those with different names. -/
theorem fits_iff (h : Inv s) (hexact : s.Exact) {a : Action} (hlegal : s.Legal a) :
    s.Fits a ↔ s.Distinct a := by
  cases a with
  | newConnection => exact fits_newConnection_iff h hexact
  | removeConnectionInLoop conn =>
      exact ⟨fun _ => trivial, fun _ => (hexact _ conn).mpr ⟨hlegal, rfl⟩⟩

/-- A step that fits keeps the map exact. -/
theorem step_of_fits (h : Inv s) (hexact : s.Exact) {a : Action} (hlegal : s.Legal a)
    (hfits : s.Fits a) : ∃ s', s.step a = .ok s' ∧ Inv s' ∧ s'.Exact := by
  cases a with
  | newConnection =>
      exact ⟨_, rfl, inv_newConnection h, exact_newConnection hexact hfits⟩
  | removeConnectionInLoop conn =>
      exact ⟨_, removeConnectionInLoop_of_some hfits, inv_removed h conn,
        exact_removed h hexact hlegal⟩

theorem exactRun_iff (h : Inv s) (hexact : s.Exact) {actions : List Action}
    (hlegal : machine.LegalRun s actions) :
    ExactRun s actions ↔ (machine.restrict Distinct).LegalRun s actions := by
  induction actions generalizing s with
  | nil => exact ⟨fun _ => trivial, fun _ => hexact⟩
  | cons a actions ih =>
      obtain ⟨ha, hrest⟩ := hlegal
      by_cases hfits : s.Fits a
      · obtain ⟨s', hs', hinv', hexact'⟩ := step_of_fits h hexact ha hfits
        have hstep : machine.step s a = .ok s' := hs'
        rw [hstep] at hrest
        rw [Machine.legalRun_restrict_cons hstep, ← ih hinv' hexact' hrest]
        constructor
        · rintro ⟨-, -, s₁, hs₁, hrun⟩
          obtain rfl := Except.ok.inj (hs'.symm.trans hs₁)
          exact ⟨⟨ha, (fits_iff h hexact ha).mp hfits⟩, hrun⟩
        · exact fun hrun => ⟨hexact, hfits, s', hs', hrun.2⟩
      · constructor
        · exact fun hrun => absurd hrun.2.1 hfits
        · exact fun hrun => absurd ((fits_iff h hexact ha).mpr hrun.1.2) hfits

end Steps

/-! ## When names are different, and when not -/

section Names

variable {s : TcpServer}

/-- As long as the numbers fit, nothing is cut off. -/
theorem distinct_of_lt (h : Inv s) (hlt : s.nextConnId_ < 10 ^ s.digits) :
    s.Distinct .newConnection := by
  intro conn hmem heq
  have hdigits : 0 < s.digits := by
    have hhostport := h.hostport
    unfold digits
    omega
  have holder := h.older conn hmem
  rw [leading_of_lt hdigits (Nat.lt_trans holder hlt), leading_of_lt hdigits hlt] at heq
  omega

/-- With a listen address of at most 19 characters the map is always exact. -/
theorem exactRun_of_short (h : Inv s) (hexact : s.Exact) (hshort : s.hostport_.length ≤ 19)
    {actions : List Action} (hlegal : machine.LegalRun s actions) : ExactRun s actions := by
  induction actions generalizing s with
  | nil => exact hexact
  | cons a actions ih =>
      obtain ⟨ha, hrest⟩ := hlegal
      have hdistinct : s.Distinct a := by
        cases a with
        | removeConnectionInLoop conn => trivial
        | newConnection =>
            have hroom : (2 : Nat) ^ 31 ≤ 10 ^ s.digits := by
              refine Nat.le_trans (by decide : (2 : Nat) ^ 31 ≤ 10 ^ 10) ?_
              refine Nat.pow_le_pow_right (by decide) ?_
              unfold digits
              omega
            exact distinct_of_lt h (Nat.lt_of_lt_of_le ha hroom)
      have hfits := (fits_iff h hexact ha).mpr hdistinct
      obtain ⟨s', hs', hinv', hexact'⟩ := step_of_fits h hexact ha hfits
      have hstep : machine.step s a = .ok s' := hs'
      have hsame : s'.hostport_ = s.hostport_ := by
        cases a with
        | newConnection => exact (congrArg hostport_ (Except.ok.inj hs')).symm
        | removeConnectionInLoop conn =>
            have hremoved := (removeConnectionInLoop_of_some hfits).symm.trans hs'
            exact (congrArg hostport_ (Except.ok.inj hremoved)).symm
      rw [hstep] at hrest
      exact ⟨hexact, hfits, s', hs', ih hinv' hexact' (hsame ▸ hshort) hrest⟩

/-- The only connection comes and goes. -/
theorem removed_newConnection (hconnections : s.connections_ = fun _ => none)
    (hlive : s.live = []) {number : Nat} :
    ({ s with nextConnId_ := number }.newConnection.removed (s.connection number)) =
      { s with nextConnId_ := number + 1 } := by
  have hkept : Function.update s.connections_ (s.connName number) none = s.connections_ := by
    rw [hconnections]
    exact Function.update_eq_self _ _
  simp only [removed, newConnection, connection, connName, Function.update_idem, hlive,
    List.nil_append, List.erase_cons_head]
  exact congrArg (fun connections => TcpServer.mk _ _ _ connections _) hkept

/-- `n` connections come and go, one after the other. -/
def rounds (s : TcpServer) : Nat → List Action
  | 0 => []
  | n + 1 =>
      rounds s n ++
        [.newConnection, .removeConnectionInLoop (s.connection (s.nextConnId_ + n))]

theorem run_rounds (hconnections : s.connections_ = fun _ => none) (hlive : s.live = []) {n : Nat}
    (hn : s.nextConnId_ + n ≤ 2 ^ 31) :
    machine.LegalRun s (s.rounds n) ∧
      machine.run s (s.rounds n) = .ok { s with nextConnId_ := s.nextConnId_ + n } := by
  induction n with
  | zero => exact ⟨trivial, rfl⟩
  | succ n ih =>
      obtain ⟨hlegal, hrun⟩ := ih (by omega)
      have hremove : TcpServer.step { s with nextConnId_ := s.nextConnId_ + n }.newConnection
          (.removeConnectionInLoop (s.connection (s.nextConnId_ + n))) =
          .ok { s with nextConnId_ := s.nextConnId_ + (n + 1) } := by
        refine (removeConnectionInLoop_of_some (Function.update_self _ _ _)).trans ?_
        exact congrArg Except.ok (removed_newConnection hconnections hlive)
      constructor
      · refine Machine.legalRun_append.mpr ⟨hlegal, fun s' hs' => ?_⟩
        obtain rfl := Except.ok.inj (hrun.symm.trans hs')
        refine (Machine.legalRun_cons_of_step rfl).mpr ⟨?_, ?_⟩
        · show s.nextConnId_ + n < 2 ^ 31
          omega
        · refine (Machine.legalRun_cons_of_step hremove).mpr ⟨?_, trivial⟩
          exact List.mem_append_right _ (List.mem_singleton.mpr rfl)
      · rw [rounds, Machine.run_append, hrun, ok_bind]
        exact Machine.run_cons_of_step rfl (Machine.run_cons_of_step hremove rfl)

/-- Two connections come, and then both go. -/
def overlap (s : TcpServer) : List Action :=
  [.newConnection, .newConnection, .removeConnectionInLoop (s.connection s.nextConnId_),
    .removeConnectionInLoop (s.connection (s.nextConnId_ + 1))]

/-- Two connections with the same first digits, one after the other: the second one takes
over the entry of the first, and when both are removed an assertion fails. -/
theorem collision (h : Inv s) (hbound : s.nextConnId_ + 1 < 2 ^ 31)
    (hleading : leading s.digits s.nextConnId_ = leading s.digits (s.nextConnId_ + 1)) :
    machine.LegalRun s s.overlap ∧ ¬ s.newConnection.Distinct .newConnection ∧
      machine.run s s.overlap = .error .assertion := by
  have hname : s.connName s.nextConnId_ = s.connName (s.nextConnId_ + 1) :=
    (connName_eq_iff h.hostport _ _).mpr hleading
  have hfirst : s.connection s.nextConnId_ ∈ s.newConnection.live :=
    List.mem_append_right _ (List.mem_singleton.mpr rfl)
  -- the entry is that of the second connection
  have hentry : s.newConnection.newConnection.connections_ (s.connection s.nextConnId_).name_ =
      some (s.connection (s.nextConnId_ + 1)) := by
    rw [show (s.connection s.nextConnId_).name_ = s.connName (s.nextConnId_ + 1) from hname]
    exact Function.update_self _ _ _
  have hremove : machine.step s.newConnection.newConnection
      (.removeConnectionInLoop (s.connection s.nextConnId_)) =
      .ok (s.newConnection.newConnection.removed (s.connection s.nextConnId_)) :=
    removeConnectionInLoop_of_some hentry
  have hfail : machine.step (s.newConnection.newConnection.removed (s.connection s.nextConnId_))
      (.removeConnectionInLoop (s.connection (s.nextConnId_ + 1))) = .error .assertion := by
    refine removeConnectionInLoop_of_none ?_
    rw [show (s.connection (s.nextConnId_ + 1)).name_ = s.connName s.nextConnId_ from hname.symm]
    exact Function.update_self _ _ _
  refine ⟨?_, fun hdistinct => hdistinct _ hfirst hleading, ?_⟩
  · refine (Machine.legalRun_cons_of_step rfl).mpr ⟨Nat.lt_of_succ_lt hbound, ?_⟩
    refine (Machine.legalRun_cons_of_step rfl).mpr ⟨hbound, ?_⟩
    refine (Machine.legalRun_cons_of_step hremove).mpr ⟨List.mem_append_left _ hfirst, ?_⟩
    refine ⟨(List.mem_erase_of_ne fun heq => ?_).mpr
      (List.mem_append_right _ List.mem_cons_self), ?_⟩
    · have hnumber := congrArg Connection.number heq
      simp [connection] at hnumber
    · rw [hfail]
      trivial
  · show machine.run s.newConnection.newConnection
      [.removeConnectionInLoop (s.connection s.nextConnId_),
        .removeConnectionInLoop (s.connection (s.nextConnId_ + 1))] = _
    rw [Machine.run_cons, hremove, ok_bind, Machine.run_cons, hfail, error_bind]

/-- `n` connections come and go, and the next two are up at the same time. -/
def lateOverlap (s : TcpServer) (n : Nat) : List Action :=
  s.rounds n ++ { s with nextConnId_ := s.nextConnId_ + n }.overlap

theorem late_collision (h : Inv s) (hconnections : s.connections_ = fun _ => none)
    (hlive : s.live = []) {n : Nat} (hbound : s.nextConnId_ + n + 1 < 2 ^ 31)
    (hleading : leading s.digits (s.nextConnId_ + n) = leading s.digits (s.nextConnId_ + n + 1)) :
    machine.LegalRun s (s.lateOverlap n) ∧ ¬ ExactRun s (s.lateOverlap n) ∧
      machine.run s (s.lateOverlap n) = .error .assertion := by
  obtain ⟨hlegal, hrun⟩ := run_rounds hconnections hlive (n := n) (by omega)
  have hinv : Inv { s with nextConnId_ := s.nextConnId_ + n } :=
    ⟨h.hostport, by simp [hlive], by simp [hlive], by simp [hlive]⟩
  obtain ⟨hlegal', hnot, hfail⟩ := collision hinv hbound hleading
  have hwhole : machine.LegalRun s (s.lateOverlap n) := by
    refine Machine.legalRun_append.mpr ⟨hlegal, fun s' hs' => ?_⟩
    obtain rfl := Except.ok.inj (hrun.symm.trans hs')
    exact hlegal'
  refine ⟨hwhole, fun hexact => ?_, ?_⟩
  · have hdistinct := (exactRun_iff h (exact_of_empty hconnections hlive) hwhole).mp hexact
    have hlast := (Machine.legalRun_append.mp hdistinct).2 _
      ((Machine.run_restrict Distinct _ _).trans hrun)
    exact hnot hlast.2.1.2
  · rw [lateOverlap, Machine.run_append, hrun, ok_bind]
    exact hfail

end Names

/-! ## Every run -/

/-- From its construction on, for every listen address and every run, the connection map is
exact exactly when no connection is accepted while a live one has a number with the same
first digits, as many as there is room for. -/
theorem connection_map_exact_iff_distinct (listenAddr : InetAddress) (nameArg : List Char)
    (actions : List Action) (hlegal : machine.LegalRun (new listenAddr nameArg) actions) :
    ExactRun (new listenAddr nameArg) actions ↔
      (machine.restrict Distinct).LegalRun (new listenAddr nameArg) actions :=
  exactRun_iff (inv_new listenAddr nameArg) (exact_of_empty rfl rfl) hlegal

instance (s : TcpServer) (a : Action) : Decidable (machine.legal s a) :=
  match a with
  | .newConnection => inferInstanceAs (Decidable (s.nextConnId_ < 2 ^ 31))
  | .removeConnectionInLoop conn => inferInstanceAs (Decidable (conn ∈ s.live))

instance (s : TcpServer) (a : Action) : Decidable ((machine.restrict Distinct).legal s a) :=
  match a with
  | .newConnection =>
      inferInstanceAs (Decidable (s.nextConnId_ < 2 ^ 31 ∧ ∀ conn ∈ s.live,
        leading s.digits conn.number ≠ leading s.digits s.nextConnId_))
  | .removeConnectionInLoop conn => inferInstanceAs (Decidable (conn ∈ s.live ∧ True))

/-- 192.168.100.100:12345, which leaves room for eight digits. -/
def longAddress : InetAddress := ⟨192, 168, 100, 100, 12345⟩

/-- The server with that address, without a name of its own. -/
def server : TcpServer := new longAddress []

/-- The first of two connections goes, and a third one comes. -/
def fewConnections : List Action :=
  [.newConnection, .newConnection, .removeConnectionInLoop (server.connection 1), .newConnection]

theorem connection_map_exact_fewConnections :
    machine.LegalRun server fewConnections ∧ ExactRun server fewConnections := by
  have hlegal : machine.LegalRun server fewConnections := by decide +kernel
  have hdistinct : (machine.restrict Distinct).LegalRun server fewConnections := by decide +kernel
  exact ⟨hlegal,
    (connection_map_exact_iff_distinct longAddress [] fewConnections hlegal).mpr hdistinct⟩

/-- Connections 100000000 and 100000001 are up at the same time: their names end in
`#10000000`. -/
theorem names_collide_longAddress :
    machine.LegalRun server (server.lateOverlap 99999999) ∧
      ¬ ExactRun server (server.lateOverlap 99999999) ∧
      machine.run server (server.lateOverlap 99999999) = .error .assertion :=
  late_collision (inv_new longAddress []) rfl rfl (by decide) (by decide +kernel)

end TcpServer

end Muduo.Net
