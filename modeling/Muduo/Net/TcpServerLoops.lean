/-
  Net/TcpServerLoops.lean --- a `TcpServer` with its I/O loops and its connections
  (src/muduo/net/TcpServer.cc, EventLoopThreadPool.cc, TcpConnection.cc).

  The acceptor and the map of connections belong to loop 0; each connection belongs to the
  loop that `getNextLoop` chose.  What one loop wants done in another it queues there, and
  every loop runs its queue in order (Net/LoopFunctors.lean).  A run is any order in which
  connections are accepted, the loops run their functors, and the connections have events
  and are used.

  The life of a connection is divided between the loops: `connectEstablished` in its own
  one, `removeConnectionInLoop` in loop 0, `connectDestroyed` in its own one again.
  `Stage` says where it is, and which functor is then under way.  So what
  Net/TcpLifecycle.lean assumes of the order of the steps on a connection is what the
  server does (`connections_run_legally`), and a connection is held by the map or by a
  functor exactly until it is destroyed (`held_until_destroyed`).

  The poller reports events only for a channel that asks for some (Net/EPollKernel.lean,
  Net/PollSlots.lean), and no event closes a connection twice (`Offers`).  Users call a connection
  after they were told of it and before it is destroyed.  Fewer than 2^31 connections are accepted,
  under names that differ from those in the map (`Legal`).  The server outlives its connections.
-/
import Mathlib.Logic.Function.Basic
import Muduo.Net.EventLoopThreadPool
import Muduo.Net.TcpLifecycle
import Muduo.Net.TcpServer

set_option autoImplicit false

namespace Muduo.Net

open Muduo.Foundation
open TcpLifecycle (Live Closed Fresh Notified ClosesOnce)

namespace TcpServerLoops

/-! ## The server and its loops -/

/-- What the server queues into loops; connections are numbered in the order of the
accepts. -/
inductive LoopFunctor where
  | connectEstablished (c : Nat)
  | removeConnectionInLoop (c : Nat)
  | connectDestroyed (c : Nat)
  deriving DecidableEq, Repr

/-- The connection to which the functor holds a pointer. -/
def LoopFunctor.conn : LoopFunctor → Nat
  | .connectEstablished c => c
  | .removeConnectionInLoop c => c
  | .connectDestroyed c => c

/-- A `TcpConnection` with its loop; `initial` is the state in which it was constructed, and
`steps` are those taken on it since. -/
structure Conn where
  loop_ : Nat
  initial : TcpLifecycle.System
  steps : List TcpLifecycle.Action
  system : TcpLifecycle.System

/-- A server, its loops and its connections. -/
structure ServerLoops where
  server : TcpServer
  threadPool_ : EventLoopThreadPool
  conns : List Conn
  /-- `pendingFunctors_` of each loop -/
  pendingFunctors_ : Nat → List LoopFunctor

namespace ServerLoops

/-- A server after `start`, with `threadPool_` as it then is. -/
def new (listenAddr : InetAddress) (nameArg : List Char) (threadPool_ : EventLoopThreadPool) :
    ServerLoops :=
  ⟨TcpServer.new listenAddr nameArg, threadPool_, [], fun _ => []⟩

/-- The entry of a connection in the map. -/
def connection (s : ServerLoops) (c : Nat) : Connection := s.server.connection (c + 1)

/-- The queue of loop `k` changes. -/
def withPending (s : ServerLoops) (k : Nat) (fs : List LoopFunctor) : ServerLoops :=
  { s with pendingFunctors_ := Function.update s.pendingFunctors_ k fs }

/-- `queueInLoop` of loop `k`. -/
def queueInLoop (s : ServerLoops) (k : Nat) (f : LoopFunctor) : ServerLoops :=
  s.withPending k (s.pendingFunctors_ k ++ [f])

/-- A step on a connection has led to the given state. -/
def withSystem (s : ServerLoops) (c : Nat) (conn : Conn) (a : TcpLifecycle.Action)
    (system : TcpLifecycle.System) : ServerLoops :=
  { s with conns := s.conns.set c { conn with system, steps := conn.steps ++ [a] } }

/-- A method of a connection is called in loop `k`. -/
def callInLoop (s : ServerLoops) (k c : Nat) (a : TcpLifecycle.Action) : Exec ServerLoops :=
  match s.conns[c]? with
  | none => .error .outOfBounds
  | some conn => do
      assertThat (k = conn.loop_)
      let system ← TcpLifecycle.step conn.system a
      .ok (s.withSystem c conn a system)

/-- `removeConnectionInLoop`. -/
def removeConnectionInLoop (s : ServerLoops) (k c : Nat) : Exec ServerLoops :=
  match s.conns[c]? with
  | none => .error .outOfBounds
  | some conn => do
      assertThat (k = EventLoopThreadPool.baseLoop_)
      let server ← s.server.removeConnectionInLoop (s.connection c)
      .ok (({ s with server } : ServerLoops).queueInLoop conn.loop_ (.connectDestroyed c))

/-- Loop `k` runs a functor. -/
def execute (s : ServerLoops) (k : Nat) : LoopFunctor → Exec ServerLoops
  | .connectEstablished c => s.callInLoop k c .connectEstablished
  | .removeConnectionInLoop c => s.removeConnectionInLoop k c
  | .connectDestroyed c => s.callInLoop k c .connectDestroyed

/-- `runInLoop` of loop `k`, called in the thread of loop `caller`. -/
def runInLoop (s : ServerLoops) (caller k : Nat) (f : LoopFunctor) : Exec ServerLoops :=
  if caller = k then s.execute k f else .ok (s.queueInLoop k f)

/-- `newConnection`, called by the acceptor in loop 0; the connection is constructed in the
given state. -/
def newConnection (s : ServerLoops) (initial : TcpLifecycle.System) : Exec ServerLoops := do
  let (ioLoop, threadPool_) ← s.threadPool_.getNextLoop
  let c := s.conns.length
  let s := { s with
    threadPool_
    server := s.server.newConnection
    conns := s.conns ++ [Conn.mk ioLoop initial [] initial] }
  s.runInLoop EventLoopThreadPool.baseLoop_ ioLoop (.connectEstablished c)

/-- Loop `k` runs the functor that is next in its queue. -/
def doPendingFunctor (s : ServerLoops) (k : Nat) : Exec ServerLoops :=
  match s.pendingFunctors_ k with
  | [] => .ok s
  | f :: rest => (s.withPending k rest).execute k f

/-- An event on a connection, or a call.  `closeCallback_` is `removeConnection`, which is
called in the loop of the connection. -/
def onConnection (s : ServerLoops) (c : Nat) (a : TcpLifecycle.Action) : Exec ServerLoops :=
  match s.conns[c]? with
  | none => .error .outOfBounds
  | some conn => do
      let system ← TcpLifecycle.step conn.system a
      let s := s.withSystem c conn a system
      if TcpLifecycle.closeCalls conn.system.userCalls <
        TcpLifecycle.closeCalls system.userCalls then
        s.runInLoop conn.loop_ EventLoopThreadPool.baseLoop_ (.removeConnectionInLoop c)
      else .ok s

/-- A step of one of the loops, or of a user. -/
inductive Action where
  | newConnection (fd : Int) (highWaterMark : Nat) (writeComplete highWater : Bool)
  | doPendingFunctor (k : Nat)
  | onConnection (c : Nat) (a : TcpLifecycle.Action)
  deriving DecidableEq, Repr

/-- What a step does. -/
def step (s : ServerLoops) : Action → Exec ServerLoops
  | .newConnection fd highWaterMark writeComplete highWater =>
      s.newConnection (.new fd highWaterMark writeComplete highWater)
  | .doPendingFunctor k => s.doPendingFunctor k
  | .onConnection c a => s.onConnection c a

/-- What may happen to a connection from outside.  Its channel reports what it asked for, an error
or a hang-up; an event that makes `handleEvent` call the close callback for a hang-up does not let
`handleRead` see the end of the stream as well (`ClosesOnce`, Net/TcpLifecycle.lean).  The user and
its threads know the connection from the first call of the connection callback on. -/
def Offers (system : TcpLifecycle.System) : TcpLifecycle.Action → Prop
  | .connectEstablished => False
  | .connectDestroyed => False
  | .handleEvent revents_ result _ _ =>
      system.channel_.events_ ≠ 0#32 ∧ system.channel_.Reports revents_ ∧
        ((revents_ &&& POLLHUP ≠ 0#32 ∧ revents_ &&& POLLIN = 0#32) →
          revents_ &&& (POLLIN ||| POLLPRI ||| POLLRDHUP) ≠ 0#32 → result.count ≠ 0)
  | _ => system.userCalls ≠ [] ∧ system.destroyed = false

/-- Fewer than 2^31 connections are accepted, and no two that are in the map have one name
(Net/TcpServer.lean). -/
def Legal (s : ServerLoops) : Action → Prop
  | .newConnection _ _ _ _ => s.server.nextConnId_ < 2 ^ 31 ∧ s.server.Distinct .newConnection
  | .doPendingFunctor _ => True
  | .onConnection c a => ∃ conn, s.conns[c]? = some conn ∧ Offers conn.system a

/-- The loops in any order. -/
def machine : Machine ServerLoops Action := ⟨step, Legal⟩

instance (system : TcpLifecycle.System) (a : TcpLifecycle.Action) : Decidable (Offers system a) :=
  match a with
  | .connectEstablished => isFalse id
  | .connectDestroyed => isFalse id
  | .handleEvent _ _ _ _ => inferInstanceAs (Decidable (_ ∧ _ ∧ _))
  | .call _ => inferInstanceAs (Decidable (_ ∧ _))
  | .sendElsewhere _ => inferInstanceAs (Decidable (_ ∧ _))
  | .shutdownElsewhere => inferInstanceAs (Decidable (_ ∧ _))
  | .swapPending => inferInstanceAs (Decidable (_ ∧ _))
  | .runFunctor _ => inferInstanceAs (Decidable (_ ∧ _))

instance (s : ServerLoops) (a : Action) : Decidable (machine.legal s a) :=
  match a with
  | .newConnection _ _ _ _ =>
      inferInstanceAs (Decidable (s.server.nextConnId_ < 2 ^ 31 ∧ ∀ conn ∈ s.server.live,
        leading s.server.digits conn.number ≠ leading s.server.digits s.server.nextConnId_))
  | .doPendingFunctor _ => isTrue trivial
  | .onConnection c a =>
      match hconn : s.conns[c]? with
      | none => isFalse fun ⟨_, h, _⟩ => absurd (hconn.symm.trans h) (by simp)
      | some conn =>
          decidable_of_iff (Offers conn.system a)
            ⟨fun h => ⟨conn, hconn, h⟩, fun ⟨_, h, ho⟩ => Option.some.inj (hconn.symm.trans h) ▸ ho⟩

end ServerLoops

/-! ## Where a connection is -/

/-- How far the life of a connection has come. -/
inductive Stage where
  | accepted
  | up
  /-- it is closed, and `removeConnectionInLoop` is under way -/
  | closing
  /-- it is not in the map any more, and `connectDestroyed` is under way -/
  | removed
  | destroyed
  deriving DecidableEq, Repr

namespace Stage

/-- The functor that is under way, and the loop in whose queue it is. -/
def functor (loop_ c : Nat) : Stage → Option (Nat × LoopFunctor)
  | .accepted => some (loop_, .connectEstablished c)
  | .up => none
  | .closing => some (EventLoopThreadPool.baseLoop_, .removeConnectionInLoop c)
  | .removed => some (loop_, .connectDestroyed c)
  | .destroyed => none

/-- Whether the connection is in the map. -/
def mapped : Stage → Bool
  | .accepted => true
  | .up => true
  | .closing => true
  | .removed => false
  | .destroyed => false

/-- The state of the connection. -/
def Holds (conn : Conn) : Stage → Prop
  | .accepted => conn.system = conn.initial
  | .up => Live conn.system
  | .closing => Closed conn.system
  | .removed => Closed conn.system
  | .destroyed => conn.system.destroyed = true ∧ Notified conn.system ∧
      conn.system.channel_.events_ = 0#32

end Stage

namespace ServerLoops

/-- The functors in the queue of loop `k` that hold a pointer to the connection. -/
def mail (s : ServerLoops) (k c : Nat) : List LoopFunctor :=
  (s.pendingFunctors_ k).filter fun f => f.conn = c

/-- There is this functor for the connection, in this loop, and no other one. -/
def Mail (s : ServerLoops) (c : Nat) : Option (Nat × LoopFunctor) → Prop
  | none => ∀ k, s.mail k c = []
  | some (home, f) => ∀ k, s.mail k c = if k = home then [f] else []

/-- The steps on the connection are a legal run, on which the user is told what he should
be. -/
structure History (conn : Conn) : Prop where
  initial : ∃ fd highWaterMark writeComplete highWater,
    conn.initial = .new fd highWaterMark writeComplete highWater
  legal : (TcpLifecycle.machine.restrict ClosesOnce).LegalRun conn.initial conn.steps
  run : TcpLifecycle.machine.run conn.initial conn.steps = .ok conn.system

/-- The connection is in the given stage, and the functor is under way. -/
structure ConnAt (n : Nat) (s : ServerLoops) (c : Nat) (conn : Conn) (stage : Stage)
    (functor : Option (Nat × LoopFunctor)) : Prop where
  history : History conn
  loop : conn.loop_ = EventLoopThreadPool.turn n c
  holds : stage.Holds conn
  mapped : s.connection c ∈ s.server.live ↔ stage.mapped = true
  mail : s.Mail c functor

/-- The invariant, for all connections or for all but one. -/
structure Good (n : Nat) (but : Option Nat) (s : ServerLoops) : Prop where
  server : TcpServer.Inv s.server
  exact : s.server.Exact
  next : s.server.nextConnId_ = s.conns.length + 1
  pool : EventLoopThreadPool.Serving n s.conns.length s.threadPool_
  known : ∀ k, ∀ f ∈ s.pendingFunctors_ k, f.conn < s.conns.length
  conns : ∀ c conn, but ≠ some c → s.conns[c]? = some conn →
    ∃ stage, ConnAt n s c conn stage (stage.functor conn.loop_ c)

/-- What holds of all connections between two steps. -/
abbrev Inv (n : Nat) (s : ServerLoops) : Prop := Good n none s

section Queues

variable {s : ServerLoops} {k c : Nat} {f : LoopFunctor}

theorem mail_withPending (s : ServerLoops) (k c k' : Nat) (fs : List LoopFunctor) :
    (s.withPending k fs).mail k' c =
      if k' = k then fs.filter (fun f => f.conn = c) else s.mail k' c := by
  unfold mail withPending
  by_cases hk : k' = k
  · subst hk
    simp only [Function.update_self, if_true]
  · simp only [Function.update_of_ne hk, if_neg hk]

theorem mail_queueInLoop (s : ServerLoops) (k c k' : Nat) (f : LoopFunctor) :
    (s.queueInLoop k f).mail k' c = s.mail k' c ++ if k' = k ∧ f.conn = c then [f] else [] := by
  rw [queueInLoop, mail_withPending]
  by_cases hk : k' = k
  · subst hk
    rw [if_pos rfl, List.filter_append, mail]
    by_cases hc : f.conn = c
    · simp [hc]
    · simp [hc]
  · rw [if_neg hk, if_neg (fun h => hk h.1), List.append_nil]

/-- The functor that is next leaves the queue. -/
theorem mail_pop {rest : List LoopFunctor} (hqueue : s.pendingFunctors_ k = f :: rest)
    (k' c : Nat) :
    s.mail k' c = (if k' = k ∧ f.conn = c then [f] else []) ++
      (s.withPending k rest).mail k' c := by
  rw [mail_withPending]
  by_cases hk : k' = k
  · subst hk
    rw [if_pos rfl, mail, hqueue]
    by_cases hc : f.conn = c
    · simp [hc]
    · simp [hc]
  · rw [if_neg hk, if_neg (fun h => hk h.1), List.nil_append]

theorem Mail.queueInLoop (h : s.Mail c none) (hf : f.conn = c) :
    (s.queueInLoop k f).Mail c (some (k, f)) := by
  intro k'
  rw [mail_queueInLoop, h k', List.nil_append]
  simp [hf]

/-- The functor that was under way is run now. -/
theorem Mail.pop {functor : Option (Nat × LoopFunctor)} (h : s.Mail c functor)
    {rest : List LoopFunctor} (hqueue : s.pendingFunctors_ k = f :: rest) (hf : f.conn = c) :
    functor = some (k, f) ∧ (s.withPending k rest).Mail c none := by
  have hpop := mail_pop hqueue
  have hhead := hpop k c
  rw [if_pos ⟨rfl, hf⟩] at hhead
  cases functor with
  | none =>
      rw [h k] at hhead
      exact absurd hhead (by simp)
  | some post =>
      obtain ⟨home, f'⟩ := post
      by_cases hk : k = home
      · subst hk
        rw [h k, if_pos rfl] at hhead
        obtain ⟨rfl, htail⟩ := List.cons.inj hhead
        refine ⟨rfl, fun k' => ?_⟩
        by_cases hk' : k' = k
        · subst hk'
          exact htail.symm
        · have hother := hpop k' c
          rw [h k', if_neg hk', if_neg (fun h => hk' h.1)] at hother
          exact hother.symm
      · rw [h k, if_neg hk] at hhead
        exact absurd hhead (by simp)

end Queues

/-! ## One step on a connection -/

section Connection

variable {n c : Nat} {conn : Conn} {s : ServerLoops}

/-- A connection that was just constructed. -/
theorem History.fresh (h : History conn) (hholds : conn.system = conn.initial) :
    Fresh conn.system ∧ conn.system.channel_.events_ = 0#32 := by
  obtain ⟨fd, highWaterMark, writeComplete, highWater, hinitial⟩ := h.initial
  rw [hholds, hinitial]
  exact ⟨(TcpLifecycle.inv_new fd highWaterMark writeComplete highWater).fresh rfl rfl, rfl⟩

/-- The history goes on with a step that the code gets right. -/
theorem History.step (h : History conn) {a : TcpLifecycle.Action} {system : TcpLifecycle.System}
    (hlegal : TcpLifecycle.Legal conn.system a) (hcloses : ClosesOnce conn.system a)
    (hstep : TcpLifecycle.step conn.system a = .ok system) :
    History { conn with system, steps := conn.steps ++ [a] } where
  initial := h.initial
  legal := by
    refine Machine.legalRun_append.mpr ⟨h.legal, fun s' hs' => ?_⟩
    rw [Machine.run_restrict, h.run] at hs'
    obtain rfl := Except.ok.inj hs'
    exact (@Machine.legalRun_cons_of_step _ _ (TcpLifecycle.machine.restrict ClosesOnce) _ _ _ _
      hstep).mpr ⟨⟨hlegal, hcloses⟩, trivial⟩
  run := by
    rw [Machine.run_append, h.run, ok_bind]
    exact Machine.run_cons_of_step hstep rfl

theorem closeCalls_of_live {system : TcpLifecycle.System} (h : Live system) :
    TcpLifecycle.closeCalls system.userCalls = 0 := by
  rw [h.calls]
  decide

theorem closeCalls_of_closed {system : TcpLifecycle.System} (h : Closed system) :
    TcpLifecycle.closeCalls system.userCalls = 1 := by
  rw [h.calls]
  decide

/-- A call, in any thread, or a functor that was queued, leaves a closed connection closed. -/
theorem step_of_closed {system : TcpLifecycle.System} (h : Closed system)
    {a : TcpLifecycle.Action} (hoffers : Offers system a) :
    TcpLifecycle.Legal system a ∧ ClosesOnce system a ∧
      ∃ system', TcpLifecycle.step system a = .ok system' ∧ Closed system' := by
  have hstate : system.state_ ≠ .kConnected := by simp [h.state]
  have hlegal : system.state_ ≠ .kConnecting ∧ system.destroyed = false :=
    ⟨by simp [h.state], h.lasts⟩
  cases a with
  | connectEstablished => exact absurd hoffers id
  | connectDestroyed => exact absurd hoffers id
  | handleEvent revents_ result messageCallback_ w => exact absurd h.quiet hoffers.1
  | call c => exact ⟨hlegal, trivial, h.call c⟩
  | sendElsewhere data =>
      refine ⟨hlegal, trivial, system, ?_, h⟩
      simp only [TcpLifecycle.step]
      exact TcpLifecycle.onConn_ok (c := system.toTcpConnection)
        (congrArg Except.ok (if_neg hstate))
  | shutdownElsewhere =>
      refine ⟨hlegal, trivial, system, ?_, h⟩
      simp only [TcpLifecycle.step]
      exact TcpLifecycle.onConn_ok (c := system.toTcpConnection)
        (congrArg Except.ok (if_neg hstate))
  | swapPending =>
      simp only [TcpLifecycle.step]
      exact ⟨hlegal, trivial, _, TcpLifecycle.onConn_ok rfl, h.withLoop _⟩
  | runFunctor w => exact ⟨hlegal, trivial, h.runFunctor w⟩

/-- On a connection that is up, an event may close it. -/
theorem step_of_live {system : TcpLifecycle.System} (h : Live system)
    {a : TcpLifecycle.Action} (hoffers : Offers system a) :
    TcpLifecycle.Legal system a ∧ ClosesOnce system a ∧
      ∃ system', TcpLifecycle.step system a = .ok system' ∧ (Live system' ∨ Closed system') := by
  have hlegal : system.state_ ≠ .kConnecting ∧ system.destroyed = false := by
    refine ⟨fun hstate => ?_, h.lasts⟩
    rcases h.state with hs | hs <;> simp [hs] at hstate
  cases a with
  | connectEstablished => exact absurd hoffers id
  | connectDestroyed => exact absurd hoffers id
  | handleEvent revents_ result messageCallback_ w =>
      obtain ⟨-, hreports, hcount⟩ := hoffers
      have hcloses : ClosesOnce system (.handleEvent revents_ result messageCallback_ w) :=
        fun hhup => ⟨h.not_disconnected, hcount hhup⟩
      exact ⟨⟨hlegal, hreports⟩, hcloses, TcpLifecycle.handleEvent_ok (.inl h) hreports hcloses⟩
  | call c => exact ⟨hlegal, trivial, TcpLifecycle.call_ok (.inl h) c⟩
  | sendElsewhere data => exact ⟨hlegal, trivial, TcpLifecycle.sendElsewhere_ok (.inl h) data⟩
  | shutdownElsewhere => exact ⟨hlegal, trivial, TcpLifecycle.shutdownElsewhere_ok (.inl h)⟩
  | swapPending => exact ⟨hlegal, trivial, TcpLifecycle.swapPending_ok (.inl h)⟩
  | runFunctor w => exact ⟨hlegal, trivial, TcpLifecycle.runFunctor_ok (.inl h) w⟩

/-- What comes from outside comes to a connection that is up or closed. -/
theorem stage_of_offers (h : History conn) {stage : Stage} (hholds : stage.Holds conn)
    {a : TcpLifecycle.Action} (hoffers : Offers conn.system a) :
    stage = .up ∧ Live conn.system ∨
      (stage = .closing ∨ stage = .removed) ∧ Closed conn.system := by
  cases stage with
  | up => exact .inl ⟨rfl, hholds⟩
  | closing => exact .inr ⟨.inl rfl, hholds⟩
  | removed => exact .inr ⟨.inr rfl, hholds⟩
  | accepted =>
      obtain ⟨hfresh, hquiet⟩ := h.fresh hholds
      cases a with
      | connectEstablished => exact absurd hoffers id
      | connectDestroyed => exact absurd hoffers id
      | handleEvent revents_ result messageCallback_ w => exact absurd hquiet hoffers.1
      | _ => exact absurd hfresh.calls hoffers.1
  | destroyed =>
      cases a with
      | connectEstablished => exact absurd hoffers id
      | connectDestroyed => exact absurd hoffers id
      | handleEvent revents_ result messageCallback_ w => exact absurd hholds.2.2 hoffers.1
      | _ => exact absurd (hoffers.2.symm.trans hholds.1) Bool.false_ne_true

end Connection

/-! ## What concerns one connection does not concern the others -/

section Frames

variable {n c k : Nat} {conn : Conn} {stage : Stage} {s s' : ServerLoops} {f : LoopFunctor}

theorem Mail.congr {functor : Option (Nat × LoopFunctor)} (h : s.Mail c functor)
    (hmail : ∀ k, s'.mail k c = s.mail k c) : s'.Mail c functor := by
  cases functor with
  | none => exact fun k => (hmail k).trans (h k)
  | some post => exact fun k => (hmail k).trans (h k)

theorem ConnAt.congr {functor : Option (Nat × LoopFunctor)} (h : ConnAt n s c conn stage functor)
    (hmail : ∀ k, s'.mail k c = s.mail k c)
    (hmapped : s'.connection c ∈ s'.server.live ↔ s.connection c ∈ s.server.live) :
    ConnAt n s' c conn stage functor :=
  ⟨h.history, h.loop, h.holds, hmapped.trans h.mapped, h.mail.congr hmail⟩

/-- The invariant without connection `c`, after a step that only concerns `c`. -/
theorem Good.frame (h : Good n (some c) s) (hserver : TcpServer.Inv s'.server)
    (hexact : s'.server.Exact) (hnext : s'.server.nextConnId_ = s.server.nextConnId_)
    (hpool : s'.threadPool_ = s.threadPool_) (hlength : s'.conns.length = s.conns.length)
    (hknown : ∀ k, ∀ f ∈ s'.pendingFunctors_ k, f.conn < s'.conns.length)
    (hothers : ∀ c', c' ≠ c → s'.conns[c']? = s.conns[c']? ∧ (∀ k, s'.mail k c' = s.mail k c') ∧
      (s'.connection c' ∈ s'.server.live ↔ s.connection c' ∈ s.server.live)) :
    Good n (some c) s' where
  server := hserver
  exact := hexact
  next := by rw [hnext, h.next, hlength]
  pool := by rw [hpool, hlength]; exact h.pool
  known := hknown
  conns c' conn hne hconn := by
    obtain ⟨hconns, hmail, hmapped⟩ := hothers c' fun heq => hne (congrArg some heq.symm)
    rw [hconns] at hconn
    obtain ⟨stage, hat⟩ := h.conns c' conn hne hconn
    exact ⟨stage, hat.congr hmail hmapped⟩

/-- All connections but one, and that one. -/
theorem Good.close (h : Good n (some c) s) (stage : Stage) (hconn : s.conns[c]? = some conn)
    (hat : ConnAt n s c conn stage (stage.functor conn.loop_ c)) : Inv n s where
  server := h.server
  exact := h.exact
  next := h.next
  pool := h.pool
  known := h.known
  conns c' conn' _ hconn' := by
    by_cases hc : c' = c
    · subst hc
      obtain rfl := Option.some.inj (hconn.symm.trans hconn')
      exact ⟨stage, hat⟩
    · exact h.conns c' conn' (fun heq => hc (Option.some.inj heq).symm) hconn'

theorem Good.open (h : Inv n s) (c : Nat) : Good n (some c) s :=
  ⟨h.server, h.exact, h.next, h.pool, h.known,
    fun c' conn _ hconn => h.conns c' conn (by simp) hconn⟩

theorem getElem?_withSystem (hconn : s.conns[c]? = some conn) (a : TcpLifecycle.Action)
    (system : TcpLifecycle.System) :
    (s.withSystem c conn a system).conns[c]? =
      some { conn with system, steps := conn.steps ++ [a] } :=
  List.getElem?_set_self (List.getElem?_eq_some_iff.mp hconn).1

/-- A step on the connection. -/
theorem Good.withSystem (h : Good n (some c) s) (a : TcpLifecycle.Action)
    (system : TcpLifecycle.System) : Good n (some c) (s.withSystem c conn a system) := by
  refine h.frame h.server h.exact rfl rfl List.length_set ?_ fun c' hc' =>
    ⟨?_, fun _ => rfl, Iff.rfl⟩
  · intro k f hf
    exact Nat.lt_of_lt_of_eq (h.known k f hf) List.length_set.symm
  · exact List.getElem?_set_ne (Ne.symm hc')

theorem ConnAt.withSystem {functor : Option (Nat × LoopFunctor)}
    (h : ConnAt n s c conn stage functor) (stage' : Stage) {a : TcpLifecycle.Action}
    {system : TcpLifecycle.System}
    (hlegal : TcpLifecycle.Legal conn.system a) (hcloses : ClosesOnce conn.system a)
    (hstep : TcpLifecycle.step conn.system a = .ok system)
    (hholds : stage'.Holds { conn with system, steps := conn.steps ++ [a] })
    (hmapped : stage'.mapped = stage.mapped) :
    ConnAt n (s.withSystem c conn a system) c
      { conn with system, steps := conn.steps ++ [a] } stage'
      functor :=
  ⟨h.history.step hlegal hcloses hstep, h.loop, hholds, hmapped ▸ h.mapped,
    h.mail.congr fun _ => rfl⟩

/-- A functor of the connection is queued. -/
theorem Good.queueInLoop (h : Good n (some c) s) (hconn : s.conns[c]? = some conn)
    (hf : f.conn = c) : Good n (some c) (s.queueInLoop k f) := by
  refine h.frame h.server h.exact rfl rfl rfl ?_ fun c' hc' => ⟨rfl, fun k' => ?_, Iff.rfl⟩
  · intro k' f' hf'
    by_cases hk : k' = k
    · subst hk
      have hmem : f' ∈ s.pendingFunctors_ k' ++ [f] := by
        simpa [ServerLoops.queueInLoop, withPending] using hf'
      rcases List.mem_append.mp hmem with hmem | hmem
      · exact h.known k' f' hmem
      · obtain rfl := List.mem_singleton.mp hmem
        rw [hf]
        exact (List.getElem?_eq_some_iff.mp hconn).1
    · have hmem : f' ∈ s.pendingFunctors_ k' := by
        simpa [ServerLoops.queueInLoop, withPending, Function.update_of_ne hk] using hf'
      exact h.known k' f' hmem
  · rw [mail_queueInLoop, if_neg (fun h => hc' (h.2.symm.trans hf)), List.append_nil]

/-- A functor of the connection leaves the queue. -/
theorem Good.pop (h : Inv n s) {rest : List LoopFunctor} (hqueue : s.pendingFunctors_ k = f :: rest)
    (hf : f.conn = c) : Good n (some c) (s.withPending k rest) := by
  refine h.open c |>.frame h.server h.exact rfl rfl rfl ?_ fun c' hc' =>
    ⟨rfl, fun k' => ?_, Iff.rfl⟩
  · intro k' f' hf'
    by_cases hk : k' = k
    · subst hk
      have hmem : f' ∈ rest := by simpa [withPending] using hf'
      exact h.known k' f' (hqueue ▸ List.mem_cons_of_mem _ hmem)
    · have hmem : f' ∈ s.pendingFunctors_ k' := by
        simpa [withPending, Function.update_of_ne hk] using hf'
      exact h.known k' f' hmem
  · have hpop := mail_pop hqueue k' c'
    rw [if_neg (fun h => hc' (h.2.symm.trans hf)), List.nil_append] at hpop
    exact hpop.symm

end Frames

/-! ## The steps of the server -/

section Steps

variable {n c k : Nat} {conn : Conn} {stage : Stage} {s s' : ServerLoops} {f : LoopFunctor}

/-- The connection is established. -/
theorem connectEstablished_of_accepted (h : Good n (some c) s) (hconn : s.conns[c]? = some conn)
    (hat : ConnAt n s c conn .accepted none) :
    ∃ s', s.execute conn.loop_ (.connectEstablished c) = .ok s' ∧ Inv n s' := by
  have hfresh := (hat.history.fresh hat.holds).1
  obtain ⟨system, hstep, hlive⟩ := hfresh.connectEstablished
  have hcall : s.callInLoop conn.loop_ c .connectEstablished =
      .ok (s.withSystem c conn .connectEstablished system) := by
    rw [callInLoop]
    simp only [hconn, assertThat_of, ok_bind]
    rw [show TcpLifecycle.step conn.system .connectEstablished = .ok system from hstep, ok_bind]
  refine ⟨_, hcall, (h.withSystem _ system).close .up (getElem?_withSystem hconn _ system) ?_⟩
  exact hat.withSystem .up ⟨hfresh.state, hfresh.lasts⟩ trivial hstep hlive rfl

/-- A closed connection is destroyed, and nothing else happens to it. -/
theorem connectDestroyed_of_closed {system : TcpLifecycle.System} (h : Closed system) :
    TcpLifecycle.step system .connectDestroyed = .ok { system with destroyed := true } := by
  have hconn : system.state_ ≠ .kConnected := by simp [h.state]
  have hnone : system.channel_.isNoneEvent = true := Channel.isNoneEvent_iff.mpr h.quiet
  have heq : system.toTcpConnection.connectDestroyed = .ok system.toTcpConnection := by
    simp only [TcpConnection.connectDestroyed, if_neg hconn, assertThat_of hnone, ok_bind]
  rw [TcpLifecycle.step, TcpLifecycle.onConn_ok heq, ok_bind]

theorem connectDestroyed_of_removed (h : Good n (some c) s) (hconn : s.conns[c]? = some conn)
    (hat : ConnAt n s c conn .removed none) :
    ∃ s', s.execute conn.loop_ (.connectDestroyed c) = .ok s' ∧ Inv n s' := by
  have hclosed : Closed conn.system := hat.holds
  have hstep := connectDestroyed_of_closed hclosed
  have hcall : s.callInLoop conn.loop_ c .connectDestroyed =
      .ok (s.withSystem c conn .connectDestroyed { conn.system with destroyed := true }) := by
    rw [callInLoop]
    simp only [hconn, assertThat_of, ok_bind]
    rw [hstep, ok_bind]
  refine ⟨_, hcall, (h.withSystem _ _).close .destroyed (getElem?_withSystem hconn _ _) ?_⟩
  refine hat.withSystem .destroyed ⟨by simp [hclosed.state], hclosed.lasts⟩ ?_ hstep
    ⟨rfl, ?_, hclosed.quiet⟩ rfl
  · exact fun hstate => by simp [hclosed.state] at hstate
  · simp only [Notified, hclosed.calls]
    decide

/-- Connections with different numbers are different. -/
theorem connection_ne {c' : Nat} (hc : c' ≠ c) : s.connection c' ≠ s.connection c := by
  intro heq
  have hnumber := congrArg Connection.number heq
  simp only [connection, TcpServer.connection] at hnumber
  omega

/-- The connection leaves the map, and its destruction is queued. -/
theorem removeConnectionInLoop_of_closing (h : Good n (some c) s) (hconn : s.conns[c]? = some conn)
    (hat : ConnAt n s c conn .closing none) :
    ∃ s', s.execute EventLoopThreadPool.baseLoop_ (.removeConnectionInLoop c) = .ok s' ∧
      Inv n s' := by
  have hmem : s.connection c ∈ s.server.live := hat.mapped.mpr rfl
  have hentry : s.server.connections_ (s.connection c).name_ = some (s.connection c) :=
    (h.exact _ _).mpr ⟨hmem, rfl⟩
  have hremove := TcpServer.removeConnectionInLoop_of_some hentry
  have hlive : ∀ c', s.connection c' ∈ (s.server.removed (s.connection c)).live ↔
      c' ≠ c ∧ s.connection c' ∈ s.server.live := by
    intro c'
    rw [TcpServer.removed, h.server.nodup.mem_erase_iff]
    constructor
    · rintro ⟨hne, hmem⟩
      exact ⟨fun heq => hne (congrArg _ heq), hmem⟩
    · rintro ⟨hne, hmem⟩
      exact ⟨connection_ne hne, hmem⟩
  have hgood : Good n (some c) { s with server := s.server.removed (s.connection c) } := by
    refine h.frame (TcpServer.inv_removed h.server _)
      (TcpServer.exact_removed h.server h.exact hmem)
      rfl rfl rfl h.known fun c' hc' => ⟨rfl, fun _ => rfl, ?_⟩
    exact (hlive c').trans ⟨fun h => h.2, fun h => ⟨hc', h⟩⟩
  refine ⟨({ s with server := s.server.removed (s.connection c) } : ServerLoops).queueInLoop
    conn.loop_ (.connectDestroyed c), ?_, (hgood.queueInLoop hconn rfl).close .removed hconn
    ⟨hat.history, hat.loop, hat.holds, ?_, ?_⟩⟩
  · rw [execute, removeConnectionInLoop]
    simp only [hconn, assertThat_of, ok_bind, hremove]
  · exact ⟨fun hmem => absurd rfl ((hlive c).mp hmem).1, fun h => absurd h Bool.false_ne_true⟩
  · exact Mail.queueInLoop (hat.mail.congr fun _ => rfl) rfl

/-- The functor that is due is run. -/
theorem execute_of_functor (h : Good n (some c) s) (hconn : s.conns[c]? = some conn)
    (hat : ConnAt n s c conn stage none) (hfunctor : stage.functor conn.loop_ c = some (k, f)) :
    ∃ s', s.execute k f = .ok s' ∧ Inv n s' := by
  cases stage with
  | accepted =>
      obtain ⟨rfl, rfl⟩ := Prod.mk.inj (Option.some.inj hfunctor)
      exact connectEstablished_of_accepted h hconn hat
  | up => exact absurd hfunctor (by simp [Stage.functor])
  | closing =>
      obtain ⟨rfl, rfl⟩ := Prod.mk.inj (Option.some.inj hfunctor)
      exact removeConnectionInLoop_of_closing h hconn hat
  | removed =>
      obtain ⟨rfl, rfl⟩ := Prod.mk.inj (Option.some.inj hfunctor)
      exact connectDestroyed_of_removed h hconn hat
  | destroyed => exact absurd hfunctor (by simp [Stage.functor])

theorem conn_of_functor {loop_ : Nat} (hfunctor : stage.functor loop_ c = some (k, f)) :
    f.conn = c := by
  cases stage with
  | up => exact absurd hfunctor (by simp [Stage.functor])
  | destroyed => exact absurd hfunctor (by simp [Stage.functor])
  | _ => obtain ⟨-, rfl⟩ := Prod.mk.inj (Option.some.inj hfunctor); rfl

/-- The functor that is due is run at once or queued. -/
theorem runInLoop_of_functor (h : Good n (some c) s) (hconn : s.conns[c]? = some conn)
    (hat : ConnAt n s c conn stage none) (hfunctor : stage.functor conn.loop_ c = some (k, f))
    (caller : Nat) : ∃ s', s.runInLoop caller k f = .ok s' ∧ Inv n s' := by
  unfold runInLoop
  split
  · exact execute_of_functor h hconn hat hfunctor
  · have hf := conn_of_functor hfunctor
    refine ⟨_, rfl, (h.queueInLoop hconn hf).close stage hconn ?_⟩
    rw [hfunctor]
    exact ⟨hat.history, hat.loop, hat.holds, hat.mapped, hat.mail.queueInLoop hf⟩

theorem inv_newConnection (h : Inv n s) (hdistinct : s.server.Distinct .newConnection)
    (fd : Int) (highWaterMark : Nat) (writeComplete highWater : Bool) :
    ∃ s', s.newConnection (.new fd highWaterMark writeComplete highWater) = .ok s' ∧ Inv n s' := by
  obtain ⟨threadPool_, hnextLoop, hpool, -, -⟩ := EventLoopThreadPool.getNextLoop_of_serving h.pool
  have hfits := (TcpServer.fits_newConnection_iff h.server h.exact).mpr hdistinct
  let initial := TcpLifecycle.System.new fd highWaterMark writeComplete highWater
  let loop_ := EventLoopThreadPool.turn n s.conns.length
  let s₁ : ServerLoops := { s with
    threadPool_
    server := s.server.newConnection
    conns := s.conns ++ [Conn.mk loop_ initial [] initial] }
  have hold : ∀ c, c ≠ s.conns.length → s₁.conns[c]? = s.conns[c]? := by
    intro c hc
    by_cases hlt : c < s.conns.length
    · exact List.getElem?_append_left hlt
    · have hlength : s₁.conns.length = s.conns.length + 1 := by simp [s₁]
      rw [List.getElem?_eq_none (by omega), List.getElem?_eq_none (by omega)]
  have hnew : s₁.conns[s.conns.length]? = some (Conn.mk loop_ initial [] initial) :=
    List.getElem?_concat_length
  have hnumber : ∀ c, s₁.connection c ∈ s₁.server.live ↔
      s.connection c ∈ s.server.live ∨ c = s.conns.length := by
    intro c
    have hsame : s₁.connection c = s.connection c := rfl
    have hlive : s₁.server.live = s.server.live ++ [s.connection s.conns.length] := by
      simp only [s₁, TcpServer.newConnection, h.next, connection]
    rw [hsame, hlive, List.mem_append, List.mem_singleton]
    refine or_congr_right ⟨fun heq => ?_, fun heq => by rw [heq]⟩
    by_contra hc
    exact connection_ne hc heq
  -- no functor can refer to a connection that was not there
  have hnone : s₁.Mail s.conns.length none := by
    intro k
    refine List.filter_eq_nil_iff.mpr fun f hf => ?_
    have hlt := h.known k f hf
    simp only [decide_eq_true_eq]
    omega
  have hgood : Good n (some s.conns.length) s₁ := by
    refine ⟨TcpServer.inv_newConnection h.server,
      TcpServer.exact_newConnection h.exact hfits, ?_, ?_,
      fun k f hf => ?_, fun c conn hne hconn => ?_⟩
    · simp only [s₁, TcpServer.newConnection, h.next, List.length_append, List.length_singleton]
    · simpa [s₁] using hpool
    · have hlt := h.known k f hf
      simp only [s₁, List.length_append, List.length_singleton]
      omega
    · have hc : c ≠ s.conns.length := fun heq => hne (congrArg some heq.symm)
      rw [hold c hc] at hconn
      obtain ⟨stage, hat⟩ := h.conns c conn (by simp) hconn
      exact ⟨stage, hat.congr (fun _ => rfl) ((hnumber c).trans (by simp [hc]))⟩
  have hat : ConnAt n s₁ s.conns.length (Conn.mk loop_ initial [] initial) .accepted none :=
    ⟨⟨⟨fd, highWaterMark, writeComplete, highWater, rfl⟩, trivial, rfl⟩, rfl, rfl,
      by simp [hnumber, Stage.mapped], hnone⟩
  obtain ⟨s', hs', hinv⟩ := runInLoop_of_functor hgood hnew hat rfl EventLoopThreadPool.baseLoop_
  refine ⟨s', ?_, hinv⟩
  rw [newConnection, hnextLoop, ok_bind]
  exact hs'

theorem inv_doPendingFunctor (h : Inv n s) (k : Nat) :
    ∃ s', s.doPendingFunctor k = .ok s' ∧ Inv n s' := by
  unfold doPendingFunctor
  split
  · exact ⟨s, rfl, h⟩
  · rename_i f rest hqueue
    have hlt : f.conn < s.conns.length := h.known k f (hqueue ▸ List.mem_cons_self)
    have hconn : s.conns[f.conn]? = some s.conns[f.conn] := List.getElem?_eq_getElem hlt
    obtain ⟨stage, hat⟩ := h.conns _ _ (by simp) hconn
    obtain ⟨hfunctor, hmail⟩ := hat.mail.pop hqueue rfl
    exact execute_of_functor (Good.pop h hqueue rfl) hconn
      ⟨hat.history, hat.loop, hat.holds, hat.mapped, hmail⟩ hfunctor

theorem inv_onConnection (h : Inv n s) (hconn : s.conns[c]? = some conn) {a : TcpLifecycle.Action}
    (hoffers : Offers conn.system a) : ∃ s', s.onConnection c a = .ok s' ∧ Inv n s' := by
  obtain ⟨stage, hat⟩ := h.conns c conn (by simp) hconn
  rw [onConnection]
  simp only [hconn]
  rcases stage_of_offers hat.history hat.holds hoffers with ⟨rfl, hlive⟩ | ⟨hstage, hclosed⟩
  · obtain ⟨hlegal, hcloses, system, hstep, hsystem⟩ := step_of_live hlive hoffers
    rw [hstep, ok_bind]
    rcases hsystem with hlive' | hclosed'
    · rw [closeCalls_of_live hlive, closeCalls_of_live hlive', if_neg (Nat.lt_irrefl 0)]
      refine ⟨_, rfl, ((h.open c).withSystem a system).close .up
        (getElem?_withSystem hconn a system) ?_⟩
      exact hat.withSystem .up hlegal hcloses hstep hlive' rfl
    · rw [closeCalls_of_live hlive, closeCalls_of_closed hclosed', if_pos Nat.zero_lt_one]
      exact runInLoop_of_functor ((h.open c).withSystem a system)
        (getElem?_withSystem hconn a system)
        (hat.withSystem .closing hlegal hcloses hstep hclosed' rfl) rfl conn.loop_
  · obtain ⟨hlegal, hcloses, system, hstep, hclosed'⟩ := step_of_closed hclosed hoffers
    rw [hstep, ok_bind, closeCalls_of_closed hclosed, closeCalls_of_closed hclosed',
      if_neg (Nat.lt_irrefl 1)]
    refine ⟨_, rfl, ((h.open c).withSystem a system).close stage
      (getElem?_withSystem hconn a system) ?_⟩
    rcases hstage with rfl | rfl
    · exact hat.withSystem .closing hlegal hcloses hstep hclosed' rfl
    · exact hat.withSystem .removed hlegal hcloses hstep hclosed' rfl

theorem inv_step (h : Inv n s) {a : Action} (hlegal : s.Legal a) :
    ∃ s', s.step a = .ok s' ∧ Inv n s' := by
  cases a with
  | newConnection fd highWaterMark writeComplete highWater =>
      exact inv_newConnection h hlegal.2 fd highWaterMark writeComplete highWater
  | doPendingFunctor k => exact inv_doPendingFunctor h k
  | onConnection c a =>
      obtain ⟨conn, hconn, hoffers⟩ := hlegal
      exact inv_onConnection h hconn hoffers

end Steps

/-! ## Whole runs -/

theorem inv_new (listenAddr : InetAddress) (nameArg : List Char) {n : Nat} {cb : Bool}
    {threadPool_ : EventLoopThreadPool}
    (hstart : (EventLoopThreadPool.new n).start cb = .ok threadPool_) :
    Inv n (new listenAddr nameArg threadPool_) := by
  obtain ⟨pool, hpool, hserving, -⟩ := EventLoopThreadPool.start_new n cb
  obtain rfl := Except.ok.inj (hstart.symm.trans hpool)
  exact ⟨TcpServer.inv_new listenAddr nameArg, TcpServer.exact_of_empty rfl rfl, rfl, hserving,
    fun k f hf => absurd hf List.not_mem_nil, fun c conn _ hconn => by simp [new] at hconn⟩

theorem run_inv (listenAddr : InetAddress) (nameArg : List Char) {n : Nat} {cb : Bool}
    {threadPool_ : EventLoopThreadPool}
    (hstart : (EventLoopThreadPool.new n).start cb = .ok threadPool_)
    {actions : List Action}
    (hlegal : machine.LegalRun (new listenAddr nameArg threadPool_) actions) :
    ∃ s, machine.run (new listenAddr nameArg threadPool_) actions = .ok s ∧ Inv n s :=
  Machine.run_invariant (Inv n) (fun _ _ h hop => inv_step h hop)
    (inv_new listenAddr nameArg hstart)
    hlegal

/-- For every number of I/O threads and every interleaving of accepts, functors in all loops,
events and calls in which fewer than 2^31 connections are accepted, none of them gets the name
of one in the map, and no event closes a connection twice: no assertion fails, the map stays
exact, and connection number `c` belongs to the loop whose turn it was.  The steps taken on
each connection are a run as `TcpLifecycle` wants it: `connectEstablished` comes first, before
any event, `connectDestroyed` comes last, and only after the connection was closed; and when it
has come, the user was told once that the connection is up and once that it is down. -/
theorem connections_run_legally (listenAddr : InetAddress) (nameArg : List Char) (n : Nat)
    (cb : Bool)
    (threadPool_ : EventLoopThreadPool)
    (hstart : (EventLoopThreadPool.new n).start cb = .ok threadPool_) (actions : List Action)
    (hlegal : machine.LegalRun (new listenAddr nameArg threadPool_) actions) :
    ∃ s, machine.run (new listenAddr nameArg threadPool_) actions = .ok s ∧ s.server.Exact ∧
      ∀ c conn, s.conns[c]? = some conn →
        conn.loop_ = EventLoopThreadPool.turn n c ∧
        (∃ fd highWaterMark writeComplete highWater,
          conn.initial = .new fd highWaterMark writeComplete highWater) ∧
        (TcpLifecycle.machine.restrict ClosesOnce).LegalRun conn.initial conn.steps ∧
        TcpLifecycle.machine.run conn.initial conn.steps = .ok conn.system ∧
        (conn.system.destroyed = true → Notified conn.system) := by
  obtain ⟨s, hrun, h⟩ := run_inv listenAddr nameArg hstart hlegal
  refine ⟨s, hrun, h.exact, fun c conn hconn => ?_⟩
  obtain ⟨stage, hat⟩ := h.conns c conn (by simp) hconn
  refine ⟨hat.loop, hat.history.initial, hat.history.legal, hat.history.run, fun hdestroyed => ?_⟩
  have hholds := hat.holds
  cases stage with
  | accepted =>
      exact absurd ((hat.history.fresh hholds).1.lasts.symm.trans hdestroyed) Bool.false_ne_true
  | up => exact absurd (hholds.lasts.symm.trans hdestroyed) Bool.false_ne_true
  | closing => exact absurd (hholds.lasts.symm.trans hdestroyed) Bool.false_ne_true
  | removed => exact absurd (hholds.lasts.symm.trans hdestroyed) Bool.false_ne_true
  | destroyed => exact hholds.2.1

/-- Two I/O threads.  The first connection is closed by the peer; its loop hands it over to
the acceptor's loop and gets it back, while a second and a third one come. -/
def handover : List Action :=
  [.newConnection 7 1024 false false, .doPendingFunctor 1,
    .onConnection 0 (.handleEvent POLLIN (.received [104]) [.send [104] (.wrote 1)] (.wrote 0)),
    .newConnection 8 1024 false false,
    .onConnection 0 (.handleEvent (POLLIN ||| POLLHUP) (.received []) [] (.wrote 0)),
    .newConnection 9 1024 false false, .doPendingFunctor 0,
    .onConnection 0 (.call (.send [105] (.wrote 1))), .doPendingFunctor 1, .doPendingFunctor 2,
    .doPendingFunctor 1]

/-- The pool of the two threads. -/
def twoThreads : EventLoopThreadPool := ⟨true, 2, 0, [1, 2], []⟩

theorem connections_run_legally_handover :
    (EventLoopThreadPool.new 2).start false = .ok twoThreads ∧
      machine.LegalRun (new TcpServer.longAddress [] twoThreads) handover ∧
      ∃ s, machine.run (new TcpServer.longAddress [] twoThreads) handover = .ok s ∧ s.server.Exact ∧
        ∀ c conn, s.conns[c]? = some conn →
          conn.loop_ = EventLoopThreadPool.turn 2 c ∧
          (∃ fd highWaterMark writeComplete highWater,
            conn.initial = .new fd highWaterMark writeComplete highWater) ∧
          (TcpLifecycle.machine.restrict ClosesOnce).LegalRun conn.initial conn.steps ∧
          TcpLifecycle.machine.run conn.initial conn.steps = .ok conn.system ∧
          (conn.system.destroyed = true → Notified conn.system) := by
  have hlegal : machine.LegalRun (new TcpServer.longAddress [] twoThreads) handover := by
    decide +kernel
  exact ⟨rfl, hlegal,
    connections_run_legally TcpServer.longAddress [] 2 false twoThreads rfl handover hlegal⟩

/-- The server or one of its functors holds a pointer to the connection. -/
def Held (s : ServerLoops) (c : Nat) : Prop :=
  s.server.connections_ (s.connection c).name_ = some (s.connection c) ∨
    ∃ k, ∃ f ∈ s.pendingFunctors_ k, f.conn = c

/-- No loop has anything to do for the server. -/
def Quiet (s : ServerLoops) : Prop := ∀ k, s.pendingFunctors_ k = []

theorem mem_mail {s : ServerLoops} {k c : Nat} {f : LoopFunctor} :
    f ∈ s.mail k c ↔ f ∈ s.pendingFunctors_ k ∧ f.conn = c := by
  simp [mail, List.mem_filter]

theorem held_iff {n c : Nat} {conn : Conn} {stage : Stage} {s : ServerLoops} (h : Inv n s)
    (hat : ConnAt n s c conn stage (stage.functor conn.loop_ c)) :
    s.Held c ↔ stage ≠ .destroyed := by
  have hmap : s.server.connections_ (s.connection c).name_ = some (s.connection c) ↔
      stage.mapped = true := by
    rw [h.exact, ← hat.mapped]
    exact ⟨fun h => h.1, fun h => ⟨h, rfl⟩⟩
  have hmail := hat.mail
  unfold Held
  rw [hmap]
  cases stage with
  | destroyed =>
      constructor
      · rintro (hmapped | ⟨k, f, hf, hc⟩)
        · exact absurd hmapped Bool.false_ne_true
        · have hmem := mem_mail.mpr ⟨hf, hc⟩
          rw [hmail k] at hmem
          exact absurd hmem List.not_mem_nil
      · exact fun hne => absurd rfl hne
  | removed =>
      refine ⟨fun _ => by simp, fun _ => .inr ⟨conn.loop_, .connectDestroyed c, ?_⟩⟩
      refine mem_mail.mp ?_
      rw [hmail conn.loop_, if_pos rfl]
      exact List.mem_singleton.mpr rfl
  | _ => exact ⟨fun _ => by simp, fun _ => .inl rfl⟩

/-- In every state that such a run reaches: the server holds a connection exactly until it is
destroyed, so that the channel that a poller knows belongs to a connection that is still there,
and nothing of a destroyed one is left.  And whenever no functor is under way, every connection
is up and in the map, or it is destroyed, the user has been told, and it is not in the map. -/
theorem held_until_destroyed (listenAddr : InetAddress) (nameArg : List Char) (n : Nat) (cb : Bool)
    (threadPool_ : EventLoopThreadPool)
    (hstart : (EventLoopThreadPool.new n).start cb = .ok threadPool_) (actions : List Action)
    (hlegal : machine.LegalRun (new listenAddr nameArg threadPool_) actions) :
    ∃ s, machine.run (new listenAddr nameArg threadPool_) actions = .ok s ∧
      ∀ c conn, s.conns[c]? = some conn →
        (s.Held c ↔ conn.system.destroyed = false) ∧
        (s.Quiet →
          (Live conn.system ∧ s.connection c ∈ s.server.live) ∨
            (conn.system.destroyed = true ∧ Notified conn.system ∧
              s.connection c ∉ s.server.live)) := by
  obtain ⟨s, hrun, h⟩ := run_inv listenAddr nameArg hstart hlegal
  refine ⟨s, hrun, fun c conn hconn => ?_⟩
  obtain ⟨stage, hat⟩ := h.conns c conn (by simp) hconn
  have hheld := held_iff h hat
  have hholds := hat.holds
  have hlasts : stage ≠ .destroyed ↔ conn.system.destroyed = false := by
    cases stage with
    | accepted => exact ⟨fun _ => (hat.history.fresh hholds).1.lasts, fun _ => by simp⟩
    | up => exact ⟨fun _ => hholds.lasts, fun _ => by simp⟩
    | closing => exact ⟨fun _ => hholds.lasts, fun _ => by simp⟩
    | removed => exact ⟨fun _ => hholds.lasts, fun _ => by simp⟩
    | destroyed =>
        exact ⟨fun hne => absurd rfl hne,
          fun hlasts => absurd (hlasts.symm.trans hholds.1) Bool.false_ne_true⟩
  refine ⟨hheld.trans hlasts, fun hquiet => ?_⟩
  have hnone : ∀ home f, stage.functor conn.loop_ c ≠ some (home, f) := by
    intro home f hfunctor
    have hmail := hat.mail
    rw [hfunctor] at hmail
    have hhome := hmail home
    rw [if_pos rfl, mail, hquiet home] at hhome
    exact absurd hhome (by simp)
  cases stage with
  | up => exact .inl ⟨hholds, hat.mapped.mpr rfl⟩
  | destroyed =>
      exact .inr ⟨hholds.1, hholds.2.1,
        fun hmem => absurd (hat.mapped.mp hmem) Bool.false_ne_true⟩
  | _ => exact absurd rfl (hnone _ _)

theorem held_until_destroyed_handover :
    (EventLoopThreadPool.new 2).start false = .ok twoThreads ∧
      machine.LegalRun (new TcpServer.longAddress [] twoThreads) handover ∧
      ∃ s, machine.run (new TcpServer.longAddress [] twoThreads) handover = .ok s ∧
        ∀ c conn, s.conns[c]? = some conn →
          (s.Held c ↔ conn.system.destroyed = false) ∧
          (s.Quiet →
            (Live conn.system ∧ s.connection c ∈ s.server.live) ∨
              (conn.system.destroyed = true ∧ Notified conn.system ∧
                s.connection c ∉ s.server.live)) := by
  have hlegal : machine.LegalRun (new TcpServer.longAddress [] twoThreads) handover := by
    decide +kernel
  exact ⟨rfl, hlegal,
    held_until_destroyed TcpServer.longAddress [] 2 false twoThreads rfl handover hlegal⟩

end ServerLoops

end TcpServerLoops

end Muduo.Net
