import ChatServer.Broadcast
import ChatServer.Lib.Shards

/-!
Who owns a connection. A Connection is shared by counted references and owns
its descriptor: the descriptor is open as long as there is a reference, and
accept may return any descriptor that is not open. References are held by the
shard maps, by the reactor and the logic thread while they run accept_loop, a
handler or close_conn, by the events and the directory of the logic thread and
by the tasks of the pool. The loop of Run looks connections up by the
descriptors that epoll_wait reported for a batch.
-/
namespace ChatServer.ConnectionTable

open Broadcast Lib.Runs Lib.Shards

/-- Descriptors are nonnegative values of a 32-bit int. -/
def maxFd : ℕ := 2 ^ 31

/-- `get_shard_idx`, as an index of `shards_`. -/
def shardOf (fd : ℕ) : Fin numShards := ⟨shardIdx fd, Nat.mod_lt fd (by decide)⟩

/-- What counts of a Connection here; the object is destroyed with its last
reference, and its descriptor is closed then. -/
structure Conn where
  fd : ℕ
  closed : Bool
deriving DecidableEq

/-- The bits of `events[i].events` that Run tests. -/
structure ReadyBits where
  hangup : Bool
  readable : Bool
  writable : Bool
deriving DecidableEq

/-- An entry of the batch that epoll_wait filled. The kernel reports an event
for a registered connection, and tells its descriptor only. -/
inductive Ready
  | listen
  | timer
  | other
  | conn (fd : ℕ) (bits : ReadyBits) (source : ConnId)
deriving DecidableEq

inductive Handler
  | closeConn
  | handleRead
  | handleWrite
deriving DecidableEq

/-- A call that Run makes with a connection, for the event of `source`. -/
structure Call where
  handler : Handler
  source : ConnId
  conn : ConnId
deriving DecidableEq

/-- Where accept_loop is with the connection it has made. -/
inductive AcceptStage
  | made
  | inserted
  | registered
  | counted
deriving DecidableEq

/-- How far close_conn has come since its exchange. -/
inductive CloseStage
  | exchanged
  | counted
  | pushed
  | deleted
deriving DecidableEq

inductive Reactor
  | waiting
  /-- The entries left, and the calls left for the one before them. -/
  | dispatching (batch : List Ready) (calls : List Call)
  /-- In accept_loop, with the entries left after that of the listening socket. -/
  | accepting (batch : List Ready) (conn : Option (ConnId × AcceptStage))

/-- The threads that run close_conn. -/
inductive Thread
  | reactor
  | logic
deriving DecidableEq

structure Server where
  conns : ConnId → Option Conn
  /-- The connections accepted so far. -/
  accepted : ℕ
  table : ShardedMap shardOf ConnId
  /-- The connections registered with the epoll instance. -/
  interest : List ConnId
  /-- How often `active_connections_` was incremented, less how often it was
  decremented; the counter has this value modulo its size. -/
  activeConnections : ℤ
  /-- The references in the event queue and those of the logic thread. -/
  logicRefs : ConnId → ℕ
  /-- The references in the snapshots of the shard tasks. -/
  poolRefs : ConnId → ℕ
  reactor : Reactor
  closing : Thread → Option (ConnId × CloseStage)
  /-- The calls that Run has made. -/
  called : List Call

inductive Action
  | epollWait (batch : List Ready)
  | dispatch (timedOut : List ConnId)
  | handle (messages : ℕ) (shouldClose : Bool)
  | endBatch
  | accept (fd : ℕ)
  | insert
  | register
  | count
  | pushConnect
  | acceptFails
  | logicClose (conn : ConnId)
  | closeCount (thread : Thread)
  | closePush (thread : Thread)
  | closeDelete (thread : Thread)
  | closeErase (thread : Thread)
  | copyRef (conn : ConnId)
  | dropRef (conn : ConnId)
  | snapshot (conn : ConnId)
  | dropSnapshot (conn : ConnId)

/-- The calls of Run for an event of `source` that is looked up as `conn`. -/
def ReadyBits.calls (bits : ReadyBits) (source conn : ConnId) : List Call :=
  if bits.hangup then [⟨.closeConn, source, conn⟩]
  else (if bits.readable then [⟨.handleRead, source, conn⟩] else []) ++
    if bits.writable then [⟨.handleWrite, source, conn⟩] else []

/-- The references that the reactor holds. -/
def Reactor.refs : Reactor → List ConnId
  | .waiting => []
  | .dispatching _ calls => calls.map Call.conn
  | .accepting _ conn => (conn.map Prod.fst).toList

namespace Server

def init : Server where
  conns _ := none
  accepted := 0
  table := .empty
  interest := []
  activeConnections := 0
  logicRefs _ := 0
  poolRefs _ := 0
  reactor := .waiting
  closing _ := none
  called := []

/-- There is a reference to the connection. -/
def Alive (s : Server) (c : ConnId) : Prop :=
  s.table.Has c ∨ c ∈ s.reactor.refs ∨ (s.closing .reactor).map Prod.fst = some c ∨
    (s.closing .logic).map Prod.fst = some c ∨ 0 < s.logicRefs c ∨ 0 < s.poolRefs c

instance (s : Server) (c : ConnId) : Decidable (s.Alive c) :=
  inferInstanceAs (Decidable (_ ∨ _ ∨ _ ∨ _ ∨ _ ∨ _))

def fdOf (s : Server) (c : ConnId) : Option ℕ := (s.conns c).map Conn.fd

/-- The descriptor is that of a connection that has not been destroyed. -/
def FdOpen (s : Server) (fd : ℕ) : Prop := ∃ c < s.accepted, s.Alive c ∧ s.fdOf c = some fd

instance (s : Server) (fd : ℕ) : Decidable (s.FdOpen fd) :=
  inferInstanceAs (Decidable (∃ c < s.accepted, s.Alive c ∧ s.fdOf c = some fd))

/-- What epoll_wait may report. -/
def Reported (s : Server) : Ready → Prop
  | .conn fd _ source => source ∈ s.interest ∧ s.fdOf source = some fd
  | _ => True

instance (s : Server) (e : Ready) : Decidable (s.Reported e) := by
  unfold Reported
  split <;> infer_instance

def setClosing (s : Server) (thread : Thread) (stage : Option (ConnId × CloseStage)) : Server :=
  { s with closing := Function.update s.closing thread stage }

def addRefs (s : Server) (c : ConnId) (count : ℕ) : Server :=
  { s with logicRefs := Function.update s.logicRefs c (s.logicRefs c + count) }

/-- The exchange at the start of close_conn. -/
def close (s : Server) (thread : Thread) (c : ConnId) : Server :=
  match s.conns c with
  | some ⟨fd, false⟩ =>
      { s with conns := Function.update s.conns c (some ⟨fd, true⟩) }.setClosing thread
        (some (c, .exchanged))
  | _ => s

def next (s : Server) : Action → Option Server
  | .epollWait batch =>
      match s.reactor with
      | .waiting =>
          if batch.length ≤ maxEvents ∧ ∀ e ∈ batch, s.Reported e then
            some { s with reactor := .dispatching batch [] }
          else none
      | _ => none
  | .dispatch timedOut =>
      match s.reactor, s.closing .reactor with
      | .dispatching (.listen :: rest) [], none =>
          some { s with reactor := .accepting rest none }
      | .dispatching (.timer :: rest) [], none =>
          -- check_timeouts: the connections that it closes are in the maps
          if ∀ c ∈ timedOut, s.table.Has c then
            some { s with
              reactor := .dispatching rest (timedOut.map fun c => ⟨.closeConn, c, c⟩) }
          else none
      | .dispatching (.other :: rest) [], none =>
          some { s with reactor := .dispatching rest [] }
      | .dispatching (.conn fd bits source :: rest) [], none =>
          match s.table.lookup fd with
          | some c => some { s with reactor := .dispatching rest (bits.calls source c) }
          | none => some { s with reactor := .dispatching rest [] }
      | _, _ => none
  | .handle messages shouldClose =>
      match s.reactor, s.closing .reactor with
      | .dispatching batch (call :: calls), none =>
          -- handle_read pushes the messages it has decoded
          if messages = 0 ∨ call.handler = .handleRead then
            let t := { s.addRefs call.conn messages with
              reactor := .dispatching batch calls
              called := s.called ++ [call] }
            some (if call.handler = .closeConn ∨ shouldClose = true then
              t.close .reactor call.conn else t)
          else none
      | _, _ => none
  | .endBatch =>
      match s.reactor, s.closing .reactor with
      | .dispatching [] [], none => some { s with reactor := .waiting }
      | _, _ => none
  | .accept fd =>
      match s.reactor with
      | .accepting rest none =>
          if fd < maxFd ∧ ¬ s.FdOpen fd then
            some { s with
              conns := Function.update s.conns s.accepted (some ⟨fd, false⟩)
              accepted := s.accepted + 1
              reactor := .accepting rest (some (s.accepted, .made)) }
          else none
      | _ => none
  | .insert =>
      match s.reactor with
      | .accepting rest (some (c, .made)) =>
          (s.fdOf c).map fun fd =>
            { s with
              table := s.table.insert fd c
              reactor := .accepting rest (some (c, .inserted)) }
      | _ => none
  | .register =>
      match s.reactor with
      | .accepting rest (some (c, .inserted)) =>
          some { s with
            interest := c :: s.interest
            reactor := .accepting rest (some (c, .registered)) }
      | _ => none
  | .count =>
      match s.reactor with
      | .accepting rest (some (c, .registered)) =>
          some { s with
            activeConnections := s.activeConnections + 1
            reactor := .accepting rest (some (c, .counted)) }
      | _ => none
  | .pushConnect =>
      match s.reactor with
      | .accepting rest (some (c, .counted)) =>
          some { s.addRefs c 1 with reactor := .accepting rest none }
      | _ => none
  | .acceptFails =>
      match s.reactor with
      | .accepting rest none => some { s with reactor := .dispatching rest [] }
      | _ => none
  | .logicClose c =>
      if s.closing .logic = none ∧ 0 < s.logicRefs c then some (s.close .logic c) else none
  | .closeCount thread =>
      match s.closing thread with
      | some (c, .exchanged) =>
          some ({ s with activeConnections := s.activeConnections - 1 }.setClosing thread
            (some (c, .counted)))
      | _ => none
  | .closePush thread =>
      match s.closing thread with
      | some (c, .counted) => some ((s.addRefs c 1).setClosing thread (some (c, .pushed)))
      | _ => none
  | .closeDelete thread =>
      match s.closing thread with
      | some (c, .pushed) =>
          some ({ s with interest := s.interest.filter (· ≠ c) }.setClosing thread
            (some (c, .deleted)))
      | _ => none
  | .closeErase thread =>
      match s.closing thread with
      | some (c, .deleted) =>
          (s.fdOf c).map fun fd =>
            { s with table := s.table.erase fd }.setClosing thread none
      | _ => none
  | .copyRef c => if 0 < s.logicRefs c then some (s.addRefs c 1) else none
  | .dropRef c =>
      if 0 < s.logicRefs c then
        some { s with logicRefs := Function.update s.logicRefs c (s.logicRefs c - 1) }
      else none
  | .snapshot c =>
      if s.table.Has c then
        some { s with poolRefs := Function.update s.poolRefs c (s.poolRefs c + 1) }
      else none
  | .dropSnapshot c =>
      if 0 < s.poolRefs c then
        some { s with poolRefs := Function.update s.poolRefs c (s.poolRefs c - 1) }
      else none

/-- What a step can do: when it can be taken, and the state it leads to. -/
inductive Moves (s : Server) : Action → Server → Prop
  | epollWait {batch : List Ready} (hreactor : s.reactor = .waiting)
      (hreported : ∀ e ∈ batch, s.Reported e) :
      Moves s (.epollWait batch) { s with reactor := .dispatching batch [] }
  | listen {rest : List Ready} (timedOut : List ConnId)
      (hreactor : s.reactor = .dispatching (.listen :: rest) []) :
      Moves s (.dispatch timedOut) { s with reactor := .accepting rest none }
  | timer {rest : List Ready} {timedOut : List ConnId}
      (hreactor : s.reactor = .dispatching (.timer :: rest) [])
      (hmapped : ∀ c ∈ timedOut, s.table.Has c) :
      Moves s (.dispatch timedOut) { s with
        reactor := .dispatching rest (timedOut.map fun c => ⟨.closeConn, c, c⟩) }
  | other {rest : List Ready} (timedOut : List ConnId)
      (hreactor : s.reactor = .dispatching (.other :: rest) []) :
      Moves s (.dispatch timedOut) { s with reactor := .dispatching rest [] }
  | found {rest : List Ready} {fd : ℕ} {bits : ReadyBits} {source c : ConnId}
      (timedOut : List ConnId)
      (hreactor : s.reactor = .dispatching (.conn fd bits source :: rest) [])
      (hlookup : s.table.lookup fd = some c) :
      Moves s (.dispatch timedOut) { s with reactor := .dispatching rest (bits.calls source c) }
  | missing {rest : List Ready} {fd : ℕ} {bits : ReadyBits} {source : ConnId}
      (timedOut : List ConnId)
      (hreactor : s.reactor = .dispatching (.conn fd bits source :: rest) [])
      (hlookup : s.table.lookup fd = none) :
      Moves s (.dispatch timedOut) { s with reactor := .dispatching rest [] }
  | handle {batch : List Ready} {call : Call} {calls : List Call} (messages : ℕ)
      (hreactor : s.reactor = .dispatching batch (call :: calls)) :
      Moves s (.handle messages false) { s.addRefs call.conn messages with
        reactor := .dispatching batch calls
        called := s.called ++ [call] }
  | handleClose {batch : List Ready} {call : Call} {calls : List Call} (messages : ℕ)
      (shouldClose : Bool) (hreactor : s.reactor = .dispatching batch (call :: calls))
      (hclosing : s.closing .reactor = none) :
      Moves s (.handle messages shouldClose)
        (({ s.addRefs call.conn messages with
          reactor := .dispatching batch calls
          called := s.called ++ [call] } : Server).close .reactor call.conn)
  | endBatch (hreactor : s.reactor = .dispatching [] []) :
      Moves s .endBatch { s with reactor := .waiting }
  | accept {rest : List Ready} {fd : ℕ} (hreactor : s.reactor = .accepting rest none)
      (hfd : fd < maxFd) (hfree : ¬ s.FdOpen fd) :
      Moves s (.accept fd) { s with
        conns := Function.update s.conns s.accepted (some ⟨fd, false⟩)
        accepted := s.accepted + 1
        reactor := .accepting rest (some (s.accepted, .made)) }
  | insert {rest : List Ready} {c : ConnId} {fd : ℕ}
      (hreactor : s.reactor = .accepting rest (some (c, .made))) (hfd : s.fdOf c = some fd) :
      Moves s .insert { s with
        table := s.table.insert fd c
        reactor := .accepting rest (some (c, .inserted)) }
  | register {rest : List Ready} {c : ConnId}
      (hreactor : s.reactor = .accepting rest (some (c, .inserted))) :
      Moves s .register { s with
        interest := c :: s.interest
        reactor := .accepting rest (some (c, .registered)) }
  | count {rest : List Ready} {c : ConnId}
      (hreactor : s.reactor = .accepting rest (some (c, .registered))) :
      Moves s .count { s with
        activeConnections := s.activeConnections + 1
        reactor := .accepting rest (some (c, .counted)) }
  | pushConnect {rest : List Ready} {c : ConnId}
      (hreactor : s.reactor = .accepting rest (some (c, .counted))) :
      Moves s .pushConnect { s.addRefs c 1 with reactor := .accepting rest none }
  | acceptFails {rest : List Ready} (hreactor : s.reactor = .accepting rest none) :
      Moves s .acceptFails { s with reactor := .dispatching rest [] }
  | logicClose {c : ConnId} (hclosing : s.closing .logic = none) (hrefs : 0 < s.logicRefs c) :
      Moves s (.logicClose c) (s.close .logic c)
  | closeCount {thread : Thread} {c : ConnId} (hclosing : s.closing thread = some (c, .exchanged)) :
      Moves s (.closeCount thread)
        ({ s with activeConnections := s.activeConnections - 1 }.setClosing thread
          (some (c, .counted)))
  | closePush {thread : Thread} {c : ConnId} (hclosing : s.closing thread = some (c, .counted)) :
      Moves s (.closePush thread) ((s.addRefs c 1).setClosing thread (some (c, .pushed)))
  | closeDelete {thread : Thread} {c : ConnId} (hclosing : s.closing thread = some (c, .pushed)) :
      Moves s (.closeDelete thread)
        ({ s with interest := s.interest.filter (· ≠ c) }.setClosing thread (some (c, .deleted)))
  | closeErase {thread : Thread} {c : ConnId} {fd : ℕ}
      (hclosing : s.closing thread = some (c, .deleted)) (hfd : s.fdOf c = some fd) :
      Moves s (.closeErase thread)
        ({ s with table := s.table.erase fd }.setClosing thread none)
  | copyRef {c : ConnId} (hrefs : 0 < s.logicRefs c) : Moves s (.copyRef c) (s.addRefs c 1)
  | dropRef {c : ConnId} (hrefs : 0 < s.logicRefs c) :
      Moves s (.dropRef c)
        { s with logicRefs := Function.update s.logicRefs c (s.logicRefs c - 1) }
  | snapshot {c : ConnId} (hmapped : s.table.Has c) :
      Moves s (.snapshot c) { s with poolRefs := Function.update s.poolRefs c (s.poolRefs c + 1) }
  | dropSnapshot {c : ConnId} (hrefs : 0 < s.poolRefs c) :
      Moves s (.dropSnapshot c)
        { s with poolRefs := Function.update s.poolRefs c (s.poolRefs c - 1) }

section Stepping

variable {s t : Server} {a : Action}

theorem epollWait_moves {batch : List Ready} (hnext : s.next (.epollWait batch) = some t) :
    s.Moves (.epollWait batch) t := by
  simp only [next] at hnext
  split at hnext
  · rename_i hreactor
    simp only [Option.ite_none_right_eq_some, Option.some.injEq] at hnext
    obtain ⟨⟨_, hreported⟩, rfl⟩ := hnext
    exact .epollWait hreactor hreported
  · cases hnext

/-- The loop of Run comes to the next descriptor of its batch. -/
theorem dispatch_moves {timedOut : List ConnId} (hnext : s.next (.dispatch timedOut) = some t) :
    s.Moves (.dispatch timedOut) t := by
  simp only [next] at hnext
  split at hnext
  · rename_i hreactor hclosing
    cases hnext
    exact .listen timedOut hreactor
  · rename_i hreactor hclosing
    simp only [Option.ite_none_right_eq_some, Option.some.injEq] at hnext
    obtain ⟨hmapped, rfl⟩ := hnext
    exact .timer hreactor hmapped
  · rename_i hreactor hclosing
    cases hnext
    exact .other timedOut hreactor
  · rename_i hreactor hclosing
    split at hnext
    · rename_i hlookup
      cases hnext
      exact .found timedOut hreactor hlookup
    · rename_i hlookup
      cases hnext
      exact .missing timedOut hreactor hlookup
  · cases hnext

/-- handle_read and handle_write, which may ask for close_conn. -/
theorem handle_moves {messages : ℕ} {shouldClose : Bool}
    (hnext : s.next (.handle messages shouldClose) = some t) :
    s.Moves (.handle messages shouldClose) t := by
  simp only [next] at hnext
  split at hnext
  · rename_i batch call calls hreactor hclosing
    simp only [Option.ite_none_right_eq_some, Option.some.injEq] at hnext
    obtain ⟨_, rfl⟩ := hnext
    split
    · exact .handleClose messages shouldClose hreactor hclosing
    · rename_i hstays
      obtain rfl : shouldClose = false := by
        simpa using (not_or.mp hstays).2
      exact .handle messages hreactor
  · cases hnext

theorem accept_moves {fd : ℕ} (hnext : s.next (.accept fd) = some t) : s.Moves (.accept fd) t := by
  simp only [next] at hnext
  split at hnext
  · rename_i hreactor
    simp only [Option.ite_none_right_eq_some, Option.some.injEq] at hnext
    obtain ⟨⟨hfd, hfree⟩, rfl⟩ := hnext
    exact .accept hreactor hfd hfree
  · cases hnext

theorem insert_moves (hnext : s.next .insert = some t) : s.Moves .insert t := by
  simp only [next] at hnext
  split at hnext
  · rename_i hreactor
    obtain ⟨fd, hfd, rfl⟩ := Option.map_eq_some_iff.mp hnext
    exact .insert hreactor hfd
  · cases hnext

theorem closeErase_moves {thread : Thread} (hnext : s.next (.closeErase thread) = some t) :
    s.Moves (.closeErase thread) t := by
  simp only [next] at hnext
  split at hnext
  · rename_i hclosing
    obtain ⟨fd, hfd, rfl⟩ := Option.map_eq_some_iff.mp hnext
    exact .closeErase hclosing hfd
  · cases hnext

theorem next_moves (hnext : s.next a = some t) : s.Moves a t := by
  cases a with
  | epollWait batch => exact epollWait_moves hnext
  | dispatch timedOut => exact dispatch_moves hnext
  | handle messages shouldClose => exact handle_moves hnext
  | endBatch =>
    simp only [next] at hnext
    split at hnext
    · rename_i hreactor hclosing
      cases hnext
      exact .endBatch hreactor
    · cases hnext
  | accept fd => exact accept_moves hnext
  | insert => exact insert_moves hnext
  | register =>
    simp only [next] at hnext
    split at hnext
    · rename_i hreactor
      cases hnext
      exact .register hreactor
    · cases hnext
  | count =>
    simp only [next] at hnext
    split at hnext
    · rename_i hreactor
      cases hnext
      exact .count hreactor
    · cases hnext
  | pushConnect =>
    simp only [next] at hnext
    split at hnext
    · rename_i hreactor
      cases hnext
      exact .pushConnect hreactor
    · cases hnext
  | acceptFails =>
    simp only [next] at hnext
    split at hnext
    · rename_i hreactor
      cases hnext
      exact .acceptFails hreactor
    · cases hnext
  | logicClose c =>
    simp only [next, Option.ite_none_right_eq_some, Option.some.injEq] at hnext
    obtain ⟨⟨hclosing, hrefs⟩, rfl⟩ := hnext
    exact .logicClose hclosing hrefs
  | closeCount thread =>
    simp only [next] at hnext
    split at hnext
    · rename_i hclosing
      cases hnext
      exact .closeCount hclosing
    · cases hnext
  | closePush thread =>
    simp only [next] at hnext
    split at hnext
    · rename_i hclosing
      cases hnext
      exact .closePush hclosing
    · cases hnext
  | closeDelete thread =>
    simp only [next] at hnext
    split at hnext
    · rename_i hclosing
      cases hnext
      exact .closeDelete hclosing
    · cases hnext
  | closeErase thread => exact closeErase_moves hnext
  | copyRef c =>
    simp only [next, Option.ite_none_right_eq_some, Option.some.injEq] at hnext
    obtain ⟨hrefs, rfl⟩ := hnext
    exact .copyRef hrefs
  | dropRef c =>
    simp only [next, Option.ite_none_right_eq_some, Option.some.injEq] at hnext
    obtain ⟨hrefs, rfl⟩ := hnext
    exact .dropRef hrefs
  | snapshot c =>
    simp only [next, Option.ite_none_right_eq_some, Option.some.injEq] at hnext
    obtain ⟨hmapped, rfl⟩ := hnext
    exact .snapshot hmapped
  | dropSnapshot c =>
    simp only [next, Option.ite_none_right_eq_some, Option.some.injEq] at hnext
    obtain ⟨hrefs, rfl⟩ := hnext
    exact .dropSnapshot hrefs

end Stepping

end Server

def machine : Machine Server Action := ⟨Server.init, Server.next⟩

end ChatServer.ConnectionTable
