import ChatServer.Broadcast

/-!
The threads of the server together. The reactor accepts connections, pushes
what it has read and closes connections; the logic thread takes events from
the queue and carries out the calls of their handlers one after the other; the
broadcast path with its workers runs beside them. accept_loop, close_conn,
ProcessEvent and the calls of a handler are split where another thread can
come between. A log records what happened, in order; no step reads it.
-/
namespace ChatServer.ServerSystem

open Lib.Runs ShardTask

/-- What is not part of the program: the sockets, and the generated code that
parses and serializes messages. -/
structure Setup where
  kernel : ConnId → Kernel
  parse : Parser
  encode : ServerMessage → Bytes

/-- An event in the queue, with the number of its push. -/
structure Queued where
  number : ℕ
  event : NetworkEvent
deriving DecidableEq

namespace Queued

abbrev type (evt : Queued) : EventType := evt.event.type

abbrev conn (evt : Queued) : ConnId := evt.event.conn

end Queued

inductive Entry
  | push (evt : Queued)
  /-- The exchange in close_conn that set the flag. -/
  | exchange (conn : ConnId)
  /-- ProcessEvent read the flag of the event's connection. -/
  | examine (evt : Queued) (closed : Bool)
  /-- ProcessEvent called the handler for the event. -/
  | call (evt : Queued)
  /-- While the event was handled, SendPreEncoded appended a message. -/
  | append (evt : Queued) (conn : ConnId) (msg : ServerMessage)
deriving DecidableEq

/-- How far close_conn has come since its exchange. -/
inductive Closing
  | exchanged (conn : ConnId)
  | pushed (conn : ConnId)
deriving DecidableEq

/-- Where the reactor is in accept_loop or close_conn. -/
inductive ReactorStage
  | idle
  | inserted (conn : ConnId)
  | registered (conn : ConnId)
  | closing (stage : Closing)
deriving DecidableEq

/-- Where the logic thread is with the event it took. -/
inductive LogicStage
  | idle
  | taken (evt : Queued)
  | entering (evt : Queued)
  | sending (evt : Queued) (outputs : List Output)
  | notifying (evt : Queued) (outputs : List Output)
  | closing (evt : Queued) (stage : Closing) (outputs : List Output)
deriving DecidableEq

structure System (n : ℕ) where
  net : Broadcast.Server n
  app : ChatApp
  /-- The last reading of the steady clock by the logic thread. -/
  clock : ℚ
  eventQueue : List Queued
  pushes : ℕ
  reactor : ReactorStage
  logic : LogicStage
  log : List Entry

inductive Action (n : ℕ)
  | net (a : Broadcast.Action n)
  | accept (conn : ConnId) (fd now : ℕ)
  | register
  | pushConnect
  | message (conn : ConnId) (payload : Bytes)
  | close (conn : ConnId)
  | reactorPush
  | reactorErase
  | take
  | examine
  | call (env : Env)
  | output
  | notify
  | logicPush
  | logicErase

/-- The steps of the pool and of the threads that push broadcasts to it. -/
def ofPool {n : ℕ} : Broadcast.Action n → Bool
  | .pop _ => true
  | .snapshot _ _ => true
  | .turn _ => true
  | .finish _ => true
  | _ => false

/-- The steps of the reactor besides accepting, reading messages and closing. -/
def ofReactor {n : ℕ} : Broadcast.Action n → Bool
  | .epollWait _ => true
  | .epollFails => true
  | .dispatch => true
  | .endBatch => true
  | .pushBatch => true
  | .connOp _ .flush => true
  | .connOp _ .handleWrite => true
  | .connOp _ (.handleRead _) => true
  | _ => false

namespace System

variable {n : ℕ}

def init : System n := ⟨.init, .new, 0, [], 0, .idle, .idle, []⟩

def isClosed (s : System n) (conn : ConnId) : Bool :=
  (s.net.conns conn).any Connection.closed

def known (s : System n) (conn : ConnId) : Bool := (s.net.conns conn).isSome

/-- `event_queue_.push` -/
def push (s : System n) (type : EventType) (conn : ConnId) (payload : Option Bytes) : System n :=
  let evt : Queued := ⟨s.pushes, ⟨type, conn, payload⟩⟩
  { s with
    eventQueue := s.eventQueue ++ [evt]
    pushes := s.pushes + 1
    log := s.log ++ [.push evt] }

def record (s : System n) (e : Entry) : System n := { s with log := s.log ++ [e] }

def setReactor (s : System n) (stage : ReactorStage) : System n := { s with reactor := stage }

def setLogic (s : System n) (stage : LogicStage) : System n := { s with logic := stage }

/-- A step of the broadcast path, in which the connections live. -/
def onNet (setup : Setup) (s : System n) (a : Broadcast.Action n) : Option (System n) :=
  (s.net.next setup.kernel a).map fun net => { s with net := net }

def next (setup : Setup) (s : System n) : Action n → Option (System n)
  | .net a =>
      if ofPool a ∨ ofReactor a ∧ s.reactor = .idle then s.onNet setup a else none
  | .accept conn fd now =>
      if s.reactor = .idle then
        (s.onNet setup (.accept conn fd now)).map (·.setReactor (.inserted conn))
      else none
  | .register =>
      match s.reactor with
      | .inserted conn =>
          (s.onNet setup (.connOp conn .register)).map (·.setReactor (.registered conn))
      | _ => none
  | .pushConnect =>
      match s.reactor with
      | .registered conn => some ((s.push .connect conn none).setReactor .idle)
      | _ => none
  | .message conn payload =>
      if s.reactor = .idle ∧ s.known conn then some (s.push .message conn (some payload)) else none
  | .close conn =>
      if s.reactor = .idle ∧ s.known conn then
        if s.isClosed conn then some s
        else (s.onNet setup (.close conn)).map fun t =>
          (t.record (.exchange conn)).setReactor (.closing (.exchanged conn))
      else none
  | .reactorPush =>
      match s.reactor with
      | .closing (.exchanged conn) =>
          some ((s.push .disconnect conn none).setReactor (.closing (.pushed conn)))
      | _ => none
  | .reactorErase =>
      match s.reactor with
      | .closing (.pushed conn) => (s.onNet setup (.erase conn)).map (·.setReactor .idle)
      | _ => none
  | .take =>
      match s.logic, s.eventQueue with
      | .idle, evt :: rest => some ({ s with eventQueue := rest }.setLogic (.taken evt))
      | _, _ => none
  | .examine =>
      match s.logic with
      | .taken evt =>
          let closed := s.isClosed evt.conn
          let stage := if closed = true ∧ evt.type ≠ .disconnect then .idle else .entering evt
          some ((s.record (.examine evt closed)).setLogic stage)
      | _ => none
  | .call env =>
      match s.logic with
      | .entering evt =>
          if s.clock ≤ env.now then
            let (app, outputs) := s.app.processEvent setup.parse env false evt.event
            some (({ s with app := app, clock := env.now }.record (.call evt)).setLogic
              (.sending evt outputs))
          else none
      | _ => none
  | .output =>
      match s.logic with
      | .sending _ [] => some (s.setLogic .idle)
      | .sending evt (.sendProto conn msg :: rest) =>
          -- The entry is for a packet that SendPreEncoded has appended.
          (s.onNet setup (.connOp conn (.sendPreEncoded ⟨setup.encode msg, none⟩))).map fun t =>
            (if s.isClosed conn then t else t.record (.append evt conn msg)).setLogic
              (.sending evt rest)
      | .sending evt (.broadcastProto msg :: rest) =>
          (s.onNet setup (.broadcastPush (setup.encode msg) (-1))).map
            (·.setLogic (.notifying evt rest))
      | .sending evt (.close conn :: rest) =>
          if s.isClosed conn then some (s.setLogic (.sending evt rest))
          else (s.onNet setup (.close conn)).map fun t =>
            (t.record (.exchange conn)).setLogic (.closing evt (.exchanged conn) rest)
      | _ => none
  | .notify =>
      match s.logic with
      | .notifying evt rest =>
          (s.onNet setup .broadcastNotify).map (·.setLogic (.sending evt rest))
      | _ => none
  | .logicPush =>
      match s.logic with
      | .closing evt (.exchanged conn) rest =>
          some ((s.push .disconnect conn none).setLogic (.closing evt (.pushed conn) rest))
      | _ => none
  | .logicErase =>
      match s.logic with
      | .closing evt (.pushed conn) rest =>
          (s.onNet setup (.erase conn)).map (·.setLogic (.sending evt rest))
      | _ => none

/-- What a step can do: when it can be taken, and the state it leads to. -/
inductive Steps (setup : Setup) (s : System n) : Action n → System n → Prop
  | net {a : Broadcast.Action n} {net : Broadcast.Server n}
      (hkind : ofPool a = true ∨ ofReactor a = true ∧ s.reactor = .idle)
      (hnet : s.net.next setup.kernel a = some net) : Steps setup s (.net a) { s with net := net }
  | accept {conn : ConnId} {fd now : ℕ} {net : Broadcast.Server n} (hidle : s.reactor = .idle)
      (hnet : s.net.next setup.kernel (.accept conn fd now) = some net) :
      Steps setup s (.accept conn fd now) ({ s with net := net }.setReactor (.inserted conn))
  | register {conn : ConnId} {net : Broadcast.Server n} (hstage : s.reactor = .inserted conn)
      (hnet : s.net.next setup.kernel (.connOp conn .register) = some net) :
      Steps setup s .register ({ s with net := net }.setReactor (.registered conn))
  | pushConnect {conn : ConnId} (hstage : s.reactor = .registered conn) :
      Steps setup s .pushConnect ((s.push .connect conn none).setReactor .idle)
  | message {conn : ConnId} (payload : Bytes) (hidle : s.reactor = .idle)
      (hknown : s.known conn = true) :
      Steps setup s (.message conn payload) (s.push .message conn (some payload))
  | closeAgain {conn : ConnId} (hclosed : s.isClosed conn = true) : Steps setup s (.close conn) s
  | close {conn : ConnId} {net : Broadcast.Server n} (hidle : s.reactor = .idle)
      (hopen : s.isClosed conn = false)
      (hnet : s.net.next setup.kernel (.close conn) = some net) :
      Steps setup s (.close conn)
        (({ s with net := net }.record (.exchange conn)).setReactor (.closing (.exchanged conn)))
  | reactorPush {conn : ConnId} (hstage : s.reactor = .closing (.exchanged conn)) :
      Steps setup s .reactorPush
        ((s.push .disconnect conn none).setReactor (.closing (.pushed conn)))
  | reactorErase {conn : ConnId} {net : Broadcast.Server n}
      (hstage : s.reactor = .closing (.pushed conn))
      (hnet : s.net.next setup.kernel (.erase conn) = some net) :
      Steps setup s .reactorErase ({ s with net := net }.setReactor .idle)
  | take {evt : Queued} {rest : List Queued} (hstage : s.logic = .idle)
      (hqueue : s.eventQueue = evt :: rest) :
      Steps setup s .take ({ s with eventQueue := rest }.setLogic (.taken evt))
  | discard {evt : Queued} (hstage : s.logic = .taken evt) (hclosed : s.isClosed evt.conn = true)
      (htype : evt.type ≠ .disconnect) :
      Steps setup s .examine ((s.record (.examine evt true)).setLogic .idle)
  | pass {evt : Queued} (hstage : s.logic = .taken evt)
      (hpass : s.isClosed evt.conn = false ∨ evt.type = .disconnect) :
      Steps setup s .examine
        ((s.record (.examine evt (s.isClosed evt.conn))).setLogic (.entering evt))
  | call {evt : Queued} {env : Env} (hstage : s.logic = .entering evt)
      (hclock : s.clock ≤ env.now) :
      Steps setup s (.call env)
        (({ s with
            app := (s.app.processEvent setup.parse env false evt.event).1
            clock := env.now }.record (.call evt)).setLogic
          (.sending evt (s.app.processEvent setup.parse env false evt.event).2))
  | endEvent {evt : Queued} (hstage : s.logic = .sending evt []) :
      Steps setup s .output (s.setLogic .idle)
  | dropped {evt : Queued} {conn : ConnId} {msg : ServerMessage} {rest : List Output}
      {net : Broadcast.Server n} (hstage : s.logic = .sending evt (.sendProto conn msg :: rest))
      (hclosed : s.isClosed conn = true)
      (hnet : s.net.next setup.kernel
        (.connOp conn (.sendPreEncoded ⟨setup.encode msg, none⟩)) = some net) :
      Steps setup s .output ({ s with net := net }.setLogic (.sending evt rest))
  | append {evt : Queued} {conn : ConnId} {msg : ServerMessage} {rest : List Output}
      {net : Broadcast.Server n} (hstage : s.logic = .sending evt (.sendProto conn msg :: rest))
      (hopen : s.isClosed conn = false)
      (hnet : s.net.next setup.kernel
        (.connOp conn (.sendPreEncoded ⟨setup.encode msg, none⟩)) = some net) :
      Steps setup s .output
        (({ s with net := net }.record (.append evt conn msg)).setLogic (.sending evt rest))
  | broadcast {evt : Queued} {msg : ServerMessage} {rest : List Output}
      {net : Broadcast.Server n} (hstage : s.logic = .sending evt (.broadcastProto msg :: rest))
      (hnet : s.net.next setup.kernel (.broadcastPush (setup.encode msg) (-1)) = some net) :
      Steps setup s .output ({ s with net := net }.setLogic (.notifying evt rest))
  | logicCloseAgain {evt : Queued} {conn : ConnId} {rest : List Output}
      (hstage : s.logic = .sending evt (.close conn :: rest)) (hclosed : s.isClosed conn = true) :
      Steps setup s .output (s.setLogic (.sending evt rest))
  | logicClose {evt : Queued} {conn : ConnId} {rest : List Output} {net : Broadcast.Server n}
      (hstage : s.logic = .sending evt (.close conn :: rest)) (hopen : s.isClosed conn = false)
      (hnet : s.net.next setup.kernel (.close conn) = some net) :
      Steps setup s .output
        (({ s with net := net }.record (.exchange conn)).setLogic
          (.closing evt (.exchanged conn) rest))
  | notify {evt : Queued} {rest : List Output} {net : Broadcast.Server n}
      (hstage : s.logic = .notifying evt rest)
      (hnet : s.net.next setup.kernel .broadcastNotify = some net) :
      Steps setup s .notify ({ s with net := net }.setLogic (.sending evt rest))
  | logicPush {evt : Queued} {conn : ConnId} {rest : List Output}
      (hstage : s.logic = .closing evt (.exchanged conn) rest) :
      Steps setup s .logicPush
        ((s.push .disconnect conn none).setLogic (.closing evt (.pushed conn) rest))
  | logicErase {evt : Queued} {conn : ConnId} {rest : List Output} {net : Broadcast.Server n}
      (hstage : s.logic = .closing evt (.pushed conn) rest)
      (hnet : s.net.next setup.kernel (.erase conn) = some net) :
      Steps setup s .logicErase ({ s with net := net }.setLogic (.sending evt rest))

theorem onNet_map_eq_some {setup : Setup} {s t : System n} {a : Broadcast.Action n}
    {f : System n → System n} (h : (s.onNet setup a).map f = some t) :
    ∃ net, s.net.next setup.kernel a = some net ∧ f { s with net := net } = t := by
  obtain ⟨u, hu, hf⟩ := Option.map_eq_some_iff.mp h
  obtain ⟨net, hnet, rfl⟩ := Option.map_eq_some_iff.mp hu
  exact ⟨net, hnet, hf⟩

section Stepping

variable {setup : Setup} {s t : System n} {a : Action n}

theorem close_steps {conn : ConnId} (hnext : s.next setup (.close conn) = some t) :
    s.Steps setup (.close conn) t := by
  simp only [next, Option.ite_none_right_eq_some] at hnext
  obtain ⟨⟨hidle, _⟩, hnext⟩ := hnext
  split at hnext
  · rename_i hclosed
    cases hnext
    exact .closeAgain hclosed
  · rename_i hopen
    obtain ⟨net, hnet, rfl⟩ := onNet_map_eq_some hnext
    exact .close hidle (by simpa using hopen) hnet

theorem examine_steps (hnext : s.next setup .examine = some t) : s.Steps setup .examine t := by
  simp only [next] at hnext
  split at hnext
  · rename_i evt hstage
    cases hnext
    by_cases hdrop : s.isClosed evt.conn = true ∧ evt.type ≠ .disconnect
    · rw [if_pos hdrop, hdrop.1]
      exact .discard hstage hdrop.1 hdrop.2
    · rw [if_neg hdrop]
      refine .pass hstage ?_
      by_contra hno
      simp only [not_or, Bool.not_eq_false] at hno
      exact hdrop hno
  · cases hnext

/-- The calls of a handler, and its end. -/
theorem output_steps (hnext : s.next setup .output = some t) : s.Steps setup .output t := by
  simp only [next] at hnext
  split at hnext
  · rename_i hstage
    cases hnext
    exact .endEvent hstage
  · rename_i hstage
    obtain ⟨net, hnet, rfl⟩ := onNet_map_eq_some hnext
    split
    · rename_i hclosed
      exact .dropped hstage hclosed hnet
    · rename_i hopen
      exact .append hstage (by simpa using hopen) hnet
  · rename_i hstage
    obtain ⟨net, hnet, rfl⟩ := onNet_map_eq_some hnext
    exact .broadcast hstage hnet
  · rename_i hstage
    split at hnext
    · rename_i hclosed
      cases hnext
      exact .logicCloseAgain hstage hclosed
    · rename_i hopen
      obtain ⟨net, hnet, rfl⟩ := onNet_map_eq_some hnext
      exact .logicClose hstage (by simpa using hopen) hnet
  · cases hnext

theorem next_steps (hnext : s.next setup a = some t) : s.Steps setup a t := by
  cases a with
  | net a =>
    simp only [next, Option.ite_none_right_eq_some] at hnext
    obtain ⟨hkind, hnext⟩ := hnext
    obtain ⟨net, hnet, rfl⟩ := Option.map_eq_some_iff.mp hnext
    exact .net hkind hnet
  | accept conn fd now =>
    simp only [next, Option.ite_none_right_eq_some] at hnext
    obtain ⟨hidle, hnext⟩ := hnext
    obtain ⟨net, hnet, rfl⟩ := onNet_map_eq_some hnext
    exact .accept hidle hnet
  | register =>
    simp only [next] at hnext
    split at hnext
    · rename_i hstage
      obtain ⟨net, hnet, rfl⟩ := onNet_map_eq_some hnext
      exact .register hstage hnet
    · cases hnext
  | pushConnect =>
    simp only [next] at hnext
    split at hnext
    · rename_i hstage
      cases hnext
      exact .pushConnect hstage
    · cases hnext
  | message conn payload =>
    simp only [next, Option.ite_none_right_eq_some, Option.some.injEq] at hnext
    obtain ⟨⟨hidle, hknown⟩, rfl⟩ := hnext
    exact .message payload hidle hknown
  | close conn => exact close_steps hnext
  | reactorPush =>
    simp only [next] at hnext
    split at hnext
    · rename_i hstage
      cases hnext
      exact .reactorPush hstage
    · cases hnext
  | reactorErase =>
    simp only [next] at hnext
    split at hnext
    · rename_i hstage
      obtain ⟨net, hnet, rfl⟩ := onNet_map_eq_some hnext
      exact .reactorErase hstage hnet
    · cases hnext
  | take =>
    simp only [next] at hnext
    split at hnext
    · rename_i hstage hqueue
      cases hnext
      exact .take hstage hqueue
    · cases hnext
  | examine => exact examine_steps hnext
  | call env =>
    simp only [next] at hnext
    split at hnext
    · rename_i hstage
      simp only [Option.ite_none_right_eq_some, Option.some.injEq] at hnext
      obtain ⟨hclock, rfl⟩ := hnext
      exact .call hstage hclock
    · cases hnext
  | output => exact output_steps hnext
  | notify =>
    simp only [next] at hnext
    split at hnext
    · rename_i hstage
      obtain ⟨net, hnet, rfl⟩ := onNet_map_eq_some hnext
      exact .notify hstage hnet
    · cases hnext
  | logicPush =>
    simp only [next] at hnext
    split at hnext
    · rename_i hstage
      cases hnext
      exact .logicPush hstage
    · cases hnext
  | logicErase =>
    simp only [next] at hnext
    split at hnext
    · rename_i hstage
      obtain ⟨net, hnet, rfl⟩ := onNet_map_eq_some hnext
      exact .logicErase hstage hnet
    · cases hnext

end Stepping

end System

/-- The server with `n` workers in its pool. -/
def machine (setup : Setup) (n : ℕ) : Machine (System n) (Action n) :=
  ⟨System.init, System.next setup⟩

section Flags

variable {n : ℕ} {kernel : ConnId → Kernel} {net net' : Broadcast.Server n}

/-- The closed flag of a connection, once it has been accepted. -/
def flag (net : Broadcast.Server n) (conn : ConnId) : Option Bool :=
  (net.conns conn).map Connection.closed

theorem apply_closed (writev : Kernel) (conn : Connection) {op : ConnOp}
    (hop : Broadcast.Ordinary op) : (op.apply writev conn).closed = conn.closed := by
  cases op with
  | sendPreEncoded packet =>
    cases hclosed : conn.closed with
    | true =>
      have hsame : sendPreEncoded writev conn packet = conn := if_pos hclosed
      simp only [ConnOp.apply, hsame, hclosed]
    | false =>
      have hmarks := sendPreEncoded_marks writev conn packet hclosed
      simp only [marks, Prod.mk.injEq] at hmarks
      exact hmarks.2.1.trans hclosed
  | shardTask events => cases hop
  | flush => exact congrArg (fun m => m.2.1) (flushBody_marks writev conn)
  | handleWrite => exact congrArg (fun m => m.2.1) (handleWrite_marks writev conn)
  | handleRead answers => exact congrArg (fun m => m.2.1) (handleRead_marks conn answers)
  | register => rfl
  | close => cases hop

theorem shardTaskBody_flag (writev : Kernel) (conn : Connection) (events : List BroadcastEvent) :
    (shardTaskBody writev conn events).closed = conn.closed := by
  cases hclosed : conn.closed with
  | true => rw [shardTaskBody_closed writev conn events hclosed, hclosed]
  | false =>
    have hmarks := shardTaskBody_marks writev conn events hclosed
    simp only [marks, Prod.mk.injEq] at hmarks
    exact hmarks.2.1.trans hclosed

theorem flag_setConn (id : ConnId) (conn : Connection) :
    flag (net.setConn id conn) = Function.update (flag net) id (some conn.closed) := by
  funext c
  by_cases hc : c = id
  · subst hc
    simp [flag, Broadcast.Server.setConn]
  · simp [flag, Broadcast.Server.setConn, Function.update_of_ne hc]

theorem flag_setConn_same {id : ConnId} {conn conn' : Connection} (h : net.conns id = some conn)
    (hclosed : conn'.closed = conn.closed) : flag (net.setConn id conn') = flag net := by
  have hsame : some conn'.closed = flag net id := by simp [flag, h, hclosed]
  rw [flag_setConn, hsame, Function.update_eq_self]

theorem flag_accept {id : ConnId} {fd now : ℕ}
    (h : net.next kernel (.accept id fd now) = some net') :
    flag net id = none ∧ flag net' = Function.update (flag net) id (some false) := by
  cases Broadcast.Server.next_moves h with
  | accept fd now hfresh => exact ⟨by simp [flag, hfresh], flag_setConn id _⟩

theorem flag_close {id : ConnId} (h : net.next kernel (.close id) = some net') :
    flag net id ≠ none ∧ flag net' = Function.update (flag net) id (some true) := by
  cases Broadcast.Server.next_moves h with
  | closeAgain hconn hclosed =>
    have hsame : flag net id = some true := by simp [flag, hconn, hclosed]
    refine ⟨by simp [hsame], ?_⟩
    rw [← hsame, Function.update_eq_self]
  | @close _ conn hconn hopen =>
    have hset : conn.close.closed = true := by simp [Connection.close, hopen]
    refine ⟨by simp [flag, hconn], ?_⟩
    exact (flag_setConn id conn.close).trans (by rw [hset])

/-- Only accept_loop and close_conn change a flag. -/
theorem flag_other {a : Broadcast.Action n} (h : net.next kernel a = some net')
    (haccept : ∀ id fd now, a ≠ .accept id fd now) (hclose : ∀ id, a ≠ .close id) :
    flag net' = flag net := by
  cases Broadcast.Server.next_moves h with
  | accept fd now hfresh => exact absurd rfl (haccept _ fd now)
  | closeAgain hconn hclosed => rfl
  | close hconn hopen => exact absurd rfl (hclose _)
  | @turn worker task id rest conn hheld hconn =>
    exact flag_setConn_same hconn (shardTaskBody_flag (kernel id) conn task.batch.events)
  | @connOp id op conn hop hconn =>
    exact flag_setConn_same hconn (apply_closed (kernel id) conn hop)
  | broadcastNotify hinside =>
    unfold Broadcast.Server.notify
    split <;> rfl
  | flush hreactor =>
    unfold Broadcast.Server.swapQueue
    split <;> rfl
  | _ => rfl

end Flags

/-- Every step of the system is a step of its broadcast path, or none. -/
theorem net_step {n : ℕ} {setup : Setup} {s t : System n} {a : Action n}
    (hnext : s.next setup a = some t) :
    t.net = s.net ∨ ∃ b, s.net.next setup.kernel b = some t.net := by
  cases System.next_steps hnext with
  | net hkind hnet => exact Or.inr ⟨_, hnet⟩
  | accept hidle hnet => exact Or.inr ⟨_, hnet⟩
  | register hstage hnet => exact Or.inr ⟨_, hnet⟩
  | close hidle hopen hnet => exact Or.inr ⟨_, hnet⟩
  | reactorErase hstage hnet => exact Or.inr ⟨_, hnet⟩
  | dropped hstage hclosed hnet => exact Or.inr ⟨_, hnet⟩
  | append hstage hopen hnet => exact Or.inr ⟨_, hnet⟩
  | broadcast hstage hnet => exact Or.inr ⟨_, hnet⟩
  | logicClose hstage hopen hnet => exact Or.inr ⟨_, hnet⟩
  | notify hstage hnet => exact Or.inr ⟨_, hnet⟩
  | logicErase hstage hnet => exact Or.inr ⟨_, hnet⟩
  | _ => exact Or.inl rfl

/-- The broadcast path in a run of the system runs as on its own. -/
theorem net_reachable {n : ℕ} {setup : Setup} {s : System n}
    {allowed : System n → Action n → Prop} (hs : Reachable (machine setup n) allowed s) :
    Reachable (Broadcast.machine setup.kernel n) AnyStep s.net := by
  refine hs.invariant (P := fun s => Reachable (Broadcast.machine setup.kernel n) AnyStep s.net)
    .init ?_
  intro s a t hnet _ hnext
  rcases net_step hnext with hsame | ⟨b, hb⟩
  · rw [hsame]
    exact hnet
  · exact .step hnet trivial hb

end ChatServer.ServerSystem
