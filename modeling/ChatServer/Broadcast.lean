import ChatServer.ChatApp
import ChatServer.ShardTask
import ChatServer.Lib.Runs

/-!
The broadcast path of webserver.cpp. Threads push events to `global_queue_`
and notify the reactor through an eventfd; the reactor swaps the queue out
after a batch of epoll events, makes one task for each shard and pushes them
to the thread pool; the workers pop the tasks, take a snapshot of their shard
and append the events connection by connection. Critical sections are the
steps, and any thread may take the next one.
-/
namespace ChatServer.Broadcast

open ShardTask Lib.Runs

def numShards : ℕ := 16

def maxEvents : ℕ := 128

/-- An eventfd counter never reaches the maximum of its type. -/
def eventfdMax : ℕ := 2 ^ 64 - 2

/-- `get_shard_idx` -/
def shardIdx (fd : ℕ) : ℕ := fd % numShards

/-- The ready descriptors of one epoll_wait, as far as the loop of Run
distinguishes them. What the other ones lead to are steps of their own. -/
inductive Ready
  | notify
  | signal
  | other
deriving DecidableEq

/-- The events of one flush of the global queue, with its number. -/
structure Batch where
  number : ℕ
  events : List BroadcastEvent
deriving DecidableEq

/-- The closure that is pushed to the thread pool. -/
structure Task where
  shard : ℕ
  batch : Batch
deriving DecidableEq

/-- The tasks that process_global_queue makes of its batch, one for each shard. -/
def Batch.tasks (batch : Batch) : List Task :=
  (List.range numShards).map fun i => ⟨i, batch⟩

/-- A task that a worker runs: it has yet to take its snapshot, or it has
these connections left. -/
structure Running where
  task : Task
  todo : Option (List ConnId)
deriving DecidableEq

inductive Reactor
  | waiting
  | dispatching (batch : List Ready) (pendingBroadcast : Bool)
  | flushing (batch : Batch)
  | stopped
deriving DecidableEq

/-- The server with `n` workers in its pool. -/
structure Server (n : ℕ) where
  conns : ConnId → Option Connection
  /-- The connections of each shard by descriptor, in iteration order. -/
  shards : ℕ → List (ℕ × ConnId)
  /-- Closed connections that are still in their shard. -/
  closing : List ConnId
  globalQueue : List BroadcastEvent
  /-- The threads inside Broadcast that have pushed and not yet notified. -/
  notifying : ℕ
  /-- The eventfd: its counter and its edge-triggered ready flag. -/
  counter : ℕ
  edge : Bool
  reactor : Reactor
  running : Bool
  taskQueue : List Task
  workers : Fin n → Option Running
  /-- The Broadcast calls that have pushed so far. -/
  broadcasts : ℕ
  /-- The flushes of the global queue so far. -/
  flushes : ℕ

inductive Action (n : ℕ)
  | broadcastPush (data : Bytes) (excludeFd : ℤ)
  | broadcastNotify
  | epollWait (batch : List Ready)
  | epollFails
  | dispatch
  | endBatch
  | pushBatch
  | pop (worker : Fin n)
  | snapshot (worker : Fin n) (seen : List ConnId)
  | turn (worker : Fin n)
  | finish (worker : Fin n)
  | accept (conn : ConnId) (fd now : ℕ)
  | close (conn : ConnId)
  | erase (conn : ConnId)
  | connOp (conn : ConnId) (op : ConnOp)

/-- The operations that other code performs on a connection. A packet that is
sent to one connection was encoded for it alone. -/
def Ordinary : ConnOp → Prop
  | .sendPreEncoded packet => packet.origin = none
  | .shardTask _ => False
  | .close => False
  | _ => True

instance (op : ConnOp) : Decidable (Ordinary op) := by
  cases op <;> unfold Ordinary <;> infer_instance

namespace Server

variable {n : ℕ}

def init : Server n where
  conns _ := none
  shards _ := []
  closing := []
  globalQueue := []
  notifying := 0
  counter := 0
  edge := false
  reactor := .waiting
  running := true
  taskQueue := []
  workers _ := none
  broadcasts := 0
  flushes := 0

def setConn (s : Server n) (id : ConnId) (conn : Connection) : Server n :=
  { s with conns := Function.update s.conns id (some conn) }

def setWorker (s : Server n) (worker : Fin n) (running : Option Running) : Server n :=
  { s with workers := Function.update s.workers worker running }

/-- The test of the while loop of Run. -/
def loop (s : Server n) : Server n :=
  { s with reactor := if s.running then .waiting else .stopped }

def isOpen (s : Server n) (id : ConnId) : Bool := (s.conns id).any fun conn => !conn.closed

/-- The shard map after `connections[fd] = conn`. -/
def insertConn (s : Server n) (fd : ℕ) (id : ConnId) : Server n :=
  let entries := (s.shards (shardIdx fd)).filter (·.1 ≠ fd) ++ [(fd, id)]
  { s with shards := Function.update s.shards (shardIdx fd) entries }

def eraseConn (s : Server n) (fd : ℕ) : Server n :=
  let entries := (s.shards (shardIdx fd)).filter (·.1 ≠ fd)
  { s with shards := Function.update s.shards (shardIdx fd) entries }

/-- Broadcast, up to the end of its critical section. -/
def pushEvent (s : Server n) (data : Bytes) (excludeFd : ℤ) : Server n :=
  { s with
    globalQueue := s.globalQueue ++ [⟨excludeFd, ⟨data, some s.broadcasts⟩⟩]
    notifying := s.notifying + 1
    broadcasts := s.broadcasts + 1 }

/-- The write to the eventfd; when the counter is full it fails with EAGAIN. -/
def notify (s : Server n) : Server n :=
  if s.counter < eventfdMax then
    { s with notifying := s.notifying - 1, counter := s.counter + 1, edge := true }
  else { s with notifying := s.notifying - 1 }

/-- process_global_queue, up to the swap. -/
def swapQueue (s : Server n) : Server n :=
  if s.globalQueue.isEmpty then s.loop
  else { s with
    globalQueue := []
    reactor := .flushing ⟨s.flushes, s.globalQueue⟩
    flushes := s.flushes + 1 }

/-- The end of process_global_queue: push_batch with the tasks. -/
def pushBatch (s : Server n) (batch : Batch) : Server n :=
  { s.loop with taskQueue := s.taskQueue ++ batch.tasks }

/-- A snapshot reads the closed flags one after the other. Its connections
are in the map, and those that are open at its end are among them. -/
def Snapshot (s : Server n) (shard : ℕ) (seen : List ConnId) : Prop :=
  seen.Nodup ∧ (∀ id ∈ seen, id ∈ (s.shards shard).map Prod.snd) ∧
    ∀ id ∈ (s.shards shard).map Prod.snd, s.isOpen id = true → id ∈ seen

instance (s : Server n) (shard : ℕ) (seen : List ConnId) : Decidable (s.Snapshot shard seen) :=
  inferInstanceAs (Decidable (_ ∧ _ ∧ _))

/-- The steps of the server; each connection has its own socket. -/
def next (kernel : ConnId → Kernel) (s : Server n) : Action n → Option (Server n)
  | .broadcastPush data excludeFd => some (s.pushEvent data excludeFd)
  | .broadcastNotify => if 0 < s.notifying then some s.notify else none
  | .epollWait batch =>
      match s.reactor with
      | .waiting =>
          if batch.length ≤ maxEvents ∧ (.notify ∈ batch → s.edge = true) then
            some { s with
              edge := s.edge && !batch.contains .notify
              reactor := .dispatching batch false }
          else none
      | _ => none
  | .epollFails =>
      match s.reactor with
      | .waiting => some { s with running := false, reactor := .stopped }
      | _ => none
  | .dispatch =>
      match s.reactor with
      | .dispatching (.notify :: rest) _ =>
          some { s with counter := 0, reactor := .dispatching rest true }
      | .dispatching (.signal :: _) pendingBroadcast =>
          some { s with running := false, reactor := .dispatching [] pendingBroadcast }
      | .dispatching (.other :: rest) pendingBroadcast =>
          some { s with reactor := .dispatching rest pendingBroadcast }
      | _ => none
  | .endBatch =>
      match s.reactor with
      | .dispatching [] pendingBroadcast => some (if pendingBroadcast then s.swapQueue else s.loop)
      | _ => none
  | .pushBatch =>
      match s.reactor with
      | .flushing batch => some (s.pushBatch batch)
      | _ => none
  | .pop worker =>
      match s.taskQueue with
      | task :: rest =>
          if (s.workers worker).isNone then
            some ({ s with taskQueue := rest }.setWorker worker (some ⟨task, none⟩))
          else none
      | [] => none
  | .snapshot worker seen =>
      match s.workers worker with
      | some ⟨task, none⟩ =>
          if s.Snapshot task.shard seen then some (s.setWorker worker (some ⟨task, some seen⟩))
          else none
      | _ => none
  | .turn worker =>
      match s.workers worker with
      | some ⟨task, some (id :: rest)⟩ =>
          (s.conns id).map fun conn =>
            (s.setConn id (shardTaskBody (kernel id) conn task.batch.events)).setWorker worker
              (some ⟨task, some rest⟩)
      | _ => none
  | .finish worker =>
      match s.workers worker with
      | some ⟨_, some []⟩ => some (s.setWorker worker none)
      | _ => none
  | .accept id fd now =>
      if (s.conns id).isNone then
        some ((s.setConn id (Connection.new fd now)).insertConn fd id)
      else none
  | .close id =>
      (s.conns id).map fun conn =>
        if conn.closed then s else { s.setConn id conn.close with closing := id :: s.closing }
  | .erase id =>
      if id ∈ s.closing then
        (s.conns id).map fun conn => { s.eraseConn conn.fd with closing := s.closing.erase id }
      else none
  | .connOp id op =>
      if Ordinary op then
        (s.conns id).map fun conn => s.setConn id (op.apply (kernel id) conn)
      else none

/-- What a step can do: when it can be taken, and the state it leads to. -/
inductive Moves (kernel : ConnId → Kernel) (s : Server n) : Action n → Server n → Prop
  | broadcastPush (data : Bytes) (excludeFd : ℤ) :
      Moves kernel s (.broadcastPush data excludeFd) (s.pushEvent data excludeFd)
  | broadcastNotify (hinside : 0 < s.notifying) : Moves kernel s .broadcastNotify s.notify
  | epollWait {batch : List Ready} (hreactor : s.reactor = .waiting)
      (hedge : .notify ∈ batch → s.edge = true) :
      Moves kernel s (.epollWait batch) { s with
        edge := s.edge && !batch.contains .notify
        reactor := .dispatching batch false }
  | epollFails (hreactor : s.reactor = .waiting) :
      Moves kernel s .epollFails { s with running := false, reactor := .stopped }
  | dispatchNotify {rest : List Ready} {pending : Bool}
      (hreactor : s.reactor = .dispatching (.notify :: rest) pending) :
      Moves kernel s .dispatch { s with counter := 0, reactor := .dispatching rest true }
  | dispatchSignal {rest : List Ready} {pending : Bool}
      (hreactor : s.reactor = .dispatching (.signal :: rest) pending) :
      Moves kernel s .dispatch { s with running := false, reactor := .dispatching [] pending }
  | dispatchOther {rest : List Ready} {pending : Bool}
      (hreactor : s.reactor = .dispatching (.other :: rest) pending) :
      Moves kernel s .dispatch { s with reactor := .dispatching rest pending }
  | flush (hreactor : s.reactor = .dispatching [] true) : Moves kernel s .endBatch s.swapQueue
  | endBatch (hreactor : s.reactor = .dispatching [] false) : Moves kernel s .endBatch s.loop
  | pushBatch {batch : Batch} (hreactor : s.reactor = .flushing batch) :
      Moves kernel s .pushBatch (s.pushBatch batch)
  | pop {worker : Fin n} {task : Task} {rest : List Task} (hqueue : s.taskQueue = task :: rest)
      (hidle : s.workers worker = none) :
      Moves kernel s (.pop worker)
        ({ s with taskQueue := rest }.setWorker worker (some ⟨task, none⟩))
  | snapshot {worker : Fin n} {task : Task} {seen : List ConnId}
      (hheld : s.workers worker = some ⟨task, none⟩) (hseen : s.Snapshot task.shard seen) :
      Moves kernel s (.snapshot worker seen) (s.setWorker worker (some ⟨task, some seen⟩))
  | turn {worker : Fin n} {task : Task} {id : ConnId} {rest : List ConnId} {conn : Connection}
      (hheld : s.workers worker = some ⟨task, some (id :: rest)⟩)
      (hconn : s.conns id = some conn) :
      Moves kernel s (.turn worker)
        ((s.setConn id (shardTaskBody (kernel id) conn task.batch.events)).setWorker worker
          (some ⟨task, some rest⟩))
  | finish {worker : Fin n} {task : Task} (hheld : s.workers worker = some ⟨task, some []⟩) :
      Moves kernel s (.finish worker) (s.setWorker worker none)
  | accept {id : ConnId} (fd now : ℕ) (hfresh : s.conns id = none) :
      Moves kernel s (.accept id fd now) ((s.setConn id (Connection.new fd now)).insertConn fd id)
  | closeAgain {id : ConnId} {conn : Connection} (hconn : s.conns id = some conn)
      (hclosed : conn.closed = true) : Moves kernel s (.close id) s
  | close {id : ConnId} {conn : Connection} (hconn : s.conns id = some conn)
      (hopen : conn.closed = false) :
      Moves kernel s (.close id) { s.setConn id conn.close with closing := id :: s.closing }
  | erase {id : ConnId} {conn : Connection} (hclosing : id ∈ s.closing)
      (hconn : s.conns id = some conn) :
      Moves kernel s (.erase id) { s.eraseConn conn.fd with closing := s.closing.erase id }
  | connOp {id : ConnId} {op : ConnOp} {conn : Connection} (hop : Ordinary op)
      (hconn : s.conns id = some conn) :
      Moves kernel s (.connOp id op) (s.setConn id (op.apply (kernel id) conn))

theorem next_moves {kernel : ConnId → Kernel} {s t : Server n} {a : Action n}
    (hnext : s.next kernel a = some t) : s.Moves kernel a t := by
  cases a with
  | broadcastPush data excludeFd =>
    cases hnext
    exact .broadcastPush data excludeFd
  | broadcastNotify =>
    simp only [next, Option.ite_none_right_eq_some, Option.some.injEq] at hnext
    obtain ⟨hinside, rfl⟩ := hnext
    exact .broadcastNotify hinside
  | epollWait batch =>
    simp only [next] at hnext
    split at hnext
    · rename_i hreactor
      simp only [Option.ite_none_right_eq_some, Option.some.injEq] at hnext
      obtain ⟨⟨_, hedge⟩, rfl⟩ := hnext
      exact .epollWait hreactor hedge
    · cases hnext
  | epollFails =>
    simp only [next] at hnext
    split at hnext
    · rename_i hreactor
      cases hnext
      exact .epollFails hreactor
    · cases hnext
  | dispatch =>
    simp only [next] at hnext
    split at hnext
    · rename_i hreactor
      cases hnext
      exact .dispatchNotify hreactor
    · rename_i hreactor
      cases hnext
      exact .dispatchSignal hreactor
    · rename_i hreactor
      cases hnext
      exact .dispatchOther hreactor
    · cases hnext
  | endBatch =>
    simp only [next] at hnext
    split at hnext
    · rename_i pending hreactor
      cases hnext
      cases pending with
      | true => exact .flush hreactor
      | false => exact .endBatch hreactor
    · cases hnext
  | pushBatch =>
    simp only [next] at hnext
    split at hnext
    · rename_i hreactor
      cases hnext
      exact .pushBatch hreactor
    · cases hnext
  | pop worker =>
    simp only [next] at hnext
    split at hnext
    · rename_i hqueue
      simp only [Option.ite_none_right_eq_some, Option.some.injEq] at hnext
      obtain ⟨hidle, rfl⟩ := hnext
      exact .pop hqueue (Option.isNone_iff_eq_none.mp hidle)
    · cases hnext
  | snapshot worker seen =>
    simp only [next] at hnext
    split at hnext
    · rename_i hheld
      simp only [Option.ite_none_right_eq_some, Option.some.injEq] at hnext
      obtain ⟨hseen, rfl⟩ := hnext
      exact .snapshot hheld hseen
    · cases hnext
  | turn worker =>
    simp only [next] at hnext
    split at hnext
    · rename_i hheld
      obtain ⟨conn, hconn, rfl⟩ := Option.map_eq_some_iff.mp hnext
      exact .turn hheld hconn
    · cases hnext
  | finish worker =>
    simp only [next] at hnext
    split at hnext
    · rename_i hheld
      cases hnext
      exact .finish hheld
    · cases hnext
  | accept id fd now =>
    simp only [next, Option.ite_none_right_eq_some, Option.some.injEq] at hnext
    obtain ⟨hfresh, rfl⟩ := hnext
    exact .accept fd now (Option.isNone_iff_eq_none.mp hfresh)
  | close id =>
    obtain ⟨conn, hconn, heq⟩ := Option.map_eq_some_iff.mp hnext
    cases hclosed : conn.closed with
    | true =>
      rw [hclosed, if_pos rfl] at heq
      exact heq ▸ .closeAgain hconn hclosed
    | false =>
      rw [hclosed, if_neg Bool.false_ne_true] at heq
      exact heq ▸ .close hconn hclosed
  | erase id =>
    simp only [next, Option.ite_none_right_eq_some] at hnext
    obtain ⟨hclosing, hnext⟩ := hnext
    obtain ⟨conn, hconn, rfl⟩ := Option.map_eq_some_iff.mp hnext
    exact .erase hclosing hconn
  | connOp id op =>
    simp only [next, Option.ite_none_right_eq_some] at hnext
    obtain ⟨hop, hnext⟩ := hnext
    obtain ⟨conn, hconn, rfl⟩ := Option.map_eq_some_iff.mp hnext
    exact .connOp hop hconn

/-- A worker can take its turn at a connection that exists. -/
theorem turn_next (kernel : ConnId → Kernel) {s : Server n} {worker : Fin n} {task : Task}
    {id : ConnId} {rest : List ConnId} {conn : Connection}
    (hheld : s.workers worker = some ⟨task, some (id :: rest)⟩)
    (hconn : s.conns id = some conn) :
    s.next kernel (.turn worker) =
      some ((s.setConn id (shardTaskBody (kernel id) conn task.batch.events)).setWorker worker
        (some ⟨task, some rest⟩)) := by
  simp only [next, hheld, hconn, Option.map_some]

end Server

def machine (kernel : ConnId → Kernel) (n : ℕ) : Machine (Server n) (Action n) :=
  ⟨Server.init, Server.next kernel⟩

section Samples

variable {n : ℕ}

/-- Sockets that are never writable. -/
def sampleKernel : ConnId → Kernel := fun _ _ _ => .eagain

/-- One broadcast, and the turn of the reactor's loop that pushes its tasks. -/
def broadcastRound (data : Bytes) : List (Action n) :=
  [.broadcastPush data (-1), .broadcastNotify, .epollWait [.notify], .dispatch, .endBatch,
    .pushBatch]

/-- The events that a worker holds, and the connections it has left. -/
def heldBy (s : Server n) (worker : Fin n) :
    Option (List BroadcastEvent × Option (List ConnId)) :=
  (s.workers worker).map fun running => (running.task.batch.events, running.todo)

theorem heldBy_eq_some {s : Server n} {worker : Fin n} {events : List BroadcastEvent}
    {todo : Option (List ConnId)} (h : heldBy s worker = some (events, todo)) :
    ∃ task, s.workers worker = some ⟨task, todo⟩ ∧ task.batch.events = events := by
  obtain ⟨⟨task, _⟩, hheld, heq⟩ := Option.map_eq_some_iff.mp h
  cases heq
  exact ⟨task, hheld, rfl⟩

/-- The marks of a connection and the length of its queue. -/
def given (s : Server n) (id : ConnId) : Option ((ℕ × Bool × List SharedPayload) × ℕ) :=
  (s.conns id).map fun conn => (marks conn, conn.outgoingQueue.length)

theorem given_eq_some {s : Server n} {id : ConnId} {fd size : ℕ} {closed : Bool}
    {appended : List SharedPayload} (h : given s id = some ((fd, closed, appended), size)) :
    ∃ conn, s.conns id = some conn ∧ conn.fd = fd ∧ conn.closed = closed ∧
      conn.appended = appended ∧ conn.outgoingQueue.length = size := by
  obtain ⟨conn, hconn, heq⟩ := Option.map_eq_some_iff.mp h
  simp only [marks, Prod.mk.injEq] at heq
  obtain ⟨⟨hfd, hclosed, happended⟩, hsize⟩ := heq
  exact ⟨conn, hconn, hfd, hclosed, happended, hsize⟩

end Samples

end ChatServer.Broadcast
