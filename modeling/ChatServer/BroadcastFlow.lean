import ChatServer.Broadcast
import ChatServer.Lib.WorkQueue

/-!
The flow of the broadcasts: the tasks in line, the batch that is still being
collected, what the workers hold, and the broadcasts each connection was
given. Every step of the server is a step of the flow, or leaves it as it is.
-/
namespace ChatServer.BroadcastFlow

open Broadcast ShardTask Lib.WorkQueue

variable {n : ℕ}

/-- The Broadcast calls of a batch, by number. -/
def origins (batch : Batch) : List ℕ := batch.events.filterMap (·.payload.origin)

/-- The Broadcast calls that a connection was given, in append order. -/
structure Inbox where
  fd : ℕ
  log : List ℕ

def inboxOf (conn : Connection) : Inbox :=
  ⟨conn.fd, conn.appended.filterMap SharedPayload.origin⟩

structure Flow (n : ℕ) where
  line : List Task
  last : Batch
  broadcasts : ℕ
  workers : Fin n → Option Running
  shards : ℕ → List (ℕ × ConnId)
  inbox : ConnId → Option Inbox

namespace Flow

def pool (f : Flow n) : Pool (Fin n) Task := ⟨f.line, fun w => (f.workers w).map Running.task⟩

def setWorker (f : Flow n) (w : Fin n) (running : Option Running) : Flow n :=
  { f with workers := Function.update f.workers w running }

def push (f : Flow n) (data : Bytes) (excludeFd : ℤ) : Flow n :=
  { f with
    last := ⟨f.last.number, f.last.events ++ [⟨excludeFd, ⟨data, some f.broadcasts⟩⟩]⟩
    broadcasts := f.broadcasts + 1 }

/-- The last batch joins the line, and a new one begins. -/
def swap (f : Flow n) : Flow n :=
  { f with line := f.line ++ f.last.tasks, last := ⟨f.last.number + 1, []⟩ }

def deliver (f : Flow n) (id : ConnId) (box : Inbox) (part : List ℕ) : Flow n :=
  { f with inbox := Function.update f.inbox id (some ⟨box.fd, box.log ++ part⟩) }

def setEntries (f : Flow n) (shard : ℕ) (entries : List (ℕ × ConnId)) : Flow n :=
  { f with shards := Function.update f.shards shard entries }

def arrive (f : Flow n) (id : ConnId) (fd : ℕ) : Flow n :=
  { f.setEntries (shardIdx fd) ((f.shards (shardIdx fd)).filter (·.1 ≠ fd) ++ [(fd, id)]) with
    inbox := Function.update f.inbox id (some ⟨fd, []⟩) }

/-- A turn may give a connection any part of its batch, in order. -/
inductive Step (f : Flow n) : Action n → Flow n → Prop
  | stay (a : Action n) : Step f a f
  | push (data : Bytes) (excludeFd : ℤ) :
      Step f (.broadcastPush data excludeFd) (f.push data excludeFd)
  | swap : Step f .endBatch f.swap
  | pop {w : Fin n} {task : Task} {rest : List Task} (hline : f.line = task :: rest)
      (hidle : f.workers w = none) :
      Step f (.pop w) ({ f with line := rest }.setWorker w (some ⟨task, none⟩))
  | snapshot {w : Fin n} {task : Task} {seen : List ConnId}
      (hheld : f.workers w = some ⟨task, none⟩) (honce : seen.Nodup)
      (hseen : ∀ id ∈ seen, id ∈ (f.shards task.shard).map Prod.snd) :
      Step f (.snapshot w seen) (f.setWorker w (some ⟨task, some seen⟩))
  | turn {w : Fin n} {task : Task} {id : ConnId} {rest : List ConnId} {box : Inbox}
      {part : List ℕ} (hheld : f.workers w = some ⟨task, some (id :: rest)⟩)
      (hbox : f.inbox id = some box) (hpart : part.Sublist (origins task.batch)) :
      Step f (.turn w) ((f.deliver id box part).setWorker w (some ⟨task, some rest⟩))
  | finish {w : Fin n} {task : Task} (hheld : f.workers w = some ⟨task, some []⟩) :
      Step f (.finish w) (f.setWorker w none)
  | accept {id : ConnId} {fd now : ℕ} (hfresh : f.inbox id = none) :
      Step f (.accept id fd now) (f.arrive id fd)
  | erase (id : ConnId) (fd : ℕ) :
      Step f (.erase id) (f.setEntries (shardIdx fd) ((f.shards (shardIdx fd)).filter (·.1 ≠ fd)))

end Flow

/-- The tasks that process_global_queue has swapped out and not yet pushed. -/
def flushingTasks : Reactor → List Task
  | .flushing batch => batch.tasks
  | _ => []

def flow (s : Server n) : Flow n where
  line := s.taskQueue ++ flushingTasks s.reactor
  last := ⟨s.flushes, s.globalQueue⟩
  broadcasts := s.broadcasts
  workers := s.workers
  shards := s.shards
  inbox id := (s.conns id).map inboxOf

section Simulation

variable {s t : Server n} {id : ConnId} {conn : Connection}

theorem inbox_of_conn (h : s.conns id = some conn) : (flow s).inbox id = some (inboxOf conn) :=
  congrArg (Option.map inboxOf) h

theorem flow_setConn (id : ConnId) (conn : Connection) :
    flow (s.setConn id conn) =
      { flow s with inbox := Function.update (flow s).inbox id (some (inboxOf conn)) } := by
  have hinbox : (flow (s.setConn id conn)).inbox =
      Function.update (flow s).inbox id (some (inboxOf conn)) := by
    funext k
    change Option.map inboxOf (Function.update s.conns id (some conn) k) = _
    rw [Function.update_apply, Function.update_apply]
    split <;> rfl
  rw [← hinbox]
  rfl

/-- A change of a connection that leaves its inbox alone leaves the flow alone. -/
theorem flow_setConn_same {conn' : Connection} (h : s.conns id = some conn)
    (hsame : inboxOf conn' = inboxOf conn) : flow (s.setConn id conn') = flow s := by
  rw [flow_setConn, hsame, ← inbox_of_conn h, Function.update_eq_self]

theorem inboxOf_congr {c d : Connection} (h : marks d = marks c) : inboxOf d = inboxOf c := by
  simp only [marks, Prod.mk.injEq] at h
  simp only [inboxOf, h]

/-- An operation outside the shard tasks gives a connection no broadcast. -/
theorem inboxOf_ordinary (kernel : Kernel) (conn : Connection) {op : ConnOp}
    (hop : Ordinary op) : inboxOf (op.apply kernel conn) = inboxOf conn := by
  cases op with
  | sendPreEncoded packet =>
    have horigin : packet.origin = none := hop
    cases hclosed : conn.closed with
    | true =>
      have hsame : sendPreEncoded kernel conn packet = conn := if_pos hclosed
      exact congrArg inboxOf hsame
    | false =>
      have hmarks := sendPreEncoded_marks kernel conn packet hclosed
      simp only [marks, Prod.mk.injEq] at hmarks
      simp [inboxOf, ConnOp.apply, hmarks, horigin]
  | shardTask events => cases hop
  | flush => exact inboxOf_congr (flushBody_marks kernel conn)
  | handleWrite => exact inboxOf_congr (handleWrite_marks kernel conn)
  | handleRead answers => exact inboxOf_congr (handleRead_marks conn answers)
  | register => rfl
  | close => cases hop

/-- A turn gives the connection a part of the batch. -/
theorem inboxOf_shardTask (kernel : Kernel) (conn : Connection) (batch : Batch) :
    ∃ part, part.Sublist (origins batch) ∧
      inboxOf (shardTaskBody kernel conn batch.events) =
        ⟨(inboxOf conn).fd, (inboxOf conn).log ++ part⟩ := by
  cases hclosed : conn.closed with
  | true =>
    refine ⟨[], List.nil_sublist _, ?_⟩
    rw [shardTaskBody_closed kernel conn batch.events hclosed, List.append_nil]
  | false =>
    have hmarks := shardTaskBody_marks kernel conn batch.events hclosed
    simp only [marks, Prod.mk.injEq] at hmarks
    obtain ⟨hfd, _, happended⟩ := hmarks
    refine ⟨(keptEvents conn.fd conn.outgoingQueue.length batch.events).filterMap
      (·.payload.origin), (keptEvents_sublist _ _ _).filterMap _, ?_⟩
    simp only [inboxOf, hfd, happended, List.filterMap_append, List.filterMap_map]
    rfl

theorem stay_reactor (a : Action n) {reactor : Reactor}
    (h : flushingTasks reactor = flushingTasks s.reactor) :
    (flow s).Step a (flow { s with reactor := reactor }) := by
  have hsame : flow { s with reactor := reactor } = flow s := by
    simp only [flow, h]
  exact hsame ▸ .stay a

theorem loop_reactor (s : Server n) : flushingTasks s.loop.reactor = [] := by
  unfold Server.loop
  dsimp only
  split <;> rfl

theorem flow_pushBatch {batch : Batch} (hreactor : s.reactor = .flushing batch) :
    flow (s.pushBatch batch) = flow s := by
  have hline : (flow (s.pushBatch batch)).line = (flow s).line := by
    change (s.taskQueue ++ batch.tasks) ++ flushingTasks s.loop.reactor =
      s.taskQueue ++ flushingTasks s.reactor
    rw [loop_reactor, hreactor, List.append_nil]
    rfl
  calc flow (s.pushBatch batch)
      = { flow s with line := (flow (s.pushBatch batch)).line } := rfl
    _ = flow s := by rw [hline]

theorem flow_swapQueue (hreactor : flushingTasks s.reactor = [])
    (hqueue : s.globalQueue.isEmpty = false) : flow s.swapQueue = (flow s).swap := by
  unfold Server.swapQueue
  rw [hqueue]
  simp only [Bool.false_eq_true, if_false, flow, Flow.swap, hreactor, List.append_nil]
  rfl

theorem flow_accept (s : Server n) (id : ConnId) (fd now : ℕ) :
    flow ((s.setConn id (Connection.new fd now)).insertConn fd id) = (flow s).arrive id fd := by
  have hset := flow_setConn (s := s) id (Connection.new fd now)
  let entries := (s.shards (shardIdx fd)).filter (·.1 ≠ fd) ++ [(fd, id)]
  calc flow ((s.setConn id (Connection.new fd now)).insertConn fd id)
      = (flow (s.setConn id (Connection.new fd now))).setEntries (shardIdx fd) entries := rfl
    _ = (flow s).arrive id fd := by
      rw [hset]
      rfl

theorem flow_notify (s : Server n) : flow s.notify = flow s := by
  unfold Server.notify
  split <;> rfl

/-- Every step of the server is a step of the flow. -/
theorem next_flow {kernel : ConnId → Kernel} {a : Action n} (hnext : s.next kernel a = some t) :
    (flow s).Step a (flow t) := by
  cases Server.next_moves hnext with
  | broadcastPush data excludeFd => exact .push data excludeFd
  | broadcastNotify => exact flow_notify s ▸ .stay _
  | epollWait hreactor => exact stay_reactor _ (congrArg flushingTasks hreactor).symm
  | epollFails hreactor => exact stay_reactor _ (congrArg flushingTasks hreactor).symm
  | dispatchNotify hreactor => exact stay_reactor _ (congrArg flushingTasks hreactor).symm
  | dispatchSignal hreactor => exact stay_reactor _ (congrArg flushingTasks hreactor).symm
  | dispatchOther hreactor => exact stay_reactor _ (congrArg flushingTasks hreactor).symm
  | flush hreactor =>
    have hnone : flushingTasks s.reactor = [] := congrArg flushingTasks hreactor
    cases hqueue : s.globalQueue.isEmpty with
    | true =>
      rw [Server.swapQueue, if_pos hqueue]
      exact stay_reactor _ ((loop_reactor s).trans hnone.symm)
    | false => exact flow_swapQueue hnone hqueue ▸ .swap
  | endBatch hreactor =>
    exact stay_reactor _ ((loop_reactor s).trans (congrArg flushingTasks hreactor).symm)
  | pushBatch hreactor => exact flow_pushBatch hreactor ▸ .stay _
  | pop hqueue hidle =>
    refine .pop ?_ hidle
    simp only [flow, hqueue, List.cons_append]
    rfl
  | snapshot hheld hseen => exact .snapshot hheld hseen.1 hseen.2.1
  | @turn w task id rest conn hheld hconn =>
    obtain ⟨part, hpart, hinbox⟩ := inboxOf_shardTask (kernel id) conn task.batch
    have hflow : ((flow s).deliver id (inboxOf conn) part).setWorker w (some ⟨task, some rest⟩) =
        flow ((s.setConn id (shardTaskBody (kernel id) conn task.batch.events)).setWorker w
          (some ⟨task, some rest⟩)) := by
      rw [Flow.deliver, ← hinbox, ← flow_setConn]
      rfl
    exact hflow ▸ .turn hheld (inbox_of_conn hconn) hpart
  | finish hheld => exact .finish hheld
  | @accept id fd now hfresh =>
    exact flow_accept s id fd now ▸ .accept (congrArg (Option.map inboxOf) hfresh)
  | closeAgain => exact .stay _
  | @close id conn hconn hopen =>
    have hclose : inboxOf conn.close = inboxOf conn := by
      rw [Connection.close, hopen, if_neg Bool.false_ne_true]
      rfl
    have hsame : flow { s.setConn id conn.close with closing := id :: s.closing } = flow s :=
      flow_setConn_same hconn hclose
    exact hsame ▸ .stay _
  | @erase id conn => exact .erase id conn.fd
  | @connOp id op conn hop hconn =>
    exact flow_setConn_same hconn (inboxOf_ordinary (kernel id) conn hop) ▸ .stay _

end Simulation

end ChatServer.BroadcastFlow
