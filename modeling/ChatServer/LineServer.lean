import Mathlib.Data.Finset.Insert
import Mathlib.Data.Fintype.Basic
import Mathlib.Data.List.AList
import ChatServer.Lib.DelimitedLines
import ChatServer.MessageTasks

/-!
The second version of the server, a chat of lines. The main thread runs the
reactor and is the only one that touches `connections_`, `usernames_` and the
buffers; the workers share with it the task queue, the broadcast queue and the flag
`closed`. A step contains at most one access to what is shared. Every `accept`
makes a new connection object, so the objects are numbered in this order, and
a table tells whose each descriptor of the process is.
-/
namespace ChatServer.LineServer

open Lib.DelimitedLines Lib.Runs MessageTasks

abbrev ConnId := ℕ

def bufferSize : ℕ := 4096

inductive ConnState
  | awaitingUsername
  | active
deriving DecidableEq

/-- An entry of `broadcast_queue_`; the sender -1 is nobody. The last two fields are
history: the number of the call of queue_broadcast_message, and for a chat line the
connection and the line that was processed. -/
structure Broadcast where
  msg : Text
  senderFd : Option ℕ
  number : ℕ
  origin : Option (ConnId × Text)
deriving DecidableEq

/-- The last five fields are history: what recv has returned, the lines that were
taken for a username and those that were chat, both without their newline, the messages
appended to `out_buf`, and the bytes that handle_write has sent. -/
structure Connection where
  fd : ℕ
  username : Text
  state : ConnState
  inBuf : Bytes
  outBuf : Bytes
  closed : Bool
  received : Bytes
  entered : List Text
  chatted : List Text
  appended : List Broadcast
  sent : Bytes

def Connection.new (fd : ℕ) : Connection :=
  ⟨fd, [], .awaitingUsername, [], [], false, [], [], [], [], []⟩

/-- A task of the pool. The line that the message was made of is history. -/
structure Task where
  conn : ConnId
  message : Text
  line : Text
deriving DecidableEq

/-- Where a worker is in worker_loop. -/
inductive Worker
  | looping
  | waiting
  | holding (task : Task)
  /-- The connection was found open and with a username. -/
  | sending (task : Task)
  | exited
deriving DecidableEq

/-- The descriptors that the constructor opens. -/
inductive ServerFd
  | listen
  | epoll
  | signal
  | notify
deriving DecidableEq

/-- Whose a descriptor is. -/
inductive Owner
  | server (h : ServerFd)
  | client (conn : ConnId)
  | other
deriving DecidableEq

/-- A call of `close`: the descriptor that it is for, and whose the number was. -/
structure Close where
  target : Owner
  found : Option Owner
deriving DecidableEq

/-- Where the main thread is. A flag `write` says that handle_write is called next, and
`again` that stop is called by the destructor. -/
inductive Stage
  | polling
  | accepting
  /-- In handle_broadcasts, with the messages drained. -/
  | broadcasting (messages : List Broadcast)
  /-- In handle_read at recv. -/
  | reading (conn : ConnId) (write : Bool)
  /-- In the loop over the lines of `in_buf`. -/
  | splitting (conn : ConnId) (write : Bool)
  | writing (conn : ConnId)
  /-- At the start of close_conn. -/
  | closing (conn : ConnId) (write : Bool)
  /-- The flag `closed` is set. -/
  | leaving (conn : ConnId) (write : Bool)
  /-- The departure is queued. -/
  | releasing (conn : ConnId) (write : Bool)
  /-- At the start of stop. -/
  | stopping (again : Bool)
  /-- In ThreadPool::shutdown, waiting for the workers. -/
  | joining (again : Bool)
  | closingClients (again : Bool) (rest : List (ℕ × ConnId))
  | closingServer (again : Bool) (rest : List ServerFd)
  /-- run has returned. -/
  | returned
  | destroyed
deriving DecidableEq

/-- What handle_broadcasts found, history of the server. -/
structure Drain where
  messages : List Broadcast
  conns : ConnId → Connection
  connections : AList fun _ : ℕ => ConnId

/-- The last three fields are history: all that was queued for broadcast, the calls of
handle_broadcasts that found something, and the calls of `close`. -/
structure Server (W : Type*) where
  conns : ConnId → Connection
  /-- How many connection objects there are. -/
  accepted : ℕ
  connections : AList fun _ : ℕ => ConnId
  usernames : Finset Text
  broadcastQueue : List Broadcast
  taskQueue : List Task
  poolRunning : Bool
  worker : W → Worker
  stage : Stage
  owner : ℕ → Option Owner
  queued : List Broadcast
  drains : List Drain
  closes : List Close

/-- What `recv` returns; everything but data and EAGAIN leads to close_conn. -/
inductive Received
  | bytes (chunk : Bytes)
  | wouldBlock
  | ended
deriving DecidableEq

/-- What `send` returns in handle_write. -/
inductive Sent
  | bytes (count : ℕ)
  | wouldBlock
  | failed
deriving DecidableEq

/-- A step of the main thread is labelled with what the kernel returns in it. The last
two are steps of other code of the process that opens and closes descriptors of its own. -/
inductive Action (W : Type*)
  | epollEvent (fd : ℕ) (error input output : Bool)
  | epollFails
  | accept (fd : ℕ)
  | acceptFails
  | recv (result : Received)
  | send (result : Sent)
  | reactor
  | destroy
  | work (w : W)
  | otherOpens (fd : ℕ)
  | otherCloses (fd : ℕ)
deriving DecidableEq

/-- `listen_fd_`, `epoll_fd_`, `sig_fd_` and `notify_fd_`, which are open together. -/
structure ServerFds where
  fd : ServerFd → ℕ
  injective : Function.Injective fd

def joinMessage (username : Text) : Text :=
  text "[Server]: " ++ username ++ text " has joined the chatroom!\n"

def leaveMessage (username : Text) : Text :=
  text "[Server]: " ++ username ++ text " has left the chatroom.\n"

/-- What worker_loop makes of the message of a task. -/
def chatMessage (username message : Text) : Text :=
  text "[" ++ username ++ text "]: " ++ message.take (message.length - 1) ++ [newline]

/-- A connection that handle_broadcasts does not skip. -/
def Connection.Listens (conn : Connection) : Prop := conn.closed = false ∧ conn.state = .active

instance (conn : Connection) : Decidable conn.Listens := inferInstanceAs (Decidable (_ ∧ _))

/-- The messages that go into `buffer_for_this_client`. -/
def Connection.wanted (conn : Connection) (messages : List Broadcast) : List Broadcast :=
  messages.filter fun m => m.senderFd ≠ some conn.fd

def Connection.append (conn : Connection) (messages : List Broadcast) : Connection :=
  { conn with
    outBuf := conn.outBuf ++ messages.flatMap Broadcast.msg
    appended := conn.appended ++ messages }

/-- One turn of the loop over `active_conns`. -/
def deliverTo (messages : List Broadcast) (conns : ConnId → Connection) (c : ConnId) :
    ConnId → Connection :=
  if (conns c).Listens then
    Function.update conns c ((conns c).append ((conns c).wanted messages))
  else conns

def serverFds : List ServerFd := [.listen, .epoll, .signal, .notify]

/-- What the main thread goes on with after handle_read. -/
def Stage.after (c : ConnId) (write : Bool) : Stage := if write then .writing c else .polling

namespace Server

variable {W : Type*}

/-- The server when the constructor is done. -/
def init (fds : ServerFds) : Server W where
  conns := fun _ => .new 0
  accepted := 0
  connections := ∅
  usernames := ∅
  broadcastQueue := []
  taskQueue := []
  poolRunning := true
  worker := fun _ => .looping
  stage := .polling
  owner := fun fd => (serverFds.find? fun h => fds.fd h = fd).map .server
  queued := []
  drains := []
  closes := []

def setConn (s : Server W) (c : ConnId) (conn : Connection) : Server W :=
  { s with conns := Function.update s.conns c conn }

@[simp]
theorem setConn_self (s : Server W) (c : ConnId) (conn : Connection) :
    (s.setConn c conn).conns c = conn := by
  simp [setConn]

theorem setConn_of_ne (s : Server W) {c d : ConnId} (h : d ≠ c) (conn : Connection) :
    (s.setConn c conn).conns d = s.conns d := by
  simp [setConn, h]

theorem setConn_forall (s : Server W) {c : ConnId} {conn : Connection}
    {P : ConnId → Connection → Prop} (hself : P c conn) (hother : ∀ d, d ≠ c → P d (s.conns d))
    (d : ConnId) : P d ((s.setConn c conn).conns d) := by
  by_cases hd : d = c
  · rw [hd, setConn_self]
    exact hself
  · rw [setConn_of_ne s hd]
    exact hother d hd

/-- What the new object has in common with the old one is common to all. -/
theorem setConn_same (s : Server W) {c : ConnId} {conn : Connection} {β : Type*}
    (f : Connection → β) (h : f conn = f (s.conns c)) (d : ConnId) :
    f ((s.setConn c conn).conns d) = f (s.conns d) :=
  s.setConn_forall (P := fun d conn => f conn = f (s.conns d)) h (fun _ _ => rfl) d

def goto (s : Server W) (stage : Stage) : Server W := { s with stage := stage }

def close (s : Server W) (fd : ℕ) (target : Owner) : Server W :=
  { s with
    owner := Function.update s.owner fd none
    closes := s.closes ++ [⟨target, s.owner fd⟩] }

def queueBroadcastMessage (s : Server W) (msg : Text) (senderFd : Option ℕ)
    (origin : Option (ConnId × Text)) : Server W :=
  { s with
    broadcastQueue := s.broadcastQueue ++ [⟨msg, senderFd, s.queued.length, origin⟩]
    queued := s.queued ++ [⟨msg, senderFd, s.queued.length, origin⟩] }

/-- The connection objects in `connections_`. -/
def activeConns (s : Server W) : List ConnId := s.connections.entries.map Sigma.snd

/-- handle_broadcasts up to the end of its first block. -/
def drain (s : Server W) : Server W :=
  if s.broadcastQueue = [] then s
  else { s with broadcastQueue := [], stage := .broadcasting s.broadcastQueue }

/-- The rest of handle_broadcasts. -/
def deliver (s : Server W) (messages : List Broadcast) : Server W :=
  { s with
    conns := s.activeConns.foldl (deliverTo messages) s.conns
    drains := s.drains ++ [⟨messages, s.conns, s.connections⟩]
    stage := .polling }

/-- The body of the loop in run. -/
def dispatch (fds : ServerFds) (s : Server W) (fd : ℕ) (error input output : Bool) : Server W :=
  if fd = fds.fd .listen then s.goto .accepting
  else if fd = fds.fd .signal then s.goto (.stopping false)
  else if fd = fds.fd .notify then s.drain
  else
    match s.connections.lookup fd with
    | none => s
    | some c =>
        if error then s.goto (.closing c false)
        else if input then s.goto (.reading c output)
        else s.goto (.after c output)

def accept (s : Server W) (fd : ℕ) : Server W :=
  { s with
    conns := Function.update s.conns s.accepted (.new fd)
    accepted := s.accepted + 1
    connections := s.connections.insert fd s.accepted
    owner := Function.update s.owner fd (some (.client s.accepted)) }

/-- A first line in `in_buf`, whose newline is at `pos`, is taken off and handled. -/
def handleLine (s : Server W) (c : ConnId) (pos : ℕ) : Server W :=
  let line := (s.conns c).inBuf.take (pos + 1)
  let conn := { s.conns c with inBuf := (s.conns c).inBuf.drop (pos + 1) }
  match conn.state with
  | .awaitingUsername =>
      let enteredName := line.take (line.length - 1)
      let conn := { conn with entered := conn.entered ++ [enteredName] }
      if enteredName ∉ s.usernames ∧ enteredName ≠ [] then
        ({ s with usernames := insert enteredName s.usernames }.setConn c
          { conn with username := enteredName, state := .active }).queueBroadcastMessage
            (joinMessage enteredName) none none
      else s.setConn c conn
  | .active =>
      { s.setConn c { conn with chatted := conn.chatted ++ [line.take (line.length - 1)] } with
        taskQueue := s.taskQueue ++ [⟨c, line ++ [newline], line.take (line.length - 1)⟩] }

def split (s : Server W) (c : ConnId) (write : Bool) : Server W :=
  match (s.conns c).inBuf.findIdx? (· == newline) with
  | some pos => s.handleLine c pos
  | none => s.goto (.reading c write)

/-- close_conn between the exchange and the release of the descriptor. -/
def leave (s : Server W) (c : ConnId) : Server W :=
  if (s.conns c).username = [] then s
  else
    { s with usernames := s.usernames.erase (s.conns c).username }.queueBroadcastMessage
      (leaveMessage (s.conns c).username) none none

def release (s : Server W) (c : ConnId) : Server W :=
  let s := s.close (s.conns c).fd (.client c)
  { s with connections := s.connections.erase (s.conns c).fd }

def handleRead (s : Server W) (c : ConnId) (write : Bool) : Received → Option (Server W)
  | .bytes chunk =>
      if 0 < chunk.length ∧ chunk.length ≤ bufferSize then
        some ((s.setConn c { s.conns c with
          inBuf := (s.conns c).inBuf ++ chunk
          received := (s.conns c).received ++ chunk }).goto (.splitting c write))
      else none
  | .wouldBlock => some (s.goto (.after c write))
  | .ended => some (s.goto (.closing c write))

def handleWrite (s : Server W) (c : ConnId) : Sent → Option (Server W)
  | .bytes count =>
      if 0 < count ∧ count ≤ (s.conns c).outBuf.length then
        some (s.setConn c { s.conns c with
          outBuf := (s.conns c).outBuf.drop count
          sent := (s.conns c).sent ++ (s.conns c).outBuf.take count })
      else none
  | .wouldBlock => if (s.conns c).outBuf = [] then none else some (s.goto .polling)
  | .failed => if (s.conns c).outBuf = [] then none else some (s.goto (.closing c false))

section Workers

variable [DecidableEq W]

def setWorker (s : Server W) (w : W) (stage : Worker) : Server W :=
  { s with worker := Function.update s.worker w stage }

/-- A step of worker_loop. -/
def work (s : Server W) (w : W) : Option (Server W) :=
  match s.worker w with
  | .looping => some (s.setWorker w (if s.poolRunning then .waiting else .exited))
  | .waiting =>
      match s.taskQueue with
      | task :: rest => some ({ s with taskQueue := rest }.setWorker w (.holding task))
      | [] => if s.poolRunning then none else some (s.setWorker w .exited)
  | .holding task =>
      some (s.setWorker w
        (if (s.conns task.conn).closed = true ∨ (s.conns task.conn).username = [] then .looping
          else .sending task))
  | .sending task =>
      let conn := s.conns task.conn
      some ((s.queueBroadcastMessage (chatMessage conn.username task.message) (some conn.fd)
        (some (task.conn, task.line))).setWorker w .looping)
  | .exited => none

end Workers

/-- The end of stop and of what called it. -/
def finish (again : Bool) : Stage := if again then .destroyed else .returned

/-- `connections_` as stop visits it. -/
def clients (s : Server W) : List (ℕ × ConnId) := s.connections.entries.map fun e => (e.1, e.2)

/-- A step of the main thread in which the kernel returns nothing. -/
def advance [Fintype W] (fds : ServerFds) (s : Server W) : Option (Server W) :=
  match s.stage with
  | .broadcasting messages => some (s.deliver messages)
  | .splitting c write => some (s.split c write)
  | .writing c => if (s.conns c).outBuf = [] then some (s.goto .polling) else none
  | .closing c write =>
      if (s.conns c).closed then some (s.goto (.after c write))
      else some ((s.setConn c { s.conns c with closed := true }).goto (.leaving c write))
  | .leaving c write => some ((s.leave c).goto (.releasing c write))
  | .releasing c write => some ((s.release c).goto (.after c write))
  | .stopping again =>
      if s.poolRunning then some ({ s with poolRunning := false }.goto (.joining again))
      else some (s.goto (.closingClients again s.clients))
  | .joining again =>
      if ∀ w, s.worker w = .exited then some (s.goto (.closingClients again s.clients)) else none
  | .closingClients again ((fd, c) :: rest) =>
      some ((s.close fd (.client c)).goto (.closingClients again rest))
  | .closingClients again [] =>
      some ({ s with connections := ∅ }.goto (.closingServer again serverFds))
  | .closingServer again (h :: rest) =>
      some ((s.close (fds.fd h) (.server h)).goto (.closingServer again rest))
  | .closingServer again [] => some (s.goto (finish again))
  | _ => none

/-- The kernel never returns a descriptor that is open. -/
def next [Fintype W] [DecidableEq W] (fds : ServerFds) (s : Server W) :
    Action W → Option (Server W)
  | .epollEvent fd error input output =>
      if s.stage = .polling then some (s.dispatch fds fd error input output) else none
  | .epollFails => if s.stage = .polling then some (s.goto (.stopping false)) else none
  | .accept fd => if s.stage = .accepting ∧ s.owner fd = none then some (s.accept fd) else none
  | .acceptFails => if s.stage = .accepting then some (s.goto .polling) else none
  | .recv result =>
      match s.stage with
      | .reading c write => s.handleRead c write result
      | _ => none
  | .send result =>
      match s.stage with
      | .writing c => s.handleWrite c result
      | _ => none
  | .reactor => s.advance fds
  | .destroy => if s.stage = .returned then some (s.goto (.stopping true)) else none
  | .work w => s.work w
  | .otherOpens fd =>
      if s.owner fd = none then some { s with owner := Function.update s.owner fd (some .other) }
      else none
  | .otherCloses fd =>
      if s.owner fd = some .other then some { s with owner := Function.update s.owner fd none }
      else none

end Server

/-- The descriptors of a process that has opened nothing else. -/
def sampleFds : ServerFds where
  fd
    | .signal => 3
    | .listen => 4
    | .epoll => 5
    | .notify => 6
  injective := by
    intro h k heq
    cases h <;> cases k <;> first | rfl | cases heq

def machine {W : Type*} [Fintype W] [DecidableEq W] (fds : ServerFds) :
    Machine (Server W) (Action W) := ⟨.init fds, Server.next fds⟩

section Steps

variable {W : Type*} [DecidableEq W] {fds : ServerFds} {s t : Server W} {a : Action W}

/-- The steps that only lead the main thread somewhere else. -/
inductive Turns (s : Server W) : Stage → Prop
  | listen (hstage : s.stage = .polling) : Turns s .accepting
  | stop (hstage : s.stage = .polling) : Turns s (.stopping false)
  | error {fd : ℕ} {c : ConnId} (hstage : s.stage = .polling)
      (hlookup : s.connections.lookup fd = some c) : Turns s (.closing c false)
  | input {fd : ℕ} {c : ConnId} {write : Bool} (hstage : s.stage = .polling)
      (hlookup : s.connections.lookup fd = some c) : Turns s (.reading c write)
  | output {fd : ℕ} {c : ConnId} (hstage : s.stage = .polling)
      (hlookup : s.connections.lookup fd = some c) : Turns s (.writing c)
  | nothing (hstage : s.stage = .polling) : Turns s .polling
  | acceptFails (hstage : s.stage = .accepting) : Turns s .polling
  | wouldBlock {c : ConnId} {write : Bool} (hstage : s.stage = .reading c write) :
      Turns s (.after c write)
  | ended {c : ConnId} {write : Bool} (hstage : s.stage = .reading c write) :
      Turns s (.closing c write)
  | unfinished {c : ConnId} {write : Bool} (hstage : s.stage = .splitting c write)
      (hnone : newline ∉ (s.conns c).inBuf) : Turns s (.reading c write)
  | written {c : ConnId} (hstage : s.stage = .writing c) : Turns s .polling
  | failed {c : ConnId} (hstage : s.stage = .writing c) : Turns s (.closing c false)
  | closed {c : ConnId} {write : Bool} (hstage : s.stage = .closing c write)
      (hclosed : (s.conns c).closed = true) : Turns s (.after c write)
  | shutDown {again : Bool} (hstage : s.stage = .stopping again) :
      Turns s (.closingClients again s.clients)
  | joined {again : Bool} (hstage : s.stage = .joining again) :
      Turns s (.closingClients again s.clients)
  | finish {again : Bool} (hstage : s.stage = .closingServer again []) :
      Turns s (Server.finish again)
  | destroy (hstage : s.stage = .returned) : Turns s (.stopping true)

/-- The steps of a worker that nobody else sees. -/
inductive WorkerTurns (s : Server W) (w : W) : Worker → Prop
  | waits (hworker : s.worker w = .looping) : WorkerTurns s w .waiting
  | exits : WorkerTurns s w .exited
  | drops : WorkerTurns s w .looping
  | finds {task : Task} (hworker : s.worker w = .holding task)
      (hopen : (s.conns task.conn).closed = false)
      (hname : (s.conns task.conn).username ≠ []) : WorkerTurns s w (.sending task)

/-- What a step can do. -/
inductive Moves (fds : ServerFds) (s : Server W) : Server W → Prop
  | turn {stage : Stage} (h : Turns s stage) : Moves fds s (s.goto stage)
  | drain (hstage : s.stage = .polling) : Moves fds s
      { s with broadcastQueue := [], stage := .broadcasting s.broadcastQueue }
  | deliver {messages : List Broadcast} (hstage : s.stage = .broadcasting messages) :
      Moves fds s (s.deliver messages)
  | accept {fd : ℕ} (hstage : s.stage = .accepting) (hfree : s.owner fd = none) :
      Moves fds s (s.accept fd)
  | data {c : ConnId} {write : Bool} (chunk : Bytes) (hstage : s.stage = .reading c write) :
      Moves fds s ((s.setConn c { s.conns c with
        inBuf := (s.conns c).inBuf ++ chunk
        received := (s.conns c).received ++ chunk }).goto (.splitting c write))
  | login {c : ConnId} {write : Bool} {name rest : Bytes} (hstage : s.stage = .splitting c write)
      (hstate : (s.conns c).state = .awaitingUsername)
      (hline : (s.conns c).inBuf = name ++ newline :: rest) (hname : newline ∉ name)
      (hnew : name ∉ s.usernames) (hnonempty : name ≠ []) :
      Moves fds s (({ s with usernames := insert name s.usernames }.setConn c { s.conns c with
        inBuf := rest
        entered := (s.conns c).entered ++ [name]
        username := name
        state := .active }).queueBroadcastMessage (joinMessage name) none none)
  | refused {c : ConnId} {write : Bool} {name rest : Bytes} (hstage : s.stage = .splitting c write)
      (hstate : (s.conns c).state = .awaitingUsername)
      (hline : (s.conns c).inBuf = name ++ newline :: rest) (hname : newline ∉ name) :
      Moves fds s (s.setConn c { s.conns c with
        inBuf := rest
        entered := (s.conns c).entered ++ [name] })
  | chat {c : ConnId} {write : Bool} {line rest : Bytes} (hstage : s.stage = .splitting c write)
      (hstate : (s.conns c).state = .active)
      (hline : (s.conns c).inBuf = line ++ newline :: rest) (hnewline : newline ∉ line) :
      Moves fds s { s.setConn c { s.conns c with
          inBuf := rest
          chatted := (s.conns c).chatted ++ [line] } with
        taskQueue := s.taskQueue ++ [⟨c, line ++ [newline] ++ [newline], line⟩] }
  | sent {c : ConnId} (count : ℕ) (hstage : s.stage = .writing c) :
      Moves fds s (s.setConn c { s.conns c with
        outBuf := (s.conns c).outBuf.drop count
        sent := (s.conns c).sent ++ (s.conns c).outBuf.take count })
  | exchange {c : ConnId} {write : Bool} (hstage : s.stage = .closing c write)
      (hopen : (s.conns c).closed = false) :
      Moves fds s ((s.setConn c { s.conns c with closed := true }).goto (.leaving c write))
  | leave {c : ConnId} {write : Bool} (hstage : s.stage = .leaving c write)
      (hname : (s.conns c).username ≠ []) :
      Moves fds s (({ s with usernames := s.usernames.erase (s.conns c).username
        }.queueBroadcastMessage (leaveMessage (s.conns c).username) none none).goto
          (.releasing c write))
  | leaveNameless {c : ConnId} {write : Bool} (hstage : s.stage = .leaving c write)
      (hname : (s.conns c).username = []) : Moves fds s (s.goto (.releasing c write))
  | release {c : ConnId} {write : Bool} (hstage : s.stage = .releasing c write) :
      Moves fds s ((s.release c).goto (.after c write))
  | shutdown {again : Bool} (hstage : s.stage = .stopping again) :
      Moves fds s ({ s with poolRunning := false }.goto (.joining again))
  | closeClient {again : Bool} {fd : ℕ} {c : ConnId} {rest : List (ℕ × ConnId)}
      (hstage : s.stage = .closingClients again ((fd, c) :: rest)) :
      Moves fds s ((s.close fd (.client c)).goto (.closingClients again rest))
  | clear {again : Bool} (hstage : s.stage = .closingClients again []) :
      Moves fds s ({ s with connections := ∅ }.goto (.closingServer again serverFds))
  | closeServer {again : Bool} {h : ServerFd} {rest : List ServerFd}
      (hstage : s.stage = .closingServer again (h :: rest)) :
      Moves fds s ((s.close (fds.fd h) (.server h)).goto (.closingServer again rest))
  | workerTurn {w : W} {stage : Worker} (h : WorkerTurns s w stage) :
      Moves fds s (s.setWorker w stage)
  | take {w : W} {task : Task} {rest : List Task} (hqueue : s.taskQueue = task :: rest) :
      Moves fds s ({ s with taskQueue := rest }.setWorker w (.holding task))
  | push {w : W} {task : Task} (hworker : s.worker w = .sending task) :
      Moves fds s ((s.queueBroadcastMessage
        (chatMessage (s.conns task.conn).username task.message) (some (s.conns task.conn).fd)
        (some (task.conn, task.line))).setWorker w .looping)
  | otherOpens {fd : ℕ} (hfree : s.owner fd = none) :
      Moves fds s { s with owner := Function.update s.owner fd (some .other) }
  | otherCloses {fd : ℕ} (hother : s.owner fd = some .other) :
      Moves fds s { s with owner := Function.update s.owner fd none }

omit [DecidableEq W] in
theorem goto_polling (hstage : s.stage = .polling) : s.goto .polling = s := by
  rw [Server.goto, ← hstage]

theorem moves_dispatch {fd : ℕ} {error input output : Bool} (hstage : s.stage = .polling) :
    Moves fds s (s.dispatch fds fd error input output) := by
  have hsame : Moves fds s s := by
    have h : Moves fds s (s.goto .polling) := .turn (.nothing hstage)
    rwa [goto_polling hstage] at h
  unfold Server.dispatch
  split
  · exact .turn (.listen hstage)
  · split
    · exact .turn (.stop hstage)
    · split
      · unfold Server.drain
        split
        · exact hsame
        · exact .drain hstage
      · cases hlookup : s.connections.lookup fd with
        | none => exact hsame
        | some c =>
          cases error with
          | true => exact .turn (.error hstage hlookup)
          | false =>
            cases input with
            | true => exact .turn (.input hstage hlookup)
            | false =>
              cases output with
              | true => exact .turn (.output hstage hlookup)
              | false => exact .turn (.nothing hstage)

theorem moves_handleLine {c : ConnId} {write : Bool} {l rest : Bytes}
    (hstage : s.stage = .splitting c write) (hline : (s.conns c).inBuf = l ++ newline :: rest)
    (hnewline : newline ∉ l) : Moves fds s (s.handleLine c l.length) := by
  have htake : (s.conns c).inBuf.take (l.length + 1) = l ++ [newline] := by
    rw [hline, List.take_length_add_append]
    rfl
  have hdrop : (s.conns c).inBuf.drop (l.length + 1) = rest := by
    rw [hline, List.drop_length_add_append]
    rfl
  have hcut : (l ++ [newline]).take ((l ++ [newline]).length - 1) = l := by simp
  unfold Server.handleLine
  simp only [htake, hdrop, hcut]
  cases hstate : (s.conns c).state with
  | awaitingUsername =>
    by_cases hfresh : l ∉ s.usernames ∧ l ≠ []
    · simp only [if_pos hfresh]
      exact .login hstage hstate hline hnewline hfresh.1 hfresh.2
    · simp only [if_neg hfresh]
      have h : Moves fds s _ := .refused hstage hstate hline hnewline
      simpa only [hstate] using h
  | active =>
    have h : Moves fds s _ := .chat hstage hstate hline hnewline
    simpa only [hstate] using h

theorem moves_split {c : ConnId} {write : Bool} (hstage : s.stage = .splitting c write) :
    Moves fds s (s.split c write) := by
  unfold Server.split
  cases hfind : (s.conns c).inBuf.findIdx? (· == newline) with
  | none => exact .turn (.unfinished hstage (findIdx?_eq_none.mp hfind))
  | some pos =>
    obtain ⟨hline, hnewline⟩ := findIdx?_eq_some hfind
    have hpos : ((s.conns c).inBuf.take pos).length = pos := by
      rw [List.length_take]
      have hlt := (List.findIdx?_eq_some_iff_findIdx_eq.mp hfind).1
      omega
    show Moves fds s (s.handleLine c pos)
    rw [← hpos]
    exact moves_handleLine hstage hline hnewline

theorem moves_work {w : W} (h : s.work w = some t) : Moves fds s t := by
  unfold Server.work at h
  split at h
  · rename_i hworker
    cases h
    refine .workerTurn ?_
    split
    · exact .waits hworker
    · exact .exits
  · split at h
    · rename_i hqueue
      cases h
      exact .take hqueue
    · split at h
      · cases h
      · cases h
        exact .workerTurn .exits
  · rename_i task hworker
    cases h
    refine .workerTurn ?_
    split
    · exact .drops
    · rename_i hkept
      push Not at hkept
      exact .finds hworker (Bool.eq_false_iff.mpr hkept.1) hkept.2
  · rename_i hworker
    cases h
    exact .push hworker
  · cases h

theorem moves_advance [Fintype W] (h : s.advance fds = some t) : Moves fds s t := by
  unfold Server.advance at h
  split at h
  · rename_i hstage
    cases h
    exact .deliver hstage
  · rename_i hstage
    cases h
    exact moves_split hstage
  · rename_i hstage
    simp only [Option.ite_none_right_eq_some, Option.some.injEq] at h
    obtain ⟨_, rfl⟩ := h
    exact .turn (.written hstage)
  · rename_i hstage
    split at h
    · rename_i hclosed
      cases h
      exact .turn (.closed hstage hclosed)
    · rename_i hopen
      cases h
      exact .exchange hstage (Bool.eq_false_iff.mpr hopen)
  · rename_i c write hstage
    cases h
    unfold Server.leave
    split
    · rename_i hname
      exact .leaveNameless hstage hname
    · rename_i hname
      exact .leave hstage hname
  · rename_i hstage
    cases h
    exact .release hstage
  · rename_i hstage
    split at h
    · cases h
      exact .shutdown hstage
    · cases h
      exact .turn (.shutDown hstage)
  · rename_i hstage
    simp only [Option.ite_none_right_eq_some, Option.some.injEq] at h
    obtain ⟨_, rfl⟩ := h
    exact .turn (.joined hstage)
  · rename_i hstage
    cases h
    exact .closeClient hstage
  · rename_i hstage
    cases h
    exact .clear hstage
  · rename_i hstage
    cases h
    exact .closeServer hstage
  · rename_i hstage
    cases h
    exact .turn (.finish hstage)
  · cases h

theorem moves_handleRead {c : ConnId} {write : Bool} {result : Received}
    (hstage : s.stage = .reading c write) (h : s.handleRead c write result = some t) :
    Moves fds s t := by
  cases result with
  | bytes chunk =>
    simp only [Server.handleRead, Option.ite_none_right_eq_some, Option.some.injEq] at h
    obtain ⟨_, rfl⟩ := h
    exact .data chunk hstage
  | wouldBlock =>
    cases h
    exact .turn (.wouldBlock hstage)
  | ended =>
    cases h
    exact .turn (.ended hstage)

theorem moves_handleWrite {c : ConnId} {result : Sent} (hstage : s.stage = .writing c)
    (h : s.handleWrite c result = some t) : Moves fds s t := by
  cases result with
  | bytes count =>
    simp only [Server.handleWrite, Option.ite_none_right_eq_some, Option.some.injEq] at h
    obtain ⟨_, rfl⟩ := h
    exact .sent count hstage
  | wouldBlock =>
    simp only [Server.handleWrite, Option.ite_none_left_eq_some, Option.some.injEq] at h
    obtain ⟨_, rfl⟩ := h
    exact .turn (.written hstage)
  | failed =>
    simp only [Server.handleWrite, Option.ite_none_left_eq_some, Option.some.injEq] at h
    obtain ⟨_, rfl⟩ := h
    exact .turn (.failed hstage)

theorem moves_of_next [Fintype W] (h : s.next fds a = some t) : Moves fds s t := by
  cases a with
  | epollEvent fd error input output =>
    simp only [Server.next, Option.ite_none_right_eq_some, Option.some.injEq] at h
    obtain ⟨hstage, rfl⟩ := h
    exact moves_dispatch hstage
  | epollFails =>
    simp only [Server.next, Option.ite_none_right_eq_some, Option.some.injEq] at h
    obtain ⟨hstage, rfl⟩ := h
    exact .turn (.stop hstage)
  | accept fd =>
    simp only [Server.next, Option.ite_none_right_eq_some, Option.some.injEq] at h
    obtain ⟨⟨hstage, hfree⟩, rfl⟩ := h
    exact .accept hstage hfree
  | acceptFails =>
    simp only [Server.next, Option.ite_none_right_eq_some, Option.some.injEq] at h
    obtain ⟨hstage, rfl⟩ := h
    exact .turn (.acceptFails hstage)
  | recv result =>
    simp only [Server.next] at h
    split at h
    · rename_i hstage
      exact moves_handleRead hstage h
    · cases h
  | send result =>
    simp only [Server.next] at h
    split at h
    · rename_i hstage
      exact moves_handleWrite hstage h
    · cases h
  | reactor => exact moves_advance h
  | destroy =>
    simp only [Server.next, Option.ite_none_right_eq_some, Option.some.injEq] at h
    obtain ⟨hstage, rfl⟩ := h
    exact .turn (.destroy hstage)
  | work w => exact moves_work h
  | otherOpens fd =>
    simp only [Server.next, Option.ite_none_right_eq_some, Option.some.injEq] at h
    obtain ⟨hfree, rfl⟩ := h
    exact .otherOpens hfree
  | otherCloses fd =>
    simp only [Server.next, Option.ite_none_right_eq_some, Option.some.injEq] at h
    obtain ⟨hother, rfl⟩ := h
    exact .otherCloses hother

end Steps

end ChatServer.LineServer
