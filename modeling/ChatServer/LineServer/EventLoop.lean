import ChatServer.LineServer.DescriptorClosing
import ChatServer.LineServer.TotalOrder

/-!
The second version with the kernel: the epoll instance with its interest list and its
ready list, the batch of events that run works through, the counter of the eventfd,
and the bytes that the kernel takes for each connection. The welcome and the
answers to a username are sent directly, past `out_buf`. Each step of the server
comes with its system calls; a worker writes to the eventfd in a step of its own,
after it has queued its message. A registration always has EPOLLIN and EPOLLET.
-/
namespace ChatServer.LineServer.EventLoop

open Lib.Runs MessageTasks

def maxEvents : ℕ := 128

/-- A write that would bring the counter of an eventfd above this fails. -/
def eventfdMax : ℕ := 2 ^ 64 - 2

def welcomeMessage : Text := text "[Server]: Welcome! Please enter your username: "

def validMessage : Text := text "[Server]: Username accepted! You have entered the chat!\n"

def errorMessage : Text :=
  text "[Server]: Username is invalid or already used. Please try another one.\n"

/-- What epoll_wait returns for a descriptor: EPOLLERR or EPOLLHUP, EPOLLIN, EPOLLOUT. -/
structure Event where
  fd : ℕ
  error : Bool
  input : Bool
  output : Bool
deriving DecidableEq

/-- `interest` tells of a registered descriptor whether EPOLLOUT is set, `ready` which
descriptors are on the ready list, `notified` that run has read the eventfd for the
first event of the batch. The last field is history: what was sent directly, with the
number of bytes that the kernel took of it. -/
structure Loop (W : Type*) where
  server : Server W
  interest : ℕ → Option Bool
  ready : ℕ → Bool
  writable : ℕ → Bool
  batch : List Event
  notified : Bool
  counter : ℕ
  notifying : W → Bool
  wire : ConnId → Bytes
  replies : ConnId → List (Text × ℕ)

/-- A step of the server has the result of the direct `send` in it, if there is one. -/
inductive Action (W : Type*)
  | server (a : LineServer.Action W) (taken : ℕ)
  | wait (events : List Event)
  /-- run reads the eventfd before it calls handle_broadcasts. -/
  | readNotify
  /-- The write to the eventfd at the end of a turn of worker_loop. -/
  | notify (w : W)
  /-- Something happens at a descriptor. -/
  | wake (fd : ℕ)
  /-- epoll_wait finds a descriptor on the ready list with nothing to report. -/
  | forget (fd : ℕ)
  /-- The socket has room for more bytes again. -/
  | drained (fd : ℕ)
  | filled (fd : ℕ)
deriving DecidableEq

namespace Loop

variable {W : Type*}

/-- The constructor has registered the listening socket, the signals and the eventfd. -/
def init (fds : ServerFds) : Loop W where
  server := .init fds
  interest := fun fd =>
    if fd = fds.fd .listen ∨ fd = fds.fd .signal ∨ fd = fds.fd .notify then some false else none
  ready := fun _ => false
  writable := fun _ => false
  batch := []
  notified := false
  counter := 0
  notifying := fun _ => false
  wire := fun _ => []
  replies := fun _ => []

section Kernel

def wake (l : Loop W) (fd : ℕ) : Loop W :=
  if (l.interest fd).isSome then { l with ready := Function.update l.ready fd true } else l

def epollAdd (l : Loop W) (fd : ℕ) : Loop W :=
  match l.interest fd with
  | none => { l with interest := Function.update l.interest fd (some false) }
  | some _ => l

/-- A modification looks at the descriptor again. -/
def epollMod (l : Loop W) (fd : ℕ) (output : Bool) : Loop W :=
  match l.interest fd with
  | none => l
  | some _ => { l with
      interest := Function.update l.interest fd (some output)
      ready := Function.update l.ready fd (l.ready fd || output && l.writable fd) }

/-- Closing a descriptor takes it off the lists as well. -/
def epollDel (l : Loop W) (fd : ℕ) : Loop W :=
  { l with
    interest := Function.update l.interest fd none
    ready := Function.update l.ready fd false }

def writeNotify (fds : ServerFds) (l : Loop W) : Loop W :=
  if l.counter < eventfdMax then
    { l with counter := l.counter + 1 }.wake (fds.fd .notify)
  else l

/-- `send` of a whole message on a descriptor that does not block, its result unused. -/
def reply (l : Loop W) (c : ConnId) (msg : Text) (taken : ℕ) : Loop W :=
  { l with
    wire := Function.update l.wire c (l.wire c ++ msg.take taken)
    replies := Function.update l.replies c (l.replies c ++ [(msg, taken)]) }

def transmit (l : Loop W) (c : ConnId) (bytes : Bytes) : Loop W :=
  { l with wire := Function.update l.wire c (l.wire c ++ bytes) }

end Kernel

/-- `buffer_for_this_client`. -/
def bufferFor (conn : Connection) (messages : List Broadcast) : Bytes :=
  (conn.wanted messages).flatMap Broadcast.msg

/-- handle_broadcasts has something for the connection. -/
def Gets (s : Server W) (messages : List Broadcast) (c : ConnId) : Prop :=
  (s.conns c).Listens ∧ bufferFor (s.conns c) messages ≠ []

instance (s : Server W) (messages : List Broadcast) (c : ConnId) :
    Decidable (Gets s messages c) := inferInstanceAs (Decidable (_ ∧ _))

/-- The modifications of handle_broadcasts. -/
def rearm (l : Loop W) (messages : List Broadcast) : Loop W :=
  (l.server.activeConns.filter fun c => Gets l.server messages c).foldl
    (fun m c => m.epollMod (l.server.conns c).fd true) l

/-- The calls of handle_read for the first line of `in_buf`. -/
def answer (fds : ServerFds) (l : Loop W) (c : ConnId) (taken : ℕ) : Loop W :=
  match (l.server.conns c).inBuf.findIdx? (· == newline), (l.server.conns c).state with
  | some pos, .awaitingUsername =>
      let enteredName := (l.server.conns c).inBuf.take pos
      if enteredName ∉ l.server.usernames ∧ enteredName ≠ [] then
        (l.reply c validMessage taken).writeNotify fds
      else l.reply c errorMessage taken
  | _, _ => l

section Next

variable [DecidableEq W]

/-- The system calls of a step of the server; a worker has its write still to make. -/
def calls (fds : ServerFds) (l : Loop W) (taken : ℕ) : LineServer.Action W → Loop W
  | .epollEvent fd _ _ _ =>
      { l with
        batch := if fd = fds.fd .signal then [] else l.batch.tail
        notified := false }
  | .accept fd => (l.epollAdd fd).reply l.server.accepted welcomeMessage taken
  | .send result =>
      match l.server.stage, result with
      | .writing c, .bytes count => l.transmit c ((l.server.conns c).outBuf.take count)
      | .writing c, .wouldBlock => l.epollMod (l.server.conns c).fd true
      | _, _ => l
  | .reactor =>
      match l.server.stage with
      | .broadcasting messages => l.rearm messages
      | .splitting c _ => l.answer fds c taken
      | .writing c => l.epollMod (l.server.conns c).fd false
      | .leaving c _ => if (l.server.conns c).username = [] then l else l.writeNotify fds
      | .releasing c _ => l.epollDel (l.server.conns c).fd
      | .closingClients _ ((fd, _) :: _) => l.epollDel fd
      | .closingServer _ (h :: _) => l.epollDel (fds.fd h)
      | _ => l
  | .work w =>
      match l.server.worker w with
      | .sending _ => { l with notifying := Function.update l.notifying w true }
      | _ => l
  | _ => l

/-- run dispatches the events of its batch one after the other, and a worker goes on
after its write. -/
def Allows (fds : ServerFds) (l : Loop W) : LineServer.Action W → Prop
  | .epollEvent fd error input output =>
      l.batch.head? = some ⟨fd, error, input, output⟩ ∧ (fd = fds.fd .notify → l.notified = true)
  | .epollFails => l.batch = []
  | .work w => l.notifying w = false
  | _ => True

instance (fds : ServerFds) (l : Loop W) : ∀ a, Decidable (l.Allows fds a)
  | .epollEvent _ _ _ _ => inferInstanceAs (Decidable (_ ∧ _))
  | .epollFails => inferInstanceAs (Decidable (l.batch = []))
  | .work w => inferInstanceAs (Decidable (l.notifying w = false))
  | .accept _ | .acceptFails | .recv _ | .send _ | .reactor | .destroy | .otherOpens _
  | .otherCloses _ => isTrue trivial

/-- What epoll_wait may return. -/
def Reports (l : Loop W) (events : List Event) : Prop :=
  (events.map Event.fd).Nodup ∧ events.length ≤ maxEvents ∧
    ∀ e ∈ events, l.ready e.fd = true ∧ (l.interest e.fd).isSome = true ∧
      e.output = ((l.interest e.fd).getD false && l.writable e.fd)

instance (l : Loop W) (events : List Event) : Decidable (l.Reports events) :=
  inferInstanceAs (Decidable (_ ∧ _ ∧ _))

def next [Fintype W] (fds : ServerFds) (l : Loop W) : Action W → Option (Loop W)
  | .server a taken =>
      if l.Allows fds a then
        (l.server.next fds a).map fun s => { l.calls fds taken a with server := s }
      else none
  | .wait events =>
      if l.server.stage = .polling ∧ l.batch = [] ∧ l.Reports events then
        some { l with
          batch := events
          ready := fun fd => l.ready fd && !(events.map Event.fd).contains fd }
      else none
  | .readNotify =>
      if l.server.stage = .polling ∧ (l.batch.head?.map Event.fd) = some (fds.fd .notify) then
        some { l with notified := true, counter := 0 }
      else none
  | .notify w =>
      if l.notifying w then
        some { l.writeNotify fds with notifying := Function.update l.notifying w false }
      else none
  | .wake fd => some (l.wake fd)
  | .forget fd =>
      if ((l.interest fd).getD false && l.writable fd) = false ∧
          (fd = fds.fd .notify → l.counter = 0) then
        some { l with ready := Function.update l.ready fd false }
      else none
  | .drained fd =>
      let l := { l with writable := Function.update l.writable fd true }
      if l.interest fd = some true then some (l.wake fd) else some l
  | .filled fd => some { l with writable := Function.update l.writable fd false }

end Next

section Untouched

variable (l : Loop W) (fds : ServerFds) (fd : ℕ) (output : Bool) (messages : List Broadcast)

@[simp] theorem wire_wake : (l.wake fd).wire = l.wire := by
  unfold wake
  split <;> rfl

@[simp] theorem replies_wake : (l.wake fd).replies = l.replies := by
  unfold wake
  split <;> rfl

@[simp] theorem server_wake : (l.wake fd).server = l.server := by
  unfold wake
  split <;> rfl

@[simp] theorem server_writeNotify : (l.writeNotify fds).server = l.server := by
  unfold writeNotify
  split
  · exact server_wake ..
  · rfl

@[simp] theorem wire_epollAdd : (l.epollAdd fd).wire = l.wire := by
  unfold epollAdd
  split <;> rfl

@[simp] theorem replies_epollAdd : (l.epollAdd fd).replies = l.replies := by
  unfold epollAdd
  split <;> rfl

@[simp] theorem wire_epollMod : (l.epollMod fd output).wire = l.wire := by
  unfold epollMod
  split <;> rfl

@[simp] theorem replies_epollMod : (l.epollMod fd output).replies = l.replies := by
  unfold epollMod
  split <;> rfl

@[simp] theorem wire_writeNotify : (l.writeNotify fds).wire = l.wire := by
  unfold writeNotify
  split <;> simp

@[simp] theorem replies_writeNotify : (l.writeNotify fds).replies = l.replies := by
  unfold writeNotify
  split <;> simp

end Untouched

/-- What each modification keeps, those of handle_broadcasts keep. -/
theorem rearm_keeps {P : Loop W → Prop} (h : ∀ (m : Loop W) fd, P m → P (m.epollMod fd true))
    {l : Loop W} (hl : P l) (messages : List Broadcast) : P (l.rearm messages) := by
  unfold rearm
  generalize l.server.activeConns.filter _ = active
  generalize l.server.conns = conns
  induction active generalizing l with
  | nil => exact hl
  | cons c rest ih => exact ih (h l _ hl)

theorem rearm_same {β : Type*} (f : Loop W → β)
    (h : ∀ (m : Loop W) fd, f (m.epollMod fd true) = f m) (l : Loop W)
    (messages : List Broadcast) : f (l.rearm messages) = f l :=
  rearm_keeps (P := fun m => f m = f l) (fun m fd hm => (h m fd).trans hm) rfl messages

end Loop

def machine {W : Type*} [Fintype W] [DecidableEq W] (fds : ServerFds) :
    Machine (Loop W) (Action W) := ⟨.init fds, Loop.next fds⟩

section Steps

variable {W : Type*} [DecidableEq W] {fds : ServerFds} {l m : Loop W}

/-- The turns of the main thread that make no system call that matters here. -/
inductive QuietTurn (s : Server W) : Stage → Prop
  | acceptFails (hstage : s.stage = .accepting) : QuietTurn s .polling
  | wouldBlock {c : ConnId} {write : Bool} (hstage : s.stage = .reading c write) :
      QuietTurn s (.after c write)
  | ended {c : ConnId} {write : Bool} (hstage : s.stage = .reading c write) :
      QuietTurn s (.closing c write)
  | unfinished {c : ConnId} {write : Bool} (hstage : s.stage = .splitting c write) :
      QuietTurn s (.reading c write)
  | failed {c : ConnId} (hstage : s.stage = .writing c) : QuietTurn s (.closing c false)
  | closed {c : ConnId} {write : Bool} (hstage : s.stage = .closing c write)
      (hclosed : (s.conns c).closed = true) : QuietTurn s (.after c write)
  | fails (hstage : s.stage = .polling) : QuietTurn s (.stopping false)
  | stops {stage : Stage} (hserving : ¬ stage.Serving) : QuietTurn s stage

/-- What a step can do: the server and the kernel together. -/
inductive Steps (fds : ServerFds) (l : Loop W) : Loop W → Prop
  | dispatch {e : Event} {rest : List Event} (hstage : l.server.stage = .polling)
      (hbatch : l.batch = e :: rest) (hread : e.fd = fds.fd .notify → l.notified = true) :
      Steps fds l { l with
        server := l.server.dispatch fds e.fd e.error e.input e.output
        batch := if e.fd = fds.fd .signal then [] else rest
        notified := false }
  | turn {stage : Stage} (h : QuietTurn l.server stage) :
      Steps fds l { l with server := l.server.goto stage }
  | deliver {messages : List Broadcast} (hstage : l.server.stage = .broadcasting messages) :
      Steps fds l { l.rearm messages with server := l.server.deliver messages }
  | accept {fd : ℕ} (taken : ℕ) (hstage : l.server.stage = .accepting)
      (hfree : l.server.owner fd = none) :
      Steps fds l { (l.epollAdd fd).reply l.server.accepted welcomeMessage taken with
        server := l.server.accept fd }
  | data {c : ConnId} {write : Bool} (chunk : Bytes) (hstage : l.server.stage = .reading c write) :
      Steps fds l { l with server := (l.server.setConn c { l.server.conns c with
        inBuf := (l.server.conns c).inBuf ++ chunk
        received := (l.server.conns c).received ++ chunk }).goto (.splitting c write) }
  | login {c : ConnId} {write : Bool} (name rest : Bytes) (taken : ℕ)
      (hstage : l.server.stage = .splitting c write)
      (hstate : (l.server.conns c).state = .awaitingUsername) :
      Steps fds l { (l.reply c validMessage taken).writeNotify fds with
        server := ({ l.server with usernames := insert name l.server.usernames }.setConn c
          { l.server.conns c with
            inBuf := rest
            entered := (l.server.conns c).entered ++ [name]
            username := name
            state := .active }).queueBroadcastMessage (joinMessage name) none none }
  | refused {c : ConnId} {write : Bool} (name rest : Bytes) (taken : ℕ)
      (hstage : l.server.stage = .splitting c write)
      (hstate : (l.server.conns c).state = .awaitingUsername) :
      Steps fds l { l.reply c errorMessage taken with
        server := l.server.setConn c { l.server.conns c with
          inBuf := rest
          entered := (l.server.conns c).entered ++ [name] } }
  | chat {c : ConnId} {write : Bool} (line rest : Bytes) (task : Task)
      (hstage : l.server.stage = .splitting c write)
      (hstate : (l.server.conns c).state = .active) :
      Steps fds l { l with server := { l.server.setConn c { l.server.conns c with
          inBuf := rest
          chatted := (l.server.conns c).chatted ++ [line] } with
        taskQueue := l.server.taskQueue ++ [task] } }
  | written {c : ConnId} (hstage : l.server.stage = .writing c)
      (hempty : (l.server.conns c).outBuf = []) :
      Steps fds l { l.epollMod (l.server.conns c).fd false with server := l.server.goto .polling }
  | wouldBlock {c : ConnId} (hstage : l.server.stage = .writing c)
      (hleft : (l.server.conns c).outBuf ≠ []) :
      Steps fds l { l.epollMod (l.server.conns c).fd true with server := l.server.goto .polling }
  | sent {c : ConnId} (count : ℕ) (hstage : l.server.stage = .writing c) :
      Steps fds l { l.transmit c ((l.server.conns c).outBuf.take count) with
        server := l.server.setConn c { l.server.conns c with
          outBuf := (l.server.conns c).outBuf.drop count
          sent := (l.server.conns c).sent ++ (l.server.conns c).outBuf.take count } }
  | exchange {c : ConnId} {write : Bool} (hstage : l.server.stage = .closing c write) :
      Steps fds l { l with
        server := (l.server.setConn c
          { l.server.conns c with closed := true }).goto (.leaving c write) }
  | leave {c : ConnId} {write : Bool} (hstage : l.server.stage = .leaving c write) :
      Steps fds l { l.writeNotify fds with
        server := (l.server.leave c).goto (.releasing c write) }
  | leaveNameless {c : ConnId} {write : Bool} (hstage : l.server.stage = .leaving c write) :
      Steps fds l { l with server := l.server.goto (.releasing c write) }
  | release {c : ConnId} {write : Bool} (hstage : l.server.stage = .releasing c write) :
      Steps fds l { l.epollDel (l.server.conns c).fd with
        server := (l.server.release c).goto (.after c write) }
  | stop {m : Loop W} (hserving : ¬ m.server.stage.Serving)
      (hconns : m.server.conns = l.server.conns) (haccepted : m.server.accepted = l.server.accepted)
      (hwire : m.wire = l.wire) (hreplies : m.replies = l.replies) : Steps fds l m
  | shutdown {again : Bool} (hstage : l.server.stage = .stopping again) :
      Steps fds l { l with server := { l.server with poolRunning := false }.goto (.joining again) }
  | workerTurn {w : W} {stage : Worker} (h : WorkerTurns l.server w stage) :
      Steps fds l { l with server := l.server.setWorker w stage }
  | take {w : W} {task : Task} {rest : List Task} (hqueue : l.server.taskQueue = task :: rest) :
      Steps fds l { l with
        server := { l.server with taskQueue := rest }.setWorker w (.holding task) }
  | push {w : W} {task : Task} (hworker : l.server.worker w = .sending task)
      (hquiet : l.notifying w = false) :
      Steps fds l { l with
        server := (l.server.queueBroadcastMessage
          (chatMessage (l.server.conns task.conn).username task.message)
          (some (l.server.conns task.conn).fd) (some (task.conn, task.line))).setWorker w .looping
        notifying := Function.update l.notifying w true }
  | otherOpens {fd : ℕ} (hfree : l.server.owner fd = none) :
      Steps fds l { l with
        server := { l.server with owner := Function.update l.server.owner fd (some .other) } }
  | otherCloses {fd : ℕ} (hother : l.server.owner fd = some .other) :
      Steps fds l { l with
        server := { l.server with owner := Function.update l.server.owner fd none } }
  | wait {events : List Event} (hstage : l.server.stage = .polling) (hbatch : l.batch = [])
      (hreports : l.Reports events) : Steps fds l { l with
        batch := events
        ready := fun fd => l.ready fd && !(events.map Event.fd).contains fd }
  | readNotify (hstage : l.server.stage = .polling)
      (hbatch : l.batch.head?.map Event.fd = some (fds.fd .notify)) :
      Steps fds l { l with notified := true, counter := 0 }
  | notify {w : W} (hnotifying : l.notifying w = true) :
      Steps fds l { l.writeNotify fds with notifying := Function.update l.notifying w false }
  | wake {fd : ℕ} : Steps fds l (l.wake fd)
  | forget {fd : ℕ} (hnothing : ((l.interest fd).getD false && l.writable fd) = false)
      (hcounter : fd = fds.fd .notify → l.counter = 0) :
      Steps fds l { l with ready := Function.update l.ready fd false }
  | drained {fd : ℕ} (hinterest : l.interest fd = some true) :
      Steps fds l ({ l with writable := Function.update l.writable fd true }.wake fd)
  | drainedUnwatched {fd : ℕ} (hinterest : l.interest fd ≠ some true) :
      Steps fds l { l with writable := Function.update l.writable fd true }
  | filled {fd : ℕ} : Steps fds l { l with writable := Function.update l.writable fd false }

theorem steps_split {c : ConnId} {write : Bool} (taken : ℕ)
    (hstage : l.server.stage = .splitting c write) :
    Steps fds l { l.answer fds c taken with server := l.server.split c write } := by
  unfold Loop.answer Server.split
  cases hfind : (l.server.conns c).inBuf.findIdx? (· == newline) with
  | none => exact .turn (.unfinished hstage)
  | some pos =>
    have hpos : pos < (l.server.conns c).inBuf.length :=
      (List.findIdx?_eq_some_iff_findIdx_eq.mp hfind).1
    have hcut : ((l.server.conns c).inBuf.take (pos + 1)).take
        (((l.server.conns c).inBuf.take (pos + 1)).length - 1) =
          (l.server.conns c).inBuf.take pos := by
      rw [List.take_take, List.length_take]
      congr 1
      omega
    simp only [Server.handleLine, hcut]
    cases hstate : (l.server.conns c).state with
    | awaitingUsername =>
      by_cases hfresh : (l.server.conns c).inBuf.take pos ∉ l.server.usernames ∧
          (l.server.conns c).inBuf.take pos ≠ []
      · simp only [if_pos hfresh]
        exact .login _ _ taken hstage hstate
      · simp only [if_neg hfresh]
        have h : Steps fds l _ := .refused ((l.server.conns c).inBuf.take pos)
          ((l.server.conns c).inBuf.drop (pos + 1)) taken hstage hstate
        simpa only [hstate] using h
    | active =>
      have h : Steps fds l _ := .chat ((l.server.conns c).inBuf.take pos)
        ((l.server.conns c).inBuf.drop (pos + 1))
        ⟨c, (l.server.conns c).inBuf.take (pos + 1) ++ [newline], (l.server.conns c).inBuf.take pos⟩
        hstage hstate
      simpa only [hstate] using h

theorem steps_reactor [Fintype W] {s : Server W} (taken : ℕ) (h : l.server.advance fds = some s) :
    Steps fds l { l.calls fds taken .reactor with server := s } := by
  unfold Loop.calls
  unfold Server.advance at h
  split at h
  · rename_i hstage
    cases h
    simp only [hstage]
    exact .deliver hstage
  · rename_i hstage
    cases h
    simp only [hstage]
    exact steps_split taken hstage
  · rename_i hstage
    obtain ⟨hempty, h⟩ := Option.ite_none_right_eq_some.mp h
    cases h
    simp only [hstage]
    exact .written hstage hempty
  · rename_i hstage
    simp only [hstage]
    split at h
    · rename_i hclosed
      cases h
      exact .turn (.closed hstage hclosed)
    · cases h
      exact .exchange hstage
  · rename_i hstage
    cases h
    simp only [hstage]
    split
    · rename_i hname
      have hsame : l.server.leave _ = l.server := if_pos hname
      rw [hsame]
      exact .leaveNameless hstage
    · exact .leave hstage
  · rename_i hstage
    cases h
    simp only [hstage]
    exact .release hstage
  · rename_i hstage
    simp only [hstage]
    split at h
    · cases h
      exact .shutdown hstage
    · cases h
      exact .turn (.stops id)
  · rename_i hstage
    obtain ⟨-, h⟩ := Option.ite_none_right_eq_some.mp h
    cases h
    simp only [hstage]
    exact .turn (.stops id)
  · rename_i hstage
    cases h
    simp only [hstage]
    exact .stop id rfl rfl rfl rfl
  · rename_i hstage
    cases h
    simp only [hstage]
    exact .stop id rfl rfl rfl rfl
  · rename_i hstage
    cases h
    simp only [hstage]
    exact .stop id rfl rfl rfl rfl
  · rename_i again hstage
    cases h
    simp only [hstage]
    refine .turn (.stops ?_)
    cases again <;> exact id
  · cases h

theorem steps_server [Fintype W] {a : LineServer.Action W} {s : Server W} (taken : ℕ)
    (hallows : l.Allows fds a) (h : l.server.next fds a = some s) :
    Steps fds l { l.calls fds taken a with server := s } := by
  cases a with
  | epollEvent fd error input output =>
    obtain ⟨hstage, h⟩ := Option.ite_none_right_eq_some.mp h
    cases h
    obtain ⟨rest, hbatch⟩ := List.head?_eq_some_iff.mp hallows.1
    have hsteps : Steps fds l _ := .dispatch hstage hbatch hallows.2
    simpa only [Loop.calls, hbatch, List.tail_cons] using hsteps
  | epollFails =>
    obtain ⟨hstage, h⟩ := Option.ite_none_right_eq_some.mp h
    cases h
    exact .turn (.fails hstage)
  | accept fd =>
    obtain ⟨⟨hstage, hfree⟩, h⟩ := Option.ite_none_right_eq_some.mp h
    cases h
    exact .accept taken hstage hfree
  | acceptFails =>
    obtain ⟨hstage, h⟩ := Option.ite_none_right_eq_some.mp h
    cases h
    exact .turn (.acceptFails hstage)
  | recv result =>
    simp only [Server.next] at h
    split at h
    · rename_i hstage
      cases result with
      | bytes chunk =>
        obtain ⟨-, h⟩ := Option.ite_none_right_eq_some.mp h
        cases h
        exact .data chunk hstage
      | wouldBlock =>
        cases h
        exact .turn (.wouldBlock hstage)
      | ended =>
        cases h
        exact .turn (.ended hstage)
    · cases h
  | send result =>
    simp only [Server.next] at h
    split at h
    · rename_i hstage
      cases result with
      | bytes count =>
        obtain ⟨-, h⟩ := Option.ite_none_right_eq_some.mp h
        cases h
        simp only [Loop.calls, hstage]
        exact .sent count hstage
      | wouldBlock =>
        obtain ⟨hleft, h⟩ := Option.ite_none_left_eq_some.mp h
        cases h
        simp only [Loop.calls, hstage]
        exact .wouldBlock hstage hleft
      | failed =>
        obtain ⟨-, h⟩ := Option.ite_none_left_eq_some.mp h
        cases h
        simp only [Loop.calls, hstage]
        exact .turn (.failed hstage)
    · cases h
  | reactor => exact steps_reactor taken h
  | destroy =>
    obtain ⟨-, h⟩ := Option.ite_none_right_eq_some.mp h
    cases h
    exact .turn (.stops fun h => by cases h)
  | work w =>
    simp only [Server.next, Server.work] at h
    split at h
    · rename_i hworker
      cases h
      simp only [Loop.calls, hworker]
      refine .workerTurn ?_
      split
      · exact .waits hworker
      · exact .exits
    · rename_i hworker
      simp only [Loop.calls, hworker]
      split at h
      · rename_i hqueue
        cases h
        exact .take hqueue
      · split at h
        · cases h
        · cases h
          exact .workerTurn .exits
    · rename_i task hworker
      cases h
      simp only [Loop.calls, hworker]
      refine .workerTurn ?_
      split
      · exact .drops
      · rename_i hkept
        push Not at hkept
        exact .finds hworker (Bool.eq_false_iff.mpr hkept.1) hkept.2
    · rename_i hworker
      cases h
      simp only [Loop.calls, hworker]
      exact .push hworker hallows
    · cases h
  | otherOpens fd =>
    obtain ⟨hfree, h⟩ := Option.ite_none_right_eq_some.mp h
    cases h
    exact .otherOpens hfree
  | otherCloses fd =>
    obtain ⟨hother, h⟩ := Option.ite_none_right_eq_some.mp h
    cases h
    exact .otherCloses hother

theorem next_steps [Fintype W] {a : Action W} (h : l.next fds a = some m) : Steps fds l m := by
  cases a with
  | server a taken =>
    obtain ⟨hallows, h⟩ := Option.ite_none_right_eq_some.mp h
    obtain ⟨s, hs, rfl⟩ := Option.map_eq_some_iff.mp h
    exact steps_server taken hallows hs
  | wait events =>
    obtain ⟨⟨hstage, hbatch, hreports⟩, h⟩ := Option.ite_none_right_eq_some.mp h
    cases h
    exact .wait hstage hbatch hreports
  | readNotify =>
    obtain ⟨⟨hstage, hbatch⟩, h⟩ := Option.ite_none_right_eq_some.mp h
    cases h
    exact .readNotify hstage hbatch
  | notify w =>
    obtain ⟨hnotifying, h⟩ := Option.ite_none_right_eq_some.mp h
    cases h
    exact .notify hnotifying
  | wake fd =>
    cases h
    exact .wake
  | forget fd =>
    obtain ⟨⟨hnothing, hcounter⟩, h⟩ := Option.ite_none_right_eq_some.mp h
    cases h
    exact .forget hnothing hcounter
  | drained fd =>
    simp only [Loop.next] at h
    split at h
    · rename_i hinterest
      cases h
      exact .drained hinterest
    · rename_i hinterest
      cases h
      exact .drainedUnwatched hinterest
  | filled fd =>
    cases h
    exact .filled

/-- The server in the loop is a server of the second version. -/
theorem server_next [Fintype W] {a : Action W} (h : l.next fds a = some m) :
    m.server = l.server ∨ ∃ b, l.server.next fds b = some m.server := by
  cases a with
  | server a taken =>
    obtain ⟨-, h⟩ := Option.ite_none_right_eq_some.mp h
    obtain ⟨s, hs, rfl⟩ := Option.map_eq_some_iff.mp h
    exact Or.inr ⟨a, hs⟩
  | wait events =>
    obtain ⟨-, h⟩ := Option.ite_none_right_eq_some.mp h
    cases h
    exact Or.inl rfl
  | readNotify =>
    obtain ⟨-, h⟩ := Option.ite_none_right_eq_some.mp h
    cases h
    exact Or.inl rfl
  | notify w =>
    obtain ⟨-, h⟩ := Option.ite_none_right_eq_some.mp h
    cases h
    refine Or.inl ?_
    simp only [Loop.writeNotify, Loop.wake]
    split <;> (try split) <;> rfl
  | wake fd =>
    cases h
    refine Or.inl ?_
    simp only [Loop.wake]
    split <;> rfl
  | forget fd =>
    obtain ⟨-, h⟩ := Option.ite_none_right_eq_some.mp h
    cases h
    exact Or.inl rfl
  | drained fd =>
    refine Or.inl ?_
    simp only [Loop.next, Loop.wake] at h
    split at h
    · cases h
      split <;> rfl
    · cases h
      rfl
  | filled fd =>
    cases h
    exact Or.inl rfl

theorem server_reachable [Fintype W] {allowed : Loop W → Action W → Prop}
    (hl : Reachable (machine fds) allowed l) :
    Reachable (LineServer.machine fds) AnyStep l.server := by
  refine hl.invariant (P := fun l => Reachable (LineServer.machine fds) AnyStep l.server) .init ?_
  intro k a m hk _ hnext
  rcases server_next hnext with hsame | ⟨b, hb⟩
  · rw [hsame]
    exact hk
  · exact .step hk trivial hb

end Steps

end ChatServer.LineServer.EventLoop
