import ChatServer.AttemptWrite

/-!
The operations of webserver.cpp on one connection, each of which runs under
the connection's mutex: SendPreEncoded, the per-connection body of the shard
task of process_global_queue, the per-connection body of flush_all_queues,
handle_write and handle_read. A `ConnOp` is one of them, or one of the two
steps other code takes on a connection: the registration by accept_loop and
the closing by close_conn.
-/
namespace ChatServer

open PacketCodec

/-- A queued broadcast; -1 excludes nobody. -/
structure BroadcastEvent where
  senderFd : ℤ
  payload : SharedPayload
deriving DecidableEq

/-- What a readv that was offered this much space may return; the clock is
read after a successful one. -/
inductive ReadvResult (offered : ℕ)
  | data (bytes : Bytes) (pos : 0 < bytes.length) (le : bytes.length ≤ offered) (now : ℕ)
  | eof
  | eagain
  | error

abbrev ReadvAnswer := (offered : ℕ) → ReadvResult offered

structure ReadOutcome where
  /-- The payloads pushed as MESSAGE events, in order. -/
  messages : List Bytes
  conn : Connection
  shouldClose : Bool

namespace Connection

/-- SendPreEncoded after its write attempt: arm or disarm EPOLLOUT. -/
def rearm (conn : Connection) : Connection :=
  let events := conn.currentEpollEvents
  if !conn.outgoingQueue.isEmpty then
    if !conn.isWriteArmed then
      { conn with isWriteArmed := true }.updateEpollEvents { events with epollout := true }
    else conn.updateEpollEvents events
  else if conn.isWriteArmed then
    { conn with isWriteArmed := false }.updateEpollEvents { events with epollout := false }
  else conn.updateEpollEvents events

/-- EPOLLIN is wanted: reading is not paused and the input buffer has room. -/
def wantsRead (conn : Connection) : Bool := !conn.isReadingPaused && !conn.inBuf.full

/-- The end of SendPreEncoded: the whole mask is computed again. -/
def recomputeInterest (conn : Connection) : Connection :=
  let armed := !conn.outgoingQueue.isEmpty
  { conn with isWriteArmed := armed }.updateEpollEvents ⟨conn.wantsRead, armed⟩

/-- The default codec is created on first use. -/
def ensureCodec (conn : Connection) : Connection := { conn with codecSet := true }

/-- The shard task and the timer flush only ever add EPOLLOUT. -/
def armIfQueued (conn : Connection) : Connection :=
  if !conn.outgoingQueue.isEmpty && !conn.isWriteArmed then
    { conn.updateEpollEvents { conn.currentEpollEvents with epollout := true } with
      isWriteArmed := true }
  else conn

/-- `d` is `c` but for the interest mask and the flow control flags. -/
def Rearms (c d : Connection) : Prop :=
  ∃ events armed paused interest, d = { c with
    currentEpollEvents := events
    isWriteArmed := armed
    isReadingPaused := paused
    interest := interest }

theorem Rearms.refl (c : Connection) : Rearms c c := ⟨_, _, _, _, rfl⟩

theorem Rearms.trans {c d e : Connection} (h : Rearms c d) (h' : Rearms d e) : Rearms c e := by
  obtain ⟨_, _, _, _, rfl⟩ := h
  obtain ⟨events, armed, paused, interest, rfl⟩ := h'
  exact ⟨events, armed, paused, interest, rfl⟩

section Rearming

variable (conn : Connection)

theorem updateEpollEvents_rearms (events : EpollEvents) :
    Rearms conn (conn.updateEpollEvents events) := by
  unfold updateEpollEvents
  split
  · exact .refl conn
  · exact ⟨_, _, _, _, rfl⟩

theorem checkHighWater_rearms : Rearms conn conn.checkHighWater := by
  unfold checkHighWater
  split
  · exact ⟨_, _, _, _, rfl⟩
  · exact .refl conn

theorem resumeReading_rearms : Rearms conn conn.resumeReading := by
  unfold resumeReading
  split
  · exact ⟨_, _, _, _, rfl⟩
  · exact .refl conn

theorem setWriteArmed_rearms (armed : Bool) (events : EpollEvents) :
    Rearms conn ({ conn with isWriteArmed := armed }.updateEpollEvents events) := by
  have harmed : Rearms conn { conn with isWriteArmed := armed } := ⟨_, _, _, _, rfl⟩
  exact harmed.trans (updateEpollEvents_rearms _ events)

theorem rearm_rearms : Rearms conn conn.rearm := by
  unfold rearm
  dsimp only
  split
  · split
    · exact setWriteArmed_rearms conn _ _
    · exact updateEpollEvents_rearms conn _
  · split
    · exact setWriteArmed_rearms conn _ _
    · exact updateEpollEvents_rearms conn _

theorem recomputeInterest_rearms : Rearms conn conn.recomputeInterest :=
  setWriteArmed_rearms conn _ _

theorem armIfQueued_rearms : Rearms conn conn.armIfQueued := by
  unfold armIfQueued
  split
  · have hupdate := updateEpollEvents_rearms conn
      { conn.currentEpollEvents with epollout := true }
    exact hupdate.trans ⟨_, _, _, _, rfl⟩
  · exact .refl conn

end Rearming

end Connection

section Operations

variable (writev : Kernel)

/-- The guard of the write attempt of SendPreEncoded, after the append. -/
def sendGuard (queued : Connection) (wasEmpty : Bool) : Bool :=
  decide (batchFlushThreshold < queued.pendingBytes) || queued.isWriteArmed || wasEmpty

def sendPreEncoded (conn : Connection) (packet : SharedPayload) : Connection :=
  if conn.closed then conn
  else
    let wasEmpty := conn.outgoingQueue.isEmpty && !conn.isWriteArmed
    let queued := (conn.append packet).checkHighWater
    let tried :=
      if sendGuard queued wasEmpty then (attemptWrite writev queued).1.rearm else queued
    tried.recomputeInterest

/-- The loop over the events of a batch; the flag is `added_any`. -/
def appendEvents (conn : Connection) : List BroadcastEvent → Bool → Connection × Bool
  | [], addedAny => (conn, addedAny)
  | evt :: rest, addedAny =>
      if evt.senderFd ≠ -1 ∧ (conn.fd : ℤ) = evt.senderFd then appendEvents conn rest addedAny
      else if maxOutgoingQueueSize ≤ conn.outgoingQueue.length then
        if conn.outgoingQueue.length = maxOutgoingQueueSize then
          ({ conn with metrics := { conn.metrics with
              droppedMessages := conn.metrics.droppedMessages + 1 } }, addedAny)
        else (conn, addedAny)
      else appendEvents (conn.append evt.payload) rest true

/-- The shard task's turn at one connection. -/
def shardTaskBody (conn : Connection) (events : List BroadcastEvent) : Connection :=
  if conn.closed then conn
  else
    let (appended, addedAny) := appendEvents conn.ensureCodec events false
    if addedAny then (attemptWrite writev appended.checkHighWater).1.armIfQueued else appended

/-- flush_all_queues at one connection whose mutex it could take. -/
def flushBody (conn : Connection) : Connection :=
  if conn.closed || conn.outgoingQueue.isEmpty then conn
  else (attemptWrite writev conn).1.armIfQueued

/-- The flag asks the caller to close the connection. -/
def handleWrite (conn : Connection) : Connection × Bool :=
  let (written, shouldClose) := attemptWrite writev conn
  let armed := !written.outgoingQueue.isEmpty
  let rearmed := { written with isWriteArmed := armed }
  (if shouldClose then rearmed else rearmed.updateEpollEvents ⟨written.wantsRead, armed⟩,
    shouldClose)

end Operations

/-- A successful readv, with the commit to the ring buffer. -/
def afterReadv (conn : Connection) (bytes : Bytes) (now : ℕ) : Connection :=
  { conn with
    inBuf := conn.inBuf.receive bytes
    codecSet := true
    lastActivity := now
    received := conn.received ++ bytes
    metrics := { conn.metrics with
      bytesReceived := conn.metrics.bytesReceived + bytes.length } }

/-- The decode loop after a readv, with the payloads it pushes. -/
def decodeMessages (conn : Connection) : List Bytes × Connection :=
  let (messages, buf) := decoder.drain conn.inBuf
  (messages, { conn with
    inBuf := buf
    metrics := { conn.metrics with
      messagesReceived := conn.metrics.messagesReceived + messages.length } })

/-- The answers running out stands for EAGAIN: nothing more has arrived. -/
def handleRead (conn : Connection) : List ReadvAnswer → ReadOutcome
  | [] => ⟨[], conn, conn.inBuf.getWriteableIovecs.isEmpty⟩
  | answer :: rest =>
      let iovecs := conn.inBuf.getWriteableIovecs
      if iovecs.isEmpty then ⟨[], conn, true⟩
      else
        match answer (iovecs.map Iovec.iovLen).sum with
        | .data bytes _ _ now =>
            let (messages, decoded) := decodeMessages (afterReadv conn bytes now)
            let outcome := handleRead decoded rest
            { outcome with messages := messages ++ outcome.messages }
        | .eof => ⟨[], conn, true⟩
        | .eagain => ⟨[], conn, false⟩
        | .error => ⟨[], conn, true⟩

namespace Connection

/-- `d` is `c` but for the side that is read, and what is counted of it. -/
def TakesIn (c d : Connection) : Prop :=
  ∃ inBuf codecSet lastActivity received bytesReceived messagesReceived, d = { c with
    inBuf := inBuf
    codecSet := codecSet
    lastActivity := lastActivity
    received := received
    metrics := { c.metrics with
      bytesReceived := bytesReceived
      messagesReceived := messagesReceived } }

theorem TakesIn.refl (c : Connection) : TakesIn c c := ⟨_, _, _, _, _, _, rfl⟩

theorem TakesIn.trans {c d e : Connection} (h : TakesIn c d) (h' : TakesIn d e) :
    TakesIn c e := by
  obtain ⟨_, _, _, _, _, _, rfl⟩ := h
  obtain ⟨inBuf, codecSet, lastActivity, received, bytes, messages, rfl⟩ := h'
  exact ⟨inBuf, codecSet, lastActivity, received, bytes, messages, rfl⟩

end Connection

/-- handle_read touches nothing else, whatever its calls of readv return. -/
theorem handleRead_takesIn (conn : Connection) (answers : List ReadvAnswer) :
    conn.TakesIn (handleRead conn answers).conn := by
  induction answers generalizing conn with
  | nil => exact .refl conn
  | cons answer rest ih =>
    unfold handleRead
    dsimp only
    split
    · exact .refl conn
    · split
      · rename_i bytes _ _ now _
        have hread : conn.TakesIn (decodeMessages (afterReadv conn bytes now)).2 :=
          ⟨_, _, _, _, _, _, rfl⟩
        exact hread.trans (ih _)
      · exact .refl conn
      · exact .refl conn
      · exact .refl conn

inductive ConnOp
  | sendPreEncoded (packet : SharedPayload)
  | shardTask (events : List BroadcastEvent)
  | flush
  | handleWrite
  | handleRead (answers : List ReadvAnswer)
  | register
  | close

namespace ConnOp

def apply (writev : Kernel) (conn : Connection) : ConnOp → Connection
  | sendPreEncoded packet => ChatServer.sendPreEncoded writev conn packet
  | shardTask events => shardTaskBody writev conn events
  | flush => flushBody writev conn
  | handleWrite => (ChatServer.handleWrite writev conn).1
  | handleRead answers => (ChatServer.handleRead conn answers).conn
  | register => conn.register
  | close => conn.close

/-- Any order of operations; each holds the mutex while it runs. -/
def applyAll (writev : Kernel) (conn : Connection) (ops : List ConnOp) : Connection :=
  ops.foldl (apply writev) conn

theorem applyAll_singleton (writev : Kernel) (conn : Connection) (op : ConnOp) :
    applyAll writev conn [op] = apply writev conn op := rfl

theorem applyAll_concat (writev : Kernel) (conn : Connection) (ops : List ConnOp) (op : ConnOp) :
    applyAll writev conn (ops ++ [op]) = apply writev (applyAll writev conn ops) op := by
  simp [applyAll]

/-- What holds at the start and is kept by every operation holds after any run. -/
theorem applyAll_invariant {writev : Kernel} {P : Connection → Prop} {conn : Connection}
    (hconn : P conn) (hstep : ∀ c op, P c → P (apply writev c op)) (ops : List ConnOp) :
    P (applyAll writev conn ops) := by
  induction ops using List.reverseRecOn with
  | nil => exact hconn
  | append_singleton ops op ih =>
    rw [applyAll_concat]
    exact hstep _ op ih

/-- The same for runs of operations of one kind. -/
theorem applyAll_invariant_of {writev : Kernel} {P : Connection → Prop} {kind : ConnOp → Prop}
    {conn : Connection} (hconn : P conn)
    (hstep : ∀ c op, kind op → P c → P (apply writev c op)) {ops : List ConnOp}
    (hops : ∀ op ∈ ops, kind op) : P (applyAll writev conn ops) := by
  induction ops using List.reverseRecOn with
  | nil => exact hconn
  | append_singleton ops op ih =>
    rw [applyAll_concat]
    exact hstep _ op (hops op (by simp)) (ih fun o ho => hops o (by simp [ho]))

end ConnOp

end ChatServer
