import ChatServer.PacketCodec

/-!
The `Connection` record of connection.h and the epoll bookkeeping of
webserver.cpp. Next to the fields of the source a connection carries a record
of what happened to it: the bytes that the kernel took and gave, the payloads
that were appended, the kernel's interest mask and the metric calls. The code
never branches on this record.
-/
namespace ChatServer

/-- A `shared_ptr` to the bytes of an encoded packet. `origin` stands for the
identity of the pointer: the number of the Broadcast call that allocated it,
or nothing for a packet that was encoded for one connection. -/
structure SharedPayload where
  bytes : Bytes
  origin : Option ℕ
deriving DecidableEq, Repr

/-- `sent_offset` never passes the end of the payload. -/
structure OutgoingPacket where
  payload : SharedPayload
  sentOffset : ℕ
  offset_le : sentOffset ≤ payload.bytes.length
deriving DecidableEq

/-- The two bits of an interest mask that the server uses; EPOLLET is always set. -/
structure EpollEvents where
  epollin : Bool
  epollout : Bool
deriving DecidableEq, Repr

/-- The METRICS calls made while serving one connection. -/
structure ServerMetrics where
  messagesSent : ℕ
  messagesReceived : ℕ
  bytesSent : ℕ
  bytesReceived : ℕ
  droppedMessages : ℕ
deriving DecidableEq, Repr

structure Connection where
  fd : ℕ
  codecSet : Bool
  inBuf : RingBuffer
  outgoingQueue : List OutgoingPacket
  pendingBytes : ℕ
  closed : Bool
  currentEpollEvents : EpollEvents
  isWriteArmed : Bool
  isReadingPaused : Bool
  lastActivity : ℕ
  /-- The mask registered in the kernel, once the descriptor is added. -/
  interest : Option EpollEvents
  /-- The bytes that the kernel has accepted from writev. -/
  sent : Bytes
  /-- The payloads appended to `outgoing_queue`, in append order. -/
  appended : List SharedPayload
  /-- The bytes that readv has returned. -/
  received : Bytes
  writevCalls : ℕ
  /-- The most recent writev returned -1. -/
  writevFailed : Bool
  metrics : ServerMetrics

def highWaterMark : ℕ := 256 * 1024

def lowWaterMark : ℕ := 128 * 1024

def maxOutgoingQueueSize : ℕ := 5000

def batchFlushThreshold : ℕ := 4096

def inBufCapacity : ℕ := 8192

namespace OutgoingPacket

def new (payload : SharedPayload) : OutgoingPacket := ⟨payload, 0, Nat.zero_le _⟩

def unsent (pkt : OutgoingPacket) : Bytes := pkt.payload.bytes.drop pkt.sentOffset

theorem unsent_length (pkt : OutgoingPacket) :
    pkt.unsent.length = pkt.payload.bytes.length - pkt.sentOffset := List.length_drop

@[simp]
theorem new_unsent (payload : SharedPayload) : (new payload).unsent = payload.bytes := rfl

end OutgoingPacket

/-- The unsent suffixes of the queued packets, in queue order. -/
def unsentBytes (queue : List OutgoingPacket) : Bytes := queue.flatMap OutgoingPacket.unsent

@[simp]
theorem unsentBytes_nil : unsentBytes [] = [] := rfl

@[simp]
theorem unsentBytes_cons (pkt : OutgoingPacket) (queue : List OutgoingPacket) :
    unsentBytes (pkt :: queue) = pkt.unsent ++ unsentBytes queue := rfl

theorem unsentBytes_append (p q : List OutgoingPacket) :
    unsentBytes (p ++ q) = unsentBytes p ++ unsentBytes q := List.flatMap_append

namespace Connection

/-- The constructor: an open connection that epoll does not know yet. -/
def new (fd now : ℕ) : Connection where
  fd := fd
  codecSet := false
  inBuf := RingBuffer.new inBufCapacity
  outgoingQueue := []
  pendingBytes := 0
  closed := false
  currentEpollEvents := ⟨false, false⟩
  isWriteArmed := false
  isReadingPaused := false
  lastActivity := now
  interest := none
  sent := []
  appended := []
  received := []
  writevCalls := 0
  writevFailed := false
  metrics := ⟨0, 0, 0, 0, 0⟩

def addFdToEpoll (conn : Connection) (events : EpollEvents) : Connection :=
  { conn with interest := some events }

/-- EPOLL_CTL_MOD changes nothing on a descriptor that was not added. -/
def modFdEpoll (conn : Connection) (events : EpollEvents) : Connection :=
  { conn with interest := conn.interest.map fun _ => events }

def updateEpollEvents (conn : Connection) (newEvents : EpollEvents) : Connection :=
  if conn.currentEpollEvents = newEvents then conn
  else { conn.modFdEpoll newEvents with currentEpollEvents := newEvents }

/-- The last two steps of accept_loop for a new connection. -/
def register (conn : Connection) : Connection :=
  { conn.addFdToEpoll ⟨true, false⟩ with currentEpollEvents := ⟨true, false⟩ }

/-- `outgoing_queue.push_back` and the update of `pending_bytes`. -/
def append (conn : Connection) (payload : SharedPayload) : Connection :=
  { conn with
    outgoingQueue := conn.outgoingQueue ++ [OutgoingPacket.new payload]
    pendingBytes := conn.pendingBytes + payload.bytes.length
    appended := conn.appended ++ [payload] }

/-- The watermark check after an append. -/
def checkHighWater (conn : Connection) : Connection :=
  if !conn.isReadingPaused && highWaterMark ≤ conn.pendingBytes then
    { conn with isReadingPaused := true }
  else conn

/-- The part of close_conn that concerns the connection: the flag and EPOLL_CTL_DEL. -/
def close (conn : Connection) : Connection :=
  if conn.closed then conn else { conn with closed := true, interest := none }

end Connection

end ChatServer
