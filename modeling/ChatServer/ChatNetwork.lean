import ChatServer.ClientSend
import ChatServer.Provenance

/-!
The chat as a whole: the threads of the server, and a client at each connection
with its keyboard. login sends the name and reads the answer past the buffer;
then input_loop sends the messages of the lines, and receive_loop reads. The
bytes that a kernel has taken come to the other side in any pieces. A call of
handle_read that pushes and then reads on is here two calls: it holds the mutex
of the connection all the while, so nothing is seen of it in between.
-/
namespace ChatServer.ChatNetwork

open Lib.Runs ServerSystem PacketCodec ReceivePath ChatProto
open ClientSend (Sender TurnGoesOn taken)
open Downlink (Receiver announces)

/-- Where main_client is: in login, before and after the request, or in run. -/
inductive Stage
  | naming
  | awaiting
  | running
  | over
deriving DecidableEq

def Stage.inLogin : Stage → Bool
  | .naming => true
  | .awaiting => true
  | _ => false

structure Client where
  stage : Stage
  username : String
  sender : Sender
  receiver : Receiver

namespace Client

/-- The client after connect_to_server. -/
def new : Client := ⟨.naming, "", .new, .new⟩

/-- login, up to the send of the request; an empty name ends it. -/
def enterName (c : Client) (name : String) (result : Option ℕ) : Client :=
  if name = "" then { c with stage := .over }
  else
    let request := .login ⟨name⟩
    { c with
      stage := if result.isSome then .awaiting else .over
      username := name
      sender := { c.sender with
        messages := c.sender.messages ++ [request]
        handed := c.sender.handed ++ taken (encode serializeClient request) result } }

/-- `resp.has_login_response() && resp.login_response().success()` -/
def accepts : ServerMessage → Bool
  | .loginResponse resp => resp.success
  | _ => false

/-- The rest of login: two calls of recv wait for the header and for the payload. -/
def loginRecv (c : Client) (available : Bytes) : Option Client :=
  if available.length < 4 ∨ available.length < 4 + declared available then none
  else
    let packet := available.take (4 + declared available)
    match parseServer (packet.drop 4) with
    | some resp => some { c with
        stage := if accepts resp then .running else .over
        receiver := c.receiver.take packet resp }
    | none => some { c with
        stage := .over
        receiver := { c.receiver with read := c.receiver.read ++ packet } }

/-- A turn of input_loop, with the result of its send. -/
def key (c : Client) (k : Char) (result : Option ℕ) : Client :=
  { c with sender := c.sender.turn serializeClient (k, result) }

/-- A turn of receive_loop. -/
def readv (c : Client) (chunk : Bytes) : Client :=
  { c with receiver := c.receiver.turn chunk }

/-- The client returns from login or run. -/
def leave (c : Client) : Client := { c with stage := .over }

end Client

structure Network (n : ℕ) where
  server : System n
  /-- The messages of the calls of Broadcast, in order. -/
  announced : List ServerMessage
  /-- The connection whose handle_read is running, and the payloads it has yet to push. -/
  reading : Option (ConnId × List Bytes)
  clients : ConnId → Client

inductive Action (n : ℕ)
  | server (a : ServerSystem.Action n)
  | handleRead (id : ConnId) (answers : List ReadvAnswer)
  | push
  | enterName (id : ConnId) (name : String) (result : Option ℕ)
  | loginRecv (id : ConnId)
  | key (id : ConnId) (k : Char) (result : Option ℕ)
  | readv (id : ConnId) (chunk : Bytes)
  | leave (id : ConnId)

/-- The steps of handle_read, which the network takes with the bytes of the clients. -/
def reads {n : ℕ} : ServerSystem.Action n → Bool
  | .net (.connOp _ (.handleRead _)) => true
  | .message _ _ => true
  | _ => false

/-- The steps of the reactor. -/
def onReactor {n : ℕ} : ServerSystem.Action n → Bool
  | .net a => ofReactor a
  | .accept _ _ _ => true
  | .register => true
  | .pushConnect => true
  | .message _ _ => true
  | .close _ => true
  | .reactorPush => true
  | .reactorErase => true
  | _ => false

namespace Network

variable {n : ℕ}

def init : Network n := ⟨.init, [], none, fun _ => .new⟩

def setClient (s : Network n) (id : ConnId) (c : Client) : Network n :=
  { s with clients := Function.update s.clients id c }

/-- The step has taken the server to this state. -/
def serve (s : Network n) (a : ServerSystem.Action n) (server : System n) : Network n :=
  { s with server := server, announced := s.announced ++ announces s.server a }

def onServer (setup : Setup) (s : Network n) (a : ServerSystem.Action n) : Option (Network n) :=
  (s.server.next setup a).map (s.serve a)

/-- The bytes on their way to the client, and those that it has not read of them. -/
def unread (s : Network n) (id : ConnId) : Bytes :=
  (Downlink.sent s.server.net id).drop (s.clients id).receiver.read.length

def next (setup : Setup) (s : Network n) : Action n → Option (Network n)
  | .server a =>
      if reads a = true ∨ s.reading.isSome = true ∧ onReactor a = true then none
      else s.onServer setup a
  | .handleRead id answers =>
      match s.reading, s.server.net.conns id with
      | none, some conn =>
          let outcome := handleRead conn answers
          if outcome.conn.received <+: (s.clients id).sender.handed then
            (s.onServer setup (.net (.connOp id (.handleRead answers)))).map fun t =>
              { t with reading := some (id, outcome.messages) }
          else none
      | _, _ => none
  | .push =>
      match s.reading with
      | some (id, payload :: rest) =>
          (s.onServer setup (.message id payload)).map fun t =>
            { t with reading := some (id, rest) }
      | some (_, []) => some { s with reading := none }
      | none => none
  | .enterName id name result =>
      if (s.clients id).stage = .naming then
        some (s.setClient id ((s.clients id).enterName name result))
      else none
  | .loginRecv id =>
      if (s.clients id).stage = .awaiting then
        ((s.clients id).loginRecv (s.unread id)).map (s.setClient id)
      else none
  | .key id k result =>
      if (s.clients id).stage = .running then
        some (s.setClient id ((s.clients id).key k result))
      else none
  | .readv id chunk =>
      let c := s.clients id
      if c.stage = .running ∧ 0 < chunk.length ∧ chunk.length ≤ c.receiver.space ∧
          c.receiver.read ++ chunk <+: Downlink.sent s.server.net id then
        some (s.setClient id (c.readv chunk))
      else none
  | .leave id => some (s.setClient id (s.clients id).leave)

end Network

/-- The server parses what the clients serialize, and the other way round. -/
def setup (kernel : ConnId → Kernel) : Setup := Downlink.chatSetup kernel parseClient

def machine (kernel : ConnId → Kernel) (n : ℕ) : Machine (Network n) (Action n) :=
  ⟨Network.init, Network.next (setup kernel)⟩

/-- What input_loop sends goes on where the kernel is in the frames. -/
def Fitting {n : ℕ} (s : Network n) : Action n → Prop
  | .key id k result => TurnGoesOn serializeClient (s.clients id).sender (k, result)
  | _ => True

section Intake

variable {n : ℕ} {kernel : ConnId → Kernel} {s t : Broadcast.Server n} {a : Broadcast.Action n}
  {id : ConnId}

/-- The fields of a connection that handle_read changes alone. -/
def intake (conn : Connection) : RingBuffer × Bytes := (conn.inBuf, conn.received)

theorem intake_rearms {c d : Connection} (h : c.Rearms d) : intake d = intake c := by
  obtain ⟨_, _, _, _, rfl⟩ := h
  rfl

theorem intake_attemptWrite (writev : Kernel) (conn : Connection) :
    intake (attemptWrite writev conn).1 = intake conn := by
  refine attemptWrite_induct (P := fun c => intake c = intake conn) rfl ?_ ?_ fun _ hc _ => hc
  · intro c d hc hnext
    rcases writeIteration_again hnext with ⟨_, _, _, _, rfl⟩ | ⟨_, _, _, _, rfl⟩
    · exact hc
    · exact hc
  · exact fun c hc _ => (intake_rearms c.resumeReading_rearms).trans hc

theorem intake_appendEvents (conn : Connection) (events : List BroadcastEvent) (added : Bool) :
    intake (appendEvents conn events added).1 = intake conn := by
  induction events generalizing conn added with
  | nil => rfl
  | cons evt rest ih =>
    unfold appendEvents
    split
    · exact ih conn added
    · split
      · split <;> rfl
      · exact ih (conn.append evt.payload) true

theorem intake_shardTask (writev : Kernel) (conn : Connection) (events : List BroadcastEvent) :
    intake (shardTaskBody writev conn events) = intake conn := by
  have hadded := intake_appendEvents conn.ensureCodec events false
  unfold shardTaskBody
  dsimp only
  split
  · rfl
  · split
    · rw [intake_rearms (Connection.armIfQueued_rearms _), intake_attemptWrite,
        intake_rearms (Connection.checkHighWater_rearms _), hadded]
      rfl
    · exact hadded

theorem intake_apply (writev : Kernel) (conn : Connection) {op : ConnOp}
    (hop : ∀ answers, op ≠ .handleRead answers) : intake (op.apply writev conn) = intake conn := by
  cases op with
  | sendPreEncoded packet =>
    show intake (sendPreEncoded writev conn packet) = _
    unfold sendPreEncoded
    dsimp only
    split
    · rfl
    · rw [intake_rearms (Connection.recomputeInterest_rearms _)]
      split
      · rw [intake_rearms (Connection.rearm_rearms _), intake_attemptWrite,
          intake_rearms (Connection.checkHighWater_rearms _)]
        rfl
      · rw [intake_rearms (Connection.checkHighWater_rearms _)]
        rfl
  | shardTask events => exact intake_shardTask writev conn events
  | flush =>
    show intake (flushBody writev conn) = _
    unfold flushBody
    split
    · rfl
    · rw [intake_rearms (Connection.armIfQueued_rearms _), intake_attemptWrite]
  | handleWrite =>
    show intake (handleWrite writev conn).1 = _
    unfold handleWrite
    dsimp only
    split
    · exact intake_attemptWrite writev conn
    · rw [intake_rearms (Connection.setWriteArmed_rearms _ _ _), intake_attemptWrite]
  | handleRead answers => exact absurd rfl (hop answers)
  | register => rfl
  | close =>
    show intake conn.close = _
    unfold Connection.close
    split <;> rfl

/-- The connection; one that is not accepted yet is as it will be. -/
def connOf (s : Broadcast.Server n) (id : ConnId) : Connection := (s.conns id).getD (.new 0 0)

theorem connOf_of_some {conn : Connection} (h : s.conns id = some conn) : connOf s id = conn := by
  rw [connOf, h, Option.getD_some]

theorem connOf_setConn_self (s : Broadcast.Server n) (id : ConnId) (conn : Connection) :
    connOf (s.setConn id conn) id = conn :=
  connOf_of_some (Function.update_self (β := fun _ => Option Connection) id (some conn) s.conns)

theorem connOf_setConn_of_ne {c : ConnId} (conn : Connection) (h : id ≠ c) :
    connOf (s.setConn c conn) id = connOf s id := by
  have hconn : (s.setConn c conn).conns id = s.conns id := Function.update_of_ne h _ _
  rw [connOf, hconn, connOf]

theorem intake_setConn {c : ConnId} {conn : Connection}
    (h : intake conn = intake (connOf s c)) (id : ConnId) :
    intake (connOf (s.setConn c conn) id) = intake (connOf s id) := by
  by_cases hid : id = c
  · rw [hid, connOf_setConn_self, h]
  · rw [connOf_setConn_of_ne conn hid]

/-- Only handle_read takes something in. -/
theorem next_idle (hnext : s.next kernel a = some t)
    (ha : ∀ c answers, a ≠ .connOp c (.handleRead answers)) (id : ConnId) :
    intake (connOf t id) = intake (connOf s id) := by
  cases Broadcast.Server.next_moves hnext with
  | @accept c fd now hfresh =>
    have hnew : intake (Connection.new fd now) = intake (connOf s c) := by
      rw [connOf, hfresh]
      rfl
    exact intake_setConn hnew id
  | @close c conn hconn hopen =>
    have hclose : intake (ConnOp.close.apply (kernel c) conn) = intake conn :=
      intake_apply (kernel c) conn nofun
    exact intake_setConn (hclose.trans (by rw [connOf_of_some hconn])) id
  | turn hheld hconn =>
    exact intake_setConn ((intake_shardTask _ _ _).trans (by rw [connOf_of_some hconn])) id
  | @connOp c op conn hop hconn =>
    have happly : intake (op.apply (kernel c) conn) = intake conn :=
      intake_apply _ _ fun answers hread => ha c answers (by rw [hread])
    exact intake_setConn (happly.trans (by rw [connOf_of_some hconn])) id
  | broadcastNotify hinside =>
    unfold Broadcast.Server.notify
    split <;> rfl
  | flush hreactor =>
    unfold Broadcast.Server.swapQueue
    split <;> rfl
  | _ => rfl

/-- handle_read is a turn at the connection. -/
theorem next_handleRead {c : ConnId} {answers : List ReadvAnswer}
    (hnext : s.next kernel (.connOp c (.handleRead answers)) = some t) :
    t = s.setConn c (handleRead (connOf s c) answers).conn := by
  cases Broadcast.Server.next_moves hnext with
  | connOp hop hconn =>
    rw [connOf_of_some hconn]
    rfl

end Intake

section Pushing

variable {n : ℕ} {setup : Setup} {s t : System n} {a : ServerSystem.Action n} {id : ConnId}

/-- The payload of a MESSAGE event of the connection. -/
def requestOf (id : ConnId) (evt : Queued) : Option Bytes :=
  if evt.type = .message ∧ evt.conn = id then evt.event.payload else none

/-- What handle_read has pushed for the connection, in order. -/
def payloads (log : List Entry) (id : ConnId) : List Bytes :=
  (LifeCycle.pushes log).filterMap (requestOf id)

/-- The requests of the connection that HandleMessage was called for. -/
def handled (log : List Entry) (id : ConnId) : List Bytes :=
  (LifeCycle.calls log).filterMap (requestOf id)

/-- The calls of the logic thread are in the order of the pushes. -/
theorem handled_sublist {allowed : System n → ServerSystem.Action n → Prop}
    (hs : Reachable (ServerSystem.machine setup n) allowed s) (id : ConnId) :
    (handled s.log id).Sublist (payloads s.log id) := by
  have hfifo : LifeCycle.Fifo (LifeCycle.life s) := (EventOrder.lived hs).fifo
  have hpassed : (LifeCycle.calls s.log).Sublist ((LifeCycle.examined s.log).map Prod.fst) := by
    have hcalled := List.sublist_append_left (LifeCycle.calls s.log)
      (LifeCycle.life s).held.admitted
    rw [show LifeCycle.calls s.log ++ _ = _ from hfifo.called] at hcalled
    exact hcalled.trans (List.filter_sublist.map _)
  have hexamined : ((LifeCycle.examined s.log).map Prod.fst).Sublist (LifeCycle.pushes s.log) := by
    rw [show LifeCycle.pushes s.log = _ from hfifo.queue, List.append_assoc]
    exact List.sublist_append_left _ _
  exact (hpassed.trans hexamined).filterMap _

theorem payloads_snoc (log : List Entry) (e : Entry) :
    payloads (log ++ [e]) id =
      payloads log id ++ ((LifeCycle.pushedBy e).bind (requestOf id)).toList := by
  rw [payloads, LifeCycle.pushes_snoc, List.filterMap_append, payloads]
  cases LifeCycle.pushedBy e with
  | none => rfl
  | some evt => cases h : requestOf id evt <;> simp [h]

theorem payloads_record {log : List Entry} {e : Entry}
    (he : (LifeCycle.pushedBy e).bind (requestOf id) = none) :
    payloads (log ++ [e]) id = payloads log id := by
  rw [payloads_snoc, he, Option.toList_none, List.append_nil]

theorem payloads_push (s : System n) (c : ConnId) (payload : Bytes) :
    payloads (s.push .message c (some payload)).log id =
      payloads s.log id ++ if c = id then [payload] else [] := by
  show payloads (s.log ++ [_]) id = _
  rw [payloads_snoc]
  by_cases hc : c = id <;> simp [LifeCycle.pushedBy, requestOf, hc]

/-- A step of the server that does not read takes nothing in and pushes nothing. -/
theorem serve_idle (hnext : s.next setup a = some t) (ha : reads a = false) (id : ConnId) :
    intake (connOf t.net id) = intake (connOf s.net id) ∧
      payloads t.log id = payloads s.log id := by
  cases System.next_steps hnext with
  | @net b net hkind hnet =>
    refine ⟨next_idle hnet ?_ id, rfl⟩
    intro c answers hb
    subst hb
    cases ha
  | accept hidle hnet => exact ⟨next_idle hnet (by simp) id, rfl⟩
  | register hstage hnet => exact ⟨next_idle hnet (by simp) id, rfl⟩
  | close hidle hopen hnet => exact ⟨next_idle hnet (by simp) id, payloads_record rfl⟩
  | reactorErase hstage hnet => exact ⟨next_idle hnet (by simp) id, rfl⟩
  | broadcast hstage hnet => exact ⟨next_idle hnet (by simp) id, rfl⟩
  | logicClose hstage hopen hnet => exact ⟨next_idle hnet (by simp) id, payloads_record rfl⟩
  | notify hstage hnet => exact ⟨next_idle hnet (by simp) id, rfl⟩
  | logicErase hstage hnet => exact ⟨next_idle hnet (by simp) id, rfl⟩
  | dropped hstage hclosed hnet => exact ⟨next_idle hnet (by simp) id, rfl⟩
  | append hstage hopen hnet => exact ⟨next_idle hnet (by simp) id, payloads_record rfl⟩
  | message payload hidle hknown => cases ha
  | pushConnect hstage => exact ⟨rfl, payloads_record rfl⟩
  | reactorPush hstage => exact ⟨rfl, payloads_record rfl⟩
  | discard hstage hclosed htype => exact ⟨rfl, payloads_record rfl⟩
  | pass hstage hpass => exact ⟨rfl, payloads_record rfl⟩
  | call hstage hclock => exact ⟨rfl, payloads_record rfl⟩
  | logicPush hstage => exact ⟨rfl, payloads_record rfl⟩
  | _ => exact ⟨rfl, rfl⟩

theorem serve_handleRead {c : ConnId} {answers : List ReadvAnswer}
    (hnext : s.next setup (.net (.connOp c (.handleRead answers))) = some t) :
    t.net = s.net.setConn c (handleRead (connOf s.net c) answers).conn ∧ t.log = s.log := by
  cases System.next_steps hnext with
  | net hkind hnet => exact ⟨next_handleRead hnet, rfl⟩

theorem serve_message {c : ConnId} {payload : Bytes}
    (hnext : s.next setup (.message c payload) = some t) (id : ConnId) :
    t.net = s.net ∧ payloads t.log id = payloads s.log id ++ if c = id then [payload] else [] := by
  cases System.next_steps hnext with
  | message _ hidle hknown => exact ⟨rfl, payloads_push s c payload⟩

end Pushing

/-- What a step does. -/
inductive Moves {n : ℕ} (setup : Setup) (s : Network n) : Action n → Network n → Prop
  | server {a : ServerSystem.Action n} {server : System n} (ha : reads a = false)
      (hnext : s.server.next setup a = some server) :
      Moves setup s (.server a) (s.serve a server)
  | handleRead {id : ConnId} {answers : List ReadvAnswer} {server : System n}
      (hidle : s.reading = none)
      (hcomes : (handleRead (connOf s.server.net id) answers).conn.received <+:
        (s.clients id).sender.handed)
      (hnext : s.server.next setup (.net (.connOp id (.handleRead answers))) = some server) :
      Moves setup s (.handleRead id answers)
        { s.serve (.net (.connOp id (.handleRead answers))) server with
          reading := some (id, (handleRead (connOf s.server.net id) answers).messages) }
  | push {id : ConnId} {payload : Bytes} {rest : List Bytes} {server : System n}
      (hreading : s.reading = some (id, payload :: rest))
      (hnext : s.server.next setup (.message id payload) = some server) :
      Moves setup s .push
        { s.serve (.message id payload) server with reading := some (id, rest) }
  | pushed {id : ConnId} (hreading : s.reading = some (id, [])) :
      Moves setup s .push { s with reading := none }
  | enterName {id : ConnId} {name : String} {result : Option ℕ}
      (hstage : (s.clients id).stage = .naming) :
      Moves setup s (.enterName id name result)
        (s.setClient id ((s.clients id).enterName name result))
  | loginRecv {id : ConnId} {c : Client} (hstage : (s.clients id).stage = .awaiting)
      (hrecv : (s.clients id).loginRecv (s.unread id) = some c) :
      Moves setup s (.loginRecv id) (s.setClient id c)
  | key {id : ConnId} {k : Char} {result : Option ℕ} (hstage : (s.clients id).stage = .running) :
      Moves setup s (.key id k result) (s.setClient id ((s.clients id).key k result))
  | readv {id : ConnId} {chunk : Bytes} (hstage : (s.clients id).stage = .running)
      (hle : chunk.length ≤ (s.clients id).receiver.space)
      (hcomes : (s.clients id).receiver.read ++ chunk <+: Downlink.sent s.server.net id) :
      Moves setup s (.readv id chunk) (s.setClient id ((s.clients id).readv chunk))
  | leave {id : ConnId} :
      Moves setup s (.leave id) (s.setClient id (s.clients id).leave)

section Steps

variable {n : ℕ} {setup : Setup} {s t : Network n} {a : Action n} {id : ConnId}

theorem onServer_eq_some {b : ServerSystem.Action n} (h : s.onServer setup b = some t) :
    ∃ server, s.server.next setup b = some server ∧ t = s.serve b server := by
  obtain ⟨server, hnext, rfl⟩ := Option.map_eq_some_iff.mp h
  exact ⟨server, hnext, rfl⟩

theorem next_moves (hnext : s.next setup a = some t) : Moves setup s a t := by
  cases a with
  | server b =>
    simp only [Network.next, Option.ite_none_left_eq_some, not_or] at hnext
    obtain ⟨⟨hreads, -⟩, hserver⟩ := hnext
    obtain ⟨server, hstep, rfl⟩ := onServer_eq_some hserver
    exact .server (Bool.eq_false_of_not_eq_true hreads) hstep
  | handleRead id answers =>
    simp only [Network.next] at hnext
    split at hnext
    · rename_i conn hidle hconn
      obtain ⟨hcomes, hserver⟩ := Option.ite_none_right_eq_some.mp hnext
      obtain ⟨u, hu, rfl⟩ := Option.map_eq_some_iff.mp hserver
      obtain ⟨server, hstep, rfl⟩ := onServer_eq_some hu
      rw [← connOf_of_some hconn] at hcomes ⊢
      exact .handleRead hidle hcomes hstep
    · cases hnext
  | push =>
    simp only [Network.next] at hnext
    split at hnext
    · rename_i id payload rest hreading
      obtain ⟨u, hu, rfl⟩ := Option.map_eq_some_iff.mp hnext
      obtain ⟨server, hstep, rfl⟩ := onServer_eq_some hu
      exact .push hreading hstep
    · rename_i id hreading
      cases hnext
      exact .pushed hreading
    · cases hnext
  | enterName id name result =>
    obtain ⟨hstage, hdone⟩ := Option.ite_none_right_eq_some.mp hnext
    cases hdone
    exact .enterName hstage
  | loginRecv id =>
    obtain ⟨hstage, hdone⟩ := Option.ite_none_right_eq_some.mp hnext
    obtain ⟨c, hrecv, rfl⟩ := Option.map_eq_some_iff.mp hdone
    exact .loginRecv hstage hrecv
  | key id k result =>
    obtain ⟨hstage, hdone⟩ := Option.ite_none_right_eq_some.mp hnext
    cases hdone
    exact .key hstage
  | readv id chunk =>
    obtain ⟨⟨hstage, -, hle, hcomes⟩, hdone⟩ := Option.ite_none_right_eq_some.mp hnext
    cases hdone
    exact .readv hstage hle hcomes
  | leave id =>
    cases hnext
    exact .leave

/-- The server and the clients do not step together. -/
inductive Serves (setup : Setup) (s t : Network n) : Prop
  | served (b : ServerSystem.Action n) (hnext : s.server.next setup b = some t.server)
      (hannounced : t.announced = s.announced ++ announces s.server b)
      (hclients : t.clients = s.clients)
  | still (hserver : t.server = s.server) (hannounced : t.announced = s.announced)

theorem Moves.serves (h : Moves setup s a t) : Serves setup s t := by
  cases h with
  | server ha hnext => exact .served _ hnext rfl rfl
  | handleRead hidle hcomes hnext => exact .served _ hnext rfl rfl
  | push hreading hnext => exact .served _ hnext rfl rfl
  | _ => exact .still rfl rfl

/-- The answer ends login, one way or the other. -/
theorem loginRecv_ends {c d : Client} {available : Bytes} (h : c.loginRecv available = some d) :
    d.stage.inLogin = false ∧ d.sender = c.sender ∧ d.username = c.username := by
  unfold Client.loginRecv at h
  obtain ⟨-, h⟩ := Option.ite_none_left_eq_some.mp h
  dsimp only at h
  split at h
  · cases h
    refine ⟨?_, rfl, rfl⟩
    show (if _ then Stage.running else Stage.over).inLogin = false
    split <;> rfl
  · cases h
    exact ⟨rfl, rfl, rfl⟩

/-- It hands on the answer, if it can be parsed, and lets the user in if it is a success. -/
theorem loginRecv_admits {c d : Client} {available : Bytes} (h : c.loginRecv available = some d) :
    c.receiver.received <+: d.receiver.received ∧
      (d.stage = .running → ∃ resp ∈ d.receiver.received, Client.accepts resp = true) := by
  unfold Client.loginRecv at h
  obtain ⟨-, h⟩ := Option.ite_none_left_eq_some.mp h
  dsimp only at h
  split at h
  · rename_i resp hparse
    cases h
    refine ⟨List.prefix_append _ _, ?_⟩
    intro hrunning
    refine ⟨resp, List.mem_append_right _ (List.mem_singleton_self resp), ?_⟩
    by_contra hrefused
    change (if Client.accepts resp = true then Stage.running else .over) = .running at hrunning
    rw [if_neg hrefused] at hrunning
    cases hrunning
  · cases h
    refine ⟨List.prefix_rfl, ?_⟩
    intro hrunning
    cases hrunning

end Steps

section Runs

variable {n : ℕ} {kernel : ConnId → Kernel} {s t : Network n} {a : Action n} {id : ConnId}
  {allowed : Network n → Action n → Prop}

/-- The server of the network makes a run of its own. -/
theorem server_reachable (hs : Reachable (machine kernel n) allowed s) :
    Reachable (ServerSystem.machine (setup kernel) n) AnyStep s.server := by
  induction hs with
  | init => exact .init
  | @step s t a _ _ hnext ih =>
    cases (next_moves hnext).serves with
    | served b hserver => exact ih.step trivial hserver
    | still hserver => exact hserver ▸ ih

theorem intact (hs : Reachable (machine kernel n) allowed s) :
    Downlink.Intact s.server.net :=
  (net_reachable (server_reachable hs)).invariant (P := Downlink.Intact)
    (fun _ _ hconn => by cases hconn) fun _ _ _ h _ hnext => h.step hnext

end Runs

end ChatServer.ChatNetwork
