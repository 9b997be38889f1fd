import ChatServer.ChatNetwork.Delivery
import ChatServer.FlowControl

/-!
A server with one worker and nothing else to do than to answer connection 0, whose
socket takes whatever it is offered. A request is read in one piece, and what its
handler sends goes out at once; a broadcast goes out after a turn of the reactor
and one of the worker.
-/
namespace ChatServer.ChatNetwork

open Lib.Runs ServerSystem PacketCodec ReceivePath ChatProto
open ClientSend (Sender TurnGoesOn taken)
open Downlink (Receiver Letter announces)
open LogicThread (sampleEnv)
open ShardTask (Included)

section Eager

variable {conn : Connection}

/-- A socket that takes whatever it is offered. -/
def eager : Kernel := fun _ offered =>
  if h : 0 < offered then .sent offered h (Nat.le_refl _) else .eagain

theorem gather_flatten_ne_nil {limit : ℕ} {queue : List OutgoingPacket}
    (h : gather limit queue ≠ []) : (gather limit queue).flatten ≠ [] := by
  induction queue generalizing limit with
  | nil => cases limit <;> exact absurd rfl h
  | cons pkt rest ih =>
    cases limit with
    | zero => exact absurd rfl h
    | succ limit =>
      by_cases hoff : pkt.sentOffset < pkt.payload.bytes.length
      · simp only [gather, hoff, if_true, List.flatten_cons]
        intro hnil
        have hlen := pkt.unsent_length
        rw [(List.append_eq_nil_iff.mp hnil).1, List.length_nil] at hlen
        omega
      · simp only [gather, hoff, if_false] at h ⊢
        exact ih h

/-- It leaves nothing in the queue. -/
theorem attemptWrite_eager (conn : Connection) :
    (attemptWrite eager conn).1.outgoingQueue = [] := by
  unfold attemptWrite
  split
  · rename_i hempty
    exact List.isEmpty_iff.mp hempty
  · obtain ⟨last, -, hreturns⟩ := attemptWriteLoop_returns eager conn
    rcases writeIteration_returns hreturns with ⟨hqueue, hnext, -⟩ | ⟨hqueue, -⟩
    · obtain ⟨_, _, _, _, hresumed⟩ := last.resumeReading_rearms
      rw [hnext, hresumed]
      exact hqueue
    · have hbytes := WriteAttempt.writeIteration_fails hreturns hqueue
      have hoffered := List.length_pos_of_ne_nil
        (gather_flatten_ne_nil (WriteAttempt.gather_of_unsentBytes hbytes).2)
      have hagain : writeIteration eager last = .again _ :=
        WriteAttempt.writeIteration_sent hbytes (dif_pos hoffered)
      cases hagain.symm.trans hreturns

/-- The connection is open, and everything for it has been written. -/
structure Written (conn : Connection) : Prop where
  opened : conn.closed = false
  empty : conn.outgoingQueue = []
  unarmed : conn.isWriteArmed = false

/-- SendPreEncoded leaves EPOLLOUT off when nothing is left. -/
theorem recomputeInterest_armed (h : conn.outgoingQueue = []) :
    conn.recomputeInterest.isWriteArmed = false := by
  rw [Connection.recomputeInterest, FlowControl.updateEpollEvents_armed, h]
  rfl

theorem Written.sendPreEncoded_eq (h : Written conn) (packet : SharedPayload) :
    sendPreEncoded eager conn packet =
      (attemptWrite eager (conn.append packet).checkHighWater).1.rearm.recomputeInterest := by
  have hguard : sendGuard (conn.append packet).checkHighWater
      (conn.outgoingQueue.isEmpty && !conn.isWriteArmed) = true := by
    simp [sendGuard, h.empty, h.unarmed]
  simp only [sendPreEncoded, h.opened, Bool.false_eq_true, if_false, hguard, if_true]

theorem Written.send (h : Written conn) (packet : SharedPayload) :
    Written (sendPreEncoded eager conn packet) ∧
      (sendPreEncoded eager conn packet).appended = conn.appended ++ [packet] := by
  have hmarks := ShardTask.sendPreEncoded_marks eager conn packet h.opened
  simp only [ShardTask.marks, Prod.mk.injEq] at hmarks
  obtain ⟨-, hclosed, happended⟩ := hmarks
  obtain ⟨tried, htried⟩ : ∃ c, c =
    (attemptWrite eager (conn.append packet).checkHighWater).1.rearm := ⟨_, rfl⟩
  have hsend := h.sendPreEncoded_eq packet
  rw [← htried] at hsend
  have hempty : tried.outgoingQueue = [] := by
    obtain ⟨_, _, _, _, hrearmed⟩ := Connection.rearm_rearms
      (attemptWrite eager (conn.append packet).checkHighWater).1
    rw [htried, hrearmed]
    exact attemptWrite_eager _
  refine ⟨⟨hclosed.trans h.opened, ?_, ?_⟩, happended⟩
  · obtain ⟨_, _, _, _, hmask⟩ := Connection.recomputeInterest_rearms tried
    rw [hsend, hmask]
    exact hempty
  · rw [hsend]
    exact recomputeInterest_armed hempty

/-- The turn of a worker writes the broadcast. -/
theorem Written.turn (h : Written conn) {evt : BroadcastEvent} (hin : Included conn.fd evt) :
    (shardTaskBody eager conn [evt]).outgoingQueue = [] ∧
      (shardTaskBody eager conn [evt]).appended = conn.appended ++ [evt.payload] := by
  constructor
  · have hadded : appendEvents conn.ensureCodec [evt] false =
        (conn.ensureCodec.append evt.payload, true) := by
      have hother : ¬ (evt.senderFd ≠ -1 ∧ (conn.ensureCodec.fd : ℤ) = evt.senderFd) := hin
      have hqueue : conn.ensureCodec.outgoingQueue.length = 0 := congrArg List.length h.empty
      rw [appendEvents, if_neg hother, if_neg (by rw [hqueue]; decide)]
      rfl
    simp only [shardTaskBody, h.opened, Bool.false_eq_true, if_false, hadded, if_true]
    obtain ⟨_, _, _, _, harmed⟩ := Connection.armIfQueued_rearms
      (attemptWrite eager (conn.ensureCodec.append evt.payload).checkHighWater).1
    rw [harmed]
    exact attemptWrite_eager _
  · have hmarks := ShardTask.shardTaskBody_marks eager conn [evt] h.opened
    simp only [ShardTask.marks, Prod.mk.injEq] at hmarks
    have hkept : ShardTask.keptEvents conn.fd conn.outgoingQueue.length [evt] = [evt] :=
      ShardTask.keptEvents_all (by simpa using hin)
        (by rw [h.empty]; exact Nat.le_of_ble_eq_true rfl)
    rw [hmarks.2.2, hkept]
    rfl

end Eager

section Serving

variable {clients : ConnId → Client} {announced : List ServerMessage} {s : System 1}
  {stage : LogicStage} {conn : Connection} {done : List ClientMessage} {m : ClientMessage}
  {evt : Queued}

/-- The state is reached while the clients are as they are here. -/
def Served (clients : ConnId → Client) (s : System 1) : Prop :=
  ∃ announced, Reachable (machine (fun _ => eager) 1) Fitting ⟨s, announced, none, clients⟩

/-- No broadcast is under way, and connection 0 is the one in the first shard. -/
structure Still (net : Broadcast.Server 1) : Prop where
  globalQueue : net.globalQueue = []
  counter : net.counter = 0
  reactor : net.reactor = .waiting
  running : net.running = true
  taskQueue : net.taskQueue = []
  worker : net.workers 0 = none
  shard : net.shards 0 = [(16, 0)]

/-- The logic thread is at this stage, and the requests have been read. -/
structure At (s : System 1) (stage : LogicStage) (conn : Connection)
    (done : List ClientMessage) : Prop where
  reactor : s.reactor = .idle
  logic : s.logic = stage
  queue : s.eventQueue = []
  clock : s.clock = 0
  pushed : payloads s.log 0 = done.map serializeClient
  found : s.net.conns 0 = some conn
  written : Written conn
  read : conn.received = frames (done.map serializeClient)
  still : Still s.net

/-- The server takes a step while no client sends or reads. -/
theorem Served.step {a : ServerSystem.Action 1} {t : System 1} (hs : Served clients s)
    (hreads : reads a = false) (hnext : s.next (setup fun _ => eager) a = some t) :
    Served clients t := by
  obtain ⟨announced, hreach⟩ := hs
  have hmapped : (machine (fun _ => eager) 1).next ⟨s, announced, none, clients⟩ (.server a) =
      some ⟨t, announced ++ announces s a, none, clients⟩ := by
    show (if _ then none else Option.map _ _) = _
    rw [if_neg (by simp [hreads])]
    exact congrArg (Option.map _) hnext
  exact ⟨_, hreach.step (a := .server a) trivial hmapped⟩

theorem Served.run {steps : List (ServerSystem.Action 1)} {t : System 1} (hs : Served clients s)
    (hreads : ∀ a ∈ steps, reads a = false)
    (hrun : run (ServerSystem.machine (setup fun _ => eager) 1) AnyStep s steps = some t) :
    Served clients t := by
  induction steps generalizing s with
  | nil =>
    cases hrun
    exact hs
  | cons a rest ih =>
    obtain ⟨-, hrun⟩ := Option.ite_none_right_eq_some.mp hrun
    obtain ⟨u, hnext, hrest⟩ := Option.bind_eq_some_iff.mp hrun
    exact ih (hs.step (hreads a List.mem_cons_self) hnext)
      (fun b hb => hreads b (List.mem_cons_of_mem _ hb)) hrest

theorem next_handleRead_of (announced : List ServerMessage) {id : ConnId}
    (answers : List ReadvAnswer)
    (hconn : s.net.conns id = some conn) (hreactor : s.reactor = .idle)
    (hcomes : (handleRead conn answers).conn.received <+: (clients id).sender.handed) :
    (machine (fun _ => eager) 1).next ⟨s, announced, none, clients⟩ (.handleRead id answers) =
      some ⟨{ s with net := s.net.setConn id (handleRead conn answers).conn }, announced ++ [],
        some (id, (handleRead conn answers).messages), clients⟩ := by
  have hordinary : Broadcast.Ordinary (.handleRead answers) := trivial
  have hturn : ofReactor (n := 1) (.connOp id (.handleRead answers)) = true := rfl
  simp only [machine, Network.next, hconn, if_pos hcomes, Network.onServer, System.next, hturn,
    hreactor, and_self, or_true, if_true, System.onNet, Broadcast.Server.next, if_pos hordinary,
    Option.map_some]
  rfl

/-- What is decoded of a client that has sent everything is its last message. -/
theorem whollyRead_all (ps : List Bytes) : whollyRead ps (frames ps).length = ps := by
  have hall := whollyRead_append ps [] 0
  rwa [List.append_nil, Nat.add_zero, whollyRead, List.append_nil] at hall

/-- The client has sent these messages, and then this one. -/
structure Asks (c : Client) (done : List ClientMessage) (m : ClientMessage) : Prop where
  messages : c.sender.messages = done ++ [m]
  handed : c.sender.handed = frames ((done ++ [m]).map serializeClient)
  sendable : Sendable (done ++ [m])
  short : (frame (serializeClient m)).length ≤ inBufCapacity

/-- handle_read takes the message in, and has yet to push it. -/
theorem At.reads (h : At s .idle conn done)
    (hs : Reachable (machine (fun _ => eager) 1) Fitting ⟨s, announced, none, clients⟩)
    (hasks : Asks (clients 0) done m) :
    ∃ conn', Reachable (machine (fun _ => eager) 1) Fitting
        ⟨{ s with net := s.net.setConn 0 conn' }, announced ++ [], some (0, [serializeClient m]),
          clients⟩ ∧
      Written conn' ∧ conn'.appended = conn.appended ∧
      conn'.received = frames ((done ++ [m]).map serializeClient) := by
  have hsendable : Sendable (clients 0).sender.messages := hasks.messages ▸ hasks.sendable
  have hreceiving := (asking hs 0).decoded hsendable
  rw [show connOf _ 0 = conn from connOf_of_some h.found,
    show payloads _ 0 = done.map serializeClient from h.pushed] at hreceiving
  have hnothing : conn.inBuf.contents = [] := by
    have hreceived := hreceiving.received
    rw [h.read, show Network.unpushed _ 0 = [] from rfl, List.append_nil,
      List.self_eq_append_right] at hreceived
    exact hreceived
  have hframe : 0 < (frame (serializeClient m)).length := by
    rw [frame_length]
    omega
  have hread := handleRead_deliver hreceiving.inBuf hframe
    (by rw [hnothing, List.length_nil, Nat.zero_add]; exact hasks.short) []
  obtain ⟨conn', hconn'⟩ : ∃ c, c =
    (handleRead conn [deliver (frame (serializeClient m))]).conn := ⟨_, rfl⟩
  have hafter : conn' =
      (decodeMessages (afterReadv conn (frame (serializeClient m)) 0)).2 := by
    rw [hconn', hread]
    rfl
  have hreceived : conn'.received = frames ((done ++ [m]).map serializeClient) := by
    rw [hafter]
    show conn.received ++ frame (serializeClient m) = _
    rw [h.read, List.map_append, frames_append, List.map_cons, List.map_nil, frames_cons,
      frames_nil, List.append_nil]
  have hnext := next_handleRead_of announced
    [deliver (frame (serializeClient m))] h.found h.reactor
    (by rw [← hconn', hreceived, hasks.handed])
  rw [← hconn'] at hnext
  have htaken := hs.step
    (show Fitting _ (.handleRead 0 [deliver (frame (serializeClient m))]) from trivial) hnext
  -- All messages have been read, and all but the last one were decoded before.
  have hmessages : (handleRead conn [deliver (frame (serializeClient m))]).messages =
      [serializeClient m] := by
    have hdecoded := decoded_exact htaken 0 hsendable
    change payloads s.log 0 ++ (handleRead conn [deliver (frame (serializeClient m))]).messages =
      whollyRead ((clients 0).sender.messages.map serializeClient)
        (connOf (s.net.setConn 0 conn') 0).received.length at hdecoded
    rw [connOf_setConn_self, hreceived, hasks.messages, whollyRead_all, h.pushed,
      List.map_append] at hdecoded
    exact List.append_cancel_left hdecoded
  rw [hmessages] at htaken
  refine ⟨conn', htaken, ?_, ?_, hreceived⟩
  · rw [hafter]
    exact ⟨h.written.opened, h.written.empty, h.written.unarmed⟩
  · rw [hafter]
    rfl

/-- It pushes it. -/
theorem request_pushed {id : ConnId} {payload : Bytes}
    (hs : Reachable (machine (fun _ => eager) 1) Fitting
      ⟨s, announced, some (id, [payload]), clients⟩)
    (hreactor : s.reactor = .idle) (hknown : s.known id = true) :
    Served clients (s.push .message id (some payload)) := by
  have hpush : (machine (fun _ => eager) 1).next ⟨s, announced, some (id, [payload]), clients⟩
      .push =
        some ⟨s.push .message id (some payload), announced ++ [], some (id, []), clients⟩ := by
    show (Option.map _ (Option.map _ (if _ then _ else none))) = _
    rw [if_pos ⟨hreactor, hknown⟩]
    rfl
  have hdone : (machine (fun _ => eager) 1).next
      ⟨s.push .message id (some payload), announced ++ [], some (id, []), clients⟩ .push =
        some ⟨s.push .message id (some payload), announced ++ [], none, clients⟩ := rfl
  exact ⟨_, .step (a := .push) (.step (a := .push) hs trivial hpush) trivial hdone⟩

theorem Still.setConn {net : Broadcast.Server 1} (h : Still net) (id : ConnId)
    (conn : Connection) : Still (net.setConn id conn) :=
  ⟨h.globalQueue, h.counter, h.reactor, h.running, h.taskQueue, h.worker, h.shard⟩

/-- The state in which the handler is entered for the only event in the queue. -/
def entered (s : System 1) (evt : Queued) : System 1 :=
  ({ s with eventQueue := [] }.record (.examine evt false)).setLogic (.entering evt)

theorem Served.enters (hs : Served clients s) (hlogic : s.logic = .idle)
    (hqueue : s.eventQueue = [evt]) (hopen : s.isClosed evt.conn = false) :
    Served clients (entered s evt) := by
  have htake : s.next (setup fun _ => eager) .take =
      some ({ s with eventQueue := [] }.setLogic (.taken evt)) := by
    simp only [System.next, hlogic, hqueue]
  have hopen' : System.isClosed ({ s with eventQueue := [] }.setLogic (.taken evt)) evt.conn =
      false := hopen
  refine (hs.step rfl htake).step (a := .examine) rfl ?_
  show some _ = some _
  rw [hopen', if_neg (by simp)]
  rfl

/-- A request that the client has sent gets as far as its handler. -/
theorem At.request (h : At s .idle conn done) (hs : Served clients s)
    (hasks : Asks (clients 0) done m) :
    ∃ u evt conn', Served clients u ∧
      At u (.sending evt (s.app.handleMessage (fun _ => some m) sampleEnv 0 []).2) conn'
        (done ++ [m]) ∧
      conn'.appended = conn.appended ∧ u.net.broadcasts = s.net.broadcasts ∧
      u.app = (s.app.handleMessage (fun _ => some m) sampleEnv 0 []).1 := by
  obtain ⟨announced, hreach⟩ := hs
  obtain ⟨conn', hread, hwritten, happended, hreceived⟩ := h.reads hreach hasks
  have hfound : (s.net.setConn 0 conn').conns 0 = some conn' :=
    Function.update_self (β := fun _ => Option Connection) 0 (some conn') s.net.conns
  have hpushed := request_pushed hread h.reactor (by simp [System.known, hfound])
  obtain ⟨evt, hevt⟩ : ∃ e : Queued, e = ⟨s.pushes, ⟨.message, 0, some (serializeClient m)⟩⟩ :=
    ⟨_, rfl⟩
  have hqueue : (System.push { s with net := s.net.setConn 0 conn' } .message 0
      (some (serializeClient m))).eventQueue = [evt] := by
    show s.eventQueue ++ _ = _
    rw [h.queue, List.nil_append, hevt]
  have hentered := hpushed.enters h.logic hqueue (by
    rw [hevt]
    simp [System.isClosed, System.push, hfound, hwritten.opened])
  have hanswer : s.app.processEvent parseClient sampleEnv false evt.event =
      s.app.handleMessage (fun _ => some m) sampleEnv 0 [] := by
    rw [hevt]
    exact ClientReceive.handleMessage_serialized s.app sampleEnv 0 m
  obtain ⟨u, hu⟩ : ∃ u : System 1, u = Provenance.calling (setup fun _ => eager) (entered
    (System.push { s with net := s.net.setConn 0 conn' } .message 0 (some (serializeClient m)))
      evt) evt sampleEnv := ⟨_, rfl⟩
  have hcalled : Served clients u := by
    refine hentered.step (a := .call sampleEnv) rfl ?_
    have hclock : s.clock ≤ sampleEnv.now := h.clock.le
    show (if s.clock ≤ sampleEnv.now then _ else none) = _
    rw [if_pos hclock, hu]
    rfl
  refine ⟨u, evt, conn', hcalled, ?_, happended, by rw [hu]; rfl, ?_⟩
  · rw [← hanswer, hu]
    refine ⟨h.reactor, rfl, rfl, rfl, ?_, hfound, hwritten, hreceived, h.still.setConn 0 conn'⟩
    show payloads ((_ ++ [_]) ++ [_]) 0 = _
    rw [payloads_record rfl, payloads_record rfl, payloads_push]
    show payloads s.log 0 ++ _ = _
    rw [h.pushed, if_pos rfl, List.map_append]
    rfl
  · rw [← hanswer, hu]
    rfl

/-- What SendPreEncoded is called with goes out. -/
theorem At.send {msg : ServerMessage} {rest : List Output}
    (h : At s (.sending evt (.sendProto 0 msg :: rest)) conn done) (hs : Served clients s) :
    ∃ u conn', Served clients u ∧ At u (.sending evt rest) conn' done ∧
      conn'.appended = conn.appended ++ [Letter.packet ⟨msg, none⟩] ∧
      u.net.broadcasts = s.net.broadcasts ∧ u.app = s.app := by
  obtain ⟨hwritten, happended⟩ := h.written.send (Letter.packet ⟨msg, none⟩)
  obtain ⟨conn', hconn'⟩ : ∃ c, c = sendPreEncoded eager conn (Letter.packet ⟨msg, none⟩) :=
    ⟨_, rfl⟩
  rw [← hconn'] at hwritten happended
  obtain ⟨u, hu⟩ : ∃ u : System 1, u =
      ({ s with net := s.net.setConn 0 conn' }.record (.append evt 0 msg)).setLogic
        (.sending evt rest) := ⟨_, rfl⟩
  have hnext : s.next (setup fun _ => eager) .output = some u := by
    have hclosed : s.isClosed 0 = false := by
      simp [System.isClosed, h.found, h.written.opened]
    have hop : Broadcast.Ordinary
        (.sendPreEncoded ⟨(setup fun _ => eager).encode msg, none⟩) := rfl
    simp only [System.next, h.logic, System.onNet, Broadcast.Server.next, if_pos hop, h.found,
      Option.map_some, hclosed, Bool.false_eq_true, if_false]
    rw [hu, hconn']
    rfl
  have hreceived : conn'.received = conn.received := by
    have hkept : intake
        (ConnOp.apply eager conn (.sendPreEncoded (Letter.packet ⟨msg, none⟩))) = intake conn :=
      intake_apply eager conn (by simp)
    rw [hconn']
    exact congrArg Prod.snd hkept
  refine ⟨u, conn', hs.step rfl hnext, ?_, happended, by rw [hu]; rfl, by rw [hu]; rfl⟩
  rw [hu]
  refine ⟨h.reactor, rfl, h.queue, h.clock, ?_, ?_, hwritten, hreceived.trans h.read,
    h.still.setConn 0 conn'⟩
  · show payloads (s.log ++ [_]) 0 = _
    rw [payloads_record rfl, h.pushed]
  · exact Function.update_self (β := fun _ => Option Connection) 0 (some conn') s.net.conns

/-- All that a handler sends to the client goes out, and the logic thread is done. -/
theorem At.sends {msgs : List ServerMessage}
    (h : At s (.sending evt (msgs.map (.sendProto 0))) conn done) (hs : Served clients s) :
    ∃ u conn', Served clients u ∧ At u .idle conn' done ∧
      conn'.appended = conn.appended ++ msgs.map (fun msg => Letter.packet ⟨msg, none⟩) ∧
      u.net.broadcasts = s.net.broadcasts ∧ u.app = s.app := by
  induction msgs generalizing s conn with
  | nil =>
    have hnext : s.next (setup fun _ => eager) .output = some (s.setLogic .idle) := by
      simp only [System.next, h.logic, List.map_nil]
    exact ⟨_, conn, hs.step rfl hnext, ⟨h.reactor, rfl, h.queue, h.clock, h.pushed, h.found,
      h.written, h.read, h.still⟩, (List.append_nil _).symm, rfl, rfl⟩
  | cons msg rest ih =>
    obtain ⟨u, conn', hu, hat, happended, hcount, happ⟩ := At.send h hs
    obtain ⟨t, conn'', ht, hidle, hmore, hcount', happ'⟩ := ih hat hu
    refine ⟨t, conn'', ht, hidle, ?_, hcount'.trans hcount, happ'.trans happ⟩
    rw [hmore, happended, List.append_assoc]
    rfl

/-- A request whose handler answers it is answered. -/
theorem At.answered {msgs : List ServerMessage} (h : At s .idle conn done)
    (hs : Served clients s) (hasks : Asks (clients 0) done m)
    (hanswer : (s.app.handleMessage (fun _ => some m) sampleEnv 0 []).2 =
      msgs.map (.sendProto 0)) :
    ∃ u conn', Served clients u ∧ At u .idle conn' (done ++ [m]) ∧
      conn'.appended = conn.appended ++ msgs.map (fun msg => Letter.packet ⟨msg, none⟩) ∧
      u.net.broadcasts = s.net.broadcasts ∧
      u.app = (s.app.handleMessage (fun _ => some m) sampleEnv 0 []).1 := by
  obtain ⟨u, evt, conn', hu, hat, happended, hcount, happ⟩ := h.request hs hasks
  rw [hanswer] at hat
  obtain ⟨t, conn'', ht, hidle, hmore, hcount', happ'⟩ := hat.sends hu
  exact ⟨t, conn'', ht, hidle, hmore.trans (by rw [happended]), hcount'.trans hcount,
    happ'.trans happ⟩

/-- The reactor wakes up and flushes the queue, and the worker takes the first shard. -/
def deliverySteps : List (Broadcast.Action 1) :=
  [.epollWait [.notify], .dispatch, .endBatch, .pushBatch, .pop ⟨0, Nat.one_pos⟩,
    .snapshot ⟨0, Nat.one_pos⟩ [0], .turn ⟨0, Nat.one_pos⟩]

theorem Still.delivers {net : Broadcast.Server 1} (h : Still net) (hconn : net.conns 0 = some conn)
    (hopen : conn.closed = false) (data : Bytes) :
    ∃ t, Lib.Runs.run (Broadcast.machine (fun _ => eager) 1) AnyStep
        (net.pushEvent data (-1)).notify deliverySteps = some t ∧
      t.conns 0 = some (shardTaskBody eager conn [⟨-1, ⟨data, some net.broadcasts⟩⟩]) := by
  obtain ⟨hqueue, hcounter, hreactor, hrunning, htasks, hworker, hshard⟩ := h
  have hfirst : ∀ batch : Broadcast.Batch, batch.tasks =
      ⟨0, batch⟩ :: (List.range 15).map fun i => ⟨i + 1, batch⟩ := fun batch => rfl
  simp [deliverySteps, run, Broadcast.machine, AnyStep, Broadcast.Server.next,
    Broadcast.Server.notify, Broadcast.Server.pushEvent, Broadcast.Server.swapQueue,
    Broadcast.Server.pushBatch, Broadcast.Server.loop, Broadcast.Server.setWorker,
    Broadcast.Server.setConn, Broadcast.Server.Snapshot, Broadcast.Server.isOpen,
    Broadcast.eventfdMax, Broadcast.maxEvents, hqueue, hcounter, hreactor, hrunning, htasks,
    hfirst, hworker, hshard, hconn, hopen]

theorem Served.delivered {net : Broadcast.Server 1} {steps : List (Broadcast.Action 1)}
    (hs : Served clients s) (hidle : s.reactor = .idle)
    (hkind : ∀ a ∈ steps, (ofPool a || ofReactor a) = true ∧ ChatNetwork.reads (.net a) = false)
    (hrun : Lib.Runs.run (Broadcast.machine (fun _ => eager) 1) AnyStep s.net steps = some net) :
    Served clients { s with net := net } := by
  induction steps generalizing s with
  | nil =>
    cases hrun
    exact hs
  | cons a rest ih =>
    obtain ⟨hstep, hreads⟩ := hkind a List.mem_cons_self
    obtain ⟨-, hrun⟩ := Option.ite_none_right_eq_some.mp hrun
    obtain ⟨between, hnet, hrest⟩ := Option.bind_eq_some_iff.mp hrun
    have hnext : s.next (setup fun _ => eager) (.net a) = some { s with net := between } := by
      have hguard : ofPool a = true ∨ ofReactor a = true ∧ s.reactor = .idle :=
        (Bool.or_eq_true_iff.mp hstep).imp_right fun h => ⟨h, hidle⟩
      simp only [System.next, if_pos hguard, System.onNet]
      exact congrArg (Option.map _) hnet
    exact ih (s := { s with net := between }) (hs.step hreads hnext) hidle
      (fun b hb => hkind b (List.mem_cons_of_mem _ hb)) hrest

/-- A broadcast of the handler goes out, too. -/
theorem At.broadcasts {msg : ServerMessage}
    (h : At s (.sending evt [.broadcastProto msg]) conn done) (hs : Served clients s) :
    ∃ u conn', Served clients u ∧ u.net.conns 0 = some conn' ∧ conn'.outgoingQueue = [] ∧
      conn'.appended = conn.appended ++ [Letter.packet ⟨msg, some s.net.broadcasts⟩] ∧
      conn'.received = conn.received ∧ u.log = s.log := by
  obtain ⟨data, hdata⟩ : ∃ data, data = encode serializeServer msg := ⟨_, rfl⟩
  obtain ⟨net, hrun, hfound⟩ := h.still.delivers h.found h.written.opened data
  obtain ⟨u, hu⟩ : ∃ u : System 1, u =
      { s with net := (s.net.pushEvent data (-1)).notify, logic := .idle } := ⟨_, rfl⟩
  have hpushes : s.next (setup fun _ => eager) .output =
      some ({ s with net := s.net.pushEvent data (-1) }.setLogic (.notifying evt [])) := by
    simp only [System.next, h.logic]
    rw [hdata]
    rfl
  have hnotified : System.next (setup fun _ => eager)
      ({ s with net := s.net.pushEvent data (-1) }.setLogic (.notifying evt [])) .notify =
      some ({ s with net := (s.net.pushEvent data (-1)).notify }.setLogic (.sending evt [])) := by
    have hinside : 0 < (s.net.pushEvent data (-1)).notifying := Nat.succ_pos _
    have hnet : (s.net.pushEvent data (-1)).next (fun _ => eager) .broadcastNotify =
        some (s.net.pushEvent data (-1)).notify := by
      simp [Broadcast.Server.next, hinside]
    show Option.map (fun t : System 1 => t.setLogic (.sending evt []))
      (Option.map (fun net => System.setLogic { s with net := net } (.notifying evt []))
        ((s.net.pushEvent data (-1)).next (fun _ => eager) .broadcastNotify)) = _
    rw [hnet]
    rfl
  have hidle : System.next (setup fun _ => eager)
      ({ s with net := (s.net.pushEvent data (-1)).notify }.setLogic (.sending evt [])) .output =
      some u := by
    rw [hu]
    rfl
  have hserved := ((hs.step rfl hpushes).step rfl hnotified).step rfl hidle
  have hrun' : Lib.Runs.run (Broadcast.machine (fun _ => eager) 1) AnyStep u.net deliverySteps =
      some net := by
    rw [hu]
    exact hrun
  have hdelivered := hserved.delivered (hu ▸ h.reactor)
    (show ∀ a ∈ deliverySteps, _ from by decide) hrun'
  have hincluded : Included conn.fd ⟨-1, ⟨data, some s.net.broadcasts⟩⟩ := by simp [Included]
  obtain ⟨hempty, happended⟩ := h.written.turn hincluded
  refine ⟨_, _, hdelivered, hfound, hempty, ?_, ?_, ?_⟩
  · rw [happended, hdata]
    rfl
  · exact congrArg Prod.snd (intake_shardTask eager conn _)
  · rw [hu]

/-- Everything in the queue of the client has been written. -/
theorem sent_of_written {net : Broadcast.Server 1} (hintact : Downlink.Intact net)
    (hfound : net.conns 0 = some conn) (hempty : conn.outgoingQueue = []) :
    Downlink.sent net 0 = conn.appended.flatMap SharedPayload.bytes := by
  have hstream := (hintact 0 conn hfound).stream
  rw [hempty, unsentBytes_nil, List.append_nil] at hstream
  rw [Downlink.sent, hfound, ← hstream]
  rfl

end Serving

section Typing

variable {s : System 1} {c : Client}

/-- Connection 0 has this client, and the others have not begun. -/
def only (c : Client) : ConnId → Client := Function.update (fun _ => .new) 0 c

theorem only_self (c : Client) : only c 0 = c := Function.update_self (β := fun _ => Client) 0 c _

theorem setClient_only (server : System 1) (announced : List ServerMessage)
    (reading : Option (ConnId × List Bytes)) (c d : Client) :
    Network.setClient ⟨server, announced, reading, only c⟩ 0 d =
      ⟨server, announced, reading, only d⟩ := by
  have honly : Function.update (only c) 0 d = only d :=
    Function.update_idem (β := fun _ => Client) c d _
  rw [Network.setClient, honly]

instance (c : Sender) (k : Char × Option ℕ) : Decidable (TurnGoesOn serializeClient c k) :=
  inferInstanceAs (Decidable (_ → ∀ m ∈ _, taken _ _ <+: _))

/-- Each of these turns goes on where the kernel is. -/
def GoOn (c : Sender) : List (Char × Option ℕ) → Prop
  | [] => True
  | k :: rest => TurnGoesOn serializeClient c k ∧ GoOn (c.turn serializeClient k) rest

instance decidableGoOn : (c : Sender) → (keys : List (Char × Option ℕ)) → Decidable (GoOn c keys)
  | _, [] => isTrue trivial
  | c, k :: rest =>
      have := decidableGoOn (c.turn serializeClient k) rest
      inferInstanceAs (Decidable (_ ∧ _))

/-- The user types while the server does nothing. -/
theorem Served.types {keys : List (Char × Option ℕ)} (hs : Served (only c) s)
    (hrunning : c.stage = .running) (hkeys : GoOn c.sender keys) :
    Served (only { c with sender := keys.foldl (Sender.turn serializeClient) c.sender }) s := by
  induction keys generalizing c with
  | nil => exact hs
  | cons k rest ih =>
    obtain ⟨announced, hreach⟩ := hs
    obtain ⟨hgoes, hrest⟩ := hkeys
    have hnext : (machine (fun _ => eager) 1).next ⟨s, announced, none, only c⟩
        (.key 0 k.1 k.2) = some ⟨s, announced, none, only (c.key k.1 k.2)⟩ := by
      show (if (only c 0).stage = .running then some (Network.setClient
        ⟨s, announced, none, only c⟩ 0 ((only c 0).key k.1 k.2)) else none) = _
      rw [only_self, if_pos hrunning, setClient_only]
    have hfitting : Fitting (⟨s, announced, none, only c⟩ : Network 1) (.key 0 k.1 k.2) := by
      show TurnGoesOn serializeClient (only c 0).sender k
      rw [only_self]
      exact hgoes
    exact ih ⟨announced, hreach.step hfitting hnext⟩ hrunning hrest

theorem loginRecv_frame (c : Client) {m : ServerMessage}
    (hm : (serializeServer m).length ≤ maxPayload) :
    c.loginRecv (frame (serializeServer m)) = some { c with
      stage := if Client.accepts m then .running else .over
      receiver := c.receiver.take (frame (serializeServer m)) m } := by
  have hdeclared : declared (frame (serializeServer m)) = (serializeServer m).length := by
    have hframe := declared_frame_append hm []
    rwa [List.append_nil] at hframe
  have hparsed : parseServer ((frame (serializeServer m)).drop 4) = some m :=
    parse_serializeServer m
  have hwhole : (frame (serializeServer m)).take (4 + (serializeServer m).length) =
      frame (serializeServer m) := List.take_of_length_le (by rw [frame_length])
  unfold Client.loginRecv
  rw [hdeclared, if_neg (by rw [frame_length]; omega)]
  simp only [hwhole, hparsed]

/-- login reads the answer, when it is all that has been sent. -/
theorem Served.logsIn {m : ServerMessage} (hs : Served (only c) s) (hwaits : c.stage = .awaiting)
    (hnothing : c.receiver.read = []) (hm : (serializeServer m).length ≤ maxPayload)
    (hsent : Downlink.sent s.net 0 = frame (serializeServer m)) :
    Served (only { c with
      stage := if Client.accepts m then .running else .over
      receiver := c.receiver.take (frame (serializeServer m)) m }) s := by
  obtain ⟨announced, hreach⟩ := hs
  have hunread : Network.unread (⟨s, announced, none, only c⟩ : Network 1) 0 =
      frame (serializeServer m) := by
    show (Downlink.sent s.net 0).drop (only c 0).receiver.read.length = _
    rw [only_self, hnothing, hsent]
    rfl
  have hnext : (machine (fun _ => eager) 1).next ⟨s, announced, none, only c⟩ (.loginRecv 0) =
      some ⟨s, announced, none, only { c with
        stage := if Client.accepts m then .running else .over
        receiver := c.receiver.take (frame (serializeServer m)) m }⟩ := by
    show (if (only c 0).stage = .awaiting then
      Option.map _ ((only c 0).loginRecv (Network.unread _ 0)) else none) = _
    rw [hunread, only_self, if_pos hwaits, loginRecv_frame c hm, Option.map_some, setClient_only]
  exact ⟨announced, hreach.step (a := .loginRecv 0) trivial hnext⟩

/-- receive_loop reads all that has been sent. -/
theorem Served.reads {chunk : Bytes} (hs : Served (only c) s) (hrunning : c.stage = .running)
    (hsome : 0 < chunk.length) (hroom : chunk.length ≤ c.receiver.space)
    (hsent : Downlink.sent s.net 0 = c.receiver.read ++ chunk) :
    Served (only (c.readv chunk)) s := by
  obtain ⟨announced, hreach⟩ := hs
  have hnext : (machine (fun _ => eager) 1).next ⟨s, announced, none, only c⟩ (.readv 0 chunk) =
      some ⟨s, announced, none, only (c.readv chunk)⟩ := by
    show (if (only c 0).stage = .running ∧ 0 < chunk.length ∧
      chunk.length ≤ (only c 0).receiver.space ∧
      (only c 0).receiver.read ++ chunk <+: Downlink.sent s.net 0 then some _ else none) = _
    rw [only_self, setClient_only]
    exact if_pos ⟨hrunning, hsome, hroom, hsent ▸ List.prefix_rfl⟩
  exact ⟨announced, hreach.step (a := .readv 0 chunk) trivial hnext⟩

end Typing

section Samples

open EventOrder (acceptSteps handleSteps)

/-- The answer to a login. -/
def welcome : ServerMessage := .loginResponse ⟨true, "Login successful."⟩

/-- What the user does: log in, write to himself, and write to everybody. -/
def requests : List ClientMessage :=
  [.login ⟨"a"⟩, .privateChat ⟨"a", "hi"⟩, .globalChat ⟨"yo"⟩]

/-- What comes back. -/
def answers : List ServerMessage :=
  [.privateChat ⟨"a", "hi", 0⟩, ClientReceive.confirmation "a" "hi"]

def letters : List Letter :=
  (welcome :: answers).map (fun msg => ⟨msg, none⟩) ++
    [⟨.chatBroadcast { sender := "a", text := "yo" }, some 0⟩]

/-- What the handlers send for these requests of connection 0. -/
def replies (app : ChatApp) : List ClientMessage → List (List Output)
  | [] => []
  | m :: rest =>
      let (app, outputs) := app.handleMessage (fun _ => some m) sampleEnv 0 []
      outputs :: replies app rest

/-- The client after it has sent its name. -/
def asked : Client := Client.new.enterName "a" (some 9)

/-- The client after login. -/
def welcomed : Client :=
  { asked with
    stage := .running
    receiver := Receiver.new.take (frame (serializeServer welcome)) welcome }

/-- The client after the user has typed the line, with a socket that takes the packet. -/
def Client.types (c : Client) (line : String) : Client :=
  { c with
    sender := (ClientSend.typed line (some 100)).foldl (Sender.turn serializeClient) c.sender }

def mailing : Client := welcomed.types "/msg a hi\n"

def calling : Client := mailing.types "yo\n"

theorem connected : ∃ s conn, Served (only asked) s ∧ At s .idle conn [] ∧ conn.appended = [] ∧
    s.net.broadcasts = 0 ∧
    replies s.app requests = [[.sendProto 0 welcome], answers.map (.sendProto 0),
      [.broadcastProto (.chatBroadcast { sender := "a", text := "yo" })]] := by
  have hrun : (run (ServerSystem.machine (setup fun _ => eager) 1) AnyStep System.init
      (acceptSteps 0 16 ++ handleSteps 0)).any (fun s =>
        (s.reactor = .idle ∧ s.logic = .idle ∧ s.eventQueue = [] ∧ s.clock = 0 ∧
          payloads s.log 0 = []) ∧
        (∃ conn ∈ s.net.conns 0, (conn.closed = false ∧ conn.outgoingQueue = [] ∧
          conn.isWriteArmed = false) ∧ conn.received = [] ∧ conn.appended = []) ∧
        (s.net.globalQueue = [] ∧ s.net.counter = 0 ∧ s.net.reactor = .waiting ∧
          s.net.running = true ∧ s.net.taskQueue = [] ∧ s.net.workers 0 = none ∧
          s.net.shards 0 = [(16, 0)]) ∧
        s.net.broadcasts = 0 ∧
        replies s.app requests = [[.sendProto 0 welcome], answers.map (.sendProto 0),
          [.broadcastProto (.chatBroadcast { sender := "a", text := "yo" })]]) = true := by
    decide +kernel
  obtain ⟨s, hs, hP⟩ := (Option.any_eq_true _ _).mp hrun
  obtain ⟨⟨hreactor, hlogic, hqueue, hclock, hpushed⟩, ⟨conn, hconn, ⟨hopen, hempty, harmed⟩,
    hread, happended⟩, ⟨hbroadcasts, hcounter, hwaiting, hrunning, htasks, hworker, hshard⟩,
    hcount, hreplies⟩ := of_decide_eq_true hP
  have hnamed : (machine (fun _ => eager) 1).next Network.init (.enterName 0 "a" (some 9)) =
      some ⟨.init, [], none, only asked⟩ := rfl
  have hstart : Served (only asked) .init :=
    ⟨[], .step (a := .enterName 0 "a" (some 9)) .init trivial hnamed⟩
  exact ⟨s, conn, hstart.run (by decide) hs,
    ⟨hreactor, hlogic, hqueue, hclock, hpushed, hconn, ⟨hopen, hempty, harmed⟩, hread,
      ⟨hbroadcasts, hcounter, hwaiting, hrunning, htasks, hworker, hshard⟩⟩,
    happended, hcount, hreplies⟩

/-- What connection 0 has been sent, when the logic thread has nothing to do. -/
theorem At.sent {c : Client} {s : System 1} {stage : LogicStage} {conn : Connection}
    {done : List ClientMessage} (h : At s stage conn done) (hs : Served (only c) s) :
    Downlink.sent s.net 0 = conn.appended.flatMap SharedPayload.bytes := by
  obtain ⟨announced, hreach⟩ := hs
  exact sent_of_written (intact hreach) h.found h.written.empty

theorem loggedIn : ∃ s conn, Served (only welcomed) s ∧ At s .idle conn [.login ⟨"a"⟩] ∧
    conn.appended = [Letter.packet ⟨welcome, none⟩] ∧ s.net.broadcasts = 0 ∧
    replies s.app requests.tail = [answers.map (.sendProto 0),
      [.broadcastProto (.chatBroadcast { sender := "a", text := "yo" })]] := by
  obtain ⟨s, conn, hs, hat, hnone, hcount, hreplies⟩ := connected
  obtain ⟨hlogin, hlater⟩ := List.cons.inj hreplies
  have hanswer : (s.app.handleMessage (fun _ => some (.login ⟨"a"⟩)) sampleEnv 0 []).2 =
      [welcome].map (.sendProto 0) := hlogin
  have hasks : Asks (only asked 0) [] (.login ⟨"a"⟩) :=
    ⟨by decide +kernel, by decide +kernel, by decide +kernel, by decide +kernel⟩
  obtain ⟨u, conn', hu, hidle, happended, hcount', happ⟩ := hat.answered hs hasks hanswer
  rw [hnone, List.nil_append] at happended
  have hsent : Downlink.sent u.net 0 = frame (serializeServer welcome) := by
    rw [hidle.sent hu, happended]
    exact List.append_nil _
  refine ⟨u, conn', hu.logsIn rfl rfl (by decide +kernel) hsent, hidle, happended,
    hcount'.trans hcount, ?_⟩
  rw [happ]
  exact hlater

/-- The user has typed the line with the private message. -/
theorem mailed : ∃ s conn, Served (only mailing) s ∧
    At s .idle conn [.login ⟨"a"⟩, .privateChat ⟨"a", "hi"⟩] ∧
    conn.appended = (welcome :: answers).map (fun msg => Letter.packet ⟨msg, none⟩) ∧
    s.net.broadcasts = 0 ∧
    (s.app.handleMessage (fun _ => some (.globalChat ⟨"yo"⟩)) sampleEnv 0 []).2 =
      [.broadcastProto (.chatBroadcast { sender := "a", text := "yo" })] := by
  obtain ⟨s, conn, hs, hat, hwelcome, hcount, hreplies⟩ := loggedIn
  obtain ⟨hanswer, hlater⟩ := List.cons.inj hreplies
  have htyped : Served (only mailing) s := hs.types rfl (by decide +kernel)
  have hasks : Asks (only mailing 0) [.login ⟨"a"⟩] (.privateChat ⟨"a", "hi"⟩) :=
    ⟨by decide +kernel, by decide +kernel, by decide +kernel, by decide +kernel⟩
  obtain ⟨u, conn', hu, hidle, happended, hcount', happ⟩ := hat.answered htyped hasks hanswer
  rw [hwelcome] at happended
  refine ⟨u, conn', hu, hidle, happended, hcount'.trans hcount, ?_⟩
  rw [happ]
  exact (List.cons.inj hlater).1

/-- The client in the end, when receive_loop has read everything. -/
def served : Client :=
  calling.readv (frames ((letters.map Letter.msg).tail.map serializeServer))

/-- All three requests have been handled, and the client has read what it was sent. -/
theorem conversation : ∃ t : Network 1, Reachable (machine (fun _ => eager) 1) Fitting t ∧
    t.clients = only served ∧
    payloads t.server.log 0 = requests.map serializeClient ∧
    AppendedPackets.appended t.server.net 0 = letters.map Letter.packet := by
  obtain ⟨s, conn, hs, hat, hmailed, hcount, hanswer⟩ := mailed
  have htyped : Served (only calling) s := hs.types rfl (by decide +kernel)
  have hasks : Asks (only calling 0) [.login ⟨"a"⟩, .privateChat ⟨"a", "hi"⟩]
      (.globalChat ⟨"yo"⟩) :=
    ⟨by decide +kernel, by decide +kernel, by decide +kernel, by decide +kernel⟩
  obtain ⟨u, evt, conn', hu, hcalled, hsame, hcount', -⟩ := hat.request htyped hasks
  rw [hanswer] at hcalled
  obtain ⟨t, conn'', ht, hfound, hempty, happended, -, hlog⟩ := hcalled.broadcasts hu
  have hall : conn''.appended = letters.map Letter.packet := by
    rw [happended, hsame, hmailed, hcount'.trans hcount]
    rfl
  have hsent : Downlink.sent t.net 0 = calling.receiver.read ++
      frames ((letters.map Letter.msg).tail.map serializeServer) := by
    obtain ⟨announced, hreach⟩ := ht
    rw [sent_of_written (intact hreach) hfound hempty, hall, Downlink.packets_bytes]
    rfl
  obtain ⟨announced, hreach⟩ := ht.reads (c := calling) rfl (by decide +kernel) (by decide +kernel)
    hsent
  refine ⟨_, hreach, rfl, ?_, ?_⟩
  · show payloads t.log 0 = _
    rw [hlog, hcalled.pushed]
    rfl
  · exact (AppendedPackets.appended_of_conn hfound).trans hall

end Samples

end ChatServer.ChatNetwork
