import ChatServer.BroadcastDelivery
import ChatServer.Confirmation
import ChatServer.WriteAttempt

/-!
What is in the queue of a connection, and what a client makes of it. The logic
thread sends to the queue, and shard tasks append to it; a log of the calls and the
list of the broadcasts say which messages these are, and no step reads them. The
client reads one packet past its buffer, then in turns of receive_loop.
-/
namespace ChatServer.Downlink

open Broadcast BroadcastDelivery BroadcastFlow ShardTask OutputStream AppendedPackets Lib.Runs
open ClientReceive PacketCodec ReceivePath Lib.WorkQueue
open ServerSystem (System Setup Entry)

section Queues

variable {n : ℕ} {kernel : ConnId → Kernel} {s t : Server n} {f g : Flow n}
  {a : Broadcast.Action n} {id : ConnId} {conn : Connection}

/-- The event is in the last batch, or in a task that is not finished. -/
def Underway (f : Flow n) (evt : BroadcastEvent) : Prop :=
  evt ∈ f.last.events ∨ ∃ task, f.pool.Has task ∧ evt ∈ task.batch.events

theorem Underway.same {evt : BroadcastEvent} (h : Underway g evt) (hlast : g.last = f.last)
    (hpool : ∀ task, g.pool.Has task → f.pool.Has task) : Underway f evt := by
  rcases h with hqueue | ⟨task, htask, hevt⟩
  · exact Or.inl (hlast ▸ hqueue)
  · exact Or.inr ⟨task, hpool task htask, hevt⟩

/-- Broadcast alone brings events in. -/
theorem underway_before {evt : BroadcastEvent} (hstep : f.Step a g) (h : Underway g evt) :
    Underway f evt ∨ ∃ data excludeFd, a = .broadcastPush data excludeFd ∧
      evt.payload = ⟨data, some f.broadcasts⟩ := by
  cases hstep with
  | stay => exact Or.inl h
  | push data excludeFd =>
    rcases h with hqueue | htask
    · rcases List.mem_append.mp hqueue with hold | hnew
      · exact Or.inl (Or.inl hold)
      · obtain rfl := List.mem_singleton.mp hnew
        exact Or.inr ⟨data, excludeFd, rfl, rfl⟩
    · exact Or.inl (Or.inr htask)
  | swap =>
    rcases h with hqueue | ⟨task, htask, hevt⟩
    · exact absurd hqueue List.not_mem_nil
    · rcases (Pool.has_join (p := f.pool)).mp htask with hold | hnew
      · exact Or.inl (Or.inr ⟨task, hold, hevt⟩)
      · rw [batch_of_mem_tasks hnew] at hevt
        exact Or.inl (Or.inl hevt)
  | @pop w task rest hline hidle =>
    refine Or.inl (h.same rfl fun u hu => ?_)
    rw [pool_pop (f := f) w task rest] at hu
    exact hu.of_take hline
  | snapshot hheld =>
    refine Or.inl (h.same rfl fun u hu => ?_)
    rw [pool_setWorker_same hheld] at hu
    exact hu
  | @turn w task id rest box part hheld =>
    have hheld' : (f.deliver id box part).workers w = some ⟨task, some (id :: rest)⟩ := hheld
    refine Or.inl (h.same rfl fun u hu => ?_)
    rw [pool_setWorker_same hheld'] at hu
    exact hu
  | finish hheld =>
    refine Or.inl (h.same rfl fun u hu => ?_)
    rw [pool_finish] at hu
    exact hu.of_release
  | accept => exact Or.inl (h.same rfl fun _ hu => hu)
  | erase => exact Or.inl (h.same rfl fun _ hu => hu)

/-- A turn appends events of the task that the worker holds. -/
theorem appended_turn {w : Fin n} (hnext : s.next kernel (.turn w) = some t) (id : ConnId) :
    ∃ kept : List BroadcastEvent, (∀ evt ∈ kept, Underway (flow s) evt) ∧
      appended t id = appended s id ++ kept.map BroadcastEvent.payload := by
  cases Server.next_moves hnext with
  | @turn _ task c rest conn hheld hconn =>
    change ∃ kept : List BroadcastEvent, (∀ evt ∈ kept, _) ∧
      appended (s.setConn c _) id = _
    rw [appended_setConn]
    split
    · rename_i hc
      subst hc
      cases hclosed : conn.closed with
      | true =>
        refine ⟨[], fun _ hevt => absurd hevt List.not_mem_nil, ?_⟩
        rw [shardTaskBody_closed _ _ _ hclosed, appended_of_conn hconn, List.map_nil,
          List.append_nil]
      | false =>
        have hmarks := shardTaskBody_marks (kernel id) conn task.batch.events hclosed
        simp only [marks, Prod.mk.injEq] at hmarks
        have hheldTask : (flow s).pool.held w = some task :=
          congrArg (Option.map Running.task) hheld
        refine ⟨keptEvents conn.fd conn.outgoingQueue.length task.batch.events, ?_, ?_⟩
        · intro evt hevt
          exact Or.inr ⟨task, Or.inr ⟨w, hheldTask⟩, (keptEvents_sublist _ _ _).subset hevt⟩
        · rw [hmarks.2.2, appended_of_conn hconn]
    · exact ⟨[], fun _ hevt => absurd hevt List.not_mem_nil, (List.append_nil _).symm⟩

/-- Every connection's stream is intact. -/
def Intact (s : Server n) : Prop := ∀ id conn, s.conns id = some conn → StreamIntact conn

theorem Intact.setConn (h : Intact s) (id : ConnId) (hconn : StreamIntact conn) :
    Intact (s.setConn id conn) := by
  intro c other hother
  change Function.update s.conns id (some conn) c = some other at hother
  by_cases hc : c = id
  · rw [hc, Function.update_self] at hother
    cases hother
    exact hconn
  · rw [Function.update_of_ne hc] at hother
    exact h c other hother

theorem Intact.step (h : Intact s) (hnext : s.next kernel a = some t) : Intact t := by
  cases Server.next_moves hnext with
  | @accept c fd now hfresh => exact h.setConn c (new_intact fd now)
  | @close c conn hconn hopen => exact h.setConn c ((h c conn hconn).congr (output_close conn))
  | @turn w task c rest conn hheld hconn =>
    exact h.setConn c (shardTaskBody_intact (kernel c) (h c conn hconn) task.batch.events)
  | @connOp c op conn hop hconn => exact h.setConn c (apply_intact (kernel c) (h c conn hconn) op)
  | broadcastNotify hinside =>
    unfold Server.notify
    split <;> exact h
  | flush hreactor =>
    unfold Server.swapQueue
    split <;> exact h
  | _ => exact h

/-- No connection is given a broadcast twice. -/
theorem origins_nodup (hs : Reachable (Broadcast.machine kernel n) AnyStep s) (id : ConnId) :
    ((appended s id).filterMap SharedPayload.origin).Nodup := by
  obtain ⟨-, -, hspaced⟩ := Spaced.reachable (R := (· ≠ ·)) (fun _ _ => Nat.ne_of_lt)
    (fun _ _ _ _ _ _ _ => Nat.ne_of_gt) hs
  unfold appended
  cases hconn : s.conns id with
  | none => exact List.nodup_nil
  | some conn => exact (hspaced id _ (inbox_of_conn hconn)).2.pairwise

/-- The bytes that the kernel has taken for a connection. -/
def sent (s : Server n) (id : ConnId) : Bytes := ((s.conns id).map Connection.sent).getD []

/-- They are the first of what was appended. -/
theorem sent_prefix (h : Intact s) (id : ConnId) :
    sent s id <+: (appended s id).flatMap SharedPayload.bytes := by
  unfold sent appended
  cases hconn : s.conns id with
  | none => exact List.prefix_rfl
  | some conn =>
    have hstream := (h id conn hconn).stream
    show conn.sent <+: conn.appended.flatMap SharedPayload.bytes
    rw [← hstream]
    exact List.prefix_append _ _

theorem broadcasts_same (hstep : f.Step a g)
    (hpush : ∀ data excludeFd, a ≠ .broadcastPush data excludeFd) :
    g.broadcasts = f.broadcasts := by
  cases hstep with
  | push data excludeFd => exact absurd rfl (hpush data excludeFd)
  | _ => rfl

/-- Apart from Broadcast nothing new is under way. -/
theorem quiet (hnext : s.next kernel a = some t)
    (hpush : ∀ data excludeFd, a ≠ .broadcastPush data excludeFd) :
    t.broadcasts = s.broadcasts ∧ ∀ evt, Underway (flow t) evt → Underway (flow s) evt := by
  refine ⟨broadcasts_same (next_flow hnext) hpush, fun evt h => ?_⟩
  obtain hbefore | ⟨data, excludeFd, ha, -⟩ := underway_before (next_flow hnext) h
  · exact hbefore
  · exact absurd ha (hpush data excludeFd)

end Queues

/-- The message of a call of SendPreEncoded for the connection. -/
def directTo (id : ConnId) : Entry → Option ServerMessage
  | .append _ conn msg => if conn = id then some msg else none
  | _ => none

/-- What the handlers have sent to the connection, in the order of the calls. -/
def directs (log : List Entry) (id : ConnId) : List ServerMessage := log.filterMap (directTo id)

section Calls

variable {n : ℕ} {setup : Setup} {s t : System n} {a : ServerSystem.Action n} {id : ConnId}

/-- The message that a step broadcasts. -/
def announces (s : System n) : ServerSystem.Action n → List ServerMessage
  | .output =>
      match s.logic with
      | .sending _ (.broadcastProto msg :: _) => [msg]
      | _ => []
  | _ => []

theorem next_announces (hnext : s.next setup a = some t) :
    t.net.broadcasts = s.net.broadcasts + (announces s a).length ∧
      ∀ evt, Underway (flow t.net) evt → Underway (flow s.net) evt ∨
        ∃ msg, announces s a = [msg] ∧
          evt.payload = ⟨setup.encode msg, some s.net.broadcasts⟩ := by
  have hquiet : ∀ {b net}, s.net.next setup.kernel b = some net →
      (∀ data excludeFd, b ≠ .broadcastPush data excludeFd) → announces s a = [] →
      net.broadcasts = s.net.broadcasts + (announces s a).length ∧
        ∀ evt, Underway (flow net) evt → Underway (flow s.net) evt ∨
          ∃ msg, announces s a = [msg] ∧
            evt.payload = ⟨setup.encode msg, some s.net.broadcasts⟩ := by
    intro b net hnet hpush hnone
    obtain ⟨hcount, hbefore⟩ := quiet hnet hpush
    rw [hnone]
    exact ⟨hcount, fun evt h => Or.inl (hbefore evt h)⟩
  cases System.next_steps hnext with
  | @net b net hkind hnet =>
    refine hquiet hnet ?_ rfl
    intro data excludeFd hb
    subst hb
    simp [ServerSystem.ofPool, ServerSystem.ofReactor] at hkind
  | accept hidle hnet => exact hquiet hnet (by simp) rfl
  | register hstage hnet => exact hquiet hnet (by simp) rfl
  | close hidle hopen hnet => exact hquiet hnet (by simp) rfl
  | reactorErase hstage hnet => exact hquiet hnet (by simp) rfl
  | dropped hstage hclosed hnet => exact hquiet hnet (by simp) (by rw [announces, hstage])
  | append hstage hopen hnet => exact hquiet hnet (by simp) (by rw [announces, hstage])
  | @broadcast evt msg rest net hstage hnet =>
    have hannounces : announces s .output = [msg] := by rw [announces, hstage]
    rw [hannounces]
    constructor
    · cases hnet
      rfl
    · intro evt h
      obtain hbefore | ⟨data, excludeFd, ha, hevt⟩ := underway_before (next_flow hnet) h
      · exact Or.inl hbefore
      · cases ha
        exact Or.inr ⟨msg, rfl, hevt⟩
  | logicClose hstage hopen hnet => exact hquiet hnet (by simp) (by rw [announces, hstage])
  | notify hstage hnet => exact hquiet hnet (by simp) rfl
  | logicErase hstage hnet => exact hquiet hnet (by simp) rfl
  | endEvent hstage =>
    rw [announces, hstage]
    exact ⟨rfl, fun evt h => Or.inl h⟩
  | logicCloseAgain hstage hclosed =>
    rw [announces, hstage]
    exact ⟨rfl, fun evt h => Or.inl h⟩
  | _ => exact ⟨rfl, fun evt h => Or.inl h⟩

/-- What a step puts into the queue of a connection. -/
inductive Posts (setup : Setup) (s t : System n) (id : ConnId) : Prop
  | nothing (happended : appended t.net id = appended s.net id)
      (hlog : directs t.log id = directs s.log id)
  | turn (kept : List BroadcastEvent) (hkept : ∀ evt ∈ kept, Underway (flow s.net) evt)
      (happended : appended t.net id = appended s.net id ++ kept.map BroadcastEvent.payload)
      (hlog : directs t.log id = directs s.log id)
  | send (msg : ServerMessage)
      (happended : appended t.net id = appended s.net id ++ [⟨setup.encode msg, none⟩])
      (hlog : directs t.log id = directs s.log id ++ [msg])

theorem directs_record (log : List Entry) (e : Entry) (h : directTo id e = none) :
    directs (log ++ [e]) id = directs log id := by
  unfold directs
  rw [List.filterMap_append, List.filterMap_cons_none h, List.filterMap_nil, List.append_nil]

theorem next_posts (hnext : s.next setup a = some t) (id : ConnId) : Posts setup s t id := by
  have hsame : ∀ {b net}, s.net.next setup.kernel b = some net → (∀ w, b ≠ .turn w) →
      (∀ packet, b ≠ .connOp id (.sendPreEncoded packet)) →
      appended net id = appended s.net id := by
    intro b net hnet hturn hsend
    cases next_appends hnet id with
    | nothing h => exact h
    | turn ha hheld hopen more h => exact absurd ha (hturn _)
    | send ha hopen h => exact absurd ha (hsend _)
  cases System.next_steps hnext with
  | @net b net hkind hnet =>
    cases next_appends hnet id with
    | nothing h => exact .nothing h rfl
    | turn ha hheld hopen more h =>
      subst ha
      obtain ⟨kept, hkept, happended⟩ := appended_turn hnet id
      exact .turn kept hkept happended rfl
    | send ha hopen h =>
      subst ha
      simp [ServerSystem.ofPool, ServerSystem.ofReactor] at hkind
  | accept hidle hnet => exact .nothing (hsame hnet (by simp) (by simp)) rfl
  | register hstage hnet => exact .nothing (hsame hnet (by simp) (by simp)) rfl
  | close hidle hopen hnet =>
    exact .nothing (hsame hnet (by simp) (by simp)) (directs_record _ _ rfl)
  | reactorErase hstage hnet => exact .nothing (hsame hnet (by simp) (by simp)) rfl
  | broadcast hstage hnet => exact .nothing (hsame hnet (by simp) (by simp)) rfl
  | logicClose hstage hopen hnet =>
    exact .nothing (hsame hnet (by simp) (by simp)) (directs_record _ _ rfl)
  | notify hstage hnet => exact .nothing (hsame hnet (by simp) (by simp)) rfl
  | logicErase hstage hnet => exact .nothing (hsame hnet (by simp) (by simp)) rfl
  | @dropped evt conn msg rest net hstage hclosed hnet =>
    cases next_appends hnet id with
    | nothing h => exact .nothing h rfl
    | turn ha hheld hopen more h => cases ha
    | send ha hopen h =>
      cases ha
      rw [isClosed_of_flag hopen] at hclosed
      cases hclosed
  | @append evt conn msg rest net hstage hopen hnet =>
    by_cases hc : conn = id
    · subst hc
      refine .send msg (appended_sent hopen hnet) ?_
      have hentry : directTo conn (.append evt conn msg) = some msg := if_pos rfl
      show directs (s.log ++ [_]) conn = _
      unfold directs
      rw [List.filterMap_append, List.filterMap_cons_some hentry, List.filterMap_nil]
    · refine .nothing (hsame hnet (by simp) ?_) (directs_record _ _ (if_neg hc))
      intro packet hb
      cases hb
      exact hc rfl
  | pushConnect hstage => exact .nothing rfl (directs_record _ _ rfl)
  | message payload hidle hknown => exact .nothing rfl (directs_record _ _ rfl)
  | reactorPush hstage => exact .nothing rfl (directs_record _ _ rfl)
  | discard hstage hclosed htype => exact .nothing rfl (directs_record _ _ rfl)
  | pass hstage hpass => exact .nothing rfl (directs_record _ _ rfl)
  | call hstage hclock => exact .nothing rfl (directs_record _ _ rfl)
  | logicPush hstage => exact .nothing rfl (directs_record _ _ rfl)
  | _ => exact .nothing rfl rfl

end Calls

/-- A message in the queue of a connection, and which call of Broadcast it is from, if any. -/
structure Letter where
  msg : ServerMessage
  origin : Option ℕ

def Letter.packet (letter : Letter) : SharedPayload :=
  ⟨encode ChatProto.serializeServer letter.msg, letter.origin⟩

/-- The buffer of a client, with the bytes it has read off the socket and the messages that
came of them. -/
structure Receiver where
  buf : RingBuffer
  read : Bytes
  received : List ServerMessage

namespace Receiver

def new : Receiver := ⟨.new inBufSize, [], []⟩

/-- The space that readv is offered. -/
def space (c : Receiver) : ℕ := ((makeRoom c.buf).getWriteableIovecs.map Iovec.iovLen).sum

/-- A turn of receive_loop in which readv returns the chunk. -/
def turn (c : Receiver) (chunk : Bytes) : Receiver :=
  let (messages, decoded) := readTurn ChatProto.parseServer (makeRoom c.buf) chunk
  ⟨decoded, c.read ++ chunk, c.received ++ messages⟩

/-- A packet that is read past the buffer. -/
def take (c : Receiver) (packet : Bytes) (msg : ServerMessage) : Receiver :=
  { c with read := c.read ++ packet, received := c.received ++ [msg] }

end Receiver

section Clients

open ChatProto

variable {c : Receiver} {ms : List ServerMessage} {chunk : Bytes}

/-- Each message fits the buffer of a client as a packet. -/
def Fits (ms : List ServerMessage) : Prop :=
  ∀ m ∈ ms, (frame (serializeServer m)).length ≤ inBufSize

theorem Fits.maxPayload (h : Fits ms) : ∀ m ∈ ms, (serializeServer m).length ≤ maxPayload := by
  intro m hm
  have hle := h m hm
  rw [frame_length] at hle
  unfold inBufSize at hle
  unfold PacketCodec.maxPayload
  omega

/-- In a stream of messages the client has received those that it has read whole, and its
buffer holds the beginning of the next. -/
structure Tidy (c : Receiver) (ms : List ServerMessage) : Prop where
  good : Good c.buf
  split : c.read = frames (c.received.map serializeServer) ++ c.buf.contents
  waits : decodeBytes c.buf.contents = (none, c.buf.contents)
  received : c.received <+: ms
  read : c.read <+: frames (ms.map serializeServer)

namespace Tidy

theorem new (ms : List ServerMessage) : Tidy .new ms where
  good := new_good
  split := (RingBuffer.new_contents inBufSize).symm
  waits := by
    show decodeBytes (RingBuffer.new inBufSize).contents = _
    rw [RingBuffer.new_contents]
    rfl
  received := List.nil_prefix
  read := List.nil_prefix

/-- The stream goes on. -/
theorem extend (h : Tidy c ms) (more : List ServerMessage) : Tidy c (ms ++ more) where
  good := h.good
  split := h.split
  waits := h.waits
  received := h.received.trans (List.prefix_append _ _)
  read := by
    rw [List.map_append, frames_append]
    exact h.read.trans (List.prefix_append _ _)

theorem turn (h : Tidy c ms) (hfits : Fits ms) (hle : chunk.length ≤ c.space)
    (hcomes : c.read ++ chunk <+: frames (ms.map serializeServer)) : Tidy (c.turn chunk) ms := by
  obtain ⟨todo, htodo⟩ := h.received
  have hstream : c.buf.contents ++ chunk <+: frames (todo.map serializeServer) := by
    rw [h.split, ← htodo, List.map_append, frames_append, List.append_assoc] at hcomes
    exact (List.prefix_append_right_inj _).mp hcomes
  have hfits' : Fits todo := fun m hm => hfits m (htodo ▸ List.mem_append_right _ hm)
  have hlt := length_lt_of_fits hfits'.maxPayload hfits' h.waits
    ((List.prefix_append _ _).trans hstream)
  have hroom := makeRoom_of_lt h.good hlt
  rw [Receiver.space, hroom, h.good.freeSpace] at hle
  have hfit : c.buf.contents.length + chunk.length ≤ inBufSize := by omega
  obtain ⟨done, rest, hdone, hmessages, hsplit, hwaits⟩ := turn_delivers h.good hfit
    (fun m _ => parse_serializeServer m) hfits'.maxPayload hstream
  have hturn : c.turn chunk = ⟨(readTurn parseServer c.buf chunk).2, c.read ++ chunk,
      c.received ++ done⟩ := by
    unfold Receiver.turn
    rw [hroom, ← hmessages]
  rw [hturn]
  refine ⟨(h.good.readTurn parseServer hfit).2, ?_, hwaits, ?_, hcomes⟩
  · show c.read ++ chunk = _
    rw [h.split, List.append_assoc, hsplit, List.map_append, frames_append, List.append_assoc]
  · rw [← htodo, hdone]
    exact ⟨rest, List.append_assoc _ _ _⟩

theorem nothing_read (h : Tidy c ms) (hread : c.read = []) :
    c.received = [] ∧ c.buf.contents = [] := by
  obtain ⟨hreceived, hcontents⟩ := List.append_eq_nil_iff.mp (h.split.symm.trans hread)
  refine ⟨?_, hcontents⟩
  cases hms : c.received with
  | nil => rfl
  | cons m rest =>
    have hlength := congrArg List.length hreceived
    rw [hms, List.map_cons, frames_cons, List.length_append, frame_length, List.length_nil]
      at hlength
    omega

/-- The first packet is read past the buffer. -/
theorem take {m : ServerMessage} (h : Tidy c (m :: ms)) (hread : c.read = []) :
    Tidy (c.take (frame (serializeServer m)) m) (m :: ms) := by
  obtain ⟨hreceived, hcontents⟩ := h.nothing_read hread
  refine ⟨h.good, ?_, h.waits, ?_, ?_⟩
  · show c.read ++ _ = frames ((c.received ++ [m]).map serializeServer) ++ c.buf.contents
    rw [hread, hreceived, hcontents]
    simp [frames_cons]
  · show c.received ++ [m] <+: _
    rw [hreceived]
    exact List.prefix_append [m] ms
  · show c.read ++ _ <+: _
    rw [hread, List.nil_append, List.map_cons, frames_cons]
    exact List.prefix_append _ _

/-- When everything is read, everything is received. -/
theorem all (h : Tidy c ms) (hfits : Fits ms) (hread : c.read = frames (ms.map serializeServer)) :
    c.received = ms ∧ c.buf.contents = [] := by
  obtain ⟨todo, htodo⟩ := h.received
  have hleft : c.buf.contents = frames (todo.map serializeServer) := by
    rw [h.split, ← htodo, List.map_append, frames_append] at hread
    exact List.append_cancel_left hread
  cases todo with
  | nil => exact ⟨by rw [← htodo, List.append_nil], hleft⟩
  | cons m rest =>
    have hm : m ∈ ms := by
      rw [← htodo]
      exact List.mem_append_right _ List.mem_cons_self
    have hwaits := h.waits
    rw [hleft, List.map_cons, frames_cons, decodeBytes_frame_append (hfits.maxPayload m hm)]
      at hwaits
    cases hwaits

end Tidy

end Clients

/-- The setup with the serializer of the server. -/
def chatSetup (kernel : ConnId → Kernel) (parse : Parser) : Setup :=
  ⟨kernel, parse, encode ChatProto.serializeServer⟩

section Posting

variable {n : ℕ} {kernel : ConnId → Kernel} {parse : Parser} {s t : System n}
  {a : ServerSystem.Action n} {id : ConnId} {announced : List ServerMessage}
  {letters : List Letter}

theorem packets_bytes (letters : List Letter) :
    (letters.map Letter.packet).flatMap SharedPayload.bytes =
      frames ((letters.map Letter.msg).map ChatProto.serializeServer) := by
  rw [← flatMap_encode, List.flatMap_map, List.flatMap_map]
  rfl

/-- The letters are what is in the queue of the connection: the calls of the handlers for
it, in order, and among them messages that were broadcast. -/
structure Posted (s : System n) (announced : List ServerMessage) (id : ConnId)
    (letters : List Letter) : Prop where
  appended : appended s.net id = letters.map Letter.packet
  directs : (letters.filter (·.origin = none)).map Letter.msg = directs s.log id
  announced : ∀ letter ∈ letters, ∀ k, letter.origin = some k → announced[k]? = some letter.msg

theorem Posted.fits (h : Posted s announced id letters)
    (hfits : ∀ packet ∈ AppendedPackets.appended s.net id, packet.bytes.length ≤ inBufSize) :
    Fits (letters.map Letter.msg) := by
  intro m hm
  obtain ⟨letter, hletter, rfl⟩ := List.mem_map.mp hm
  refine hfits letter.packet ?_
  rw [h.appended]
  exact List.mem_map_of_mem hletter

/-- A broadcast that is under way is one of those that were announced. -/
structure Announced (s : System n) (announced : List ServerMessage) : Prop where
  count : s.net.broadcasts = announced.length
  underway : ∀ evt, Underway (flow s.net) evt → ∃ msg k,
    evt.payload = Letter.packet ⟨msg, some k⟩ ∧ announced[k]? = some msg

theorem getElem?_later {α : Type*} {l : List α} {k : ℕ} {x : α} (h : l[k]? = some x)
    (more : List α) : (l ++ more)[k]? = some x := by
  rw [List.getElem?_append_left (List.getElem?_eq_some_iff.mp h).1]
  exact h

theorem letters_of_events {announced : List ServerMessage} {kept : List BroadcastEvent}
    (h : ∀ evt ∈ kept, ∃ msg k, evt.payload = Letter.packet ⟨msg, some k⟩ ∧
      announced[k]? = some msg) :
    ∃ more : List Letter, kept.map BroadcastEvent.payload = more.map Letter.packet ∧
      ∀ letter ∈ more, ∃ k, letter.origin = some k ∧ announced[k]? = some letter.msg := by
  induction kept with
  | nil => exact ⟨[], rfl, fun _ hletter => absurd hletter List.not_mem_nil⟩
  | cons evt rest ih =>
    obtain ⟨msg, k, hevt, hk⟩ := h evt List.mem_cons_self
    obtain ⟨more, hmore, hall⟩ := ih fun other hother => h other (List.mem_cons_of_mem _ hother)
    refine ⟨⟨msg, some k⟩ :: more, ?_, ?_⟩
    · rw [List.map_cons, List.map_cons, hevt, hmore]
    · intro letter hletter
      obtain rfl | hlater := List.mem_cons.mp hletter
      · exact ⟨k, rfl, hk⟩
      · exact hall letter hlater

theorem Announced.init : Announced (System.init : System n) [] := by
  refine ⟨rfl, ?_⟩
  rintro evt (hevt | ⟨task, htask, -⟩)
  · cases hevt
  · obtain hline | ⟨w, hheld⟩ := htask
    · cases hline
    · cases hheld

theorem Announced.step (h : Announced s announced)
    (hnext : s.next (chatSetup kernel parse) a = some t) :
    Announced t (announced ++ announces s a) := by
  obtain ⟨hcount, hunderway⟩ := next_announces hnext
  constructor
  · rw [hcount, h.count, List.length_append]
  · intro evt hevt
    obtain hbefore | ⟨msg, hmsg, hpayload⟩ := hunderway evt hevt
    · obtain ⟨msg, k, hpayload, hk⟩ := h.underway evt hbefore
      exact ⟨msg, k, hpayload, getElem?_later hk _⟩
    · refine ⟨msg, announced.length, ?_, ?_⟩
      · rw [hpayload, h.count]
        rfl
      · show (announced ++ announces s a)[announced.length]? = some msg
        rw [hmsg, List.getElem?_concat_length]

/-- A step of the server puts letters at the end of the queue. -/
theorem Posted.step (h : Posted s announced id letters) (hannounced : Announced s announced)
    (hnext : s.next (chatSetup kernel parse) a = some t) :
    ∃ more, Posted t (announced ++ announces s a) id (letters ++ more) := by
  have hold : ∀ letter ∈ letters, ∀ k, letter.origin = some k →
      (announced ++ announces s a)[k]? = some letter.msg :=
    fun letter hletter k hk => getElem?_later (h.announced letter hletter k hk) _
  cases next_posts hnext id with
  | nothing happended hlog =>
    refine ⟨[], ?_, ?_, ?_⟩
    · rw [List.append_nil]
      exact happended.trans h.appended
    · rw [List.append_nil]
      exact h.directs.trans hlog.symm
    · rw [List.append_nil]
      exact hold
  | turn kept hkept happended hlog =>
    obtain ⟨more, hmore, hall⟩ :=
      letters_of_events fun evt hevt => hannounced.underway evt (hkept evt hevt)
    refine ⟨more, ?_, ?_, ?_⟩
    · rw [List.map_append, ← h.appended, ← hmore]
      exact happended
    · have hnone : more.filter (·.origin = none) = [] := by
        rw [List.filter_eq_nil_iff]
        intro letter hletter
        obtain ⟨k, hk, -⟩ := hall letter hletter
        rw [hk, decide_eq_true_eq]
        exact Option.some_ne_none k
      rw [List.filter_append, hnone, List.append_nil]
      exact h.directs.trans hlog.symm
    · intro letter hletter k hk
      obtain hbefore | hnew := List.mem_append.mp hletter
      · exact hold letter hbefore k hk
      · obtain ⟨j, hj, hmsg⟩ := hall letter hnew
        cases hj.symm.trans hk
        exact getElem?_later hmsg _
  | send msg happended hlog =>
    refine ⟨[⟨msg, none⟩], ?_, ?_, ?_⟩
    · rw [List.map_append, ← h.appended]
      exact happended
    · rw [List.filter_append, List.map_append, h.directs]
      exact hlog.symm
    · intro letter hletter k hk
      obtain hbefore | hnew := List.mem_append.mp hletter
      · exact hold letter hbefore k hk
      · obtain rfl := List.mem_singleton.mp hnew
        cases hk

end Posting

end ChatServer.Downlink
