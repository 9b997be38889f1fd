import ChatServer.ChatProto
import ChatServer.ClientInput
import ChatServer.LogicThread
import ChatServer.RateLimit
import ChatServer.Recipients

/-!
A client and the server agree on its current room. The client changes its own
copy when it sends a JoinRoomRequest and does not wait for the server, so the
two differ while messages are on their way. But the server handles them in the
order in which they were sent, so after each of them its room is the one that
the client had after sending it, and a text finds the session in the room it was
written for. The other connections may do anything.
-/
namespace ChatServer.RoomAgreement

open LogicThread ClientInput Recipients Lib.Runs

/-- The generated code for the client's messages. -/
structure Codec where
  parse : Parser
  serialize : ClientMessage → Bytes
  undoes : ∀ msg, parse (serialize msg) = some msg

/-- Where the client is in its main function. -/
inductive Stage
  | connected
  /-- In login, waiting for the reply. -/
  | awaiting
  /-- In input_loop. -/
  | typing
deriving DecidableEq

structure System where
  world : World
  stage : Stage
  /-- What input_loop has read. -/
  keys : List Char
  /-- The packets of the client that the reactor has read. -/
  delivered : ℕ
  /-- Those of them that the logic thread has taken. -/
  taken : ℕ
  /-- The server has sent the client a LoginResponse with success. -/
  welcomed : Bool

inductive Action
  | login
  | welcome
  | key (k : Char)
  | deliver
  | world (a : LogicThread.Action)

/-- A message of the client at the head of the event queue. -/
def takes (me : ConnId) (w : World) : Bool :=
  match w.eventQueue with
  | evt :: _ => evt.type = .message && evt.conn = me
  | [] => false

/-- The reply for which login waits. -/
def isWelcome (me : ConnId) : Output → Bool
  | .sendProto conn (.loginResponse resp) => conn = me && resp.success
  | _ => false

/-- The processing of the next event sends the reply. -/
def welcomes (parse : Parser) (me : ConnId) (w : World) (env : Env) : Bool :=
  match w.eventQueue with
  | evt :: _ => (w.app.processEvent parse env (w.closed evt.conn) evt).2.any (isWelcome me)
  | [] => false

namespace System

def init : System := ⟨World.init, .connected, [], 0, 0, false⟩

/-- The messages that the client has sent. -/
def sent (name : String) (s : System) : List ClientMessage :=
  match s.stage with
  | .connected => []
  | _ => .login ⟨name⟩ :: (typing s.keys).2

def next (codec : Codec) (me : ConnId) (name : String) (s : System) : Action → Option System
  | .login => if s.stage = .connected ∧ name ≠ "" then some { s with stage := .awaiting } else none
  | .welcome =>
      if s.stage = .awaiting ∧ s.welcomed = true then some { s with stage := .typing } else none
  | .key k => if s.stage = .typing then some { s with keys := s.keys ++ [k] } else none
  | .deliver =>
      match (s.sent name)[s.delivered]? with
      | some msg =>
          (s.world.next codec.parse (.message me (codec.serialize msg))).map fun w =>
            { s with world := w, delivered := s.delivered + 1 }
      | none => none
  | .world (.message conn payload) =>
      if conn = me then none
      else (s.world.next codec.parse (.message conn payload)).map fun w => { s with world := w }
  | .world (.process env) =>
      (s.world.next codec.parse (.process env)).map fun w =>
        { s with
          world := w
          taken := if takes me s.world then s.taken + 1 else s.taken
          welcomed := s.welcomed || welcomes codec.parse me s.world env }
  | .world a => (s.world.next codec.parse a).map fun w => { s with world := w }

end System

/-- A client on its connection, which logs in under the name, and the server. -/
def machine (codec : Codec) (me : ConnId) (name : String) : Machine System Action :=
  ⟨System.init, System.next codec me name⟩

section Queue

variable {parse : Parser} {me : ConnId} {w w' : World} {a : LogicThread.Action}

/-- The messages of the client that wait in the event queue. -/
def waiting (me : ConnId) (w : World) : List NetworkEvent :=
  w.eventQueue.filter fun evt => evt.type = .message && evt.conn = me

theorem waiting_push (type : EventType) (conn : ConnId) (payload : Option Bytes) :
    waiting me (w.push type conn payload) =
      waiting me w ++ if type = .message ∧ conn = me then [⟨type, conn, payload⟩] else [] := by
  simp only [waiting, World.push, List.filter_append, List.filter_singleton, cond_eq_ite,
    Bool.and_eq_true, decide_eq_true_eq]

theorem waiting_deliver {payload : Bytes} (h : w.next parse (.message me payload) = some w') :
    waiting me w' = waiting me w ++ [⟨.message, me, some payload⟩] := by
  simp only [World.next, Option.ite_none_right_eq_some, Option.some.injEq] at h
  obtain ⟨_, rfl⟩ := h
  rw [waiting_push, if_pos ⟨rfl, rfl⟩]

/-- The steps that neither process an event nor bring a message of the client. -/
theorem waiting_other (h : w.next parse a = some w') (hprocess : ∀ env, a ≠ .process env)
    (hmessage : ∀ payload, a ≠ .message me payload) : waiting me w' = waiting me w := by
  cases World.next_moves h with
  | accept _ =>
    rw [waiting_push, if_neg (by simp), List.append_nil]
    rfl
  | @message conn payload _ =>
    have hconn : conn ≠ me := by
      rintro rfl
      exact hmessage payload rfl
    rw [waiting_push, if_neg (fun heq => hconn heq.2), List.append_nil]
  | closedBefore | reactorClose => rfl
  | reactorPush | logicPush =>
    rw [waiting_push, if_neg (by simp), List.append_nil]
    rfl
  | process _ _ => exact absurd rfl (hprocess _)

/-- A closed connection stays closed. -/
theorem closed_stays (h : w.next parse a = some w') (hclosed : w.closed me = true) :
    w'.closed me = true := by
  have hset : ∀ conn, Function.update w.closed conn true me = true := by
    intro conn
    rw [Function.update_apply]
    split
    · rfl
    · exact hclosed
  cases World.next_moves h with
  | reactorClose _ _ => exact hset _
  | @process env evt rest _ _ =>
    obtain ⟨_, _, _, _, _, ⟨hsame, _⟩ | ⟨conn, _, hupdate, _⟩⟩ :=
      World.afterEvent_spec parse w env evt rest
    · rw [hsame]
      exact hclosed
    · rw [hupdate]
      exact hset conn
  | accept | message | closedBefore | reactorPush | logicPush => exact hclosed

end Queue

section Handlers

variable {codec : Codec} {app : ChatApp} {env : Env} {me : ConnId} {welcomed : Bool}
  {handled frames : List ClientMessage} {s : ChatSession} {m : ClientMessage} {name : String}

/-- The session after the messages of its client were handled. Before the
login it is in no room. -/
def Placed (me : ConnId) (app : ChatApp) (welcomed : Bool) (handled : List ClientMessage) : Prop :=
  if welcomed then
    handled ≠ [] ∧ ∃ session, app.userData me = some session ∧ session.isLoggedIn = true ∧
      session.currentRoom = handled.foldl roomAfter ""
  else ∀ session, app.userData me = some session → session.isLoggedIn = false

theorem dispatch_follows (env : Env) (hs : app.userData me = some s) (hin : s.isLoggedIn = true)
    (hsent : SentFrom s.currentRoom m) :
    ∃ s', (app.dispatch env me s m).1.userData me = some s' ∧ s'.isLoggedIn = true ∧
      s'.currentRoom = roomAfter s.currentRoom m := by
  cases hsent with
  | globalChat req => exact ⟨s, hs, hin, rfl⟩
  | privateChat req => exact ⟨s, hs, hin, rfl⟩
  | joinRoom req =>
    refine ⟨s.enter req.roomName hin, ?_, hin, rfl⟩
    simp only [ChatApp.dispatch, ChatApp.handleJoinRoom, dif_pos hin]
    rw [ChatApp.enterRoom_userData, ChatApp.setSession_userData_self]
  | roomChat req hroom hinside =>
    refine ⟨s, ?_, hin, rfl⟩
    simp only [ChatApp.dispatch, ChatApp.handleRoomChat]
    split
    · exact hs
    · split
      · exact hs
      · exact hs

/-- A LoginRequest is answered with success and the session is logged in, or it
is answered without and nothing changes. -/
theorem login_placed (hs : app.userData me = some s) (hout : s.isLoggedIn = false)
    (req : LoginRequest) :
    Placed me (app.handleLogin me s req).1 ((app.handleLogin me s req).2.any (isWelcome me))
      [.login req] := by
  unfold ChatApp.handleLogin
  dsimp only
  split
  · rename_i hfree
    have hwelcome : [Output.sendProto me (.loginResponse ⟨true, "Login successful."⟩)].any
        (isWelcome me) = true := by
      simp [isWelcome]
    rw [hwelcome, Placed, if_pos rfl]
    exact ⟨by simp, _, ChatApp.setSession_userData_self, rfl, s.roomless hout⟩
  · have hwelcome : [Output.sendProto me (.loginResponse
        ⟨false, "Invalid username or already taken."⟩)].any (isWelcome me) = false := by
      simp [isWelcome]
    rw [hwelcome, Placed, if_neg Bool.false_ne_true]
    intro session hsession
    cases hs.symm.trans hsession
    exact hout

/-- A message that does not lead to the end of the connection gets to its handler. -/
theorem handleMessage_dispatch (hs : app.userData me = some s)
    (hopen : .close me ∉ (app.handleMessage codec.parse env me (codec.serialize m)).2) :
    app.handleMessage codec.parse env me (codec.serialize m) =
      (app.setSession me (s.refill env.now).charge).dispatch env me
        (s.refill env.now).charge m := by
  unfold ChatApp.handleMessage at hopen ⊢
  rw [hs, codec.undoes] at hopen ⊢
  dsimp only at hopen ⊢
  split at hopen
  · simp at hopen
  · rename_i hpaid
    rw [if_neg hpaid]

/-- The next message of the client is handled. -/
theorem handleMessage_placed (hplaced : Placed me app welcomed handled)
    (hsent : handled ++ [m] <+: .login ⟨name⟩ :: frames) (hearly : welcomed = false → frames = [])
    (hframes : ∀ before m, before ++ [m] <+: frames → SentFrom (before.foldl roomAfter "") m)
    (hopen : .close me ∉ (app.handleMessage codec.parse env me (codec.serialize m)).2) :
    Placed me (app.handleMessage codec.parse env me (codec.serialize m)).1
      (welcomed ||
        (app.handleMessage codec.parse env me (codec.serialize m)).2.any (isWelcome me))
      (handled ++ [m]) := by
  cases handled with
  | nil =>
    have hwelcomed : welcomed = false := by
      cases welcomed with
      | false => rfl
      | true => exact absurd rfl hplaced.1
    subst hwelcomed
    obtain ⟨rfl, _⟩ := List.cons_prefix_cons.mp hsent
    cases hs : app.userData me with
    | none =>
      have hnothing : app.handleMessage codec.parse env me (codec.serialize (.login ⟨name⟩)) =
          (app, []) := by
        unfold ChatApp.handleMessage
        rw [hs]
      rw [hnothing]
      exact hplaced
    | some session =>
      have hout : (session.refill env.now).charge.isLoggedIn = false := hplaced session hs
      rw [handleMessage_dispatch hs hopen, Bool.false_or]
      exact login_placed ChatApp.setSession_userData_self hout ⟨name⟩
  | cons first before =>
    obtain ⟨rfl, hnext⟩ := List.cons_prefix_cons.mp hsent
    have hwelcomed : welcomed = true := by
      cases welcomed with
      | true => rfl
      | false =>
        rw [hearly rfl] at hnext
        exact absurd (List.prefix_nil.mp hnext) (by simp)
    subst hwelcomed
    obtain ⟨_, session, hs, hin, hroom⟩ := hplaced
    rw [handleMessage_dispatch hs hopen, Bool.true_or]
    have hcharged : (session.refill env.now).charge.isLoggedIn = true := hin
    have hroom' : (session.refill env.now).charge.currentRoom = before.foldl roomAfter "" := hroom
    have hfrom := hframes before m hnext
    rw [← hroom'] at hfrom
    obtain ⟨s', hs', hin', hroom'⟩ :=
      dispatch_follows env ChatApp.setSession_userData_self hcharged hfrom
    refine ⟨by simp, s', hs', hin', ?_⟩
    rw [List.foldl_append, ← hroom]
    exact hroom'

end Handlers

/-- The first of the elements between two positions. -/
theorem take_drop_cons {α : Type*} {l rest : List α} {m : α} {t d : ℕ}
    (h : (l.take d).drop t = m :: rest) :
    t < d ∧ l.take (t + 1) = l.take t ++ [m] ∧ (l.take d).drop (t + 1) = rest := by
  have hlt : t < (l.take d).length := by
    have hlen := congrArg List.length h
    rw [List.length_drop, List.length_cons] at hlen
    omega
  rw [List.drop_eq_getElem_cons hlt] at h
  obtain ⟨rfl, rfl⟩ := List.cons.inj h
  rw [List.length_take] at hlt
  rw [List.getElem_take]
  exact ⟨by omega, List.take_succ_eq_append_getElem (by omega), rfl⟩

/-- A message of the client as an event. -/
def request (codec : Codec) (me : ConnId) (msg : ClientMessage) : NetworkEvent :=
  ⟨.message, me, some (codec.serialize msg)⟩

/-- What holds in every run. The event queue has the messages that were read
from the connection and not taken yet. -/
structure Good (codec : Codec) (me : ConnId) (name : String) (s : System) : Prop where
  orderly : Orderly s.world
  logged : s.stage = .typing → s.welcomed = true
  early : s.stage ≠ .typing → s.keys = []
  taken_le : s.taken ≤ s.delivered
  delivered_le : s.delivered ≤ (s.sent name).length
  queue : waiting me s.world =
    (((s.sent name).take s.delivered).drop s.taken).map (request codec me)
  placed : s.world.closed me = false →
    Placed me s.world.app s.welcomed ((s.sent name).take s.taken)

namespace Good

variable {codec : Codec} {me : ConnId} {name : String} {s : System} {w : World}

theorem init : Good codec me name System.init :=
  ⟨Orderly.init, by simp [System.init], fun _ => rfl, le_refl _, le_refl _, rfl,
    fun _ _ hsession => by cases hsession⟩

/-- The client goes on, and may send something. -/
theorem send (h : Good codec me name s) {stage : Stage} {keys : List Char}
    (more : List ClientMessage)
    (hsent : ({ s with stage := stage, keys := keys } : System).sent name = s.sent name ++ more)
    (hlogged : stage = .typing → s.welcomed = true) (hearly : stage ≠ .typing → keys = []) :
    Good codec me name { s with stage := stage, keys := keys } := by
  have htaken := h.taken_le.trans h.delivered_le
  refine ⟨h.orderly, hlogged, hearly, h.taken_le, ?_, ?_, ?_⟩
  · rw [hsent, List.length_append]
    have := h.delivered_le
    show s.delivered ≤ _
    omega
  · rw [hsent]
    show waiting me s.world = _
    rw [h.queue, List.take_append_of_le_length h.delivered_le]
  · intro hopen
    rw [hsent]
    show Placed me s.world.app s.welcomed ((s.sent name ++ more).take s.taken)
    rw [List.take_append_of_le_length htaken]
    exact h.placed hopen

theorem open_before {a : LogicThread.Action} (hnext : s.world.next codec.parse a = some w)
    (hopen : w.closed me = false) : s.world.closed me = false := by
  cases hclosed : s.world.closed me with
  | false => rfl
  | true => exact absurd ((closed_stays hnext hclosed).symm.trans hopen) (by simp)

theorem app_before {a : LogicThread.Action} (hnext : s.world.next codec.parse a = some w)
    (hprocess : ∀ env, a ≠ .process env) : w.app = s.world.app := by
  rcases World.next_app hnext with happ | ⟨env, _, _, ha, _⟩
  · exact happ
  · exact absurd ha (hprocess env)

/-- The reactor and the other connections do something. -/
theorem others (h : Good codec me name s) {a : LogicThread.Action}
    (hnext : s.world.next codec.parse a = some w) (hprocess : ∀ env, a ≠ .process env)
    (hmessage : ∀ payload, a ≠ .message me payload) :
    Good codec me name { s with world := w } := by
  refine ⟨h.orderly.next hnext, h.logged, h.early, h.taken_le, h.delivered_le, ?_, ?_⟩
  · show waiting me w = _
    rw [waiting_other hnext hprocess hmessage]
    exact h.queue
  · intro hopen
    show Placed me w.app _ _
    rw [app_before hnext hprocess]
    exact h.placed (open_before hnext hopen)

/-- The reactor reads the next packet of the client. -/
theorem deliver (h : Good codec me name s) {msg : ClientMessage}
    (hmsg : (s.sent name)[s.delivered]? = some msg)
    (hnext : s.world.next codec.parse (.message me (codec.serialize msg)) = some w) :
    Good codec me name { s with world := w, delivered := s.delivered + 1 } := by
  obtain ⟨hlt, rfl⟩ := List.getElem?_eq_some_iff.mp hmsg
  have htaken := h.taken_le
  refine ⟨h.orderly.next hnext, h.logged, h.early, Nat.le_succ_of_le htaken, hlt, ?_, ?_⟩
  · show waiting me w = (((s.sent name).take (s.delivered + 1)).drop s.taken).map _
    have hlen : s.taken ≤ ((s.sent name).take s.delivered).length := by
      rw [List.length_take]
      omega
    rw [waiting_deliver hnext, h.queue, List.take_succ_eq_append_getElem hlt,
      List.drop_append_of_le_length hlen, List.map_append]
    rfl
  · intro hopen
    show Placed me w.app _ _
    rw [app_before hnext (by simp)]
    exact h.placed (open_before hnext hopen)

/-- The input loop sends nothing before the reply to the login. -/
theorem no_frames (h : Good codec me name s) (hwelcomed : s.welcomed = false) :
    (typing s.keys).2 = [] := by
  have hstage : s.stage ≠ .typing := by
    intro hstage
    rw [h.logged hstage] at hwelcomed
    cases hwelcomed
  rw [h.early hstage]
  rfl

theorem sent_le (name : String) (s : System) :
    s.sent name <+: .login ⟨name⟩ :: (typing s.keys).2 := by
  unfold System.sent
  split
  · exact List.nil_prefix
  · exact List.prefix_refl _

/-- The event at the head of the queue is the first message that is waiting. -/
theorem head (h : Good codec me name s) {evt : NetworkEvent} {rest : List NetworkEvent}
    (hqueue : s.world.eventQueue = evt :: rest) (hmine : evt.type = .message ∧ evt.conn = me) :
    ∃ m, evt = request codec me m ∧ s.taken < s.delivered ∧
      (s.sent name).take (s.taken + 1) = (s.sent name).take s.taken ++ [m] ∧
      (rest.filter fun evt => evt.type = .message && evt.conn = me) =
        (((s.sent name).take s.delivered).drop (s.taken + 1)).map (request codec me) := by
  have hwaiting := h.queue
  rw [waiting, hqueue, List.filter_cons_of_pos (by simp [hmine])] at hwaiting
  obtain ⟨m, left, hdrop, hevt, hleft⟩ := List.map_eq_cons_iff.mp hwaiting.symm
  obtain ⟨hlt, htake, hrest⟩ := take_drop_cons hdrop
  exact ⟨m, hevt.symm, hlt, htake, by rw [hrest, hleft]⟩

/-- The rate limiter closes the connection of the message that it refuses. -/
theorem closed_by_limit {parse : Parser} {env : Env} {rawData : Bytes}
    (rest : List NetworkEvent) (hopen : w.closed me = false)
    (hclose : .close me ∈ (w.app.handleMessage parse env me rawData).2) :
    (w.afterEvent parse env ⟨.message, me, some rawData⟩ rest).closed me = true := by
  have houtputs : (w.app.processEvent parse env (w.closed me) ⟨.message, me, some rawData⟩).2 =
      RateLimit.refusal me := by
    rw [hopen]
    exact RateLimit.close_iff_refused.mp hclose
  have hrequest : closeRequest (RateLimit.refusal me) = some me := rfl
  unfold World.afterEvent
  dsimp only
  rw [houtputs, hrequest]
  simp [hopen]

/-- An event that is no message of the client leaves its session as it is, or
is the CONNECT event that creates it. -/
theorem placed_other (h : Good codec me name s) {env : Env} {evt : NetworkEvent}
    {rest : List NetworkEvent} (hqueue : s.world.eventQueue = evt :: rest)
    (hother : ¬ (evt.type = .message ∧ evt.conn = me)) (hopen : s.world.closed me = false) :
    Placed me (s.world.app.processEvent codec.parse env (s.world.closed evt.conn) evt).1
      s.welcomed ((s.sent name).take s.taken) := by
  have hplaced := h.placed hopen
  by_cases hconn : evt.conn = me
  · subst hconn
    obtain ⟨type, conn, payload⟩ := evt
    cases type with
    | connect =>
      have hnone : s.world.app.userData conn = none := by
        apply h.orderly.fresh conn
        left
        rw [World.pending, hqueue, List.countP_cons_of_pos (by simp)]
        exact Nat.succ_pos _
      have hconnect : s.world.app.processEvent codec.parse env (s.world.closed conn)
          ⟨.connect, conn, payload⟩ = (s.world.app.handleConnect env conn, []) := by
        rw [hopen]
        rfl
      rw [hconnect]
      cases hwelcomed : s.welcomed with
      | true =>
        rw [hwelcomed] at hplaced
        obtain ⟨_, session, hsession, _⟩ := hplaced
        cases hnone.symm.trans hsession
      | false =>
        intro session hsession
        cases ChatApp.setSession_userData_self.symm.trans hsession
        rfl
    | disconnect =>
      have hcount := h.orderly.disconnects conn
      rw [World.disconnects, World.pending, hqueue, List.countP_cons_of_pos (by simp), hopen,
        if_neg Bool.false_ne_true] at hcount
      omega
    | message => exact absurd ⟨rfl, rfl⟩ hother
  · have hsame : (s.world.app.processEvent codec.parse env (s.world.closed evt.conn) evt).1.userData
        me = s.world.app.userData me := processEvent_userData_of_ne (Ne.symm hconn)
    unfold Placed at hplaced ⊢
    rw [hsame]
    exact hplaced

/-- Nobody but the client is answered to its login. -/
theorem welcomes_mine {parse : Parser} {env : Env} {app : ChatApp} {closed : Bool}
    {evt : NetworkEvent} (hother : ¬ (evt.type = .message ∧ evt.conn = me)) :
    (app.processEvent parse env closed evt).2.any (isWelcome me) = false := by
  rw [List.any_eq_false]
  intro o ho hwelcome
  unfold isWelcome at hwelcome
  split at hwelcome
  · simp only [Bool.and_eq_true, decide_eq_true_eq] at hwelcome
    obtain ⟨hconn, payload, req, hevt, _⟩ := loginResponse_of_processEvent ho
    refine hother ⟨by rw [hevt], ?_⟩
    exact hconn.symm.trans hwelcome.1
  · cases hwelcome

/-- The next message of the client is handled and its connection stays open. -/
theorem placed_mine (h : Good codec me name s) {env : Env} {m : ClientMessage}
    {rest : List NetworkEvent} (hqueue : s.world.eventQueue = request codec me m :: rest)
    (htake : (s.sent name).take (s.taken + 1) = (s.sent name).take s.taken ++ [m])
    (hbefore : s.world.closed me = false)
    (hafter : (s.world.afterEvent codec.parse env (request codec me m) rest).closed me = false) :
    Placed me (s.world.afterEvent codec.parse env (request codec me m) rest).app
      (s.welcomed || welcomes codec.parse me s.world env) ((s.sent name).take (s.taken + 1)) := by
  have hsent : (s.sent name).take s.taken ++ [m] <+: .login ⟨name⟩ :: (typing s.keys).2 := by
    rw [← htake]
    exact (List.take_prefix _ _).trans (sent_le name s)
  have hprocess : s.world.app.processEvent codec.parse env
      (s.world.closed (request codec me m).conn) (request codec me m) =
        s.world.app.handleMessage codec.parse env me (codec.serialize m) := by
    rw [show (request codec me m).conn = me from rfl, hbefore]
    rfl
  rw [(World.afterEvent_spec codec.parse s.world env _ rest).1, welcomes, hqueue, hprocess, htake]
  dsimp only
  rw [hprocess]
  refine handleMessage_placed (h.placed hbefore) hsent h.no_frames
    (fun before m => typing_sentFrom) ?_
  intro hclose
  have hclosed := closed_by_limit rest hbefore hclose
  exact absurd (hclosed.symm.trans hafter) (by simp)

theorem process (h : Good codec me name s) {env : Env}
    (hnext : s.world.next codec.parse (.process env) = some w) :
    Good codec me name { s with
      world := w
      taken := if takes me s.world then s.taken + 1 else s.taken
      welcomed := s.welcomed || welcomes codec.parse me s.world env } := by
  have horderly := h.orderly.next hnext
  have hopened : w.closed me = false → s.world.closed me = false := open_before hnext
  obtain ⟨evt, rest, hqueue, _, rfl⟩ := World.next_process hnext
  obtain ⟨happ, hrest, _⟩ := World.afterEvent_spec codec.parse s.world env evt rest
  have hlogged : s.stage = .typing →
      (s.welcomed || welcomes codec.parse me s.world env) = true := by
    intro hstage
    rw [h.logged hstage, Bool.true_or]
  have hwaiting : waiting me (s.world.afterEvent codec.parse env evt rest) =
      rest.filter fun evt => evt.type = .message && evt.conn = me := by
    rw [waiting, hrest]
  by_cases hmine : evt.type = .message ∧ evt.conn = me
  · have htakes : takes me s.world = true := by
      simp [takes, hqueue, hmine]
    obtain ⟨m, rfl, hlt, htake, hleft⟩ := h.head hqueue hmine
    rw [htakes, if_pos rfl]
    exact ⟨horderly, hlogged, h.early, hlt, h.delivered_le, hwaiting.trans hleft,
      fun hopen => h.placed_mine hqueue htake (hopened hopen) hopen⟩
  · have htakes : takes me s.world = false := by
      simpa [takes, hqueue] using hmine
    rw [htakes, if_neg Bool.false_ne_true]
    refine ⟨horderly, hlogged, h.early, h.taken_le, h.delivered_le, ?_, ?_⟩
    · have hsame := h.queue
      rw [waiting, hqueue, List.filter_cons_of_neg (by simpa using hmine)] at hsame
      exact hwaiting.trans hsame
    · intro hopen
      have hwelcomes : welcomes codec.parse me s.world env = false := by
        rw [welcomes, hqueue]
        exact welcomes_mine hmine
      show Placed me _ (s.welcomed || _) ((s.sent name).take s.taken)
      rw [hwelcomes, Bool.or_false, happ]
      exact h.placed_other hqueue hmine (hopened hopen)

theorem step {a : Action} {t : System} (h : Good codec me name s)
    (hnext : s.next codec me name a = some t) : Good codec me name t := by
  cases a with
  | login =>
    simp only [System.next, Option.ite_none_right_eq_some, Option.some.injEq] at hnext
    obtain ⟨⟨hstage, _⟩, rfl⟩ := hnext
    have hkeys : s.keys = [] := h.early (by simp [hstage])
    exact h.send [.login ⟨name⟩] (by simp [System.sent, hstage, hkeys, typing])
      (by simp) fun _ => hkeys
  | welcome =>
    simp only [System.next, Option.ite_none_right_eq_some, Option.some.injEq] at hnext
    obtain ⟨⟨hstage, hwelcomed⟩, rfl⟩ := hnext
    exact h.send [] (by simp [System.sent, hstage]) (fun _ => hwelcomed)
      (fun hnot => absurd rfl hnot)
  | key k =>
    simp only [System.next, Option.ite_none_right_eq_some, Option.some.injEq] at hnext
    obtain ⟨hstage, rfl⟩ := hnext
    obtain ⟨msg, hsent, _⟩ := typing_snoc s.keys k
    exact h.send msg.toList (by simp [System.sent, hstage, hsent]) (fun _ => h.logged hstage)
      (fun hnot => absurd hstage hnot)
  | deliver =>
    simp only [System.next] at hnext
    split at hnext
    · rename_i msg hmsg
      obtain ⟨w, hw, rfl⟩ := Option.map_eq_some_iff.mp hnext
      exact h.deliver hmsg hw
    · cases hnext
  | world a =>
    cases a with
    | message conn payload =>
      simp only [System.next, Option.ite_none_left_eq_some] at hnext
      obtain ⟨hconn, hnext⟩ := hnext
      obtain ⟨w, hw, rfl⟩ := Option.map_eq_some_iff.mp hnext
      refine h.others hw (by simp) ?_
      intro payload' heq
      cases heq
      exact hconn rfl
    | process env =>
      obtain ⟨w, hw, rfl⟩ := Option.map_eq_some_iff.mp hnext
      exact h.process hw
    | accept | reactorClose | reactorPush | logicPush =>
      obtain ⟨w, hw, rfl⟩ := Option.map_eq_some_iff.mp hnext
      exact h.others hw (by simp) (by simp)

theorem reachable (hs : Reachable (machine codec me name) AnyStep s) : Good codec me name s :=
  hs.invariant init fun _ _ _ h _ hnext => h.step hnext

/-- The session of a client that is in input_loop. -/
theorem session (h : Good codec me name s) (htyping : s.stage = .typing)
    (hopen : s.world.closed me = false) :
    1 ≤ s.taken ∧ s.taken ≤ (typing s.keys).2.length + 1 ∧
      ∃ session, s.world.app.userData me = some session ∧ session.isLoggedIn = true ∧
        session.currentRoom = ((typing s.keys).2.take (s.taken - 1)).foldl roomAfter "" := by
  have hsent : s.sent name = .login ⟨name⟩ :: (typing s.keys).2 := by
    simp [System.sent, htyping]
  have hplaced := h.placed hopen
  rw [h.logged htyping, hsent] at hplaced
  obtain ⟨hsome, session, hsession, hin, hroom⟩ := hplaced
  have hpos : 1 ≤ s.taken := by
    by_contra hzero
    have : s.taken = 0 := by omega
    exact hsome (by rw [this, List.take_zero])
  have hle := h.taken_le.trans h.delivered_le
  rw [hsent, List.length_cons] at hle
  refine ⟨hpos, hle, session, hsession, hin, ?_⟩
  obtain ⟨n, hn⟩ : ∃ n, s.taken = n + 1 := ⟨s.taken - 1, by omega⟩
  rw [hroom, hn]
  rfl

end Good

/-- A text for a room finds its sender in this room. -/
theorem roomChat_inside {codec : Codec} {me : ConnId} {name : String} {s : System}
    (h : Good codec me name s) (htyping : s.stage = .typing) (hopen : s.world.closed me = false)
    {payload : Bytes} {rest : List NetworkEvent} {req : RoomChatRequest}
    (hqueue : s.world.eventQueue = ⟨.message, me, some payload⟩ :: rest)
    (hparse : codec.parse payload = some (.roomChat req)) :
    req.roomName = ((typing s.keys).2.take (s.taken - 1)).foldl roomAfter "" ∧
      req.roomName ≠ "" := by
  obtain ⟨m, hevt, _, htake, _⟩ := h.head hqueue ⟨rfl, rfl⟩
  obtain ⟨hpos, _, _⟩ := h.session htyping hopen
  obtain ⟨n, hn⟩ : ∃ n, s.taken = n + 1 := ⟨s.taken - 1, by omega⟩
  have hm : m = .roomChat req := by
    rw [request, NetworkEvent.mk.injEq, Option.some.injEq] at hevt
    rw [hevt.2.2, codec.undoes] at hparse
    exact Option.some.inj hparse
  have hsent : s.sent name = .login ⟨name⟩ :: (typing s.keys).2 := by
    simp [System.sent, htyping]
  rw [hsent, hn, List.take_succ_cons, List.take_succ_cons, List.cons_append,
    List.cons.injEq] at htake
  have hprefix : (typing s.keys).2.take n ++ [m] <+: (typing s.keys).2 := by
    rw [← htake.2]
    exact List.take_prefix _ _
  have hfrom := typing_sentFrom hprefix
  rw [hm] at hfrom
  rw [hn, Nat.add_sub_cancel]
  cases hfrom with
  | roomChat _ hroom hinside => exact ⟨hroom, hroom ▸ hinside⟩

/-- The server has handled what the client sent before some point of its input,
and the session is in the room in which the client was then. A text that it
handles next is for this room. -/
theorem rooms_agree (codec : Codec) (me : ConnId) (name : String) (s : System)
    (hs : Reachable (machine codec me name) AnyStep s) (htyping : s.stage = .typing)
    (hopen : s.world.closed me = false) :
    ∃ session, s.world.app.userData me = some session ∧ session.isLoggedIn = true ∧
      (∃ done, done <+: s.keys ∧ (typing done).2.length + 1 = s.taken) ∧
      (∀ done, done <+: s.keys → (typing done).2.length + 1 = s.taken →
        session.currentRoom = (typing done).1.currentRoom) ∧
      ∀ payload rest req, s.world.eventQueue = ⟨.message, me, some payload⟩ :: rest →
        codec.parse payload = some (.roomChat req) →
        session.currentRoom = req.roomName ∧ req.roomName ≠ "" := by
  have hgood := Good.reachable hs
  obtain ⟨hpos, hle, session, hsession, hin, hroom⟩ := hgood.session htyping hopen
  refine ⟨session, hsession, hin, ?_, ?_, ?_⟩
  · have hbound : s.taken - 1 ≤ (typing s.keys).2.length := by omega
    obtain ⟨done, hdone, hlen⟩ := typing_reaches hbound
    exact ⟨done, hdone, by omega⟩
  · intro done hdone hlen
    have hn : s.taken - 1 = (typing done).2.length := by omega
    rw [hroom, room_before hdone, hn]
  · intro payload rest req hqueue hparse
    obtain ⟨hsame, hinside⟩ := roomChat_inside hgood htyping hopen hqueue hparse
    exact ⟨hroom.trans hsame.symm, hinside⟩

section Samples

def sampleCodec : Codec :=
  ⟨ChatProto.parseClient, ChatProto.serializeClient, ChatProto.parse_serializeClient⟩

/-- The client joins a room, says something there and leaves. The server has
handled the first of these messages and the second one is next. -/
def sampleRun : List Action :=
  [.login, .world (.accept 0), .world (.process sampleEnv), .deliver,
    .world (.process sampleEnv), .welcome] ++
    "/join r\nhi\n/leave\n".toList.map .key ++
    [.deliver, .deliver, .world (.process sampleEnv)]

theorem rooms_agree_sample :
    ∃ s, Reachable (machine sampleCodec 0 "a") AnyStep s ∧
      (typing "/join r\n".toList).1.currentRoom = "r" ∧ (typing s.keys).1.currentRoom = "" ∧
      ∃ session, s.world.app.userData 0 = some session ∧ session.currentRoom = "r" := by
  have hrun : (run (machine sampleCodec 0 "a") AnyStep System.init sampleRun).any
      (fun s => s.stage = .typing ∧ s.world.closed 0 = false ∧ s.taken = 2 ∧
        s.keys = "/join r\nhi\n/leave\n".toList ∧ (typing s.keys).1.currentRoom = "") = true := by
    decide +kernel
  obtain ⟨s, hs, htyping, hopen, htaken, hkeys, hroom⟩ := exists_reachable hrun
  obtain ⟨session, hsession, _, _, hagree, _⟩ :=
    rooms_agree sampleCodec 0 "a" s hs htyping hopen
  have hjoined : (typing "/join r\n".toList).1.currentRoom = "r" ∧
      (typing "/join r\n".toList).2.length + 1 = 2 := by
    decide +kernel
  have hdone : "/join r\n".toList <+: s.keys := by
    rw [hkeys]
    decide +kernel
  have hthere := hagree _ hdone (hjoined.2.trans htaken.symm)
  exact ⟨s, hs, hjoined.1, hroom, session, hsession, hthere.trans hjoined.1⟩

end Samples

end ChatServer.RoomAgreement
