import ChatServer.Downlink
import ChatServer.Recipients

/-!
Where the messages of the handlers come from. What is sent under the name of a user
was asked for by a connection that has logged in under this name, and a private
message goes to a connection that has logged in under the name of its target. This
is so for any connections, whatever they send and however often they log in.
-/
namespace ChatServer.Provenance

open ServerSystem LifeCycle Recipients Lib.Runs
open Downlink (directs directTo announces)

/-- The connection has asked for the message to be sent, under the name that it bears. -/
def Says (asked : ConnId → ClientMessage → Prop) (b : ChatBroadcast) : Prop :=
  ∃ c, asked c (.login ⟨b.sender⟩) ∧ (asked c (.globalChat ⟨b.text⟩) ∧ b.originRoom = "" ∨
    asked c (.roomChat ⟨b.originRoom, b.text⟩))

/-- What a handler sends is asked for, or it is from the server itself. -/
def Vouched (asked : ConnId → ClientMessage → Prop) : Output → Prop
  | .sendProto d (.loginResponse _) => ∃ req, asked d (.login req)
  | .sendProto d (.error _) => ∃ req, asked d req
  | .sendProto d (.privateChat pm) => ∃ c target, asked c (.login ⟨pm.sender⟩) ∧
      asked c (.privateChat ⟨target, pm.text⟩) ∧ asked d (.login ⟨target⟩)
  | .sendProto _ (.chatBroadcast b) => b.sender = "Server" ∨ Says asked b
  | .broadcastProto (.chatBroadcast b) => Says asked b
  | .broadcastProto _ => False
  | .close _ => True

/-- The names that connections bear, and those in the directory, they have logged in with. -/
structure Named (asked : ConnId → ClientMessage → Prop) (tables : ChatApp.Tables) : Prop where
  seat : ∀ c name room, tables.seats c = some ⟨name, room⟩ → asked c (.login ⟨name⟩)
  listed : ∀ name c, tables.dir name = some c → asked c (.login ⟨name⟩)

section Handlers

variable {asked asked' : ConnId → ClientMessage → Prop} {app : ChatApp} {env : Env} {conn : ConnId}
  {s : ChatSession} {o : Output} {tables : ChatApp.Tables} {parse : Parser}

theorem Says.mono (hmono : ∀ c req, asked c req → asked' c req) {b : ChatBroadcast}
    (h : Says asked b) : Says asked' b := by
  obtain ⟨c, hlogin, htext⟩ := h
  refine ⟨c, hmono _ _ hlogin, ?_⟩
  obtain ⟨hglobal, hroom⟩ | hroom := htext
  · exact Or.inl ⟨hmono _ _ hglobal, hroom⟩
  · exact Or.inr (hmono _ _ hroom)

theorem Vouched.mono (hmono : ∀ c req, asked c req → asked' c req) (h : Vouched asked o) :
    Vouched asked' o := by
  cases o with
  | sendProto d msg =>
    cases msg with
    | loginResponse resp =>
      obtain ⟨req, hlogin⟩ := h
      exact ⟨req, hmono _ _ hlogin⟩
    | error e =>
      obtain ⟨req, hasked⟩ := h
      exact ⟨req, hmono _ _ hasked⟩
    | privateChat pm =>
      obtain ⟨c, target, hlogin, hasked, htarget⟩ := h
      exact ⟨c, target, hmono _ _ hlogin, hmono _ _ hasked, hmono _ _ htarget⟩
    | chatBroadcast b => exact h.imp_right (Says.mono hmono)
  | broadcastProto msg =>
    cases msg with
    | chatBroadcast b => exact Says.mono hmono h
    | _ => exact h
  | close c => trivial

/-- A call that sends a message to one connection. -/
def Sends (o : Output) : Prop := ∃ d msg, o = .sendProto d msg

theorem sends_of_members {names : List String} {msg : ServerMessage}
    (ho : o ∈ app.sendMembers names msg) : Sends o := by
  obtain ⟨d, -, rfl⟩ := List.mem_map.mp ho
  exact ⟨d, msg, rfl⟩

theorem sends_of_enterRoom {room username : String}
    (ho : o ∈ (app.enterRoom env room username).2) : Sends o := by
  unfold ChatApp.enterRoom at ho
  split at ho
  · exact sends_of_members ho
  · cases ho

theorem sends_of_joinRoom {req : JoinRoomRequest}
    (ho : o ∈ (app.handleJoinRoom env conn s req).2) : Sends o := by
  unfold ChatApp.handleJoinRoom at ho
  split at ho
  · simp only [List.mem_append, List.mem_singleton] at ho
    obtain (hleave | henter) | rfl := ho
    · split at hleave
      · exact sends_of_members hleave
      · cases hleave
    · exact sends_of_enterRoom henter
    · exact ⟨_, _, rfl⟩
  · cases ho

theorem sends_of_disconnect (ho : o ∈ (app.handleDisconnect env conn).2) : Sends o := by
  unfold ChatApp.handleDisconnect at ho
  split at ho
  · cases ho
  · split at ho
    · dsimp only at ho
      split at ho
      · exact sends_of_members ho
      · cases ho
    · cases ho

theorem Named.mono (hmono : ∀ c req, asked c req → asked' c req) (h : Named asked tables) :
    Named asked' tables :=
  ⟨fun c name room hseat => hmono _ _ (h.seat c name room hseat),
    fun name c hlisted => hmono _ _ (h.listed name c hlisted)⟩

/-- What the server has composed itself is in its own name. -/
theorem vouched_of_notice {d : ConnId} {msg : ServerMessage} (ho : o = .sendProto d msg)
    (h : ∀ m, sentMessage o = some m → ∃ text room, m = notice text room) :
    Vouched asked o := by
  subst ho
  obtain ⟨text, room, rfl⟩ := h msg rfl
  exact Or.inl rfl

theorem vouched_dispatch {req : ClientMessage}
    (hlisted : ∀ name c, app.onlineUsers name = some c → asked c (.login ⟨name⟩))
    (hself : s.isLoggedIn = true → asked conn (.login ⟨s.username⟩)) (hreq : asked conn req)
    (ho : o ∈ (app.dispatch env conn s req).2) : Vouched asked o := by
  cases req with
  | login req =>
    simp only [ChatApp.dispatch, ChatApp.handleLogin] at ho
    split at ho <;> obtain rfl := List.mem_singleton.mp ho <;> exact ⟨req, hreq⟩
  | globalChat req =>
    simp only [ChatApp.dispatch, ChatApp.handleGlobalChat] at ho
    split at ho
    · rename_i hin
      obtain rfl := List.mem_singleton.mp ho
      exact ⟨conn, hself hin, Or.inl ⟨hreq, rfl⟩⟩
    · cases ho
  | privateChat req =>
    simp only [ChatApp.dispatch, ChatApp.handlePrivateChat] at ho
    split at ho
    · rename_i hin
      split at ho
      · rename_i d hd
        simp only [List.mem_cons, List.not_mem_nil, or_false] at ho
        obtain rfl | rfl := ho
        · exact ⟨conn, req.targetUsername, hself hin, hreq, hlisted _ _ hd⟩
        · exact Or.inl rfl
      · obtain rfl := List.mem_singleton.mp ho
        exact ⟨_, hreq⟩
    · cases ho
  | joinRoom req =>
    obtain ⟨d, msg, rfl⟩ := sends_of_joinRoom ho
    exact vouched_of_notice rfl fun m hm => sent_by_handleJoinRoom ho hm
  | roomChat req =>
    simp only [ChatApp.dispatch, ChatApp.handleRoomChat] at ho
    split at ho
    · obtain rfl := List.mem_singleton.mp ho
      exact ⟨_, hreq⟩
    · rename_i hinside
      simp only [not_or, Bool.not_eq_false] at hinside
      split at ho
      · cases ho
      · rename_i hroom
        obtain ⟨d, -, rfl⟩ := List.mem_map.mp ho
        refine Or.inr ⟨conn, hself hinside.1, Or.inr ?_⟩
        rw [not_not] at hroom
        show asked conn (.roomChat ⟨s.currentRoom, req.text⟩)
        rw [hroom]
        exact hreq
  | payloadNotSet => cases ho

/-- Nothing is sent for a payload that is no message. -/
theorem parsed_of_handleMessage {rawData : Bytes}
    (ho : o ∈ (app.handleMessage parse env conn rawData).2) : ∃ req, parse rawData = some req := by
  unfold ChatApp.handleMessage at ho
  split at ho
  · cases ho
  · split at ho
    · cases ho
    · exact ⟨_, by assumption⟩

/-- HandleMessage sends what is vouched for, and gives names that were asked for. -/
theorem vouched_handleMessage {rawData : Bytes} (h : Named asked app.tables)
    (hreq : ∀ req, parse rawData = some req → asked conn req)
    (ho : o ∈ (app.handleMessage parse env conn rawData).2) : Vouched asked o := by
  obtain ⟨_, hsome⟩ := parsed_of_handleMessage ho
  refine ChatApp.handleMessage_cases (P := fun r => o ∈ r.2 → Vouched asked o)
    (fun hnone => absurd hnone List.not_mem_nil) ?_ ?_ ho
  · intro session reason _ ho
    simp only [List.mem_cons, List.not_mem_nil, or_false] at ho
    obtain rfl | rfl := ho
    · exact ⟨_, hreq _ hsome⟩
    · trivial
  · intro session req hsession hparse _ ho
    have hlisted : ∀ name c,
        (app.setSession conn (session.refill env.now).charge).onlineUsers name = some c →
          asked c (.login ⟨name⟩) := h.listed
    refine vouched_dispatch hlisted ?_ (hreq req hparse) ho
    intro hin
    have hseat : app.seats conn = some ⟨session.username, roomOf session.currentRoom⟩ :=
      (ChatApp.seats_of_session hsession).trans (ChatSession.seat_of_loggedIn hin)
    exact h.seat conn _ _ hseat

/-- A connection takes a seat under a name that it has logged in with. -/
theorem Named.sit (h : Named asked tables) {name : String} (hname : asked conn (.login ⟨name⟩))
    (room : Option String) (rooms : String → Finset String) :
    Named asked ⟨tables.dir, rooms, Function.update tables.seats conn (some ⟨name, room⟩)⟩ := by
  refine ⟨fun c other place hseat => ?_, h.listed⟩
  change Function.update tables.seats conn _ c = _ at hseat
  by_cases hc : c = conn
  · rw [hc, Function.update_self] at hseat
    cases hseat
    rw [hc]
    exact hname
  · rw [Function.update_of_ne hc] at hseat
    exact h.seat c other place hseat

theorem Named.list (h : Named asked tables) {name : String} (hname : asked conn (.login ⟨name⟩)) :
    Named asked { tables with dir := Function.update tables.dir name (some conn) } := by
  refine ⟨h.seat, fun other c hlisted => ?_⟩
  change Function.update tables.dir name _ other = _ at hlisted
  by_cases hother : other = name
  · rw [hother, Function.update_self] at hlisted
    cases hlisted
    rw [hother]
    exact hname
  · rw [Function.update_of_ne hother] at hlisted
    exact h.listed other c hlisted

theorem named_handleMessage {rawData : Bytes} (h : Named asked app.tables)
    (hreq : ∀ req, parse rawData = some req → asked conn req) :
    Named asked (app.handleMessage parse env conn rawData).1.tables := by
  have htables : ChatApp.MessageEffect parse app env conn rawData
    (app.handleMessage parse env conn rawData).1.tables := ChatApp.handleMessage_tables
  cases htables with
  | same heq => exact heq ▸ h
  | login s req hs hparse hpaid hfree hname heq =>
    have hlogin : asked conn (.login ⟨req.username⟩) := hreq _ hparse
    rw [heq]
    exact (h.sit hlogin _ _).list hlogin
  | join s room hs hin heq =>
    have hseat : app.seats conn = some ⟨s.username, roomOf s.currentRoom⟩ :=
      (ChatApp.seats_of_session hs).trans (ChatSession.seat_of_loggedIn hin)
    rw [heq]
    exact h.sit (h.seat conn _ _ hseat) _ _

theorem named_handleDisconnect (h : Named asked app.tables) :
    Named asked (app.handleDisconnect env conn).1.tables := by
  rcases ChatApp.handleDisconnect_tables app env conn with ⟨name, room, -, heq⟩ | ⟨-, heq⟩
  · rw [heq]
    refine ⟨h.seat, fun other c hlisted => ?_⟩
    change Function.update app.onlineUsers name none other = _ at hlisted
    by_cases hother : other = name
    · rw [hother, Function.update_self] at hlisted
      cases hlisted
    · rw [Function.update_of_ne hother] at hlisted
      exact h.listed other c hlisted
  · rw [heq]
    exact h

theorem named_handleConnect (h : Named asked app.tables) :
    Named asked (app.handleConnect env conn).tables := by
  refine ⟨fun c name room hseat => ?_, h.listed⟩
  change (app.setSession conn (ChatSession.new env.now)).seats c = _ at hseat
  rw [ChatApp.setSession_seats] at hseat
  by_cases hc : c = conn
  · rw [hc, Function.update_self] at hseat
    cases hseat
  · rw [Function.update_of_ne hc] at hseat
    exact h.seat c name room hseat

/-- An event is handled with what is vouched for, if its request counts as asked. -/
theorem processEvent_vouched (env : Env) (evt : NetworkEvent) (h : Named asked app.tables)
    (hreq : ∀ payload req, evt = ⟨.message, evt.conn, some payload⟩ → parse payload = some req →
      asked evt.conn req) :
    (∀ o ∈ (app.processEvent parse env false evt).2, Vouched asked o) ∧
      Named asked (app.processEvent parse env false evt).1.tables := by
  refine ChatApp.processEvent_cases
    (P := fun r => (∀ o ∈ r.2, Vouched asked o) ∧ Named asked r.1.tables) ?_ ?_ ?_ ?_
  · exact ⟨fun _ hnone => absurd hnone List.not_mem_nil, h⟩
  · exact fun _ => ⟨fun _ hnone => absurd hnone List.not_mem_nil, named_handleConnect h⟩
  · intro _
    refine ⟨fun o ho => ?_, named_handleDisconnect h⟩
    obtain ⟨d, msg, heq⟩ := sends_of_disconnect ho
    exact vouched_of_notice heq fun m hm => sent_by_handleDisconnect ho hm
  · intro payload _ hevt
    exact ⟨fun o ho => vouched_handleMessage h (hreq payload · hevt) ho,
      named_handleMessage h (hreq payload · hevt)⟩

end Handlers

/-- The handler was called for the request of the connection. -/
def Asked (parse : Parser) (log : List Entry) (c : ConnId) (req : ClientMessage) : Prop :=
  ∃ evt ∈ calls log, evt.conn = c ∧ evt.type = .message ∧ evt.event.payload.bind parse = some req

section Runs

variable {n : ℕ} {setup : Setup} {s t : System n} {a : Action n}

theorem Asked.later {parse : Parser} {log : List Entry} {c : ConnId} {req : ClientMessage}
    (h : Asked parse log c req) (more : List Entry) : Asked parse (log ++ more) c req := by
  obtain ⟨evt, hevt, hreq⟩ := h
  refine ⟨evt, ?_, hreq⟩
  unfold calls
  rw [List.filterMap_append]
  exact List.mem_append_left _ hevt

/-- What the handlers have sent and have yet to send is of this kind. -/
structure Sending (V : Output → Prop) (s : System n) : Prop where
  outputs : ∀ o ∈ LoginReply.outputs s.logic, V o
  directs : ∀ c, ∀ msg ∈ directs s.log c, V (.sendProto c msg)

/-- A step that calls no handler: it sends what was left to be sent. -/
structure Carries (s t : System n) : Prop where
  app : t.app = s.app
  outputs : ∀ o ∈ LoginReply.outputs t.logic, o ∈ LoginReply.outputs s.logic
  log : t.log = s.log ∨ ∃ e, t.log = s.log ++ [e] ∧
    ∀ c msg, directTo c e = some msg → .sendProto c msg ∈ LoginReply.outputs s.logic

/-- ProcessEvent calls the handler of the event. -/
def calling (setup : Setup) (s : System n) (evt : Queued) (env : Env) : System n :=
  ({ s with
    app := (s.app.processEvent setup.parse env false evt.event).1
    clock := env.now }.record (.call evt)).setLogic
      (.sending evt (s.app.processEvent setup.parse env false evt.event).2)

section Sending

variable {V W : Output → Prop}

theorem Sending.mono (h : Sending V s) (hVW : ∀ o, V o → W o) : Sending W s :=
  ⟨fun o ho => hVW o (h.outputs o ho), fun c msg hmsg => hVW _ (h.directs c msg hmsg)⟩

theorem Sending.carries (h : Sending V s) (hcarries : Carries s t) : Sending V t := by
  refine ⟨fun o ho => h.outputs o (hcarries.outputs o ho), fun c msg hmsg => ?_⟩
  obtain hsame | ⟨e, hlog, hsent⟩ := hcarries.log
  · rw [hsame] at hmsg
    exact h.directs c msg hmsg
  · rw [hlog, Downlink.directs, List.filterMap_append, List.mem_append] at hmsg
    obtain hold | hnew := hmsg
    · exact h.directs c msg hold
    · obtain ⟨e', he', hto⟩ := List.mem_filterMap.mp hnew
      obtain rfl := List.mem_singleton.mp he'
      exact h.outputs _ (hsent c msg hto)

theorem Sending.call (h : Sending V s) {evt : Queued} {env : Env}
    (hcall : ∀ o ∈ (s.app.processEvent setup.parse env false evt.event).2, V o) :
    Sending V (calling setup s evt env) := by
  refine ⟨hcall, fun c msg hmsg => ?_⟩
  change msg ∈ Downlink.directs (s.log ++ [.call evt]) c at hmsg
  rw [Downlink.directs_record _ _ rfl] at hmsg
  exact h.directs c msg hmsg

end Sending

theorem Carries.asked (h : Carries s t) (parse : Parser) (c : ConnId) (req : ClientMessage)
    (hasked : Asked parse s.log c req) : Asked parse t.log c req := by
  obtain hsame | ⟨e, hlog, -⟩ := h.log
  · rw [hsame]
    exact hasked
  · rw [hlog]
    exact hasked.later [e]

/-- The request of the event counts as asked. -/
theorem asked_of_call {parse : Parser} {log : List Entry} {evt : Queued} {payload : Bytes}
    {req : ClientMessage} (hevt : evt.event = ⟨.message, evt.event.conn, some payload⟩)
    (hparse : parse payload = some req) :
    Asked parse (log ++ [.call evt]) evt.event.conn req := by
  refine ⟨evt, ?_, rfl, ?_, ?_⟩
  · rw [calls_snoc]
    exact List.mem_append_right _ (List.mem_singleton_self evt)
  · show evt.event.type = .message
    rw [hevt]
  · rw [hevt]
    exact hparse

/-- Names, the calls that are left and what was sent are all asked for. -/
structure Sourced (setup : Setup) (s : System n) : Prop where
  named : Named (Asked setup.parse s.log) s.app.tables
  sending : Sending (Vouched (Asked setup.parse s.log)) s

theorem Sourced.carries (h : Sourced setup s) (hcarries : Carries s t) : Sourced setup t := by
  have hmono := hcarries.asked setup.parse
  refine ⟨?_, (h.sending.carries hcarries).mono fun o ho => ho.mono hmono⟩
  rw [hcarries.app]
  exact h.named.mono hmono

/-- ProcessEvent calls the handler with names that are asked for. -/
theorem Sourced.call {evt : Queued} {env : Env} (h : Sourced setup s) :
    Sourced setup (calling setup s evt env) := by
  have hmono : ∀ c req, Asked setup.parse s.log c req →
      Asked setup.parse (s.log ++ [.call evt]) c req := fun c req hasked => hasked.later _
  obtain ⟨houtputs, hnamed⟩ := processEvent_vouched env evt.event
    (h.named.mono hmono) fun payload req hevt hparse => asked_of_call hevt hparse
  exact ⟨hnamed, (h.sending.mono fun o ho => ho.mono hmono).call houtputs⟩

/-- No other step calls a handler. -/
theorem next_carries (hnext : s.next setup a = some t) (ha : ∀ env, a ≠ .call env) :
    Carries s t := by
  have hsilent : ∀ {e : Entry}, (∀ evt c msg, e ≠ .append evt c msg) →
      ∀ c msg, directTo c e = some msg → .sendProto c msg ∈ LoginReply.outputs s.logic := by
    intro e he c msg hto
    cases e with
    | append evt d m => exact absurd rfl (he evt d m)
    | _ => cases hto
  cases System.next_steps hnext with
  | call hstage hclock => exact absurd rfl (ha _)
  | pushConnect hstage => exact ⟨rfl, fun _ ho => ho, Or.inr ⟨_, rfl, hsilent (by simp)⟩⟩
  | message payload hidle hknown =>
    exact ⟨rfl, fun _ ho => ho, Or.inr ⟨_, rfl, hsilent (by simp)⟩⟩
  | close hidle hopen hnet => exact ⟨rfl, fun _ ho => ho, Or.inr ⟨_, rfl, hsilent (by simp)⟩⟩
  | reactorPush hstage => exact ⟨rfl, fun _ ho => ho, Or.inr ⟨_, rfl, hsilent (by simp)⟩⟩
  | take hstage hqueue => exact ⟨rfl, fun _ ho => absurd ho List.not_mem_nil, Or.inl rfl⟩
  | discard hstage hclosed htype =>
    exact ⟨rfl, fun _ ho => absurd ho List.not_mem_nil, Or.inr ⟨_, rfl, hsilent (by simp)⟩⟩
  | pass hstage hpass =>
    exact ⟨rfl, fun _ ho => absurd ho List.not_mem_nil, Or.inr ⟨_, rfl, hsilent (by simp)⟩⟩
  | endEvent hstage => exact ⟨rfl, fun _ ho => absurd ho List.not_mem_nil, Or.inl rfl⟩
  | dropped hstage hclosed hnet =>
    refine ⟨rfl, fun o ho => ?_, Or.inl rfl⟩
    rw [hstage]
    exact List.mem_cons_of_mem _ ho
  | @append evt d msg rest net hstage hopen hnet =>
    refine ⟨rfl, fun o ho => ?_, Or.inr ⟨_, rfl, fun c m hto => ?_⟩⟩
    · rw [hstage]
      exact List.mem_cons_of_mem _ ho
    · obtain ⟨rfl, hm⟩ := Option.ite_none_right_eq_some.mp hto
      cases hm
      rw [hstage]
      exact List.mem_cons_self
  | broadcast hstage hnet =>
    refine ⟨rfl, fun o ho => ?_, Or.inl rfl⟩
    rw [hstage]
    exact List.mem_cons_of_mem _ ho
  | logicCloseAgain hstage hclosed =>
    refine ⟨rfl, fun o ho => ?_, Or.inl rfl⟩
    rw [hstage]
    exact List.mem_cons_of_mem _ ho
  | logicClose hstage hopen hnet =>
    refine ⟨rfl, fun o ho => ?_, Or.inr ⟨_, rfl, hsilent (by simp)⟩⟩
    rw [hstage]
    exact List.mem_cons_of_mem _ ho
  | notify hstage hnet =>
    refine ⟨rfl, fun o ho => ?_, Or.inl rfl⟩
    rw [hstage]
    exact ho
  | logicPush hstage =>
    refine ⟨rfl, fun o ho => ?_, Or.inr ⟨_, rfl, hsilent (by simp)⟩⟩
    rw [hstage]
    exact ho
  | logicErase hstage hnet =>
    refine ⟨rfl, fun o ho => ?_, Or.inl rfl⟩
    rw [hstage]
    exact ho
  | _ => exact ⟨rfl, fun _ ho => ho, Or.inl rfl⟩

theorem Sourced.step (h : Sourced setup s) (hnext : s.next setup a = some t) :
    Sourced setup t := by
  by_cases hcall : ∃ env, a = .call env
  · obtain ⟨env, rfl⟩ := hcall
    cases System.next_steps hnext with
    | call hstage hclock => exact h.call
  · exact h.carries (next_carries hnext fun env ha => hcall ⟨env, ha⟩)

theorem Sending.init {V : Output → Prop} : Sending V (System.init : System n) :=
  ⟨fun _ ho => absurd ho List.not_mem_nil, fun _ _ hmsg => absurd hmsg List.not_mem_nil⟩

theorem sourced {allowed : System n → Action n → Prop}
    (hs : Reachable (machine setup n) allowed s) : Sourced setup s := by
  refine hs.invariant (P := Sourced setup) ⟨⟨?_, ?_⟩, .init⟩ fun _ _ _ h _ hnext => h.step hnext
  · intro c name room hseat
    cases hseat
  · intro name c hlisted
    cases hlisted

/-- What a step broadcasts was left to be sent. -/
theorem Sending.announces {V : Output → Prop} (h : Sending V s) {msg : ServerMessage}
    (hmsg : msg ∈ announces s a) : V (.broadcastProto msg) := by
  unfold Downlink.announces at hmsg
  split at hmsg
  · split at hmsg
    · rename_i evt m rest hlogic
      obtain rfl := List.mem_singleton.mp hmsg
      refine h.outputs _ ?_
      rw [hlogic]
      exact List.mem_cons_self
    · cases hmsg
  · cases hmsg

/-- The packets in the queues, and those on the way there, are of this kind. -/
structure Queues (V : Output → Prop) (setup : Setup) (s : System n) : Prop where
  underway : ∀ evt, Downlink.Underway (BroadcastFlow.flow s.net) evt →
    ∃ msg, evt.payload.bytes = setup.encode msg ∧ V (.broadcastProto msg)
  appended : ∀ d, ∀ packet ∈ AppendedPackets.appended s.net d,
    ∃ msg, packet.bytes = setup.encode msg ∧ (V (.sendProto d msg) ∨ V (.broadcastProto msg))

theorem Queues.mono {V W : Output → Prop} (h : Queues V setup s) (hVW : ∀ o, V o → W o) :
    Queues W setup s := by
  constructor
  · intro evt hevt
    obtain ⟨msg, hbytes, hmsg⟩ := h.underway evt hevt
    exact ⟨msg, hbytes, hVW _ hmsg⟩
  · intro d packet hpacket
    obtain ⟨msg, hbytes, hmsg⟩ := h.appended d packet hpacket
    exact ⟨msg, hbytes, hmsg.imp (hVW _) (hVW _)⟩

theorem Queues.step {V : Output → Prop} (h : Queues V setup s) (hbefore : Sending V s)
    (hafter : Sending V t) (hnext : s.next setup a = some t) : Queues V setup t := by
  obtain ⟨-, hunderway⟩ := Downlink.next_announces hnext
  constructor
  · intro evt hevt
    obtain hold | ⟨msg, hannounces, hpayload⟩ := hunderway evt hevt
    · exact h.underway evt hold
    · have hmsg : msg ∈ announces s a := by
        rw [hannounces]
        exact List.mem_singleton_self msg
      exact ⟨msg, by rw [hpayload], hbefore.announces hmsg⟩
  · intro d packet hpacket
    cases Downlink.next_posts hnext d with
    | nothing happended hlog =>
      rw [happended] at hpacket
      exact h.appended d packet hpacket
    | turn kept hkept happended hlog =>
      rw [happended, List.mem_append] at hpacket
      obtain hold | hnew := hpacket
      · exact h.appended d packet hold
      · obtain ⟨evt, hevt, rfl⟩ := List.mem_map.mp hnew
        obtain ⟨msg, hbytes, hmsg⟩ := h.underway evt (hkept evt hevt)
        exact ⟨msg, hbytes, Or.inr hmsg⟩
    | send msg happended hlog =>
      rw [happended, List.mem_append] at hpacket
      obtain hold | hnew := hpacket
      · exact h.appended d packet hold
      · obtain rfl := List.mem_singleton.mp hnew
        refine ⟨msg, rfl, Or.inl (hafter.directs d msg ?_)⟩
        rw [hlog]
        exact List.mem_append_right _ (List.mem_singleton_self msg)

theorem Queues.init {V : Output → Prop} : Queues V setup (System.init : System n) := by
  constructor
  · rintro evt (hevt | ⟨task, htask, -⟩)
    · cases hevt
    · obtain hline | ⟨w, hheld⟩ := htask
      · cases hline
      · cases hheld
  · exact fun d packet hpacket => absurd hpacket List.not_mem_nil

/-- What the handlers send is what gets into the queues. -/
theorem queues {V : (ConnId → ClientMessage → Prop) → Output → Prop}
    (hmono : ∀ asked asked', (∀ c req, asked c req → asked' c req) → ∀ o, V asked o → V asked' o)
    {allowed : System n → Action n → Prop}
    (hsending : ∀ s, Reachable (machine setup n) allowed s →
      Sending (V (Asked setup.parse s.log)) s)
    (hs : Reachable (machine setup n) allowed s) :
    Queues (V (Asked setup.parse s.log)) setup s := by
  refine (hs.invariant_of_reachable (P := fun s => Reachable (machine setup n) allowed s ∧
    Queues (V (Asked setup.parse s.log)) setup s) ⟨.init, .init⟩ ?_).2
  intro s a t hs ⟨_, h⟩ ha hnext
  have ht : Reachable (machine setup n) allowed t := hs.step ha hnext
  have hlater : ∀ c req, Asked setup.parse s.log c req → Asked setup.parse t.log c req := by
    obtain ⟨more, hmore⟩ := LoginReply.next_log hnext
    intro c req hasked
    rw [hmore]
    exact hasked.later more
  have hV := hmono _ _ hlater
  exact ⟨ht, (h.mono hV).step ((hsending s hs).mono hV) (hsending t ht) hnext⟩

end Runs

section Packets

open PacketCodec ChatProto

variable {n : ℕ} {kernel : ConnId → Kernel} {parse : Parser} {s : System n}
  {allowed : System n → Action n → Prop} {d : ConnId} {packet : SharedPayload}
  {msg : ServerMessage}

theorem encode_injective {m m' : ServerMessage}
    (h : encode serializeServer m = encode serializeServer m') : m = m' := by
  have hpayload : serializeServer m = serializeServer m' := congrArg (List.drop 4) h
  have hparsed := congrArg parseServer hpayload
  rw [parse_serializeServer, parse_serializeServer] at hparsed
  exact Option.some.inj hparsed

/-- A packet in a queue says what the message was. -/
theorem Queues.of_bytes {V : Output → Prop} (h : Queues V (Downlink.chatSetup kernel parse) s)
    (hpacket : packet ∈ AppendedPackets.appended s.net d)
    (hbytes : packet.bytes = encode serializeServer msg) :
    V (.sendProto d msg) ∨ V (.broadcastProto msg) := by
  obtain ⟨msg', hbytes', hmsg⟩ := h.appended d packet hpacket
  obtain rfl := encode_injective (hbytes.symm.trans hbytes')
  exact hmsg

theorem vouched_of_queued (hs : Reachable (machine (Downlink.chatSetup kernel parse) n) allowed s)
    (hpacket : packet ∈ AppendedPackets.appended s.net d)
    (hbytes : packet.bytes = encode serializeServer msg) :
    Vouched (Asked parse s.log) (.sendProto d msg) ∨
      Vouched (Asked parse s.log) (.broadcastProto msg) :=
  (queues (V := Vouched) (fun _ _ hmono _ ho => ho.mono hmono) (fun _ ht => (sourced ht).sending)
    hs).of_bytes hpacket hbytes

/-- Whatever the connections send: a private message in the queue of a connection was asked
for by one that has logged in under the name of its sender, and its target is a name that the
receiver has logged in with. What the queue has of a chat under a name other than Server's
was asked for under this name. -/
theorem packet_authentic (hs : Reachable (machine (Downlink.chatSetup kernel parse) n) allowed s)
    (hpacket : packet ∈ AppendedPackets.appended s.net d) :
    (∀ pm, packet.bytes = encode serializeServer (.privateChat pm) →
      ∃ c target, Asked parse s.log c (.login ⟨pm.sender⟩) ∧
        Asked parse s.log c (.privateChat ⟨target, pm.text⟩) ∧
        Asked parse s.log d (.login ⟨target⟩)) ∧
    ∀ b, packet.bytes = encode serializeServer (.chatBroadcast b) → b.sender ≠ "Server" →
      ∃ c, Asked parse s.log c (.login ⟨b.sender⟩) ∧
        (Asked parse s.log c (.globalChat ⟨b.text⟩) ∧ b.originRoom = "" ∨
          Asked parse s.log c (.roomChat ⟨b.originRoom, b.text⟩)) := by
  constructor
  · intro pm hbytes
    obtain hsent | hbroadcast := vouched_of_queued hs hpacket hbytes
    · exact hsent
    · exact absurd hbroadcast id
  · intro b hbytes hname
    obtain hserver | hsays := vouched_of_queued hs hpacket hbytes
    · exact hserver.resolve_left hname
    · exact hsays

end Packets

section Samples

open EventOrder LogicThread Confirmation PacketCodec ChatProto

/-- The call of SendProto puts the message into the queue. -/
theorem output_queued {n : ℕ} {setup : Setup} {s : System n} {evt : Queued} {d : ConnId}
    {msg : ServerMessage} {rest : List Output}
    (hlogic : s.logic = .sending evt (.sendProto d msg :: rest)) (hopen : s.isClosed d = false)
    (hknown : s.known d = true) :
    ∃ t, s.next setup .output = some t ∧ t.log = s.log ++ [.append evt d msg] ∧
      ⟨setup.encode msg, none⟩ ∈ AppendedPackets.appended t.net d := by
  obtain ⟨net, hnext⟩ : ∃ net, s.next setup .output = _ := output_appends hlogic hopen hknown
  refine ⟨_, hnext, rfl, ?_⟩
  have hlog : directs (s.log ++ [.append evt d msg]) d = directs s.log d ++ [msg] := by
    have hentry : directTo d (.append evt d msg) = some msg := if_pos rfl
    rw [Downlink.directs, List.filterMap_append, List.filterMap_cons_some hentry,
      List.filterMap_nil]
    rfl
  cases Downlink.next_posts hnext d with
  | nothing happended hsame =>
    change directs (s.log ++ [.append evt d msg]) d = _ at hsame
    rw [hlog] at hsame
    simp at hsame
  | turn kept hkept happended hsame =>
    change directs (s.log ++ [.append evt d msg]) d = _ at hsame
    rw [hlog] at hsame
    simp at hsame
  | send msg' happended hsame =>
    change directs (s.log ++ [.append evt d msg]) d = _ at hsame
    rw [hlog] at hsame
    obtain ⟨-, hmsg⟩ := List.append_inj' hsame rfl
    cases hmsg
    rw [happended]
    exact List.mem_append_right _ (List.mem_singleton_self _)

/-- "hi" from b is in the queue of a. -/
theorem packet_authentic_mail :
    ∃ (s : System 1) (packet : SharedPayload), Reachable (machine mailSetup 1) AnyStep s ∧
      packet ∈ AppendedPackets.appended s.net 0 ∧
      packet.bytes = encode serializeServer (.privateChat ⟨"b", "hi", 0⟩) ∧
      ∃ c target, Asked mailParser s.log c (.login ⟨"b"⟩) ∧
        Asked mailParser s.log c (.privateChat ⟨target, "hi"⟩) ∧
        Asked mailParser s.log 0 (.login ⟨target⟩) := by
  have hrun : (mailRun AnyStep (mailQueued ++ handleSteps 1 ++ handleSteps 1 ++ [.take])
      [.call sampleEnv]).any (fun s => s.logic = .sending mail
        [.sendProto 0 (.privateChat ⟨"b", "hi", 0⟩),
          .sendProto 1 (ClientReceive.confirmation "a" "hi")] ∧
      .exchange 0 ∉ s.log ∧ s.known 0 = true) := by
    decide +kernel
  obtain ⟨s, hmail, hP⟩ := (Option.any_eq_true _ _).mp hrun
  obtain ⟨hlogic, hlog, hknown⟩ := of_decide_eq_true hP
  have hs := mailRun_reachable hmail
  obtain ⟨t, hnext, -, hpacket⟩ := output_queued hlogic (open_of_log hs hlog) hknown
  have ht : Reachable (machine mailSetup 1) AnyStep t := hs.step (a := .output) trivial hnext
  exact ⟨t, _, ht, hpacket, rfl, (packet_authentic ht hpacket).1 ⟨"b", "hi", 0⟩ rfl⟩

end Samples

end ChatServer.Provenance
