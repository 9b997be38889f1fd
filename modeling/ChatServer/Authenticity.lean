import ChatServer.ClientReceive
import ChatServer.Recipients

/-!
What the client shows as coming from the server. It goes by the sender of a
message, and prints the name of every other sender in front of the text. The
server writes "Server" there on its own behalf, and the name of the session
when it relays a message. HandleLogin accepts any name that is free, so the two
can be told apart only if nobody takes a name that reads like the server's.
-/
namespace ChatServer.Authenticity

open LogicThread Recipients Lib.Seating Lib.Runs
open ClientReceive (confirmation)

section Display

/-- The line that handle_server_message pushes for the printer. -/
def handleServerMessage : ServerMessage → String
  | .chatBroadcast b =>
      if b.sender = "Server" then "[Server]: " ++ b.text
      else
        let roomDisplay := if b.originRoom = "" then "Lobby" else b.originRoom
        "[" ++ b.sender ++ "@" ++ roomDisplay ++ "]: " ++ b.text
  | .privateChat pm => "[DM from " ++ pm.sender ++ "]: " ++ pm.text
  | .error e => "[Error]: " ++ e.reason
  | .loginResponse resp => "[Server]: " ++ resp.message

/-- The line starts like one from the server. -/
def ServerLine (line : String) : Prop := "[Server]: ".toList <+: line.toList

/-- With this name in front, a line starts like one from the server. -/
def Impersonates (name : String) : Prop := name = "Server" ∨ "Server]: ".toList <+: name.toList

instance (line : String) : Decidable (ServerLine line) :=
  inferInstanceAs (Decidable (_ <+: _))

instance (name : String) : Decidable (Impersonates name) :=
  inferInstanceAs (Decidable (_ ∨ _))

/-- A prefix without the letter that comes next does not go beyond it. -/
theorem prefix_append_cons {p l rest : List Char} {c : Char} (hc : c ∉ p) :
    p <+: l ++ c :: rest ↔ p <+: l := by
  constructor
  · intro h
    have hl : l ++ [c] <+: l ++ c :: rest := ⟨rest, by simp⟩
    rcases List.prefix_or_prefix_of_prefix h hl with hshort | hlong
    · rcases List.prefix_concat_iff.mp hshort with heq | hbefore
      · rw [heq] at hc
        exact absurd (List.mem_append_right _ (List.mem_singleton_self c)) hc
      · exact hbefore
    · exact absurd (hlong.subset (List.mem_append_right _ (List.mem_singleton_self c))) hc
  · intro h
    exact h.trans (List.prefix_append _ _)

/-- A chat message reads like one from the server exactly for these senders. -/
theorem serverLine_chat_iff (b : ChatBroadcast) :
    ServerLine (handleServerMessage (.chatBroadcast b)) ↔ Impersonates b.sender := by
  have hopen : "[Server]: ".toList = '[' :: "Server]: ".toList := by decide
  dsimp only [handleServerMessage]
  by_cases hsender : b.sender = "Server"
  · rw [if_pos hsender, ServerLine, String.toList_append]
    exact iff_of_true (List.prefix_append _ _) (Or.inl hsender)
  · rw [if_neg hsender, ServerLine, Impersonates, or_iff_right hsender]
    have hname : ∀ display : String,
        ("[" ++ b.sender ++ "@" ++ display ++ "]: " ++ b.text).toList =
          '[' :: (b.sender.toList ++
            '@' :: (display.toList ++ ("]: ".toList ++ b.text.toList))) := by
      intro display
      simp [String.toList_append]
    rw [hname, hopen, List.cons_prefix_cons]
    have hat : '@' ∉ "Server]: ".toList := by decide
    rw [prefix_append_cons hat]
    exact and_iff_right rfl

theorem not_serverLine_private (pm : PrivateChatIncoming) :
    ¬ ServerLine (handleServerMessage (.privateChat pm)) := by
  simp [ServerLine, handleServerMessage, String.toList_append]

theorem not_serverLine_error (e : ErrorResponse) :
    ¬ ServerLine (handleServerMessage (.error e)) := by
  simp [ServerLine, handleServerMessage, String.toList_append]

end Display

section Handlers

/-- The message is generated by the handler of the request on its own behalf:
the answer to a login, a notice or the confirmation of a join, the
confirmation of a private message. -/
inductive Generated : ClientMessage → ServerMessage → Prop
  | login (req : LoginRequest) (resp : LoginResponse) : Generated (.login req) (.loginResponse resp)
  | join (req : JoinRoomRequest) (text room : String) : Generated (.joinRoom req) (notice text room)
  | privateChat (req : PrivateChatRequest) :
      Generated (.privateChat req) (confirmation req.targetUsername req.text)

/-- The message is generated by the server for the event: by HandleDisconnect,
or on behalf of the handler of a request. -/
inductive FromServer (parse : Parser) (evt : NetworkEvent) (m : ServerMessage) : Prop
  | disconnect (htype : evt.type = .disconnect) (text room : String) (h : m = notice text room)
  | request (htype : evt.type = .message) (payload : Bytes) (hpayload : evt.payload = some payload)
      (req : ClientMessage) (hparse : parse payload = some req) (h : Generated req m)

variable {app : ChatApp} {env : Env} {conn : ConnId} {s : ChatSession} {o : Output}
  {m : ServerMessage}

/-- A handler sends nothing that reads like a line from the server but what it
has generated itself, unless the name of the session does. -/
theorem sent_by_dispatch {req : ClientMessage} (ho : o ∈ (app.dispatch env conn s req).2)
    (hm : sentMessage o = some m) (hline : ServerLine (handleServerMessage m))
    (hname : s.isLoggedIn = true → ¬ Impersonates s.username) : Generated req m := by
  cases req with
  | login req =>
    simp only [ChatApp.dispatch, ChatApp.handleLogin] at ho
    split at ho
    · obtain rfl := List.mem_singleton.mp ho
      obtain rfl := Option.some.inj hm
      exact .login req _
    · obtain rfl := List.mem_singleton.mp ho
      obtain rfl := Option.some.inj hm
      exact .login req _
  | globalChat req =>
    simp only [ChatApp.dispatch, ChatApp.handleGlobalChat] at ho
    split at ho
    · rename_i hin
      obtain rfl := List.mem_singleton.mp ho
      obtain rfl := Option.some.inj hm
      exact absurd ((serverLine_chat_iff _).mp hline) (hname hin)
    · cases ho
  | privateChat req =>
    simp only [ChatApp.dispatch, ChatApp.handlePrivateChat] at ho
    split at ho
    · split at ho
      · simp only [List.mem_cons, List.not_mem_nil, or_false] at ho
        obtain rfl | rfl := ho
        · obtain rfl := Option.some.inj hm
          exact absurd hline (not_serverLine_private _)
        · obtain rfl := Option.some.inj hm
          exact .privateChat req
      · obtain rfl := List.mem_singleton.mp ho
        obtain rfl := Option.some.inj hm
        exact absurd hline (not_serverLine_error _)
    · cases ho
  | joinRoom req =>
    obtain ⟨text, room, rfl⟩ := sent_by_handleJoinRoom ho hm
    exact .join req text room
  | roomChat req =>
    simp only [ChatApp.dispatch, ChatApp.handleRoomChat] at ho
    split at ho
    · obtain rfl := List.mem_singleton.mp ho
      obtain rfl := Option.some.inj hm
      exact absurd hline (not_serverLine_error _)
    · rename_i hguard
      simp only [not_or, Bool.not_eq_false] at hguard
      split at ho
      · cases ho
      · obtain rfl := sent_by_members ho hm
        exact absurd ((serverLine_chat_iff _).mp hline) (hname hguard.1)
  | payloadNotSet => cases ho

theorem sent_by_handleMessage {parse : Parser} {rawData : Bytes}
    (ho : o ∈ (app.handleMessage parse env conn rawData).2) (hm : sentMessage o = some m)
    (hline : ServerLine (handleServerMessage m))
    (hname : ∀ s, app.userData conn = some s → s.isLoggedIn = true →
      ¬ Impersonates s.username) :
    ∃ req, parse rawData = some req ∧ Generated req m := by
  refine ChatApp.handleMessage_cases
    (P := fun r => o ∈ r.2 → ∃ req, parse rawData = some req ∧ Generated req m) nofun ?_ ?_ ho
  · intro session reason _ ho
    simp only [List.mem_cons, List.not_mem_nil, or_false] at ho
    obtain rfl | rfl := ho
    · obtain rfl := Option.some.inj hm
      exact absurd hline (not_serverLine_error _)
    · cases hm
  · intro session req hsession hparse _ ho
    exact ⟨req, hparse, sent_by_dispatch ho hm hline (hname session hsession)⟩

theorem sent_by_processEvent {parse : Parser} {closed : Bool} {evt : NetworkEvent}
    (ho : o ∈ (app.processEvent parse env closed evt).2) (hm : sentMessage o = some m)
    (hline : ServerLine (handleServerMessage m))
    (hname : closed = false → ∀ s, app.userData evt.conn = some s → s.isLoggedIn = true →
      ¬ Impersonates s.username) : FromServer parse evt m := by
  refine ChatApp.processEvent_cases (P := fun r => o ∈ r.2 → FromServer parse evt m)
    nofun (fun _ => nofun) ?_ ?_ ho
  · intro htype ho
    obtain ⟨text, room, hnotice⟩ := sent_by_handleDisconnect ho hm
    exact .disconnect htype text room hnotice
  · intro payload hopen hevt ho
    obtain ⟨req, hparse, hgenerated⟩ := sent_by_handleMessage ho hm hline (hname hopen)
    have htype : evt.type = .message := by rw [hevt]
    have hpayload : evt.payload = some payload := by rw [hevt]
    exact .request htype payload hpayload req hparse hgenerated

end Handlers

section Names

variable {parse : Parser} {w : World}

/-- No LoginRequest is accepted with a name that reads like the server's. -/
def HonestLogin (parse : Parser) (w : World) (a : Action) : Prop :=
  ∀ login ∈ acceptedLogin parse w a, ¬ Impersonates login.2.2

instance (w : World) (a : Action) : Decidable (HonestLogin parse w a) :=
  inferInstanceAs (Decidable (∀ login ∈ acceptedLogin parse w a, ¬ Impersonates login.2.2))

theorem honest_names (hw : Reachable (machine parse) (HonestLogin parse) w) :
    ∀ c n, Holds w.tables.seats c n → ¬ Impersonates n := by
  refine hw.invariant_of_reachable
    (P := fun w => ∀ c n, Holds w.tables.seats c n → ¬ Impersonates n) ?_ ?_
  · intro c n ⟨room, hseat⟩
    cases hseat
  · intro w a w' hw h hallowed hnext c n hn
    cases next_effect (Orderly.reachable hw) hnext with
    | same htables =>
      rw [htables] at hn
      exact h c n hn
    | login conn s name haccepts htables =>
      rw [htables] at hn
      by_cases hc : c = conn
      · subst hc
        rw [holds_update_self.mp hn]
        exact hallowed _ haccepts
      · exact h c n ((holds_update_of_ne hc).mp hn)
    | join conn name old new hseat htables =>
      rw [htables] at hn
      exact h c n ((holds_move ⟨old, hseat⟩).mp hn)
    | leave conn name old hseat htables =>
      rw [htables] at hn
      by_cases hc : c = conn
      · subst hc
        exact absurd hn not_holds_update_none
      · exact h c n ((holds_update_of_ne hc).mp hn)

end Names

/-- In a run in which nobody logs in under a name that reads like the server's,
whatever is sent while an event is processed: if the client shows it with
"[Server]: " in front, the server has generated it on its own behalf. -/
theorem server_lines_authentic (parse : Parser) (w : World)
    (hw : Reachable (machine parse) (HonestLogin parse) w) (env : Env) (evt : NetworkEvent)
    (o : Output) (ho : o ∈ (w.app.processEvent parse env (w.closed evt.conn) evt).2)
    (m : ServerMessage) (hm : sentMessage o = some m)
    (hline : ServerLine (handleServerMessage m)) : FromServer parse evt m := by
  refine sent_by_processEvent ho hm hline ?_
  intro hopen s hs hin
  have hgone := (Orderly.reachable hw).not_gone_of_open hopen
  have hlive : LiveSession w evt.conn s := ⟨hs, hin, hgone⟩
  exact honest_names hw evt.conn s.username ⟨_, hlive.present⟩

section Samples

/-- The parser on the requests of a client that calls itself "Server". -/
def spoofParser : Parser
  | [0x0A, 8, 0x0A, 6, 0x53, 0x65, 0x72, 0x76, 0x65, 0x72] => some (.login ⟨"Server"⟩)
  | [0x0A, 3, 0x0A, 1, 0x61] => some (.login ⟨"a"⟩)
  | [0x12, 4, 0x0A, 2, 0x68, 0x69] => some (.globalChat ⟨"hi"⟩)
  | _ => none

/-- The answer to a login. -/
theorem server_lines_authentic_sample :
    ∃ w, Reachable (machine spoofParser) (HonestLogin spoofParser) w ∧
      FromServer spoofParser ⟨.message, 0, some [0x0A, 3, 0x0A, 1, 0x61]⟩
        (.loginResponse ⟨true, "Login successful."⟩) := by
  have hrun : (run (machine spoofParser) (HonestLogin spoofParser) World.init
      (requests 0 [])).any (fun w =>
      Output.sendProto 0 (.loginResponse ⟨true, "Login successful."⟩) ∈
        (w.app.processEvent spoofParser sampleEnv (w.closed 0)
          ⟨.message, 0, some [0x0A, 3, 0x0A, 1, 0x61]⟩).2) := by
    decide +kernel
  obtain ⟨w, hw, hsent⟩ := exists_reachable hrun
  exact ⟨w, hw, server_lines_authentic spoofParser w hw sampleEnv _ _ hsent _ rfl (by decide)⟩

/-- A client logs in as "Server", and its chat message is shown as the server's. -/
theorem server_line_forged :
    ∃ w m, Reachable (machine spoofParser) AnyStep w ∧
      Output.broadcastProto m ∈ (w.app.processEvent spoofParser sampleEnv (w.closed 0)
        ⟨.message, 0, some [0x12, 4, 0x0A, 2, 0x68, 0x69]⟩).2 ∧
      ServerLine (handleServerMessage m) ∧
      ¬ FromServer spoofParser ⟨.message, 0, some [0x12, 4, 0x0A, 2, 0x68, 0x69]⟩ m := by
  have hrun : (run (machine spoofParser) AnyStep World.init
      (requests 0 [[0x0A, 8, 0x0A, 6, 0x53, 0x65, 0x72, 0x76, 0x65, 0x72]])).any (fun w =>
      Output.broadcastProto (.chatBroadcast { sender := "Server", text := "hi" }) ∈
        (w.app.processEvent spoofParser sampleEnv (w.closed 0)
          ⟨.message, 0, some [0x12, 4, 0x0A, 2, 0x68, 0x69]⟩).2) := by
    decide +kernel
  obtain ⟨w, hw, hsent⟩ := exists_reachable hrun
  refine ⟨w, _, hw, hsent, by decide, ?_⟩
  intro hfrom
  cases hfrom with
  | disconnect htype text room h => cases htype
  | request htype payload hpayload req hparse h =>
    cases hpayload
    cases hparse
    cases h

end Samples

end ChatServer.Authenticity
