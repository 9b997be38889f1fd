import ChatServer.ChatTables

/-!
Whom the handlers send to. An event is handled with messages to its own
connection and to connections that were in the directory before, and it puts
no other connection into the directory. What the handlers compose themselves is
sent in the name of "Server".
-/
namespace ChatServer.Recipients

open ChatApp

variable {app : ChatApp} {env : Env} {conn d : ConnId} {msg : ServerMessage}

/-- The connection is in the directory, under whatever name. -/
def Listed (app : ChatApp) (d : ConnId) : Prop := ∃ n, app.onlineUsers n = some d

theorem listed_of_sendMembers {names : List String} {msg' : ServerMessage}
    (h : .sendProto d msg ∈ app.sendMembers names msg') : Listed app d := by
  obtain ⟨member, hmember, heq⟩ := List.mem_map.mp h
  cases heq
  obtain ⟨n, _, hn⟩ := List.mem_filterMap.mp hmember
  exact ⟨n, hn⟩

theorem listed_of_leaveRoom {room username text : String}
    (h : .sendProto d msg ∈ (app.leaveRoom env room username text).2) : Listed app d := by
  obtain ⟨n, hn⟩ := listed_of_sendMembers h
  exact ⟨n, hn⟩

theorem listed_of_enterRoom {room username : String}
    (h : .sendProto d msg ∈ (app.enterRoom env room username).2) : Listed app d := by
  unfold enterRoom at h
  split at h
  · obtain ⟨n, hn⟩ := listed_of_sendMembers h
    exact ⟨n, hn⟩
  · cases h

theorem listed_of_handleDisconnect
    (h : .sendProto d msg ∈ (app.handleDisconnect env conn).2) : Listed app d := by
  unfold handleDisconnect at h
  split at h
  · cases h
  · rename_i session hsession
    split at h
    · dsimp only at h
      split at h
      · obtain ⟨n, hn⟩ := listed_of_leaveRoom h
        dsimp only at hn
        rw [Function.update_apply] at hn
        split at hn
        · cases hn
        · exact ⟨n, hn⟩
      · cases h
    · cases h

theorem recipient_of_privateChat {s : ChatSession} {req : PrivateChatRequest}
    (h : .sendProto d msg ∈ app.handlePrivateChat env conn s req) : d = conn ∨ Listed app d := by
  unfold handlePrivateChat at h
  split at h
  · split at h
    · rename_i target htarget
      simp only [List.mem_cons, List.not_mem_nil, or_false, Output.sendProto.injEq] at h
      rcases h with ⟨rfl, _⟩ | ⟨rfl, _⟩
      · exact Or.inr ⟨_, htarget⟩
      · exact Or.inl rfl
    · simp only [List.mem_singleton, Output.sendProto.injEq] at h
      exact Or.inl h.1
  · cases h

theorem recipient_of_joinRoom {s : ChatSession} {req : JoinRoomRequest}
    (h : .sendProto d msg ∈ (app.handleJoinRoom env conn s req).2) : d = conn ∨ Listed app d := by
  unfold handleJoinRoom at h
  split at h
  · simp only [List.mem_append, List.mem_singleton, Output.sendProto.injEq] at h
    obtain (hleave | henter) | ⟨rfl, _⟩ := h
    · right
      split at hleave
      · exact listed_of_leaveRoom hleave
      · cases hleave
    · right
      obtain ⟨n, hn⟩ := listed_of_enterRoom henter
      rw [setSession_onlineUsers] at hn
      split at hn
      · rw [leaveRoom_onlineUsers] at hn
        exact ⟨n, hn⟩
      · exact ⟨n, hn⟩
    · exact Or.inl rfl
  · cases h

theorem recipient_of_roomChat {s : ChatSession} {req : RoomChatRequest}
    (h : .sendProto d msg ∈ (app.handleRoomChat env conn s req).2) : d = conn ∨ Listed app d := by
  unfold handleRoomChat at h
  split at h
  · simp only [List.mem_singleton, Output.sendProto.injEq] at h
    exact Or.inl h.1
  · split at h
    · cases h
    · exact Or.inr (listed_of_sendMembers h)

theorem recipient_of_dispatch {s : ChatSession} {request : ClientMessage}
    (h : .sendProto d msg ∈ (app.dispatch env conn s request).2) : d = conn ∨ Listed app d := by
  cases request with
  | login req =>
    rw [dispatch, handleLogin] at h
    dsimp only at h
    split at h
    · simp only [List.mem_singleton, Output.sendProto.injEq] at h
      exact Or.inl h.1
    · simp only [List.mem_singleton, Output.sendProto.injEq] at h
      exact Or.inl h.1
  | globalChat req =>
    rw [dispatch, handleGlobalChat] at h
    split at h
    · simp at h
    · cases h
  | privateChat req => exact recipient_of_privateChat h
  | joinRoom req => exact recipient_of_joinRoom h
  | roomChat req => exact recipient_of_roomChat h
  | payloadNotSet => cases h

theorem recipient_of_handleMessage {parse : Parser} {rawData : Bytes}
    (h : .sendProto d msg ∈ (app.handleMessage parse env conn rawData).2) :
    d = conn ∨ Listed app d := by
  refine handleMessage_cases (P := fun r => .sendProto d msg ∈ r.2 → d = conn ∨ Listed app d)
    nofun ?_ ?_ h
  · intro session reason _ h
    simp only [List.mem_cons, List.not_mem_nil, or_false, Output.sendProto.injEq,
      reduceCtorEq] at h
    exact Or.inl h.1
  · intro session request _ _ _ h
    rcases recipient_of_dispatch h with heq | ⟨n, hn⟩
    · exact Or.inl heq
    · exact Or.inr ⟨n, hn⟩

/-- An event is answered to its own connection and to those in the directory. -/
theorem recipient {parse : Parser} {closed : Bool} {evt : NetworkEvent}
    (h : .sendProto d msg ∈ (app.processEvent parse env closed evt).2) :
    d = evt.conn ∨ Listed app d := by
  refine processEvent_cases (P := fun r => .sendProto d msg ∈ r.2 → d = evt.conn ∨ Listed app d)
    nofun (fun _ => nofun) ?_ ?_ h
  · intro _ h
    exact Or.inr (listed_of_handleDisconnect h)
  · intro payload _ _ h
    exact recipient_of_handleMessage h

theorem listed_of_handleMessage {parse : Parser} {rawData : Bytes}
    (h : Listed (app.handleMessage parse env conn rawData).1 d) : d = conn ∨ Listed app d := by
  obtain ⟨n, hn⟩ := h
  have hdir : (app.handleMessage parse env conn rawData).1.tables.dir n = some d := hn
  have heffect : MessageEffect parse app env conn rawData
    (app.handleMessage parse env conn rawData).1.tables := handleMessage_tables
  cases heffect with
  | same heq =>
    rw [heq] at hdir
    exact Or.inr ⟨n, hdir⟩
  | login s req hs hparse hpaid hfree hname heq =>
    rw [heq] at hdir
    dsimp only at hdir
    rw [Function.update_apply] at hdir
    split at hdir
    · exact Or.inl (Option.some.inj hdir).symm
    · exact Or.inr ⟨n, hdir⟩
  | join s room hs hin heq =>
    rw [heq] at hdir
    exact Or.inr ⟨n, hdir⟩

theorem listed_of_disconnected (h : Listed (app.handleDisconnect env conn).1 d) :
    Listed app d := by
  obtain ⟨n, hn⟩ := h
  have hdir : (app.handleDisconnect env conn).1.tables.dir n = some d := hn
  rcases handleDisconnect_tables app env conn with ⟨n', room, _, heq⟩ | ⟨_, heq⟩
  · rw [heq] at hdir
    dsimp only at hdir
    rw [Function.update_apply] at hdir
    split at hdir
    · cases hdir
    · exact ⟨n, hdir⟩
  · rw [heq] at hdir
    exact ⟨n, hdir⟩

/-- An event lists its own connection and no other. -/
theorem listed_after {parse : Parser} {closed : Bool} {evt : NetworkEvent}
    (h : Listed (app.processEvent parse env closed evt).1 d) : d = evt.conn ∨ Listed app d := by
  refine processEvent_cases (P := fun r => Listed r.1 d → d = evt.conn ∨ Listed app d)
    Or.inr (fun _ => Or.inr) ?_ ?_ h
  · intro _ h
    exact Or.inr (listed_of_disconnected h)
  · intro payload _ _ h
    exact listed_of_handleMessage h

/-- The session of a connection changes with its own events only. -/
theorem processEvent_userData_of_ne {parse : Parser} {closed : Bool} {evt : NetworkEvent}
    (h : d ≠ evt.conn) :
    (app.processEvent parse env closed evt).1.userData d = app.userData d := by
  refine processEvent_cases (P := fun r => r.1.userData d = app.userData d) rfl ?_ ?_ ?_
  · intro _
    exact setSession_userData_of_ne h
  · intro _
    rw [handleDisconnect_userData]
  · intro payload _ _
    exact handleMessage_userData_of_ne h

section Messages

/-- The message that a call sends. -/
def sentMessage : Output → Option ServerMessage
  | .sendProto _ msg => some msg
  | .broadcastProto msg => some msg
  | .close _ => none

/-- A text that a handler has composed itself. -/
def notice (text room : String) : ServerMessage :=
  .chatBroadcast { sender := "Server", text := text, originRoom := room }

variable {s : ChatSession} {o : Output} {m : ServerMessage}

theorem sent_by_members {names : List String} {msg : ServerMessage}
    (ho : o ∈ app.sendMembers names msg) (hm : sentMessage o = some m) : m = msg := by
  obtain ⟨d, _, rfl⟩ := List.mem_map.mp ho
  exact (Option.some.inj hm).symm

theorem sent_by_leaveRoom {room username text : String}
    (ho : o ∈ (app.leaveRoom env room username text).2) (hm : sentMessage o = some m) :
    m = notice text room := sent_by_members ho hm

theorem sent_by_enterRoom {room username : String}
    (ho : o ∈ (app.enterRoom env room username).2) (hm : sentMessage o = some m) :
    ∃ text, m = notice text room := by
  unfold enterRoom at ho
  split at ho
  · exact ⟨_, sent_by_members ho hm⟩
  · cases ho

theorem sent_by_handleDisconnect (ho : o ∈ (app.handleDisconnect env conn).2)
    (hm : sentMessage o = some m) : ∃ text room, m = notice text room := by
  unfold handleDisconnect at ho
  split at ho
  · cases ho
  · split at ho
    · dsimp only at ho
      split at ho
      · exact ⟨_, _, sent_by_leaveRoom ho hm⟩
      · cases ho
    · cases ho

theorem sent_by_handleJoinRoom {req : JoinRoomRequest}
    (ho : o ∈ (app.handleJoinRoom env conn s req).2) (hm : sentMessage o = some m) :
    ∃ text room, m = notice text room := by
  unfold handleJoinRoom at ho
  split at ho
  · simp only [List.mem_append, List.mem_singleton] at ho
    obtain (hleave | henter) | rfl := ho
    · split at hleave
      · exact ⟨_, _, sent_by_leaveRoom hleave hm⟩
      · cases hleave
    · obtain ⟨text, htext⟩ := sent_by_enterRoom henter hm
      exact ⟨text, _, htext⟩
    · obtain rfl := Option.some.inj hm
      unfold joinConfirmation
      split
      · exact ⟨_, _, rfl⟩
      · exact ⟨_, _, rfl⟩
  · cases ho

/-- Only a LoginRequest of the connection itself is answered with a LoginResponse. -/
theorem loginResponse_of_dispatch {request : ClientMessage} {resp : LoginResponse}
    (h : .sendProto d (.loginResponse resp) ∈ (app.dispatch env conn s request).2) :
    d = conn ∧ ∃ req, request = .login req := by
  cases request with
  | login req =>
    simp only [dispatch, handleLogin] at h
    split at h
    · cases List.mem_singleton.mp h
      exact ⟨rfl, req, rfl⟩
    · cases List.mem_singleton.mp h
      exact ⟨rfl, req, rfl⟩
  | globalChat req =>
    simp only [dispatch, handleGlobalChat] at h
    split at h
    · cases List.mem_singleton.mp h
    · cases h
  | privateChat req =>
    simp only [dispatch, handlePrivateChat] at h
    split at h
    · split at h
      · simp at h
      · simp at h
    · cases h
  | joinRoom req =>
    obtain ⟨text, room, hnotice⟩ := sent_by_handleJoinRoom h rfl
    cases hnotice
  | roomChat req =>
    simp only [dispatch, handleRoomChat] at h
    split at h
    · cases List.mem_singleton.mp h
    · split at h
      · cases h
      · cases sent_by_members h rfl
  | payloadNotSet => cases h

theorem loginResponse_of_processEvent {parse : Parser} {closed : Bool} {evt : NetworkEvent}
    {resp : LoginResponse}
    (h : .sendProto d (.loginResponse resp) ∈ (app.processEvent parse env closed evt).2) :
    d = evt.conn ∧ ∃ payload req, evt = ⟨.message, evt.conn, some payload⟩ ∧
      parse payload = some (.login req) := by
  refine processEvent_cases (P := fun r => .sendProto d (.loginResponse resp) ∈ r.2 → _)
    nofun (fun _ => nofun) ?_ ?_ h
  · intro _ h
    obtain ⟨text, room, hnotice⟩ := sent_by_handleDisconnect h rfl
    cases hnotice
  · intro payload _ hevt h
    refine handleMessage_cases (P := fun r => .sendProto d (.loginResponse resp) ∈ r.2 → _)
      nofun ?_ ?_ h
    · intro session reason _ h
      simp at h
    · intro session msg _ hparse _ h
      obtain ⟨hd, req, rfl⟩ := loginResponse_of_dispatch h
      exact ⟨hd, payload, req, hevt, hparse⟩

end Messages

end ChatServer.Recipients
