import ChatServer.Directory

/-!
Rooms. Membership is stored twice: by name in `rooms_`, and in the session's
`current_room`. The two agree as long as nobody in a room logs in again, since
then the name in the room is no longer the name of the session. A message to a
room is looked up by these names, so it reaches exactly the room under the
same condition.
-/
namespace ChatServer.Rooms

open LogicThread Lib.Seating Lib.Runs Directory

variable {parse : Parser} {allowed : World → Action → Prop} {w : World}

/-- No LoginRequest is accepted on a session that is in a room. -/
def LoginOutside (parse : Parser) (w : World) (a : Action) : Prop :=
  ∀ login ∈ acceptedLogin parse w a, login.2.1.currentRoom = ""

instance (w : World) (a : Action) : Decidable (LoginOutside parse w a) :=
  inferInstanceAs (Decidable (∀ login ∈ acceptedLogin parse w a, login.2.1.currentRoom = ""))

theorem members (hw : Reachable (machine parse) (LoginOutside parse) w) :
    Members w.tables.rooms w.tables.seats := by
  refine hw.invariant_of_reachable (P := fun w => Members w.tables.rooms w.tables.seats) ?_ ?_
  · intro r n
    refine iff_of_false (Finset.notMem_empty n) ?_
    intro ⟨c, hc⟩
    cases hc
  · intro w a w' hw h houtside hnext
    have hunique : ∀ c n, Holds w.present c n → ∀ d, Holds w.present d n → d = c :=
      fun c n hc d hd => (listed hw).unique hd hc
    cases next_effect (Orderly.reachable hw) hnext with
    | same htables =>
      rw [htables]
      exact h
    | login conn s name haccepts htables =>
      obtain ⟨hopen, hsession, _⟩ := acceptedLogin_spec haccepts
      have hroom : roomOf s.currentRoom = none := if_pos (houtside _ haccepts)
      have hgone := (Orderly.reachable hw).not_gone_of_open hopen
      have hnot : ∀ n r, ¬ Sits w.present conn n r := by
        intro n r hseat
        obtain ⟨t, ht, _, hr⟩ := present_eq_some hseat
        have hst : some s = some t := hsession.symm.trans ht.session
        cases hst
        rw [hroom] at hr
        cases hr
      rw [htables, hroom]
      exact h.outside hnot nofun
    | join conn name old new hseat htables =>
      rw [htables]
      exact h.move (hunique conn name ⟨old, hseat⟩) hseat new
    | leave conn name old hseat htables =>
      rw [htables]
      exact h.stand (hunique conn name ⟨old, hseat⟩) hseat nofun

/-- In a run where nobody logs in from inside a room, a name is in a room
exactly when a live session has this name and this room. -/
theorem room_members (parse : Parser) (w : World)
    (hw : Reachable (machine parse) (LoginOutside parse) w) (r : String) (hr : r ≠ "")
    (n : String) :
    n ∈ w.app.roomAt r ↔ ∃ c s, LiveSession w c s ∧ s.username = n ∧ s.currentRoom = r := by
  refine (members hw r n).trans ?_
  exact exists_congr fun c => sits_present_iff hr

theorem room_members_sample :
    ∃ w, Reachable (machine sampleParser) (LoginOutside sampleParser) w ∧
      "a" ∈ w.app.roomAt "r" ∧
      ∃ c s, LiveSession w c s ∧ s.username = "a" ∧ s.currentRoom = "r" := by
  have hrun : (run (machine sampleParser) (LoginOutside sampleParser) World.init
      (requests 0 [[0x0A, 3, 0x0A, 1, 0x61], [0x22, 3, 0x0A, 1, 0x72]])).any
      (fun w => "a" ∈ w.app.roomAt "r") := by
    decide +kernel
  obtain ⟨w, hw, hmem⟩ := exists_reachable hrun
  exact ⟨w, hw, hmem, (room_members sampleParser w hw "r" (by decide) "a").mp hmem⟩

/-- A login from inside a room: the old name stays in the room. -/
theorem room_keeps_old_name :
    ∃ w, Reachable (machine sampleParser) AnyStep w ∧ "a" ∈ w.app.roomAt "r" ∧
      ¬ ∃ c s, LiveSession w c s ∧ s.username = "a" ∧ s.currentRoom = "r" := by
  have hrun : (run (machine sampleParser) AnyStep World.init
      (requests 0 [[0x0A, 3, 0x0A, 1, 0x61], [0x22, 3, 0x0A, 1, 0x72],
        [0x0A, 3, 0x0A, 1, 0x62]])).any (fun w =>
      "a" ∈ w.app.roomAt "r" ∧ w.app.onlineUsers "a" = some 0 ∧
        (w.app.userData 0).map ChatSession.username = some "b") := by
    decide +kernel
  obtain ⟨w, hw, hmem, hdir, hv⟩ := exists_reachable hrun
  obtain ⟨t, ht, hb⟩ := Option.map_eq_some_iff.mp hv
  refine ⟨w, hw, hmem, ?_⟩
  intro ⟨c, s, hs, hname, _⟩
  have hlisted : w.app.onlineUsers s.username = some c := listed hw c _ ⟨_, hs.present⟩
  have hc : some 0 = some c := by rw [← hdir, ← hname, hlisted]
  cases hc
  have hst : some t = some s := ht.symm.trans hs.session
  cases hst
  rw [hname] at hb
  exact absurd hb (by decide)

/-- The message that HandleRoomChat sends. -/
def roomMessage (s : ChatSession) (req : RoomChatRequest) : ServerMessage :=
  .chatBroadcast { sender := s.username, text := req.text, originRoom := req.roomName }

theorem handleRoomChat_calls {app : ChatApp} {env : Env} {c : ConnId} {s : ChatSession}
    {req : RoomChatRequest} (hin : s.isLoggedIn = true) (hroom : s.currentRoom = req.roomName)
    (hr : req.roomName ≠ "") :
    (app.handleRoomChat env c s req).2 =
      app.sendMembers (env.order req.roomName (app.roomAt req.roomName)) (roomMessage s req) := by
  have hguard : ¬ (s.isLoggedIn = false ∨ s.currentRoom = "") := by
    simp [hin, hroom, hr]
  unfold ChatApp.handleRoomChat
  rw [if_neg hguard, if_neg (not_not.mpr hroom), hroom]
  rfl

/-- A message that passes the rate limiter reaches its handler with the charged session. -/
theorem processEvent_roomChat {app : ChatApp} {env : Env} {c : ConnId} {s : ChatSession}
    {rawData : Bytes} {req : RoomChatRequest} (hsession : app.userData c = some s)
    (hparse : parse rawData = some (.roomChat req))
    (hpaid : ¬ (s.refill env.now).tokens < 1) :
    app.processEvent parse env false ⟨.message, c, some rawData⟩ =
      (app.setSession c (s.refill env.now).charge).handleRoomChat env c
        (s.refill env.now).charge req := by
  have hopen : ¬ (false = true ∧ EventType.message ≠ .disconnect) :=
    fun h => Bool.false_ne_true h.1
  simp only [ChatApp.processEvent, if_neg hopen, ChatApp.handleMessage, hsession, hparse, hpaid,
    if_false, ChatApp.dispatch]

/-- In a run where nobody logs in from inside a room, the message of a
connection to its room is sent to everyone whose session is in the room, once
each, and to nobody else. A request for no room is answered with an error. -/
theorem room_chat_delivers (parse : Parser) (w : World)
    (hw : Reachable (machine parse) (LoginOutside parse) w) (env : Env) (c : ConnId)
    (s : ChatSession) (rawData : Bytes) (req : RoomChatRequest) (hopen : w.closed c = false)
    (hsession : w.app.userData c = some s) (hin : s.isLoggedIn = true)
    (hparse : parse rawData = some (.roomChat req))
    (hpaid : ¬ (s.refill env.now).tokens < 1) (hroom : s.currentRoom = req.roomName) :
    (req.roomName ≠ "" → ∃ recipients : List ConnId,
      (w.app.processEvent parse env (w.closed c) ⟨.message, c, some rawData⟩).2 =
        recipients.map (Output.sendProto · (roomMessage s req)) ∧
      recipients.Nodup ∧
      ∀ d, d ∈ recipients ↔ ∃ t, LiveSession w d t ∧ t.currentRoom = req.roomName) ∧
    (req.roomName = "" →
      (w.app.processEvent parse env (w.closed c) ⟨.message, c, some rawData⟩).2 =
        [.sendProto c (.error
          ⟨"You must be logged in and in a room to send room chat messages."⟩)]) := by
  rw [hopen, processEvent_roomChat hsession hparse hpaid]
  constructor
  · intro hr
    have horder := env.mem_order req.roomName (w.app.roomAt req.roomName)
    have hnodup := env.nodup_order req.roomName (w.app.roomAt req.roomName)
    obtain ⟨honce, hmem⟩ := (listed hw).lookup_members (members hw) horder hnodup
    refine ⟨_, handleRoomChat_calls hin hroom hr, honce, ?_⟩
    intro d
    refine (hmem d).trans ?_
    constructor
    · intro ⟨n, hn⟩
      obtain ⟨t, ht, _, htroom⟩ := (sits_present_iff hr).mp hn
      exact ⟨t, ht, htroom⟩
    · intro ⟨t, ht, htroom⟩
      exact ⟨t.username, (sits_present_iff hr).mpr ⟨t, ht, rfl, htroom⟩⟩
  · intro hr
    have houtside : (s.refill env.now).charge.currentRoom = "" := hroom.trans hr
    unfold ChatApp.handleRoomChat
    rw [if_pos (Or.inr houtside)]

/-- A connection alone in its room. -/
theorem room_chat_sample :
    ∃ w, Reachable (machine sampleParser) (LoginOutside sampleParser) w ∧
      ∃ recipients : List ConnId,
        (w.app.processEvent sampleParser sampleEnv (w.closed 0)
          ⟨.message, 0, some [0x2A, 3, 0x0A, 1, 0x72]⟩).2 =
          recipients.map (Output.sendProto ·
            (.chatBroadcast { sender := "a", text := "", originRoom := "r" })) ∧
        0 ∈ recipients := by
  have hrun : (run (machine sampleParser) (LoginOutside sampleParser) World.init
      (requests 0 [[0x0A, 3, 0x0A, 1, 0x61], [0x22, 3, 0x0A, 1, 0x72]])).any (fun w =>
      w.closed 0 = false ∧ w.gone 0 = false ∧ (w.app.userData 0).any fun s =>
        s.isLoggedIn = true ∧ s.username = "a" ∧ s.currentRoom = "r" ∧
          ¬ (s.refill 0).tokens < 1) := by
    decide +kernel
  obtain ⟨w, hw, hopen, hgone, hv⟩ := exists_reachable hrun
  obtain ⟨s, hs, hsession⟩ := (Option.any_eq_true _ _).mp hv
  obtain ⟨hin, hname, hroom, hpaid⟩ := of_decide_eq_true hsession
  obtain ⟨recipients, hcalls, _, hmem⟩ := (room_chat_delivers sampleParser w hw sampleEnv 0 s
    [0x2A, 3, 0x0A, 1, 0x72] ⟨"r", ""⟩ hopen hs hin rfl hpaid hroom).1 (by decide)
  rw [roomMessage, hname] at hcalls
  exact ⟨w, hw, recipients, hcalls, (hmem 0).mpr ⟨s, ⟨hs, hin, hgone⟩, hroom⟩⟩

/-- A connection logs in from inside a room and leaves it. Another one joins
the room, and its message goes to the one that has left as well. -/
theorem room_message_leaks :
    ∃ w s t, Reachable (machine sampleParser) AnyStep w ∧
      LiveSession w 0 s ∧ s.currentRoom = "" ∧ LiveSession w 1 t ∧ t.currentRoom = "r" ∧
      (w.app.processEvent sampleParser sampleEnv (w.closed 1)
        ⟨.message, 1, some [0x2A, 3, 0x0A, 1, 0x72]⟩).2 =
        [.sendProto 0 (.chatBroadcast { sender := "c", text := "", originRoom := "r" }),
          .sendProto 1 (.chatBroadcast { sender := "c", text := "", originRoom := "r" })] := by
  have hrun : (run (machine sampleParser) AnyStep World.init
      (requests 0 [[0x0A, 3, 0x0A, 1, 0x61], [0x22, 3, 0x0A, 1, 0x72],
          [0x0A, 3, 0x0A, 1, 0x62], [0x22, 0]] ++
        requests 1 [[0x0A, 3, 0x0A, 1, 0x63], [0x22, 3, 0x0A, 1, 0x72]])).any (fun w =>
      w.gone 0 = false ∧ w.gone 1 = false ∧
        (w.app.userData 0).map (fun s => (s.isLoggedIn, s.currentRoom)) = some (true, "") ∧
        (w.app.userData 1).map (fun t => (t.isLoggedIn, t.currentRoom)) = some (true, "r") ∧
        (w.app.processEvent sampleParser sampleEnv (w.closed 1)
          ⟨.message, 1, some [0x2A, 3, 0x0A, 1, 0x72]⟩).2 =
        [.sendProto 0 (.chatBroadcast { sender := "c", text := "", originRoom := "r" }),
          .sendProto 1 (.chatBroadcast { sender := "c", text := "", originRoom := "r" })]) := by
    decide +kernel
  obtain ⟨w, hw, hgone₀, hgone₁, h₀, h₁, hcalls⟩ := exists_reachable hrun
  simp only [Option.map_eq_some_iff, Prod.mk.injEq] at h₀ h₁
  obtain ⟨s, hs, hin, hout⟩ := h₀
  obtain ⟨t, ht, hin', hroom⟩ := h₁
  exact ⟨w, s, t, hw, ⟨hs, hin, hgone₀⟩, hout, ⟨ht, hin', hgone₁⟩, hroom, hcalls⟩

end ChatServer.Rooms
