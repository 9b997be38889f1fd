import ChatServer.ChatApp
import ChatServer.Lib.Seating

/-!
What the handlers do to the tables of the application: the directory of online
users, the names in each room, and the seat that each session gives its
connection. A handler that is not mentioned below changes none of them.
-/
namespace ChatServer

open Lib.Seating

/-- An empty `current_room` is no room. -/
def roomOf (currentRoom : String) : Option String :=
  if currentRoom = "" then none else some currentRoom

def ChatSession.seat (session : ChatSession) : Option (Seat String String) :=
  if session.isLoggedIn then some ⟨session.username, roomOf session.currentRoom⟩ else none

theorem ChatSession.seat_of_loggedIn {s : ChatSession} (h : s.isLoggedIn = true) :
    s.seat = some ⟨s.username, roomOf s.currentRoom⟩ := if_pos h

theorem ChatSession.seat_of_not_loggedIn {s : ChatSession} (h : s.isLoggedIn = false) :
    s.seat = none := by
  rw [ChatSession.seat, h]
  rfl

theorem ChatSession.seat_eq_some {s : ChatSession} {n : String} {room : Option String}
    (h : s.seat = some ⟨n, room⟩) :
    s.isLoggedIn = true ∧ s.username = n ∧ roomOf s.currentRoom = room := by
  cases hin : s.isLoggedIn with
  | false =>
    rw [ChatSession.seat_of_not_loggedIn hin] at h
    cases h
  | true =>
    rw [ChatSession.seat_of_loggedIn hin] at h
    cases h
    exact ⟨rfl, rfl, rfl⟩

/-- The seats that the sessions give to the connections. -/
def ChatApp.seats (app : ChatApp) : Roster ConnId String String :=
  fun conn => (app.userData conn).bind ChatSession.seat

namespace ChatApp

variable {app : ChatApp} {env : Env} {conn : ConnId} {s : ChatSession}

theorem seats_of_session (h : app.userData conn = some s) : app.seats conn = s.seat := by
  rw [seats, h]
  rfl

theorem seats_of_none (h : app.userData conn = none) : app.seats conn = none := by
  rw [seats, h]
  rfl

@[simp]
theorem setSession_onlineUsers : (app.setSession conn s).onlineUsers = app.onlineUsers := rfl

@[simp]
theorem setSession_roomAt : (app.setSession conn s).roomAt = app.roomAt := rfl

theorem setSession_userData_self : (app.setSession conn s).userData conn = some s :=
  Function.update_self ..

theorem setSession_seats :
    (app.setSession conn s).seats = Function.update app.seats conn s.seat := by
  funext d
  by_cases hd : d = conn
  · subst hd
    rw [Function.update_self]
    exact seats_of_session setSession_userData_self
  · rw [Function.update_of_ne hd]
    simp only [seats, setSession, Function.update_of_ne hd]

/-- A session that keeps its seat keeps all seats. -/
theorem setSession_seats_same {old : ChatSession} (h : app.userData conn = some old)
    (hseat : s.seat = old.seat) : (app.setSession conn s).seats = app.seats := by
  rw [setSession_seats, hseat, ← seats_of_session h, Function.update_eq_self]

@[simp]
theorem setRoom_onlineUsers {room : String} {names : Finset String} :
    (app.setRoom room names).onlineUsers = app.onlineUsers := rfl

@[simp]
theorem setRoom_seats {room : String} {names : Finset String} :
    (app.setRoom room names).seats = app.seats := rfl

theorem setRoom_roomAt {room : String} {names : Finset String} :
    (app.setRoom room names).roomAt = Function.update app.roomAt room names := by
  funext r
  by_cases hr : r = room
  · subst hr
    simp only [roomAt, setRoom, Function.update_self, Option.getD_some]
  · simp only [roomAt, setRoom, Function.update_of_ne hr]

theorem eraseRoom_roomAt {room : String} (h : app.roomAt room = ∅) :
    (app.eraseRoom room).roomAt = app.roomAt := by
  funext r
  by_cases hr : r = room
  · subst hr
    rw [h]
    simp only [roomAt, eraseRoom, Function.update_self, Option.getD_none]
  · simp only [roomAt, eraseRoom, Function.update_of_ne hr]

section LeaveRoom

variable {room username text : String}

theorem leaveRoom_onlineUsers :
    (app.leaveRoom env room username text).1.onlineUsers = app.onlineUsers := by
  unfold leaveRoom
  dsimp only
  split <;> rfl

theorem leaveRoom_userData :
    (app.leaveRoom env room username text).1.userData = app.userData := by
  unfold leaveRoom
  dsimp only
  split <;> rfl

theorem leaveRoom_seats : (app.leaveRoom env room username text).1.seats = app.seats := by
  unfold seats
  rw [leaveRoom_userData]

/-- Whether the empty room is deleted does not show in its names. -/
theorem leaveRoom_roomAt :
    (app.leaveRoom env room username text).1.roomAt =
      stand app.roomAt username (some room) := by
  unfold leaveRoom
  dsimp only
  split
  · rename_i hempty
    rw [eraseRoom_roomAt, setRoom_roomAt]
    · rfl
    · rw [setRoom_roomAt, Function.update_self]
      exact hempty
  · exact setRoom_roomAt

end LeaveRoom

section EnterRoom

variable {room username : String}

theorem enterRoom_onlineUsers :
    (app.enterRoom env room username).1.onlineUsers = app.onlineUsers := by
  unfold enterRoom
  split <;> rfl

theorem enterRoom_seats : (app.enterRoom env room username).1.seats = app.seats := by
  unfold enterRoom
  split <;> rfl

theorem enterRoom_roomAt :
    (app.enterRoom env room username).1.roomAt = sit app.roomAt username (roomOf room) := by
  unfold enterRoom roomOf
  by_cases hroom : room = ""
  · rw [if_neg (not_not.mpr hroom), if_pos hroom]
    rfl
  · rw [if_pos hroom, if_neg hroom]
    exact setRoom_roomAt

end EnterRoom

/-- The directory, the rooms and the seats. -/
structure Tables where
  dir : String → Option ConnId
  rooms : String → Finset String
  seats : Roster ConnId String String

def tables (app : ChatApp) : Tables := ⟨app.onlineUsers, app.roomAt, app.seats⟩

theorem handleConnect_tables (h : app.userData conn = none) :
    (app.handleConnect env conn).tables = app.tables := by
  have hseats : (app.handleConnect env conn).seats = app.seats := by
    rw [handleConnect, setSession_seats, show (ChatSession.new env.now).seat = none from rfl,
      ← seats_of_none h, Function.update_eq_self]
  simp only [tables, hseats]
  rfl

/-- An accepted LoginRequest, and every other one. -/
theorem handleLogin_tables (app : ChatApp) (conn : ConnId) (s : ChatSession)
    (req : LoginRequest) :
    (app.onlineUsers req.username = none ∧ req.username ≠ "" ∧
      (app.handleLogin conn s req).1.tables =
        { app.tables with
          dir := Function.update app.onlineUsers req.username (some conn)
          seats := Function.update app.seats conn
            (some ⟨req.username, roomOf s.currentRoom⟩) }) ∨
    (app.handleLogin conn s req).1 = app := by
  unfold handleLogin
  dsimp only
  split
  · rename_i h
    left
    refine ⟨h.1, h.2, ?_⟩
    simp only [tables, Tables.mk.injEq, true_and]
    exact ⟨rfl, setSession_seats⟩
  · exact Or.inr rfl

theorem handleJoinRoom_tables (app : ChatApp) (env : Env) (conn : ConnId) (s : ChatSession)
    (req : JoinRoomRequest) :
    (s.isLoggedIn = true ∧
      (app.handleJoinRoom env conn s req).1.tables =
        { app.tables with
          rooms := sit (stand app.roomAt s.username (roomOf s.currentRoom)) s.username
            (roomOf req.roomName)
          seats := Function.update app.seats conn
            (some ⟨s.username, roomOf req.roomName⟩) }) ∨
    (app.handleJoinRoom env conn s req).1 = app := by
  unfold handleJoinRoom
  split
  · rename_i hin
    left
    refine ⟨hin, ?_⟩
    dsimp only
    have hseat : (s.enter req.roomName hin).seat = some ⟨s.username, roomOf req.roomName⟩ :=
      ChatSession.seat_of_loggedIn hin
    by_cases hold : s.currentRoom = ""
    · rw [if_neg (not_not.mpr hold)]
      simp only [tables, enterRoom_onlineUsers, enterRoom_seats, enterRoom_roomAt,
        setSession_onlineUsers, setSession_roomAt, setSession_seats, hseat, roomOf, hold,
        if_true, stand]
    · rw [if_pos hold]
      simp only [tables, enterRoom_onlineUsers, enterRoom_seats, enterRoom_roomAt,
        setSession_onlineUsers, setSession_roomAt, setSession_seats, hseat, leaveRoom_onlineUsers,
        leaveRoom_seats, leaveRoom_roomAt, roomOf, hold, if_false]
  · exact Or.inr rfl

theorem handleRoomChat_tables {req : RoomChatRequest} :
    (app.handleRoomChat env conn s req).1.tables = app.tables := by
  unfold handleRoomChat
  split
  · rfl
  · split
    · rfl
    · dsimp only
      simp only [tables, setRoom_onlineUsers, setRoom_seats, setRoom_roomAt,
        Function.update_eq_self]

/-- A user who was logged in leaves the directory and the room. -/
theorem handleDisconnect_tables (app : ChatApp) (env : Env) (conn : ConnId) :
    (∃ n room, app.seats conn = some ⟨n, room⟩ ∧
      (app.handleDisconnect env conn).1.tables =
        { app.tables with
          dir := Function.update app.onlineUsers n none
          rooms := stand app.roomAt n room }) ∨
    app.seats conn = none ∧ (app.handleDisconnect env conn).1 = app := by
  unfold handleDisconnect
  split
  · rename_i hnone
    exact Or.inr ⟨seats_of_none hnone, rfl⟩
  · rename_i session hsome
    rw [seats_of_session hsome]
    cases hin : session.isLoggedIn with
    | false =>
      right
      refine ⟨ChatSession.seat_of_not_loggedIn hin, ?_⟩
      rw [if_neg (fun h => Bool.false_ne_true h.1)]
    | true =>
      left
      refine ⟨session.username, roomOf session.currentRoom,
        ChatSession.seat_of_loggedIn hin, ?_⟩
      rw [if_pos ⟨rfl, session.named hin⟩]
      dsimp only
      by_cases hroom : session.currentRoom = ""
      · rw [if_neg (not_not.mpr hroom)]
        simp only [tables, roomOf, hroom, if_true, stand]
        rfl
      · rw [if_pos hroom]
        simp only [tables, leaveRoom_onlineUsers, leaveRoom_seats, leaveRoom_roomAt, roomOf, hroom,
          if_false]
        rfl

/-- The session after its tokens were refilled and one was taken has the same seat. -/
theorem seat_charge (now : ℚ) : (s.refill now).charge.seat = s.seat := rfl

/-- What handling a message does to the tables. -/
inductive MessageEffect (parse : Parser) (app : ChatApp) (env : Env) (conn : ConnId)
    (rawData : Bytes) (tables : Tables) : Prop
  | same (h : tables = app.tables)
  | login (s : ChatSession) (req : LoginRequest) (hs : app.userData conn = some s)
      (hparse : parse rawData = some (.login req)) (hpaid : ¬ (s.refill env.now).tokens < 1)
      (hfree : app.onlineUsers req.username = none) (hname : req.username ≠ "")
      (h : tables = { app.tables with
        dir := Function.update app.onlineUsers req.username (some conn)
        seats := Function.update app.seats conn
          (some ⟨req.username, roomOf s.currentRoom⟩) })
  | join (s : ChatSession) (room : Option String) (hs : app.userData conn = some s)
      (hin : s.isLoggedIn = true)
      (h : tables = { app.tables with
        rooms := sit (stand app.roomAt s.username (roomOf s.currentRoom)) s.username room
        seats := Function.update app.seats conn (some ⟨s.username, room⟩) })

/-- The cases of HandleMessage: the message is dropped, or the rate limiter
refuses it, or it takes a token and gets to its handler. -/
theorem handleMessage_cases {parse : Parser} {rawData : Bytes}
    {P : ChatApp × List Output → Prop} (dropped : P (app, []))
    (refused : ∀ session reason, app.userData conn = some session →
      P (app.setSession conn (session.refill env.now),
        [.sendProto conn (.error ⟨reason⟩), .close conn]))
    (handled : ∀ session msg, app.userData conn = some session → parse rawData = some msg →
      ¬ (session.refill env.now).tokens < 1 →
      P ((app.setSession conn (session.refill env.now).charge).dispatch env conn
        (session.refill env.now).charge msg)) :
    P (app.handleMessage parse env conn rawData) := by
  unfold handleMessage
  split
  · exact dropped
  · rename_i session hsession
    split
    · exact dropped
    · rename_i msg hparse
      dsimp only
      split
      · exact refused session _ hsession
      · rename_i hpaid
        exact handled session msg hsession hparse hpaid

theorem handleMessage_tables {parse : Parser} {rawData : Bytes} :
    MessageEffect parse app env conn rawData
      (app.handleMessage parse env conn rawData).1.tables := by
  have hsame : ∀ session s' : ChatSession, app.userData conn = some session →
      s'.seat = session.seat → (app.setSession conn s').tables = app.tables := by
    intro session s' hsession hseat
    simp only [tables, setSession_onlineUsers, setSession_roomAt,
      setSession_seats_same hsession hseat]
  refine handleMessage_cases
    (P := fun r => MessageEffect parse app env conn rawData r.1.tables) (.same rfl) ?_ ?_
  · intro session _ hsession
    exact .same (hsame session _ hsession rfl)
  · intro session msg hsession hparse hpaid
    have hcharged := hsame session _ hsession (seat_charge env.now)
    set charged := (session.refill env.now).charge with hcharge
    have hdir : (app.setSession conn charged).onlineUsers = app.onlineUsers := rfl
    have hrooms : (app.setSession conn charged).roomAt = app.roomAt := rfl
    have hseats : (app.setSession conn charged).seats = app.seats :=
      congrArg Tables.seats hcharged
    cases msg with
    | login req =>
      rcases handleLogin_tables (app.setSession conn charged) conn charged req with
        ⟨hfree, hname, h⟩ | h
      · rw [hcharged, hdir, hseats] at h
        exact .login session req hsession hparse hpaid hfree hname h
      · refine .same ?_
        rw [dispatch, h, hcharged]
    | globalChat req => exact .same hcharged
    | privateChat req => exact .same hcharged
    | joinRoom req =>
      rcases handleJoinRoom_tables (app.setSession conn charged) env conn charged req with
        ⟨hin, h⟩ | h
      · rw [hcharged, hrooms, hseats] at h
        exact .join session (roomOf req.roomName) hsession hin h
      · refine .same ?_
        rw [dispatch, h, hcharged]
    | roomChat req =>
      refine .same ?_
      rw [dispatch, handleRoomChat_tables, hcharged]
    | payloadNotSet => exact .same hcharged

section UserData

variable {d : ConnId}

theorem setSession_userData_of_ne (h : d ≠ conn) :
    (app.setSession conn s).userData d = app.userData d := Function.update_of_ne h ..

theorem enterRoom_userData {room username : String} :
    (app.enterRoom env room username).1.userData = app.userData := by
  unfold enterRoom
  split <;> rfl

/-- The switch touches the session of its own connection only. -/
theorem dispatch_userData_of_ne (h : d ≠ conn) (msg : ClientMessage) :
    (app.dispatch env conn s msg).1.userData d = app.userData d := by
  cases msg with
  | login req =>
    rw [dispatch, handleLogin]
    dsimp only
    split
    · exact setSession_userData_of_ne h
    · rfl
  | globalChat req => rfl
  | privateChat req => rfl
  | joinRoom req =>
    rw [dispatch, handleJoinRoom]
    split
    · dsimp only
      rw [enterRoom_userData, setSession_userData_of_ne h]
      split
      · rw [leaveRoom_userData]
      · rfl
    · rfl
  | roomChat req =>
    rw [dispatch, handleRoomChat]
    split
    · rfl
    · split <;> rfl
  | payloadNotSet => rfl

theorem handleMessage_userData_of_ne {parse : Parser} {rawData : Bytes} (h : d ≠ conn) :
    (app.handleMessage parse env conn rawData).1.userData d = app.userData d := by
  refine handleMessage_cases (P := fun r => r.1.userData d = app.userData d) rfl ?_ ?_
  · intro session _ _
    exact setSession_userData_of_ne h
  · intro session msg _ _ _
    rw [dispatch_userData_of_ne h, setSession_userData_of_ne h]

theorem handleDisconnect_userData :
    (app.handleDisconnect env conn).1.userData = app.userData := by
  unfold handleDisconnect
  split
  · rfl
  · split
    · dsimp only
      split
      · exact leaveRoom_userData
      · rfl
    · rfl

/-- The cases of ProcessEvent: an event is dropped or handled, and no event but
a DISCONNECT is handled when the connection is closed. -/
theorem processEvent_cases {parse : Parser} {closed : Bool} {evt : NetworkEvent}
    {P : ChatApp × List Output → Prop} (dropped : P (app, []))
    (connect : evt.type = .connect → P (app.handleConnect env evt.conn, []))
    (disconnect : evt.type = .disconnect → P (app.handleDisconnect env evt.conn))
    (message : ∀ payload, closed = false → evt = ⟨.message, evt.conn, some payload⟩ →
      P (app.handleMessage parse env evt.conn payload)) :
    P (app.processEvent parse env closed evt) := by
  obtain ⟨type, conn, payload⟩ := evt
  unfold processEvent
  split
  · exact dropped
  · rename_i hkept
    cases type with
    | connect => exact connect rfl
    | disconnect => exact disconnect rfl
    | message =>
      cases payload with
      | none => exact dropped
      | some payload =>
        have hopen : closed = false := by simpa using hkept
        exact message payload hopen rfl

/-- Only the CONNECT event creates a session. -/
theorem processEvent_userData_none {parse : Parser} {closed : Bool} {evt : NetworkEvent}
    (h : app.userData d = none) (hevt : ¬ (evt.type = .connect ∧ evt.conn = d)) :
    (app.processEvent parse env closed evt).1.userData d = none := by
  refine processEvent_cases (P := fun r => r.1.userData d = none) h ?_ ?_ ?_
  · intro htype
    have hd : d ≠ evt.conn := fun hd => hevt ⟨htype, hd.symm⟩
    exact (setSession_userData_of_ne hd).trans h
  · intro _
    rw [handleDisconnect_userData]
    exact h
  · intro payload _ _
    by_cases hd : d = evt.conn
    · subst hd
      unfold handleMessage
      rw [h]
      exact h
    · rw [handleMessage_userData_of_ne hd]
      exact h

end UserData

end ChatApp

end ChatServer
