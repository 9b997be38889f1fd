import ChatServer.LogicThread
import ChatServer.Recipients

/-!
HandleJoinRoom from end to end. The user is erased from the old room, its members
are told and an empty room is deleted; then the user is inserted into the new room
and its members are told. The two rooms may be the same, the old one may be missing
and either may be the empty name, which stands for no room.
-/
namespace ChatServer.JoinRoom

open ChatApp Recipients

variable {app : ChatApp} {env : Env} {conn : ConnId} {s : ChatSession}

/-- The calls send the message once for each of the members who are online and are
not the user, to the connection under the member's name. -/
def Told (app : ChatApp) (members : Finset String) (username : String) (msg : ServerMessage)
    (calls : List Output) : Prop :=
  ∃ names : List String, names.Nodup ∧
    (∀ n, n ∈ names ↔ n ∈ members ∧ n ≠ username ∧ (app.onlineUsers n).isSome) ∧
    List.Forall₂ (fun n call => ∃ c, app.onlineUsers n = some c ∧ call = .sendProto c msg)
      names calls

/-- What a JoinRoomRequest of a logged-in connection does. -/
structure Joined (app : ChatApp) (conn : ConnId) (s : ChatSession) (room : String)
    (h : s.isLoggedIn = true) (result : ChatApp × List Output) : Prop where
  session : result.1.userData conn = some (s.enter room h)
  sessions : ∀ c, c ≠ conn → result.1.userData c = app.userData c
  online : result.1.onlineUsers = app.onlineUsers
  others : ∀ r, (s.currentRoom ≠ "" → r ≠ s.currentRoom) → (room ≠ "" → r ≠ room) →
    result.1.rooms r = app.rooms r
  left : s.currentRoom ≠ "" → s.currentRoom ≠ room → result.1.rooms s.currentRoom =
    if (app.roomAt s.currentRoom).erase s.username = ∅ then none
    else some ((app.roomAt s.currentRoom).erase s.username)
  entered : room ≠ "" → result.1.rooms room = some (insert s.username (app.roomAt room))
  calls : ∃ leaves joins, result.2 = leaves ++ joins ++ [.sendProto conn (joinConfirmation room)] ∧
    (s.currentRoom = "" → leaves = []) ∧
    (s.currentRoom ≠ "" → Told app (app.roomAt s.currentRoom) s.username
      (notice (s.username ++ " has left the room.") s.currentRoom) leaves) ∧
    (room = "" → joins = []) ∧
    (room ≠ "" → Told app (insert s.username (app.roomAt room)) s.username
      (notice (s.username ++ " has joined the room. ") room) joins)

/-- The loop over names sends to those who are online, once each. -/
theorem told_sendMembers {members : Finset String} {username : String} {names : List String}
    (msg : ServerMessage) (hnodup : names.Nodup)
    (hnames : ∀ n, n ∈ names ↔ n ∈ members ∧ n ≠ username) :
    Told app members username msg (app.sendMembers names msg) := by
  refine ⟨names.filter fun n => (app.onlineUsers n).isSome, hnodup.filter _, ?_, ?_⟩
  · intro n
    rw [List.mem_filter, hnames, and_assoc]
  · clear hnodup hnames
    unfold sendMembers
    induction names with
    | nil => exact .nil
    | cons n names ih =>
      cases hn : app.onlineUsers n with
      | none =>
        rw [List.filter_cons_of_neg (by rw [hn]; exact Bool.false_ne_true),
          List.filterMap_cons_none hn]
        exact ih
      | some c =>
        rw [List.filter_cons_of_pos (by rw [hn]; rfl), List.filterMap_cons_some hn, List.map_cons]
        exact .cons ⟨c, hn, rfl⟩ ih

section Leave

/-- The first half, for a room that is not the empty name. -/
theorem leaveRoom_rooms (room username text : String) :
    (app.leaveRoom env room username text).1.rooms = Function.update app.rooms room
      (if (app.roomAt room).erase username = ∅ then none
        else some ((app.roomAt room).erase username)) := by
  unfold leaveRoom
  dsimp only
  split
  · rw [eraseRoom, setRoom]
    exact Function.update_idem ..
  · rfl

theorem told_leaveRoom (room username text : String) :
    Told app (app.roomAt room) username (notice text room)
      (app.leaveRoom env room username text).2 := by
  have hnames : ∀ n, n ∈ env.order room ((app.roomAt room).erase username) ↔
      n ∈ app.roomAt room ∧ n ≠ username := fun n => by
    rw [env.mem_order, Finset.mem_erase, and_comm]
  exact told_sendMembers (notice text room) (env.nodup_order _ _) hnames

end Leave

section Enter

/-- The second half, for a room that is not the empty name. -/
theorem enterRoom_rooms {room username : String} (hroom : room ≠ "") :
    (app.enterRoom env room username).1.rooms =
      Function.update app.rooms room (some (insert username (app.roomAt room))) := by
  unfold enterRoom
  rw [if_pos hroom]
  rfl

theorem told_enterRoom {room username : String} (hroom : room ≠ "") :
    Told app (insert username (app.roomAt room)) username
      (notice (username ++ " has joined the room. ") room) (app.enterRoom env room username).2 := by
  have hnames : ∀ n, n ∈ (env.order room (insert username (app.roomAt room))).filter
      (· ≠ username) ↔ n ∈ insert username (app.roomAt room) ∧ n ≠ username := fun n => by
    rw [List.mem_filter, env.mem_order, decide_eq_true_iff]
  unfold enterRoom
  rw [if_pos hroom]
  exact told_sendMembers (notice (username ++ " has joined the room. ") room)
    ((env.nodup_order _ _).filter _) hnames

theorem enterRoom_empty (username : String) : app.enterRoom env "" username = (app, []) :=
  if_neg (not_not.mpr rfl)

end Enter

/-- The state and the messages after the first half. -/
def leftOld (app : ChatApp) (env : Env) (s : ChatSession) : ChatApp × List Output :=
  if s.currentRoom ≠ "" then
    app.leaveRoom env s.currentRoom s.username (s.username ++ " has left the room.")
  else (app, [])

theorem leftOld_onlineUsers : (leftOld app env s).1.onlineUsers = app.onlineUsers := by
  unfold leftOld
  split
  · exact leaveRoom_onlineUsers
  · rfl

theorem leftOld_userData : (leftOld app env s).1.userData = app.userData := by
  unfold leftOld
  split
  · exact leaveRoom_userData
  · rfl

/-- What a room has after the first half. -/
theorem leftOld_rooms_of_ne {r : String} (h : s.currentRoom ≠ "" → r ≠ s.currentRoom) :
    (leftOld app env s).1.rooms r = app.rooms r := by
  unfold leftOld
  split
  · rename_i hold
    rw [leaveRoom_rooms, Function.update_of_ne (h hold)]
  · rfl

/-- A user who comes back into the same room is in it as before. -/
theorem insert_leftOld_roomAt (room : String) :
    insert s.username ((leftOld app env s).1.roomAt room) =
      insert s.username (app.roomAt room) := by
  unfold leftOld
  split
  · rw [leaveRoom_roomAt]
    by_cases hroom : room = s.currentRoom
    · subst hroom
      ext n
      simp only [Lib.Seating.stand, Function.update_self, Finset.mem_insert, Finset.mem_erase]
      tauto
    · simp [Lib.Seating.stand, hroom]
  · rfl

/-- For every state and every JoinRoomRequest of a logged-in connection. -/
theorem join_room (app : ChatApp) (env : Env) (conn : ConnId) (s : ChatSession)
    (req : JoinRoomRequest) (h : s.isLoggedIn = true) :
    Joined app conn s req.roomName h (app.handleJoinRoom env conn s req) := by
  have hresult : app.handleJoinRoom env conn s req =
      ((((leftOld app env s).1.setSession conn (s.enter req.roomName h)).enterRoom env
          req.roomName s.username).1,
        (leftOld app env s).2 ++
          (((leftOld app env s).1.setSession conn (s.enter req.roomName h)).enterRoom env
            req.roomName s.username).2 ++ [.sendProto conn (joinConfirmation req.roomName)]) := by
    unfold handleJoinRoom leftOld
    rw [dif_pos h]
  rw [hresult]
  have honline : (leftOld app env s).1.onlineUsers = app.onlineUsers := leftOld_onlineUsers
  have huser : (leftOld app env s).1.userData = app.userData := leftOld_userData
  constructor
  case session =>
    rw [enterRoom_userData]
    exact Function.update_self ..
  case sessions =>
    intro c hc
    rw [enterRoom_userData, setSession_userData_of_ne hc, huser]
  case online => rw [enterRoom_onlineUsers, setSession_onlineUsers, honline]
  case others =>
    intro r hold hnew
    have hleft : (leftOld app env s).1.rooms r = app.rooms r := leftOld_rooms_of_ne hold
    by_cases hroom : req.roomName = ""
    · rw [hroom, enterRoom_empty]
      exact hleft
    · rw [enterRoom_rooms hroom, Function.update_of_ne (hnew hroom)]
      exact hleft
  case left =>
    intro hold hne
    have hleft : (leftOld app env s).1.rooms s.currentRoom =
        if (app.roomAt s.currentRoom).erase s.username = ∅ then none
        else some ((app.roomAt s.currentRoom).erase s.username) := by
      unfold leftOld
      rw [if_pos hold, leaveRoom_rooms, Function.update_self]
    by_cases hroom : req.roomName = ""
    · rw [hroom, enterRoom_empty]
      exact hleft
    · rw [enterRoom_rooms hroom, Function.update_of_ne hne]
      exact hleft
  case entered =>
    intro hroom
    rw [enterRoom_rooms hroom, Function.update_self, setSession_roomAt, insert_leftOld_roomAt]
  case calls =>
    refine ⟨_, _, rfl, ?_, ?_, ?_, ?_⟩
    · intro hold
      unfold leftOld
      rw [if_neg (not_not.mpr hold)]
    · intro hold
      unfold leftOld
      rw [if_pos hold]
      exact told_leaveRoom _ _ _
    · intro hroom
      rw [hroom, enterRoom_empty]
    · intro hroom
      have htold : Told ((leftOld app env s).1.setSession conn (s.enter req.roomName h))
          (insert s.username ((leftOld app env s).1.roomAt req.roomName)) s.username
          (notice (s.username ++ " has joined the room. ") req.roomName)
          (((leftOld app env s).1.setSession conn (s.enter req.roomName h)).enterRoom env
            req.roomName s.username).2 := told_enterRoom hroom
      rw [insert_leftOld_roomAt] at htold
      obtain ⟨names, hnodup, hnames, hcalls⟩ := htold
      rw [setSession_onlineUsers, honline] at hnames hcalls
      exact ⟨names, hnodup, hnames, hcalls⟩

/-- The session of a user who is in the room "r". -/
def sampleSession : ChatSession := ((ChatSession.new 0).login "a" (by decide)).enter "r" rfl

/-- a is in the room "r" with b, and c and d are in the room "t"; all but d are online. -/
def sampleApp : ChatApp where
  onlineUsers n := if n = "a" then some 0 else if n = "b" then some 1 else
    if n = "c" then some 2 else none
  rooms r := if r = "r" then some {"a", "b"} else if r = "t" then some {"c", "d"} else none
  userData c := if c = 0 then some sampleSession else none

/-- a moves from "r" to "t": b and c are told, and then a. -/
theorem join_room_sample :
    (sampleApp.handleJoinRoom LogicThread.sampleEnv 0 sampleSession ⟨"t"⟩).2 =
        [.sendProto 1 (notice ("a" ++ " has left the room.") "r"),
          .sendProto 2 (notice ("a" ++ " has joined the room. ") "t"),
          .sendProto 0 (joinConfirmation "t")] ∧
      Joined sampleApp 0 sampleSession "t" rfl
        (sampleApp.handleJoinRoom LogicThread.sampleEnv 0 sampleSession ⟨"t"⟩) := by
  refine ⟨?_, join_room sampleApp LogicThread.sampleEnv 0 sampleSession ⟨"t"⟩ rfl⟩
  decide +kernel

end ChatServer.JoinRoom
