import ChatServer.Directory

/-!
The keys of `rooms_`. An empty room is deleted, and a session that is in a room
keeps a name of its own there, though perhaps not its current one: a second
login leaves the first name registered. So the room of a session that handles a
RoomChatRequest has its key, and looking it up by `operator[]` creates none.
-/
namespace ChatServer.RoomKeys

open LogicThread Lib.Seating Lib.Runs Directory

/-- No key maps to an empty set. -/
def NoEmptyRoom (app : ChatApp) : Prop := ∀ r names, app.rooms r = some names → names ≠ ∅

section Handlers

variable {app : ChatApp} {env : Env} {conn : ConnId} {s : ChatSession}

theorem NoEmptyRoom.setRoom (h : NoEmptyRoom app) {room : String} {names : Finset String}
    (hnames : names ≠ ∅) : NoEmptyRoom (app.setRoom room names) := by
  intro r found hfound
  simp only [ChatApp.setRoom, Function.update_apply] at hfound
  split at hfound
  · cases hfound
    exact hnames
  · exact h r found hfound

theorem NoEmptyRoom.leaveRoom (h : NoEmptyRoom app) (room username text : String) :
    NoEmptyRoom (app.leaveRoom env room username text).1 := by
  unfold ChatApp.leaveRoom
  dsimp only
  split
  · intro r found hfound
    simp only [ChatApp.eraseRoom, ChatApp.setRoom, Function.update_apply] at hfound
    split at hfound
    · cases hfound
    · exact h r found hfound
  · rename_i hnames
    exact h.setRoom hnames

theorem NoEmptyRoom.enterRoom (h : NoEmptyRoom app) (room username : String) :
    NoEmptyRoom (app.enterRoom env room username).1 := by
  unfold ChatApp.enterRoom
  split
  · exact h.setRoom (Finset.insert_ne_empty _ _)
  · exact h

theorem NoEmptyRoom.handleDisconnect (h : NoEmptyRoom app) :
    NoEmptyRoom (app.handleDisconnect env conn).1 := by
  unfold ChatApp.handleDisconnect
  split
  · exact h
  · split
    · dsimp only
      split
      · apply NoEmptyRoom.leaveRoom
        exact h
      · exact h
    · exact h

theorem NoEmptyRoom.handleJoinRoom (h : NoEmptyRoom app) (req : JoinRoomRequest) :
    NoEmptyRoom (app.handleJoinRoom env conn s req).1 := by
  unfold ChatApp.handleJoinRoom
  split
  · dsimp only
    apply NoEmptyRoom.enterRoom
    split
    · exact h.leaveRoom _ _ _
    · exact h
  · exact h

/-- A room that somebody is in has its key, and storing its names changes nothing. -/
theorem setRoom_roomAt_self {room : String} (h : (app.roomAt room).Nonempty) :
    (app.setRoom room (app.roomAt room)).rooms = app.rooms := by
  obtain ⟨names, hkey⟩ : ∃ names, app.rooms room = some names := by
    cases hkey : app.rooms room with
    | none =>
      rw [ChatApp.roomAt, hkey] at h
      exact absurd h Finset.not_nonempty_empty
    | some names => exact ⟨names, rfl⟩
  have hsame : some (app.roomAt room) = app.rooms room := by
    rw [ChatApp.roomAt, hkey, Option.getD_some]
  change Function.update app.rooms room (some (app.roomAt room)) = app.rooms
  rw [hsame, Function.update_eq_self]

/-- Only a JoinRoomRequest changes the rooms. -/
theorem dispatch_rooms {msg : ClientMessage} (hjoin : ∀ req, msg ≠ .joinRoom req)
    (hroom : s.isLoggedIn = true → s.currentRoom ≠ "" → (app.roomAt s.currentRoom).Nonempty) :
    (app.dispatch env conn s msg).1.rooms = app.rooms := by
  cases msg with
  | login req =>
    simp only [ChatApp.dispatch, ChatApp.handleLogin]
    split
    · rfl
    · rfl
  | globalChat req => rfl
  | privateChat req => rfl
  | joinRoom req => exact absurd rfl (hjoin req)
  | roomChat req =>
    simp only [ChatApp.dispatch, ChatApp.handleRoomChat]
    split
    · rfl
    · rename_i hguard
      simp only [not_or, Bool.not_eq_false] at hguard
      split
      · rfl
      · exact setRoom_roomAt_self (hroom hguard.1 hguard.2)
  | payloadNotSet => rfl

/-- The same after the rate limiter. -/
theorem handleMessage_rooms {parse : Parser} {rawData : Bytes}
    (hjoin : ∀ req, parse rawData ≠ some (.joinRoom req))
    (hroom : ∀ s, app.userData conn = some s → s.isLoggedIn = true → s.currentRoom ≠ "" →
      (app.roomAt s.currentRoom).Nonempty) :
    (app.handleMessage parse env conn rawData).1.rooms = app.rooms := by
  refine ChatApp.handleMessage_cases (P := fun r => r.1.rooms = app.rooms) rfl ?_ ?_
  · intro session _ _
    rfl
  · intro session msg hsession hparse _
    refine dispatch_rooms ?_ (hroom session hsession)
    intro req heq
    exact hjoin req (heq ▸ hparse)

theorem NoEmptyRoom.handleMessage (h : NoEmptyRoom app) {parse : Parser} {rawData : Bytes}
    (hroom : ∀ s, app.userData conn = some s → s.isLoggedIn = true → s.currentRoom ≠ "" →
      (app.roomAt s.currentRoom).Nonempty) :
    NoEmptyRoom (app.handleMessage parse env conn rawData).1 := by
  by_cases hjoin : ∃ req, parse rawData = some (.joinRoom req)
  · obtain ⟨req, hparse⟩ := hjoin
    refine ChatApp.handleMessage_cases (P := fun r => NoEmptyRoom r.1) h ?_ ?_
    · intro session _ _
      exact h
    · intro session msg _ hmsg _
      cases hparse.symm.trans hmsg
      apply NoEmptyRoom.handleJoinRoom
      exact h
  · intro r names hnames
    rw [handleMessage_rooms (fun req hreq => hjoin ⟨req, hreq⟩) hroom] at hnames
    exact h r names hnames

theorem NoEmptyRoom.processEvent (h : NoEmptyRoom app) {parse : Parser} {closed : Bool}
    {evt : NetworkEvent}
    (hroom : closed = false → ∀ s, app.userData evt.conn = some s → s.isLoggedIn = true →
      s.currentRoom ≠ "" → (app.roomAt s.currentRoom).Nonempty) :
    NoEmptyRoom (app.processEvent parse env closed evt).1 := by
  refine ChatApp.processEvent_cases (P := fun r => NoEmptyRoom r.1) h ?_ ?_ ?_
  · intro _
    exact h
  · intro _
    exact h.handleDisconnect
  · intro payload hopen _
    exact h.handleMessage (hroom hopen)

end Handlers

section Runs

variable {parse : Parser} {allowed : World → Action → Prop} {w : World}

theorem anchored (hw : Reachable (machine parse) allowed w) :
    Anchored w.tables.dir w.tables.rooms w.tables.seats := by
  refine hw.invariant_of_reachable
    (P := fun w => Anchored w.tables.dir w.tables.rooms w.tables.seats) ?_ ?_
  · intro c n r hseat
    cases hseat
  · intro w a w' hw h _ hnext
    cases next_effect (Orderly.reachable hw) hnext with
    | same htables =>
      rw [htables]
      exact h
    | login conn s name haccepts htables =>
      obtain ⟨hopen, hsession, hfree⟩ := acceptedLogin_spec haccepts
      have hgone := (Orderly.reachable hw).not_gone_of_open hopen
      rw [htables]
      refine h.enter hfree ?_
      intro r hr
      cases hin : s.isLoggedIn with
      | false =>
        rw [s.roomless hin] at hr
        cases hr
      | true =>
        have hlive : LiveSession w conn s := ⟨hsession, hin, hgone⟩
        exact ⟨s.username, hlive.present.trans (by rw [hr])⟩
    | join conn name old new hseat htables =>
      rw [htables]
      exact h.move (listed hw) hseat new
    | leave conn name old hseat htables =>
      rw [htables]
      exact h.leave (listed hw) hseat

/-- The room of a live session has a name that is registered to its connection. -/
theorem room_anchored (hw : Reachable (machine parse) allowed w) {conn : ConnId} {s : ChatSession}
    (hs : LiveSession w conn s) (hroom : s.currentRoom ≠ "") :
    ∃ m ∈ w.app.roomAt s.currentRoom, w.app.onlineUsers m = some conn :=
  anchored hw conn s.username s.currentRoom ((sits_present_iff hroom).mpr ⟨s, hs, rfl, rfl⟩)

theorem room_of_open (hw : Reachable (machine parse) allowed w) {conn : ConnId}
    (hopen : w.closed conn = false) {s : ChatSession} (hs : w.app.userData conn = some s)
    (hin : s.isLoggedIn = true) (hroom : s.currentRoom ≠ "") :
    (w.app.roomAt s.currentRoom).Nonempty := by
  have hgone := (Orderly.reachable hw).not_gone_of_open hopen
  obtain ⟨m, hm, _⟩ := room_anchored hw ⟨hs, hin, hgone⟩ hroom
  exact ⟨m, hm⟩

theorem noEmptyRoom (hw : Reachable (machine parse) allowed w) : NoEmptyRoom w.app := by
  refine hw.invariant_of_reachable (P := fun w => NoEmptyRoom w.app) ?_ ?_
  · intro r names hnames
    cases hnames
  · intro w a w' hw h _ hnext
    rcases World.next_app hnext with happ | ⟨env, evt, rest, _, _, happ⟩
    · rw [happ]
      exact h
    · rw [happ]
      exact h.processEvent fun hopen s => room_of_open hw hopen

/-- In every run no key of the rooms maps to an empty set, and handling a
message other than a JoinRoomRequest leaves the rooms as they are; so the
lookup in HandleRoomChat makes no room. -/
theorem rooms_kept (parse : Parser) (w : World) (hw : Reachable (machine parse) AnyStep w) :
    (∀ r names, w.app.rooms r = some names → names ≠ ∅) ∧
    ∀ env conn rawData, (∀ req, parse rawData ≠ some (.joinRoom req)) →
      (w.app.processEvent parse env (w.closed conn) ⟨.message, conn, some rawData⟩).1.rooms =
        w.app.rooms := by
  refine ⟨noEmptyRoom hw, ?_⟩
  intro env conn rawData hjoin
  refine ChatApp.processEvent_cases (P := fun r => r.1.rooms = w.app.rooms) rfl nofun nofun ?_
  intro payload hopen hevt
  cases hevt
  exact handleMessage_rooms hjoin fun s => room_of_open hw hopen

/-- A session that has logged in again, in its room. -/
theorem rooms_kept_sample :
    ∃ w, Reachable (machine sampleParser) AnyStep w ∧ w.app.rooms "r" = some {"a"} ∧
      (w.app.processEvent sampleParser sampleEnv (w.closed 0)
        ⟨.message, 0, some [0x2A, 3, 0x0A, 1, 0x72]⟩).1.rooms = w.app.rooms := by
  have hrun : (run (machine sampleParser) AnyStep World.init
      (requests 0 [[0x0A, 3, 0x0A, 1, 0x61], [0x22, 3, 0x0A, 1, 0x72],
        [0x0A, 3, 0x0A, 1, 0x62]])).any (fun w => w.app.rooms "r" = some {"a"}) := by
    decide +kernel
  obtain ⟨w, hw, hroom⟩ := exists_reachable hrun
  have hparse : sampleParser [0x2A, 3, 0x0A, 1, 0x72] = some (.roomChat ⟨"r", ""⟩) := rfl
  refine ⟨w, hw, hroom, (rooms_kept sampleParser w hw).2 sampleEnv 0 _ ?_⟩
  intro req hjoin
  rw [hparse] at hjoin
  cases hjoin

end Runs

end ChatServer.RoomKeys
