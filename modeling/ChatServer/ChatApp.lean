import Mathlib.Algebra.Order.Ring.Rat
import Mathlib.Data.Finset.Basic
import Mathlib.Logic.Function.Basic
import ChatServer.PacketCodec

/-!
The chat application of chatapp.h, as the logic thread runs it: one event at a
time. A handler takes the state and returns the new state with the calls it
makes into the server, in order. The clocks and the iteration order of
unordered sets come from the environment of the event; seconds are rationals.
The message classes follow chat.proto; their parser is generated code and a
parameter here.
-/
namespace ChatServer

/-- The identity of a Connection object, whatever its descriptor. -/
abbrev ConnId := ℕ

section Proto

structure LoginRequest where
  username : String
deriving DecidableEq

structure ChatRequest where
  text : String
deriving DecidableEq

structure PrivateChatRequest where
  targetUsername : String
  text : String
deriving DecidableEq

structure JoinRoomRequest where
  roomName : String
deriving DecidableEq

structure RoomChatRequest where
  roomName : String
  text : String
deriving DecidableEq

/-- `payload_case` together with the message that is set. -/
inductive ClientMessage
  | login (req : LoginRequest)
  | globalChat (req : ChatRequest)
  | privateChat (req : PrivateChatRequest)
  | joinRoom (req : JoinRoomRequest)
  | roomChat (req : RoomChatRequest)
  | payloadNotSet
deriving DecidableEq

structure LoginResponse where
  success : Bool
  message : String
deriving DecidableEq

/-- Fields that a handler does not set keep the default of their type. -/
structure ChatBroadcast where
  sender : String
  text : String
  originRoom : String := ""
  timestamp : ℕ := 0
deriving DecidableEq

structure PrivateChatIncoming where
  sender : String
  text : String
  timestamp : ℕ
deriving DecidableEq

structure ErrorResponse where
  reason : String
deriving DecidableEq

inductive ServerMessage
  | loginResponse (resp : LoginResponse)
  | chatBroadcast (resp : ChatBroadcast)
  | privateChat (resp : PrivateChatIncoming)
  | error (resp : ErrorResponse)
deriving DecidableEq

end Proto

/-- `ProtobufCodec::decode<chat::ClientMessage>` on the payload of a packet. -/
abbrev Parser := Bytes → Option ClientMessage

/-- A session is in a room only after a login, and a login needs a name. -/
structure ChatSession where
  username : String
  isLoggedIn : Bool
  currentRoom : String
  tokens : ℚ
  lastRefill : ℚ
  named : isLoggedIn = true → username ≠ ""
  roomless : isLoggedIn = false → currentRoom = ""

/-- What is decided outside the program while an event is processed: the two
clocks, and the order in which the names of a room are visited. -/
structure Env where
  now : ℚ
  time : ℕ
  order : String → Finset String → List String
  mem_order : ∀ room names n, n ∈ order room names ↔ n ∈ names
  nodup_order : ∀ room names, (order room names).Nodup

/-- A call that a handler makes into the server. -/
inductive Output
  | sendProto (conn : ConnId) (msg : ServerMessage)
  | broadcastProto (msg : ServerMessage)
  | close (conn : ConnId)
deriving DecidableEq

structure ChatApp where
  onlineUsers : String → Option ConnId
  rooms : String → Option (Finset String)
  /-- The `user_data` of each connection. -/
  userData : ConnId → Option ChatSession

namespace ChatSession

/-- `ChatSession{}` -/
def new (now : ℚ) : ChatSession where
  username := ""
  isLoggedIn := false
  currentRoom := ""
  tokens := 60
  lastRefill := now
  named := nofun
  roomless _ := rfl

def refill (session : ChatSession) (now : ℚ) : ChatSession :=
  let tokens := session.tokens + (now - session.lastRefill)
  { session with tokens := if 60 < tokens then 60 else tokens, lastRefill := now }

def charge (session : ChatSession) : ChatSession :=
  { session with tokens := session.tokens - 1 }

def login (session : ChatSession) (name : String) (h : name ≠ "") : ChatSession :=
  { session with username := name, isLoggedIn := true, named := fun _ => h, roomless := nofun }

def enter (session : ChatSession) (room : String) (h : session.isLoggedIn = true) : ChatSession :=
  { session with
    currentRoom := room
    roomless := fun hout => absurd (h.symm.trans hout) Bool.noConfusion }

end ChatSession

namespace ChatApp

def new : ChatApp := ⟨fun _ => none, fun _ => none, fun _ => none⟩

/-- The names in a room; a key that is missing has none. -/
def roomAt (app : ChatApp) (room : String) : Finset String := (app.rooms room).getD ∅

def setSession (app : ChatApp) (conn : ConnId) (session : ChatSession) : ChatApp :=
  { app with userData := Function.update app.userData conn (some session) }

def setRoom (app : ChatApp) (room : String) (names : Finset String) : ChatApp :=
  { app with rooms := Function.update app.rooms room (some names) }

def eraseRoom (app : ChatApp) (room : String) : ChatApp :=
  { app with rooms := Function.update app.rooms room none }

/-- The loop that sends a message to the named members who are online. -/
def sendMembers (app : ChatApp) (names : List String) (msg : ServerMessage) : List Output :=
  (names.filterMap app.onlineUsers).map (Output.sendProto · msg)

/-- The steps by which HandleJoinRoom and HandleDisconnect take a user out of a
room; `rooms_.count(room)` holds because `rooms_[room]` was evaluated. -/
def leaveRoom (app : ChatApp) (env : Env) (room username text : String) :
    ChatApp × List Output :=
  let names := (app.roomAt room).erase username
  let left := app.setRoom room names
  let leaveMsg := .chatBroadcast { sender := "Server", text := text, originRoom := room }
  (if names = ∅ then left.eraseRoom room else left,
    left.sendMembers (env.order room names) leaveMsg)

def handleConnect (app : ChatApp) (env : Env) (conn : ConnId) : ChatApp :=
  app.setSession conn (ChatSession.new env.now)

def handleDisconnect (app : ChatApp) (env : Env) (conn : ConnId) : ChatApp × List Output :=
  match app.userData conn with
  | none => (app, [])
  | some session =>
      if session.isLoggedIn = true ∧ session.username ≠ "" then
        let erased := { app with
          onlineUsers := Function.update app.onlineUsers session.username none }
        if session.currentRoom ≠ "" then
          erased.leaveRoom env session.currentRoom session.username
            (session.username ++ " has left the room.\n")
        else (erased, [])
      else (app, [])

def handleLogin (app : ChatApp) (conn : ConnId) (session : ChatSession) (req : LoginRequest) :
    ChatApp × List Output :=
  let name := req.username
  if h : app.onlineUsers name = none ∧ name ≠ "" then
    ({ app.setSession conn (session.login name h.2) with
        onlineUsers := Function.update app.onlineUsers name (some conn) },
      [.sendProto conn (.loginResponse ⟨true, "Login successful."⟩)])
  else
    (app, [.sendProto conn (.loginResponse ⟨false, "Invalid username or already taken."⟩)])

def handleGlobalChat (env : Env) (s : ChatSession) (req : ChatRequest) : List Output :=
  if s.isLoggedIn then
    [.broadcastProto (.chatBroadcast
      { sender := s.username, text := req.text, timestamp := env.time })]
  else []

def handlePrivateChat (app : ChatApp) (env : Env) (conn : ConnId) (s : ChatSession)
    (req : PrivateChatRequest) : List Output :=
  if s.isLoggedIn then
    match app.onlineUsers req.targetUsername with
    | some target =>
        [.sendProto target (.privateChat ⟨s.username, req.text, env.time⟩),
          .sendProto conn (.chatBroadcast
            { sender := "Server"
              text := "Message sent to [" ++ req.targetUsername ++ "]: " ++ req.text })]
    | none =>
        [.sendProto conn (.error ⟨"User " ++ req.targetUsername ++ " not found."⟩)]
  else []

/-- The second half of HandleJoinRoom: into the new room, if there is one. -/
def enterRoom (app : ChatApp) (env : Env) (room username : String) : ChatApp × List Output :=
  if room ≠ "" then
    let names := insert username (app.roomAt room)
    let joined := app.setRoom room names
    let joinMsg := .chatBroadcast
      { sender := "Server", text := username ++ " has joined the room. ", originRoom := room }
    (joined, joined.sendMembers ((env.order room names).filter (· ≠ username)) joinMsg)
  else (app, [])

def joinConfirmation (room : String) : ServerMessage :=
  if room = "" then
    .chatBroadcast { sender := "Server", text := "You have entered the global room!" }
  else
    .chatBroadcast
      { sender := "Server", text := "You have joined room: " ++ room ++ " !!", originRoom := room }

def handleJoinRoom (app : ChatApp) (env : Env) (conn : ConnId) (s : ChatSession)
    (req : JoinRoomRequest) : ChatApp × List Output :=
  if h : s.isLoggedIn = true then
    let oldRoom := s.currentRoom
    let newRoom := req.roomName
    let (left, leaveMsgs) :=
      if oldRoom ≠ "" then
        app.leaveRoom env oldRoom s.username (s.username ++ " has left the room.")
      else (app, [])
    let (entered, joinMsgs) := (left.setSession conn (s.enter newRoom h)).enterRoom env newRoom
      s.username
    (entered, leaveMsgs ++ joinMsgs ++ [.sendProto conn (joinConfirmation newRoom)])
  else (app, [])

def handleRoomChat (app : ChatApp) (env : Env) (conn : ConnId) (s : ChatSession)
    (req : RoomChatRequest) : ChatApp × List Output :=
  if s.isLoggedIn = false ∨ s.currentRoom = "" then
    (app, [.sendProto conn
      (.error ⟨"You must be logged in and in a room to send room chat messages."⟩)])
  else if s.currentRoom ≠ req.roomName then (app, [])
  else
    let resp := .chatBroadcast
      { sender := s.username, text := req.text, originRoom := s.currentRoom }
    -- `auto& members = rooms_[s->current_room]` makes the key if it is missing
    let members := app.roomAt s.currentRoom
    (app.setRoom s.currentRoom members,
      app.sendMembers (env.order s.currentRoom members) resp)

/-- The switch at the end of HandleMessage. -/
def dispatch (app : ChatApp) (env : Env) (conn : ConnId) (session : ChatSession) :
    ClientMessage → ChatApp × List Output
  | .login req => app.handleLogin conn session req
  | .globalChat req => (app, handleGlobalChat env session req)
  | .privateChat req => (app, app.handlePrivateChat env conn session req)
  | .joinRoom req => app.handleJoinRoom env conn session req
  | .roomChat req => app.handleRoomChat env conn session req
  | .payloadNotSet => (app, [])

def handleMessage (parse : Parser) (app : ChatApp) (env : Env) (conn : ConnId)
    (rawData : Bytes) : ChatApp × List Output :=
  match app.userData conn with
  | none => (app, [])
  | some session =>
      match parse rawData with
      | none => (app, [])
      | some msg =>
          let refilled := session.refill env.now
          if refilled.tokens < 1 then
            (app.setSession conn refilled,
              [.sendProto conn (.error
                ⟨"You are sending messages too quickly, upgrade to premium! Bye :)"⟩),
                .close conn])
          else
            (app.setSession conn refilled.charge).dispatch env conn refilled.charge msg

end ChatApp

inductive EventType
  | connect
  | disconnect
  | message
deriving DecidableEq

structure NetworkEvent where
  type : EventType
  conn : ConnId
  payload : Option Bytes
deriving DecidableEq

/-- ProcessEvent; the flag is the `closed` of the event's connection. -/
def ChatApp.processEvent (parse : Parser) (app : ChatApp) (env : Env) (closed : Bool)
    (evt : NetworkEvent) : ChatApp × List Output :=
  if closed = true ∧ evt.type ≠ .disconnect then (app, [])
  else
    match evt.type with
    | .connect => (app.handleConnect env evt.conn, [])
    | .disconnect => app.handleDisconnect env evt.conn
    | .message =>
        match evt.payload with
        | some payload => app.handleMessage parse env evt.conn payload
        | none => (app, [])

end ChatServer
