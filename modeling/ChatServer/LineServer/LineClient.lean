import ChatServer.LineServer.ChatLines
import ChatServer.LineServer.ClientStream

/-!
The client of the second version and its conversation with the server. In login it
reads what the server sends with one recv for each name that the user enters, and looks
for the acceptance in what this recv has returned; run then sends the lines of the user.
The kernel brings the bytes of both sides in their order, cut anywhere. What the client
draws on the terminal is left out.
-/
namespace ChatServer.LineServer.LineClient

open Lib.DelimitedLines Lib.Runs MessageTasks EventLoop

def accepted : Text := text "Username accepted!"

/-- `isprint` -/
def isPrint (key : UInt8) : Bool := 32 ≤ key && key ≤ 126

/-- Where the client is in main. -/
inductive Place
  /-- In login at recv. -/
  | receiving
  /-- In login, reading the name key by key. -/
  | naming
  /-- In run. -/
  | chatting
deriving DecidableEq

/-- What run waits for. -/
inductive Source
  | socket
  | keyboard
  | signals
deriving DecidableEq

/-- MAX_EVENTS -/
def maxEvents : ℕ := 2

/-- `batch` are the events of run that are still to be handled. The last four fields are
history: what recv has returned, what send has taken, and the names and the lines that
were sent, without their newline. -/
structure Client where
  place : Place
  running : Bool
  batch : List Source
  username : Text
  currentLine : Text
  received : Bytes
  sent : Bytes
  names : List Text
  chats : List Text

namespace Client

def new : Client := ⟨.receiving, true, [], [], [], [], [], [], []⟩

def stop (client : Client) : Client := { client with running := false }

/-- The for loop in run goes on to the next event. -/
def endEvent (client : Client) : Client := { client with batch := client.batch.tail }

/-- The event that the for loop in run is at. -/
def At (client : Client) (source : Source) : Prop :=
  client.place = .chatting ∧ client.batch.head? = some source

instance (client : Client) (source : Source) : Decidable (client.At source) :=
  inferInstanceAs (Decidable (_ ∧ _))

/-- login after a recv; the buffer is read as a string that ends with its first zero. -/
def loginRecv (client : Client) (buffer : Bytes) : Client :=
  if accepted <:+: buffer.takeWhile (· ≠ 0) then
    { client with place := .chatting, received := client.received ++ buffer }
  else
    { client with place := .naming, username := [], received := client.received ++ buffer }

/-- The end of a name. The socket still blocks, so send takes it whole. -/
def enterName (client : Client) : Option ℕ → Client
  | some _ =>
      { client with
        place := .receiving
        sent := client.sent ++ (client.username ++ [newline])
        names := client.names ++ [client.username] }
  | none => client.stop

/-- A key in login, with the result of send if the name ends there. -/
def nameKey (client : Client) (key : UInt8) (result : Option ℕ) : Client :=
  if key = 10 ∨ key = 13 then client.enterName result
  else if isPrint key then { client with username := client.username ++ [key] }
  else if key = 127 ∨ key = 8 then { client with username := client.username.dropLast }
  else client

/-- The end of a line in handle_keyboard_input, which returns after `exit` and when send
has failed. -/
def enterLine (client : Client) (result : Option ℕ) : Client :=
  if client.currentLine = text "exit" then client.stop.endEvent
  else if client.currentLine = [] then client
  else
    match result with
    | some taken =>
        { client with
          currentLine := []
          sent := client.sent ++ (client.currentLine ++ [newline]).take taken
          chats := client.chats ++ [client.currentLine] }
    | none => client.stop.endEvent

/-- A key in handle_keyboard_input. -/
def lineKey (client : Client) (key : UInt8) (result : Option ℕ) : Client :=
  if key = 10 ∨ key = 13 then client.enterLine result
  else if key = 127 ∨ key = 8 then { client with currentLine := client.currentLine.dropLast }
  else if isPrint key then { client with currentLine := client.currentLine ++ [key] }
  else client

end Client

/-- The server with its kernel, and the client of one of its connections. -/
structure Chat (W : Type*) where
  loop : Loop W
  client : Client

inductive Action (W : Type*)
  | loop (a : EventLoop.Action W)
  /-- epoll_wait in run returns these events. -/
  | wait (batch : List Source)
  | waitFails
  /-- A key, with the result of send if it ends a line. -/
  | key (key : UInt8) (result : Option ℕ)
  /-- The input ends. -/
  | inputEnds (result : Option ℕ)
  | recv (chunk : Bytes)
  /-- recv returns no bytes or an error; run takes an old EAGAIN in errno for a socket
  that is open. -/
  | lost (noticed : Bool)
  /-- run reads a signal, or fails to. -/
  | signal (whole : Bool)
  /-- A handler has nothing more to read, or does not read as the client has stopped. -/
  | done

namespace Chat

variable {W : Type*} [Fintype W] [DecidableEq W]

/-- The client takes what is at the front of the bytes on their way to it. -/
def recv (s : Chat W) (c : ConnId) (chunk : Bytes) : Option Client :=
  if 0 < chunk.length ∧ chunk.length ≤ bufferSize - 1 ∧
      s.client.received ++ chunk <+: s.loop.wire c then
    match s.client.place with
    | .receiving => some (s.client.loginRecv chunk)
    | .chatting =>
        if s.client.At .socket ∧ s.client.running then
          some { s.client with received := s.client.received ++ chunk }
        else none
    | .naming => none
  else none

def clientNext (s : Chat W) (c : ConnId) : Action W → Option Client
  | .loop _ => none
  | .wait batch =>
      if s.client.place = .chatting ∧ s.client.batch = [] ∧ batch.Nodup ∧
          batch.length ≤ maxEvents then
        some { s.client with batch := batch }
      else none
  | .waitFails =>
      if s.client.place = .chatting ∧ s.client.batch = [] then some s.client.stop else none
  | .key key result =>
      match s.client.place with
      | .receiving => none
      | .naming => some (s.client.nameKey key result)
      | .chatting => if s.client.At .keyboard then some (s.client.lineKey key result) else none
  | .inputEnds result =>
      match s.client.place with
      | .naming => some (s.client.enterName result)
      | _ => none
  | .recv chunk => s.recv c chunk
  | .lost noticed =>
      match s.client.place with
      | .receiving => some s.client.stop
      | .chatting =>
          if s.client.At .socket ∧ s.client.running then
            some (if noticed then s.client.stop.endEvent else s.client.endEvent)
          else none
      | .naming => none
  | .signal whole =>
      if s.client.At .signals then
        some (if whole then s.client.stop.endEvent else { s.client.stop with batch := [] })
      else none
  | .done =>
      if s.client.At .socket ∨ s.client.At .keyboard then some s.client.endEvent else none

/-- The server gets what the client has sent, from its front. A client that has stopped
still handles the rest of its batch. -/
def next (fds : ServerFds) (c : ConnId) (s : Chat W) : Action W → Option (Chat W)
  | .loop a =>
      (s.loop.next fds a).bind fun l =>
        if (l.server.conns c).received <+: s.client.sent then some { s with loop := l } else none
  | a =>
      if s.client.running ∨ s.client.batch ≠ [] then
        (s.clientNext c a).map fun client => { s with client := client }
      else none

end Chat

variable {W : Type*} [Fintype W] [DecidableEq W]

/-- The client of the connection that is the `c`-th to be accepted. -/
def machine (fds : ServerFds) (c : ConnId) : Machine (Chat W) (Action W) :=
  ⟨⟨.init fds, .new⟩, Chat.next fds c⟩

/-- The messages that are sent past `out_buf`. -/
def replyMessages : List Text := [welcomeMessage, validMessage, errorMessage]

/-- The replies of the server and the chat lines of the client are taken whole by send,
and a recv of login returns all that has come. -/
def Whole (c : ConnId) (s : Chat W) : Action W → Prop
  | .loop (.server _ taken) => ∀ msg ∈ replyMessages, msg.length ≤ taken
  | .key _ (some taken) => s.client.place = .chatting → s.client.currentLine.length < taken
  | .recv chunk => s.client.place = .receiving →
      chunk = ((s.loop.wire c).drop s.client.received.length).take (bufferSize - 1)
  | _ => True

instance (c : ConnId) (s : Chat W) : ∀ a, Decidable (Whole c s a)
  | .loop (.server _ taken) =>
      inferInstanceAs (Decidable (∀ msg ∈ replyMessages, msg.length ≤ taken))
  | .key _ (some taken) => inferInstanceAs (Decidable (s.client.place = .chatting →
      s.client.currentLine.length < taken))
  | .recv chunk => inferInstanceAs (Decidable (s.client.place = .receiving →
      chunk = ((s.loop.wire c).drop s.client.received.length).take (bufferSize - 1)))
  | .loop (.wait _) | .loop .readNotify | .loop (.notify _) | .loop (.wake _) | .loop (.forget _)
  | .loop (.drained _) | .loop (.filled _) | .wait _ | .waitFails | .key _ none | .inputEnds _
  | .lost _ | .signal _ | .done => isTrue trivial

end ChatServer.LineServer.LineClient
