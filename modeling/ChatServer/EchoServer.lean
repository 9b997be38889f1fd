import ChatServer.Lib.Runs
import ChatServer.MessageTasks

/-!
The first version, an echo server and its client. Both are a single loop with blocking
calls: the server serves one connection until the client has left, and the client sends
a line and reads once before it asks for the next line. The kernel holds a limited
number of bytes in each direction, and lets a limited number of connections wait for
accept. How many bytes a call of send or recv moves is left open, and so is what the
kernel does with a send to a socket that its peer has closed.
-/
namespace ChatServer.EchoServer

open Lib.Runs MessageTasks

def bufferSize : ℕ := 1024

/-- What is printed of a buffer that was ended with a zero byte. -/
def printedPart (buffer : Bytes) : Text := buffer.takeWhile (· ≠ 0)

/-- Where main of the client is. -/
inductive Phase
  | offline
  | typing
  /-- In send, with the bytes that the kernel has not taken. -/
  | sending (rest : Bytes)
  /-- In recv. -/
  | waiting
  /-- The socket is closed. -/
  | finished
deriving DecidableEq

def Phase.unsent : Phase → Bytes
  | .sending rest => rest
  | _ => []

/-- A line was entered and no echo has come. -/
def Phase.asks : Phase → Bool
  | .sending _ | .waiting => true
  | _ => false

/-- send returns when the kernel has taken all bytes. -/
def afterSend : Bytes → Phase
  | [] => .waiting
  | rest => .sending rest

/-- A client with the bytes on their way to the server and back. The last three fields
are history: the lines that were sent, and what the recv of the server and that of the
client have returned. -/
structure Client where
  phase : Phase
  toServer : Bytes
  toClient : Bytes
  reset : Bool
  printed : List Text
  lines : List Text
  heard : List Bytes
  received : List Bytes

def Client.new : Client := ⟨.offline, [], [], false, [], [], [], []⟩

/-- Where main of the server is. -/
inductive Stage (C : Type*)
  | accepting
  | receiving (c : C)
  /-- In send, with the bytes that the kernel has not taken. -/
  | sending (c : C) (rest : Bytes)
  /-- Ended by SIGPIPE. -/
  | killed
deriving DecidableEq

structure System (C : Type*) where
  clients : C → Client
  backlog : List C
  server : Stage C
  log : List (C × Text)

/-- The sizes of what send and recv move are part of the step. -/
inductive Action (C : Type*)
  | connect (c : C)
  | type (c : C) (line : Text)
  | send (c : C) (size : ℕ)
  | recv (c : C) (size : ℕ)
  /-- A call of the client fails as the server has gone. -/
  | lost (c : C)
  | accept
  | serverRecv (size : ℕ)
  | serverSend (size : ℕ)
  /-- The bytes for a closed socket are dropped, or send reports an error. -/
  | drop
  | sigpipe
  /-- recv has returned no bytes or an error. -/
  | hangUp

inductive Process (C : Type*)
  | user (c : C)
  | client (c : C)
  | server

def process {C : Type*} : Action C → Process C
  | .connect c | .type c _ => .user c
  | .send c _ | .recv c _ | .lost c => .client c
  | _ => .server

namespace Client

/-- The user enters a line; at the end of the input getline leaves an empty one. -/
def type (client : Client) (line : Text) : Client :=
  if line = text "exit" then
    { client with phase := .finished, reset := client.reset || !client.toClient.isEmpty }
  else { client with phase := afterSend line, lines := client.lines ++ [line] }

def send (client : Client) (rest : Bytes) (size : ℕ) : Client :=
  { client with
    phase := afterSend (rest.drop size)
    toServer := client.toServer ++ rest.take size }

def recv (client : Client) (size : ℕ) : Client :=
  let buffer := client.toClient.take size
  { client with
    phase := .typing
    toClient := client.toClient.drop size
    printed := client.printed ++ [printedPart buffer]
    received := client.received ++ [buffer] }

end Client

namespace System

variable {C : Type*}

def init : System C := ⟨fun _ => .new, [], .accepting, []⟩

section Steps

variable [DecidableEq C]

def setClient (s : System C) (c : C) (client : Client) : System C :=
  { s with clients := Function.update s.clients c client }

/-- What the server has read and not sent back. -/
def held (s : System C) (c : C) : Bytes :=
  match s.server with
  | .sending d rest => if d = c then rest else []
  | _ => []

/-- The echo loop goes on with recv when all is sent. -/
def afterEcho (c : C) : Bytes → Stage C
  | [] => .receiving c
  | rest => .sending c rest

def serverRecv (s : System C) (c : C) (size : ℕ) : System C :=
  let client := s.clients c
  let buffer := client.toServer.take size
  let after := { client with
    toServer := client.toServer.drop size
    heard := client.heard ++ [buffer] }
  { s.setClient c after with
    server := afterEcho c buffer
    log := s.log ++ [(c, printedPart buffer)] }

def serverSend (s : System C) (c : C) (rest : Bytes) (size : ℕ) : System C :=
  let client := s.clients c
  { s.setClient c { client with toClient := client.toClient ++ rest.take size } with
    server := afterEcho c (rest.drop size) }

def next (capacity backlog : ℕ) (s : System C) : Action C → Option (System C)
  | .connect c =>
      match (s.clients c).phase, s.server with
      | _, .killed => none
      | .offline, _ =>
          if s.backlog.length < backlog then
            let client := { s.clients c with phase := .typing }
            some { s.setClient c client with backlog := s.backlog ++ [c] }
          else none
      | _, _ => none
  | .type c line =>
      match (s.clients c).phase with
      | .typing => some (s.setClient c ((s.clients c).type line))
      | _ => none
  | .send c size =>
      match (s.clients c).phase with
      | .sending rest =>
          if 0 < size ∧ size ≤ rest.length ∧
              (s.clients c).toServer.length + size ≤ capacity then
            some (s.setClient c ((s.clients c).send rest size))
          else none
      | _ => none
  | .recv c size =>
      match (s.clients c).phase with
      | .waiting =>
          if 0 < size ∧ size ≤ (s.clients c).toClient.length ∧ size ≤ bufferSize - 1 then
            some (s.setClient c ((s.clients c).recv size))
          else none
      | _ => none
  | .lost c =>
      match s.server with
      | .killed =>
          if (s.clients c).phase.asks = true then
            some (s.setClient c { s.clients c with phase := .finished })
          else none
      | _ => none
  | .accept =>
      match s.server, s.backlog with
      | .accepting, c :: rest => some { s with server := .receiving c, backlog := rest }
      | _, _ => none
  | .serverRecv size =>
      match s.server with
      | .receiving c =>
          if 0 < size ∧ size ≤ (s.clients c).toServer.length ∧ size ≤ bufferSize - 1 then
            some (s.serverRecv c size)
          else none
      | _ => none
  | .serverSend size =>
      match s.server with
      | .sending c rest =>
          if (s.clients c).phase ≠ .finished ∧ 0 < size ∧ size ≤ rest.length ∧
              (s.clients c).toClient.length + size ≤ capacity then
            some (s.serverSend c rest size)
          else none
      | _ => none
  | .drop =>
      match s.server with
      | .sending c _ =>
          if (s.clients c).phase = .finished then
            some { s.setClient c { s.clients c with reset := true } with server := .receiving c }
          else none
      | _ => none
  | .sigpipe =>
      match s.server with
      | .sending c _ =>
          if (s.clients c).phase = .finished then some { s with server := .killed } else none
      | _ => none
  | .hangUp =>
      match s.server with
      | .receiving c =>
          if (s.clients c).phase = .finished ∧
              ((s.clients c).toServer = [] ∨ (s.clients c).reset = true) then
            some { s with server := .accepting }
          else none
      | _ => none

end Steps

end System

variable {C : Type*} [DecidableEq C]

def machine (capacity backlog : ℕ) : Machine (System C) (Action C) :=
  ⟨.init, System.next capacity backlog⟩

/-- What each step does, with all that it is taken under. -/
inductive Step (capacity : ℕ) (s : System C) : Action C → System C → Prop
  | connect {c : C} (hphase : (s.clients c).phase = .offline) (halive : s.server ≠ .killed) :
      Step capacity s (.connect c) { s.setClient c { s.clients c with phase := .typing } with
        backlog := s.backlog ++ [c] }
  | type {c : C} {line : Text} (hphase : (s.clients c).phase = .typing) :
      Step capacity s (.type c line) (s.setClient c ((s.clients c).type line))
  | send {c : C} {size : ℕ} {rest : Bytes} (hphase : (s.clients c).phase = .sending rest)
      (hsize : 0 < size ∧ size ≤ rest.length)
      (hroom : (s.clients c).toServer.length + size ≤ capacity) :
      Step capacity s (.send c size) (s.setClient c ((s.clients c).send rest size))
  | recv {c : C} {size : ℕ} (hphase : (s.clients c).phase = .waiting)
      (hsize : 0 < size ∧ size ≤ (s.clients c).toClient.length) :
      Step capacity s (.recv c size) (s.setClient c ((s.clients c).recv size))
  | lost {c : C} (hkilled : s.server = .killed) (hphase : (s.clients c).phase.asks = true) :
      Step capacity s (.lost c) (s.setClient c { s.clients c with phase := .finished })
  | accept {c : C} {rest : List C} (hserver : s.server = .accepting)
      (hbacklog : s.backlog = c :: rest) :
      Step capacity s .accept { s with server := .receiving c, backlog := rest }
  | serverRecv {c : C} {size : ℕ} (hserver : s.server = .receiving c)
      (hsize : 0 < size ∧ size ≤ (s.clients c).toServer.length) :
      Step capacity s (.serverRecv size) (s.serverRecv c size)
  | serverSend {c : C} {size : ℕ} {rest : Bytes} (hserver : s.server = .sending c rest)
      (hphase : (s.clients c).phase ≠ .finished) (hsize : 0 < size ∧ size ≤ rest.length)
      (hroom : (s.clients c).toClient.length + size ≤ capacity) :
      Step capacity s (.serverSend size) (s.serverSend c rest size)
  | drop {c : C} {rest : Bytes} (hserver : s.server = .sending c rest)
      (hphase : (s.clients c).phase = .finished) :
      Step capacity s .drop { s.setClient c { s.clients c with reset := true } with
        server := .receiving c }
  | sigpipe {c : C} {rest : Bytes} (hserver : s.server = .sending c rest)
      (hphase : (s.clients c).phase = .finished) :
      Step capacity s .sigpipe { s with server := .killed }
  | hangUp {c : C} (hserver : s.server = .receiving c)
      (hphase : (s.clients c).phase = .finished) :
      Step capacity s .hangUp { s with server := .accepting }

theorem step_of_next {capacity backlog : ℕ} {s t : System C} {a : Action C}
    (h : s.next capacity backlog a = some t) : Step capacity s a t := by
  cases a with
  | connect c =>
    simp only [System.next] at h
    split at h
    · cases h
    · rename_i hphase hserver
      obtain ⟨-, h⟩ := Option.ite_none_right_eq_some.mp h
      cases h
      exact .connect hphase hserver
    · cases h
  | type c line =>
    simp only [System.next] at h
    split at h
    · rename_i hphase
      cases h
      exact .type hphase
    · cases h
  | send c size =>
    simp only [System.next] at h
    split at h
    · rename_i hphase
      obtain ⟨⟨hpos, hle, hroom⟩, h⟩ := Option.ite_none_right_eq_some.mp h
      cases h
      exact .send hphase ⟨hpos, hle⟩ hroom
    · cases h
  | recv c size =>
    simp only [System.next] at h
    split at h
    · rename_i hphase
      obtain ⟨⟨hpos, hle, -⟩, h⟩ := Option.ite_none_right_eq_some.mp h
      cases h
      exact .recv hphase ⟨hpos, hle⟩
    · cases h
  | lost c =>
    simp only [System.next] at h
    split at h
    · rename_i hserver
      obtain ⟨hphase, h⟩ := Option.ite_none_right_eq_some.mp h
      cases h
      exact .lost hserver hphase
    · cases h
  | accept =>
    simp only [System.next] at h
    split at h
    · rename_i hserver hbacklog
      cases h
      exact .accept hserver hbacklog
    · cases h
  | serverRecv size =>
    simp only [System.next] at h
    split at h
    · rename_i hserver
      obtain ⟨⟨hpos, hle, -⟩, h⟩ := Option.ite_none_right_eq_some.mp h
      cases h
      exact .serverRecv hserver ⟨hpos, hle⟩
    · cases h
  | serverSend size =>
    simp only [System.next] at h
    split at h
    · rename_i hserver
      obtain ⟨⟨hphase, hpos, hle, hroom⟩, h⟩ := Option.ite_none_right_eq_some.mp h
      cases h
      exact .serverSend hserver hphase ⟨hpos, hle⟩ hroom
    · cases h
  | drop =>
    simp only [System.next] at h
    split at h
    · rename_i hserver
      obtain ⟨hphase, h⟩ := Option.ite_none_right_eq_some.mp h
      cases h
      exact .drop hserver hphase
    · cases h
  | sigpipe =>
    simp only [System.next] at h
    split at h
    · rename_i hserver
      obtain ⟨hphase, h⟩ := Option.ite_none_right_eq_some.mp h
      cases h
      exact .sigpipe hserver hphase
    · cases h
  | hangUp =>
    simp only [System.next] at h
    split at h
    · rename_i hserver
      obtain ⟨⟨hphase, -⟩, h⟩ := Option.ite_none_right_eq_some.mp h
      cases h
      exact .hangUp hserver hphase
    · cases h

end ChatServer.EchoServer
