import Mathlib.Algebra.Order.Ring.Rat
import Mathlib.Data.Finset.Basic
import Mathlib.Logic.Function.Basic
import ChatServer.RingBuffer
import ChatServer.Lib.Runs

/-!
The third version of the server, in which there is no logic thread. The reactor
pushes a task for each message that handle_read decodes, and a worker of the
pool runs OnMessageRecv for it. A connection is closed by the reactor or by the
worker that finds its token bucket empty. A step is taken with the mutexes that
it needs, so a region under `conn->mtx` has more than one step where it contains
a region under `app_mtx_`. Time is in rational seconds.
-/
namespace ChatServer.MessageTasks

open Lib.Runs

/-- A `std::string`, as its characters. -/
abbrev Text := Bytes

def text (literal : String) : Text := literal.toUTF8.toList

inductive ConnState
  | awaitingUsername
  | active
deriving DecidableEq

def maxTokens : ℚ := 60

def refillRate : ℚ := 1

/-- What is put into `outgoingQueue` stays there. The last four fields are history: how
many messages handle_read has decoded, which of them have found the connection
open, which of these were treated as the username, and whether OnClientDisconnect
has looked at the username. -/
structure Connection where
  fd : ℕ
  username : Text
  state : ConnState
  isBroadcastRecipient : Bool
  closed : Bool
  tokens : ℚ
  lastRefillTime : ℚ
  outgoingQueue : List Text
  decoded : ℕ
  acted : List ℕ
  asked : List ℕ
  disconnected : Bool

/-- A task of the pool, with the number of the message among those of the connection. -/
structure Message (C : Type*) where
  conn : C
  number : ℕ
  raw : Text
deriving DecidableEq

/-- A chat line carries the message that it is for, which the source does not have. -/
structure BroadcastEvent (C : Type*) where
  senderFd : Option ℕ
  payload : Text
  origin : Option (C × ℕ)
deriving DecidableEq

/-- What is still to be called with no mutex held. -/
inductive Call (C : Type*)
  | sendFast (conn : C) (msg : Text)
  | broadcast (evt : BroadcastEvent C)
  | close (conn : C)
deriving DecidableEq

inductive Stage (C : Type*)
  | idle
  /-- In handle_read, with the connection's mutex. -/
  | reading (conn : C)
  /-- In OnMessageRecv, at the lock of the connection's mutex. -/
  | taken (m : Message C)
  /-- With the connection's mutex, at the lock of `app_mtx_`. -/
  | login (m : Message C)
  /-- With the connection's mutex, the name is inserted and not yet assigned. -/
  | accepted (m : Message C)
  | calling (calls : List (Call C))
  /-- In close_conn, `closed` is set and OnClientDisconnect is at the lock of `app_mtx_`. -/
  | leaving (conn : C)
deriving DecidableEq

inductive Thread (W : Type*)
  | reactor
  | worker (w : W)
deriving DecidableEq

/-- `globalQueue` keeps what was pushed, whether or not the reactor has taken it out. -/
structure Server (C W : Type*) where
  conns : C → Connection
  mtx : C → Option (Thread W)
  usernames : Finset Text
  taskQueue : List (Message C)
  globalQueue : List (BroadcastEvent C)
  stage : Thread W → Stage C
  now : ℚ

inductive Action (C W : Type*)
  | tick (elapsed : ℚ)
  | read (conn : C)
  | decode (raw : Text)
  | readDone (shouldClose : Bool)
  /-- The reactor comes to close_conn from Run, handle_write or check_timeouts. -/
  | hangUp (conn : C)
  | take (w : W)
  | lock (w : W)
  | insert (w : W)
  | assign (w : W)
  | call (t : Thread W)
  | disconnect (t : Thread W)
deriving DecidableEq

section Texts

def spamNotice : Text :=
  text "[Server]: You are sending messages too quickly, upgrade to premium! Disconnecting...\n"

def usernameAccepted : Text := text "[Server]: Username accepted! :)\n"

def usernameRefused : Text := text "[Server]: Invalid or taken. Try again: "

def joinLine (name : Text) : Text := text "[Server]: " ++ name ++ text " joined!\n"

def leftLine (name : Text) : Text := text "[Server]: " ++ name ++ text " has left the chat.\n"

def chatLine (name line : Text) : Text := text "[" ++ name ++ text "]: " ++ line ++ text "\n"

end Texts

namespace Connection

def new (fd : ℕ) (now : ℚ) : Connection where
  fd := fd
  username := []
  state := .awaitingUsername
  isBroadcastRecipient := false
  closed := false
  tokens := maxTokens
  lastRefillTime := now
  outgoingQueue := []
  decoded := 0
  acted := []
  asked := []
  disconnected := false

def refill (conn : Connection) (now : ℚ) : Connection :=
  let tokens := conn.tokens + (now - conn.lastRefillTime) * refillRate
  { conn with
    tokens := if tokens > maxTokens then maxTokens else tokens
    lastRefillTime := now }

def charge (conn : Connection) : Connection := { conn with tokens := conn.tokens - 1 }

/-- The assignments of a login that has succeeded. -/
def activate (conn : Connection) (name : Text) : Connection :=
  { conn with username := name, state := .active, isBroadcastRecipient := true }

/-- SendPreEncoded, up to its write attempt. -/
def enqueue (conn : Connection) (msg : Text) : Connection :=
  if conn.closed then conn else { conn with outgoingQueue := conn.outgoingQueue ++ [msg] }

end Connection

variable {C W : Type*}

/-- OnMessageRecv with the connection's mutex, up to `app_mtx_` or to its end, and
where the worker goes on. -/
def onMessageRecv (conn : Connection) (now : ℚ) (m : Message C) : Connection × Stage C :=
  if conn.closed then (conn, .idle)
  else
    let conn := { conn.refill now with acted := conn.acted ++ [m.number] }
    if conn.tokens < 1 then (conn, .calling [.sendFast m.conn spamNotice, .close m.conn])
    else
      match conn.state with
      | .awaitingUsername => ({ conn.charge with asked := conn.asked ++ [m.number] }, .login m)
      | .active =>
          (conn.charge, .calling
            [.broadcast ⟨some conn.fd, chatLine conn.username m.raw, some (m.conn, m.number)⟩])

namespace Stage

/-- The connection whose mutex is held. -/
def holds : Stage C → Option C
  | .reading c => some c
  | .login m => some m.conn
  | .accepted m => some m.conn
  | _ => none

/-- The connection for which a login is under way. -/
def logsIn : Stage C → Option C
  | .login m => some m.conn
  | .accepted m => some m.conn
  | _ => none

/-- Where a thread goes on with the calls that are left. -/
def after : List (Call C) → Stage C
  | [] => .idle
  | call :: calls => .calling (call :: calls)

@[simp] theorem holds_after (calls : List (Call C)) : (after calls).holds = none := by
  cases calls <;> rfl

@[simp] theorem logsIn_after (calls : List (Call C)) : (after calls).logsIn = none := by
  cases calls <;> rfl

theorem holds_of_logsIn {stage : Stage C} {c : C} (h : stage.logsIn = some c) :
    stage.holds = some c := by
  cases stage with
  | login m => exact h
  | accepted m => exact h
  | _ => cases h

end Stage

namespace Server

def init (fd : C → ℕ) : Server C W where
  conns c := .new (fd c) 0
  mtx _ := none
  usernames := ∅
  taskQueue := []
  globalQueue := []
  stage _ := .idle
  now := 0

/-- The test of a login under `app_mtx_`. -/
def Free (s : Server C W) (name : Text) : Prop := name ∉ s.usernames ∧ name ≠ []

instance (s : Server C W) (name : Text) : Decidable (s.Free name) :=
  inferInstanceAs (Decidable (_ ∧ _))

section Updates

variable [DecidableEq C] [DecidableEq W]

def setConn (s : Server C W) (c : C) (conn : Connection) : Server C W :=
  { s with conns := Function.update s.conns c conn }

def goto (s : Server C W) (t : Thread W) (stage : Stage C) : Server C W :=
  { s with stage := Function.update s.stage t stage }

def setMtx (s : Server C W) (c : C) (holder : Option (Thread W)) : Server C W :=
  { s with mtx := Function.update s.mtx c holder }

/-- push_task for a message of the connection. -/
def pushTask (s : Server C W) (c : C) (raw : Text) : Server C W :=
  { s.setConn c { s.conns c with decoded := (s.conns c).decoded + 1 } with
    taskQueue := s.taskQueue ++ [⟨c, (s.conns c).decoded, raw⟩] }

/-- OnMessageRecv from the lock of the mutex. -/
def receive (s : Server C W) (w : W) (m : Message C) : Server C W :=
  let (conn, stage) := onMessageRecv (s.conns m.conn) s.now m
  let holder := if stage.holds = some m.conn then some (.worker w) else none
  ((s.setConn m.conn conn).setMtx m.conn holder).goto (.worker w) stage

/-- The region of a login under `app_mtx_`; after a failure the mutex is unlocked. -/
def tryInsert (s : Server C W) (w : W) (m : Message C) : Server C W :=
  if s.Free m.raw then
    { s.goto (.worker w) (.accepted m) with usernames := insert m.raw s.usernames }
  else
    (s.setMtx m.conn none).goto (.worker w) (.calling [.sendFast m.conn usernameRefused])

/-- The assignments of a login, and the unlock. -/
def finishLogin (s : Server C W) (w : W) (m : Message C) : Server C W :=
  let conn := s.conns m.conn
  ((s.setConn m.conn (conn.activate m.raw)).setMtx m.conn none).goto (.worker w) (.calling
    [.sendFast m.conn usernameAccepted, .broadcast ⟨some conn.fd, joinLine m.raw, none⟩])

/-- The next call of a thread, and what it then goes on with. -/
def perform (s : Server C W) (t : Thread W) (calls : List (Call C)) : Call C → Option (Server C W)
  | .sendFast c msg =>
      if s.mtx c = none then some ((s.setConn c ((s.conns c).enqueue msg)).goto t (.after calls))
      else none
  | .broadcast evt => some { s.goto t (.after calls) with globalQueue := s.globalQueue ++ [evt] }
  | .close c =>
      if (s.conns c).closed then some (s.goto t (.after calls))
      else some ((s.setConn c { s.conns c with closed := true }).goto t (.leaving c))

/-- OnClientDisconnect, from its region under `app_mtx_`. -/
def onClientDisconnect (s : Server C W) (t : Thread W) (c : C) : Server C W :=
  let name := (s.conns c).username
  let left := s.setConn c { s.conns c with disconnected := true }
  if name = [] then left.goto t .idle
  else
    { left.goto t (.calling [.broadcast ⟨none, leftLine name, none⟩]) with
      usernames := s.usernames.erase name }

def next (s : Server C W) : Action C W → Option (Server C W)
  | .tick elapsed => if 0 ≤ elapsed then some { s with now := s.now + elapsed } else none
  | .read c =>
      if s.stage .reactor = .idle ∧ s.mtx c = none then
        some ((s.setMtx c (some .reactor)).goto .reactor (.reading c))
      else none
  | .decode raw =>
      match s.stage .reactor with
      | .reading c => some (s.pushTask c raw)
      | _ => none
  | .readDone shouldClose =>
      match s.stage .reactor with
      | .reading c =>
          some ((s.setMtx c none).goto .reactor
            (if shouldClose then .calling [.close c] else .idle))
      | _ => none
  | .hangUp c =>
      if s.stage .reactor = .idle then some (s.goto .reactor (.calling [.close c])) else none
  | .take w =>
      match s.stage (.worker w), s.taskQueue with
      | .idle, m :: rest => some { s.goto (.worker w) (.taken m) with taskQueue := rest }
      | _, _ => none
  | .lock w =>
      match s.stage (.worker w) with
      | .taken m => if s.mtx m.conn = none then some (s.receive w m) else none
      | _ => none
  | .insert w =>
      match s.stage (.worker w) with
      | .login m => some (s.tryInsert w m)
      | _ => none
  | .assign w =>
      match s.stage (.worker w) with
      | .accepted m => some (s.finishLogin w m)
      | _ => none
  | .call t =>
      match s.stage t with
      | .calling (call :: calls) => s.perform t calls call
      | _ => none
  | .disconnect t =>
      match s.stage t with
      | .leaving c => some (s.onClientDisconnect t c)
      | _ => none

end Updates

end Server

/-- What OnMessageRecv can do with the mutex held, with the tests that it has made. -/
inductive Received (conn : Connection) (now : ℚ) (m : Message C) : Connection × Stage C → Prop
  | closed (hclosed : conn.closed = true) : Received conn now m (conn, .idle)
  | spam (hopen : conn.closed = false) (hlow : (conn.refill now).tokens < 1) :
      Received conn now m ({ conn.refill now with acted := conn.acted ++ [m.number] },
        .calling [.sendFast m.conn spamNotice, .close m.conn])
  | username (hopen : conn.closed = false) (hpaid : ¬ (conn.refill now).tokens < 1)
      (hstate : conn.state = .awaitingUsername) :
      Received conn now m ({ (conn.refill now).charge with
        acted := conn.acted ++ [m.number], asked := conn.asked ++ [m.number] }, .login m)
  | chat (hopen : conn.closed = false) (hpaid : ¬ (conn.refill now).tokens < 1)
      (hstate : conn.state = .active) :
      Received conn now m ({ (conn.refill now).charge with acted := conn.acted ++ [m.number] },
        .calling [.broadcast
          ⟨some conn.fd, chatLine conn.username m.raw, some (m.conn, m.number)⟩])

theorem received (conn : Connection) (now : ℚ) (m : Message C) :
    Received conn now m (onMessageRecv conn now m) := by
  cases hclosed : conn.closed with
  | true =>
    rw [onMessageRecv, if_pos hclosed]
    exact .closed hclosed
  | false =>
    rw [onMessageRecv, if_neg (Bool.eq_false_iff.mp hclosed)]
    dsimp only
    split
    · rename_i hlow
      exact .spam hclosed hlow
    · rename_i hpaid
      split
      · rename_i hstate
        exact .username hclosed hpaid hstate
      · rename_i hstate
        exact .chat hclosed hpaid hstate

/-- What the new connection has in common with the old one is as before everywhere. -/
theorem Server.apply_setConn [DecidableEq C] {β : Type*} (f : Connection → β) {s : Server C W}
    {c : C} {conn : Connection} (hconn : f conn = f (s.conns c)) (d : C) :
    f ((s.setConn c conn).conns d) = f (s.conns d) := by
  change f (Function.update s.conns c conn d) = _
  rw [Function.update_apply]
  split
  · rename_i heq
    rw [heq, hconn]
  · rfl

/-- A worker goes on, as the others see it. -/
theorem comp_update_worker [DecidableEq W] {β γ : Type*} (g : β → γ) (f : Thread W → β) (w : W)
    (b : β) : (fun v => g (Function.update f (.worker w) b (.worker v))) =
      Function.update (fun v => g (f (.worker v))) w (g b) := by
  funext v
  by_cases hv : v = w
  · rw [hv, Function.update_self, Function.update_self]
  · have hne : Thread.worker v ≠ .worker w := fun heq => hv (Thread.worker.inj heq)
    rw [Function.update_of_ne hv, Function.update_of_ne hne]

section Steps

variable [DecidableEq C] [DecidableEq W]

def machine (fd : C → ℕ) : Machine (Server C W) (Action C W) := ⟨.init fd, Server.next⟩

/-- What a step can do, with the test that it has passed. -/
inductive Step (s : Server C W) : Action C W → Server C W → Prop
  | tick {elapsed : ℚ} (hpast : 0 ≤ elapsed) :
      Step s (.tick elapsed) { s with now := s.now + elapsed }
  | read {c : C} (hidle : s.stage .reactor = .idle) (hfree : s.mtx c = none) :
      Step s (.read c) ((s.setMtx c (some .reactor)).goto .reactor (.reading c))
  | decode {c : C} {raw : Text} (hreading : s.stage .reactor = .reading c) :
      Step s (.decode raw) (s.pushTask c raw)
  | readDone {c : C} {shouldClose : Bool} (hreading : s.stage .reactor = .reading c) :
      Step s (.readDone shouldClose)
        ((s.setMtx c none).goto .reactor (if shouldClose then .calling [.close c] else .idle))
  | hangUp {c : C} (hidle : s.stage .reactor = .idle) :
      Step s (.hangUp c) (s.goto .reactor (.calling [.close c]))
  | take {w : W} {m : Message C} {rest : List (Message C)} (hidle : s.stage (.worker w) = .idle)
      (hqueue : s.taskQueue = m :: rest) :
      Step s (.take w) { s.goto (.worker w) (.taken m) with taskQueue := rest }
  | lock {w : W} {m : Message C} (htaken : s.stage (.worker w) = .taken m)
      (hfree : s.mtx m.conn = none) : Step s (.lock w) (s.receive w m)
  | insert {w : W} {m : Message C} (hlogin : s.stage (.worker w) = .login m) :
      Step s (.insert w) (s.tryInsert w m)
  | assign {w : W} {m : Message C} (haccepted : s.stage (.worker w) = .accepted m) :
      Step s (.assign w) (s.finishLogin w m)
  | sendFast {t : Thread W} {c : C} {msg : Text} {calls : List (Call C)}
      (hcalling : s.stage t = .calling (.sendFast c msg :: calls)) (hfree : s.mtx c = none) :
      Step s (.call t) ((s.setConn c ((s.conns c).enqueue msg)).goto t (.after calls))
  | broadcast {t : Thread W} {evt : BroadcastEvent C} {calls : List (Call C)}
      (hcalling : s.stage t = .calling (.broadcast evt :: calls)) :
      Step s (.call t) { s.goto t (.after calls) with globalQueue := s.globalQueue ++ [evt] }
  | closeAgain {t : Thread W} {c : C} {calls : List (Call C)}
      (hcalling : s.stage t = .calling (.close c :: calls)) (hclosed : (s.conns c).closed = true) :
      Step s (.call t) (s.goto t (.after calls))
  | close {t : Thread W} {c : C} {calls : List (Call C)}
      (hcalling : s.stage t = .calling (.close c :: calls)) (hopen : ¬ (s.conns c).closed = true) :
      Step s (.call t) ((s.setConn c { s.conns c with closed := true }).goto t (.leaving c))
  | disconnect {t : Thread W} {c : C} (hleaving : s.stage t = .leaving c) :
      Step s (.disconnect t) (s.onClientDisconnect t c)

theorem step_of_next {s u : Server C W} {a : Action C W} (hnext : s.next a = some u) :
    Step s a u := by
  cases a with
  | tick elapsed =>
    obtain ⟨hpast, heq⟩ := Option.ite_none_right_eq_some.mp hnext
    exact Option.some.inj heq ▸ .tick hpast
  | read c =>
    obtain ⟨⟨hidle, hfree⟩, heq⟩ := Option.ite_none_right_eq_some.mp hnext
    exact Option.some.inj heq ▸ .read hidle hfree
  | decode raw =>
    simp only [Server.next] at hnext
    split at hnext
    · rename_i c hreading
      exact Option.some.inj hnext ▸ .decode hreading
    · cases hnext
  | readDone shouldClose =>
    simp only [Server.next] at hnext
    split at hnext
    · rename_i c hreading
      exact Option.some.inj hnext ▸ .readDone hreading
    · cases hnext
  | hangUp c =>
    obtain ⟨hidle, heq⟩ := Option.ite_none_right_eq_some.mp hnext
    exact Option.some.inj heq ▸ .hangUp hidle
  | take w =>
    simp only [Server.next] at hnext
    split at hnext
    · rename_i m rest hidle hqueue
      exact Option.some.inj hnext ▸ .take hidle hqueue
    · cases hnext
  | lock w =>
    simp only [Server.next] at hnext
    split at hnext
    · rename_i m htaken
      obtain ⟨hfree, heq⟩ := Option.ite_none_right_eq_some.mp hnext
      exact Option.some.inj heq ▸ .lock htaken hfree
    · cases hnext
  | insert w =>
    simp only [Server.next] at hnext
    split at hnext
    · rename_i m hlogin
      exact Option.some.inj hnext ▸ .insert hlogin
    · cases hnext
  | assign w =>
    simp only [Server.next] at hnext
    split at hnext
    · rename_i m haccepted
      exact Option.some.inj hnext ▸ .assign haccepted
    · cases hnext
  | call t =>
    simp only [Server.next] at hnext
    split at hnext
    · rename_i call calls hcalling
      cases call with
      | sendFast c msg =>
        obtain ⟨hfree, heq⟩ := Option.ite_none_right_eq_some.mp hnext
        exact Option.some.inj heq ▸ .sendFast hcalling hfree
      | broadcast evt => exact Option.some.inj hnext ▸ .broadcast hcalling
      | close c =>
        simp only [Server.perform] at hnext
        split at hnext
        · rename_i hclosed
          exact Option.some.inj hnext ▸ .closeAgain hcalling hclosed
        · rename_i hopen
          exact Option.some.inj hnext ▸ .close hcalling hopen
    · cases hnext
  | disconnect t =>
    simp only [Server.next] at hnext
    split at hnext
    · rename_i c hleaving
      exact Option.some.inj hnext ▸ .disconnect hleaving
    · cases hnext

end Steps

end ChatServer.MessageTasks
