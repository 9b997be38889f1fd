import Mathlib.Data.List.Sort
import Mathlib.Data.String.Basic
import ChatServer.ChatTables
import ChatServer.Lib.Runs

/-!
The logic thread and the reactor around the event queue. The reactor accepts
connections, pushes the messages it has decoded and closes connections; the
logic thread takes one event at a time, and closes a connection itself when
the rate limiter asks for it. In close_conn the exchange of the `closed` flag
and the push of the DISCONNECT event are separate steps, and other steps may
come between them.
-/
namespace ChatServer.LogicThread

open Lib.Seating Lib.Runs

structure World where
  app : ChatApp
  eventQueue : List NetworkEvent
  accepted : ConnId → Bool
  closed : ConnId → Bool
  /-- The reactor has exchanged the flag and not yet pushed the event. -/
  reactorClosing : Option ConnId
  /-- The same for the logic thread. -/
  logicClosing : Option ConnId
  /-- The DISCONNECT event was processed. -/
  gone : ConnId → Bool

inductive Action
  | accept (conn : ConnId)
  | message (conn : ConnId) (payload : Bytes)
  | reactorClose (conn : ConnId)
  | reactorPush
  | logicPush
  | process (env : Env)

/-- The connection that a handler asks the server to close. -/
def closeRequest (outputs : List Output) : Option ConnId :=
  outputs.findSome? fun
    | .close conn => some conn
    | _ => none

namespace World

def init : World := ⟨.new, [], fun _ => false, fun _ => false, none, none, fun _ => false⟩

def push (w : World) (type : EventType) (conn : ConnId) (payload : Option Bytes) : World :=
  { w with eventQueue := w.eventQueue ++ [⟨type, conn, payload⟩] }

/-- The state after the logic thread has processed the event it took. -/
def afterEvent (parse : Parser) (w : World) (env : Env) (evt : NetworkEvent)
    (rest : List NetworkEvent) : World :=
  let (app, outputs) := w.app.processEvent parse env (w.closed evt.conn) evt
  let processed := { w with
    app := app
    eventQueue := rest
    gone := if evt.type = .disconnect then Function.update w.gone evt.conn true else w.gone }
  match closeRequest outputs with
  | some conn =>
      if w.closed conn then processed
      else { processed with
        closed := Function.update w.closed conn true
        logicClosing := some conn }
  | none => processed

def next (parse : Parser) (w : World) : Action → Option World
  | .accept conn =>
      if w.reactorClosing = none ∧ w.accepted conn = false then
        some ({ w with accepted := Function.update w.accepted conn true }.push .connect conn none)
      else none
  | .message conn payload =>
      if w.reactorClosing = none ∧ w.accepted conn = true then
        some (w.push .message conn (some payload))
      else none
  | .reactorClose conn =>
      if w.reactorClosing = none ∧ w.accepted conn = true then
        if w.closed conn then some w
        else some { w with
          closed := Function.update w.closed conn true
          reactorClosing := some conn }
      else none
  | .reactorPush =>
      w.reactorClosing.map fun conn =>
        { w with reactorClosing := none }.push .disconnect conn none
  | .logicPush =>
      w.logicClosing.map fun conn => { w with logicClosing := none }.push .disconnect conn none
  | .process env =>
      if w.logicClosing = none then
        match w.eventQueue with
        | [] => none
        | evt :: rest => some (w.afterEvent parse env evt rest)
      else none

/-- The events of a kind that are queued for a connection. -/
def pending (w : World) (type : EventType) (conn : ConnId) : ℕ :=
  w.eventQueue.countP fun evt => evt.type = type ∧ evt.conn = conn

/-- The DISCONNECT events of a connection, from the exchange of its flag on. -/
def disconnects (w : World) (conn : ConnId) : ℕ :=
  w.pending .disconnect conn + (if w.reactorClosing = some conn then 1 else 0) +
    (if w.logicClosing = some conn then 1 else 0) + (if w.gone conn then 1 else 0)

/-- Who is present: the seats of the connections that are not gone. -/
def present (w : World) : Roster ConnId String String :=
  fun conn => if w.gone conn then none else w.app.seats conn

def tables (w : World) : ChatApp.Tables := { w.app.tables with seats := w.present }

end World

/-- The logic thread and the reactor, over any parser of client messages. -/
def machine (parse : Parser) : Machine World Action := ⟨World.init, World.next parse⟩

/-- A closed connection has one DISCONNECT event, an open one has none; and
the CONNECT event comes before there is a session. -/
structure Orderly (w : World) : Prop where
  disconnects : ∀ conn, w.disconnects conn = if w.closed conn then 1 else 0
  connects : ∀ conn, w.pending .connect conn ≤ if w.accepted conn then 1 else 0
  fresh : ∀ conn, 0 < w.pending .connect conn ∨ w.accepted conn = false →
    w.app.userData conn = none

namespace World

variable {parse : Parser} {w w' : World}

theorem pending_push (type type' : EventType) (conn conn' : ConnId) (payload : Option Bytes) :
    (w.push type conn payload).pending type' conn' =
      w.pending type' conn' + if type = type' ∧ conn = conn' then 1 else 0 := by
  simp only [pending, push, List.countP_append, List.countP_singleton, decide_eq_true_eq]

/-- What is left of an event's processing besides the application: it is off
the queue, and the logic thread may have begun to close a connection. -/
theorem afterEvent_spec (parse : Parser) (w : World) (env : Env) (evt : NetworkEvent)
    (rest : List NetworkEvent) :
    (w.afterEvent parse env evt rest).app =
        (w.app.processEvent parse env (w.closed evt.conn) evt).1 ∧
      (w.afterEvent parse env evt rest).eventQueue = rest ∧
      (w.afterEvent parse env evt rest).accepted = w.accepted ∧
      (w.afterEvent parse env evt rest).reactorClosing = w.reactorClosing ∧
      (w.afterEvent parse env evt rest).gone =
        (if evt.type = .disconnect then Function.update w.gone evt.conn true else w.gone) ∧
      ((w.afterEvent parse env evt rest).closed = w.closed ∧
          (w.afterEvent parse env evt rest).logicClosing = w.logicClosing ∨
        ∃ conn, w.closed conn = false ∧
          (w.afterEvent parse env evt rest).closed = Function.update w.closed conn true ∧
          (w.afterEvent parse env evt rest).logicClosing = some conn) := by
  unfold afterEvent
  dsimp only
  split
  · rename_i conn _
    split
    · exact ⟨rfl, rfl, rfl, rfl, rfl, Or.inl ⟨rfl, rfl⟩⟩
    · rename_i hopen
      exact ⟨rfl, rfl, rfl, rfl, rfl, Or.inr ⟨conn, by simpa using hopen, rfl, rfl⟩⟩
  · exact ⟨rfl, rfl, rfl, rfl, rfl, Or.inl ⟨rfl, rfl⟩⟩

/-- The event at the head of the queue is the one that is processed. -/
theorem next_process {env : Env} (h : w.next parse (.process env) = some w') :
    ∃ evt rest, w.eventQueue = evt :: rest ∧ w.logicClosing = none ∧
      w' = w.afterEvent parse env evt rest := by
  simp only [next] at h
  split at h
  · rename_i hidle
    split at h
    · cases h
    · rename_i evt rest hqueue
      cases h
      exact ⟨evt, rest, hqueue, hidle, rfl⟩
  · cases h

/-- What a step does. -/
inductive Moves (parse : Parser) (w : World) : Action → World → Prop
  | accept {conn : ConnId} (hnew : w.accepted conn = false) :
      Moves parse w (.accept conn)
        ({ w with accepted := Function.update w.accepted conn true }.push .connect conn none)
  | message {conn : ConnId} {payload : Bytes} (haccepted : w.accepted conn = true) :
      Moves parse w (.message conn payload) (w.push .message conn (some payload))
  | closedBefore {conn : ConnId} (hclosed : w.closed conn = true) :
      Moves parse w (.reactorClose conn) w
  | reactorClose {conn : ConnId} (hidle : w.reactorClosing = none)
      (hopen : w.closed conn = false) :
      Moves parse w (.reactorClose conn) { w with
        closed := Function.update w.closed conn true
        reactorClosing := some conn }
  | reactorPush {conn : ConnId} (hclosing : w.reactorClosing = some conn) :
      Moves parse w .reactorPush ({ w with reactorClosing := none }.push .disconnect conn none)
  | logicPush {conn : ConnId} (hclosing : w.logicClosing = some conn) :
      Moves parse w .logicPush ({ w with logicClosing := none }.push .disconnect conn none)
  | process {env : Env} {evt : NetworkEvent} {rest : List NetworkEvent}
      (hqueue : w.eventQueue = evt :: rest) (hidle : w.logicClosing = none) :
      Moves parse w (.process env) (w.afterEvent parse env evt rest)

theorem next_moves {a : Action} (h : w.next parse a = some w') : Moves parse w a w' := by
  cases a with
  | accept conn =>
    simp only [next, Option.ite_none_right_eq_some, Option.some.injEq] at h
    obtain ⟨⟨_, hnew⟩, rfl⟩ := h
    exact .accept hnew
  | message conn payload =>
    simp only [next, Option.ite_none_right_eq_some, Option.some.injEq] at h
    obtain ⟨⟨_, haccepted⟩, rfl⟩ := h
    exact .message haccepted
  | reactorClose conn =>
    simp only [next, Option.ite_none_right_eq_some] at h
    obtain ⟨⟨hidle, _⟩, h⟩ := h
    split at h
    · rename_i hclosed
      cases h
      exact .closedBefore hclosed
    · rename_i hopen
      cases h
      exact .reactorClose hidle (by simpa using hopen)
  | reactorPush =>
    simp only [next, Option.map_eq_some_iff] at h
    obtain ⟨conn, hclosing, rfl⟩ := h
    exact .reactorPush hclosing
  | logicPush =>
    simp only [next, Option.map_eq_some_iff] at h
    obtain ⟨conn, hclosing, rfl⟩ := h
    exact .logicPush hclosing
  | process env =>
    obtain ⟨evt, rest, hqueue, hidle, rfl⟩ := next_process h
    exact .process hqueue hidle

/-- Only the processing of an event touches the application. -/
theorem next_app {a : Action} (h : w.next parse a = some w') :
    w'.app = w.app ∨ ∃ env evt rest, a = .process env ∧ w.eventQueue = evt :: rest ∧
      w'.app = (w.app.processEvent parse env (w.closed evt.conn) evt).1 := by
  cases next_moves h with
  | process hqueue _ =>
    exact Or.inr ⟨_, _, _, rfl, hqueue, (afterEvent_spec parse w _ _ _).1⟩
  | accept | message | closedBefore | reactorClose | reactorPush | logicPush => exact Or.inl rfl

end World

namespace Orderly

open World

variable {parse : Parser} {w w' : World}

theorem init : Orderly World.init :=
  ⟨fun _ => rfl, fun _ => Nat.zero_le _, fun _ _ => rfl⟩

theorem accept (h : Orderly w) {conn : ConnId} (hnew : w.accepted conn = false) :
    Orderly ({ w with
      accepted := Function.update w.accepted conn true }.push .connect conn none) := by
  refine ⟨?_, ?_, ?_⟩
  · intro c
    have hc := h.disconnects c
    simp only [World.disconnects, pending_push] at hc ⊢
    exact hc
  · intro c
    have hc := h.connects c
    rw [pending_push]
    show w.pending .connect c + _ ≤ if Function.update w.accepted conn true c = true then 1 else 0
    by_cases hcc : c = conn
    · subst hcc
      rw [hnew] at hc
      simp only [Function.update_self, Bool.false_eq_true, if_false, and_self, if_true] at hc ⊢
      omega
    · rw [Function.update_of_ne hcc, if_neg (fun he => hcc he.2.symm)]
      exact hc
  · intro c hc
    rw [pending_push] at hc
    apply h.fresh c
    by_cases hcc : c = conn
    · subst hcc
      exact Or.inr hnew
    · rw [if_neg (fun he => hcc he.2.symm)] at hc
      refine hc.imp id ?_
      intro hacc
      rw [show (World.push _ _ _ _).accepted c = Function.update w.accepted conn true c from rfl,
        Function.update_of_ne hcc] at hacc
      exact hacc

theorem message (h : Orderly w) (conn : ConnId) (payload : Option Bytes) :
    Orderly (w.push .message conn payload) := by
  refine ⟨?_, ?_, ?_⟩
  · intro c
    have hc := h.disconnects c
    simp only [World.disconnects, pending_push] at hc ⊢
    exact hc
  · intro c
    rw [pending_push]
    exact h.connects c
  · intro c hc
    rw [pending_push] at hc
    exact h.fresh c hc

theorem reactorClose (h : Orderly w) (hidle : w.reactorClosing = none) {conn : ConnId}
    (hopen : w.closed conn = false) :
    Orderly { w with
      closed := Function.update w.closed conn true
      reactorClosing := some conn } := by
  refine ⟨?_, h.connects, h.fresh⟩
  intro c
  have hc := h.disconnects c
  simp only [World.disconnects, hidle] at hc
  show w.pending .disconnect c + (if some conn = some c then 1 else 0) + _ + _ =
    if Function.update w.closed conn true c = true then 1 else 0
  by_cases hcc : c = conn
  · subst hcc
    rw [hopen] at hc
    simp only [Function.update_self, if_true, reduceCtorEq, Bool.false_eq_true, if_false] at hc ⊢
    omega
  · have hne : some conn ≠ some c := fun he => hcc (Option.some.inj he).symm
    rw [Function.update_of_ne hcc, if_neg hne]
    exact hc

theorem reactorPush (h : Orderly w) {conn : ConnId} (hclosing : w.reactorClosing = some conn) :
    Orderly ({ w with reactorClosing := none }.push .disconnect conn none) := by
  refine ⟨?_, ?_, ?_⟩
  · intro c
    have hc := h.disconnects c
    simp only [World.disconnects, pending_push, hclosing, Option.some.injEq] at hc ⊢
    show w.pending .disconnect c + _ + 0 + _ + _ = _
    simp only [true_and]
    exact hc
  · intro c
    rw [pending_push]
    exact h.connects c
  · intro c hc
    rw [pending_push] at hc
    exact h.fresh c hc

theorem logicPush (h : Orderly w) {conn : ConnId} (hclosing : w.logicClosing = some conn) :
    Orderly ({ w with logicClosing := none }.push .disconnect conn none) := by
  refine ⟨?_, ?_, ?_⟩
  · intro c
    have hc := h.disconnects c
    simp only [World.disconnects, pending_push, hclosing, Option.some.injEq] at hc ⊢
    show w.pending .disconnect c + (if True ∧ conn = c then 1 else 0) +
      (if w.reactorClosing = some c then 1 else 0) + 0 + (if w.gone c = true then 1 else 0) =
        if w.closed c = true then 1 else 0
    simp only [true_and]
    omega
  · intro c
    rw [pending_push]
    exact h.connects c
  · intro c hc
    rw [pending_push] at hc
    exact h.fresh c hc

/-- A connection whose DISCONNECT event is at the head of the queue is not gone. -/
theorem not_gone_of_disconnect (h : Orderly w) {evt : NetworkEvent} {rest : List NetworkEvent}
    (hqueue : w.eventQueue = evt :: rest) (htype : evt.type = .disconnect) :
    w.gone evt.conn = false := by
  have hc := h.disconnects evt.conn
  rw [World.disconnects, World.pending, hqueue,
    List.countP_cons_of_pos (by simp [htype])] at hc
  have hone : (if w.closed evt.conn = true then 1 else 0) ≤ 1 := by split <;> omega
  cases hgone : w.gone evt.conn with
  | false => rfl
  | true =>
    rw [hgone, if_pos rfl] at hc
    omega

/-- An open connection is not gone. -/
theorem not_gone_of_open (h : Orderly w) {conn : ConnId} (hopen : w.closed conn = false) :
    w.gone conn = false := by
  have hc := h.disconnects conn
  rw [World.disconnects, hopen] at hc
  cases hgone : w.gone conn with
  | false => rfl
  | true =>
    rw [hgone, if_pos rfl, if_neg Bool.false_ne_true] at hc
    omega

theorem process (h : Orderly w) {env : Env} {evt : NetworkEvent} {rest : List NetworkEvent}
    (hqueue : w.eventQueue = evt :: rest) (hidle : w.logicClosing = none) :
    Orderly (w.afterEvent parse env evt rest) := by
  obtain ⟨happ, hrest, haccepted, hreactor, hgone, hclosing⟩ :=
    afterEvent_spec parse w env evt rest
  have hpending : ∀ type c, w.pending type c =
      (w.afterEvent parse env evt rest).pending type c +
        if evt.type = type ∧ evt.conn = c then 1 else 0 := by
    intro type c
    simp only [World.pending, hrest, hqueue, List.countP_cons, decide_eq_true_eq]
  refine ⟨?_, ?_, ?_⟩
  · intro c
    have hc := h.disconnects c
    rw [World.disconnects, hpending, hidle] at hc
    -- the event moves from the queue to the connections that are gone
    have hmoved : (if evt.type = .disconnect ∧ evt.conn = c then 1 else 0) +
        (if w.gone c = true then 1 else 0) =
        if (w.afterEvent parse env evt rest).gone c = true then 1 else 0 := by
      rw [hgone]
      by_cases htype : evt.type = .disconnect
      · have hnot := h.not_gone_of_disconnect hqueue htype
        by_cases hcc : c = evt.conn
        · subst hcc
          simp [htype, hnot]
        · have hne : ¬ evt.conn = c := fun he => hcc he.symm
          simp [htype, hne, Function.update_of_ne hcc]
      · simp [htype]
    rw [World.disconnects, hreactor]
    rcases hclosing with ⟨hclosed, hlogic⟩ | ⟨conn, hopen, hclosed, hlogic⟩
    · rw [hclosed, hlogic, hidle]
      simp only [reduceCtorEq, if_false] at hc ⊢
      omega
    · rw [hclosed, hlogic]
      by_cases hcc : c = conn
      · subst hcc
        rw [hopen] at hc
        simp only [Function.update_self, if_true, reduceCtorEq, Bool.false_eq_true, if_false]
          at hc ⊢
        omega
      · have hne : some conn ≠ some c := fun he => hcc (Option.some.inj he).symm
        rw [Function.update_of_ne hcc]
        simp only [hne, reduceCtorEq, if_false] at hc ⊢
        omega
  · intro c
    have hc := h.connects c
    rw [hpending] at hc
    rw [haccepted]
    omega
  · intro c hc
    rw [haccepted] at hc
    have hbound := h.connects c
    rw [hpending] at hbound
    rw [happ]
    apply ChatApp.processEvent_userData_none
    · apply h.fresh c
      refine hc.imp ?_ id
      intro hpos
      rw [hpending]
      omega
    · intro hevt
      rw [if_pos hevt] at hbound
      rcases hc with hpos | hacc
      · split at hbound <;> omega
      · rw [hacc, if_neg Bool.false_ne_true] at hbound
        omega

theorem next (h : Orderly w) {a : Action} (hnext : w.next parse a = some w') : Orderly w' := by
  cases next_moves hnext with
  | accept hnew => exact h.accept hnew
  | message _ => exact h.message _ _
  | closedBefore _ => exact h
  | reactorClose hidle hopen => exact h.reactorClose hidle hopen
  | reactorPush hclosing => exact h.reactorPush hclosing
  | logicPush hclosing => exact h.logicPush hclosing
  | process hqueue hidle => exact h.process hqueue hidle

theorem reachable {allowed : World → Action → Prop} (hw : Reachable (machine parse) allowed w) :
    Orderly w :=
  hw.invariant init fun _ _ _ hs _ hnext => hs.next hnext

end Orderly

/-- The LoginRequest that the step processes and HandleLogin accepts: the
connection, its session and the name. -/
def acceptedLogin (parse : Parser) (w : World) :
    Action → Option (ConnId × ChatSession × String)
  | .process env =>
      match w.eventQueue with
      | ⟨.message, conn, some rawData⟩ :: _ =>
          match w.app.userData conn, parse rawData with
          | some session, some (.login req) =>
              if w.closed conn = false ∧ ¬ (session.refill env.now).tokens < 1 ∧
                  w.app.onlineUsers req.username = none ∧ req.username ≠ "" then
                some (conn, session, req.username)
              else none
          | _, _ => none
      | _ => none
  | _ => none

theorem acceptedLogin_spec {parse : Parser} {w : World} {a : Action} {conn : ConnId}
    {s : ChatSession} {name : String} (h : acceptedLogin parse w a = some (conn, s, name)) :
    w.closed conn = false ∧ w.app.userData conn = some s ∧ w.app.onlineUsers name = none := by
  unfold acceptedLogin at h
  split at h
  · split at h
    · split at h
      · rename_i hsession _
        split at h
        · rename_i hguard
          cases h
          exact ⟨hguard.1, hsession, hguard.2.2.1⟩
        · cases h
      · cases h
    · cases h
  · cases h

/-- What a step does to the tables. -/
inductive Effect (parse : Parser) (w : World) (a : Action) (tables : ChatApp.Tables) : Prop
  | same (h : tables = w.tables)
  | login (conn : ConnId) (s : ChatSession) (name : String)
      (haccepts : acceptedLogin parse w a = some (conn, s, name))
      (h : tables = { w.tables with
        dir := Function.update w.app.onlineUsers name (some conn)
        seats := Function.update w.present conn (some ⟨name, roomOf s.currentRoom⟩) })
  | join (conn : ConnId) (name : String) (old new : Option String)
      (hseat : w.present conn = some ⟨name, old⟩)
      (h : tables = { w.tables with
        rooms := sit (stand w.app.roomAt name old) name new
        seats := Function.update w.present conn (some ⟨name, new⟩) })
  | leave (conn : ConnId) (name : String) (old : Option String)
      (hseat : w.present conn = some ⟨name, old⟩)
      (h : tables = {
        dir := Function.update w.app.onlineUsers name none
        rooms := stand w.app.roomAt name old
        seats := Function.update w.present conn none })

section Effects

open World

variable {parse : Parser} {w w' : World}

theorem World.present_of_not_gone {conn : ConnId} (h : w.gone conn = false) :
    w.present conn = w.app.seats conn := by
  rw [World.present, if_neg (Bool.eq_false_iff.mp h)]

/-- A seat that changes on the side of the application changes among those present. -/
theorem World.present_update {conn : ConnId} (hgone : w.gone conn = false)
    {seat : Option (Seat String String)} {app : ChatApp}
    (hseats : app.seats = Function.update w.app.seats conn seat) :
    ({ w with app := app } : World).present = Function.update w.present conn seat := by
  funext c
  by_cases hc : c = conn
  · subst hc
    simp only [World.present, hgone, hseats, Function.update_self, Bool.false_eq_true, if_false]
  · rw [Function.update_of_ne hc]
    simp only [World.present, hseats, Function.update_of_ne hc]

theorem World.tables_same {app : ChatApp} (h : app.tables = w.app.tables) :
    ({ w with app := app } : World).tables = w.tables := by
  have hseats : app.seats = w.app.seats := congrArg ChatApp.Tables.seats h
  have hpresent : ({ w with app := app } : World).present = w.present := by
    funext c
    simp only [World.present, hseats]
  rw [World.tables, hpresent, h, World.tables]

/-- An event that is no DISCONNECT acts on the tables through the application. -/
theorem World.afterEvent_tables {env : Env} {evt : NetworkEvent} (rest : List NetworkEvent)
    (htype : evt.type ≠ .disconnect) {app : ChatApp}
    (happ : (w.app.processEvent parse env (w.closed evt.conn) evt).1 = app) :
    (w.afterEvent parse env evt rest).tables = ({ w with app := app } : World).tables := by
  obtain ⟨hafter, _, _, _, hgone, _⟩ := World.afterEvent_spec parse w env evt rest
  rw [if_neg htype] at hgone
  have hpresent : (w.afterEvent parse env evt rest).present =
      ({ w with app := app } : World).present := by
    funext c
    simp only [World.present, hgone, hafter, happ]
  simp only [World.tables, hpresent, hafter, happ]

theorem handleMessage_effect (h : Orderly w) {env : Env} {conn : ConnId} {rawData : Bytes}
    {rest : List NetworkEvent} (hqueue : w.eventQueue = ⟨.message, conn, some rawData⟩ :: rest)
    (hopen : w.closed conn = false) :
    Effect parse w (.process env)
      ({ w with app := (w.app.handleMessage parse env conn rawData).1 } : World).tables := by
  have hgone := h.not_gone_of_open hopen
  have heffect : ChatApp.MessageEffect parse w.app env conn rawData
    (w.app.handleMessage parse env conn rawData).1.tables := ChatApp.handleMessage_tables
  generalize (w.app.handleMessage parse env conn rawData).1 = app at heffect ⊢
  cases heffect with
  | same hsame =>
    exact .same (World.tables_same hsame)
  | login s req hs hparse hpaid hfree hname htables =>
    have hseats : app.seats = Function.update w.app.seats conn
      (some ⟨req.username, roomOf s.currentRoom⟩) := congrArg ChatApp.Tables.seats htables
    have haccepts : acceptedLogin parse w (.process env) = some (conn, s, req.username) := by
      simp only [acceptedLogin, hqueue, hs, hparse, hopen, hpaid, hfree, hname, ne_eq,
        not_false_eq_true, and_self, if_true]
    refine .login conn s req.username haccepts ?_
    rw [World.tables, World.present_update hgone hseats, htables]
    rfl
  | join s room hs hin htables =>
    have hseats : app.seats = Function.update w.app.seats conn (some ⟨s.username, room⟩) :=
      congrArg ChatApp.Tables.seats htables
    have hseat : w.present conn = some ⟨s.username, roomOf s.currentRoom⟩ := by
      rw [World.present_of_not_gone hgone, ChatApp.seats_of_session hs,
        ChatSession.seat_of_loggedIn hin]
    refine .join conn s.username (roomOf s.currentRoom) room hseat ?_
    rw [World.tables, World.present_update hgone hseats, htables]
    rfl

theorem handleDisconnect_effect (h : Orderly w) {env : Env} {evt : NetworkEvent}
    {rest : List NetworkEvent} (hqueue : w.eventQueue = evt :: rest)
    (htype : evt.type = .disconnect) :
    Effect parse w (.process env) (w.afterEvent parse env evt rest).tables := by
  have hnot := h.not_gone_of_disconnect hqueue htype
  obtain ⟨happ, _, _, _, hgone, _⟩ := World.afterEvent_spec parse w env evt rest
  have happ' : (w.afterEvent parse env evt rest).app =
      (w.app.handleDisconnect env evt.conn).1 := by
    rw [happ, ChatApp.processEvent, if_neg (fun hdrop => hdrop.2 htype), htype]
  have hpresent : (w.afterEvent parse env evt rest).present =
      Function.update w.present evt.conn none := by
    have huser : (w.afterEvent parse env evt rest).app.seats = w.app.seats := by
      unfold ChatApp.seats
      rw [happ', ChatApp.handleDisconnect_userData]
    funext c
    rw [World.present, hgone, if_pos htype, huser]
    by_cases hc : c = evt.conn
    · subst hc
      simp
    · simp [Function.update_of_ne hc, World.present]
  rw [World.tables, hpresent, happ']
  rcases ChatApp.handleDisconnect_tables w.app env evt.conn with
    ⟨n, room, hseat, htables⟩ | ⟨hseat, hsame⟩
  · rw [← World.present_of_not_gone hnot] at hseat
    refine .leave evt.conn n room hseat ?_
    rw [htables]
  · rw [← World.present_of_not_gone hnot] at hseat
    refine .same ?_
    rw [hsame, ← hseat, Function.update_eq_self]
    rfl

/-- Every step does one of these things to the tables. -/
theorem next_effect (h : Orderly w) {a : Action} (hnext : w.next parse a = some w') :
    Effect parse w a w'.tables := by
  cases World.next_moves hnext with
  | accept | message | closedBefore | reactorClose | reactorPush | logicPush => exact .same rfl
  | @process env evt rest hqueue _ =>
    by_cases htype : evt.type = .disconnect
    · exact handleDisconnect_effect h hqueue htype
    · by_cases hclosed : w.closed evt.conn = true
      · have happ : (w.app.processEvent parse env (w.closed evt.conn) evt).1 = w.app := by
          rw [ChatApp.processEvent, if_pos ⟨hclosed, htype⟩]
        rw [World.afterEvent_tables rest htype happ]
        exact .same rfl
      · rw [Bool.not_eq_true] at hclosed
        rw [World.afterEvent_tables rest htype rfl, ChatApp.processEvent, hclosed,
          if_neg (fun hdrop => Bool.false_ne_true hdrop.1)]
        obtain ⟨type, conn, payload⟩ := evt
        cases type with
        | connect =>
          have hnone : w.app.userData conn = none := by
            apply h.fresh conn
            left
            rw [World.pending, hqueue, List.countP_cons_of_pos (by simp)]
            exact Nat.succ_pos _
          exact .same (World.tables_same (ChatApp.handleConnect_tables hnone))
        | disconnect => exact absurd rfl htype
        | message =>
          cases payload with
          | none => exact .same rfl
          | some rawData => exact handleMessage_effect h hqueue hclosed

end Effects

section Presence

open World

variable {w : World} {conn : ConnId} {n : String}

/-- A session of a connection whose DISCONNECT event is not processed. -/
structure LiveSession (w : World) (conn : ConnId) (s : ChatSession) : Prop where
  session : w.app.userData conn = some s
  loggedIn : s.isLoggedIn = true
  notGone : w.gone conn = false

theorem LiveSession.present {s : ChatSession} (h : LiveSession w conn s) :
    w.present conn = some ⟨s.username, roomOf s.currentRoom⟩ := by
  have hseat : w.app.seats conn = s.seat := ChatApp.seats_of_session h.session
  simpa only [present_of_not_gone h.notGone, hseat] using
    ChatSession.seat_of_loggedIn h.loggedIn

/-- Whoever is present has a live session. -/
theorem present_eq_some {room : Option String} (h : w.present conn = some ⟨n, room⟩) :
    ∃ s, LiveSession w conn s ∧ s.username = n ∧ roomOf s.currentRoom = room := by
  cases hgone : w.gone conn with
  | true =>
    simp [present, hgone] at h
  | false =>
    rw [present_of_not_gone hgone] at h
    cases hsession : w.app.userData conn with
    | none =>
      rw [ChatApp.seats_of_none hsession] at h
      cases h
    | some s =>
      rw [ChatApp.seats_of_session hsession] at h
      obtain ⟨hin, hname, hroom⟩ := ChatSession.seat_eq_some h
      exact ⟨s, ⟨hsession, hin, hgone⟩, hname, hroom⟩

theorem holds_present_iff :
    Holds w.present conn n ↔ ∃ s, LiveSession w conn s ∧ s.username = n := by
  constructor
  · intro ⟨room, hseat⟩
    obtain ⟨s, hs, hname, _⟩ := present_eq_some hseat
    exact ⟨s, hs, hname⟩
  · intro ⟨s, hs, hname⟩
    exact ⟨roomOf s.currentRoom, hname ▸ hs.present⟩

theorem sits_present_iff {r : String} (hr : r ≠ "") :
    Sits w.present conn n r ↔
      ∃ s, LiveSession w conn s ∧ s.username = n ∧ s.currentRoom = r := by
  have hroom : ∀ q : String, roomOf q = some r ↔ q = r := by
    intro q
    unfold roomOf
    split
    · rename_i hq
      exact iff_of_false nofun fun he => hr (he ▸ hq)
    · exact Option.some_inj
  constructor
  · intro hseat
    obtain ⟨s, hs, hname, hq⟩ := present_eq_some hseat
    exact ⟨s, hs, hname, (hroom _).mp hq⟩
  · intro ⟨s, hs, hname, hq⟩
    have hseat := hs.present
    rw [hname, (hroom _).mpr hq] at hseat
    exact hseat

end Presence

section Samples

/-- The names of a set in alphabetical order. -/
def sortedNames (names : Finset String) : List String :=
  Quot.liftOn names.val (List.insertionSort (· ≤ ·)) fun l₁ l₂ h =>
    List.Perm.eq_of_pairwise' (List.pairwise_insertionSort _ l₁)
      (List.pairwise_insertionSort _ l₂)
      ((List.perm_insertionSort _ l₁).trans (h.trans (List.perm_insertionSort _ l₂).symm))

theorem coe_sortedNames (names : Finset String) :
    (sortedNames names : Multiset String) = names.val := by
  obtain ⟨⟨l⟩, _⟩ := names
  exact Quot.sound (List.perm_insertionSort _ l)

/-- The parser on a few serialised requests: three logins, one room to join,
to leave and to chat in. -/
def sampleParser : Parser
  | [0x0A, 3, 0x0A, 1, 0x61] => some (.login ⟨"a"⟩)
  | [0x0A, 3, 0x0A, 1, 0x62] => some (.login ⟨"b"⟩)
  | [0x0A, 3, 0x0A, 1, 0x63] => some (.login ⟨"c"⟩)
  | [0x22, 3, 0x0A, 1, 0x72] => some (.joinRoom ⟨"r"⟩)
  | [0x22, 0] => some (.joinRoom ⟨""⟩)
  | [0x2A, 3, 0x0A, 1, 0x72] => some (.roomChat ⟨"r", ""⟩)
  | _ => none

def sampleEnv : Env where
  now := 0
  time := 0
  order _ := sortedNames
  mem_order _ names n := by
    rw [← Multiset.mem_coe, coe_sortedNames, Finset.mem_val]
  nodup_order _ names := by
    rw [← Multiset.coe_nodup, coe_sortedNames]
    exact names.nodup

/-- A connection is accepted and its requests are processed one by one. -/
def requests (conn : ConnId) (payloads : List Bytes) : List Action :=
  .accept conn :: .process sampleEnv ::
    payloads.flatMap fun payload => [.message conn payload, .process sampleEnv]

end Samples

end ChatServer.LogicThread
