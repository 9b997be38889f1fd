import ChatServer.Lib.History
import ChatServer.ServerSystem

/-!
The life of a connection as the event queue sees it. A `Life` keeps of the
system only the closed flags, the queue, what the two threads have in hand and
the log. Its steps are few, and every step of the system is one of them or
leaves it alone. The queue is first in first out, a flag is exchanged once,
and the events pushed for a connection are counted.
-/
namespace ChatServer.LifeCycle

open ServerSystem Lib.Runs Lib.History

/-- The event that the logic thread took, until its handler is called. -/
inductive Held
  | nothing
  | taken (evt : Queued)
  | entering (evt : Queued)

structure Life where
  flag : ConnId → Option Bool
  queue : List Queued
  pushes : ℕ
  /-- The connection that accept_loop has not announced yet. -/
  opening : Option ConnId
  /-- The connections whose flag was exchanged, and their event not pushed. -/
  reactorClosing : Option ConnId
  logicClosing : Option ConnId
  held : Held
  log : List Entry

namespace Life

def push (s : Life) (type : EventType) (conn : ConnId) (payload : Option Bytes) : Life :=
  let evt : Queued := ⟨s.pushes, ⟨type, conn, payload⟩⟩
  { s with
    queue := s.queue ++ [evt]
    pushes := s.pushes + 1
    log := s.log ++ [.push evt] }

def exchange (s : Life) (conn : ConnId) : Life :=
  { s with
    flag := Function.update s.flag conn (some true)
    log := s.log ++ [.exchange conn] }

inductive Step (s : Life) : Life → Prop
  | quiet : Step s s
  | accept {conn : ConnId} (hnew : s.flag conn = none) (hopening : s.opening = none)
      (hclosing : s.reactorClosing = none) : Step s { s with
        flag := Function.update s.flag conn (some false)
        opening := some conn }
  | announce {conn : ConnId} (hopening : s.opening = some conn) :
      Step s { s.push .connect conn none with opening := none }
  | message {conn : ConnId} (payload : Bytes) (hopening : s.opening = none)
      (hknown : s.flag conn ≠ none) : Step s (s.push .message conn (some payload))
  | reactorClose {conn : ConnId} (hopen : s.flag conn = some false)
      (hopening : s.opening = none) (hclosing : s.reactorClosing = none) :
      Step s { s.exchange conn with reactorClosing := some conn }
  | reactorPush {conn : ConnId} (hclosing : s.reactorClosing = some conn) :
      Step s { s.push .disconnect conn none with reactorClosing := none }
  | logicClose {conn : ConnId} (hopen : s.flag conn = some false)
      (hclosing : s.logicClosing = none) : Step s { s.exchange conn with logicClosing := some conn }
  | logicPush {conn : ConnId} (hclosing : s.logicClosing = some conn) :
      Step s { s.push .disconnect conn none with logicClosing := none }
  | take {evt : Queued} {rest : List Queued} (hheld : s.held = .nothing)
      (hqueue : s.queue = evt :: rest) : Step s { s with queue := rest, held := .taken evt }
  | discard {evt : Queued} (hheld : s.held = .taken evt) (hclosed : s.flag evt.conn = some true)
      (htype : evt.type ≠ .disconnect) :
      Step s { s with held := .nothing, log := s.log ++ [.examine evt true] }
  | pass {evt : Queued} {closed : Bool} (hheld : s.held = .taken evt)
      (hclosed : closed = true ↔ s.flag evt.conn = some true)
      (hpass : closed = false ∨ evt.type = .disconnect) :
      Step s { s with held := .entering evt, log := s.log ++ [.examine evt closed] }
  | call {evt : Queued} (hheld : s.held = .entering evt) :
      Step s { s with held := .nothing, log := s.log ++ [.call evt] }
  | append {evt : Queued} {conn : ConnId} {msg : ServerMessage}
      (hopen : s.flag conn = some false) :
      Step s { s with log := s.log ++ [.append evt conn msg] }

/-- A closed connection stays closed. -/
theorem Step.flag_closed {s t : Life} {conn : ConnId} (hstep : s.Step t)
    (h : s.flag conn = some true) : t.flag conn = some true := by
  cases hstep with
  | @accept c hnew hopening hclosing =>
    have hne : conn ≠ c := by
      rintro rfl
      rw [h] at hnew
      cases hnew
    simpa [hne] using h
  | @reactorClose c hopen hopening hclosing =>
    by_cases hc : conn = c
    · simp [exchange, hc]
    · simpa [exchange, hc] using h
  | @logicClose c hopen hclosing =>
    by_cases hc : conn = c
    · simp [exchange, hc]
    · simpa [exchange, hc] using h
  | _ => exact h

end Life

def opening : ReactorStage → Option ConnId
  | .inserted conn => some conn
  | .registered conn => some conn
  | _ => none

def reactorClosing : ReactorStage → Option ConnId
  | .closing (.exchanged conn) => some conn
  | _ => none

def logicClosing : LogicStage → Option ConnId
  | .closing _ (.exchanged conn) _ => some conn
  | _ => none

def held : LogicStage → Held
  | .taken evt => .taken evt
  | .entering evt => .entering evt
  | _ => .nothing

/-- The abstraction. -/
def life {n : ℕ} (s : System n) : Life where
  flag := flag s.net
  queue := s.eventQueue
  pushes := s.pushes
  opening := opening s.reactor
  reactorClosing := reactorClosing s.reactor
  logicClosing := logicClosing s.logic
  held := held s.logic
  log := s.log

section Simulation

variable {n : ℕ} {setup : Setup} {s t : System n}

theorem isClosed_iff (s : System n) (conn : ConnId) :
    s.isClosed conn = true ↔ flag s.net conn = some true := by
  unfold System.isClosed flag
  cases s.net.conns conn with
  | none => simp
  | some c => simp

theorem flag_open {conn : ConnId} (h : s.isClosed conn = false) (hknown : flag s.net conn ≠ none) :
    flag s.net conn = some false := by
  cases hflag : flag s.net conn with
  | none => exact absurd hflag hknown
  | some closed =>
    cases closed with
    | false => rfl
    | true =>
      rw [(isClosed_iff s conn).mpr hflag] at h
      cases h

theorem known_of_net {conn : ConnId} {op : ConnOp} {net : Broadcast.Server n}
    (hnet : s.net.next setup.kernel (.connOp conn op) = some net) : flag s.net conn ≠ none := by
  cases Broadcast.Server.next_moves hnet with
  | connOp hop hconn => simp [flag, hconn]

/-- Every step of the system is a step in the life of its connections. -/
theorem next_life {a : Action n} (hnext : s.next setup a = some t) :
    (life s).Step (life t) := by
  have hsteps := System.next_steps hnext
  obtain ⟨net₀, app, clock, queue, pushes, reactor, logic, log⟩ := s
  cases hsteps with
  | @net b net hkind hnet =>
    have hflag : flag net = flag net₀ := by
      refine flag_other hnet ?_ ?_
      · rintro id fd now rfl
        simp [ofPool, ofReactor] at hkind
      · rintro id rfl
        simp [ofPool, ofReactor] at hkind
    simp only [life, hflag]
    exact .quiet
  | @accept conn fd now net hidle hnet =>
    cases hidle
    obtain ⟨hnew, hflag⟩ := flag_accept hnet
    simp only [life, System.setReactor, hflag]
    exact .accept hnew rfl rfl
  | @register conn net hstage hnet =>
    cases hstage
    simp only [life, System.setReactor, flag_other hnet (by simp) (by simp)]
    exact .quiet
  | pushConnect hstage =>
    cases hstage
    exact .announce rfl
  | message payload hidle hknown =>
    cases hidle
    refine .message payload rfl ?_
    simpa [life, flag, System.known, Option.isSome_iff_ne_none] using hknown
  | closeAgain hclosed => exact .quiet
  | @close conn net hidle hopen hnet =>
    cases hidle
    obtain ⟨hknown, hflag⟩ := flag_close hnet
    simp only [life, System.setReactor, System.record, hflag]
    exact .reactorClose (flag_open hopen hknown) rfl rfl
  | reactorPush hstage =>
    cases hstage
    exact .reactorPush rfl
  | @reactorErase conn net hstage hnet =>
    cases hstage
    simp only [life, System.setReactor, flag_other hnet (by simp) (by simp)]
    exact .quiet
  | take hstage hqueue =>
    cases hstage
    exact .take rfl hqueue
  | @discard evt hstage hclosed htype =>
    cases hstage
    exact .discard rfl ((isClosed_iff _ evt.conn).mp hclosed) htype
  | @pass evt hstage hpass =>
    cases hstage
    exact .pass rfl (isClosed_iff _ evt.conn) hpass
  | call hstage hclock =>
    cases hstage
    exact .call rfl
  | endEvent hstage =>
    cases hstage
    exact .quiet
  | @dropped evt conn msg rest net hstage hclosed hnet =>
    cases hstage
    simp only [life, System.setLogic, flag_other hnet (by simp) (by simp)]
    exact .quiet
  | @append evt conn msg rest net hstage hopen hnet =>
    cases hstage
    simp only [life, System.setLogic, System.record, flag_other hnet (by simp) (by simp)]
    exact .append (flag_open hopen (known_of_net hnet))
  | @broadcast evt msg rest net hstage hnet =>
    cases hstage
    simp only [life, System.setLogic, flag_other hnet (by simp) (by simp)]
    exact .quiet
  | logicCloseAgain hstage hclosed =>
    cases hstage
    exact .quiet
  | @logicClose evt conn rest net hstage hopen hnet =>
    cases hstage
    obtain ⟨hknown, hflag⟩ := flag_close hnet
    simp only [life, System.setLogic, System.record, hflag]
    exact .logicClose (flag_open hopen hknown) rfl
  | @notify evt rest net hstage hnet =>
    cases hstage
    simp only [life, System.setLogic, flag_other hnet (by simp) (by simp)]
    exact .quiet
  | logicPush hstage =>
    cases hstage
    exact .logicPush rfl
  | @logicErase evt conn rest net hstage hnet =>
    cases hstage
    simp only [life, System.setLogic, flag_other hnet (by simp) (by simp)]
    exact .quiet

end Simulation

section Projections

@[simp]
def pushedBy : Entry → Option Queued
  | .push evt => some evt
  | _ => none

@[simp]
def examinedBy : Entry → Option (Queued × Bool)
  | .examine evt closed => some (evt, closed)
  | _ => none

@[simp]
def calledBy : Entry → Option Queued
  | .call evt => some evt
  | _ => none

/-- The events pushed, in order. -/
def pushes (log : List Entry) : List Queued := log.filterMap pushedBy

/-- The events that ProcessEvent looked at, with the flag that it read. -/
def examined (log : List Entry) : List (Queued × Bool) := log.filterMap examinedBy

/-- The events whose handler was called. -/
def calls (log : List Entry) : List Queued := log.filterMap calledBy

variable {log : List Entry} {evt : Queued} {closed : Bool}

@[simp]
theorem pushes_snoc (log : List Entry) (e : Entry) :
    pushes (log ++ [e]) = pushes log ++ (pushedBy e).toList := by
  cases e <;> simp [pushes]

@[simp]
theorem examined_snoc (log : List Entry) (e : Entry) :
    examined (log ++ [e]) = examined log ++ (examinedBy e).toList := by
  cases e <;> simp [examined]

@[simp]
theorem calls_snoc (log : List Entry) (e : Entry) :
    calls (log ++ [e]) = calls log ++ (calledBy e).toList := by
  cases e <;> simp [calls]

theorem mem_examined : (evt, closed) ∈ examined log ↔ .examine evt closed ∈ log := by
  refine List.mem_filterMap.trans ⟨?_, fun h => ⟨_, h, rfl⟩⟩
  intro ⟨e, he, hevt⟩
  cases e with
  | examine evt' closed' =>
    cases hevt
    exact he
  | _ => cases hevt

theorem mem_calls : evt ∈ calls log ↔ .call evt ∈ log := by
  refine List.mem_filterMap.trans ⟨?_, fun h => ⟨_, h, rfl⟩⟩
  intro ⟨e, he, hevt⟩
  cases e with
  | call evt' =>
    cases hevt
    exact he
  | _ => cases hevt

end Projections

namespace Held

def unexamined : Held → List Queued
  | .taken evt => [evt]
  | _ => []

def admitted : Held → List Queued
  | .entering evt => [evt]
  | _ => []

end Held

/-- The check at the start of ProcessEvent lets the event through. -/
def passes (x : Queued × Bool) : Bool := !x.2 || x.1.type = .disconnect

/-- First in, first out: what was pushed has been examined, in this order, or
is in hand or in the queue, and the handlers were called for what passed. -/
structure Fifo (s : Life) : Prop where
  queue : pushes s.log = (examined s.log).map Prod.fst ++ s.held.unexamined ++ s.queue
  called : calls s.log ++ s.held.admitted = ((examined s.log).filter passes).map Prod.fst
  numbers : (pushes s.log).map Queued.number = List.range s.pushes

namespace Fifo

variable {s t : Life}

theorem push (h : Fifo s) (type : EventType) (conn : ConnId) (payload : Option Bytes) :
    Fifo (s.push type conn payload) := by
  refine ⟨?_, ?_, ?_⟩
  · simp [Life.push, h.queue]
  · simpa [Life.push] using h.called
  · simp [Life.push, h.numbers, List.range_succ]

theorem exchange (h : Fifo s) (conn : ConnId) : Fifo (s.exchange conn) :=
  ⟨by simpa [Life.exchange] using h.queue, by simpa [Life.exchange] using h.called,
    by simpa [Life.exchange] using h.numbers⟩

theorem step (h : Fifo s) (hstep : s.Step t) : Fifo t := by
  cases hstep with
  | quiet => exact h
  | accept hnew hopening hclosing => exact ⟨h.queue, h.called, h.numbers⟩
  | @announce conn hopening =>
    have hpush := h.push .connect conn none
    exact ⟨hpush.queue, hpush.called, hpush.numbers⟩
  | message payload hopening hknown => exact h.push .message _ (some payload)
  | @reactorClose conn hopen hopening hclosing =>
    have hexchange := h.exchange conn
    exact ⟨hexchange.queue, hexchange.called, hexchange.numbers⟩
  | @reactorPush conn hclosing =>
    have hpush := h.push .disconnect conn none
    exact ⟨hpush.queue, hpush.called, hpush.numbers⟩
  | @logicClose conn hopen hclosing =>
    have hexchange := h.exchange conn
    exact ⟨hexchange.queue, hexchange.called, hexchange.numbers⟩
  | @logicPush conn hclosing =>
    have hpush := h.push .disconnect conn none
    exact ⟨hpush.queue, hpush.called, hpush.numbers⟩
  | take hheld hqueue =>
    have hall := h.queue
    have hcalled := h.called
    rw [hheld, hqueue] at hall
    rw [hheld] at hcalled
    exact ⟨by simpa [Held.unexamined] using hall, by simpa [Held.admitted] using hcalled,
      h.numbers⟩
  | @discard evt hheld hclosed htype =>
    have hall := h.queue
    have hcalled := h.called
    rw [hheld] at hall hcalled
    have hfails : passes (evt, true) = false := by simp [passes, htype]
    refine ⟨?_, ?_, by simpa using h.numbers⟩
    · simpa [Held.unexamined] using hall
    · simpa [hfails, Held.admitted] using hcalled
  | @pass evt closed hheld hclosed hpass =>
    have hall := h.queue
    have hcalled := h.called
    rw [hheld] at hall hcalled
    have hpasses : passes (evt, closed) = true := by
      rcases hpass with hopen | htype
      · simp [passes, hopen]
      · simp [passes, htype]
    refine ⟨?_, ?_, by simpa using h.numbers⟩
    · simpa [Held.unexamined] using hall
    · simpa [hpasses, Held.admitted] using hcalled
  | call hheld =>
    have hall := h.queue
    have hcalled := h.called
    rw [hheld] at hall hcalled
    exact ⟨by simpa [Held.unexamined] using hall, by simpa [Held.admitted] using hcalled,
      by simpa using h.numbers⟩
  | append hopen =>
    exact ⟨by simpa using h.queue, by simpa using h.called, by simpa using h.numbers⟩

/-- Each event is pushed once. -/
theorem nodup (h : Fifo s) : (pushes s.log).Nodup := by
  have hnumbers : ((pushes s.log).map Queued.number).Nodup := by
    rw [h.numbers]
    exact List.nodup_range
  exact hnumbers.of_map _

end Fifo

/-- The flags are what the exchanges made of them, and ProcessEvent read them
as they were. -/
structure Flagged (s : Life) : Prop where
  exchanged : ∀ conn, .exchange conn ∈ s.log ↔ s.flag conn = some true
  read : Justified (fun before e => ∀ evt closed, e = .examine evt closed →
    (closed = true ↔ .exchange evt.conn ∈ before)) s.log

namespace Flagged

variable {s t : Life}

/-- A step that appends an entry of another kind. -/
theorem other (h : Flagged s) {e : Entry} (ht : t.log = s.log ++ [e]) (hflag : t.flag = s.flag)
    (hexchange : ∀ conn, e ≠ .exchange conn)
    (hexamine : ∀ evt closed, e ≠ .examine evt closed) : Flagged t := by
  refine ⟨?_, ?_⟩
  · intro conn
    rw [ht, hflag, List.mem_append, List.mem_singleton]
    simp [h.exchanged, (hexchange conn).symm]
  · rw [ht]
    exact h.read.snoc fun evt closed he => absurd he (hexamine evt closed)

theorem exchange (h : Flagged s) {conn : ConnId} (ht : t.log = s.log ++ [.exchange conn])
    (hflag : t.flag = Function.update s.flag conn (some true)) : Flagged t := by
  refine ⟨?_, ?_⟩
  · intro c
    rw [ht, hflag, List.mem_append, List.mem_singleton, h.exchanged]
    by_cases hc : c = conn
    · simp [hc]
    · simp [hc]
  · rw [ht]
    exact h.read.snoc fun evt closed he => by cases he

theorem examine (h : Flagged s) {evt : Queued} {closed : Bool}
    (ht : t.log = s.log ++ [.examine evt closed]) (hflag : t.flag = s.flag)
    (hclosed : closed = true ↔ s.flag evt.conn = some true) : Flagged t := by
  refine ⟨?_, ?_⟩
  · intro c
    rw [ht, hflag, List.mem_append, List.mem_singleton]
    simp [h.exchanged]
  · rw [ht]
    refine h.read.snoc ?_
    intro evt' closed' he
    cases he
    exact hclosed.trans (h.exchanged evt.conn).symm

theorem step (h : Flagged s) (hstep : s.Step t) : Flagged t := by
  cases hstep with
  | quiet => exact h
  | @accept conn hnew hopening hclosing =>
    refine ⟨?_, h.read⟩
    intro c
    refine (h.exchanged c).trans ?_
    by_cases hc : c = conn
    · simp [hc, hnew]
    · simp [hc]
  | announce hopening => exact h.other rfl rfl nofun nofun
  | message payload hopening hknown => exact h.other rfl rfl nofun nofun
  | reactorClose hopen hopening hclosing => exact h.exchange rfl rfl
  | reactorPush hclosing => exact h.other rfl rfl nofun nofun
  | logicClose hopen hclosing => exact h.exchange rfl rfl
  | logicPush hclosing => exact h.other rfl rfl nofun nofun
  | take hheld hqueue => exact ⟨h.exchanged, h.read⟩
  | discard hheld hclosed htype => exact h.examine rfl rfl (iff_of_true rfl hclosed)
  | pass hheld hclosed hpass => exact h.examine rfl rfl hclosed
  | call hheld => exact h.other rfl rfl nofun nofun
  | append hopen => exact h.other rfl rfl nofun nofun

/-- What ProcessEvent saw closed is closed. -/
theorem of_examined (h : Flagged s) {evt : Queued} (hseen : (evt, true) ∈ examined s.log) :
    s.flag evt.conn = some true := by
  obtain ⟨before, after, hlog⟩ := List.append_of_mem (mem_examined.mp hseen)
  have hexchange := (h.read before _ after hlog evt true rfl).mp rfl
  exact (h.exchanged evt.conn).mp (by simp [hlog, hexchange])

end Flagged

/-- How many events of a type were pushed for a connection. -/
def pushed (log : List Entry) (type : EventType) (conn : ConnId) : ℕ :=
  (pushes log).countP fun evt => evt.type = type ∧ evt.conn = conn

/-- One CONNECT event for each connection, once accept_loop is done with it,
and one DISCONNECT event for each exchange, once close_conn has pushed it. -/
structure Counted (s : Life) : Prop where
  connects : ∀ conn, pushed s.log .connect conn =
    if s.flag conn ≠ none ∧ s.opening ≠ some conn then 1 else 0
  disconnects : ∀ conn, pushed s.log .disconnect conn +
    (if s.reactorClosing = some conn then 1 else 0) +
    (if s.logicClosing = some conn then 1 else 0) = if s.flag conn = some true then 1 else 0
  opening : ∀ conn, s.opening = some conn → s.flag conn ≠ none
  introduced : Justified (fun before evt => evt.type = .message →
    ∃ k ∈ before, k.type = .connect ∧ k.conn = evt.conn) (pushes s.log)

theorem pushed_snoc (log : List Entry) (e : Entry) (type : EventType) (conn : ConnId) :
    pushed (log ++ [e]) type conn = pushed log type conn +
      (pushedBy e).toList.countP fun evt => evt.type = type ∧ evt.conn = conn := by
  simp [pushed]

namespace Counted

variable {s t : Life}

/-- A step that pushes nothing and keeps the flags and what is in hand. -/
theorem other (h : Counted s) (hpushes : pushes t.log = pushes s.log) (hflag : t.flag = s.flag)
    (hopening : t.opening = s.opening) (hreactor : t.reactorClosing = s.reactorClosing)
    (hlogic : t.logicClosing = s.logicClosing) : Counted t := by
  refine ⟨?_, ?_, ?_, ?_⟩
  · intro conn
    rw [pushed, hpushes, hflag, hopening]
    exact h.connects conn
  · intro conn
    rw [pushed, hpushes, hflag, hreactor, hlogic]
    exact h.disconnects conn
  · rw [hflag, hopening]
    exact h.opening
  · rw [hpushes]
    exact h.introduced

/-- A step that pushes one event. -/
theorem pushes (h : Counted s) {type : EventType} {conn : ConnId} {payload : Option Bytes}
    (hlog : t.log = (s.push type conn payload).log) (hflag : t.flag = s.flag)
    (hconnects : ∀ c, pushed s.log .connect c +
      (if type = .connect ∧ conn = c then 1 else 0) =
        if s.flag c ≠ none ∧ t.opening ≠ some c then 1 else 0)
    (hdisconnects : ∀ c, pushed s.log .disconnect c +
      (if type = .disconnect ∧ conn = c then 1 else 0) +
      (if t.reactorClosing = some c then 1 else 0) +
      (if t.logicClosing = some c then 1 else 0) = if s.flag c = some true then 1 else 0)
    (hopening : ∀ c, t.opening = some c → s.opening = some c)
    (hmessage : type = .message → s.flag conn ≠ none ∧ s.opening ≠ some conn) : Counted t := by
  refine ⟨?_, ?_, ?_, ?_⟩
  · intro c
    simpa [hlog, hflag, Life.push, pushed_snoc, List.countP_singleton] using hconnects c
  · intro c
    simpa [hlog, hflag, Life.push, pushed_snoc, List.countP_singleton] using hdisconnects c
  · intro c hc
    rw [hflag]
    exact h.opening c (hopening c hc)
  · simp only [hlog, Life.push, pushes_snoc]
    refine h.introduced.snoc ?_
    intro htype
    have hone := h.connects conn
    rw [if_pos (hmessage htype)] at hone
    have hpos : 0 < pushed s.log .connect conn := by omega
    obtain ⟨k, hk, hkconn⟩ := List.countP_pos_iff.mp hpos
    exact ⟨k, hk, by simpa using hkconn⟩

/-- The exchange sets the flag, and its thread has the event in hand. -/
theorem exchange (h : Counted s) {conn : ConnId} (hopen : s.flag conn = some false)
    (hpushes : LifeCycle.pushes t.log = LifeCycle.pushes s.log)
    (hflag : t.flag = Function.update s.flag conn (some true)) (hopening : t.opening = s.opening)
    (hhands : ∀ c, (if t.reactorClosing = some c then 1 else 0) +
        (if t.logicClosing = some c then 1 else 0) =
      (if s.reactorClosing = some c then 1 else 0) +
        (if s.logicClosing = some c then 1 else 0) + if conn = c then 1 else 0) : Counted t := by
  have hknown : ∀ c, t.flag c ≠ none ↔ s.flag c ≠ none := by
    intro c
    rw [hflag]
    by_cases hcc : c = conn
    · simp [hcc, hopen]
    · simp [hcc]
  refine ⟨?_, ?_, ?_, ?_⟩
  · intro c
    have hc := h.connects c
    simp only [pushed, hpushes, hopening, hknown] at hc ⊢
    exact hc
  · intro c
    have hc := h.disconnects c
    have hhand := hhands c
    rw [pushed, hpushes, hflag]
    by_cases hcc : conn = c
    · subst hcc
      rw [if_pos rfl] at hhand
      simp only [hopen, Option.some.injEq, Bool.false_eq_true, if_false] at hc
      simp only [Function.update_self, if_true]
      change pushed s.log .disconnect conn + _ + _ = 1
      omega
    · rw [if_neg hcc] at hhand
      rw [Function.update_of_ne (Ne.symm hcc), ← hc]
      change pushed s.log .disconnect c + _ + _ = _
      omega
  · intro c hc
    exact (hknown c).mpr (h.opening c (hopening.symm.trans hc))
  · rw [hpushes]
    exact h.introduced

theorem step (h : Counted s) (hstep : s.Step t) : Counted t := by
  cases hstep with
  | quiet => exact h
  | @accept conn hnew hopening hclosing =>
    refine ⟨?_, ?_, ?_, h.introduced⟩
    · intro c
      have hc := h.connects c
      by_cases hcc : c = conn
      · subst hcc
        simpa [hnew] using hc
      · have hne : some conn ≠ some c := fun he => hcc (Option.some.inj he).symm
        simpa [Function.update_of_ne hcc, hne, hopening] using hc
    · intro c
      have hc := h.disconnects c
      by_cases hcc : c = conn
      · subst hcc
        simpa [hnew] using hc
      · simpa [Function.update_of_ne hcc] using hc
    · intro c hc
      cases hc
      simp
  | @announce conn hopening =>
    have hknown := h.opening conn hopening
    refine h.pushes rfl rfl ?_ ?_ (fun c hc => by cases hc) (fun htype => by cases htype)
    · intro c
      have hc := h.connects c
      by_cases hcc : conn = c
      · subst hcc
        simpa [hopening, hknown] using hc
      · simpa [hopening, hcc] using hc
    · intro c
      rw [if_neg (fun he => by cases he.1)]
      exact h.disconnects c
  | @message conn payload hopening hknown =>
    refine h.pushes rfl rfl ?_ ?_ (fun _ hc => hc) (fun _ => ⟨hknown, by simp [hopening]⟩)
    · intro c
      rw [if_neg (fun he => by cases he.1)]
      exact h.connects c
    · intro c
      rw [if_neg (fun he => by cases he.1)]
      exact h.disconnects c
  | @reactorPush conn hclosing =>
    refine h.pushes rfl rfl ?_ ?_ (fun _ hc => hc) (fun htype => by cases htype)
    · intro c
      rw [if_neg (fun he => by cases he.1)]
      exact h.connects c
    · intro c
      have hc := h.disconnects c
      simp only [hclosing, Option.some.injEq] at hc
      simp only [true_and]
      exact hc
  | @logicPush conn hclosing =>
    refine h.pushes rfl rfl ?_ ?_ (fun _ hc => hc) (fun htype => by cases htype)
    · intro c
      rw [if_neg (fun he => by cases he.1)]
      exact h.connects c
    · intro c
      have hc := h.disconnects c
      simp only [hclosing, Option.some.injEq] at hc
      have hnone : (if (none : Option ConnId) = some c then 1 else 0) = 0 := by simp
      simp only [true_and]
      change pushed s.log .disconnect c + (if conn = c then 1 else 0) +
        (if s.reactorClosing = some c then 1 else 0) + _ = _
      rw [hnone, Nat.add_zero, Nat.add_right_comm]
      exact hc
  | @reactorClose conn hopen hopening hclosing =>
    refine h.exchange hopen (by simp [Life.exchange]) rfl rfl ?_
    intro c
    rw [hclosing]
    change (if some conn = some c then 1 else 0) + (if s.logicClosing = some c then 1 else 0) = _
    by_cases hcc : conn = c
    · simp [hcc, Nat.add_comm]
    · simp [hcc]
  | @logicClose conn hopen hclosing =>
    refine h.exchange hopen (by simp [Life.exchange]) rfl rfl ?_
    intro c
    rw [hclosing]
    change (if s.reactorClosing = some c then 1 else 0) + (if some conn = some c then 1 else 0) = _
    by_cases hcc : conn = c
    · simp [hcc]
    · simp [hcc]
  | take hheld hqueue => exact h.other rfl rfl rfl rfl rfl
  | discard hheld hclosed htype => exact h.other (by simp) rfl rfl rfl rfl
  | pass hheld hclosed hpass => exact h.other (by simp) rfl rfl rfl rfl
  | call hheld => exact h.other (by simp) rfl rfl rfl rfl
  | append hopen => exact h.other (by simp) rfl rfl rfl rfl

end Counted

end ChatServer.LifeCycle
