import Mathlib.Algebra.BigOperators.Group.List.Basic
import ChatServer.LogicThread

/-!
The end of the program after a signal. The network thread reads the signal,
leaves its loop and stops the server; the main thread takes events as long as
ChatApp's own flag is set, and then joins the network thread. But nothing
clears that flag, and nothing stops the event queue. So when the network thread
has returned, the main thread processes what is queued and waits for an event
that nobody is left to push.
-/
namespace ChatServer.Shutdown

open LogicThread Lib.Runs

/-- Where the network thread is in WebServer::Run. -/
inductive Reactor
  | running
  /-- Out of the loop, at the call of Stop. -/
  | stopping
  | returned
deriving DecidableEq

/-- Where the main thread is in ChatApp::Run. -/
inductive Main
  /-- At the test of `while(running_)` in LogicLoop. -/
  | testing
  | popping
  | processing
  | joining
  | returned
deriving DecidableEq

structure Program where
  world : World
  reactor : Reactor
  main : Main
  /-- ChatApp's own `running_`. -/
  running : Bool
  /-- The `finished_` of the event queue. -/
  finished : Bool

inductive Action
  | network (a : LogicThread.Action)
  | signal
  | epollFailed
  | stop
  | test
  | pop (env : Env)
  | popNothing
  | push
  | done
  | join

/-- The steps of the world that the network thread takes. -/
def ofReactor : LogicThread.Action → Bool
  | .logicPush => false
  | .process _ => false
  | _ => true

namespace Program

def init : Program := ⟨.init, .running, .testing, true, false⟩

/-- The loop of Run is left between two events, so no close_conn is under way. -/
def leaveLoop (s : Program) : Option Program :=
  if s.reactor = .running ∧ s.world.reactorClosing = none then
    some { s with reactor := .stopping }
  else none

def next (parse : Parser) (s : Program) : Action → Option Program
  | .network a =>
      if s.reactor = .running ∧ ofReactor a then
        (s.world.next parse a).map fun world => { s with world := world }
      else none
  | .signal => s.leaveLoop
  | .epollFailed => s.leaveLoop
  -- Stop: the pool, the connections and the descriptors, but not the event queue
  | .stop => if s.reactor = .stopping then some { s with reactor := .returned } else none
  | .test =>
      if s.main = .testing then
        some { s with main := if s.running then .popping else .joining }
      else none
  | .pop env =>
      if s.main = .popping then
        (s.world.next parse (.process env)).map fun world =>
          { s with world := world, main := .processing }
      else none
  | .popNothing =>
      if s.main = .popping ∧ s.world.eventQueue = [] ∧ s.finished then
        some { s with main := .testing }
      else none
  | .push =>
      if s.main = .processing then
        (s.world.next parse .logicPush).map fun world => { s with world := world }
      else none
  | .done =>
      if s.main = .processing ∧ s.world.logicClosing = none then
        some { s with main := .testing }
      else none
  | .join =>
      if s.main = .joining ∧ s.reactor = .returned then some { s with main := .returned } else none

end Program

def machine (parse : Parser) : Machine Program Action := ⟨.init, Program.next parse⟩

/-- The network thread has returned, and the main thread waits in the pop of an
empty queue that is not finished. -/
structure Stuck (s : Program) : Prop where
  reactor : s.reactor = .returned
  main : s.main = .popping
  queue : s.world.eventQueue = []
  finished : s.finished = false

namespace Program

variable {parse : Parser} {s t : Program}

/-- What a step can do. -/
inductive Steps (parse : Parser) (s : Program) : Action → Program → Prop
  | network {a : LogicThread.Action} {world : World} (hrunning : s.reactor = .running)
      (ha : ofReactor a = true) (hnext : s.world.next parse a = some world) :
      Steps parse s (.network a) { s with world := world }
  | leave {a : Action} (hrunning : s.reactor = .running) :
      Steps parse s a { s with reactor := .stopping }
  | stop (hstopping : s.reactor = .stopping) : Steps parse s .stop { s with reactor := .returned }
  | test (hmain : s.main = .testing) :
      Steps parse s .test { s with main := if s.running then .popping else .joining }
  | pop {env : Env} {evt : NetworkEvent} {rest : List NetworkEvent} (hmain : s.main = .popping)
      (hqueue : s.world.eventQueue = evt :: rest) (hidle : s.world.logicClosing = none) :
      Steps parse s (.pop env)
        { s with world := s.world.afterEvent parse env evt rest, main := .processing }
  | popNothing (hmain : s.main = .popping) (hfinished : s.finished = true) :
      Steps parse s .popNothing { s with main := .testing }
  | push {conn : ConnId} (hmain : s.main = .processing)
      (hclosing : s.world.logicClosing = some conn) :
      Steps parse s .push
        { s with world := { s.world with logicClosing := none }.push .disconnect conn none }
  | done (hmain : s.main = .processing) (hidle : s.world.logicClosing = none) :
      Steps parse s .done { s with main := .testing }
  | join (hmain : s.main = .joining) : Steps parse s .join { s with main := .returned }

theorem next_steps {a : Action} (h : s.next parse a = some t) : Steps parse s a t := by
  cases a with
  | network a =>
    simp only [next, Option.ite_none_right_eq_some, Option.map_eq_some_iff] at h
    obtain ⟨⟨hrunning, ha⟩, world, hnext, rfl⟩ := h
    exact .network hrunning ha hnext
  | signal | epollFailed =>
    simp only [next, leaveLoop, Option.ite_none_right_eq_some, Option.some.injEq] at h
    obtain ⟨⟨hrunning, _⟩, rfl⟩ := h
    exact .leave hrunning
  | stop =>
    simp only [next, Option.ite_none_right_eq_some, Option.some.injEq] at h
    obtain ⟨hstopping, rfl⟩ := h
    exact .stop hstopping
  | test =>
    simp only [next, Option.ite_none_right_eq_some, Option.some.injEq] at h
    obtain ⟨hmain, rfl⟩ := h
    exact .test hmain
  | pop env =>
    simp only [next, Option.ite_none_right_eq_some, Option.map_eq_some_iff] at h
    obtain ⟨hmain, world, hnext, rfl⟩ := h
    obtain ⟨evt, rest, hqueue, hidle, rfl⟩ := World.next_process hnext
    exact .pop hmain hqueue hidle
  | popNothing =>
    simp only [next, Option.ite_none_right_eq_some, Option.some.injEq] at h
    obtain ⟨⟨hmain, _, hfinished⟩, rfl⟩ := h
    exact .popNothing hmain hfinished
  | push =>
    simp only [next, Option.ite_none_right_eq_some, Option.map_eq_some_iff] at h
    obtain ⟨hmain, world, hnext, rfl⟩ := h
    cases World.next_moves hnext with
    | logicPush hclosing => exact .push hmain hclosing
  | done =>
    simp only [next, Option.ite_none_right_eq_some, Option.some.injEq] at h
    obtain ⟨⟨hmain, hidle⟩, rfl⟩ := h
    exact .done hmain hidle
  | join =>
    simp only [next, Option.ite_none_right_eq_some, Option.some.injEq] at h
    obtain ⟨⟨hmain, _⟩, rfl⟩ := h
    exact .join hmain

end Program

/-- The main thread never leaves LogicLoop: its flag stays set, and the event
queue is never finished. -/
structure Looping (s : Program) : Prop where
  running : s.running = true
  finished : s.finished = false
  main : s.main = .testing ∨ s.main = .popping ∨ s.main = .processing
  closing : s.world.logicClosing ≠ none → s.main = .processing

namespace Looping

variable {parse : Parser} {s t : Program}

theorem init : Looping .init := ⟨rfl, rfl, Or.inl rfl, fun h => absurd rfl h⟩

theorem not_joining (h : Looping s) : s.main ≠ .joining := by
  intro hjoining
  have hloop := h.main
  rw [hjoining] at hloop
  rcases hloop with hloop | hloop | hloop <;> cases hloop

theorem logicClosing_eq_none (h : Looping s) (hmain : s.main ≠ .processing) :
    s.world.logicClosing = none := by
  by_contra hclosing
  exact hmain (h.closing hclosing)

/-- The network thread's steps leave the main thread where it is. -/
theorem logicClosing_of_reactor {w w' : World} {a : LogicThread.Action}
    (ha : ofReactor a = true) (h : w.next parse a = some w') :
    w'.logicClosing = w.logicClosing := by
  cases World.next_moves h with
  | logicPush hclosing => cases ha
  | process hqueue hidle => cases ha
  | _ => rfl

theorem step {a : Action} (h : Looping s) (hnext : s.next parse a = some t) : Looping t := by
  cases Program.next_steps hnext with
  | network hrunning ha hworld =>
    refine ⟨h.running, h.finished, h.main, ?_⟩
    intro hclosing
    rw [logicClosing_of_reactor ha hworld] at hclosing
    exact h.closing hclosing
  | leave hrunning => exact ⟨h.running, h.finished, h.main, h.closing⟩
  | stop hstopping => exact ⟨h.running, h.finished, h.main, h.closing⟩
  | test hmain =>
    have hpopping : (if s.running then Main.popping else Main.joining) = .popping := by
      rw [h.running]
      rfl
    have hidle : s.world.logicClosing = none := h.logicClosing_eq_none (by simp [hmain])
    exact ⟨h.running, h.finished, Or.inr (Or.inl hpopping), fun hclosing => absurd hidle hclosing⟩
  | pop hmain hqueue hidle => exact ⟨h.running, h.finished, Or.inr (Or.inr rfl), fun _ => rfl⟩
  | popNothing hmain hfinished =>
    rw [h.finished] at hfinished
    cases hfinished
  | push hmain hclosing => exact ⟨h.running, h.finished, h.main, fun hnone => absurd rfl hnone⟩
  | done hmain hidle =>
    exact ⟨h.running, h.finished, Or.inl rfl, fun hclosing => absurd hidle hclosing⟩
  | join hmain => exact absurd hmain h.not_joining

theorem reachable {allowed : Program → Action → Prop} (hs : Reachable (machine parse) allowed s) :
    Looping s :=
  hs.invariant init fun _ _ _ h _ hnext => h.step hnext

end Looping

section Ending

variable {parse : Parser} {s t : Program}

/-- No handler of a DISCONNECT event asks for a connection to be closed. -/
theorem closeRequest_handleDisconnect (app : ChatApp) (env : Env) (conn : ConnId) :
    closeRequest (app.handleDisconnect env conn).2 = none := by
  have hsend : ∀ (names : List String) (msg : ServerMessage) (app : ChatApp),
      closeRequest (app.sendMembers names msg) = none := by
    intro names msg app
    rw [closeRequest, List.findSome?_eq_none_iff]
    intro output houtput
    obtain ⟨target, _, rfl⟩ := List.mem_map.mp houtput
    rfl
  unfold ChatApp.handleDisconnect
  split
  · rfl
  · split
    · dsimp only
      split
      · exact hsend _ _ _
      · rfl
    · rfl

theorem logicClosing_of_disconnect {w : World} {env : Env} {evt : NetworkEvent}
    {rest : List NetworkEvent} (htype : evt.type = .disconnect) :
    (w.afterEvent parse env evt rest).logicClosing = w.logicClosing := by
  have hrequest : closeRequest (w.app.processEvent parse env (w.closed evt.conn) evt).2 = none := by
    rw [ChatApp.processEvent, if_neg (fun hdrop => hdrop.2 htype), htype]
    exact closeRequest_handleDisconnect _ _ _
  simp only [World.afterEvent, hrequest]

def Reactor.rank : Reactor → ℕ
  | .running => 2
  | .stopping => 1
  | .returned => 0

/-- The steps of the main thread until it pops. -/
def Main.rank : Main → ℕ
  | .testing => 1
  | .processing => 2
  | _ => 0

/-- More than the steps that an event takes, with the DISCONNECT event that its
processing may push. -/
def weight (evt : NetworkEvent) : ℕ :=
  if evt.type = .disconnect then 3 else 8

def closingRank : Option ConnId → ℕ
  | some _ => 4
  | none => 0

/-- The steps that are left when the network thread is out of its loop. -/
def left (s : Program) : ℕ :=
  s.reactor.rank + s.main.rank + closingRank s.world.logicClosing +
    (s.world.eventQueue.map weight).sum

theorem closingRank_le (closing : Option ConnId) : closingRank closing ≤ 4 := by
  cases closing <;> simp [closingRank]

/-- The main thread takes an event off the queue, and what this may leave to do
is less than the event counted. -/
theorem left_pop {env : Env} {evt : NetworkEvent} {rest : List NetworkEvent}
    (hmain : s.main = .popping) (hqueue : s.world.eventQueue = evt :: rest)
    (hidle : s.world.logicClosing = none) :
    left { s with world := s.world.afterEvent parse env evt rest, main := .processing } <
      left s := by
  have hrest := (World.afterEvent_spec parse s.world env evt rest).2.1
  have hsum : (s.world.eventQueue.map weight).sum = weight evt + (rest.map weight).sum := by
    rw [hqueue, List.map_cons, List.sum_cons]
  have hnone : closingRank none = 0 := rfl
  simp only [left, hsum, hrest, hmain, hidle, hnone, Main.rank]
  by_cases htype : evt.type = .disconnect
  · have hweight : weight evt = 3 := if_pos htype
    rw [logicClosing_of_disconnect htype, hidle, hnone]
    omega
  · have hweight : weight evt = 8 := if_neg htype
    have hle := closingRank_le (s.world.afterEvent parse env evt rest).logicClosing
    omega

/-- Out of its loop the network thread takes no event any more, so the steps
that are left become fewer. -/
theorem left_step {a : Action} (hleft : s.reactor ≠ .running) (h : Looping s)
    (hnext : s.next parse a = some t) : t.reactor ≠ .running ∧ left t < left s := by
  cases Program.next_steps hnext with
  | network hrunning ha hworld => exact absurd hrunning hleft
  | leave hrunning => exact absurd hrunning hleft
  | stop hstopping =>
    refine ⟨nofun, ?_⟩
    simp only [left, hstopping, Reactor.rank]
    omega
  | test hmain =>
    refine ⟨hleft, ?_⟩
    simp only [left, hmain, h.running, if_true, Main.rank]
    omega
  | pop hmain hqueue hidle => exact ⟨hleft, left_pop hmain hqueue hidle⟩
  | popNothing hmain hfinished =>
    rw [h.finished] at hfinished
    cases hfinished
  | @push conn hmain hclosing =>
    refine ⟨hleft, ?_⟩
    have hweight : weight ⟨.disconnect, conn, none⟩ = 3 := rfl
    simp only [left, World.push, hclosing, closingRank, List.map_append, List.map_cons,
      List.map_nil, List.sum_append, List.sum_cons, List.sum_nil, hweight]
    omega
  | done hmain hidle =>
    refine ⟨hleft, ?_⟩
    simp only [left, hmain, Main.rank]
    omega
  | join hmain => exact absurd hmain h.not_joining

/-- Until the main thread waits for nothing there is a step to take. -/
theorem can_step (hleft : s.reactor ≠ .running) (h : Looping s) (hstuck : ¬ Stuck s) :
    ∃ a t, s.next parse a = some t := by
  cases hreactor : s.reactor with
  | running => exact absurd hreactor hleft
  | stopping => exact ⟨.stop, { s with reactor := .returned }, by simp [Program.next, hreactor]⟩
  | returned =>
    rcases h.main with hmain | hmain | hmain
    · exact ⟨.test, { s with main := if s.running then .popping else .joining },
        by simp [Program.next, hmain]⟩
    · cases hqueue : s.world.eventQueue with
      | nil => exact absurd ⟨hreactor, hmain, hqueue, h.finished⟩ hstuck
      | cons evt rest =>
        have hidle : s.world.logicClosing = none := h.logicClosing_eq_none (by simp [hmain])
        exact ⟨.pop sampleEnv,
          { s with world := s.world.afterEvent parse sampleEnv evt rest, main := .processing },
          by simp [Program.next, World.next, hmain, hqueue, hidle]⟩
    · cases hclosing : s.world.logicClosing with
      | none => exact ⟨.done, { s with main := .testing }, by simp [Program.next, hmain, hclosing]⟩
      | some conn =>
        exact ⟨.push, _, by simp only [Program.next, World.next, hmain, hclosing]; rfl⟩

/-- Nobody can take a step in such a state. -/
theorem next_of_stuck (hstuck : Stuck s) (a : Action) : s.next parse a = none := by
  obtain ⟨hreactor, hmain, hqueue, hfinished⟩ := hstuck
  cases a with
  | pop env =>
    cases hclosing : s.world.logicClosing <;>
      simp [Program.next, World.next, hmain, hqueue, hclosing]
  | _ => simp [Program.next, Program.leaveLoop, hreactor, hmain, hfinished]

end Ending

/-- Once the network thread has left its loop, whatever happens the program
comes to a state in which the network thread has returned, the main thread
waits for an event and nobody can take a step. -/
theorem shutdown_stuck (parse : Parser) (s : Program)
    (hs : Reachable (machine parse) AnyStep s) (hleft : s.reactor ≠ .running) :
    Inevitable (machine parse) (fun t => Stuck t ∧ ∀ a, t.next parse a = none) s := by
  refine .of_measure (P := fun s => s.reactor ≠ .running ∧ Looping s) left ?_ ?_
    ⟨hleft, .reachable hs⟩
  · intro s a t ⟨hleft, h⟩ hnext
    obtain ⟨hleft', hless⟩ := left_step hleft h hnext
    exact ⟨⟨hleft', h.step hnext⟩, hless⟩
  · intro s ⟨hleft, h⟩ hgoal
    exact can_step hleft h fun hstuck => hgoal ⟨hstuck, next_of_stuck hstuck⟩

section Samples

/-- A client has connected when the signal comes. -/
theorem shutdown_stuck_sample :
    ∃ s : Program, s.world.eventQueue = [⟨.connect, 5, none⟩] ∧
      Inevitable (machine fun _ => none)
        (fun t => Stuck t ∧ ∀ a, t.next (fun _ => none) a = none) s := by
  have hrun : (run (machine fun _ => none) AnyStep .init
      [.network (.accept 5), .signal]).any (fun s =>
        s.reactor = .stopping ∧ s.world.eventQueue = [⟨.connect, 5, none⟩]) := by
    decide +kernel
  obtain ⟨s, hs, hreactor, hqueue⟩ := exists_reachable hrun
  exact ⟨s, hqueue, shutdown_stuck _ s hs (by rw [hreactor]; nofun)⟩

/-- The signal comes when there is no event and the main thread waits. -/
theorem shutdown_stuck_now :
    ∃ s : Program, Reachable (machine fun _ => none) AnyStep s ∧ Stuck s ∧
      ∀ a, s.next (fun _ => none) a = none := by
  have hrun : (run (machine fun _ => none) AnyStep .init [.test, .signal, .stop]).any (fun s =>
      s.reactor = .returned ∧ s.main = .popping ∧ s.world.eventQueue = [] ∧
        s.finished = false) := by
    decide +kernel
  obtain ⟨s, hs, hreactor, hmain, hqueue, hfinished⟩ := exists_reachable hrun
  have hstuck : Stuck s := ⟨hreactor, hmain, hqueue, hfinished⟩
  exact ⟨s, hs, hstuck, next_of_stuck hstuck⟩

end Samples

end ChatServer.Shutdown
