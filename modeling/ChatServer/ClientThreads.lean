import ChatServer.Authenticity
import ChatServer.ClientInput
import ChatServer.Lib.Runs

/-!
The three threads of the client. The input thread runs input_loop and then the
destructor; the receiver pushes a line for every message of the server, and
another one when the connection is lost; the printer takes the lines one by one
and locks `ui_mtx_` for each. The input thread holds the same mutex from a key
to the end of its turn, and stop() may be called in between.
-/
namespace ChatServer.ClientThreads

open Authenticity ClientInput Lib.Runs

/-- Where stop() is called. -/
inductive Caller
  /-- In input_loop after a signal or at the end of the input. -/
  | unlocked
  /-- In input_loop for `exit`, `/exit` or `/quit`, with `ui_mtx_` held. -/
  | locked
  | destructor
deriving DecidableEq

inductive StopStep
  /-- At `if(!running_) return`. -/
  | testing
  | storing
  | finishing
  | joinReceiver
  | joinPrinter
deriving DecidableEq

inductive Input
  /-- At the test of `while(running_)`. -/
  | testing
  | polling
  | locking (k : Char)
  | handling (k : Char)
  | stopping (caller : Caller) (step : StopStep)
  /-- Out of input_loop and Client::run. -/
  | returned
  /-- At the end of the body of the destructor. -/
  | destroyed
deriving DecidableEq

inductive Receiver
  | testing
  | polling
  | decoding
  /-- The connection is lost, the line about it is pushed, `running_` is not yet stored. -/
  | hangingUp
  | exited
deriving DecidableEq

inductive Printer
  | popping
  | locking (msg : String)
  | printing (msg : String)
  | exited
deriving DecidableEq

inductive Holder
  | input
  | printer
deriving DecidableEq

/-- What a turn of input_loop finds: `endOfInput` when `read` gives no character. -/
inductive Turn
  | failed
  | signal
  | endOfInput
  | key (k : Char)
  | nothing
deriving DecidableEq

/-- What a turn of receive_loop finds; `failed` also when `readv` gives no bytes. -/
inductive Received
  | failed
  | hangUp
  | readable
  | nothing
deriving DecidableEq

structure Threads where
  /-- With the `running_` that all threads share. -/
  client : Client
  input : Input
  receiver : Receiver
  printer : Printer
  messageQueue : List String
  finished : Bool
  uiMtx : Option Holder
  receiverJoinable : Bool
  printerJoinable : Bool

inductive Action
  | test
  | poll (turn : Turn)
  | lock
  | handle
  | stop
  | destroy
  | receiverTest
  | receiverPoll (result : Received)
  | decode (msg : ServerMessage)
  | decodeNothing
  | hangUp
  | pop
  | printerLock
  | print
deriving DecidableEq

def ofReceiver : Action → Bool
  | .receiverTest => true
  | .receiverPoll _ => true
  | .decode _ => true
  | .decodeNothing => true
  | .hangUp => true
  | _ => false

def ofPrinter : Action → Bool
  | .pop => true
  | .printerLock => true
  | .print => true
  | _ => false

/-- The input thread holds `ui_mtx_`. -/
def Input.holds : Input → Bool
  | .handling _ => true
  | .stopping .locked _ => true
  | _ => false

def Printer.holds : Printer → Bool
  | .printing _ => true
  | _ => false

/-- Where a turn of input_loop goes on. -/
def Turn.next : Turn → Input
  | .failed => .returned
  | .signal => .stopping .unlocked .testing
  | .endOfInput => .stopping .unlocked .testing
  | .key k => .locking k
  | .nothing => .testing

def Received.next : Received → Receiver
  | .failed => .exited
  | .hangUp => .hangingUp
  | .readable => .decoding
  | .nothing => .testing

def Received.lines : Received → List String
  | .hangUp => ["Server connection lost."]
  | _ => []

namespace Threads

/-- Both threads are started and input_loop is called. -/
def init : Threads := ⟨.new, .testing, .testing, .popping, [], false, none, true, true⟩

/-- The key is handled with `ui_mtx_` held; the lines that exit call stop(). -/
def handleKey (s : Threads) (k : Char) : Threads :=
  let client := ({ s.client with running := true }.key k).1
  if client.running then
    { s with
      client := { client with running := s.client.running }
      input := .testing
      uiMtx := none }
  else { s with input := .stopping .locked .testing }

/-- The return of stop(). -/
def leave (s : Threads) : Caller → Threads
  | .unlocked => { s with input := .returned }
  | .locked => { s with input := .returned, uiMtx := none }
  | .destructor => { s with input := .destroyed }

/-- The next step of `stop()`. -/
def stop (s : Threads) (caller : Caller) : StopStep → Option Threads
  | .testing =>
      some (if s.client.running then { s with input := .stopping caller .storing }
        else s.leave caller)
  | .storing => some { s with client := s.client.stop, input := .stopping caller .finishing }
  | .finishing => some { s with finished := true, input := .stopping caller .joinReceiver }
  | .joinReceiver =>
      if s.receiverJoinable = false ∨ s.receiver = .exited then
        some { s with receiverJoinable := false, input := .stopping caller .joinPrinter }
      else none
  | .joinPrinter =>
      if s.printerJoinable = false ∨ s.printer = .exited then
        some ({ s with printerJoinable := false }.leave caller)
      else none

def next (s : Threads) : Action → Option Threads
  | .test =>
      if s.input = .testing then
        some { s with input := if s.client.running then .polling else .returned }
      else none
  | .poll turn => if s.input = .polling then some { s with input := turn.next } else none
  | .lock =>
      match s.input, s.uiMtx with
      | .locking k, none => some { s with input := .handling k, uiMtx := some .input }
      | _, _ => none
  | .handle =>
      match s.input with
      | .handling k => some (s.handleKey k)
      | _ => none
  | .stop =>
      match s.input with
      | .stopping caller step => s.stop caller step
      | _ => none
  | .destroy =>
      if s.input = .returned then some { s with input := .stopping .destructor .testing } else none
  | .receiverTest =>
      if s.receiver = .testing then
        some { s with receiver := if s.client.running then .polling else .exited }
      else none
  | .receiverPoll result =>
      if s.receiver = .polling then
        some { s with
          receiver := result.next
          messageQueue := s.messageQueue ++ result.lines }
      else none
  | .decode msg =>
      if s.receiver = .decoding then
        some { s with messageQueue := s.messageQueue ++ [handleServerMessage msg] }
      else none
  | .decodeNothing => if s.receiver = .decoding then some { s with receiver := .testing } else none
  | .hangUp =>
      if s.receiver = .hangingUp then
        some { s with client := s.client.stop, receiver := .exited }
      else none
  | .pop =>
      if s.printer = .popping then
        match s.messageQueue with
        | msg :: rest => some { s with messageQueue := rest, printer := .locking msg }
        | [] => if s.finished then some { s with printer := .exited } else none
      else none
  | .printerLock =>
      match s.printer, s.uiMtx with
      | .locking msg, none => some { s with printer := .printing msg, uiMtx := some .printer }
      | _, _ => none
  | .print =>
      match s.printer with
      | .printing _ => some { s with printer := .popping, uiMtx := none }
      | _ => none

end Threads

def machine : Machine Threads Action := ⟨.init, Threads.next⟩

namespace Threads

variable {s t : Threads}

/-- What a step can do. -/
inductive Steps (s : Threads) : Action → Threads → Prop
  | test {input : Input} (hinput : s.input = .testing)
      (hafter : input = .polling ∨ input = .returned) : Steps s .test { s with input := input }
  | poll {turn : Turn} (hinput : s.input = .polling) :
      Steps s (.poll turn) { s with input := turn.next }
  | lock {k : Char} (hinput : s.input = .locking k) (hfree : s.uiMtx = none) :
      Steps s .lock { s with input := .handling k, uiMtx := some .input }
  | edit {k : Char} {client : Client} (hinput : s.input = .handling k)
      (hrunning : client.running = s.client.running) :
      Steps s .handle { s with client := client, input := .testing, uiMtx := none }
  | exit {k : Char} (hinput : s.input = .handling k) :
      Steps s .handle { s with input := .stopping .locked .testing }
  | skip {caller : Caller} (hinput : s.input = .stopping caller .testing)
      (hstopped : s.client.running = false) : Steps s .stop (s.leave caller)
  | enter {caller : Caller} (hinput : s.input = .stopping caller .testing)
      (hrunning : s.client.running = true) :
      Steps s .stop { s with input := .stopping caller .storing }
  | store {caller : Caller} (hinput : s.input = .stopping caller .storing) :
      Steps s .stop { s with client := s.client.stop, input := .stopping caller .finishing }
  | finish {caller : Caller} (hinput : s.input = .stopping caller .finishing) :
      Steps s .stop { s with finished := true, input := .stopping caller .joinReceiver }
  | joinReceiver {caller : Caller} (hinput : s.input = .stopping caller .joinReceiver) :
      Steps s .stop
        { s with receiverJoinable := false, input := .stopping caller .joinPrinter }
  | joinPrinter {caller : Caller} (hinput : s.input = .stopping caller .joinPrinter) :
      Steps s .stop ({ s with printerJoinable := false }.leave caller)
  | destroy (hinput : s.input = .returned) :
      Steps s .destroy { s with input := .stopping .destructor .testing }
  | receive {a : Action} {receiver : Receiver} {lines : List String} (ha : ofReceiver a = true)
      (hlines : lines ≠ [] → a = .receiverPoll .hangUp ∨ ∃ msg, a = .decode msg) :
      Steps s a { s with receiver := receiver, messageQueue := s.messageQueue ++ lines }
  | hangUp : Steps s .hangUp { s with client := s.client.stop, receiver := .exited }
  | pop {msg : String} {rest : List String} (hprinter : s.printer = .popping)
      (hqueue : s.messageQueue = msg :: rest) :
      Steps s .pop { s with messageQueue := rest, printer := .locking msg }
  | popNothing (hprinter : s.printer = .popping) : Steps s .pop { s with printer := .exited }
  | printerLock {msg : String} (hprinter : s.printer = .locking msg) (hfree : s.uiMtx = none) :
      Steps s .printerLock { s with printer := .printing msg, uiMtx := some .printer }
  | print {msg : String} (hprinter : s.printer = .printing msg) :
      Steps s .print { s with printer := .popping, uiMtx := none }

theorem handleKey_steps {k : Char} (hinput : s.input = .handling k) :
    Steps s .handle (s.handleKey k) := by
  unfold handleKey
  dsimp only
  split
  · exact .edit hinput rfl
  · exact .exit hinput

theorem stop_steps {caller : Caller} {step : StopStep} (hinput : s.input = .stopping caller step)
    (h : s.stop caller step = some t) : Steps s .stop t := by
  cases step with
  | testing =>
    cases h
    split
    · rename_i hrunning
      exact .enter hinput hrunning
    · rename_i hstopped
      exact .skip hinput (by simpa using hstopped)
  | storing =>
    cases h
    exact .store hinput
  | finishing =>
    cases h
    exact .finish hinput
  | joinReceiver =>
    simp only [stop, Option.ite_none_right_eq_some, Option.some.injEq] at h
    obtain ⟨_, rfl⟩ := h
    exact .joinReceiver hinput
  | joinPrinter =>
    simp only [stop, Option.ite_none_right_eq_some, Option.some.injEq] at h
    obtain ⟨_, rfl⟩ := h
    exact .joinPrinter hinput

/-- A step of the receiver that pushes nothing. -/
theorem Steps.silent {a : Action} {receiver : Receiver} (ha : ofReceiver a = true) :
    Steps s a { s with receiver := receiver } := by
  have hstep : Steps s a { s with receiver := receiver, messageQueue := s.messageQueue ++ [] } :=
    .receive ha fun h => absurd rfl h
  rwa [List.append_nil] at hstep

theorem next_steps {a : Action} (h : s.next a = some t) : Steps s a t := by
  cases a with
  | test =>
    simp only [next, Option.ite_none_right_eq_some, Option.some.injEq] at h
    obtain ⟨hinput, rfl⟩ := h
    refine .test hinput ?_
    split
    · exact Or.inl rfl
    · exact Or.inr rfl
  | poll turn =>
    simp only [next, Option.ite_none_right_eq_some, Option.some.injEq] at h
    obtain ⟨hinput, rfl⟩ := h
    exact .poll hinput
  | lock =>
    simp only [next] at h
    split at h
    · rename_i hinput hfree
      cases h
      exact .lock hinput hfree
    · cases h
  | handle =>
    simp only [next] at h
    split at h
    · rename_i hinput
      cases h
      exact handleKey_steps hinput
    · cases h
  | stop =>
    simp only [next] at h
    split at h
    · rename_i hinput
      exact stop_steps hinput h
    · cases h
  | destroy =>
    simp only [next, Option.ite_none_right_eq_some, Option.some.injEq] at h
    obtain ⟨hinput, rfl⟩ := h
    exact .destroy hinput
  | receiverTest | decodeNothing =>
    simp only [next, Option.ite_none_right_eq_some, Option.some.injEq] at h
    obtain ⟨_, rfl⟩ := h
    exact .silent rfl
  | receiverPoll result =>
    simp only [next, Option.ite_none_right_eq_some, Option.some.injEq] at h
    obtain ⟨_, rfl⟩ := h
    refine .receive rfl ?_
    cases result with
    | hangUp => exact fun _ => Or.inl rfl
    | _ => exact fun hlines => absurd rfl hlines
  | decode msg =>
    simp only [next, Option.ite_none_right_eq_some, Option.some.injEq] at h
    obtain ⟨_, rfl⟩ := h
    exact .receive rfl fun _ => Or.inr ⟨msg, rfl⟩
  | hangUp =>
    simp only [next, Option.ite_none_right_eq_some, Option.some.injEq] at h
    obtain ⟨_, rfl⟩ := h
    exact .hangUp
  | pop =>
    simp only [next, Option.ite_none_right_eq_some] at h
    obtain ⟨hprinter, h⟩ := h
    split at h
    · rename_i hqueue
      cases h
      exact .pop hprinter hqueue
    · simp only [Option.ite_none_right_eq_some, Option.some.injEq] at h
      obtain ⟨_, rfl⟩ := h
      exact .popNothing hprinter
  | printerLock =>
    simp only [next] at h
    split at h
    · rename_i hprinter hfree
      cases h
      exact .printerLock hprinter hfree
    · cases h
  | print =>
    simp only [next] at h
    split at h
    · rename_i hprinter
      cases h
      exact .print hprinter
    · cases h

end Threads

/-- What holds in every run: who has `ui_mtx_`, and how far stop() has come. -/
structure Sound (s : Threads) : Prop where
  input : s.uiMtx = some .input ↔ s.input.holds = true
  printer : s.uiMtx = some .printer ↔ s.printer.holds = true
  finished : ∀ caller step, s.input = .stopping caller step →
    step = .joinReceiver ∨ step = .joinPrinter → s.finished = true
  joined : ∀ caller, s.input = .stopping caller .joinPrinter → s.receiverJoinable = false

namespace Sound

variable {s t : Threads}

theorem init : Sound .init :=
  ⟨iff_of_false nofun nofun, iff_of_false nofun nofun, nofun, nofun⟩

theorem input_out (h : Sound s) (hmtx : s.uiMtx ≠ some .input) : s.input.holds = false :=
  Bool.eq_false_iff.mpr fun hheld => hmtx (h.input.mpr hheld)

theorem printer_out (h : Sound s) (hmtx : s.uiMtx ≠ some .printer) : s.printer.holds = false :=
  Bool.eq_false_iff.mpr fun hheld => hmtx (h.printer.mpr hheld)

/-- The input thread goes on without touching the mutex. -/
theorem move (h : Sound s) {input : Input} (hholds : input.holds = s.input.holds)
    (hfinished : ∀ caller step, input = .stopping caller step →
      step = .joinReceiver ∨ step = .joinPrinter → s.finished = true)
    (hjoined : ∀ caller, input = .stopping caller .joinPrinter → s.receiverJoinable = false) :
    Sound { s with input := input } := by
  refine ⟨?_, h.printer, hfinished, hjoined⟩
  rw [hholds]
  exact h.input

/-- The input thread goes on where it is not in stop(). -/
theorem moveOut (h : Sound s) {input : Input} (hholds : input.holds = s.input.holds)
    (hout : ∀ caller step, input = .stopping caller step →
      step ≠ .joinReceiver ∧ step ≠ .joinPrinter) : Sound { s with input := input } := by
  refine h.move hholds ?_ ?_
  · intro caller step hinput hstep
    obtain ⟨hreceiver, hprinter⟩ := hout caller step hinput
    exact absurd hstep (not_or.mpr ⟨hreceiver, hprinter⟩)
  · intro caller hinput
    exact absurd rfl (hout caller _ hinput).2

/-- The input thread has the mutex and releases it. -/
theorem release (h : Sound s) (hholds : s.input.holds = true) (client : Client) {input : Input}
    (hout : input = .testing ∨ input = .returned) :
    Sound { s with client := client, input := input, uiMtx := none } := by
  have hprinter : s.printer.holds = false := h.printer_out (by simp [h.input.mpr hholds])
  have hnot : input.holds = false := by
    rcases hout with rfl | rfl <;> rfl
  refine ⟨iff_of_false nofun (by simp [hnot]), iff_of_false nofun (by simp [hprinter]), ?_, ?_⟩
  · rintro caller step rfl
    rcases hout with hout | hout <;> cases hout
  · rintro caller rfl
    rcases hout with hout | hout <;> cases hout

theorem leave (h : Sound s) {caller : Caller} {step : StopStep}
    (hinput : s.input = .stopping caller step) : Sound (s.leave caller) := by
  cases caller with
  | unlocked => exact h.moveOut (by rw [hinput]; rfl) nofun
  | locked => exact h.release (by rw [hinput]; rfl) s.client (Or.inr rfl)
  | destructor => exact h.moveOut (by rw [hinput]; rfl) nofun

/-- A stage of stop() before the joins. -/
theorem early {caller : Caller} (step : StopStep)
    (hstep : step ≠ .joinReceiver ∧ step ≠ .joinPrinter) :
    ∀ caller' step', Input.stopping caller step = .stopping caller' step' →
      step' ≠ .joinReceiver ∧ step' ≠ .joinPrinter := by
  intro caller' step' heq
  cases heq
  exact hstep

theorem stopHolds {input : Input} (caller : Caller) {step : StopStep} (step' : StopStep)
    (hinput : input = .stopping caller step) :
    (Input.stopping caller step').holds = input.holds := by
  rw [hinput]
  cases caller <;> rfl

theorem step {a : Action} (h : Sound s) (hnext : s.next a = some t) : Sound t := by
  cases Threads.next_steps hnext with
  | test hinput hafter =>
    refine h.moveOut ?_ ?_
    · rw [hinput]
      rcases hafter with rfl | rfl <;> rfl
    · rintro caller step rfl
      rcases hafter with hafter | hafter <;> cases hafter
  | @poll turn hinput =>
    refine h.moveOut ?_ ?_
    · rw [hinput]
      cases turn <;> rfl
    · intro caller step hturn
      cases turn <;> cases hturn <;> exact ⟨nofun, nofun⟩
  | lock hinput hfree =>
    have hprinter : s.printer.holds = false := h.printer_out (by simp [hfree])
    exact ⟨iff_of_true rfl rfl, iff_of_false nofun (by simp [hprinter]), nofun, nofun⟩
  | edit hinput hrunning => exact h.release (by rw [hinput]; rfl) _ (Or.inl rfl)
  | exit hinput => exact h.moveOut (by rw [hinput]; rfl) (early _ ⟨nofun, nofun⟩)
  | skip hinput hstopped => exact h.leave hinput
  | enter hinput hrunning => exact h.moveOut (stopHolds _ _ hinput) (early _ ⟨nofun, nofun⟩)
  | store hinput =>
    have hmoved := h.moveOut (stopHolds _ _ hinput) (early .finishing ⟨nofun, nofun⟩)
    exact ⟨hmoved.input, hmoved.printer, hmoved.finished, hmoved.joined⟩
  | @finish caller hinput =>
    have hholds := stopHolds caller .joinReceiver hinput
    refine ⟨?_, h.printer, fun _ _ _ _ => rfl, nofun⟩
    rw [hholds]
    exact h.input
  | @joinReceiver caller hinput =>
    have hholds := stopHolds caller .joinPrinter hinput
    refine ⟨?_, h.printer, fun _ _ _ _ => h.finished caller _ hinput (Or.inl rfl), fun _ _ => rfl⟩
    rw [hholds]
    exact h.input
  | joinPrinter hinput =>
    have hsame : Sound { s with printerJoinable := false } :=
      ⟨h.input, h.printer, h.finished, h.joined⟩
    exact hsame.leave hinput
  | destroy hinput => exact h.moveOut (by rw [hinput]; rfl) (early _ ⟨nofun, nofun⟩)
  | receive ha hlines => exact ⟨h.input, h.printer, h.finished, h.joined⟩
  | hangUp => exact ⟨h.input, h.printer, h.finished, h.joined⟩
  | pop hprinter hqueue =>
    refine ⟨h.input, ?_, h.finished, h.joined⟩
    rw [h.printer, hprinter]
    rfl
  | popNothing hprinter =>
    refine ⟨h.input, ?_, h.finished, h.joined⟩
    rw [h.printer, hprinter]
    rfl
  | printerLock hprinter hfree =>
    have hinput : s.input.holds = false := h.input_out (by simp [hfree])
    exact ⟨iff_of_false nofun (by simp [hinput]), iff_of_true rfl rfl, h.finished, h.joined⟩
  | print hprinter =>
    have hheld := h.printer.mpr (by rw [hprinter]; rfl)
    have hinput : s.input.holds = false := h.input_out (by simp [hheld])
    exact ⟨iff_of_false nofun (by simp [hinput]), iff_of_false nofun nofun, h.finished, h.joined⟩

theorem reachable {allowed : Threads → Action → Prop} (hs : Reachable machine allowed s) :
    Sound s :=
  hs.invariant init fun _ _ _ h _ hnext => h.step hnext

end Sound

end ChatServer.ClientThreads
