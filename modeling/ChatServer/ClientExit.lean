import ChatServer.ClientThreads

/-!
How the client ends. stop() joins the other threads, but not all ways to it are
safe. When a line like `exit` calls it, `ui_mtx_` is held during the joins, and
the printer needs this mutex for every line that is still to be printed. And
`running_` is also what the receiver stores when the connection is lost; if it
does so first, stop() takes itself for done and joins nobody.
-/
namespace ChatServer.ClientExit

open ClientThreads Lib.Runs

/-- Neither thread is joinable and the queue has been stopped. -/
structure Clean (s : Threads) : Prop where
  receiver : s.receiverJoinable = false
  printer : s.printerJoinable = false
  finished : s.finished = true

/-- None of the thread's steps can be taken. -/
def Blocked (s : Threads) (own : Action → Bool) : Prop :=
  ∀ a, own a = true → s.next a = none

/-- The input thread is in stop(), about to join a thread that is blocked. -/
inductive Deadlocked (s : Threads) : Prop
  | receiver {caller : Caller} (hinput : s.input = .stopping caller .joinReceiver)
      (hjoinable : s.receiverJoinable = true) (halive : s.receiver ≠ .exited)
      (hblocked : Blocked s ofReceiver)
  | printer {caller : Caller} (hinput : s.input = .stopping caller .joinPrinter)
      (hjoinable : s.printerJoinable = true) (halive : s.printer ≠ .exited)
      (hblocked : Blocked s ofPrinter)

/-- In stop() with `ui_mtx_` held, past the test of `running_`. -/
def lockedStop : Input → Bool
  | .stopping .locked step => step ≠ .testing
  | _ => false

/-- In stop(), past the test of `running_`. -/
def pastTest : Input → Bool
  | .stopping _ step => step ≠ .testing
  | _ => false

/-- The printer has taken a line and waits for `ui_mtx_`. -/
def waits : Printer → Bool
  | .locking _ => true
  | _ => false

/-- With `ui_mtx_` held, stop() is begun only when nothing is left to print,
and until it returns no line is pushed unless the printer has ended. -/
def NothingToPrint (s : Threads) : Action → Prop
  | .stop => s.input = .stopping .locked .testing → s.client.running = true →
      s.messageQueue = [] ∧ waits s.printer = false
  | .receiverPoll .hangUp => lockedStop s.input = true → s.printer = .exited
  | .decode _ => lockedStop s.input = true → s.printer = .exited
  | _ => True

/-- A lost connection clears `running_` only when a call of stop() has found it set. -/
def StopFirst (s : Threads) : Action → Prop
  | .hangUp => pastTest s.input = true
  | _ => True

instance (s : Threads) (a : Action) : Decidable (NothingToPrint s a) := by
  unfold NothingToPrint
  split <;> infer_instance

instance (s : Threads) (a : Action) : Decidable (StopFirst s a) := by
  unfold StopFirst
  split <;> infer_instance

section Deadlock

variable {s t : Threads}

/-- The receiver waits for nobody. -/
theorem receiver_not_blocked (halive : s.receiver ≠ .exited) : ¬ Blocked s ofReceiver := by
  intro hblocked
  cases hreceiver : s.receiver with
  | testing => simpa [Threads.next, hreceiver] using hblocked .receiverTest rfl
  | polling => simpa [Threads.next, hreceiver] using hblocked (.receiverPoll .nothing) rfl
  | decoding => simpa [Threads.next, hreceiver] using hblocked .decodeNothing rfl
  | hangingUp => simpa [Threads.next, hreceiver] using hblocked .hangUp rfl
  | exited => exact halive hreceiver

/-- When the queue has been stopped, the printer waits at most for the mutex. -/
theorem printer_blocked (h : Sound s) (hfinished : s.finished = true)
    (halive : s.printer ≠ .exited) (hblocked : Blocked s ofPrinter) :
    waits s.printer = true ∧ s.input.holds = true := by
  cases hprinter : s.printer with
  | popping =>
    have hpop := hblocked .pop rfl
    simp only [Threads.next, hprinter, hfinished, if_true] at hpop
    split at hpop <;> cases hpop
  | locking msg =>
    refine ⟨rfl, ?_⟩
    cases hmtx : s.uiMtx with
    | none => simpa [Threads.next, hprinter, hmtx] using hblocked .printerLock rfl
    | some holder =>
      cases holder with
      | input => exact h.input.mp hmtx
      | printer =>
        have hholds := h.printer.mp hmtx
        rw [hprinter] at hholds
        cases hholds
  | printing msg => simpa [Threads.next, hprinter] using hblocked .print rfl
  | exited => exact absurd hprinter halive

/-- While stop() runs with `ui_mtx_` held, the printer has nothing to print or has ended. -/
def Silent (s : Threads) : Prop :=
  lockedStop s.input = true →
    s.printer = .exited ∨ s.messageQueue = [] ∧ waits s.printer = false

theorem Silent.of_not {input : Input} (hnot : lockedStop input = false) :
    Silent { s with input := input } := by
  intro hlocked
  rw [hnot] at hlocked
  cases hlocked

theorem lockedStop_leave (s : Threads) (caller : Caller) :
    lockedStop (s.leave caller).input = false := by
  cases caller <;> rfl

/-- Within stop() the caller does not change. -/
theorem Silent.stop (h : Silent s) {caller : Caller} {step step' : StopStep}
    (hinput : s.input = .stopping caller step) (hstep : step ≠ .testing)
    (hlocked : lockedStop (.stopping caller step') = true) :
    s.printer = .exited ∨ s.messageQueue = [] ∧ waits s.printer = false := by
  apply h
  rw [hinput]
  cases caller with
  | locked => simpa [lockedStop] using hstep
  | unlocked => cases hlocked
  | destructor => cases hlocked

theorem Silent.step {a : Action} (h : Silent s) (hallowed : NothingToPrint s a)
    (hnext : s.next a = some t) : Silent t := by
  cases Threads.next_steps hnext with
  | test hinput hafter =>
    refine .of_not ?_
    rcases hafter with rfl | rfl <;> rfl
  | @poll turn hinput => exact .of_not (by cases turn <;> rfl)
  | lock hinput hfree => exact nofun
  | edit hinput hrunning => exact nofun
  | exit hinput => exact nofun
  | skip hinput hstopped =>
    intro hlocked
    rw [lockedStop_leave] at hlocked
    cases hlocked
  | @enter caller hinput hrunning =>
    intro hlocked
    cases caller with
    | locked => exact Or.inr (hallowed hinput hrunning)
    | unlocked => cases hlocked
    | destructor => cases hlocked
  | store hinput => exact h.stop hinput nofun
  | finish hinput => exact h.stop hinput nofun
  | joinReceiver hinput => exact h.stop hinput nofun
  | joinPrinter hinput =>
    intro hlocked
    rw [lockedStop_leave] at hlocked
    cases hlocked
  | destroy hinput => exact nofun
  | @receive _ receiver lines ha hlines =>
    intro hlocked
    by_cases hnone : lines = []
    · exact (h hlocked).imp_right fun ⟨hqueue, hwaits⟩ => ⟨by simp [hqueue, hnone], hwaits⟩
    · rcases hlines hnone with rfl | ⟨msg, rfl⟩
      · exact Or.inl (hallowed hlocked)
      · exact Or.inl (hallowed hlocked)
  | hangUp => exact h
  | pop hprinter hqueue =>
    intro hlocked
    rcases h hlocked with hexited | ⟨hempty, -⟩
    · rw [hprinter] at hexited
      cases hexited
    · rw [hempty] at hqueue
      cases hqueue
  | popNothing hprinter => exact fun _ => Or.inl rfl
  | printerLock hprinter hfree =>
    intro hlocked
    rcases h hlocked with hexited | ⟨-, hwaits⟩
    · rw [hprinter] at hexited
      cases hexited
    · rw [hprinter] at hwaits
      cases hwaits
  | print hprinter =>
    intro hlocked
    rcases h hlocked with hexited | ⟨hempty, -⟩
    · rw [hprinter] at hexited
      cases hexited
    · exact Or.inr ⟨hempty, rfl⟩

theorem Silent.init : Silent .init := nofun

theorem Silent.reachable (hs : Reachable machine NothingToPrint s) : Silent s :=
  hs.invariant Silent.init fun _ _ _ h hallowed hnext => h.step hallowed hnext

/-- If the printer has nothing to print whenever stop() runs with `ui_mtx_` held,
stop() never waits for a thread that is blocked. -/
theorem never_deadlocked (s : Threads) (hs : Reachable machine NothingToPrint s) :
    ¬ Deadlocked s := by
  have hsound := Sound.reachable hs
  intro hdead
  cases hdead with
  | receiver hinput hjoinable halive hblocked => exact receiver_not_blocked halive hblocked
  | @printer caller hinput hjoinable halive hblocked =>
    have hfinished := hsound.finished caller _ hinput (Or.inr rfl)
    obtain ⟨hwaits, hholds⟩ := printer_blocked hsound hfinished halive hblocked
    have hlocked : lockedStop s.input = true := by
      rw [hinput] at hholds ⊢
      cases caller with
      | locked => rfl
      | unlocked => cases hholds
      | destructor => cases hholds
    have hsilent := (Silent.reachable hs hlocked).resolve_left halive
    rw [hsilent.2] at hwaits
    cases hwaits

end Deadlock

section Joins

variable {s t : Threads}

/-- If `running_` is cleared, a call of stop() did so or is about to, and when
the destructor has come to its end the threads have been joined. -/
structure Ending (s : Threads) : Prop where
  stopped : s.client.running = false → pastTest s.input = true ∨ Clean s
  destroyed : s.input = .destroyed → Clean s

namespace Ending

/-- What is clean stays clean. -/
theorem clean_step {a : Action} (h : Clean s) (hnext : s.next a = some t) : Clean t := by
  have hleave : ∀ caller, Clean (s.leave caller) := by
    intro caller
    cases caller <;> exact ⟨h.receiver, h.printer, h.finished⟩
  cases Threads.next_steps hnext with
  | skip hinput hstopped => exact hleave _
  | @joinPrinter caller hinput =>
    cases caller <;> exact ⟨h.receiver, rfl, h.finished⟩
  | finish hinput => exact ⟨h.receiver, h.printer, rfl⟩
  | joinReceiver hinput => exact ⟨rfl, h.printer, h.finished⟩
  | _ => exact ⟨h.receiver, h.printer, h.finished⟩

/-- The input thread goes on outside stop(), and the flag stays as it is. -/
theorem move (h : Ending s) {client : ClientInput.Client} {input : Input} {mtx : Option Holder}
    (hnot : pastTest s.input = false) (hrunning : client.running = s.client.running)
    (hinput : input ≠ .destroyed) :
    Ending { s with client := client, input := input, uiMtx := mtx } := by
  refine ⟨fun hstopped => ?_, fun heq => absurd heq hinput⟩
  have hclean := (h.stopped (hrunning ▸ hstopped)).resolve_left (by simp [hnot])
  exact Or.inr ⟨hclean.receiver, hclean.printer, hclean.finished⟩

theorem step {a : Action} (h : Ending s) (hsound : Sound s) (hallowed : StopFirst s a)
    (hnext : s.next a = some t) : Ending t := by
  have hclean := fun hclean : Clean s => clean_step hclean hnext
  have hkeep : t.input = s.input → t.client = s.client → Ending t := by
    intro hinput hclient
    refine ⟨?_, ?_⟩
    · intro hstopped
      rw [hinput]
      exact (h.stopped (hclient ▸ hstopped)).imp_right hclean
    · intro hdestroyed
      exact hclean (h.destroyed (hinput ▸ hdestroyed))
  cases Threads.next_steps hnext with
  | test hinput hafter =>
    refine h.move (by rw [hinput]; rfl) rfl ?_
    rcases hafter with rfl | rfl <;> exact nofun
  | @poll turn hinput => exact h.move (by rw [hinput]; rfl) rfl (by cases turn <;> exact nofun)
  | lock hinput hfree => exact h.move (by rw [hinput]; rfl) rfl nofun
  | edit hinput hrunning => exact h.move (by rw [hinput]; rfl) hrunning nofun
  | exit hinput => exact h.move (by rw [hinput]; rfl) rfl nofun
  | @skip caller hinput hstopped =>
    -- Only a call that has joined the threads leaves the flag cleared.
    have hdone := (h.stopped hstopped).resolve_left (by rw [hinput]; nofun)
    exact ⟨fun _ => Or.inr (hclean hdone), fun _ => hclean hdone⟩
  | enter hinput hrunning => exact ⟨fun _ => Or.inl rfl, nofun⟩
  | store hinput => exact ⟨fun _ => Or.inl rfl, nofun⟩
  | finish hinput => exact ⟨fun _ => Or.inl rfl, nofun⟩
  | joinReceiver hinput => exact ⟨fun _ => Or.inl rfl, nofun⟩
  | @joinPrinter caller hinput =>
    have hdone : Clean ({ s with printerJoinable := false }.leave caller) := by
      have hjoined := hsound.joined caller hinput
      have hfinished := hsound.finished caller _ hinput (Or.inr rfl)
      cases caller <;> exact ⟨hjoined, rfl, hfinished⟩
    exact ⟨fun _ => Or.inr hdone, fun _ => hdone⟩
  | destroy hinput => exact h.move (by rw [hinput]; rfl) rfl nofun
  | receive ha hlines => exact hkeep rfl rfl
  | hangUp =>
    refine ⟨fun _ => Or.inl hallowed, ?_⟩
    intro hdestroyed
    exact hclean (h.destroyed hdestroyed)
  | pop hprinter hqueue => exact hkeep rfl rfl
  | popNothing hprinter => exact hkeep rfl rfl
  | printerLock hprinter hfree => exact hkeep rfl rfl
  | print hprinter => exact hkeep rfl rfl

theorem init : Ending .init := ⟨nofun, nofun⟩

theorem reachable (hs : Reachable machine StopFirst s) : Ending s :=
  hs.invariant_of_reachable init
    fun _ _ _ hreach h hallowed hnext => h.step (.reachable hreach) hallowed hnext

end Ending

/-- If a lost connection never clears `running_` before a call of stop() has
found it set, both threads are joined and the queue is stopped when the body of
the destructor ends. -/
theorem destroyed_clean (s : Threads) (hs : Reachable machine StopFirst s)
    (hdestroyed : s.input = .destroyed) : Clean s :=
  (Ending.reachable hs).destroyed hdestroyed

end Joins

section Samples

/-- A turn of input_loop that reads this character. -/
def typed (k : Char) : List Action := [.test, .poll (.key k), .lock, .handle]

/-- A turn of input_loop that reads nothing, then the signal. -/
def interrupted : List Action := [.test, .poll .nothing, .test, .poll .signal]

/-- The connection is lost during the joins, when the printer has ended. -/
theorem never_deadlocked_sample :
    ∃ s : Threads, s.input = .stopping .locked .joinPrinter ∧ ¬ Deadlocked s := by
  have hrun : (run machine NothingToPrint machine.init ("exit\n".toList.flatMap typed ++
      [.receiverTest, .stop, .stop, .stop, .pop, .receiverPoll .hangUp, .hangUp, .stop])).any
      (fun s => s.input = .stopping .locked .joinPrinter) := by
    decide +kernel
  obtain ⟨s, hs, hinput⟩ := exists_reachable hrun
  exact ⟨s, hinput, never_deadlocked s hs⟩

/-- A line is pushed and popped when the user has typed `exit`. The printer
waits for `ui_mtx_`, and stop(), which holds it, for the printer. -/
theorem exit_deadlocked :
    ∃ s : Threads, Reachable machine AnyStep s ∧ s.input = .stopping .locked .joinPrinter ∧
      s.uiMtx = some .input ∧ s.printer = .locking "Server connection lost." ∧ Deadlocked s := by
  have hrun : (run machine AnyStep machine.init ("exit\n".toList.flatMap typed ++
      [.receiverTest, .receiverPoll .hangUp, .pop, .stop, .stop, .stop, .hangUp, .stop])).any
      (fun s => s.input = .stopping .locked .joinPrinter ∧ s.printerJoinable = true ∧
        s.uiMtx = some .input ∧ s.printer = .locking "Server connection lost.") := by
    decide +kernel
  obtain ⟨s, hs, hinput, hjoinable, hmtx, hprinter⟩ := exists_reachable hrun
  refine ⟨s, hs, hinput, hmtx, hprinter, .printer hinput hjoinable (by rw [hprinter]; nofun) ?_⟩
  intro a ha
  cases a with
  | pop => simp [Threads.next, hprinter]
  | printerLock => simp [Threads.next, hprinter, hmtx]
  | print => simp [Threads.next, hprinter]
  | _ => cases ha

/-- The connection is lost when stop() has been called for a signal. -/
theorem destroyed_clean_sample :
    ∃ s : Threads, s.input = .destroyed ∧ Clean s := by
  have hrun : (run machine StopFirst machine.init (interrupted ++
      [.receiverTest, .stop, .receiverPoll .hangUp, .hangUp, .stop, .stop, .stop,
        .pop, .printerLock, .print, .pop, .stop, .destroy, .stop])).any
      (fun s => s.input = .destroyed) := by
    decide +kernel
  obtain ⟨s, hs, hdestroyed⟩ := exists_reachable hrun
  exact ⟨s, hdestroyed, destroyed_clean s hs hdestroyed⟩

/-- The receiver notices the lost connection first. input_loop ends at its test,
and the destructor leaves both threads joinable and the queue open. -/
theorem hangUp_unjoined :
    ∃ s : Threads, Reachable machine AnyStep s ∧ s.input = .destroyed ∧ ¬ Clean s ∧
      s.receiverJoinable = true ∧ s.printerJoinable = true ∧ s.finished = false := by
  have hrun : (run machine AnyStep machine.init
      [.receiverTest, .receiverPoll .hangUp, .hangUp, .test, .destroy, .stop]).any
      (fun s => s.input = .destroyed ∧ s.receiverJoinable = true ∧ s.printerJoinable = true ∧
        s.finished = false) := by
    decide +kernel
  obtain ⟨s, hs, hdestroyed, hreceiver, hprinter, hfinished⟩ := exists_reachable hrun
  refine ⟨s, hs, hdestroyed, ?_, hreceiver, hprinter, hfinished⟩
  intro hclean
  exact Bool.false_ne_true (hfinished.symm.trans hclean.finished)

end Samples

end ChatServer.ClientExit
