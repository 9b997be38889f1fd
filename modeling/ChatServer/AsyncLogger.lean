import Mathlib.Data.Fintype.Option
import ChatServer.MessageTasks
import ChatServer.SafeQueue

/-!
The logger of the third and the fourth version. Any thread that logs composes its line
and pushes it to `log_queue_`; the writer thread takes the lines out and writes
them, without the mutex, to the log file, or to the console where the file could not
be opened. The destructor clears `running_` with the mutex, notifies, and joins
the writer, which returns when the queue is empty as well. The queue behaves like the
one of `SafeQueue`, with `running_` for its stop.
-/
namespace ChatServer.AsyncLogger

open Lib.Runs Lib.Monitor
open MessageTasks (Text text)
open SafeQueue (Call Lossless pushed popped)

/-- What `queue_mtx_` guards. -/
structure Contents where
  logQueue : List Text
  running : Bool
deriving DecidableEq

namespace Contents

/-- The region of push_message, or that of shutdown. -/
def change : Call Text → Contents → Contents
  | .push msg, q => { q with logQueue := q.logQueue ++ [msg] }
  | .stop, q => { q with running := false }

/-- The predicate of the wait in writer_loop. -/
def ready (q : Contents) : Bool := !q.logQueue.isEmpty || !q.running

/-- The region of writer_loop after the wait. The result is nothing for its return. -/
def take (q : Contents) : Option (Contents × Option Text) :=
  if !q.running && q.logQueue.isEmpty then some (q, none)
  else
    match q.logQueue with
    | [] => none
    | msg :: rest => some ({ q with logQueue := rest }, some msg)

def toQueue (q : Contents) : SafeQueue.Contents Text := ⟨q.logQueue, !q.running⟩

@[simp] theorem ready_toQueue (q : Contents) : q.toQueue.ready = q.ready := rfl

theorem change_toQueue (call : Call Text) (q : Contents) :
    (q.change call).toQueue = q.toQueue.change call := by
  cases call <;> rfl

theorem take_toQueue (q : Contents) : q.toQueue.pop = q.take.map (Prod.map toQueue id) := by
  obtain ⟨logQueue, running⟩ := q
  cases logQueue <;> cases running <;> rfl

theorem take_isSome (q : Contents) (h : q.ready = true) : q.take.isSome = true := by
  have hpop := SafeQueue.Contents.pop_isSome (q := q.toQueue) h
  rwa [take_toQueue, Option.isSome_map] at hpop

theorem take_running {q q' : Contents} {result : Option Text}
    (h : q.take = some (q', result)) : q'.running = q.running := by
  unfold take at h
  split at h
  · cases h
    rfl
  · split at h
    · cases h
    · cases h
      rfl

/-- The writer has one line less to take, or is told to return. -/
theorem take_length {q q' : Contents} {result : Option Text} (h : q.take = some (q', result)) :
    result = none ∧ q' = q ∨
      ∃ msg, result = some msg ∧ q.logQueue.length = q'.logQueue.length + 1 := by
  unfold take at h
  split at h
  · cases h
    exact Or.inl ⟨rfl, rfl⟩
  · split at h
    · cases h
    · rename_i msg rest hqueue
      cases h
      refine Or.inr ⟨msg, rfl, ?_⟩
      rw [hqueue]
      rfl

end Contents

def guarded : Guarded Contents (Call Text) (Option Text) where
  init := ⟨[], true⟩
  change := Contents.change
  ready := Contents.ready
  take := Contents.take

/-- Where the writer thread is in writer_loop: in the region with the mutex or on the
way to it, at the output of a line, or at the end. -/
inductive Writer
  | looping
  | writing (msg : Text)
  | returned
deriving DecidableEq

/-- Where shutdown is, which the destructor calls. -/
inductive Shutdown
  | before
  | stopping
  | returned
deriving DecidableEq

/-- The threads that log are `some w`; the one that runs the destructor is `none`. -/
structure Logger (W : Type*) where
  monitor : State (Option W) Contents (Call Text) (Option Text)
  writer : Writer
  shutdown : Shutdown
  logFile : List Text
  console : List Text

inductive Action (W : Type*)
  | log (w : W) (timestamp msg : Text)
  | error (w : W) (timestamp msg : Text)
  | shutdown
  /-- The writer comes to the lock and the wait. -/
  | loop
  | monitor (a : Lib.Monitor.Action (Option W) (Call Text))
  | write
  | join
deriving DecidableEq

def infoLine (timestamp msg : Text) : Text := timestamp ++ text "[INFO]: " ++ msg

def errorLine (timestamp msg : Text) : Text := timestamp ++ text "[ERROR]: " ++ msg

/-- What the writer does with what it has taken. -/
def Writer.got : Option Text → Writer
  | none => .returned
  | some msg => .writing msg

namespace Logger

variable {W : Type*}

def init : Logger W := ⟨.init guarded, .looping, .before, [], []⟩

/-- The output of a line; `isOpen` tells whether the constructor could open the file. -/
def output (isOpen : Bool) (s : Logger W) (msg : Text) : Logger W :=
  if isOpen then { s with logFile := s.logFile ++ [msg] }
  else { s with console := s.console ++ [msg] }

/-- A step of the monitor; when the writer releases the mutex it goes on with its result. -/
def after (s : Logger W) (monitor : State (Option W) Contents (Call Text) (Option Text)) :
    Logger W :=
  match s.monitor.waiter, monitor.waiter with
  | .leaving result, .idle => { s with monitor := monitor, writer := .got result }
  | _, _ => { s with monitor := monitor }

variable [DecidableEq W]

def pushMessage (s : Logger W) (w : W) (msg : Text) : Option (Logger W) :=
  (s.monitor.next guarded (.call (some w) (.push msg))).map fun monitor =>
    { s with monitor := monitor }

def next (isOpen : Bool) (s : Logger W) : Action W → Option (Logger W)
  | .log w timestamp msg => s.pushMessage w (infoLine timestamp msg)
  | .error w timestamp msg => s.pushMessage w (errorLine timestamp msg)
  | .shutdown =>
      if s.shutdown = .before then
        if s.monitor.data.running then
          (s.monitor.next guarded (.call none .stop)).map fun monitor =>
            { s with monitor := monitor, shutdown := .stopping }
        else some { s with shutdown := .returned }
      else none
  | .loop =>
      if s.writer = .looping then
        (s.monitor.next guarded .wait).map fun monitor => { s with monitor := monitor }
      else none
  | .monitor a =>
      if a.continues = true ∨ a = .spurious then (s.monitor.next guarded a).map s.after else none
  | .write =>
      match s.writer with
      | .writing msg => some ({ s with writer := .looping }.output isOpen msg)
      | _ => none
  | .join =>
      if s.shutdown = .stopping ∧ s.monitor.callers none = .idle ∧ s.writer = .returned then
        some { s with shutdown := .returned }
      else none

end Logger

def machine {W : Type*} [DecidableEq W] (isOpen : Bool) : Machine (Logger W) (Action W) :=
  ⟨.init, Logger.next isOpen⟩

section Steps

variable {W : Type*} [DecidableEq W] {isOpen : Bool} {s t : Logger W}

/-- What a step can do. -/
inductive Steps (isOpen : Bool) (s : Logger W) : Logger W → Prop
  | call {w : W} {msg : Text} (hidle : s.monitor.callers (some w) = .idle) :
      Steps isOpen s { s with monitor := s.monitor.setCaller (some w) (.locking (.push msg)) }
  | shutdown (hbefore : s.shutdown = .before) (hidle : s.monitor.callers none = .idle) :
      Steps isOpen s { s with
        monitor := s.monitor.setCaller none (.locking .stop), shutdown := .stopping }
  | stopped (hbefore : s.shutdown = .before) (hrunning : s.monitor.data.running = false) :
      Steps isOpen s { s with shutdown := .returned }
  | loop (hlooping : s.writer = .looping) (hidle : s.monitor.waiter = .idle) :
      Steps isOpen s { s with monitor := { s.monitor with waiter := .locking } }
  | monitor {m : State (Option W) Contents (Call Text) (Option Text)}
      (hmoves : s.monitor.Moves guarded m)
      (hcalls : ∀ w c, m.callers w = .locking c → s.monitor.callers w = .locking c)
      (hwait : s.monitor.waiter = .idle → m.waiter = .idle) : Steps isOpen s (s.after m)
  | write {msg : Text} (hwriting : s.writer = .writing msg) :
      Steps isOpen s ({ s with writer := .looping }.output isOpen msg)
  | join (hstopping : s.shutdown = .stopping) (hidle : s.monitor.callers none = .idle)
      (hreturned : s.writer = .returned) : Steps isOpen s { s with shutdown := .returned }

theorem call_idle {w : Option W} {c : Call Text}
    {m : State (Option W) Contents (Call Text) (Option Text)}
    (h : s.monitor.next guarded (.call w c) = some m) :
    s.monitor.callers w = .idle ∧ m = s.monitor.setCaller w (.locking c) := by
  simp only [State.next] at h
  split at h
  · rename_i hidle
    exact ⟨hidle, (Option.some.inj h).symm⟩
  · cases h

theorem pushMessage_steps {w : W} {msg : Text} (h : s.pushMessage w msg = some t) :
    Steps isOpen s t := by
  obtain ⟨m, hm, rfl⟩ := Option.map_eq_some_iff.mp h
  obtain ⟨hidle, rfl⟩ := call_idle hm
  exact .call hidle

theorem next_steps (a : Action W) (h : s.next isOpen a = some t) : Steps isOpen s t := by
  cases a with
  | log w timestamp msg => exact pushMessage_steps h
  | error w timestamp msg => exact pushMessage_steps h
  | shutdown =>
    obtain ⟨hbefore, h⟩ := Option.ite_none_right_eq_some.mp h
    split at h
    · obtain ⟨m, hm, rfl⟩ := Option.map_eq_some_iff.mp h
      obtain ⟨hidle, rfl⟩ := call_idle hm
      exact .shutdown hbefore hidle
    · rename_i hrunning
      exact Option.some.inj h ▸ .stopped hbefore (Bool.eq_false_iff.mpr hrunning)
  | loop =>
    obtain ⟨hlooping, h⟩ := Option.ite_none_right_eq_some.mp h
    obtain ⟨m, hm, rfl⟩ := Option.map_eq_some_iff.mp h
    simp only [State.next] at hm
    split at hm
    · rename_i hidle
      exact Option.some.inj hm ▸ .loop hlooping hidle
    · cases hm
  | monitor a =>
    obtain ⟨ha, h⟩ := Option.ite_none_right_eq_some.mp h
    obtain ⟨m, hm, rfl⟩ := Option.map_eq_some_iff.mp h
    obtain ⟨hcalls, hwait⟩ := starts_nothing ha hm
    exact .monitor (next_moves a hm) hcalls hwait
  | write =>
    simp only [Logger.next] at h
    split at h
    · rename_i msg hwriting
      exact Option.some.inj h ▸ .write hwriting
    · cases h
  | join =>
    obtain ⟨⟨hstopping, hidle, hreturned⟩, h⟩ := Option.ite_none_right_eq_some.mp h
    exact Option.some.inj h ▸ .join hstopping hidle hreturned

end Steps

section Lines

variable {W : Type*} {isOpen : Bool} {s t : Logger W}

/-- The line that the writer has, while it still has the mutex. -/
def taken : Waiter (Option Text) → List Text
  | .leaving (some msg) => [msg]
  | _ => []

theorem taken_congr {w w' : Waiter (Option Text)} (h : ∀ r, w' = .leaving r ↔ w = .leaving r) :
    taken w' = taken w := by
  cases w with
  | leaving r => rw [(h r).mpr rfl]
  | _ =>
    cases w' with
    | leaving r => cases (h r).mp rfl
    | _ => rfl

namespace Logger

/-- What the writer has written. -/
def written (isOpen : Bool) (s : Logger W) : List Text := if isOpen then s.logFile else s.console

/-- The line that the writer has taken and not written yet. -/
def inHand (s : Logger W) : List Text :=
  match s.writer with
  | .looping => taken s.monitor.waiter
  | .writing msg => [msg]
  | .returned => []

/-- The writer has been told to return. -/
def Ended (s : Logger W) : Prop := s.writer = .returned ∨ s.monitor.waiter = .leaving none

theorem after_of_waiter {m : State (Option W) Contents (Call Text) (Option Text)}
    (h : m.waiter = .idle → s.monitor.waiter = .idle) : s.after m = { s with monitor := m } := by
  unfold after
  split
  · rename_i hleaving hidle
    cases hleaving.symm.trans (h hidle)
  · rfl

theorem after_leave {r : Option Text} (h : s.monitor.waiter = .leaving r) :
    s.after { s.monitor with mutex := none, waiter := .idle } = { s with
      monitor := { s.monitor with mutex := none, waiter := .idle }, writer := .got r } := by
  simp [after, h]

end Logger

/-- The lines, wherever they are. -/
structure Kept (isOpen : Bool) (s : Logger W) : Prop where
  sound : Sound guarded s.monitor
  resting : s.writer ≠ .looping → s.monitor.waiter = .idle
  popped : popped s.monitor.log = s.written isOpen ++ s.inHand
  unused : (if isOpen then s.console else s.logFile) = []
  ended : s.Ended → ∃ before after, s.monitor.log = before ++ .took none :: after ∧
    SafeQueue.popped after = []

namespace Kept

theorem looping (h : Kept isOpen s) (hwaiter : s.monitor.waiter ≠ .idle) :
    s.writer = .looping := by
  by_contra hwriter
  exact hwaiter (h.resting hwriter)

/-- A step of the monitor in which nothing is taken and no result is handed over. -/
theorem frame {m : State (Option W) Contents (Call Text) (Option Text)} (h : Kept isOpen s)
    (hsound : Sound guarded m) {entries : List (Entry (Call Text) (Option Text))}
    (hlog : m.log = s.monitor.log ++ entries) (hentries : SafeQueue.popped entries = [])
    (hidle : s.monitor.waiter = .idle → m.waiter = .idle)
    (hresult : ∀ r, m.waiter = .leaving r ↔ s.monitor.waiter = .leaving r) :
    Kept isOpen { s with monitor := m } where
  sound := hsound
  resting hwriter := hidle (h.resting hwriter)
  popped := by
    have hhand : ({ s with monitor := m } : Logger W).inHand = s.inHand := by
      cases hwriter : s.writer with
      | looping =>
        simp only [Logger.inHand, hwriter]
        exact taken_congr hresult
      | _ => simp only [Logger.inHand, hwriter]
    rw [hhand, hlog, SafeQueue.popped, List.filterMap_append]
    change SafeQueue.popped s.monitor.log ++ SafeQueue.popped entries = _
    rw [hentries, List.append_nil]
    exact h.popped
  unused := h.unused
  ended hended := by
    obtain ⟨before, after, hsplit, hafter⟩ := h.ended (hended.imp_right (hresult none).mp)
    refine ⟨before, after ++ entries, ?_, ?_⟩
    · rw [hlog, hsplit]
      exact List.append_assoc ..
    · rw [SafeQueue.popped, List.filterMap_append]
      change SafeQueue.popped after ++ SafeQueue.popped entries = []
      rw [hafter, hentries]
      rfl

/-- The writer takes a line, or nothing. -/
theorem take (h : Kept isOpen s) {d : Contents} {r : Option Text}
    (hstage : s.monitor.waiter = .taking)
    (hsound : Sound guarded ({ s.monitor with
      data := d
      waiter := .leaving r
      log := s.monitor.log ++ [.took r] } : State (Option W) _ _ _)) :
    Kept isOpen { s with monitor := { s.monitor with
      data := d, waiter := .leaving r, log := s.monitor.log ++ [.took r] } } where
  sound := hsound
  resting hwriter := absurd (h.looping (by rw [hstage]; exact nofun)) hwriter
  popped := by
    have hwriter : s.writer = .looping := h.looping (by rw [hstage]; exact nofun)
    have hnothing : s.inHand = [] := by simp [Logger.inHand, taken, hwriter, hstage]
    have hbefore := h.popped
    rw [hnothing, List.append_nil] at hbefore
    change SafeQueue.popped (s.monitor.log ++ [.took r]) = s.written isOpen ++ _
    rw [SafeQueue.popped, List.filterMap_append, ← hbefore]
    cases r <;> simp [Logger.inHand, taken, hwriter, SafeQueue.popped]
  unused := h.unused
  ended hended := by
    have hwriter : s.writer = .looping := h.looping (by rw [hstage]; exact nofun)
    have hr : r = none := by
      rcases hended with hreturned | hleaving
      · cases hwriter.symm.trans hreturned
      · cases hleaving
        rfl
    subst hr
    exact ⟨s.monitor.log, [], rfl, rfl⟩

/-- The writer releases the mutex and goes on with its result. -/
theorem leave (h : Kept isOpen s) {r : Option Text} (hstage : s.monitor.waiter = .leaving r)
    (hsound : Sound guarded ({ s.monitor with mutex := none, waiter := .idle } :
      State (Option W) _ _ _)) :
    Kept isOpen { s with
      monitor := { s.monitor with mutex := none, waiter := .idle }, writer := .got r } where
  sound := hsound
  resting _ := rfl
  popped := by
    have hwriter : s.writer = .looping := h.looping (by rw [hstage]; exact nofun)
    have hbefore := h.popped
    have hhand : s.inHand = taken (.leaving r) := by simp [Logger.inHand, hwriter, hstage]
    rw [hhand] at hbefore
    cases r with
    | none => exact hbefore
    | some msg => exact hbefore
  unused := h.unused
  ended hended := by
    refine h.ended (Or.inr ?_)
    rcases hended with hreturned | hleaving
    · cases r with
      | none => exact hstage
      | some msg => cases hreturned
    · cases hleaving

theorem monitor [DecidableEq W] {m : State (Option W) Contents (Call Text) (Option Text)}
    (h : Kept isOpen s) (hmoves : s.monitor.Moves guarded m)
    (hwait : s.monitor.waiter = .idle → m.waiter = .idle) :
    Kept isOpen (s.after m) := by
  have hsound := h.sound.step hmoves
  have hframe : ∀ {entries}, m.log = s.monitor.log ++ entries → SafeQueue.popped entries = [] →
      (m.waiter = .idle → s.monitor.waiter = .idle) →
      (∀ r, m.waiter = .leaving r ↔ s.monitor.waiter = .leaving r) → Kept isOpen (s.after m) := by
    intro entries hlog hentries hidle hresult
    rw [Logger.after_of_waiter hidle]
    exact h.frame hsound hlog hentries hwait hresult
  have hquiet : m.log = s.monitor.log → (m.waiter = .idle → s.monitor.waiter = .idle) →
      (∀ r, m.waiter = .leaving r ↔ s.monitor.waiter = .leaving r) → Kept isOpen (s.after m) :=
    fun hlog => hframe (hlog.trans (List.append_nil _).symm) rfl
  cases hmoves with
  | call _ => exact hquiet rfl id fun _ => Iff.rfl
  | lock _ _ => exact hquiet rfl id fun _ => Iff.rfl
  | @change w a _ => exact hframe rfl (by cases a <;> rfl) id fun _ => Iff.rfl
  | unlock _ => exact hquiet rfl id fun _ => Iff.rfl
  | notify _ =>
    refine hquiet rfl ?_ ?_
    · change s.monitor.waiter.notified = .idle → _
      cases s.monitor.waiter <;> simp [Waiter.notified]
    · intro r
      change s.monitor.waiter.notified = .leaving r ↔ _
      cases s.monitor.waiter <;> simp [Waiter.notified]
  | wait hidle => cases hwait hidle
  | waiterLock hstage _ =>
    refine hquiet rfl nofun ?_
    intro r
    rcases hstage with hstage | hstage <;> simp [hstage]
  | pass hstage _ => exact hquiet rfl nofun fun r => by simp [hstage]
  | block hstage _ => exact hquiet rfl nofun fun r => by simp [hstage]
  | sleep hstage => exact hquiet rfl nofun fun r => by simp [hstage]
  | spurious hstage => exact hquiet rfl nofun fun r => by simp [hstage]
  | @take d r hstage _ =>
    rw [Logger.after_of_waiter (by exact nofun)]
    exact h.take hstage hsound
  | @leave r hstage =>
    rw [Logger.after_leave hstage]
    exact h.leave hstage hsound

/-- The writer writes the line that it has. -/
theorem write (h : Kept isOpen s) {msg : Text} (hwriting : s.writer = .writing msg) :
    Kept isOpen ({ s with writer := .looping }.output isOpen msg) := by
  have hwaiter : s.monitor.waiter = .idle := h.resting (by rw [hwriting]; exact nofun)
  have hpopped := h.popped
  have hunused := h.unused
  have hhand : s.inHand = [msg] := by simp [Logger.inHand, hwriting]
  rw [hhand] at hpopped
  cases isOpen with
  | true =>
    refine ⟨h.sound, fun hwriter => absurd rfl hwriter, ?_, hunused, ?_⟩
    · simpa [Logger.inHand, Logger.written, Logger.output, taken, hwaiter] using hpopped
    · intro hended
      simp [Logger.Ended, Logger.output, hwaiter] at hended
  | false =>
    refine ⟨h.sound, fun hwriter => absurd rfl hwriter, ?_, hunused, ?_⟩
    · simpa [Logger.inHand, Logger.written, Logger.output, taken, hwaiter] using hpopped
    · intro hended
      simp [Logger.Ended, Logger.output, hwaiter] at hended

theorem step [DecidableEq W] (h : Kept isOpen s) (hsteps : Steps isOpen s t) : Kept isOpen t := by
  have hsame : ∀ {stage : Shutdown}, Kept isOpen { s with shutdown := stage } := fun {_} =>
    ⟨h.sound, h.resting, h.popped, h.unused, h.ended⟩
  cases hsteps with
  | call hidle =>
    exact h.frame (h.sound.step (.call hidle)) (List.append_nil _).symm rfl id fun _ => Iff.rfl
  | shutdown _ hidle =>
    have hkept := h.frame (h.sound.step (.call (a := .stop) hidle)) (List.append_nil _).symm rfl
      id fun _ => Iff.rfl
    exact ⟨hkept.sound, hkept.resting, hkept.popped, hkept.unused, hkept.ended⟩
  | stopped _ _ => exact hsame
  | loop hlooping hidle =>
    refine ⟨h.sound.step (.wait hidle), fun hwriter => absurd hlooping hwriter, ?_, h.unused, ?_⟩
    · have hpopped := h.popped
      have hhand : s.inHand = taken .idle := by simp only [Logger.inHand, hlooping, hidle]
      rw [hhand] at hpopped
      simp only [Logger.inHand, hlooping]
      exact hpopped
    · intro hended
      simp [Logger.Ended, hlooping] at hended
  | monitor hmoves _ hwait => exact h.monitor hmoves hwait
  | write hwriting => exact h.write hwriting
  | join _ _ _ => exact hsame

theorem init : Kept isOpen (Logger.init : Logger W) where
  sound := .init guarded
  resting h := absurd rfl h
  popped := by cases isOpen <;> rfl
  unused := by cases isOpen <;> rfl
  ended h := by rcases h with h | h <;> cases h

end Kept

theorem kept [DecidableEq W] {allowed : Logger W → Action W → Prop}
    (hs : Reachable (machine isOpen) allowed s) : Kept isOpen s :=
  hs.invariant (P := Kept isOpen) .init fun _ a _ h _ hnext => h.step (next_steps a hnext)

theorem Kept.lossless (h : Kept isOpen s) : Lossless s.monitor.log s.monitor.data.toQueue :=
  .of_replays (Replays.map (G := guarded) (H := SafeQueue.safeQueue Text) (f := Contents.toQueue)
    rfl Contents.change_toQueue (fun _ => rfl) Contents.take_toQueue h.sound.replays)

/-- The lines written, the one in hand and the queue are the lines pushed, in the order of
the regions of push_message; where they are not written to, the file or the
console stay empty. -/
theorem lines_in_order [DecidableEq W] {allowed : Logger W → Action W → Prop}
    (hs : Reachable (machine isOpen) allowed s) :
    s.written isOpen ++ s.inHand ++ s.monitor.data.logQueue = pushed s.monitor.log ∧
      (if isOpen then s.console else s.logFile) = [] := by
  have h := kept hs
  refine ⟨?_, h.unused⟩
  rw [← h.popped]
  exact h.lossless.fifo

section Sample

/-- The writer sleeps until a thread logs; it has taken the line and an error is queued. -/
def inHandSteps : List (Action Bool) :=
  [.loop, .monitor .waiterLock, .monitor .evaluate, .monitor .sleep, .log true [49] [104, 105],
    .monitor (.lock (some true)), .monitor (.change (some true)), .monitor (.unlock (some true)),
    .monitor (.notify (some true)), .monitor .waiterLock, .monitor .evaluate, .monitor .take,
    .monitor .leave, .error false [50] [110, 111], .monitor (.lock (some false)),
    .monitor (.change (some false))]

theorem lines_in_order_sample :
    ∃ s : Logger Bool, Reachable (machine true) AnyStep s ∧
      (s.inHand.length = 1 ∧ s.monitor.data.logQueue.length = 1) ∧
      s.written true ++ s.inHand ++ s.monitor.data.logQueue = pushed s.monitor.log ∧
      (if true then s.console else s.logFile) = [] := by
  have hrun : (run (machine true) AnyStep (machine true).init inHandSteps).any (fun s =>
      s.inHand.length = 1 ∧ s.monitor.data.logQueue.length = 1) = true := by
    decide +kernel
  obtain ⟨s, hs, hlines⟩ := exists_reachable hrun
  exact ⟨s, hs, hlines, lines_in_order hs⟩

end Sample

end Lines

section Closing

variable {W : Type*} {isOpen : Bool} {s t : Logger W}

/-- How far shutdown is. -/
structure Closing (s : Logger W) : Prop where
  calls : ∀ w c, s.monitor.callers w = .locking c ∨ s.monitor.callers w = .changing c →
    (c = .stop ↔ w = none)
  unstarted : s.shutdown = .before →
    s.monitor.callers none = .idle ∧ s.monitor.data.running = true
  stopped : s.shutdown ≠ .before → s.monitor.data.running = true →
    ∃ c, s.monitor.callers none = .locking c ∨ s.monitor.callers none = .changing c
  joined : s.shutdown = .returned → s.writer = .returned ∧ s.monitor.callers none = .idle

namespace Closing

/-- A step that changes neither the callers nor the flags. -/
theorem frame (h : Closing s) (hcallers : t.monitor.callers = s.monitor.callers)
    (hrunning : t.monitor.data.running = s.monitor.data.running)
    (hshutdown : t.shutdown = s.shutdown) (hwriter : s.writer = .returned → t.writer = .returned) :
    Closing t := by
  obtain ⟨hcalls, hunstarted, hstopped, hjoined⟩ := h
  rw [← hcallers, ← hshutdown] at *
  rw [← hrunning] at hunstarted hstopped
  exact ⟨hcalls, hunstarted, hstopped, fun h => ⟨hwriter (hjoined h).1, (hjoined h).2⟩⟩

variable [DecidableEq W]

/-- A caller goes on with its call. -/
theorem caller {m : State (Option W) Contents (Call Text) (Option Text)} {w : Option W}
    {stage : Caller (Call Text)} (h : Closing s)
    (hcallers : ∀ v, m.callers v = if v = w then stage else s.monitor.callers v)
    (hbusy : s.monitor.callers w ≠ .idle)
    (hcalls : ∀ c, stage = .locking c ∨ stage = .changing c →
      s.monitor.callers w = .locking c ∨ s.monitor.callers w = .changing c)
    (hpush : w ≠ none → m.data.running = s.monitor.data.running)
    (hstop : w = none → m.data.running = true → s.monitor.data.running = true ∧
      ((∃ c, s.monitor.callers w = .locking c ∨ s.monitor.callers w = .changing c) →
        ∃ c, stage = .locking c ∨ stage = .changing c)) :
    Closing { s with monitor := m } where
  calls v c hv := by
    change m.callers v = _ ∨ m.callers v = _ at hv
    rw [hcallers] at hv
    split at hv
    · rename_i heq
      exact heq ▸ h.calls w c (hcalls c hv)
    · exact h.calls v c hv
  unstarted hbefore := by
    obtain ⟨hidle, hrunning⟩ := h.unstarted hbefore
    have hne : w ≠ none := fun heq => hbusy (heq ▸ hidle)
    change m.callers none = _ ∧ m.data.running = _
    rw [hcallers, if_neg (Ne.symm hne), hpush hne]
    exact ⟨hidle, hrunning⟩
  stopped hstarted hrunning := by
    change ∃ c, m.callers none = _ ∨ m.callers none = _
    rw [hcallers]
    by_cases hw : w = none
    · obtain ⟨hbefore, hgoes⟩ := hstop hw hrunning
      rw [if_pos hw.symm]
      exact hgoes (hw ▸ h.stopped hstarted hbefore)
    · rw [if_neg (Ne.symm hw)]
      exact h.stopped hstarted ((hpush hw).symm.trans hrunning)
  joined hreturned := by
    obtain ⟨hwriter, hidle⟩ := h.joined hreturned
    have hne : w ≠ none := fun heq => hbusy (heq ▸ hidle)
    refine ⟨hwriter, ?_⟩
    change m.callers none = _
    rw [hcallers, if_neg (Ne.symm hne)]
    exact hidle

theorem monitor {m : State (Option W) Contents (Call Text) (Option Text)} (h : Closing s)
    (hkept : Kept isOpen s) (hmoves : s.monitor.Moves guarded m)
    (hcalls : ∀ w c, m.callers w = .locking c → s.monitor.callers w = .locking c)
    (hwait : s.monitor.waiter = .idle → m.waiter = .idle) : Closing (s.after m) := by
  have hframe : m.callers = s.monitor.callers → m.data.running = s.monitor.data.running →
      (m.waiter = .idle → s.monitor.waiter = .idle) → Closing (s.after m) := by
    intro hcallers hrunning hidle
    rw [Logger.after_of_waiter hidle]
    exact h.frame hcallers hrunning rfl id
  have hcaller : (m.waiter = .idle → s.monitor.waiter = .idle) →
      Closing { s with monitor := m } → Closing (s.after m) := by
    intro hidle hclosing
    rwa [Logger.after_of_waiter hidle]
  cases hmoves with
  | @call w a hidle =>
    have hlocking := hcalls w a (by rw [callers_setCaller, if_pos rfl])
    cases hidle.symm.trans hlocking
  | lock hstage _ =>
    refine hcaller id (h.caller (callers_setCaller _ _ · _) (by rw [hstage]; exact nofun) ?_
      (fun _ => rfl) fun _ hrunning => ⟨hrunning, fun _ => ⟨_, Or.inr rfl⟩⟩)
    intro c hc
    rcases hc with hc | hc
    · cases hc
    · cases hc
      exact Or.inl hstage
  | @change w a hstage =>
    have hstop := h.calls w a (Or.inr hstage)
    refine hcaller id (h.caller (callers_setCaller _ _ · _) (by rw [hstage]; exact nofun) ?_ ?_ ?_)
    · intro c hc
      rcases hc with hc | hc <;> cases hc
    · intro hw
      cases a with
      | push msg => rfl
      | stop => exact absurd (hstop.mp rfl) hw
    · intro hw hrunning
      rw [hstop.mpr hw] at hrunning
      cases hrunning
  | unlock hstage =>
    refine hcaller id (h.caller (callers_setCaller _ _ · _) (by rw [hstage]; exact nofun) ?_
      (fun _ => rfl) fun _ hrunning => ⟨hrunning, ?_⟩)
    · intro c hc
      rcases hc with hc | hc <;> cases hc
    · intro ⟨c, hc⟩
      rcases hc with hc | hc <;> cases hstage.symm.trans hc
  | notify hstage =>
    refine hcaller ?_ (h.caller (callers_setCaller _ _ · _) (by rw [hstage]; exact nofun) ?_
      (fun _ => rfl) fun _ hrunning => ⟨hrunning, ?_⟩)
    · change s.monitor.waiter.notified = .idle → _
      cases s.monitor.waiter <;> simp [Waiter.notified]
    · intro c hc
      rcases hc with hc | hc <;> cases hc
    · intro ⟨c, hc⟩
      rcases hc with hc | hc <;> cases hstage.symm.trans hc
  | wait hidle => cases hwait hidle
  | waiterLock _ _ => exact hframe rfl rfl nofun
  | pass _ _ => exact hframe rfl rfl nofun
  | block _ _ => exact hframe rfl rfl nofun
  | sleep _ => exact hframe rfl rfl nofun
  | spurious _ => exact hframe rfl rfl nofun
  | take _ htake => exact hframe rfl (Contents.take_running htake) nofun
  | @leave r hstage =>
    refine h.frame ?_ ?_ ?_ ?_
    · simp [Logger.after, hstage]
    · simp [Logger.after, hstage]
    · simp [Logger.after, hstage]
    · intro hreturned
      have hwaiter := hkept.resting (by rw [hreturned]; exact nofun)
      cases hstage.symm.trans hwaiter

theorem step (h : Closing s) (hkept : Kept isOpen s) (hsteps : Steps isOpen s t) : Closing t := by
  cases hsteps with
  | @call w msg hidle =>
    have hother : ∀ v, v ≠ some w → ((s.monitor.setCaller (some w)
        (.locking (.push msg))).callers v) = s.monitor.callers v := fun v hv => by
      rw [callers_setCaller, if_neg hv]
    have hnone := hother none nofun
    refine ⟨?_, ?_, ?_, ?_⟩
    · intro v c hv
      by_cases heq : v = some w
      · subst heq
        rw [callers_setCaller, if_pos rfl] at hv
        rcases hv with hv | hv
        · cases hv
          exact iff_of_false nofun nofun
        · cases hv
      · rw [hother v heq] at hv
        exact h.calls v c hv
    · rw [hnone]
      exact h.unstarted
    · rw [hnone]
      exact h.stopped
    · rw [hnone]
      exact h.joined
  | shutdown hbefore hidle =>
    refine ⟨?_, nofun, fun _ _ => ⟨.stop, Or.inl ?_⟩, nofun⟩
    · intro v c hv
      rw [callers_setCaller] at hv
      split at hv
      · rename_i heq
        rcases hv with hv | hv
        · cases hv
          exact iff_of_true rfl heq
        · cases hv
      · exact h.calls v c hv
    · rw [callers_setCaller, if_pos rfl]
  | stopped hbefore hrunning =>
    cases (h.unstarted hbefore).2.symm.trans hrunning
  | loop hlooping _ => exact h.frame rfl rfl rfl id
  | monitor hmoves hcalls hwait => exact h.monitor hkept hmoves hcalls hwait
  | write hwriting =>
    refine h.frame ?_ ?_ ?_ fun hreturned => ?_
    · cases isOpen <;> rfl
    · cases isOpen <;> rfl
    · cases isOpen <;> rfl
    · cases hwriting.symm.trans hreturned
  | join hstopping hidle hreturned =>
    exact ⟨h.calls, nofun, fun _ => h.stopped (by rw [hstopping]; exact nofun),
      fun _ => ⟨hreturned, hidle⟩⟩

omit [DecidableEq W] in
theorem init : Closing (Logger.init : Logger W) where
  calls w c h := by rcases h with h | h <;> cases h
  unstarted _ := ⟨rfl, rfl⟩
  stopped h := absurd rfl h
  joined h := by cases h

end Closing

theorem closing [DecidableEq W] {allowed : Logger W → Action W → Prop}
    (hs : Reachable (machine isOpen) allowed s) : Kept isOpen s ∧ Closing s :=
  hs.invariant (P := fun s => Kept isOpen s ∧ Closing s) ⟨.init, .init⟩ fun _ a _ h _ hnext =>
    ⟨h.1.step (next_steps a hnext), h.2.step h.1 (next_steps a hnext)⟩

/-- When shutdown has returned, the writer has looked for the last time after the stop:
all lines pushed before that are written, and those pushed later are in the queue. -/
theorem shutdown_writes_all [DecidableEq W] {allowed : Logger W → Action W → Prop}
    (hs : Reachable (machine isOpen) allowed s) (hreturned : s.shutdown = .returned) :
    ∃ before after, s.monitor.log = before ++ .took none :: after ∧ .changed .stop ∈ before ∧
      s.written isOpen = pushed before ∧ s.monitor.data.logQueue = pushed after := by
  obtain ⟨hkept, hclosing⟩ := closing hs
  obtain ⟨hwriter, -⟩ := hclosing.joined hreturned
  obtain ⟨before, after, hlog, hafter⟩ := hkept.ended (Or.inl hwriter)
  obtain ⟨hstop, hall⟩ := hkept.lossless.refused before _ after hlog rfl
  have hpopped : popped s.monitor.log = pushed before := by
    rw [hlog, popped, List.filterMap_append]
    change popped before ++ popped after = _
    rw [hall, hafter, List.append_nil]
  have hwritten : s.written isOpen = pushed before := by
    have hsame := hkept.popped
    rw [hpopped] at hsame
    simpa [Logger.inHand, hwriter] using hsame.symm
  refine ⟨before, after, hlog, hstop, hwritten, ?_⟩
  have hfifo := hkept.lossless.fifo
  have hpushed : pushed s.monitor.log = pushed before ++ pushed after := by
    rw [hlog, SafeQueue.pushed_append]
    rfl
  rw [hpopped, hpushed] at hfifo
  exact List.append_cancel_left hfifo

section Sample

/-- The writer is about to sleep when the destructor comes, and wakes up for the stop. -/
def stoppingSteps : List (Action Bool) :=
  [.log true [49] [104, 105], .monitor (.lock (some true)), .monitor (.change (some true)),
    .monitor (.unlock (some true)), .loop, .monitor .waiterLock, .monitor .evaluate,
    .monitor .take, .monitor .leave, .monitor (.notify (some true)), .write, .loop,
    .monitor .waiterLock, .monitor .evaluate, .shutdown, .monitor .sleep]

def returnedSteps : List (Action Bool) :=
  stoppingSteps ++ [.monitor (.lock none), .monitor (.change none), .monitor (.unlock none),
    .monitor (.notify none), .monitor .waiterLock, .monitor .evaluate, .monitor .take,
    .monitor .leave, .join, .log false [50] [110, 111], .monitor (.lock (some false)),
    .monitor (.change (some false))]

theorem shutdown_writes_all_sample :
    ∃ s : Logger Bool, Reachable (machine true) AnyStep s ∧
      (s.shutdown = .returned ∧ s.logFile.length = 1) ∧
      ∃ before after, s.monitor.log = before ++ .took none :: after ∧ .changed .stop ∈ before ∧
        s.written true = pushed before ∧ s.monitor.data.logQueue = pushed after := by
  have hrun : (run (machine true) AnyStep (machine true).init returnedSteps).any (fun s =>
      s.shutdown = .returned ∧ s.logFile.length = 1) = true := by
    decide +kernel
  obtain ⟨s, hs, hreturned⟩ := exists_reachable hrun
  exact ⟨s, hs, hreturned, shutdown_writes_all hs hreturned.1⟩

end Sample

end Closing

section Returning

variable {W : Type*} {isOpen : Bool} {s t : Logger W}

/-- No thread logs any more, and the writer does not wake up for no reason. -/
def Action.continues : Action W → Bool
  | .log _ _ _ => false
  | .error _ _ _ => false
  | .monitor a => a.continues
  | _ => true

def quietly [DecidableEq W] (isOpen : Bool) : Machine (Logger W) (Action W) :=
  ⟨.init, fun s a => if a.continues then s.next isOpen a else none⟩

/-- What a caller can still cost: a line to be taken, and a notify. -/
def effort : Caller (Call Text) → ℕ
  | .idle => 0
  | .notifying => 7
  | .unlocking => 8
  | .changing _ => 15
  | .locking _ => 16

/-- What the writer still has to do with the line that it has. -/
def waiting : Waiter (Option Text) → ℕ
  | .asleep => 1
  | .leaving none => 4
  | .blocking => 5
  | .taking => 5
  | .evaluating => 6
  | .locking => 7
  | .woken => 7
  | .idle => 8
  | .leaving (some _) => 10

def Logger.rank (s : Logger W) : ℕ :=
  match s.writer with
  | .looping => waiting s.monitor.waiter
  | .writing _ => 9
  | .returned => 0

def remaining : Shutdown → ℕ
  | .returned => 0
  | _ => 1

def measure [Fintype W] (s : Logger W) : ℕ :=
  6 * s.monitor.data.logQueue.length + ∑ w, effort (s.monitor.callers w) + s.rank +
    remaining s.shutdown

section Measure

variable [Fintype W]

theorem notified_rank (w : Waiter (Option Text)) : waiting w.notified ≤ waiting w + 6 := by
  cases w with
  | asleep => exact Nat.le_refl 7
  | _ => exact Nat.le_add_right _ _

/-- A step of the monitor in which the writer does not leave. -/
theorem measure_monitor {m : State (Option W) Contents (Call Text) (Option Text)}
    (hidle : m.waiter = .idle → s.monitor.waiter = .idle)
    (hwriter : s.writer = .looping ∨ m.waiter = s.monitor.waiter)
    (hless : 6 * m.data.logQueue.length + ∑ v, effort (m.callers v) + waiting m.waiter <
      6 * s.monitor.data.logQueue.length + ∑ v, effort (s.monitor.callers v) +
        waiting s.monitor.waiter) :
    measure (s.after m) < measure s := by
  rw [Logger.after_of_waiter hidle]
  unfold measure Logger.rank
  rcases hwriter with hlooping | hsame
  · simp only [hlooping]
    omega
  · rw [hsame] at hless
    cases s.writer <;> simp only [hsame] <;> omega

/-- The writer goes on, which makes its own rank smaller. -/
theorem measure_waiter {m : State (Option W) Contents (Call Text) (Option Text)}
    (h : Kept isOpen s) (hbusy : s.monitor.waiter ≠ .idle) (hstays : m.waiter ≠ .idle)
    (hdata : m.data = s.monitor.data) (hcallers : m.callers = s.monitor.callers)
    (hless : waiting m.waiter < waiting s.monitor.waiter) : measure (s.after m) < measure s := by
  refine measure_monitor (fun hidle => absurd hidle hstays) (Or.inl (h.looping hbusy)) ?_
  rw [hdata, hcallers]
  omega

/-- The writer takes a line, or finds that there will be none. -/
theorem measure_take {d : Contents} {r : Option Text} (h : Kept isOpen s)
    (hstage : s.monitor.waiter = .taking) (htake : s.monitor.data.take = some (d, r)) :
    measure (s.after { s.monitor with
      data := d
      waiter := .leaving r
      log := s.monitor.log ++ [.took r] }) < measure s := by
  have hlooping : s.writer = .looping := h.looping (by rw [hstage]; exact nofun)
  refine measure_monitor nofun (Or.inl hlooping) ?_
  rw [hstage]
  change 6 * d.logQueue.length + ∑ v, effort (s.monitor.callers v) + waiting (.leaving r) < _
  rcases Contents.take_length htake with ⟨rfl, rfl⟩ | ⟨msg, rfl, hlength⟩
  · simp only [waiting]
    omega
  · simp only [waiting]
    omega

theorem measure_leave {r : Option Text} (h : Kept isOpen s)
    (hstage : s.monitor.waiter = .leaving r) :
    measure (s.after { s.monitor with mutex := none, waiter := .idle }) < measure s := by
  have hlooping : s.writer = .looping := h.looping (by rw [hstage]; exact nofun)
  rw [Logger.after_leave hstage]
  cases r with
  | none =>
    simp only [measure, Logger.rank, hlooping, hstage, Writer.got, waiting]
    omega
  | some msg =>
    simp only [measure, Logger.rank, hlooping, hstage, Writer.got, waiting]
    omega

variable [DecidableEq W]

/-- A caller goes on, which costs more than the line that it may leave. -/
theorem measure_caller {m : State (Option W) Contents (Call Text) (Option Text)} {w : Option W}
    {stage stage' : Caller (Call Text)} (hstage : s.monitor.callers w = stage)
    (hcallers : m.callers = (s.monitor.setCaller w stage').callers)
    (hwaiter : m.waiter = s.monitor.waiter)
    (hless : 6 * m.data.logQueue.length + effort stage' <
      6 * s.monitor.data.logQueue.length + effort stage) : measure (s.after m) < measure s := by
  have hsum := sum_setCaller effort s.monitor w stage'
  refine measure_monitor (fun hidle => hwaiter.symm.trans hidle) (Or.inr hwaiter) ?_
  rw [hcallers, hwaiter]
  rw [hstage] at hsum
  omega

/-- The notify of a caller may wake the writer. -/
theorem measure_notify {w : Option W} (h : Kept isOpen s)
    (hstage : s.monitor.callers w = .notifying) :
    measure (s.after ({ s.monitor with
      waiter := s.monitor.waiter.notified }.setCaller w .idle)) < measure s := by
  have hsum := sum_setCaller effort s.monitor w .idle
  rw [hstage] at hsum
  change _ + 7 = _ + 0 at hsum
  have hrank := notified_rank s.monitor.waiter
  refine measure_monitor ?_ ?_ ?_
  · change s.monitor.waiter.notified = .idle → _
    cases s.monitor.waiter <;> simp [Waiter.notified]
  · change _ ∨ s.monitor.waiter.notified = _
    cases hwaiter : s.monitor.waiter with
    | asleep => exact Or.inl (h.looping (by rw [hwaiter]; exact nofun))
    | _ => exact Or.inr rfl
  · change 6 * s.monitor.data.logQueue.length +
      ∑ v, effort ((s.monitor.setCaller w .idle).callers v) + waiting s.monitor.waiter.notified < _
    omega

theorem measure_after {m : State (Option W) Contents (Call Text) (Option Text)}
    (h : Kept isOpen s) (hmoves : s.monitor.Moves guarded m)
    (hcalls : ∀ w c, m.callers w = .locking c → s.monitor.callers w = .locking c)
    (hwait : s.monitor.waiter = .idle → m.waiter = .idle)
    (hwakes : s.monitor.waiter = .asleep → m.waiter = .asleep ∨
      ∃ w, s.monitor.callers w = .notifying ∧ m.callers w = .idle) :
    measure (s.after m) < measure s := by
  cases hmoves with
  | @call w a hidle =>
    have hlocking := hcalls w a (by rw [callers_setCaller, if_pos rfl])
    cases hidle.symm.trans hlocking
  | lock hstage _ =>
    exact measure_caller hstage rfl rfl (Nat.add_lt_add_left (Nat.lt_succ_self 15) _)
  | @change w a hstage =>
    have hqueue : (guarded.change a s.monitor.data).logQueue.length ≤
        s.monitor.data.logQueue.length + 1 := by
      cases a with
      | push msg => exact Nat.le_of_eq List.length_append
      | stop => exact Nat.le_add_right _ _
    refine measure_caller hstage rfl rfl ?_
    change 6 * (guarded.change a s.monitor.data).logQueue.length + 8 < _ + 15
    omega
  | unlock hstage =>
    exact measure_caller hstage rfl rfl (Nat.add_lt_add_left (Nat.lt_succ_self 7) _)
  | notify hstage => exact measure_notify h hstage
  | wait hidle => cases hwait hidle
  | waiterLock hstage _ =>
    refine measure_waiter h ?_ nofun rfl rfl ?_
    · rcases hstage with hstage | hstage <;> rw [hstage] <;> exact nofun
    · rcases hstage with hstage | hstage <;> rw [hstage] <;> exact Nat.lt_succ_self 6
  | pass hstage _ | block hstage _ =>
    refine measure_waiter h (by rw [hstage]; exact nofun) nofun rfl rfl ?_
    rw [hstage]
    exact Nat.lt_succ_self 5
  | sleep hstage =>
    refine measure_waiter h (by rw [hstage]; exact nofun) nofun rfl rfl ?_
    rw [hstage]
    simp [waiting]
  | spurious hstage =>
    rcases hwakes hstage with hasleep | ⟨w, hnotifying, hidle⟩
    · cases hasleep
    · cases hnotifying.symm.trans hidle
  | take hstage htake => exact measure_take h hstage htake
  | leave hstage => exact measure_leave h hstage

omit [DecidableEq W] in
theorem measure_write (h : Kept isOpen s) {msg : Text} (hwriting : s.writer = .writing msg) :
    measure ({ s with writer := .looping }.output isOpen msg) < measure s := by
  have hidle : s.monitor.waiter = .idle := h.resting (by rw [hwriting]; exact nofun)
  have hbefore : s.rank = 9 := by simp only [Logger.rank, hwriting]
  have hafter : ({ s with writer := .looping }.output isOpen msg).rank = 8 := by
    cases isOpen <;> simp [Logger.rank, Logger.output, hidle, waiting]
  unfold measure
  rw [hbefore, hafter]
  cases isOpen <;> simp [Logger.output]

end Measure

variable [DecidableEq W]

/-- Once shutdown is called something can go on until it has returned. -/
theorem goes_on (hkept : Kept isOpen s) (hclosing : Closing s) (hstarted : s.shutdown ≠ .before)
    (hnot : s.shutdown ≠ .returned) : ∃ a t, (quietly isOpen).next s a = some t := by
  have hstopping : s.shutdown = .stopping := by
    cases hstage : s.shutdown with
    | before => exact absurd hstage hstarted
    | stopping => rfl
    | returned => exact absurd hstage hnot
  by_cases hbusy : (∃ w, s.monitor.callers w ≠ .idle) ∨ s.monitor.waiter ≠ .idle ∧
      (s.monitor.waiter = .asleep → guarded.ready s.monitor.data = true)
  · obtain ⟨a, ha, hsome⟩ := hkept.sound.progress Contents.take_isSome hbusy
    obtain ⟨m, hm⟩ := Option.isSome_iff_exists.mp hsome
    refine ⟨.monitor a, s.after m, ?_⟩
    simp [quietly, Action.continues, Logger.next, ha, hm]
  · obtain ⟨hcallers, hwaiter⟩ := not_or.mp hbusy
    have hidle : ∀ w, s.monitor.callers w = .idle := by
      intro w
      by_contra hw
      exact hcallers ⟨w, hw⟩
    -- All calls are over, so the flag is cleared and the writer does not sleep.
    have hrunning : s.monitor.data.running = false := by
      rw [← Bool.not_eq_true]
      intro hrunning
      obtain ⟨c, hc⟩ := hclosing.stopped hstarted hrunning
      rw [hidle none] at hc
      rcases hc with hc | hc <;> cases hc
    have hready : guarded.ready s.monitor.data = true := by
      change Contents.ready _ = true
      rw [Contents.ready, hrunning]
      exact Bool.or_true _
    have hresting : s.monitor.waiter = .idle := by
      by_contra hwaits
      exact hwaiter ⟨hwaits, fun _ => hready⟩
    cases hwriter : s.writer with
    | looping =>
      refine ⟨.loop, { s with monitor := { s.monitor with waiter := .locking } }, ?_⟩
      simp [quietly, Action.continues, Logger.next, hwriter, State.next, hresting]
    | writing msg =>
      refine ⟨.write, { s with writer := .looping }.output isOpen msg, ?_⟩
      simp [quietly, Action.continues, Logger.next, hwriter]
    | returned =>
      refine ⟨.join, { s with shutdown := .returned }, ?_⟩
      simp [quietly, Action.continues, Logger.next, hwriter, hstopping, hidle none]

/-- A step after the call of shutdown leads closer to its return. -/
theorem measure_step [Fintype W] {a : Action W} (hkept : Kept isOpen s)
    (hstarted : s.shutdown ≠ .before) (ha : a.continues = true) (hnext : s.next isOpen a = some t) :
    t.shutdown ≠ .before ∧ measure t < measure s := by
  cases a with
  | log w timestamp msg => cases ha
  | error w timestamp msg => cases ha
  | shutdown =>
    obtain ⟨hbefore, -⟩ := Option.ite_none_right_eq_some.mp hnext
    exact absurd hbefore hstarted
  | loop =>
    obtain ⟨hlooping, h⟩ := Option.ite_none_right_eq_some.mp hnext
    obtain ⟨m, hm, rfl⟩ := Option.map_eq_some_iff.mp h
    simp only [State.next] at hm
    split at hm
    · rename_i hidle
      cases hm
      refine ⟨hstarted, ?_⟩
      simp only [measure, Logger.rank, hlooping, hidle, waiting]
      omega
    · cases hm
  | monitor a =>
    obtain ⟨hcont, h⟩ := Option.ite_none_right_eq_some.mp hnext
    obtain ⟨m, hm, rfl⟩ := Option.map_eq_some_iff.mp h
    obtain ⟨hcalls, hwait⟩ := starts_nothing hcont hm
    refine ⟨?_, measure_after hkept (next_moves a hm) hcalls hwait (wakes_by_notify ha hm)⟩
    unfold Logger.after
    split <;> exact hstarted
  | write =>
    simp only [Logger.next] at hnext
    split at hnext
    · rename_i msg hwriting
      cases hnext
      refine ⟨?_, measure_write hkept hwriting⟩
      cases isOpen <;> exact hstarted
    · cases hnext
  | join =>
    obtain ⟨⟨hstopping, -, -⟩, h⟩ := Option.ite_none_right_eq_some.mp hnext
    cases h
    refine ⟨(fun hbefore => by cases hbefore), ?_⟩
    simp only [measure, Logger.rank, hstopping, remaining]
    omega

/-- From the call of shutdown on, whatever the scheduling, it returns: no wake-up is lost and
the join is not for a thread that never ends, provided that no more lines come and
the writer does not wake up for no reason for ever. -/
theorem shutdown_returns [Fintype W] {allowed : Logger W → Action W → Prop}
    (hs : Reachable (machine isOpen) allowed s) (hstarted : s.shutdown = .stopping) :
    Inevitable (quietly isOpen) (fun t : Logger W => t.shutdown = .returned) s := by
  obtain ⟨hkept, hclosing⟩ := closing hs
  refine Inevitable.of_measure (P := fun t => Kept isOpen t ∧ Closing t ∧ t.shutdown ≠ .before)
    measure ?_ ?_ ⟨hkept, hclosing, by rw [hstarted]; exact nofun⟩
  · intro u a v ⟨hkept, hclosing, hstarted⟩ hnext
    obtain ⟨ha, hnext⟩ := Option.ite_none_right_eq_some.mp hnext
    obtain ⟨hlater, hless⟩ := measure_step hkept hstarted ha hnext
    have hsteps := next_steps a hnext
    exact ⟨⟨hkept.step hsteps, hclosing.step hkept hsteps, hlater⟩, hless⟩
  · intro u ⟨hkept, hclosing, hstarted⟩ hnot
    exact goes_on hkept hclosing hstarted hnot

theorem shutdown_returns_sample :
    ∃ s : Logger Bool, Reachable (machine true) AnyStep s ∧
      (s.shutdown = .stopping ∧ s.monitor.waiter = .asleep) ∧
      Inevitable (quietly true) (fun t : Logger Bool => t.shutdown = .returned) s := by
  have hrun : (run (machine true) AnyStep (machine true).init stoppingSteps).any (fun s =>
      s.shutdown = .stopping ∧ s.monitor.waiter = .asleep) = true := by
    decide +kernel
  obtain ⟨s, hs, hstopping⟩ := exists_reachable hrun
  exact ⟨s, hs, hstopping, shutdown_returns hs hstopping.1⟩

end Returning

end ChatServer.AsyncLogger
