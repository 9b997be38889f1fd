import ChatServer.Lib.History
import ChatServer.Lib.Monitor

/-!
The queue between threads, on which the events of the server and the lines of the
client are handed over. push and stop make their change with the mutex and notify
after they have released it; pop waits until there is an item or the queue is
stopped. Producers may be any threads, also the one that calls pop, in between.
-/
namespace ChatServer.SafeQueue

open Lib.Runs Lib.History Lib.Monitor

/-- What `mtx_` guards. -/
structure Contents (T : Type*) where
  queue : List T
  finished : Bool
deriving DecidableEq

/-- A call that notifies. -/
inductive Call (T : Type*)
  | push (item : T)
  | stop
deriving DecidableEq

namespace Contents

variable {T : Type*}

/-- The critical section of push or stop. -/
def change : Call T → Contents T → Contents T
  | .push item, q => { q with queue := q.queue ++ [item] }
  | .stop, q => { q with finished := true }

/-- The predicate of the wait in pop. -/
def ready (q : Contents T) : Bool := !q.queue.isEmpty || q.finished

/-- pop after the wait. The result is nothing for `false`; `front` of an empty
queue is undefined. -/
def pop (q : Contents T) : Option (Contents T × Option T) :=
  if q.queue.isEmpty && q.finished then some (q, none)
  else
    match q.queue with
    | [] => none
    | item :: rest => some ({ q with queue := rest }, some item)

/-- pop returns false when the queue is stopped and empty, and otherwise takes the
item at the front. -/
theorem pop_cases {q q' : Contents T} {result : Option T} (h : q.pop = some (q', result)) :
    (result = none ∧ q' = q ∧ q.queue = [] ∧ q.finished = true) ∨
      ∃ item rest, result = some item ∧ q.queue = item :: rest ∧ q' = { q with queue := rest } := by
  unfold pop at h
  split at h
  · rename_i hstop
    cases h
    simp only [Bool.and_eq_true, List.isEmpty_iff] at hstop
    exact Or.inl ⟨rfl, rfl, hstop⟩
  · split at h
    · cases h
    · rename_i item rest hqueue
      cases h
      exact Or.inr ⟨item, rest, rfl, hqueue, rfl⟩

/-- After the wait `front` is not called on an empty queue. -/
theorem pop_isSome {q : Contents T} (h : q.ready = true) : q.pop.isSome = true := by
  unfold pop
  split
  · rfl
  · rename_i hnot
    split
    · rename_i hempty
      simp [ready, hempty] at h
      simp [hempty, h] at hnot
    · rfl

end Contents

def safeQueue (T : Type*) : Guarded (Contents T) (Call T) (Option T) where
  init := ⟨[], false⟩
  change := Contents.change
  ready := Contents.ready
  take := Contents.pop

/-- The queue with its producers and the consumer. -/
abbrev Queue (W T : Type*) := State W (Contents T) (Call T) (Option T)

variable {W T : Type*} [DecidableEq W]

section Log

/-- The items in the order of the pushes' critical sections. -/
def pushed (log : List (Entry (Call T) (Option T))) : List T :=
  log.filterMap fun
    | .changed (.push item) => some item
    | _ => none

/-- The items that pop has taken. -/
def popped (log : List (Entry (Call T) (Option T))) : List T :=
  log.filterMap fun
    | .took result => result
    | _ => none

variable {log : List (Entry (Call T) (Option T))} {q : Contents T}

theorem pushed_append (log log' : List (Entry (Call T) (Option T))) :
    pushed (log ++ log') = pushed log ++ pushed log' := List.filterMap_append ..

/-- A pop that returns false comes after a stop, when all items pushed before have
been popped. -/
def AllPopped (before : List (Entry (Call T) (Option T))) (entry : Entry (Call T) (Option T)) :
    Prop :=
  entry = .took none → .changed .stop ∈ before ∧ popped before = pushed before

/-- The queue has the items that were pushed and not yet popped. -/
structure Lossless (log : List (Entry (Call T) (Option T))) (q : Contents T) : Prop where
  fifo : popped log ++ q.queue = pushed log
  stopped : q.finished = true → .changed .stop ∈ log
  refused : Justified AllPopped log

namespace Lossless

theorem change (h : Lossless log q) (call : Call T) :
    Lossless (log ++ [.changed call]) (q.change call) := by
  have hrefused : AllPopped log (.changed call) := fun heq => by cases heq
  cases call with
  | push item =>
    refine ⟨?_, fun hq => List.mem_append_left _ (h.stopped hq), h.refused.snoc hrefused⟩
    have hsame : popped (log ++ [.changed (.push item)]) = popped log := by
      simp [popped]
    rw [hsame, pushed_append, ← h.fifo]
    exact (List.append_assoc ..).symm
  | stop =>
    refine ⟨?_, fun _ => List.mem_append_right _ List.mem_cons_self, h.refused.snoc hrefused⟩
    have hsame : popped (log ++ [.changed .stop]) = popped log := by simp [popped]
    rw [hsame, pushed_append, ← h.fifo]
    exact (List.append_nil _).symm

theorem pop {q' : Contents T} {result : Option T} (h : Lossless log q)
    (hpop : q.pop = some (q', result)) : Lossless (log ++ [.took result]) q' := by
  have hpushed : pushed (log ++ [.took result]) = pushed log := by simp [pushed]
  rcases Contents.pop_cases hpop with ⟨rfl, rfl, hempty, hstop⟩ | ⟨item, rest, rfl, hqueue, rfl⟩
  · have hpopped : popped (log ++ [.took none]) = popped log := by simp [popped]
    have hall : popped log = pushed log := by
      rw [← h.fifo, hempty, List.append_nil]
    refine ⟨?_, fun hq => List.mem_append_left _ (h.stopped hq), h.refused.snoc ?_⟩
    · rw [hpopped, hpushed]
      exact h.fifo
    · exact fun _ => ⟨h.stopped hstop, hall⟩
  · have hpopped : popped (log ++ [.took (some item)]) = popped log ++ [item] := by
      simp [popped]
    refine ⟨?_, fun hq => List.mem_append_left _ (h.stopped hq), h.refused.snoc ?_⟩
    · rw [hpopped, hpushed, ← h.fifo, hqueue]
      exact List.append_assoc ..
    · intro heq
      cases heq

theorem of_replays (h : Replays (safeQueue T) log q) : Lossless log q := by
  induction h with
  | nil => exact ⟨rfl, nofun, .nil⟩
  | changed call _ ih => exact ih.change call
  | took _ _ htake ih => exact ih.pop htake

end Lossless

end Log

/-- The items popped are at all times a prefix of the items pushed, and the rest is in
the queue; pop returns false only after a stop and when the items pushed before
it are all popped; and the consumer does not sleep over an item or a stop unless
some thread has yet to notify. -/
theorem fifo_without_lost_wakeup {allowed : Queue W T → Action W (Call T) → Prop} {s : Queue W T}
    (hs : Reachable (machine (safeQueue T)) allowed s) :
    popped s.log <+: pushed s.log ∧ popped s.log ++ s.data.queue = pushed s.log ∧
    (∀ before after, s.log = before ++ .took none :: after →
      .changed .stop ∈ before ∧ popped before = pushed before) ∧
    ¬ (s.waiter = .asleep ∧ (s.data.queue ≠ [] ∨ s.data.finished = true) ∧
      ∀ w, (s.callers w).owes = false) := by
  have hsound := sound hs
  have hlossless := Lossless.of_replays hsound.replays
  refine ⟨⟨_, hlossless.fifo⟩, hlossless.fifo, ?_, ?_⟩
  · intro before after hlog
    exact hlossless.refused before _ after hlog rfl
  · intro ⟨hasleep, hfound, hnone⟩
    have hready : s.data.ready = true := by
      rcases hfound with hqueue | hfinished
      · simp [Contents.ready, hqueue]
      · simp [Contents.ready, hfinished]
    obtain ⟨w, hw⟩ := hsound.attended hasleep hready
    cases (hnone w).symm.trans hw

section Sample

/-- The consumer sleeps until the first item is pushed, finds the queue stopped in its
second pop, and another item is pushed after that. -/
def sampleSteps : List (Action Bool (Call ℕ)) :=
  [.wait, .waiterLock, .evaluate, .sleep, .call true (.push 7), .lock true, .change true,
    .unlock true, .notify true, .waiterLock, .evaluate, .take, .leave, .call false .stop,
    .lock false, .change false, .unlock false, .wait, .waiterLock, .evaluate, .take, .leave,
    .call true (.push 8), .lock true, .change true]

theorem fifo_without_lost_wakeup_sample :
    ∃ s : Queue Bool ℕ, Reachable (machine (safeQueue ℕ)) AnyStep s ∧
      s.log = [.changed (.push 7), .took (some 7), .changed .stop, .took none,
        .changed (.push 8)] ∧
      popped s.log <+: pushed s.log ∧ popped s.log ++ s.data.queue = pushed s.log ∧
      (∀ before after, s.log = before ++ .took none :: after →
        .changed .stop ∈ before ∧ popped before = pushed before) ∧
      ¬ (s.waiter = .asleep ∧ (s.data.queue ≠ [] ∨ s.data.finished = true) ∧
        ∀ w, (s.callers w).owes = false) := by
  have hrun : (run (machine (safeQueue ℕ)) AnyStep (machine (safeQueue ℕ)).init sampleSteps).any
      (fun s => s.log = [.changed (.push 7), .took (some 7), .changed .stop, .took none,
        .changed (.push 8)]) = true := by
    decide +kernel
  obtain ⟨s, hs, hlog⟩ := exists_reachable hrun
  exact ⟨s, hs, hlog, fifo_without_lost_wakeup hs⟩

end Sample

/-- What pop returns is what its critical section found. -/
theorem result_logged {allowed : Queue W T → Action W (Call T) → Prop} {s : Queue W T}
    {result : Option T} (hs : Reachable (machine (safeQueue T)) allowed s)
    (hleaving : s.waiter = .leaving result) : ∃ before, s.log = before ++ [.took result] :=
  (sound hs).result result hleaving

/-- pop gets past its wait. -/
theorem take_isSome {allowed : Queue W T → Action W (Call T) → Prop} {s : Queue W T}
    (hs : Reachable (machine (safeQueue T)) allowed s) (htaking : s.waiter = .taking) :
    (s.next (safeQueue T) .take).isSome = true := by
  have hpop := Contents.pop_isSome ((sound hs).taking htaking)
  simp only [State.next, htaking]
  rw [Option.isSome_map]
  exact hpop

end ChatServer.SafeQueue
