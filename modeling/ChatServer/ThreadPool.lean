import Mathlib.Algebra.Order.BigOperators.Group.Finset
import Mathlib.Data.Fintype.Basic
import ChatServer.Lib.Mutex
import ChatServer.Lib.Runs

/-!
The thread pool and its shutdown. A worker evaluates the predicate of its wait
under the mutex, then releases the mutex and falls asleep in one step; a
notification wakes only those who are asleep. shutdown stores the flag and
notifies without the mutex, so both may come after the predicate of a worker was
found false and before the worker is asleep. Then it is not woken, and
shutdown waits for it in `join`. If this does not happen, every worker comes
to its end and so does shutdown.
-/
namespace ChatServer.ThreadPool

open Lib Lib.Runs

/-- A call of push_task or push_batch. -/
inductive Push (τ : Type*)
  | task (t : τ)
  | batch (tasks : List τ)
deriving DecidableEq

def Push.tasks {τ : Type*} : Push τ → List τ
  | .task t => [t]
  | .batch tasks => tasks

/-- Where a worker is in worker_loop. -/
inductive Stage (τ : Type*)
  /-- At the test of `while(running_)`. -/
  | testing
  /-- At the constructor of the `unique_lock`. -/
  | locking
  /-- With the mutex, at the predicate of the wait. -/
  | evaluating
  /-- With the mutex; the predicate was false, and the wait is about to block. -/
  | blocking
  | asleep
  /-- Notified, or woken for no reason, and without the mutex. -/
  | woken
  /-- With the mutex, after the wait. -/
  | leaving
  | executing (task : τ)
  | exited
deriving DecidableEq

/-- The worker holds the mutex. -/
def Stage.holds {τ : Type*} : Stage τ → Bool
  | .evaluating => true
  | .blocking => true
  | .leaving => true
  | _ => false

def Stage.isAsleep {τ : Type*} : Stage τ → Bool
  | .asleep => true
  | _ => false

inductive Holder (n : ℕ) (τ : Type*)
  | worker (w : Fin n)
  | pusher (push : Push τ)
deriving DecidableEq

/-- Where shutdown is; `joining k` when it has notified and joined `k` workers. -/
inductive Shutdown
  | notCalled
  | stored
  | joining (joined : ℕ)
deriving DecidableEq

structure Pool (n : ℕ) (τ : Type*) where
  workers : Fin n → Stage τ
  taskQueue : List τ
  queueMtx : Option (Holder n τ)
  running : Bool
  shutdown : Shutdown
  /-- The calls that other threads have yet to make, as they get the mutex. -/
  incoming : List (Push τ)
  /-- The calls that have released the mutex and not yet notified. -/
  notifyOnes : ℕ
  notifyAlls : ℕ

inductive Action (n : ℕ)
  | work (w : Fin n)
  | spurious (w : Fin n)
  | push
  | emplace
  | notifyOne (woken : Option (Fin n))
  | notifyAll
  | store
  | wakeAll
  | join
deriving DecidableEq

namespace Pool

variable {n : ℕ} {τ : Type*}

def init (n : ℕ) (pushes : List (Push τ)) : Pool n τ :=
  ⟨fun _ => .testing, [], none, true, .notCalled, pushes, 0, 0⟩

def setWorker (s : Pool n τ) (w : Fin n) (stage : Stage τ) : Pool n τ :=
  { s with workers := Function.update s.workers w stage }

@[simp]
theorem setWorker_self (s : Pool n τ) (w : Fin n) (stage : Stage τ) :
    (s.setWorker w stage).workers w = stage := Function.update_self ..

theorem setWorker_of_ne (s : Pool n τ) {v w : Fin n} (hv : v ≠ w) (stage : Stage τ) :
    (s.setWorker w stage).workers v = s.workers v := Function.update_of_ne hv ..

/-- `queue_cv_.notify_all()` -/
def wakeWorkers (s : Pool n τ) : Pool n τ :=
  { s with workers := fun w =>
      match s.workers w with
      | .asleep => .woken
      | stage => stage }

/-- The next step of a worker in worker_loop. -/
def work (s : Pool n τ) (w : Fin n) : Option (Pool n τ) :=
  match s.workers w with
  | .testing => some (s.setWorker w (if s.running then .locking else .exited))
  | .locking | .woken =>
      if s.queueMtx.isNone then
        some ({ s with queueMtx := some (.worker w) }.setWorker w .evaluating)
      else none
  | .evaluating =>
      let pred := !s.taskQueue.isEmpty || !s.running
      some (s.setWorker w (if pred then .leaving else .blocking))
  | .blocking => some ({ s with queueMtx := none }.setWorker w .asleep)
  | .asleep => none
  | .leaving =>
      if !s.running && s.taskQueue.isEmpty then
        some ({ s with queueMtx := none }.setWorker w .exited)
      else
        match s.taskQueue with
        -- `front` of an empty queue
        | [] => none
        | task :: rest =>
            some ({ s with taskQueue := rest, queueMtx := none }.setWorker w (.executing task))
  | .executing _ => some (s.setWorker w .testing)
  | .exited => none

def next (s : Pool n τ) : Action n → Option (Pool n τ)
  | .work w => s.work w
  | .spurious w =>
      match s.workers w with
      | .asleep => some (s.setWorker w .woken)
      | _ => none
  | .push =>
      match s.incoming, s.queueMtx with
      | push :: rest, none => some { s with incoming := rest, queueMtx := some (.pusher push) }
      | _, _ => none
  | .emplace =>
      match s.queueMtx with
      | some (.pusher push) =>
          let released := { s with taskQueue := s.taskQueue ++ push.tasks, queueMtx := none }
          match push with
          | .task _ => some { released with notifyOnes := s.notifyOnes + 1 }
          | .batch _ => some { released with notifyAlls := s.notifyAlls + 1 }
      | _ => none
  | .notifyOne woken =>
      if 0 < s.notifyOnes then
        let notified := { s with notifyOnes := s.notifyOnes - 1 }
        match woken with
        | some w =>
            match s.workers w with
            | .asleep => some (notified.setWorker w .woken)
            | _ => none
        | none => if ∀ w, (s.workers w).isAsleep = false then some notified else none
      else none
  | .notifyAll =>
      if 0 < s.notifyAlls then some { s with notifyAlls := s.notifyAlls - 1 }.wakeWorkers else none
  | .store => if s.running then some { s with running := false, shutdown := .stored } else none
  | .wakeAll =>
      match s.shutdown with
      | .stored => some { s with shutdown := .joining 0 }.wakeWorkers
      | _ => none
  | .join =>
      match s.shutdown with
      | .joining k =>
          if h : k < n then
            match s.workers ⟨k, h⟩ with
            | .exited => some { s with shutdown := .joining (k + 1) }
            | _ => none
          else none
      | _ => none

/-- What a worker can do. -/
inductive Works (s : Pool n τ) (w : Fin n) : Pool n τ → Prop
  | stop (hstage : s.workers w = .testing) (hstopped : s.running = false) :
      Works s w (s.setWorker w .exited)
  | loop (hstage : s.workers w = .testing) (hrunning : s.running = true) :
      Works s w (s.setWorker w .locking)
  | acquire (hstage : s.workers w = .locking ∨ s.workers w = .woken) (hfree : s.queueMtx = none) :
      Works s w ({ s with queueMtx := some (.worker w) }.setWorker w .evaluating)
  | pass (hstage : s.workers w = .evaluating) (hpred : s.taskQueue ≠ [] ∨ s.running = false) :
      Works s w (s.setWorker w .leaving)
  | block (hstage : s.workers w = .evaluating) (hrunning : s.running = true) :
      Works s w (s.setWorker w .blocking)
  | sleep (hstage : s.workers w = .blocking) :
      Works s w ({ s with queueMtx := none }.setWorker w .asleep)
  | finish (hstage : s.workers w = .leaving) (hstopped : s.running = false) :
      Works s w ({ s with queueMtx := none }.setWorker w .exited)
  | take {task : τ} {rest : List τ} (hstage : s.workers w = .leaving)
      (hqueue : s.taskQueue = task :: rest) :
      Works s w ({ s with taskQueue := rest, queueMtx := none }.setWorker w (.executing task))
  | execute {task : τ} (hstage : s.workers w = .executing task) :
      Works s w (s.setWorker w .testing)

/-- What a step can do: when it can be taken, and the state it leads to. -/
inductive Steps (s : Pool n τ) : Action n → Pool n τ → Prop
  | work {w : Fin n} {t : Pool n τ} (h : s.Works w t) : Steps s (.work w) t
  | spurious {w : Fin n} (hstage : s.workers w = .asleep) :
      Steps s (.spurious w) (s.setWorker w .woken)
  | push {push : Push τ} {rest : List (Push τ)} (hincoming : s.incoming = push :: rest)
      (hfree : s.queueMtx = none) :
      Steps s .push { s with incoming := rest, queueMtx := some (.pusher push) }
  | emplace {push : Push τ} {ones alls : ℕ} (hheld : s.queueMtx = some (.pusher push))
      (hcount : ones + alls = s.notifyOnes + s.notifyAlls + 1) :
      Steps s .emplace { s with
        taskQueue := s.taskQueue ++ push.tasks
        queueMtx := none
        notifyOnes := ones
        notifyAlls := alls }
  | notifyOne {w : Fin n} (hpending : 0 < s.notifyOnes) (hstage : s.workers w = .asleep) :
      Steps s (.notifyOne (some w))
        ({ s with notifyOnes := s.notifyOnes - 1 }.setWorker w .woken)
  | notifyNobody (hpending : 0 < s.notifyOnes) :
      Steps s (.notifyOne none) { s with notifyOnes := s.notifyOnes - 1 }
  | notifyAll (hpending : 0 < s.notifyAlls) :
      Steps s .notifyAll { s with notifyAlls := s.notifyAlls - 1 }.wakeWorkers
  | store (hrunning : s.running = true) :
      Steps s .store { s with running := false, shutdown := .stored }
  | wakeAll (hstored : s.shutdown = .stored) :
      Steps s .wakeAll { s with shutdown := .joining 0 }.wakeWorkers
  | join {k : ℕ} (hjoining : s.shutdown = .joining k) (hk : k < n)
      (hexited : s.workers ⟨k, hk⟩ = .exited) :
      Steps s .join { s with shutdown := .joining (k + 1) }

theorem Works.shutdown_eq {s t : Pool n τ} {w : Fin n} (h : s.Works w t) :
    t.shutdown = s.shutdown := by
  cases h <;> rfl

theorem work_works {s t : Pool n τ} {w : Fin n} (h : s.work w = some t) : s.Works w t := by
  unfold work at h
  split at h
  · rename_i hstage
    cases h
    split
    · rename_i hrunning
      exact .loop hstage hrunning
    · rename_i hstopped
      exact .stop hstage (by simpa using hstopped)
  · rename_i hstage
    simp only [Option.ite_none_right_eq_some, Option.some.injEq] at h
    obtain ⟨hfree, rfl⟩ := h
    exact .acquire (Or.inl hstage) (by simpa using hfree)
  · rename_i hstage
    simp only [Option.ite_none_right_eq_some, Option.some.injEq] at h
    obtain ⟨hfree, rfl⟩ := h
    exact .acquire (Or.inr hstage) (by simpa using hfree)
  · rename_i hstage
    cases h
    split
    · rename_i hpred
      exact .pass hstage (by simpa using hpred)
    · rename_i hpred
      simp only [Bool.or_eq_true, Bool.not_eq_true', not_or, Bool.not_eq_false] at hpred
      exact .block hstage hpred.2
  · rename_i hstage
    cases h
    exact .sleep hstage
  · cases h
  · rename_i hstage
    split at h
    · rename_i hdone
      cases h
      exact .finish hstage (by simpa using (Bool.and_eq_true_iff.mp hdone).1)
    · split at h
      · cases h
      · rename_i hqueue
        cases h
        exact .take hstage hqueue
  · rename_i hstage
    cases h
    exact .execute hstage
  · cases h

theorem next_steps {s t : Pool n τ} {a : Action n} (h : s.next a = some t) : s.Steps a t := by
  cases a with
  | work w => exact .work (work_works h)
  | spurious w =>
    simp only [next] at h
    split at h
    · rename_i hstage
      cases h
      exact .spurious hstage
    · cases h
  | push =>
    simp only [next] at h
    split at h
    · rename_i hincoming hfree
      cases h
      exact .push hincoming hfree
    · cases h
  | emplace =>
    simp only [next] at h
    split at h
    · rename_i push hheld
      cases push with
      | task t =>
        cases h
        exact .emplace hheld (by omega)
      | batch tasks =>
        cases h
        exact .emplace hheld (by omega)
    · cases h
  | notifyOne woken =>
    simp only [next, Option.ite_none_right_eq_some] at h
    obtain ⟨hpending, h⟩ := h
    cases woken with
    | some w =>
      dsimp only at h
      split at h
      · rename_i hstage
        cases h
        exact .notifyOne hpending hstage
      · cases h
    | none =>
      simp only [Option.ite_none_right_eq_some, Option.some.injEq] at h
      obtain ⟨_, rfl⟩ := h
      exact .notifyNobody hpending
  | notifyAll =>
    simp only [next, Option.ite_none_right_eq_some, Option.some.injEq] at h
    obtain ⟨hpending, rfl⟩ := h
    exact .notifyAll hpending
  | store =>
    simp only [next, Option.ite_none_right_eq_some, Option.some.injEq] at h
    obtain ⟨hrunning, rfl⟩ := h
    exact .store hrunning
  | wakeAll =>
    simp only [next] at h
    split at h
    · rename_i hstored
      cases h
      exact .wakeAll hstored
    · cases h
  | join =>
    simp only [next] at h
    split at h
    · rename_i hjoining
      split at h
      · rename_i hk
        split at h
        · rename_i hexited
          cases h
          exact .join hjoining hk hexited
        · cases h
      · cases h
    · cases h

end Pool

/-- A pool of `n` workers to which these tasks are pushed. -/
def machine {τ : Type*} (n : ℕ) (pushes : List (Push τ)) : Machine (Pool n τ) (Action n) :=
  ⟨Pool.init n pushes, Pool.next⟩

section Mutex

variable {n : ℕ} {τ : Type*} {workers : Fin n → Stage τ} {mtx : Option (Holder n τ)} {w : Fin n}
  {stage : Stage τ}

/-- A worker is in a stage with the mutex exactly when the mutex is its own. -/
def Held (workers : Fin n → Stage τ) (mtx : Option (Holder n τ)) : Prop :=
  ∀ w, (workers w).holds = true ↔ mtx = some (.worker w)

theorem held_iff : Held workers mtx ↔
    Mutex.Exclusive Holder.worker (fun w => (workers w).holds) mtx := Iff.rfl

theorem worker_injective : Function.Injective (Holder.worker : Fin n → Holder n τ) :=
  fun _ _ heq => Holder.worker.inj heq

theorem Held.congr {workers' : Fin n → Stage τ} (h : Held workers mtx)
    (hsame : ∀ w, (workers' w).holds = (workers w).holds) : Held workers' mtx :=
  held_iff.mpr ((held_iff.mp h).congr hsame)

theorem holds_update_of_ne {v : Fin n} (hv : v ≠ w) :
    (Function.update workers w stage v).holds = (workers v).holds :=
  congrArg Stage.holds (Function.update_of_ne hv ..)

theorem Held.keep (h : Held workers mtx) (hstage : stage.holds = (workers w).holds) :
    Held (Function.update workers w stage) mtx := by
  apply h.congr
  intro v
  by_cases hv : v = w
  · subst hv
    rw [Function.update_self, hstage]
  · exact holds_update_of_ne hv

theorem Held.acquire (h : Held workers none) (hstage : stage.holds = true) :
    Held (Function.update workers w stage) (some (.worker w)) := by
  refine held_iff.mpr ((held_iff.mp h).acquire worker_injective rfl ?_ ?_)
  · rw [Function.update_self]
    exact hstage
  · intro v hv
    exact holds_update_of_ne hv

theorem Held.release (h : Held workers mtx) (hheld : (workers w).holds = true)
    (hstage : stage.holds = false) : Held (Function.update workers w stage) none := by
  refine held_iff.mpr ((held_iff.mp h).release worker_injective hheld ?_ ?_)
  · rw [Function.update_self]
    exact hstage
  · intro v hv
    exact holds_update_of_ne hv

/-- A thread that is no worker takes the mutex or releases it. -/
theorem Held.other {mtx' : Option (Holder n τ)} (h : Held workers mtx)
    (hmtx : ∀ w, mtx ≠ some (.worker w)) (hmtx' : ∀ w, mtx' ≠ some (.worker w)) :
    Held workers mtx' := held_iff.mpr ((held_iff.mp h).other hmtx hmtx')

end Mutex

/-- What holds in every run. -/
structure Sound {n : ℕ} {τ : Type*} (s : Pool n τ) : Prop where
  held : Held s.workers s.queueMtx
  stopped : s.running = false ↔ s.shutdown ≠ .notCalled
  /-- A worker that has left the wait finds a task, or the pool is stopped. -/
  ready : ∀ w, s.workers w = .leaving → s.taskQueue ≠ [] ∨ s.running = false
  joined : ∀ k, s.shutdown = .joining k → k ≤ n

namespace Sound

variable {n : ℕ} {τ : Type*} {s t : Pool n τ} {w : Fin n}

theorem init (pushes : List (Push τ)) : Sound (Pool.init n pushes) := by
  refine ⟨?_, ?_, ?_, ?_⟩
  · intro w
    exact iff_of_false Bool.false_ne_true nofun
  · simp [Pool.init]
  · intro w hw
    cases hw
  · intro k hk
    cases hk

/-- The other workers are not in a stage with the mutex. -/
theorem not_leaving_of_ne {v : Fin n} (h : Sound s) (hw : (s.workers w).holds = true)
    (hv : v ≠ w) : s.workers v ≠ .leaving := by
  intro hleaving
  have hheld : (s.workers v).holds = true := by
    rw [hleaving]
    rfl
  have heq := ((h.held v).mp hheld).symm.trans ((h.held w).mp hw)
  cases heq
  exact hv rfl

theorem wakeWorkers_holds (v : Fin n) :
    (s.wakeWorkers.workers v).holds = (s.workers v).holds := by
  simp only [Pool.wakeWorkers]
  split
  · rename_i hasleep
    rw [hasleep]
    rfl
  · rfl

theorem wakeWorkers_leaving {v : Fin n} (hv : s.wakeWorkers.workers v = .leaving) :
    s.workers v = .leaving := by
  simp only [Pool.wakeWorkers] at hv
  split at hv
  · cases hv
  · exact hv

/-- A worker goes on without touching the mutex. -/
theorem move (h : Sound s) {stage : Stage τ} (hholds : stage.holds = (s.workers w).holds)
    (hready : stage = .leaving → s.taskQueue ≠ [] ∨ s.running = false) :
    Sound (s.setWorker w stage) := by
  refine ⟨h.held.keep hholds, h.stopped, ?_, h.joined⟩
  intro v hv
  by_cases hvw : v = w
  · subst hvw
    rw [Pool.setWorker_self] at hv
    exact hready hv
  · rw [Pool.setWorker_of_ne s hvw] at hv
    exact h.ready v hv

/-- A worker with the mutex gives it back, and may have taken a task. -/
theorem release (h : Sound s) (hheld : (s.workers w).holds = true) {stage : Stage τ}
    (hholds : stage.holds = false) (tasks : List τ) :
    Sound ({ s with taskQueue := tasks, queueMtx := none }.setWorker w stage) := by
  refine ⟨h.held.release hheld hholds, h.stopped, ?_, h.joined⟩
  intro v hv
  by_cases hvw : v = w
  · subst hvw
    rw [Pool.setWorker_self] at hv
    rw [hv] at hholds
    cases hholds
  · rw [Pool.setWorker_of_ne _ hvw] at hv
    exact absurd hv (h.not_leaving_of_ne hheld hvw)

theorem works (h : Sound s) (hworks : s.Works w t) : Sound t := by
  cases hworks with
  | stop hstage hstopped => exact h.move (by rw [hstage]; rfl) nofun
  | loop hstage hrunning => exact h.move (by rw [hstage]; rfl) nofun
  | acquire hstage hfree =>
    have hheld := h.held
    rw [hfree] at hheld
    refine ⟨hheld.acquire rfl, h.stopped, ?_, h.joined⟩
    intro v hv
    by_cases hvw : v = w
    · subst hvw
      rw [Pool.setWorker_self] at hv
      cases hv
    · rw [Pool.setWorker_of_ne _ hvw] at hv
      exact h.ready v hv
  | pass hstage hpred => exact h.move (by rw [hstage]; rfl) fun _ => hpred
  | block hstage hrunning => exact h.move (by rw [hstage]; rfl) nofun
  | sleep hstage => exact h.release (by rw [hstage]; rfl) rfl s.taskQueue
  | finish hstage hstopped => exact h.release (by rw [hstage]; rfl) rfl s.taskQueue
  | take hstage hqueue => exact h.release (by rw [hstage]; rfl) rfl _
  | execute hstage => exact h.move (by rw [hstage]; rfl) nofun

theorem wakeWorkers (h : Sound s) : Sound s.wakeWorkers :=
  ⟨h.held.congr wakeWorkers_holds, h.stopped, fun v hv => h.ready v (wakeWorkers_leaving hv),
    h.joined⟩

theorem step {a : Action n} (h : Sound s) (hnext : s.next a = some t) : Sound t := by
  cases Pool.next_steps hnext with
  | work hworks => exact h.works hworks
  | spurious hstage => exact h.move (by rw [hstage]; rfl) nofun
  | push hincoming hfree =>
    exact ⟨h.held.other (by simp [hfree]) (by simp), h.stopped, h.ready, h.joined⟩
  | emplace hheld hcount =>
    refine ⟨h.held.other (by simp [hheld]) (by simp), h.stopped, ?_, h.joined⟩
    intro v hv
    refine (h.ready v hv).imp ?_ id
    intro hqueue happend
    exact hqueue (List.append_eq_nil_iff.mp happend).1
  | notifyOne hpending hstage =>
    have hsame : Sound { s with notifyOnes := s.notifyOnes - 1 } :=
      ⟨h.held, h.stopped, h.ready, h.joined⟩
    exact hsame.move (by rw [hstage]; rfl) nofun
  | notifyNobody hpending => exact ⟨h.held, h.stopped, h.ready, h.joined⟩
  | notifyAll hpending =>
    have hsame : Sound { s with notifyAlls := s.notifyAlls - 1 } :=
      ⟨h.held, h.stopped, h.ready, h.joined⟩
    exact hsame.wakeWorkers
  | store hrunning =>
    refine ⟨h.held, by simp, fun _ _ => Or.inr rfl, ?_⟩
    intro k hk
    cases hk
  | wakeAll hstored =>
    have hstopped : s.running = false := h.stopped.mpr (by rw [hstored]; simp)
    have hsame : Sound { s with shutdown := .joining 0 } := by
      refine ⟨h.held, iff_of_true hstopped (by simp), h.ready, ?_⟩
      intro k hk
      cases hk
      exact Nat.zero_le n
    exact hsame.wakeWorkers
  | @join k hjoining hk hexited =>
    have hstopped : s.running = false := h.stopped.mpr (by rw [hjoining]; simp)
    refine ⟨h.held, iff_of_true hstopped (by simp), h.ready, ?_⟩
    intro k' hk'
    cases hk'
    exact hk

theorem reachable {pushes : List (Push τ)} {allowed : Pool n τ → Action n → Prop}
    (hs : Reachable (machine n pushes) allowed s) : Sound s :=
  hs.invariant (init pushes) fun _ _ _ h _ hnext => h.step hnext

end Sound

/-- When shutdown notifies, no worker is between its predicate and its sleep. -/
def AwakeAtNotify {n : ℕ} {τ : Type*} (s : Pool n τ) : Action n → Prop
  | .wakeAll => ∀ w, s.workers w ≠ .blocking
  | _ => True

instance {n : ℕ} {τ : Type*} [DecidableEq τ] (s : Pool n τ) (a : Action n) :
    Decidable (AwakeAtNotify s a) := by
  cases a
  case wakeAll => exact inferInstanceAs (Decidable (∀ w, s.workers w ≠ .blocking))
  all_goals exact isTrue trivial

section Ending

variable {n : ℕ} {τ : Type*} {s t : Pool n τ} {w : Fin n}

/-- The steps that a worker has before it ends, once the pool is stopped. -/
def Stage.rank : Stage τ → ℕ
  | .exited => 0
  | .testing => 1
  | .executing _ => 2
  | .leaving => 3
  | .evaluating => 4
  | .locking => 5
  | .woken => 5
  | .asleep => 6
  | .blocking => 7

/-- A call that has the mutex has two steps left. -/
def mutexRank : Option (Holder n τ) → ℕ
  | some (.pusher _) => 2
  | _ => 0

def joinRank (n : ℕ) : Shutdown → ℕ
  | .joining k => n - k
  | _ => n

/-- The steps that are left in a stopped pool: of the workers, of the calls of
push_task and push_batch, and of shutdown. -/
def Pool.left (s : Pool n τ) : ℕ :=
  ∑ w, (s.workers w).rank + 3 * s.incoming.length + mutexRank s.queueMtx + s.notifyOnes +
    s.notifyAlls + joinRank n s.shutdown

theorem sum_rank_setWorker {stage : Stage τ} (h : stage.rank < (s.workers w).rank) :
    ∑ v, ((s.setWorker w stage).workers v).rank < ∑ v, (s.workers v).rank := by
  refine Finset.sum_lt_sum ?_ ⟨w, Finset.mem_univ w, by rwa [Pool.setWorker_self]⟩
  intro v _
  by_cases hv : v = w
  · subst hv
    rw [Pool.setWorker_self]
    omega
  · rw [Pool.setWorker_of_ne s hv]

/-- The pool is stopped, its workers were notified and none of them sleeps. -/
structure Roused (s : Pool n τ) : Prop where
  sound : Sound s
  joining : ∃ k, s.shutdown = .joining k
  awake : ∀ w, s.workers w ≠ .asleep ∧ s.workers w ≠ .blocking

namespace Roused

theorem stopped (h : Roused s) : s.running = false := by
  obtain ⟨k, hk⟩ := h.joining
  exact h.sound.stopped.mpr (by rw [hk]; simp)

theorem wakeWorkers_eq (h : Roused s) : s.wakeWorkers = s := by
  have hworkers : s.wakeWorkers.workers = s.workers := by
    funext w
    simp only [Pool.wakeWorkers]
    split
    · rename_i hasleep
      exact absurd hasleep (h.awake w).1
    · rfl
  show { s with workers := s.wakeWorkers.workers } = s
  rw [hworkers]

theorem awake_setWorker (h : Roused s) {stage : Stage τ} (hasleep : stage ≠ .asleep)
    (hblocking : stage ≠ .blocking) (v : Fin n) :
    (s.setWorker w stage).workers v ≠ .asleep ∧ (s.setWorker w stage).workers v ≠ .blocking := by
  by_cases hv : v = w
  · subst hv
    rw [Pool.setWorker_self]
    exact ⟨hasleep, hblocking⟩
  · rw [Pool.setWorker_of_ne s hv]
    exact h.awake v

/-- A worker of a stopped pool does not wait again, and comes closer to its end. -/
theorem works (h : Roused s) (hworks : s.Works w t) :
    (∀ v, t.workers v ≠ .asleep ∧ t.workers v ≠ .blocking) ∧
      t.left < s.left := by
  have hless : ∀ {stage : Stage τ} {mtx : Option (Holder n τ)}, stage.rank < (s.workers w).rank →
      mutexRank mtx ≤ mutexRank s.queueMtx →
      ({ s with queueMtx := mtx }.setWorker w stage).left < s.left := by
    intro stage mtx hrank hmtx
    have hsum := sum_rank_setWorker hrank
    simp only [Pool.left, Pool.setWorker] at hsum ⊢
    omega
  cases hworks with
  | stop hstage hstopped =>
    refine ⟨h.awake_setWorker nofun nofun, ?_⟩
    exact hless (by simp [hstage, Stage.rank]) (le_refl _)
  | loop hstage hrunning => cases hrunning.symm.trans h.stopped
  | acquire hstage hfree =>
    refine ⟨h.awake_setWorker nofun nofun, hless ?_ (Nat.zero_le _)⟩
    rcases hstage with hstage | hstage
    · simp [hstage, Stage.rank]
    · simp [hstage, Stage.rank]
  | pass hstage hpred =>
    refine ⟨h.awake_setWorker nofun nofun, ?_⟩
    exact hless (by simp [hstage, Stage.rank]) (le_refl _)
  | block hstage hrunning => cases hrunning.symm.trans h.stopped
  | sleep hstage => exact absurd hstage (h.awake w).2
  | finish hstage hstopped =>
    refine ⟨h.awake_setWorker nofun nofun, ?_⟩
    exact hless (by simp [hstage, Stage.rank]) (Nat.zero_le _)
  | take hstage hqueue =>
    refine ⟨h.awake_setWorker nofun nofun, ?_⟩
    exact hless (by simp [hstage, Stage.rank]) (Nat.zero_le _)
  | execute hstage =>
    refine ⟨h.awake_setWorker nofun nofun, ?_⟩
    exact hless (by simp [hstage, Stage.rank]) (le_refl _)

/-- Every step of a roused pool leaves it roused, and there are fewer left. -/
theorem step {a : Action n} (h : Roused s) (hnext : s.next a = some t) :
    Roused t ∧ t.left < s.left := by
  have hsound := h.sound.step hnext
  cases Pool.next_steps hnext with
  | work hworks =>
    obtain ⟨hawake, hless⟩ := h.works hworks
    have hjoining := h.joining
    rw [← hworks.shutdown_eq] at hjoining
    exact ⟨⟨hsound, hjoining, hawake⟩, hless⟩
  | spurious hstage => exact absurd hstage (h.awake _).1
  | push hincoming hfree =>
    refine ⟨⟨hsound, h.joining, h.awake⟩, ?_⟩
    simp only [Pool.left, hincoming, hfree, List.length_cons, mutexRank]
    omega
  | emplace hheld hcount =>
    refine ⟨⟨hsound, h.joining, h.awake⟩, ?_⟩
    simp only [Pool.left, hheld, mutexRank]
    omega
  | notifyOne hpending hstage => exact absurd hstage (h.awake _).1
  | notifyNobody hpending =>
    refine ⟨⟨hsound, h.joining, h.awake⟩, ?_⟩
    simp only [Pool.left]
    omega
  | notifyAll hpending =>
    have hsame : Roused { s with notifyAlls := s.notifyAlls - 1 } :=
      ⟨⟨h.sound.held, h.sound.stopped, h.sound.ready, h.sound.joined⟩, h.joining, h.awake⟩
    rw [hsame.wakeWorkers_eq]
    refine ⟨hsame, ?_⟩
    simp only [Pool.left]
    omega
  | store hrunning => cases hrunning.symm.trans h.stopped
  | wakeAll hstored =>
    obtain ⟨k, hk⟩ := h.joining
    cases hstored.symm.trans hk
  | join hjoining hk hexited =>
    refine ⟨⟨hsound, ⟨_, rfl⟩, h.awake⟩, ?_⟩
    simp only [Pool.left, hjoining, joinRank]
    omega

/-- A worker that is not waiting for the mutex can go on. -/
theorem work_isSome (h : Roused s) (hexited : s.workers w ≠ .exited)
    (hmtx : (s.workers w).holds = true ∨ s.queueMtx = none) : (s.work w).isSome = true := by
  have hawake := h.awake w
  have hready := h.sound.ready w
  unfold Pool.work
  split
  · rfl
  · rename_i hstage
    rw [hstage] at hmtx
    simp [hmtx.resolve_left nofun]
  · rename_i hstage
    rw [hstage] at hmtx
    simp [hmtx.resolve_left nofun]
  · rfl
  · rfl
  · rename_i hstage
    exact absurd hstage hawake.1
  · split
    · rfl
    · rename_i hdone
      split
      · rename_i hqueue
        simp [h.stopped, hqueue] at hdone
      · rfl
  · rfl
  · rename_i hstage
    exact absurd hstage hexited

/-- As long as shutdown waits for a worker there is a step to take. -/
theorem can_step (h : Roused s) (hjoining : s.shutdown ≠ .joining n) :
    ∃ a t, s.next a = some t := by
  obtain ⟨k, hk⟩ := h.joining
  have hlt : k < n := by
    have hle := h.sound.joined k hk
    rw [hk] at hjoining
    have hne : k ≠ n := fun heq => hjoining (heq ▸ rfl)
    omega
  have hwork : ∀ w, (s.work w).isSome = true → ∃ a t, s.next a = some t := by
    intro w hw
    obtain ⟨t, ht⟩ := Option.isSome_iff_exists.mp hw
    exact ⟨.work w, t, ht⟩
  by_cases hexited : s.workers ⟨k, hlt⟩ = .exited
  · refine ⟨.join, { s with shutdown := .joining (k + 1) }, ?_⟩
    simp only [Pool.next, hk, hlt, hexited, dif_pos]
  · -- The worker goes on, or whoever has the mutex does.
    cases hmtx : s.queueMtx with
    | none => exact hwork _ (h.work_isSome hexited (Or.inr hmtx))
    | some holder =>
      cases holder with
      | worker v =>
        have hheld : (s.workers v).holds = true := (h.sound.held v).mpr hmtx
        refine hwork v (h.work_isSome ?_ (Or.inl hheld))
        intro hout
        rw [hout] at hheld
        cases hheld
      | pusher push =>
        cases push with
        | task t => exact ⟨.emplace, _, by simp only [Pool.next, hmtx]; rfl⟩
        | batch tasks => exact ⟨.emplace, _, by simp only [Pool.next, hmtx]; rfl⟩

/-- In a run in which nobody is about to sleep when shutdown notifies, nobody
sleeps after that. -/
theorem reachable {pushes : List (Push τ)} (hs : Reachable (machine n pushes) AwakeAtNotify s)
    (hjoining : ∃ k, s.shutdown = .joining k) : Roused s := by
  refine hs.invariant_of_reachable (P := fun s => (∃ k, s.shutdown = .joining k) → Roused s)
    ?_ ?_ hjoining
  · intro ⟨k, hk⟩
    cases hk
  · intro s a t hreach h hallowed hnext hjoining
    by_cases hbefore : ∃ k, s.shutdown = .joining k
    · exact ((h hbefore).step hnext).1
    · have hsound := (Sound.reachable hreach).step hnext
      cases Pool.next_steps hnext with
      | wakeAll hstored =>
        refine ⟨hsound, hjoining, ?_⟩
        intro w
        simp only [Pool.wakeWorkers]
        split
        · exact ⟨nofun, nofun⟩
        · rename_i hawake
          exact ⟨hawake, hallowed w⟩
      | work hworks => exact absurd (hworks.shutdown_eq ▸ hjoining) hbefore
      | store hrunning =>
        obtain ⟨k, hk⟩ := hjoining
        cases hk
      | join hbegun hk hexited => exact absurd ⟨_, hbegun⟩ hbefore
      | _ => exact absurd hjoining hbefore

end Roused

end Ending

/-- In a run in which no worker is between its predicate and its sleep when
shutdown notifies, none is asleep from then on, and whatever happens all workers
are joined. -/
theorem shutdown_completes {τ : Type*} (n : ℕ) (pushes : List (Push τ)) (s : Pool n τ)
    (hs : Reachable (machine n pushes) AwakeAtNotify s) (k : ℕ)
    (hjoining : s.shutdown = .joining k) :
    (∀ w, s.workers w ≠ .asleep) ∧
      Inevitable (machine n pushes) (fun t => t.shutdown = .joining n) s := by
  have hroused := Roused.reachable hs ⟨k, hjoining⟩
  refine ⟨fun w => (hroused.awake w).1, ?_⟩
  exact .of_measure Pool.left (fun s a t h hnext => h.step hnext) (fun s h => h.can_step) hroused

section Samples

/-- Shutdown while the only worker is executing a task and another one waits. -/
theorem shutdown_completes_sample :
    ∃ s : Pool 1 String, Reachable (machine 1 [.batch ["first", "second"]]) AwakeAtNotify s ∧
      s.shutdown = .joining 0 ∧ s.taskQueue = ["second"] ∧
      Inevitable (machine 1 [.batch ["first", "second"]]) (fun t => t.shutdown = .joining 1) s := by
  have hrun : (run (machine 1 [.batch ["first", "second"]]) AwakeAtNotify
      (Pool.init 1 [.batch ["first", "second"]])
      [.push, .emplace, .notifyAll, .work 0, .work 0, .work 0, .work 0, .store, .wakeAll]).any
      (fun s => s.shutdown = .joining 0 ∧ s.taskQueue = ["second"]) := by
    decide +kernel
  obtain ⟨s, hs, hjoining, hqueue⟩ := exists_reachable hrun
  exact ⟨s, hs, hjoining, hqueue, (shutdown_completes 1 _ s hs 0 hjoining).2⟩

/-- The store and the notification come between the predicate of the only
worker and its sleep. It is not woken unless for no reason, and shutdown waits. -/
theorem wakeup_lost :
    ∃ s : Pool 1 String, Reachable (machine 1 []) AnyStep s ∧ s.shutdown = .joining 0 ∧
      s.workers 0 = .asleep ∧ ∀ a t, s.next a = some t → a = .spurious 0 := by
  have hrun : (run (machine 1 ([] : List (Push String))) AnyStep (Pool.init 1 [])
      [.work 0, .work 0, .work 0, .store, .wakeAll, .work 0]).any (fun s =>
      s.shutdown = .joining 0 ∧ s.workers 0 = .asleep ∧ s.incoming = [] ∧ s.queueMtx = none ∧
        s.running = false ∧ s.notifyOnes = 0 ∧ s.notifyAlls = 0) := by
    decide +kernel
  obtain ⟨s, hs, hjoining, hasleep, hincoming, hfree, hstopped, hones, halls⟩ :=
    exists_reachable hrun
  refine ⟨s, hs, hjoining, hasleep, ?_⟩
  intro a t hnext
  cases Pool.next_steps hnext with
  | @work w _ hworks =>
    obtain rfl := Subsingleton.elim w 0
    have hstuck : s.work 0 = none := by
      simp only [Pool.work, hasleep]
    exact absurd hnext (by simp [Pool.next, hstuck])
  | @spurious w hstage => rw [Subsingleton.elim w 0]
  | push hcall _ => simp [hincoming] at hcall
  | emplace hheld hcount => simp [hfree] at hheld
  | notifyOne hpending _ => omega
  | notifyNobody hpending => omega
  | notifyAll hpending => omega
  | store hrunning => simp [hstopped] at hrunning
  | wakeAll hstored => simp [hjoining] at hstored
  | join hjoining' hk hexited =>
    simp [Subsingleton.elim (_ : Fin 1) 0, hasleep] at hexited

end Samples

end ChatServer.ThreadPool
