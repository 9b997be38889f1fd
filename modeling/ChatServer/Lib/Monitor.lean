import Mathlib.Algebra.BigOperators.Group.Finset.Piecewise
import ChatServer.Lib.Mutex
import ChatServer.Lib.Runs

/-!
Data behind a mutex with a condition variable. Any number of callers change the
data: each locks the mutex, makes its change, unlocks the mutex and then
notifies. One waiter waits until the data is ready and takes something of it.
The wait evaluates its predicate with the mutex, releases the mutex and falls asleep
in one step, may wake up for no reason, and locks the mutex again before it
evaluates the predicate once more. A log has the critical sections in the order
in which they were: the data is what they lead to one after the other. The waiter
does not sleep over data that is ready unless a caller has yet to notify.
-/
namespace ChatServer.Lib.Monitor

open Runs

/-- What the mutex guards. -/
structure Guarded (σ A R : Type*) where
  init : σ
  change : A → σ → σ
  /-- The predicate of the wait. -/
  ready : σ → Bool
  /-- What the waiter does after the wait; nothing where that is undefined. -/
  take : σ → Option (σ × R)

inductive Caller (A : Type*)
  | idle
  | locking (a : A)
  /-- With the mutex. -/
  | changing (a : A)
  /-- With the mutex, when the change is made. -/
  | unlocking
  /-- Without the mutex, before the notify. -/
  | notifying
deriving DecidableEq

inductive Waiter (R : Type*)
  | idle
  | locking
  /-- With the mutex, at the predicate. -/
  | evaluating
  /-- With the mutex; the predicate was false, and the wait is about to block. -/
  | blocking
  | asleep
  /-- Notified, or woken for no reason, and without the mutex. -/
  | woken
  /-- With the mutex, after the wait. -/
  | taking
  /-- With the mutex and the result. -/
  | leaving (r : R)
deriving DecidableEq

def Caller.holds {A : Type*} : Caller A → Bool
  | .changing _ => true
  | .unlocking => true
  | _ => false

/-- The caller has made its change and has yet to notify. -/
def Caller.owes {A : Type*} : Caller A → Bool
  | .unlocking => true
  | .notifying => true
  | _ => false

def Waiter.holds {R : Type*} : Waiter R → Bool
  | .evaluating => true
  | .blocking => true
  | .taking => true
  | .leaving _ => true
  | _ => false

/-- With a single waiter, notify_one and notify_all do the same. -/
def Waiter.notified {R : Type*} : Waiter R → Waiter R
  | .asleep => .woken
  | stage => stage

inductive Holder (W : Type*)
  | waiter
  | caller (w : W)
deriving DecidableEq

/-- A critical section. -/
inductive Entry (A R : Type*)
  | changed (a : A)
  | took (r : R)
deriving DecidableEq

structure State (W σ A R : Type*) where
  data : σ
  mutex : Option (Holder W)
  waiter : Waiter R
  callers : W → Caller A
  log : List (Entry A R)

inductive Action (W A : Type*)
  | call (w : W) (a : A)
  | lock (w : W)
  | change (w : W)
  | unlock (w : W)
  | notify (w : W)
  | wait
  | waiterLock
  | evaluate
  | sleep
  | spurious
  | take
  | leave
deriving DecidableEq

variable {W σ A R : Type*} [DecidableEq W]

namespace State

def init (G : Guarded σ A R) : State W σ A R := ⟨G.init, none, .idle, fun _ => .idle, []⟩

def setCaller (s : State W σ A R) (w : W) (stage : Caller A) : State W σ A R :=
  { s with callers := Function.update s.callers w stage }

def next (G : Guarded σ A R) (s : State W σ A R) : Action W A → Option (State W σ A R)
  | .call w a =>
      match s.callers w with
      | .idle => some (s.setCaller w (.locking a))
      | _ => none
  | .lock w =>
      match s.callers w, s.mutex with
      | .locking a, none =>
          some ({ s with mutex := some (.caller w) }.setCaller w (.changing a))
      | _, _ => none
  | .change w =>
      match s.callers w with
      | .changing a =>
          some ({ s with
            data := G.change a s.data
            log := s.log ++ [Entry.changed a] }.setCaller w .unlocking)
      | _ => none
  | .unlock w =>
      match s.callers w with
      | .unlocking => some ({ s with mutex := none }.setCaller w .notifying)
      | _ => none
  | .notify w =>
      match s.callers w with
      | .notifying => some ({ s with waiter := s.waiter.notified }.setCaller w .idle)
      | _ => none
  | .wait =>
      match s.waiter with
      | .idle => some { s with waiter := .locking }
      | _ => none
  | .waiterLock =>
      match s.waiter, s.mutex with
      | .locking, none => some { s with mutex := some .waiter, waiter := .evaluating }
      | .woken, none => some { s with mutex := some .waiter, waiter := .evaluating }
      | _, _ => none
  | .evaluate =>
      match s.waiter with
      | .evaluating => some { s with waiter := if G.ready s.data then .taking else .blocking }
      | _ => none
  | .sleep =>
      match s.waiter with
      | .blocking => some { s with mutex := none, waiter := .asleep }
      | _ => none
  | .spurious =>
      match s.waiter with
      | .asleep => some { s with waiter := .woken }
      | _ => none
  | .take =>
      match s.waiter with
      | .taking => (G.take s.data).map fun taken =>
          { s with data := taken.1, waiter := .leaving taken.2, log := s.log ++ [.took taken.2] }
      | _ => none
  | .leave =>
      match s.waiter with
      | .leaving _ => some { s with mutex := none, waiter := .idle }
      | _ => none

/-- What a step can do. -/
inductive Moves (G : Guarded σ A R) (s : State W σ A R) : State W σ A R → Prop
  | call {w : W} {a : A} (hstage : s.callers w = .idle) : Moves G s (s.setCaller w (.locking a))
  | lock {w : W} {a : A} (hstage : s.callers w = .locking a) (hfree : s.mutex = none) :
      Moves G s ({ s with mutex := some (.caller w) }.setCaller w (.changing a))
  | change {w : W} {a : A} (hstage : s.callers w = .changing a) :
      Moves G s ({ s with
        data := G.change a s.data
        log := s.log ++ [Entry.changed a] }.setCaller w .unlocking)
  | unlock {w : W} (hstage : s.callers w = .unlocking) :
      Moves G s ({ s with mutex := none }.setCaller w .notifying)
  | notify {w : W} (hstage : s.callers w = .notifying) :
      Moves G s ({ s with waiter := s.waiter.notified }.setCaller w .idle)
  | wait (hstage : s.waiter = .idle) : Moves G s { s with waiter := .locking }
  | waiterLock (hstage : s.waiter = .locking ∨ s.waiter = .woken) (hfree : s.mutex = none) :
      Moves G s { s with mutex := some .waiter, waiter := .evaluating }
  | pass (hstage : s.waiter = .evaluating) (hready : G.ready s.data = true) :
      Moves G s { s with waiter := .taking }
  | block (hstage : s.waiter = .evaluating) (hready : G.ready s.data = false) :
      Moves G s { s with waiter := .blocking }
  | sleep (hstage : s.waiter = .blocking) : Moves G s { s with mutex := none, waiter := .asleep }
  | spurious (hstage : s.waiter = .asleep) : Moves G s { s with waiter := .woken }
  | take {d : σ} {r : R} (hstage : s.waiter = .taking) (htake : G.take s.data = some (d, r)) :
      Moves G s { s with data := d, waiter := .leaving r, log := s.log ++ [.took r] }
  | leave {r : R} (hstage : s.waiter = .leaving r) :
      Moves G s { s with mutex := none, waiter := .idle }

end State

def machine (G : Guarded σ A R) : Machine (State W σ A R) (Action W A) :=
  ⟨.init G, State.next G⟩

variable {G : Guarded σ A R} {s t : State W σ A R}

theorem next_moves (a : Action W A) (h : s.next G a = some t) : s.Moves G t := by
  cases a with
  | call w a =>
    simp only [State.next] at h
    split at h
    · rename_i hstage
      exact Option.some.inj h ▸ .call hstage
    · cases h
  | lock w =>
    simp only [State.next] at h
    split at h
    · rename_i hstage hfree
      exact Option.some.inj h ▸ .lock hstage hfree
    · cases h
  | change w =>
    simp only [State.next] at h
    split at h
    · rename_i hstage
      exact Option.some.inj h ▸ .change hstage
    · cases h
  | unlock w =>
    simp only [State.next] at h
    split at h
    · rename_i hstage
      exact Option.some.inj h ▸ .unlock hstage
    · cases h
  | notify w =>
    simp only [State.next] at h
    split at h
    · rename_i hstage
      exact Option.some.inj h ▸ .notify hstage
    · cases h
  | wait =>
    simp only [State.next] at h
    split at h
    · rename_i hstage
      exact Option.some.inj h ▸ .wait hstage
    · cases h
  | waiterLock =>
    simp only [State.next] at h
    split at h
    · rename_i hstage hfree
      exact Option.some.inj h ▸ .waiterLock (Or.inl hstage) hfree
    · rename_i hstage hfree
      exact Option.some.inj h ▸ .waiterLock (Or.inr hstage) hfree
    · cases h
  | evaluate =>
    simp only [State.next] at h
    split at h
    · rename_i hstage
      cases hready : G.ready s.data with
      | true =>
        rw [hready] at h
        exact Option.some.inj h ▸ .pass hstage hready
      | false =>
        rw [hready] at h
        exact Option.some.inj h ▸ .block hstage hready
    · cases h
  | sleep =>
    simp only [State.next] at h
    split at h
    · rename_i hstage
      exact Option.some.inj h ▸ .sleep hstage
    · cases h
  | spurious =>
    simp only [State.next] at h
    split at h
    · rename_i hstage
      exact Option.some.inj h ▸ .spurious hstage
    · cases h
  | take =>
    simp only [State.next] at h
    split at h
    · rename_i hstage
      obtain ⟨⟨d, r⟩, htake, rfl⟩ := Option.map_eq_some_iff.mp h
      exact .take hstage htake
    · cases h
  | leave =>
    simp only [State.next] at h
    split at h
    · rename_i hstage
      exact Option.some.inj h ▸ .leave hstage
    · cases h

section Exclusion

def State.holds (s : State W σ A R) : Holder W → Bool
  | .waiter => s.waiter.holds
  | .caller w => (s.callers w).holds

/-- Only the holder of the mutex is where a thread has the mutex. -/
def Exclusive (s : State W σ A R) : Prop := Mutex.Exclusive id s.holds s.mutex

theorem callers_setCaller (s : State W σ A R) (w v : W) (stage : Caller A) :
    (s.setCaller w stage).callers v = if v = w then stage else s.callers v :=
  Function.update_apply ..

theorem holds_setCaller_of_ne {h : Holder W} {w : W} {stage : Caller A}
    (hne : h ≠ .caller w) : (s.setCaller w stage).holds h = s.holds h := by
  cases h with
  | waiter => rfl
  | caller v =>
    have hv : v ≠ w := fun heq => hne (congrArg Holder.caller heq)
    exact congrArg Caller.holds (Function.update_of_ne hv _ _)

theorem holds_setCaller_self (s : State W σ A R) (w : W) (stage : Caller A) :
    (s.setCaller w stage).holds (.caller w) = stage.holds :=
  congrArg Caller.holds (Function.update_self ..)

/-- A caller that goes on without touching the mutex. -/
theorem holds_setCaller_same {w : W} {stage : Caller A}
    (hsame : stage.holds = (s.callers w).holds) (h : Holder W) :
    (s.setCaller w stage).holds h = s.holds h := by
  by_cases hh : h = .caller w
  · subst hh
    exact (holds_setCaller_self ..).trans hsame
  · exact holds_setCaller_of_ne hh

omit [DecidableEq W] in
theorem holds_of_ne_waiter {h : Holder W} (hcallers : t.callers = s.callers)
    (hne : h ≠ .waiter) : t.holds h = s.holds h := by
  cases h with
  | waiter => exact absurd rfl hne
  | caller w => exact congrArg (fun callers => (callers w).holds) hcallers

omit [DecidableEq W] in
/-- The waiter goes on without touching the mutex. -/
theorem holds_waiter_same (hcallers : t.callers = s.callers)
    (hsame : t.waiter.holds = s.waiter.holds) (h : Holder W) : t.holds h = s.holds h := by
  by_cases hh : h = .waiter
  · subst hh
    exact hsame
  · exact holds_of_ne_waiter hcallers hh

omit [DecidableEq W] in
theorem holds_notified (s : State W σ A R) (h : Holder W) :
    ({ s with waiter := s.waiter.notified } : State W σ A R).holds h = s.holds h := by
  cases h with
  | waiter =>
    change s.waiter.notified.holds = s.waiter.holds
    cases s.waiter <;> rfl
  | caller w => rfl

theorem Exclusive.step (hs : Exclusive s) (hmoves : s.Moves G t) : Exclusive t := by
  cases hmoves with
  | call hstage =>
    exact hs.congr (holds_setCaller_same (congrArg Caller.holds hstage).symm)
  | lock hstage hfree =>
    exact hs.acquire Function.injective_id hfree (holds_setCaller_self ..)
      fun k hk => holds_setCaller_of_ne hk
  | change hstage =>
    exact hs.congr (holds_setCaller_same (congrArg Caller.holds hstage).symm)
  | @unlock w hstage =>
    exact hs.release (i := .caller w) Function.injective_id (congrArg Caller.holds hstage)
      (holds_setCaller_self ..) fun k hk => holds_setCaller_of_ne hk
  | notify hstage =>
    refine hs.congr ?_
    intro h
    refine (holds_setCaller_same ?_ h).trans (holds_notified s h)
    exact (congrArg Caller.holds hstage).symm
  | wait hstage => exact hs.congr (holds_waiter_same rfl (congrArg Waiter.holds hstage).symm)
  | waiterLock hstage hfree =>
    exact hs.acquire Function.injective_id hfree rfl fun k hk => holds_of_ne_waiter rfl hk
  | pass hstage _ => exact hs.congr (holds_waiter_same rfl (congrArg Waiter.holds hstage).symm)
  | block hstage _ => exact hs.congr (holds_waiter_same rfl (congrArg Waiter.holds hstage).symm)
  | sleep hstage =>
    exact hs.release (i := .waiter) Function.injective_id (congrArg Waiter.holds hstage) rfl
      fun k hk => holds_of_ne_waiter rfl hk
  | spurious hstage =>
    exact hs.congr (holds_waiter_same rfl (congrArg Waiter.holds hstage).symm)
  | take hstage _ => exact hs.congr (holds_waiter_same rfl (congrArg Waiter.holds hstage).symm)
  | leave hstage =>
    exact hs.release (i := .waiter) Function.injective_id (congrArg Waiter.holds hstage) rfl
      fun k hk => holds_of_ne_waiter rfl hk

omit [DecidableEq W] in
/-- Where a caller has the mutex, the waiter has not. -/
theorem waiter_holds_of_caller {w : W} (hs : Exclusive s) (hheld : (s.callers w).holds = true) :
    s.waiter.holds = false := by
  refine Bool.eq_false_iff.mpr ?_
  intro hwaiter
  have hsame : Holder.caller w = .waiter := hs.unique Function.injective_id hheld hwaiter
  cases hsame

end Exclusion

section Soundness

/-- What the critical sections make of the data when one is run after the other. -/
inductive Replays (G : Guarded σ A R) : List (Entry A R) → σ → Prop
  | nil : Replays G [] G.init
  | changed {log : List (Entry A R)} {d : σ} (a : A) (h : Replays G log d) :
      Replays G (log ++ [.changed a]) (G.change a d)
  | took {log : List (Entry A R)} {d d' : σ} {r : R} (h : Replays G log d)
      (hready : G.ready d = true) (htake : G.take d = some (d', r)) :
      Replays G (log ++ [.took r]) d'

structure Sound (G : Guarded σ A R) (s : State W σ A R) : Prop where
  exclusive : Exclusive s
  replays : Replays G s.log s.data
  taking : s.waiter = .taking → G.ready s.data = true
  blocking : s.waiter = .blocking → G.ready s.data = false
  result : ∀ r, s.waiter = .leaving r → ∃ before, s.log = before ++ [.took r]
  attended : s.waiter = .asleep → G.ready s.data = true → ∃ w, (s.callers w).owes = true

namespace Sound

omit [DecidableEq W] in
theorem init (G : Guarded σ A R) : Sound G (.init G : State W σ A R) where
  exclusive h := by cases h <;> simp [State.holds, State.init, Waiter.holds, Caller.holds]
  replays := .nil
  taking h := by cases h
  blocking h := by cases h
  result r h := by cases h
  attended h := by cases h

/-- Nothing is said of a waiter at one of these stages. -/
def resting : Waiter R → Bool
  | .idle => true
  | .locking => true
  | .evaluating => true
  | .woken => true
  | _ => false

omit [DecidableEq W] in
/-- A step that does not touch the data. -/
theorem frame (h : Sound G s) (hexclusive : Exclusive t) (hdata : t.data = s.data)
    (hlog : t.log = s.log) (hwaiter : resting t.waiter = true ∨ t.waiter = s.waiter ∧
      (s.waiter = .asleep → ∀ w, (s.callers w).owes = true → (t.callers w).owes = true)) :
    Sound G t := by
  have hreplays : Replays G t.log t.data := by
    rw [hdata, hlog]
    exact h.replays
  rcases hwaiter with hresting | ⟨hsame, howes⟩
  · refine ⟨hexclusive, hreplays, ?_, ?_, ?_, ?_⟩
    · intro hstage
      simp [hstage, resting] at hresting
    · intro hstage
      simp [hstage, resting] at hresting
    · intro r hstage
      simp [hstage, resting] at hresting
    · intro hstage
      simp [hstage, resting] at hresting
  · refine ⟨hexclusive, hreplays, ?_, ?_, ?_, ?_⟩
    · rw [hsame, hdata]
      exact h.taking
    · rw [hsame, hdata]
      exact h.blocking
    · rw [hsame, hlog]
      exact h.result
    · rw [hsame, hdata]
      intro hstage hready
      obtain ⟨w, hw⟩ := h.attended hstage hready
      exact ⟨w, howes hstage w hw⟩

/-- A caller that goes on still owes its notify if it did. -/
theorem owes_setCaller {w v : W} {stage : Caller A} (hv : (s.callers v).owes = true)
    (hstage : (s.callers w).owes = true → stage.owes = true) :
    ((s.setCaller w stage).callers v).owes = true := by
  rw [callers_setCaller]
  split
  · rename_i heq
    exact hstage (heq ▸ hv)
  · exact hv

/-- A change is followed by a notify. -/
theorem change {w : W} {a : A} (h : Sound G s) (hexclusive : Exclusive (({ s with
      data := G.change a s.data
      log := s.log ++ [Entry.changed a] } : State W σ A R).setCaller w .unlocking))
    (hstage : s.callers w = .changing a) :
    Sound G (({ s with
      data := G.change a s.data
      log := s.log ++ [Entry.changed a] } : State W σ A R).setCaller w .unlocking) := by
  have hwaiter : s.waiter.holds = false :=
    waiter_holds_of_caller h.exclusive (congrArg Caller.holds hstage)
  refine ⟨hexclusive, .changed a h.replays, ?_, ?_, ?_, ?_⟩
  · intro htaking
    cases hwaiter.symm.trans (congrArg Waiter.holds htaking)
  · intro hblocking
    cases hwaiter.symm.trans (congrArg Waiter.holds hblocking)
  · intro r hleaving
    cases hwaiter.symm.trans (congrArg Waiter.holds hleaving)
  · intro _ _
    refine ⟨w, ?_⟩
    rw [callers_setCaller, if_pos rfl]
    rfl

theorem step (h : Sound G s) (hmoves : s.Moves G t) : Sound G t := by
  have hexclusive := h.exclusive.step hmoves
  cases hmoves with
  | call hstage =>
    refine h.frame hexclusive rfl rfl (Or.inr ⟨rfl, fun _ v hv => owes_setCaller hv ?_⟩)
    simp [hstage, Caller.owes]
  | lock hstage _ =>
    refine h.frame hexclusive rfl rfl (Or.inr ⟨rfl, fun _ v hv => owes_setCaller hv ?_⟩)
    simp [hstage, Caller.owes]
  | change hstage => exact h.change hexclusive hstage
  | unlock hstage =>
    exact h.frame hexclusive rfl rfl (Or.inr ⟨rfl, fun _ v hv => owes_setCaller hv fun _ => rfl⟩)
  | @notify w hstage =>
    -- A waiter that was asleep is awake; for another one nothing has changed.
    refine h.frame hexclusive rfl rfl ?_
    by_cases hasleep : s.waiter = .asleep
    · refine Or.inl ?_
      change resting s.waiter.notified = true
      rw [hasleep]
      rfl
    · refine Or.inr ⟨?_, fun heq => absurd heq hasleep⟩
      change s.waiter.notified = s.waiter
      cases hwaiter : s.waiter with
      | asleep => exact absurd hwaiter hasleep
      | _ => rfl
  | wait _ => exact h.frame hexclusive rfl rfl (Or.inl rfl)
  | waiterLock _ _ => exact h.frame hexclusive rfl rfl (Or.inl rfl)
  | pass _ hready =>
    exact ⟨hexclusive, h.replays, fun _ => hready, nofun, nofun, nofun⟩
  | block _ hready =>
    exact ⟨hexclusive, h.replays, nofun, fun _ => hready, nofun, nofun⟩
  | sleep hstage =>
    refine ⟨hexclusive, h.replays, nofun, nofun, nofun, ?_⟩
    intro _ hready
    cases hready.symm.trans (h.blocking hstage)
  | spurious _ => exact h.frame hexclusive rfl rfl (Or.inl rfl)
  | @take d r hstage htake =>
    refine ⟨hexclusive, .took h.replays (h.taking hstage) htake, nofun, nofun, ?_, nofun⟩
    intro r' hleaving
    cases hleaving
    exact ⟨s.log, rfl⟩
  | leave _ => exact h.frame hexclusive rfl rfl (Or.inl rfl)

end Sound

theorem sound {allowed : State W σ A R → Action W A → Prop}
    (hs : Reachable (machine G) allowed s) : Sound G s :=
  hs.invariant (P := Sound G) (Sound.init G) fun _ a _ h _ hnext => h.step (next_moves a hnext)

/-- A map of the data that respects what the critical sections do. -/
theorem Replays.map {τ : Type*} {H : Guarded τ A R} {f : σ → τ} (hinit : f G.init = H.init)
    (hchange : ∀ a d, f (G.change a d) = H.change a (f d))
    (hready : ∀ d, H.ready (f d) = G.ready d)
    (htake : ∀ d, H.take (f d) = (G.take d).map (Prod.map f id)) {log : List (Entry A R)} {d : σ}
    (h : Replays G log d) : Replays H log (f d) := by
  induction h with
  | nil => exact hinit ▸ .nil
  | changed a _ ih => exact hchange a _ ▸ .changed a ih
  | took _ hd hresult ih =>
    refine .took ih ((hready _).trans hd) ?_
    rw [htake, hresult]
    rfl

end Soundness

section Progress

/-- The steps of the calls and of the wait that are under way. -/
def Action.continues : Action W A → Bool
  | .call _ _ => false
  | .wait => false
  | .spurious => false
  | _ => true

omit [DecidableEq W] in
theorem Caller.eq_of_holds {stage : Caller A} (h : stage.holds = true) :
    (∃ a, stage = .changing a) ∨ stage = .unlocking := by
  cases stage with
  | changing a => exact Or.inl ⟨a, rfl⟩
  | unlocking => exact Or.inr rfl
  | _ => cases h

/-- A caller that has the mutex goes on. -/
theorem caller_moves {w : W} (hheld : (s.callers w).holds = true) :
    ∃ a, a.continues = true ∧ (s.next G a).isSome = true := by
  rcases Caller.eq_of_holds hheld with ⟨a, hstage⟩ | hstage
  · exact ⟨.change w, rfl, by simp [State.next, hstage]⟩
  · exact ⟨.unlock w, rfl, by simp [State.next, hstage]⟩

/-- A waiter that has the mutex goes on. -/
theorem waiter_moves (h : Sound G s) (htake : ∀ d, G.ready d = true → (G.take d).isSome = true)
    (hheld : s.waiter.holds = true) :
    ∃ a : Action W A, a.continues = true ∧ (s.next G a).isSome = true := by
  cases hstage : s.waiter with
  | evaluating => exact ⟨.evaluate, rfl, by simp [State.next, hstage]⟩
  | blocking => exact ⟨.sleep, rfl, by simp [State.next, hstage]⟩
  | taking =>
    have hsome := htake s.data (h.taking hstage)
    exact ⟨.take, rfl, by simp [State.next, hstage, hsome]⟩
  | leaving r => exact ⟨.leave, rfl, by simp [State.next, hstage]⟩
  | _ => simp [hstage, Waiter.holds] at hheld

theorem holder_moves (h : Sound G s) (htake : ∀ d, G.ready d = true → (G.take d).isSome = true)
    (hheld : s.mutex ≠ none) : ∃ a, a.continues = true ∧ (s.next G a).isSome = true := by
  obtain ⟨holder, hholder⟩ := Option.ne_none_iff_exists'.mp hheld
  have hholds : s.holds holder = true := (h.exclusive holder).mpr hholder
  cases holder with
  | waiter => exact waiter_moves h htake hholds
  | caller w => exact caller_moves hholds

/-- As long as a call is under way, or a wait that does not sleep over data that is not
ready, something can go on. -/
theorem Sound.progress (h : Sound G s)
    (htake : ∀ d, G.ready d = true → (G.take d).isSome = true)
    (hbusy : (∃ w, s.callers w ≠ .idle) ∨
      s.waiter ≠ .idle ∧ (s.waiter = .asleep → G.ready s.data = true)) :
    ∃ a, a.continues = true ∧ (s.next G a).isSome = true := by
  by_cases hmutex : s.mutex = none
  · have hcaller : ∀ w, s.callers w ≠ .idle →
        ∃ a, a.continues = true ∧ (s.next G a).isSome = true := by
      intro w hw
      cases hstage : s.callers w with
      | idle => exact absurd hstage hw
      | locking a => exact ⟨.lock w, rfl, by simp [State.next, hstage, hmutex]⟩
      | notifying => exact ⟨.notify w, rfl, by simp [State.next, hstage]⟩
      | changing a => exact caller_moves (w := w) (by rw [hstage]; rfl)
      | unlocking => exact caller_moves (w := w) (by rw [hstage]; rfl)
    rcases hbusy with ⟨w, hw⟩ | ⟨hwaiter, hready⟩
    · exact hcaller w hw
    · cases hstage : s.waiter with
      | idle => exact absurd hstage hwaiter
      | locking => exact ⟨.waiterLock, rfl, by simp [State.next, hstage, hmutex]⟩
      | woken => exact ⟨.waiterLock, rfl, by simp [State.next, hstage, hmutex]⟩
      | asleep =>
        -- Some caller has yet to notify, and this one goes on.
        obtain ⟨w, hw⟩ := h.attended hstage (hready hstage)
        refine hcaller w ?_
        intro hidle
        rw [hidle] at hw
        cases hw
      | evaluating => exact waiter_moves h htake (by rw [hstage]; rfl)
      | blocking => exact waiter_moves h htake (by rw [hstage]; rfl)
      | taking => exact waiter_moves h htake (by rw [hstage]; rfl)
      | leaving r => exact waiter_moves h htake (by rw [hstage]; rfl)
  · exact holder_moves h htake hmutex

/-- Going on starts neither a call nor a wait. -/
theorem starts_nothing {a : Action W A} (ha : a.continues = true ∨ a = .spurious)
    (hnext : s.next G a = some t) :
    (∀ w c, t.callers w = .locking c → s.callers w = .locking c) ∧
      (s.waiter = .idle → t.waiter = .idle) := by
  have hcall : ∀ {w : W} {stage : Caller A} {u : State W σ A R}, (∀ c, stage ≠ .locking c) →
      u.callers = s.callers →
      ∀ v c, (u.setCaller w stage).callers v = .locking c → s.callers v = .locking c := by
    intro w stage u hstage hsame v c hv
    rw [callers_setCaller] at hv
    split at hv
    · exact absurd hv (hstage c)
    · rwa [hsame] at hv
  cases a with
  | call w c => simp [Action.continues] at ha
  | wait => simp [Action.continues] at ha
  | lock w =>
    simp only [State.next] at hnext
    split at hnext
    · cases hnext
      exact ⟨hcall (fun _ heq => by cases heq) rfl, id⟩
    · cases hnext
  | change w =>
    simp only [State.next] at hnext
    split at hnext
    · cases hnext
      exact ⟨hcall (fun _ heq => by cases heq) rfl, id⟩
    · cases hnext
  | unlock w =>
    simp only [State.next] at hnext
    split at hnext
    · cases hnext
      exact ⟨hcall (fun _ heq => by cases heq) rfl, id⟩
    · cases hnext
  | notify w =>
    simp only [State.next] at hnext
    split at hnext
    · cases hnext
      refine ⟨hcall (fun _ heq => by cases heq) rfl, ?_⟩
      intro hidle
      change s.waiter.notified = .idle
      rw [hidle]
      rfl
    · cases hnext
  | waiterLock =>
    simp only [State.next] at hnext
    split at hnext
    · rename_i hstage _
      cases hnext
      exact ⟨fun _ _ => id, fun hidle => by cases hidle.symm.trans hstage⟩
    · rename_i hstage _
      cases hnext
      exact ⟨fun _ _ => id, fun hidle => by cases hidle.symm.trans hstage⟩
    · cases hnext
  | evaluate =>
    simp only [State.next] at hnext
    split at hnext
    · rename_i hstage
      cases hnext
      exact ⟨fun _ _ => id, fun hidle => by cases hidle.symm.trans hstage⟩
    · cases hnext
  | sleep =>
    simp only [State.next] at hnext
    split at hnext
    · rename_i hstage
      cases hnext
      exact ⟨fun _ _ => id, fun hidle => by cases hidle.symm.trans hstage⟩
    · cases hnext
  | spurious =>
    simp only [State.next] at hnext
    split at hnext
    · rename_i hstage
      cases hnext
      exact ⟨fun _ _ => id, fun hidle => by cases hidle.symm.trans hstage⟩
    · cases hnext
  | take =>
    simp only [State.next] at hnext
    split at hnext
    · rename_i hstage
      obtain ⟨taken, -, rfl⟩ := Option.map_eq_some_iff.mp hnext
      exact ⟨fun _ _ => id, fun hidle => by cases hidle.symm.trans hstage⟩
    · cases hnext
  | leave =>
    simp only [State.next] at hnext
    split at hnext
    · rename_i hstage
      cases hnext
      exact ⟨fun _ _ => id, fun hidle => by cases hidle.symm.trans hstage⟩
    · cases hnext

/-- Going on wakes the waiter only by a notify. -/
theorem wakes_by_notify {a : Action W A} (ha : a.continues = true) (hnext : s.next G a = some t)
    (hasleep : s.waiter = .asleep) :
    t.waiter = .asleep ∨ ∃ w, s.callers w = .notifying ∧ t.callers w = .idle := by
  cases a with
  | notify w =>
    simp only [State.next] at hnext
    split at hnext
    · rename_i hstage
      cases hnext
      exact Or.inr ⟨w, hstage, Function.update_self ..⟩
    · cases hnext
  | call w a => cases ha
  | wait => cases ha
  | spurious => cases ha
  | lock w =>
    simp only [State.next] at hnext
    split at hnext
    · cases hnext
      exact Or.inl hasleep
    · cases hnext
  | change w =>
    simp only [State.next] at hnext
    split at hnext
    · cases hnext
      exact Or.inl hasleep
    · cases hnext
  | unlock w =>
    simp only [State.next] at hnext
    split at hnext
    · cases hnext
      exact Or.inl hasleep
    · cases hnext
  | waiterLock => simp [State.next, hasleep] at hnext
  | evaluate => simp [State.next, hasleep] at hnext
  | sleep => simp [State.next, hasleep] at hnext
  | take => simp [State.next, hasleep] at hnext
  | leave => simp [State.next, hasleep] at hnext

/-- What the callers cost altogether, when one of them goes on. -/
theorem sum_setCaller [Fintype W] (cost : Caller A → ℕ) (s : State W σ A R) (w : W)
    (stage : Caller A) :
    ∑ v, cost ((s.setCaller w stage).callers v) + cost (s.callers w) =
      ∑ v, cost (s.callers v) + cost stage := by
  have hupdate : (fun v => cost ((s.setCaller w stage).callers v)) =
      Function.update (fun v => cost (s.callers v)) w (cost stage) := by
    funext v
    rw [callers_setCaller, Function.update_apply]
    split <;> rfl
  have hsplit := Finset.sum_erase_add Finset.univ (fun v => cost (s.callers v))
    (Finset.mem_univ w)
  rw [hupdate, Finset.sum_update_of_mem (Finset.mem_univ w), Finset.sdiff_singleton_eq_erase,
    ← hsplit]
  omega

end Progress

end ChatServer.Lib.Monitor
