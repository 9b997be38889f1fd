import ChatServer.Lib.Runs

/-!
Endless executions of a machine, with the rule for what happens in the end. At every
time a step is taken or nothing happens. Each step is one of a process, and an execution
is fair to a process that cannot be ready for ever without taking a step. Progress is
shown with a measure and, in each state, one process that helps: its steps make the
measure smaller, and the steps of the others do not take its help away.
-/
namespace ChatServer.Lib.Fairness

open Lib.Runs

variable {σ α π : Type*} {M : Machine σ α}

/-- The states at all times, and the steps taken from them. -/
structure Execution (M : Machine σ α) where
  state : ℕ → σ
  label : ℕ → Option α
  next : ∀ n, (label n).elim (state (n + 1) = state n) fun a =>
    M.next (state n) a = some (state (n + 1))

/-- A step of the process can be taken. -/
def Ready (M : Machine σ α) (process : α → π) (p : π) (s : σ) : Prop :=
  ∃ a t, process a = p ∧ M.next s a = some t

/-- The process takes a step or is not ready, again and again. -/
def Fair (e : Execution M) (process : α → π) (p : π) : Prop :=
  ∀ n, ∃ m, n ≤ m ∧
    ((∃ a, e.label m = some a ∧ process a = p) ∨ ¬ Ready M process p (e.state m))

namespace Execution

variable (e : Execution M)

theorem next_eq {n : ℕ} {a : α} (h : e.label n = some a) :
    M.next (e.state n) a = some (e.state (n + 1)) := by
  have hnext := e.next n
  rw [h] at hnext
  exact hnext

theorem stays {n : ℕ} (h : e.label n = none) : e.state (n + 1) = e.state n := by
  have hnext := e.next n
  rw [h] at hnext
  exact hnext

theorem reachable (hstart : Reachable M AnyStep (e.state 0)) (n : ℕ) :
    Reachable M AnyStep (e.state n) := by
  induction n with
  | zero => exact hstart
  | succ n ih =>
    cases hlabel : e.label n with
    | none =>
      rw [e.stays hlabel]
      exact ih
    | some a => exact ih.step trivial (e.next_eq hlabel)

end Execution

section Progress

variable {process : α → π} {P goal : σ → Prop} {helper : σ → π} (measure : σ → ℕ)

/-- As long as nothing gets better the same process helps, and takes no step. -/
theorem helper_stays {e : Execution M}
    (hstep : ∀ s a t, P s → M.next s a = some t → goal t ∨ P t ∧
      (measure t < measure s ∨
        measure t = measure s ∧ helper t = helper s ∧ process a ≠ helper s))
    {n : ℕ} (h : P (e.state n))
    (hno : ∀ k, n ≤ k → ¬ goal (e.state k) ∧
      ¬ (P (e.state k) ∧ measure (e.state k) < measure (e.state n))) (d : ℕ) :
    (P (e.state (n + d)) ∧ measure (e.state (n + d)) = measure (e.state n) ∧
      helper (e.state (n + d)) = helper (e.state n)) ∧
    ∀ a, e.label (n + d) = some a → process a ≠ helper (e.state n) := by
  have hkeeps : ∀ k, n ≤ k → P (e.state k) → measure (e.state k) = measure (e.state n) →
      ∀ a, e.label k = some a → P (e.state (k + 1)) ∧
        measure (e.state (k + 1)) = measure (e.state n) ∧
        helper (e.state (k + 1)) = helper (e.state k) ∧ process a ≠ helper (e.state k) := by
    intro k hk hP hmeasure a hlabel
    obtain ⟨hgoal, hless⟩ := hno (k + 1) (by omega)
    obtain hdone | ⟨hafter, hwhich⟩ := hstep _ a _ hP (e.next_eq hlabel)
    · exact absurd hdone hgoal
    · obtain hdown | ⟨hlevel, hhelps, hother⟩ := hwhich
      · exact absurd ⟨hafter, hmeasure ▸ hdown⟩ hless
      · exact ⟨hafter, hlevel.trans hmeasure, hhelps, hother⟩
  have hstate : P (e.state (n + d)) ∧ measure (e.state (n + d)) = measure (e.state n) ∧
      helper (e.state (n + d)) = helper (e.state n) := by
    induction d with
    | zero => exact ⟨h, rfl, rfl⟩
    | succ d ih =>
      obtain ⟨hP, hmeasure, hhelper⟩ := ih
      rw [← Nat.add_assoc]
      cases hlabel : e.label (n + d) with
      | none =>
        rw [e.stays hlabel]
        exact ⟨hP, hmeasure, hhelper⟩
      | some a =>
        obtain ⟨hafter, hlevel, hhelps, -⟩ := hkeeps (n + d) (by omega) hP hmeasure a hlabel
        exact ⟨hafter, hlevel, hhelps.trans hhelper⟩
  refine ⟨hstate, fun a hlabel => ?_⟩
  rw [← hstate.2.2]
  exact (hkeeps (n + d) (by omega) hstate.1 hstate.2.1 a hlabel).2.2.2

/-- Fairness to the helper brings the goal or a smaller measure. -/
theorem progress {e : Execution M} (hfair : ∀ p, (∃ s, P s ∧ helper s = p) → Fair e process p)
    (hcan : ∀ s, P s → ¬ goal s → Ready M process (helper s) s)
    (hstep : ∀ s a t, P s → M.next s a = some t → goal t ∨ P t ∧
      (measure t < measure s ∨
        measure t = measure s ∧ helper t = helper s ∧ process a ≠ helper s))
    {n : ℕ} (h : P (e.state n)) :
    ∃ m, n ≤ m ∧
      (goal (e.state m) ∨ P (e.state m) ∧ measure (e.state m) < measure (e.state n)) := by
  by_contra hnever
  have hno : ∀ k, n ≤ k → ¬ goal (e.state k) ∧
      ¬ (P (e.state k) ∧ measure (e.state k) < measure (e.state n)) := by
    intro k hk
    exact not_or.mp fun hsome => hnever ⟨k, hk, hsome⟩
  obtain ⟨m, hle, hturn⟩ := hfair (helper (e.state n)) ⟨_, h, rfl⟩ n
  obtain ⟨d, rfl⟩ := Nat.exists_eq_add_of_le hle
  obtain ⟨⟨hP, -, hhelper⟩, hothers⟩ := helper_stays measure hstep h hno d
  obtain ⟨a, hlabel, ha⟩ | hstuck := hturn
  · exact hothers a hlabel ha
  · rw [← hhelper] at hstuck
    exact hstuck (hcan _ hP (hno _ hle).1)

variable (P goal helper) in
/-- The goal is reached in every execution that is fair to those who help. -/
theorem eventually {e : Execution M} (hfair : ∀ p, (∃ s, P s ∧ helper s = p) → Fair e process p)
    (hcan : ∀ s, P s → ¬ goal s → Ready M process (helper s) s)
    (hstep : ∀ s a t, P s → M.next s a = some t → goal t ∨ P t ∧
      (measure t < measure s ∨
        measure t = measure s ∧ helper t = helper s ∧ process a ≠ helper s))
    {n : ℕ} (h : P (e.state n)) : ∃ m, n ≤ m ∧ goal (e.state m) := by
  induction hk : measure (e.state n) using Nat.strongRecOn generalizing n with
  | ind k ih =>
    obtain ⟨m, hle, hgoal | ⟨hP, hless⟩⟩ := progress measure hfair hcan hstep h
    · exact ⟨m, hle, hgoal⟩
    · obtain ⟨l, hlater, hgoal⟩ := ih _ (hk ▸ hless) hP rfl
      exact ⟨l, Nat.le_trans hle hlater, hgoal⟩

end Progress

section Finite

/-- A run that has ended goes on for ever without a step. -/
theorem exists_execution {s t : σ} {as : List α} (hrun : run M AnyStep s as = some t) :
    ∃ e : Execution M, ∀ n, run M AnyStep s (as.take n) = some (e.state n) := by
  induction as generalizing s with
  | nil =>
    refine ⟨⟨fun _ => t, fun _ => none, fun _ => rfl⟩, fun n => ?_⟩
    rw [List.take_nil]
    exact hrun
  | cons a rest ih =>
    obtain ⟨-, hrun⟩ := Option.ite_none_right_eq_some.mp hrun
    obtain ⟨u, hnext, hrest⟩ := Option.bind_eq_some_iff.mp hrun
    obtain ⟨e, hstates⟩ := ih hrest
    have hstart : e.state 0 = u := (Option.some.inj (hstates 0)).symm
    refine ⟨⟨fun n => n.casesOn s e.state, fun n => n.casesOn (some a) e.label, ?_⟩, ?_⟩
    · intro n
      cases n with
      | zero =>
        show M.next s a = some (e.state 0)
        rw [hstart]
        exact hnext
      | succ n => exact e.next n
    · intro n
      cases n with
      | zero => rfl
      | succ n =>
        have hfirst : run M AnyStep s (a :: rest.take n) = run M AnyStep u (rest.take n) := by
          rw [run, if_pos (show AnyStep s a from trivial), hnext]
          rfl
        exact hfirst.trans (hstates n)

/-- It is fair to those who are not ready at its end. -/
theorem fair_of_run {e : Execution M} {process : α → π} {p : π} {s t : σ} {as : List α}
    (hstates : ∀ n, run M AnyStep s (as.take n) = some (e.state n))
    (hrun : run M AnyStep s as = some t) (h : ¬ Ready M process p t) : Fair e process p := by
  intro n
  refine ⟨n + as.length, Nat.le_add_right _ _, Or.inr ?_⟩
  have hlast := hstates (n + as.length)
  rw [List.take_of_length_le (Nat.le_add_left _ _), hrun] at hlast
  rw [← Option.some.inj hlast]
  exact h

end Finite

end ChatServer.Lib.Fairness
