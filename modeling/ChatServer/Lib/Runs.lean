import Mathlib.Data.List.Induction
import Mathlib.Data.Option.Basic

/-!
Runs of a machine that takes labelled steps. A step is a partial function of
the state and the label, so everything that is not determined by the state
is part of the label. The states reached by the runs that take only allowed
steps are an inductive predicate, with one induction rule for invariants.
For steps that can always be taken there is a rule that tells exactly which
runs keep a property. Last, what happens in the end whatever steps are taken,
with the rule of a measure that every step makes smaller.
-/
namespace ChatServer.Lib.Runs

/-- `next s a` is nothing when the step `a` cannot be taken in `s`. -/
structure Machine (σ α : Type*) where
  init : σ
  next : σ → α → Option σ

variable {σ α : Type*}

/-- The states at the end of a run whose steps are all allowed. -/
inductive Reachable (M : Machine σ α) (allowed : σ → α → Prop) : σ → Prop
  | init : Reachable M allowed M.init
  | step {s t : σ} {a : α} (hs : Reachable M allowed s) (ha : allowed s a)
      (hnext : M.next s a = some t) : Reachable M allowed t

/-- Every step is allowed. -/
def AnyStep (_ : σ) (_ : α) : Prop := True

instance (s : σ) (a : α) : Decidable (AnyStep s a) := isTrue trivial

namespace Reachable

variable {M : Machine σ α} {allowed : σ → α → Prop}

/-- What holds initially and is kept by every allowed step holds throughout. -/
theorem invariant {P : σ → Prop} (hinit : P M.init)
    (hstep : ∀ s a t, P s → allowed s a → M.next s a = some t → P t) {s : σ}
    (hs : Reachable M allowed s) : P s := by
  induction hs with
  | init => exact hinit
  | step _ ha hnext ih => exact hstep _ _ _ ih ha hnext

/-- The same, for a step that also starts in a state known to be reachable. -/
theorem invariant_of_reachable {P : σ → Prop} (hinit : P M.init)
    (hstep : ∀ s a t, Reachable M allowed s → P s → allowed s a → M.next s a = some t → P t)
    {s : σ} (hs : Reachable M allowed s) : P s := by
  induction hs with
  | init => exact hinit
  | step hreach ha hnext ih => exact hstep _ _ _ hreach ih ha hnext

theorem mono {allowed' : σ → α → Prop} (hallowed : ∀ s a, allowed s a → allowed' s a) {s : σ}
    (hs : Reachable M allowed s) : Reachable M allowed' s := by
  induction hs with
  | init => exact .init
  | step _ ha hnext ih => exact ih.step (hallowed _ _ ha) hnext

end Reachable

/-- The state after the listed steps, if all of them are allowed and can be taken. -/
def run (M : Machine σ α) (allowed : σ → α → Prop) [∀ s a, Decidable (allowed s a)] (s : σ) :
    List α → Option σ
  | [] => some s
  | a :: rest => if allowed s a then (M.next s a).bind fun t => run M allowed t rest else none

theorem reachable_of_run {M : Machine σ α} {allowed : σ → α → Prop}
    [∀ s a, Decidable (allowed s a)] {s t : σ} {as : List α} (hs : Reachable M allowed s)
    (h : run M allowed s as = some t) : Reachable M allowed t := by
  induction as generalizing s with
  | nil =>
    cases h
    exact hs
  | cons a rest ih =>
    simp only [run, Option.ite_none_right_eq_some] at h
    obtain ⟨ha, hrun⟩ := h
    obtain ⟨u, hnext, hrest⟩ := Option.bind_eq_some_iff.mp hrun
    exact ih (.step hs ha hnext) hrest

/-- What a run from the start was seen to lead to is reachable. -/
theorem exists_reachable {M : Machine σ α} {allowed : σ → α → Prop}
    [∀ s a, Decidable (allowed s a)] {P : σ → Prop} {_ : DecidablePred P} {as : List α}
    (h : (run M allowed M.init as).any (fun s => P s) = true) :
    ∃ s, Reachable M allowed s ∧ P s := by
  obtain ⟨s, hrun, hs⟩ := (Option.any_eq_true _ _).mp h
  exact ⟨s, reachable_of_run .init hrun, of_decide_eq_true hs⟩

/-- Machines whose steps can be taken together, and keep their states related,
can make the same runs. -/
theorem run_related {τ : Type*} {M : Machine σ α} {N : Machine τ α} {R : σ → τ → Prop}
    (hstep : ∀ s t a, R s t → Option.Rel R (M.next s a) (N.next t a)) {s : σ} {t : τ}
    (h : R s t) (as : List α) : Option.Rel R (run M AnyStep s as) (run N AnyStep t as) := by
  induction as generalizing s t with
  | nil => exact .some h
  | cons a rest ih =>
    rw [run, run, if_pos (show AnyStep s a from trivial), if_pos (show AnyStep t a from trivial)]
    have hnext := hstep s t a h
    generalize M.next s a = u at hnext ⊢
    generalize N.next t a = v at hnext ⊢
    cases hnext with
    | some hlater => exact ih hlater
    | none => exact .none

/-- If in the states of an invariant a step of kind `K` keeps `P` exactly under
the condition `Q`, then `P` holds throughout a run of such steps exactly if
each of them meets the condition. -/
theorem throughout_iff {f : σ → α → σ} {K : α → Prop} {I P : σ → Prop} {Q : σ → α → Prop}
    (hinv : ∀ s a, K a → I s → I (f s a))
    (hstep : ∀ s a, K a → I s → P s → (P (f s a) ↔ Q s a))
    {s : σ} (hs : I s) (hP : P s) {as : List α} (has : ∀ a ∈ as, K a) :
    (∀ done, done <+: as → P (done.foldl f s)) ↔
      ∀ done a, done ++ [a] <+: as → Q (done.foldl f s) a := by
  have hkind : ∀ {done a}, done ++ [a] <+: as → done <+: as ∧ K a := fun hdone =>
    ⟨(List.prefix_append _ _).trans hdone, has _ (hdone.subset (by simp))⟩
  have hI : ∀ done, done <+: as → I (done.foldl f s) := by
    intro done hdone
    induction done using List.reverseRecOn with
    | nil => exact hs
    | append_singleton done a ih =>
      obtain ⟨hbefore, ha⟩ := hkind hdone
      simpa using hinv _ a ha (ih hbefore)
  constructor
  · intro hall done a hdone
    obtain ⟨hbefore, ha⟩ := hkind hdone
    have hafter : P (f (done.foldl f s) a) := by simpa using hall _ hdone
    exact (hstep _ a ha (hI done hbefore) (hall done hbefore)).mp hafter
  · intro hall done hdone
    induction done using List.reverseRecOn with
    | nil => exact hP
    | append_singleton done a ih =>
      obtain ⟨hbefore, ha⟩ := hkind hdone
      simpa using (hstep _ a ha (hI done hbefore) (ih hbefore)).mpr (hall done a hdone)

/-- Whatever steps are taken the goal is reached, and before that there is a
step to take. -/
inductive Inevitable (M : Machine σ α) (goal : σ → Prop) : σ → Prop
  | now {s : σ} (h : goal s) : Inevitable M goal s
  | later {s : σ} (hcan : ∃ a t, M.next s a = some t)
      (h : ∀ a t, M.next s a = some t → Inevitable M goal t) : Inevitable M goal s

theorem Inevitable.of_measure {M : Machine σ α} {goal P : σ → Prop} (measure : σ → ℕ)
    (hstep : ∀ s a t, P s → M.next s a = some t → P t ∧ measure t < measure s)
    (hcan : ∀ s, P s → ¬ goal s → ∃ a t, M.next s a = some t) {s : σ} (hs : P s) :
    Inevitable M goal s := by
  induction hm : measure s using Nat.strongRecOn generalizing s with
  | ind m ih =>
    by_cases hgoal : goal s
    · exact .now hgoal
    · refine .later (hcan s hs hgoal) ?_
      intro a t hnext
      obtain ⟨ht, hless⟩ := hstep s a t hs hnext
      exact ih (measure t) (hm ▸ hless) ht rfl

end ChatServer.Lib.Runs
