import Mathlib.Data.List.Pairwise
import Mathlib.Logic.Function.Basic

/-!
Jobs that wait in a line and are taken from its front by workers. If every
job comes after all the jobs that are there when it joins, then the jobs that
are held come before the jobs that wait, and any two held jobs are in order.
A log takes in a part of one job after the other. A relation between its
entries is kept as long as it holds between the entries of the job that is
taken in and those of the jobs that are still ahead.
-/
namespace ChatServer.Lib.WorkQueue

structure Pool (W J : Type*) where
  line : List J
  held : W → Option J

variable {W J : Type*} [DecidableEq W] {before : J → J → Prop} {p : Pool W J} {w : W} {j : J}
  {jobs rest : List J}

namespace Pool

def Has (p : Pool W J) (j : J) : Prop := j ∈ p.line ∨ ∃ w, p.held w = some j

/-- New jobs go to the end of the line. -/
def join (p : Pool W J) (jobs : List J) : Pool W J := { p with line := p.line ++ jobs }

/-- The job at the front goes to a worker, and these are left. -/
def take (p : Pool W J) (w : W) (j : J) (rest : List J) : Pool W J :=
  ⟨rest, Function.update p.held w (some j)⟩

def release (p : Pool W J) (w : W) : Pool W J := { p with held := Function.update p.held w none }

omit [DecidableEq W] in
theorem has_join {k : J} : (p.join jobs).Has k ↔ p.Has k ∨ k ∈ jobs := by
  simp only [Has, join, List.mem_append]
  exact or_right_comm

theorem held_take {v : W} {k : J} (hv : (p.take w j rest).held v = some k) :
    (v = w ∧ k = j) ∨ (v ≠ w ∧ p.held v = some k) := by
  change Function.update p.held w (some j) v = some k at hv
  rw [Function.update_apply] at hv
  split at hv
  · rename_i heq
    exact .inl ⟨heq, (Option.some.inj hv).symm⟩
  · rename_i hne
    exact .inr ⟨hne, hv⟩

theorem held_release {v : W} {k : J} (hv : (p.release w).held v = some k) :
    v ≠ w ∧ p.held v = some k := by
  change Function.update p.held w none v = some k at hv
  rw [Function.update_apply] at hv
  split at hv
  · cases hv
  · rename_i hne
    exact ⟨hne, hv⟩

theorem Has.of_take {k : J} (hk : (p.take w j rest).Has k) (hline : p.line = j :: rest) :
    p.Has k := by
  rcases hk with hk | ⟨v, hv⟩
  · exact .inl (hline ▸ List.mem_cons_of_mem j hk)
  · rcases held_take hv with ⟨_, rfl⟩ | ⟨_, hv⟩
    · exact .inl (hline ▸ List.mem_cons_self)
    · exact .inr ⟨v, hv⟩

theorem Has.of_release {k : J} (hk : (p.release w).Has k) : p.Has k :=
  hk.imp_right fun ⟨v, hv⟩ => ⟨v, (held_release hv).2⟩

/-- A job that is taken stays in the pool. -/
theorem Has.take {k : J} (hk : p.Has k) (hline : p.line = j :: rest) (hidle : p.held w = none) :
    (p.take w j rest).Has k := by
  rcases hk with hk | ⟨v, hv⟩
  · rcases List.mem_cons.mp (hline ▸ hk) with rfl | hk
    · exact .inr ⟨w, Function.update_self _ _ _⟩
    · exact .inl hk
  · have hne : v ≠ w := by
      intro heq
      cases hidle.symm.trans (heq ▸ hv)
    exact .inr ⟨v, (Function.update_of_ne hne _ _).trans hv⟩

theorem Has.release {k : J} (hk : p.Has k) (w : W) : (p.release w).Has k ∨ p.held w = some k := by
  rcases hk with hk | ⟨v, hv⟩
  · exact .inl (.inl hk)
  · by_cases heq : v = w
    · exact .inr (heq ▸ hv)
    · exact .inl (.inr ⟨v, (Function.update_of_ne heq _ _).trans hv⟩)

structure Ordered (before : J → J → Prop) (p : Pool W J) : Prop where
  line : p.line.Pairwise before
  front : ∀ w j, p.held w = some j → ∀ k ∈ p.line, before j k
  apart : ∀ v w j k, v ≠ w → p.held v = some j → p.held w = some k → before j k ∨ before k j

namespace Ordered

omit [DecidableEq W] in
theorem join (h : p.Ordered before) (hjobs : jobs.Pairwise before)
    (hlater : ∀ j, p.Has j → ∀ k ∈ jobs, before j k) : (p.join jobs).Ordered before where
  line := List.pairwise_append.mpr ⟨h.line, hjobs, fun j hj => hlater j (.inl hj)⟩
  front := by
    intro w j hj k hk
    rcases List.mem_append.mp hk with hk | hk
    · exact h.front w j hj k hk
    · exact hlater j (.inr ⟨w, hj⟩) k hk
  apart := h.apart

theorem take (h : p.Ordered before) (hline : p.line = j :: rest) (hidle : p.held w = none) :
    (p.take w j rest).Ordered before := by
  obtain ⟨hfirst, hrest⟩ := List.pairwise_cons.mp (hline ▸ h.line)
  have hmem : ∀ k ∈ rest, k ∈ p.line := fun k hk => hline ▸ List.mem_cons_of_mem j hk
  have hj : j ∈ p.line := hline ▸ List.mem_cons_self
  refine ⟨hrest, ?_, ?_⟩
  · intro v k hv l hl
    rcases held_take hv with ⟨_, rfl⟩ | ⟨_, hv⟩
    · exact hfirst l hl
    · exact h.front v k hv l (hmem l hl)
  · intro v u k l hne hv hu
    rcases held_take hv with ⟨rfl, rfl⟩ | ⟨_, hkept⟩
    · rcases held_take hu with ⟨heq, _⟩ | ⟨_, hkept⟩
      · exact absurd heq.symm hne
      · exact .inr (h.front u l hkept k hj)
    · rcases held_take hu with ⟨_, rfl⟩ | ⟨_, hkept'⟩
      · exact .inl (h.front v k hkept l hj)
      · exact h.apart v u k l hne hkept hkept'

theorem release (h : p.Ordered before) : (p.release w).Ordered before where
  line := h.line
  front := fun v k hv => h.front v k (held_release hv).2
  apart := fun v u k l hne hv hu => h.apart v u k l hne (held_release hv).2 (held_release hu).2

end Ordered

end Pool

section Logs

variable {α : Type*} {R : α → α → Prop} {entries : J → List α} {ahead ahead' : J → Prop}
  {log part : List α}

/-- The entries of a log are related to the later ones and to all that may follow. -/
structure Clear (R : α → α → Prop) (entries : J → List α) (ahead : J → Prop) (log : List α) :
    Prop where
  pairwise : log.Pairwise R
  ahead : ∀ j, ahead j → ∀ x ∈ log, ∀ y ∈ entries j, R x y

theorem clear_nil : Clear R entries ahead [] :=
  ⟨List.Pairwise.nil, fun _ _ _ hx => absurd hx List.not_mem_nil⟩

theorem Clear.mono (h : Clear R entries ahead log)
    (hahead : ∀ k, ahead' k → ahead k ∨ ∀ y ∈ entries k, ∀ x ∈ log, R x y) :
    Clear R entries ahead' log := by
  refine ⟨h.pairwise, ?_⟩
  intro k hk x hx y hy
  rcases hahead k hk with hk | hk
  · exact h.ahead k hk x hx y hy
  · exact hk y hy x hx

theorem Clear.deliver (h : Clear R entries ahead log) (hj : ahead j)
    (hpart : part.Sublist (entries j)) (hentries : (entries j).Pairwise R)
    (hahead : ∀ k, ahead' k → ahead k ∧ ∀ x ∈ entries j, ∀ y ∈ entries k, R x y) :
    Clear R entries ahead' (log ++ part) := by
  constructor
  · refine List.pairwise_append.mpr ⟨h.pairwise, hentries.sublist hpart, ?_⟩
    intro x hx y hy
    exact h.ahead j hj x hx y (hpart.subset hy)
  · intro k hk x hx y hy
    obtain ⟨hk, hacross⟩ := hahead k hk
    rcases List.mem_append.mp hx with hx | hx
    · exact h.ahead k hk x hx y hy
    · exact hacross x (hpart.subset hx) y hy

end Logs

end ChatServer.Lib.WorkQueue
