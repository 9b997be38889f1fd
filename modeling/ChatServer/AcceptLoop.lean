import Mathlib.Data.List.Count
import ChatServer.Lib.Runs

/-!
The listening socket under edge triggering. A request that arrives puts it in
the ready list of the epoll descriptor, and epoll_wait takes it off. accept_loop
accepts until nothing is left, so that it need not be told again. But it also
stops at any other error of `accept`, and such an error leaves requests behind
that nobody is told of.
-/
namespace ChatServer.AcceptLoop

open Lib.Runs

/-- An event of a batch: for the listening socket, for the signals or for
another descriptor. -/
inductive Event
  | listen
  | signal
  | other
deriving DecidableEq

/-- Where the reactor is; the lists are the events of the batch that are left. -/
inductive Reactor
  | waiting
  | dispatching (batch : List Event)
  | accepting (batch : List Event)
deriving DecidableEq

structure Listener where
  /-- The requests that wait to be accepted. -/
  backlog : ℕ
  /-- The socket is in the ready list. -/
  edge : Bool
  reactor : Reactor
  running : Bool
deriving DecidableEq

/-- What `accept` returns; an error other than EAGAIN may take a request with it
(ECONNABORTED) or not (EMFILE). -/
inductive Accepted
  | descriptor
  | eagain
  | failed (removes : Bool)
deriving DecidableEq

inductive Action
  | arrive
  | wait (batch : List Event)
  | dispatch
  | accept (result : Accepted)
deriving DecidableEq

namespace Listener

/-- add_fd_to_epoll on the listening socket, with the requests that came before. -/
def init (backlog : ℕ) : Listener := ⟨backlog, 0 < backlog, .waiting, true⟩

def next (s : Listener) : Action → Option Listener
  | .arrive => some { s with backlog := s.backlog + 1, edge := true }
  | .wait batch =>
      if s.reactor = .waiting ∧ s.running = true ∧
          batch.count .listen ≤ (if s.edge then 1 else 0) then
        some { s with
          edge := s.edge && batch.count .listen = 0
          reactor := .dispatching batch }
      else none
  | .dispatch =>
      match s.reactor with
      | .dispatching (.listen :: rest) => some { s with reactor := .accepting rest }
      | .dispatching (.signal :: _) => some { s with reactor := .waiting, running := false }
      | .dispatching (.other :: rest) => some { s with reactor := .dispatching rest }
      | .dispatching [] => some { s with reactor := .waiting }
      | _ => none
  | .accept result =>
      match s.reactor with
      | .accepting rest =>
          match result with
          | .descriptor => if 0 < s.backlog then some { s with backlog := s.backlog - 1 } else none
          | .eagain =>
              if s.backlog = 0 then some { s with reactor := .dispatching rest } else none
          | .failed removes =>
              some { s with
                backlog := if removes then s.backlog - 1 else s.backlog
                reactor := .dispatching rest }
      | _ => none

/-- A step that cannot be taken changes nothing. -/
def step (s : Listener) (a : Action) : Listener := (s.next a).getD s

end Listener

/-- The events that are not dispatched, when the reactor is not in accept_loop. -/
def undispatched : Reactor → Option (List Event)
  | .waiting => some []
  | .dispatching batch => some batch
  | .accepting _ => none

/-- While the server runs, it will be told of the requests that are left. -/
def Served (s : Listener) : Prop :=
  s.running = true → ∀ batch, undispatched s.reactor = some batch → 0 < s.backlog →
    s.edge = true ∨ .listen ∈ batch

/-- An error other than EAGAIN leaves no request, or a later one has come. -/
def Answered (s : Listener) : Action → Prop
  | .accept (.failed removes) => ∀ rest, s.reactor = .accepting rest →
      s.edge = true ∨ (if removes then s.backlog ≤ 1 else s.backlog = 0)
  | _ => True

/-- A batch reports the listening socket once, and only a running server has one. -/
structure Single (s : Listener) : Prop where
  dispatching : ∀ batch, s.reactor = .dispatching batch →
    s.running = true ∧ batch.count .listen ≤ 1
  accepting : ∀ rest, s.reactor = .accepting rest → s.running = true ∧ .listen ∉ rest

section Steps

variable {s t : Listener} {a : Action}

/-- What a step can do. -/
inductive Steps (s : Listener) : Action → Listener → Prop
  | arrive : Steps s .arrive { s with backlog := s.backlog + 1, edge := true }
  | wait {batch : List Event} (hwaiting : s.reactor = .waiting) (hrunning : s.running = true)
      (hcount : batch.count .listen ≤ 1) :
      Steps s (.wait batch) { s with
        edge := s.edge && batch.count .listen = 0
        reactor := .dispatching batch }
  | listen {rest : List Event} (hreactor : s.reactor = .dispatching (.listen :: rest)) :
      Steps s .dispatch { s with reactor := .accepting rest }
  | signal : Steps s .dispatch { s with reactor := .waiting, running := false }
  | other {rest : List Event} (hreactor : s.reactor = .dispatching (.other :: rest)) :
      Steps s .dispatch { s with reactor := .dispatching rest }
  | done (hreactor : s.reactor = .dispatching []) :
      Steps s .dispatch { s with reactor := .waiting }
  | descriptor {rest : List Event} (hreactor : s.reactor = .accepting rest) :
      Steps s (.accept .descriptor) { s with backlog := s.backlog - 1 }
  | eagain {rest : List Event} (hreactor : s.reactor = .accepting rest) (hnone : s.backlog = 0) :
      Steps s (.accept .eagain) { s with reactor := .dispatching rest }
  | failed {rest : List Event} {removes : Bool} (hreactor : s.reactor = .accepting rest) :
      Steps s (.accept (.failed removes)) { s with
        backlog := if removes then s.backlog - 1 else s.backlog
        reactor := .dispatching rest }

theorem next_steps (h : s.next a = some t) : Steps s a t := by
  cases a with
  | arrive =>
    cases h
    exact .arrive
  | wait batch =>
    simp only [Listener.next, Option.ite_none_right_eq_some, Option.some.injEq] at h
    obtain ⟨⟨hwaiting, hrunning, hcount⟩, rfl⟩ := h
    refine .wait hwaiting hrunning ?_
    split at hcount <;> omega
  | dispatch =>
    simp only [Listener.next] at h
    split at h
    · rename_i hreactor
      cases h
      exact .listen hreactor
    · cases h
      exact .signal
    · rename_i hreactor
      cases h
      exact .other hreactor
    · rename_i hreactor
      cases h
      exact .done hreactor
    · cases h
  | accept result =>
    simp only [Listener.next] at h
    split at h
    · rename_i hreactor
      cases result with
      | descriptor =>
        simp only [Option.ite_none_right_eq_some, Option.some.injEq] at h
        obtain ⟨_, rfl⟩ := h
        exact .descriptor hreactor
      | eagain =>
        simp only [Option.ite_none_right_eq_some, Option.some.injEq] at h
        obtain ⟨hnone, rfl⟩ := h
        exact .eagain hreactor hnone
      | failed removes =>
        cases h
        exact .failed hreactor
    · cases h

theorem Single.next (h : Single s) (hnext : s.next a = some t) : Single t := by
  cases next_steps hnext with
  | arrive => exact ⟨h.dispatching, h.accepting⟩
  | wait hwaiting hrunning hcount =>
    refine ⟨?_, nofun⟩
    intro batch hbatch
    cases hbatch
    exact ⟨hrunning, hcount⟩
  | listen hreactor =>
    obtain ⟨hrunning, hcount⟩ := h.dispatching _ hreactor
    refine ⟨nofun, ?_⟩
    intro rest hrest
    cases hrest
    rw [List.count_cons_self] at hcount
    exact ⟨hrunning, List.count_eq_zero.mp (by omega)⟩
  | signal => exact ⟨nofun, nofun⟩
  | other hreactor =>
    obtain ⟨hrunning, hcount⟩ := h.dispatching _ hreactor
    refine ⟨?_, nofun⟩
    intro rest hrest
    cases hrest
    exact ⟨hrunning, Nat.le_trans List.count_le_count_cons hcount⟩
  | done hreactor => exact ⟨nofun, nofun⟩
  | descriptor hreactor => exact ⟨h.dispatching, h.accepting⟩
  | eagain hreactor hnone | failed hreactor =>
    obtain ⟨hrunning, hnot⟩ := h.accepting _ hreactor
    refine ⟨?_, nofun⟩
    intro rest hrest
    cases hrest
    rw [List.count_eq_zero.mpr hnot]
    exact ⟨hrunning, Nat.zero_le 1⟩

/-- accept_loop ends: the requests left are served exactly if there are none or
a later one has come. -/
theorem served_of_accepting (h : Single s) {rest : List Event}
    (hreactor : s.reactor = .accepting rest) (backlog : ℕ) :
    Served { s with backlog := backlog, reactor := .dispatching rest } ↔
      s.edge = true ∨ backlog = 0 := by
  obtain ⟨hrunning, hnot⟩ := h.accepting rest hreactor
  constructor
  · intro hserved
    by_cases hnone : backlog = 0
    · exact Or.inr hnone
    · exact Or.inl ((hserved hrunning rest rfl (Nat.pos_of_ne_zero hnone)).resolve_right hnot)
  · intro hleft _ batch _ hpos
    exact Or.inl (hleft.resolve_right (Nat.pos_iff_ne_zero.mp hpos))

theorem answered_failed {rest : List Event} {removes : Bool}
    (hreactor : s.reactor = .accepting rest) :
    Answered s (.accept (.failed removes)) ↔
      s.edge = true ∨ (if removes then s.backlog - 1 else s.backlog) = 0 := by
  have hleft : (if removes then s.backlog ≤ 1 else s.backlog = 0) ↔
      (if removes then s.backlog - 1 else s.backlog) = 0 := by
    split <;> omega
  rw [← hleft]
  exact ⟨fun h => h rest hreactor, fun h _ _ => h⟩

/-- Only an error of accept can leave a request that nobody is told of. -/
theorem served_next (hsingle : Single s) (h : Served s) (hnext : s.next a = some t) :
    Served t ↔ Answered s a := by
  cases next_steps hnext with
  | arrive => exact iff_of_true (fun _ _ _ _ => Or.inl rfl) trivial
  | @wait batch hwaiting hrunning hcount =>
    refine iff_of_true ?_ trivial
    intro _ batch' hbatch hpos
    cases hbatch
    have hedge : s.edge = true := by
      simpa using h hrunning [] (by rw [hwaiting]; rfl) hpos
    by_cases hlisten : .listen ∈ batch
    · exact Or.inr hlisten
    · left
      simp [hedge, List.count_eq_zero.mpr hlisten]
  | listen hreactor => exact iff_of_true (fun _ _ hbatch => nomatch hbatch) trivial
  | signal => exact iff_of_true (fun hrunning => nomatch hrunning) trivial
  | @other rest hreactor =>
    refine iff_of_true ?_ trivial
    intro hrunning batch hbatch hpos
    cases hbatch
    simpa using h hrunning (.other :: rest) (by rw [hreactor]; rfl) hpos
  | done hreactor =>
    refine iff_of_true ?_ trivial
    intro hrunning batch hbatch hpos
    cases hbatch
    exact h hrunning [] (by rw [hreactor]; rfl) hpos
  | descriptor hreactor =>
    refine iff_of_true ?_ trivial
    intro _ batch hbatch
    change undispatched s.reactor = some batch at hbatch
    rw [hreactor] at hbatch
    cases hbatch
  | eagain hreactor hnone =>
    exact iff_of_true ((served_of_accepting hsingle hreactor s.backlog).mpr (Or.inr hnone)) trivial
  | failed hreactor => rw [served_of_accepting hsingle hreactor, answered_failed hreactor]

/-- A step is taken or changes nothing. -/
theorem step_cases (s : Listener) (a : Action) :
    s.next a = some (s.step a) ∨ (s.next a = none ∧ s.step a = s) := by
  unfold Listener.step
  cases s.next a with
  | none => exact Or.inr ⟨rfl, rfl⟩
  | some t => exact Or.inl rfl

theorem Single.step (h : Single s) (a : Action) : Single (s.step a) := by
  rcases step_cases s a with hnext | ⟨_, hsame⟩
  · exact h.next hnext
  · rwa [hsame]

theorem served_step (hsingle : Single s) (h : Served s) (a : Action) :
    Served (s.step a) ↔ Answered s a := by
  rcases step_cases s a with hnext | ⟨hnone, hsame⟩
  · exact served_next hsingle h hnext
  · rw [hsame]
    refine iff_of_true h ?_
    unfold Answered
    split
    · intro rest hreactor
      simp [Listener.next, hreactor] at hnone
    · trivial

theorem Single.init (backlog : ℕ) : Single (.init backlog) := ⟨nofun, nofun⟩

theorem Served.init (backlog : ℕ) : Served (.init backlog) := by
  intro _ batch _ hpos
  exact Or.inl (decide_eq_true hpos)

end Steps

/-- In every state of a run the server will be told of the requests that are
left, exactly if after each error of accept other than EAGAIN there is none, or a
later one has come. -/
theorem requests_served_iff (backlog : ℕ) (steps : List Action) :
    (∀ done, done <+: steps → Served (done.foldl Listener.step (.init backlog))) ↔
      ∀ done a, done ++ [a] <+: steps → Answered (done.foldl Listener.step (.init backlog)) a :=
  throughout_iff (f := Listener.step) (K := fun _ => True) (I := Single) (P := Served)
    (Q := Answered) (fun _ a _ h => h.step a) (fun _ a _ hsingle h => served_step hsingle h a)
    (.init backlog) (.init backlog) fun _ _ => trivial

section Samples

/-- Two clients connect and the first one is gone when its request is accepted.
The reactor goes back to epoll_wait, and the second waits for a third. -/
theorem request_stranded :
    let s := [.arrive, .arrive, .wait [.listen], .dispatch, .accept (.failed true),
      .dispatch].foldl Listener.step (.init 0)
    s = ⟨1, false, .waiting, true⟩ ∧ ¬ Served s := by
  refine ⟨by decide, ?_⟩
  intro hserved
  exact absurd (hserved rfl [] rfl Nat.one_pos) (by decide)

end Samples

end ChatServer.AcceptLoop
