import ChatServer.EchoServer.Exactness
import ChatServer.Lib.Fairness

/-!
When the echo server and the client that it serves wait for each other. Both block in
send and in recv, so they can stop for ever: after an empty line, for which no echo
comes, and when both directions are full. In every other case the echo comes in each
fair execution, and the client asks for the next line.
-/
namespace ChatServer.EchoServer

open Lib.Runs Lib.Fairness

variable {C : Type*} [DecidableEq C]

section Readiness

variable {capacity backlog : ℕ} {s : System C} {c : C}

/-- It is the connection that the server is in the loop for. -/
def Served (s : System C) (c : C) : Prop :=
  s.server = .receiving c ∨ ∃ rest, s.server = .sending c rest

theorem ready_receiving (hserver : s.server = .receiving c)
    (hopen : (s.clients c).phase ≠ .finished) :
    Ready (machine capacity backlog) process .server s ↔ (s.clients c).toServer ≠ [] := by
  constructor
  · rintro ⟨a, t, hprocess, hnext⟩
    cases step_of_next hnext with
    | connect _ _ | type _ | send _ _ _ | recv _ _ | lost _ _ => cases hprocess
    | accept hother _ =>
      rw [hserver] at hother
      cases hother
    | serverRecv hother hsize =>
      rw [hserver] at hother
      cases hother
      exact List.ne_nil_of_length_pos (by omega)
    | serverSend hother _ _ _ | drop hother _ | sigpipe hother _ =>
      rw [hserver] at hother
      cases hother
    | hangUp hother hphase =>
      rw [hserver] at hother
      cases hother
      exact absurd hphase hopen
  · intro hsome
    have hlength := List.length_pos_of_ne_nil hsome
    refine ⟨.serverRecv 1, s.serverRecv c 1, rfl, ?_⟩
    show s.next capacity backlog (.serverRecv 1) = _
    simp only [System.next, hserver]
    exact if_pos ⟨Nat.one_pos, hlength, by decide⟩

theorem ready_sending {rest : Bytes} (hserver : s.server = .sending c rest) (hrest : rest ≠ [])
    (hopen : (s.clients c).phase ≠ .finished) :
    Ready (machine capacity backlog) process .server s ↔
      (s.clients c).toClient.length < capacity := by
  constructor
  · rintro ⟨a, t, hprocess, hnext⟩
    cases step_of_next hnext with
    | connect _ _ | type _ | send _ _ _ | recv _ _ | lost _ _ => cases hprocess
    | accept hother _ | serverRecv hother _ | hangUp hother _ =>
      rw [hserver] at hother
      cases hother
    | serverSend hother _ hsize hroom =>
      rw [hserver] at hother
      cases hother
      omega
    | drop hother hphase | sigpipe hother hphase =>
      rw [hserver] at hother
      cases hother
      exact absurd hphase hopen
  · intro hroom
    have hlength := List.length_pos_of_ne_nil hrest
    refine ⟨.serverSend 1, s.serverSend c rest 1, rfl, ?_⟩
    show s.next capacity backlog (.serverSend 1) = _
    simp only [System.next, hserver]
    exact if_pos ⟨hopen, Nat.one_pos, hlength, hroom⟩

theorem ready_send {rest : Bytes} (hphase : (s.clients c).phase = .sending rest) (hrest : rest ≠ [])
    (halive : s.server ≠ .killed) :
    Ready (machine capacity backlog) process (.client c) s ↔
      (s.clients c).toServer.length < capacity := by
  constructor
  · rintro ⟨a, t, hprocess, hnext⟩
    cases step_of_next hnext with
    | connect _ _ | type _ | accept _ _ | serverRecv _ _ | serverSend _ _ _ _ | drop _ _
    | sigpipe _ _ | hangUp _ _ => cases hprocess
    | send _ hsize hroom =>
      cases hprocess
      omega
    | recv hother _ =>
      cases hprocess
      rw [hphase] at hother
      cases hother
    | lost hkilled _ => exact absurd hkilled halive
  · intro hroom
    have hlength := List.length_pos_of_ne_nil hrest
    refine ⟨.send c 1, s.setClient c ((s.clients c).send rest 1), rfl, ?_⟩
    show s.next capacity backlog (.send c 1) = _
    simp only [System.next, hphase]
    exact if_pos ⟨Nat.one_pos, hlength, hroom⟩

theorem ready_waiting (hphase : (s.clients c).phase = .waiting) (halive : s.server ≠ .killed) :
    Ready (machine capacity backlog) process (.client c) s ↔ (s.clients c).toClient ≠ [] := by
  constructor
  · rintro ⟨a, t, hprocess, hnext⟩
    cases step_of_next hnext with
    | connect _ _ | type _ | accept _ _ | serverRecv _ _ | serverSend _ _ _ _ | drop _ _
    | sigpipe _ _ | hangUp _ _ => cases hprocess
    | send hother _ _ =>
      cases hprocess
      rw [hphase] at hother
      cases hother
    | recv _ hsize =>
      cases hprocess
      exact List.ne_nil_of_length_pos (by omega)
    | lost hkilled _ => exact absurd hkilled halive
  · intro hsome
    have hlength := List.length_pos_of_ne_nil hsome
    refine ⟨.recv c 1, s.setClient c ((s.clients c).recv 1), rfl, ?_⟩
    show s.next capacity backlog (.recv c 1) = _
    simp only [System.next, hphase]
    exact if_pos ⟨Nat.one_pos, hlength, by decide⟩

/-- At its prompt the client waits for the user. -/
theorem not_ready_typing (hphase : (s.clients c).phase = .typing) :
    ¬ Ready (machine capacity backlog) process (.client c) s := by
  rintro ⟨a, t, hprocess, hnext⟩
  cases step_of_next hnext with
  | connect _ _ | type _ | accept _ _ | serverRecv _ _ | serverSend _ _ _ _ | drop _ _
  | sigpipe _ _ | hangUp _ _ => cases hprocess
  | send hother _ _ | recv hother _ =>
    cases hprocess
    rw [hphase] at hother
    cases hother
  | lost _ hasks =>
    cases hprocess
    rw [hphase] at hasks
    cases hasks

end Readiness

section Stuck

variable {capacity backlog : ℕ} {s t : System C} {c : C} {allowed : System C → Action C → Prop}

omit [DecidableEq C] in
theorem Served.alive (h : Served s c) : s.server ≠ .killed := by
  rcases h with hserver | ⟨rest, hserver⟩
  · exact alive_of_receiving hserver
  · exact alive_of_sending hserver

omit [DecidableEq C] in
theorem Served.of_afterEcho {rest : Bytes} (h : s.server = System.afterEcho c rest) :
    Served s c := by
  cases rest with
  | nil => exact Or.inl h
  | cons b rest => exact Or.inr ⟨_, h⟩

omit [DecidableEq C] in
theorem Served.unique {d : C} (h : Served s c) (hd : Served s d) : d = c := by
  rcases h with hserver | ⟨rest, hserver⟩ <;> rcases hd with hother | ⟨rest', hother⟩ <;>
    rw [hserver] at hother <;> cases hother <;> rfl

theorem not_finished_of_asks {client : Client} (h : client.phase.asks = true) :
    client.phase ≠ .finished := by
  intro hfinished
  rw [hfinished] at h
  cases h

/-- Neither the server nor the client can take a step. -/
def Stuck (capacity backlog : ℕ) (s : System C) (c : C) : Prop :=
  ¬ Ready (machine capacity backlog) process .server s ∧
    ¬ Ready (machine capacity backlog) process (.client c) s

/-- What the two of them wait for: an echo of nothing, or space in both directions. -/
def Deadlocked (capacity : ℕ) (s : System C) (c : C) : Prop :=
  ((s.clients c).phase = .waiting ∧ (s.clients c).lines.getLast? = some [] ∧
      (s.clients c).received.flatten = (s.clients c).lines.flatten) ∨
    ((s.clients c).phase.unsent ≠ [] ∧ s.held c ≠ [] ∧
      (s.clients c).toServer.length = capacity ∧ (s.clients c).toClient.length = capacity)

theorem stuck_iff_deadlocked (hs : Reachable (machine capacity backlog) allowed s)
    (hcapacity : 0 < capacity) (hserved : Served s c)
    (hasks : (s.clients c).phase.asks = true) :
    Stuck capacity backlog s c ↔ Deadlocked capacity s c := by
  unfold Stuck Deadlocked
  have h := Echoing.of_reachable hs c
  have hopen := not_finished_of_asks hasks
  have hroom := h.room
  have hcount := h.count hopen hserved.alive
  have hasking := h.asking hasks
  rw [h.received_eq_iff]
  cases hphase : (s.clients c).phase with
  | offline | typing | finished =>
    rw [hphase] at hasks
    cases hasks
  | waiting =>
    rw [ready_waiting hphase hserved.alive]
    have hsent : (s.clients c).phase.unsent = [] := by
      rw [hphase]
      rfl
    rw [hsent, List.length_nil] at hcount
    rcases hserved with hserver | ⟨rest, hserver⟩
    · rw [ready_receiving hserver hopen]
      rw [held_receiving hserver, List.length_nil] at hcount
      simp only [ne_eq, not_not, ← List.length_eq_zero_iff, true_and]
      constructor
      · intro hnone
        left
        exact ⟨hasking.resolve_right (by omega), by omega⟩
      · rintro (⟨-, hall⟩ | ⟨hunsent, -⟩)
        · omega
        · exact absurd rfl hunsent
    · have hheld := List.length_pos_of_ne_nil (h.holding rest hserver)
      rw [ready_sending hserver (h.holding rest hserver) hopen]
      rw [held_sending hserver] at hcount
      simp only [ne_eq, not_not, ← List.length_eq_zero_iff, true_and]
      constructor
      · intro hnone
        omega
      · rintro (⟨-, hall⟩ | ⟨hunsent, -⟩)
        · omega
        · exact absurd rfl hunsent
  | sending unsent =>
    have hunsent : unsent ≠ [] := h.sending unsent hphase
    rw [ready_send hphase hunsent hserved.alive]
    rcases hserved with hserver | ⟨rest, hserver⟩
    · rw [ready_receiving hserver hopen, held_receiving hserver]
      simp only [ne_eq, not_not, ← List.length_eq_zero_iff]
      constructor
      · intro hnone
        omega
      · rintro (⟨hwaiting, -⟩ | ⟨-, hheld, -⟩)
        · cases hwaiting
        · exact absurd trivial hheld
    · rw [ready_sending hserver (h.holding rest hserver) hopen, held_sending hserver]
      constructor
      · intro hfull
        right
        exact ⟨hunsent, h.holding rest hserver, by omega, by omega⟩
      · rintro (⟨hwaiting, -⟩ | ⟨-, -, hfull⟩)
        · cases hwaiting
        · omega

/-- The others leave them alone. -/
theorem Stuck.untouched {a : Action C} (h : Stuck capacity backlog s c)
    (hasks : (s.clients c).phase.asks = true)
    (hnext : s.next capacity backlog a = some t) :
    t.clients c = s.clients c ∧ t.server = s.server := by
  have hserver : process a ≠ .server := fun hprocess => h.1 ⟨a, t, hprocess, hnext⟩
  have hclient : process a ≠ .client c := fun hprocess => h.2 ⟨a, t, hprocess, hnext⟩
  have hnot : ∀ phase, phase.asks = false → (s.clients c).phase ≠ phase := by
    intro phase hphase heq
    rw [heq, hphase] at hasks
    cases hasks
  cases step_of_next hnext with
  | @connect d hphase _ =>
    have hne : d ≠ c := fun heq => hnot _ rfl (heq ▸ hphase)
    exact ⟨setClient_of_ne _ hne, rfl⟩
  | @type d line hphase =>
    have hne : d ≠ c := fun heq => hnot _ rfl (heq ▸ hphase)
    exact ⟨setClient_of_ne _ hne, rfl⟩
  | @send d _ _ _ _ _ | @recv d _ _ _ | @lost d _ _ =>
    have hne : d ≠ c := fun heq => hclient (by rw [heq]; rfl)
    exact ⟨setClient_of_ne _ hne, rfl⟩
  | accept _ _ | serverRecv _ _ | serverSend _ _ _ _ | drop _ _ | sigpipe _ _ | hangUp _ _ =>
    exact absurd rfl hserver

/-- Whatever the others do, the two of them stay where they are. -/
theorem Stuck.stays (hs : Reachable (machine capacity backlog) AnyStep s) (hcapacity : 0 < capacity)
    (hserved : Served s c) (hasks : (s.clients c).phase.asks = true)
    (h : Stuck capacity backlog s c) {steps : List (Action C)}
    (hrun : run (machine capacity backlog) AnyStep s steps = some t) :
    Stuck capacity backlog t c := by
  induction steps generalizing s with
  | nil =>
    cases hrun
    exact h
  | cons a rest ih =>
    obtain ⟨-, hrun⟩ := Option.ite_none_right_eq_some.mp hrun
    obtain ⟨u, hnext, hrest⟩ := Option.bind_eq_some_iff.mp hrun
    obtain ⟨hclient, hserver⟩ := h.untouched hasks hnext
    have hu : Reachable (machine capacity backlog) AnyStep u := hs.step trivial hnext
    have hserved' : Served u c := by
      unfold Served
      rw [hserver]
      exact hserved
    have hasks' : (u.clients c).phase.asks = true := by
      rw [hclient]
      exact hasks
    have hdead := (stuck_iff_deadlocked hs hcapacity hserved hasks).mp h
    have hheld : u.held c = s.held c := by
      unfold System.held
      rw [hserver]
    refine ih hu hserved' hasks' ((stuck_iff_deadlocked hu hcapacity hserved' hasks').mpr ?_) hrest
    unfold Deadlocked
    rw [hclient, hheld]
    exact hdead

/-- The client and the server that is in the loop for it both wait exactly when the client
has entered an empty line and all its bytes have come back, or when both are in send and
both directions are full; and then they wait for ever. -/
theorem stuck_iff (hs : Reachable (machine capacity backlog) allowed s) (hcapacity : 0 < capacity)
    (hserved : Served s c) (hasks : (s.clients c).phase.asks = true) :
    (Stuck capacity backlog s c ↔ Deadlocked capacity s c) ∧
      (Stuck capacity backlog s c → ∀ (steps : List (Action C)) (t : System C),
        run (machine capacity backlog) AnyStep s steps = some t → Stuck capacity backlog t c) :=
  ⟨stuck_iff_deadlocked hs hcapacity hserved hasks, fun h _ _ hrun =>
    Stuck.stays (hs.mono fun _ _ _ => trivial) hcapacity hserved hasks h hrun⟩

end Stuck

section Prompt

variable {capacity backlog : ℕ} {s t : System C} {c d : C}

/-- A client has asked for an echo that comes: the line was not empty and the bytes on
the way fit into both directions. -/
structure Asking (capacity backlog : ℕ) (c : C) (s : System C) : Prop where
  reachable : Reachable (machine capacity backlog) AnyStep s
  served : Served s c
  asks : (s.clients c).phase.asks = true
  last : (s.clients c).lines.getLast? ≠ some []
  fits : (s.clients c).lines.flatten.length ≤
    (s.clients c).received.flatten.length + 2 * capacity

/-- Who brings the echo nearer. -/
def helper (capacity : ℕ) (c : C) (s : System C) : Process C :=
  match (s.clients c).phase with
  | .sending _ => if (s.clients c).toServer.length < capacity then .client c else .server
  | _ => if (s.clients c).toClient = [] then .server else .client c

/-- How far the bytes have to go. -/
def distance (c : C) (s : System C) : ℕ :=
  3 * (s.clients c).phase.unsent.length + 2 * (s.clients c).toServer.length + (s.held c).length

/-- The client has received an echo and is at its prompt. -/
def Echoed (c : C) (received : List Bytes) (s : System C) : Prop :=
  (s.clients c).phase = .typing ∧ ∃ echo, echo ≠ [] ∧ (s.clients c).received = received ++ [echo]

namespace Asking

theorem ready (h : Asking capacity backlog c s) (hcapacity : 0 < capacity) :
    Ready (machine capacity backlog) process (helper capacity c s) s := by
  have hechoing := Echoing.of_reachable h.reachable c
  have hopen := not_finished_of_asks h.asks
  have halive := h.served.alive
  have hroom := hechoing.room
  have hcount := hechoing.count hopen halive
  have hfits := h.fits
  have hbehind := (hechoing.asking h.asks).resolve_left h.last
  cases hphase : (s.clients c).phase with
  | offline | typing | finished =>
    have hasks := h.asks
    rw [hphase] at hasks
    cases hasks
  | waiting =>
    have hhelper : helper capacity c s =
        if (s.clients c).toClient = [] then .server else .client c := by
      unfold helper
      rw [hphase]
    rw [hhelper]
    split
    case isFalse hsome => exact (ready_waiting hphase halive).mpr hsome
    case isTrue hnone =>
      rw [hphase, hnone] at hcount
      simp only [Phase.unsent, List.length_nil] at hcount
      rcases h.served with hserver | ⟨rest, hserver⟩
      · rw [held_receiving hserver, List.length_nil] at hcount
        exact (ready_receiving hserver hopen).mpr (List.ne_nil_of_length_pos (by omega))
      · refine (ready_sending hserver (hechoing.holding rest hserver) hopen).mpr ?_
        rw [hnone]
        exact hcapacity
  | sending unsent =>
    have hhelper : helper capacity c s =
        if (s.clients c).toServer.length < capacity then .client c else .server := by
      unfold helper
      rw [hphase]
    have hlength := List.length_pos_of_ne_nil (hechoing.sending unsent hphase)
    rw [hhelper]
    split
    case isTrue hless =>
      exact (ready_send hphase (hechoing.sending unsent hphase) halive).mpr hless
    case isFalse hfull =>
      rcases h.served with hserver | ⟨rest, hserver⟩
      · exact (ready_receiving hserver hopen).mpr (List.ne_nil_of_length_pos (by omega))
      · refine (ready_sending hserver (hechoing.holding rest hserver) hopen).mpr ?_
        rw [hphase] at hcount
        simp only [Phase.unsent] at hcount
        omega

/-- A step of others changes nothing of it. -/
theorem other (h : Asking capacity backlog c s)
    (ht : Reachable (machine capacity backlog) AnyStep t)
    (hclient : t.clients c = s.clients c) (hserver : t.server = s.server) :
    Asking capacity backlog c t ∧ distance c t = distance c s ∧
      helper capacity c t = helper capacity c s := by
  have hheld : t.held c = s.held c := by
    unfold System.held
    rw [hserver]
  refine ⟨⟨ht, ?_, ?_, ?_, ?_⟩, ?_, ?_⟩
  · unfold Served
    rw [hserver]
    exact h.served
  · rw [hclient]
    exact h.asks
  · rw [hclient]
    exact h.last
  · rw [hclient]
    exact h.fits
  · unfold distance
    rw [hclient, hheld]
  · unfold helper
    rw [hclient]

omit [DecidableEq C] in
theorem helper_eq (capacity : ℕ) (c : C) (s : System C) :
    helper capacity c s = .server ∨ helper capacity c s = .client c := by
  unfold helper
  split <;> split
  · exact Or.inr rfl
  · exact Or.inl rfl
  · exact Or.inl rfl
  · exact Or.inr rfl

/-- What a step does for the one who asks. -/
def Helps (capacity backlog : ℕ) (c : C) (s : System C) (a : Action C) (t : System C) : Prop :=
  (Asking capacity backlog c t ∧ (t.clients c).received = (s.clients c).received) ∧
    (distance c t < distance c s ∨
      distance c t = distance c s ∧ helper capacity c t = helper capacity c s ∧
        process a ≠ helper capacity c s)

/-- A step of the server or of the client brings the bytes nearer. -/
theorem helps_own {a : Action C} {client : Client} (h : Asking capacity backlog c s)
    (ht : Reachable (machine capacity backlog) AnyStep t) (hserved : Served t c)
    (hclient : t.clients c = client) (hasks : client.phase.asks = true)
    (hlines : client.lines = (s.clients c).lines)
    (hreceived : client.received = (s.clients c).received)
    (hless : 3 * client.phase.unsent.length + 2 * client.toServer.length + (t.held c).length <
      distance c s) : Helps capacity backlog c s a t := by
  have hlast := h.last
  have hfits := h.fits
  rw [← hlines] at hlast hfits
  rw [← hreceived] at hfits
  subst hclient
  exact ⟨⟨⟨ht, hserved, hasks, hlast, hfits⟩, hreceived⟩, Or.inl hless⟩

theorem helps_other {a : Action C} {client : Client} {d : C} (h : Asking capacity backlog c s)
    (ht : Reachable (machine capacity backlog) AnyStep t) (hne : d ≠ c)
    (hclients : t.clients = (s.setClient d client).clients) (hserver : t.server = s.server)
    (hprocess : process a = .user d ∨ process a = .client d) : Helps capacity backlog c s a t := by
  have hclient : t.clients c = s.clients c := by
    rw [hclients]
    exact setClient_of_ne client hne
  obtain ⟨hasking, hdistance, hhelper⟩ := h.other ht hclient hserver
  refine ⟨⟨hasking, by rw [hclient]⟩, Or.inr ⟨hdistance, hhelper, ?_⟩⟩
  intro hsame
  rcases hprocess with hprocess | hprocess <;>
    rcases helper_eq capacity c s with hhelps | hhelps <;>
      (rw [hprocess, hhelps] at hsame; cases hsame)
  exact hne rfl

theorem step {a : Action C} (h : Asking capacity backlog c s)
    (ht : Reachable (machine capacity backlog) AnyStep t) (hstep : Step capacity s a t) :
    Echoed c (s.clients c).received t ∨ Helps capacity backlog c s a t := by
  have hopen := not_finished_of_asks h.asks
  have hnot : ∀ phase, phase.asks = false → (s.clients c).phase ≠ phase := by
    intro phase hphase heq
    have hasks := h.asks
    rw [heq, hphase] at hasks
    cases hasks
  cases hstep with
  | @connect d hphase _ =>
    have hne : d ≠ c := fun heq => hnot _ rfl (heq ▸ hphase)
    exact Or.inr (h.helps_other ht hne rfl rfl (Or.inl rfl))
  | @type d line hphase =>
    have hne : d ≠ c := fun heq => hnot _ rfl (heq ▸ hphase)
    exact Or.inr (h.helps_other ht hne rfl rfl (Or.inl rfl))
  | @send d size rest hphase hsize _ =>
    by_cases hne : d = c
    · subst hne
      right
      refine h.helps_own ht h.served (setClient_self _) (asks_afterSend _) rfl rfl ?_
      show 3 * (afterSend (rest.drop size)).unsent.length +
        2 * ((s.clients d).toServer ++ rest.take size).length + (s.held d).length < distance d s
      unfold distance
      rw [unsent_afterSend, hphase, List.length_drop, List.length_append, List.length_take]
      simp only [Phase.unsent]
      omega
    · exact Or.inr (h.helps_other ht hne rfl rfl (Or.inr rfl))
  | @recv d size hphase hsize =>
    by_cases hne : d = c
    · subst hne
      left
      unfold Echoed
      rw [setClient_self]
      refine ⟨rfl, (s.clients d).toClient.take size, ?_, rfl⟩
      apply List.ne_nil_of_length_pos
      rw [List.length_take]
      omega
    · exact Or.inr (h.helps_other ht hne rfl rfl (Or.inr rfl))
  | lost hkilled _ => exact absurd hkilled h.served.alive
  | accept hserver _ =>
    rcases h.served with hother | ⟨rest, hother⟩ <;> (rw [hserver] at hother; cases hother)
  | @serverRecv d size hserver hsize =>
    obtain rfl := h.served.unique (Or.inl hserver)
    right
    refine h.helps_own ht (.of_afterEcho rfl) (setClient_self _) h.asks rfl rfl ?_
    have hheld : (s.serverRecv d size).held d = (s.clients d).toServer.take size :=
      held_afterEcho rfl
    unfold distance
    show 3 * (s.clients d).phase.unsent.length + 2 * ((s.clients d).toServer.drop size).length +
      ((s.serverRecv d size).held d).length < _
    rw [hheld, held_receiving hserver, List.length_drop, List.length_take, List.length_nil]
    omega
  | @serverSend d size rest hserver hphase hsize _ =>
    obtain rfl := h.served.unique (Or.inr ⟨rest, hserver⟩)
    right
    refine h.helps_own ht (.of_afterEcho rfl) (setClient_self _) h.asks rfl rfl ?_
    have hheld : (s.serverSend d rest size).held d = rest.drop size := held_afterEcho rfl
    unfold distance
    show 3 * (s.clients d).phase.unsent.length + 2 * (s.clients d).toServer.length +
      ((s.serverSend d rest size).held d).length < _
    rw [hheld, held_sending hserver, List.length_drop]
    omega
  | @drop d rest hserver hphase | @sigpipe d rest hserver hphase =>
    obtain rfl := h.served.unique (Or.inr ⟨rest, hserver⟩)
    exact absurd hphase hopen
  | @hangUp d hserver hphase =>
    obtain rfl := h.served.unique (Or.inl hserver)
    exact absurd hphase hopen

end Asking

/-- In every execution that is fair to the server and the client, a client that is served
and has entered a line that is not empty receives an echo some time and then asks for the
next line, if what is on its way fits into both directions. -/
theorem prompt_returns (hcapacity : 0 < capacity)
    {e : Execution (machine (C := C) capacity backlog)}
    (hstart : Reachable (machine capacity backlog) AnyStep (e.state 0))
    (hserver : Fair e process .server) (hclient : Fair e process (.client c)) {n : ℕ}
    (hserved : Served (e.state n) c)
    (hasks : ((e.state n).clients c).phase.asks = true)
    (hlast : ((e.state n).clients c).lines.getLast? ≠ some [])
    (hfits : ((e.state n).clients c).lines.flatten.length ≤
      ((e.state n).clients c).received.flatten.length + 2 * capacity) :
    ∃ m, n ≤ m ∧ ((e.state m).clients c).phase = .typing ∧ ∃ echo, echo ≠ [] ∧
      ((e.state m).clients c).received = ((e.state n).clients c).received ++ [echo] := by
  have hasking : Asking capacity backlog c (e.state n) :=
    ⟨e.reachable hstart n, hserved, hasks, hlast, hfits⟩
  refine eventually
    (fun s => Asking capacity backlog c s ∧
      (s.clients c).received = ((e.state n).clients c).received)
    (Echoed c ((e.state n).clients c).received) (helper capacity c) (distance c) ?_
    (fun _ h _ => h.1.ready hcapacity) ?_ ⟨hasking, rfl⟩
  · rintro p ⟨s, -, hp⟩
    rcases Asking.helper_eq capacity c s with hhelps | hhelps
    · rw [← hp, hhelps]
      exact hserver
    · rw [← hp, hhelps]
      exact hclient
  · intro s _ _ ⟨h, hnone⟩ hnext
    rw [← hnone]
    exact h.step (h.reachable.step trivial hnext) (step_of_next hnext)

end Prompt

section Sample

/-- After an empty line, and with four bytes where each direction has room for one. -/
theorem stuck_iff_samples :
    (∃ s : System Unit, Reachable (machine 1 5) AnyStep s ∧ (s.clients ()).lines = [[]] ∧
      ∀ (steps : List (Action Unit)) (t : System Unit),
        run (machine 1 5) AnyStep s steps = some t → Stuck 1 5 t ()) ∧
    ∃ s : System Unit, Reachable (machine 1 5) AnyStep s ∧
      (s.clients ()).lines = [[97, 98, 99, 100]] ∧
      ∀ (steps : List (Action Unit)) (t : System Unit),
        run (machine 1 5) AnyStep s steps = some t → Stuck 1 5 t () := by
  constructor
  · have hrun : (run (machine 1 5) AnyStep (machine 1 5).init
        [.connect (), .accept, .type () []]).any (fun s : System Unit =>
          s.server = .receiving () ∧ (s.clients ()).phase = .waiting ∧
          (s.clients ()).received = [] ∧ (s.clients ()).lines = [[]]) = true := by
      decide +kernel
    obtain ⟨s, hs, hserver, hphase, hreceived, hlines⟩ := exists_reachable hrun
    obtain ⟨hiff, hstays⟩ :=
      stuck_iff hs Nat.one_pos (Or.inl hserver) (by rw [hphase]; rfl)
    have hdead : Deadlocked 1 s () :=
      Or.inl ⟨hphase, by rw [hlines]; rfl, by rw [hreceived, hlines]; rfl⟩
    exact ⟨s, hs, hlines, hstays (hiff.mpr hdead)⟩
  · have hrun : (run (machine 1 5) AnyStep (machine 1 5).init
        [.connect (), .accept, .type () [97, 98, 99, 100], .send () 1, .serverRecv 1, .serverSend 1,
          .send () 1, .serverRecv 1, .send () 1]).any (fun s : System Unit =>
          s.server = .sending () [98] ∧ (s.clients ()).phase = .sending [100] ∧
          ((s.clients ()).toServer = [99] ∧ (s.clients ()).toClient = [97]) ∧
          (s.clients ()).lines = [[97, 98, 99, 100]]) = true := by
      decide +kernel
    obtain ⟨s, hs, hserver, hphase, ⟨hup, hdown⟩, hlines⟩ := exists_reachable hrun
    have hheld : s.held () ≠ [] := by
      rw [held_sending hserver]
      exact List.cons_ne_nil _ _
    have hunsent : (s.clients ()).phase.unsent ≠ [] := by
      rw [hphase]
      exact List.cons_ne_nil _ _
    obtain ⟨hiff, hstays⟩ :=
      stuck_iff hs Nat.one_pos (Or.inr ⟨_, hserver⟩) (by rw [hphase]; rfl)
    have hdead : Deadlocked 1 s () :=
      Or.inr ⟨hunsent, hheld, by rw [hup]; rfl, by rw [hdown]; rfl⟩
    exact ⟨s, hs, hlines, hstays (hiff.mpr hdead)⟩

/-- A line of one byte and its echo. -/
def echoSteps : List (Action Unit) :=
  [.connect (), .accept, .type () [97], .send () 1, .serverRecv 1, .serverSend 1, .recv () 1]

theorem prompt_returns_a : ∃ e : Execution (machine (C := Unit) 1 5),
    Fair e process .server ∧ Fair e process (.client ()) ∧
      ((e.state 3).clients ()).phase = .sending [97] ∧
      ∃ m, 3 ≤ m ∧ ((e.state m).clients ()).phase = .typing ∧ ∃ echo, echo ≠ [] ∧
        ((e.state m).clients ()).received = ((e.state 3).clients ()).received ++ [echo] := by
  have hend : (run (machine 1 5) AnyStep (machine 1 5).init echoSteps).any (fun s =>
      s.server = .receiving () ∧ (s.clients ()).toServer = [] ∧ (s.clients ()).phase = .typing) =
        true := by
    decide +kernel
  have hasked : (run (machine 1 5) AnyStep (machine 1 5).init (echoSteps.take 3)).any (fun s =>
      s.server = .receiving () ∧ (s.clients ()).phase = .sending [97] ∧
        (s.clients ()).lines = [[97]]) = true := by
    decide +kernel
  obtain ⟨t, hrun, ht⟩ := (Option.any_eq_true _ _).mp hend
  obtain ⟨hserver, hnone, hphase⟩ := of_decide_eq_true ht
  obtain ⟨e, hstates⟩ := exists_execution hrun
  rw [hstates 3, Option.any_some] at hasked
  obtain ⟨hserved, hsending, hlines⟩ := of_decide_eq_true hasked
  have hstart : e.state 0 = (machine 1 5).init := (Option.some.inj (hstates 0)).symm
  have hquiet : ¬ Ready (machine 1 5) process .server t := by
    rw [ready_receiving hserver (by rw [hphase]; exact Phase.noConfusion), hnone]
    exact fun hne => hne rfl
  have hfair : Fair e process .server := fair_of_run hstates hrun hquiet
  have hfairClient : Fair e process (.client ()) :=
    fair_of_run hstates hrun (not_ready_typing hphase)
  refine ⟨e, hfair, hfairClient, hsending, ?_⟩
  refine prompt_returns Nat.one_pos (by rw [hstart]; exact .init) hfair hfairClient
    (Or.inl hserved) (by rw [hsending]; rfl) (by rw [hlines]; decide) ?_
  rw [hlines]
  show 1 ≤ _ + 2 * 1
  omega

end Sample

end ChatServer.EchoServer
