import Mathlib.Data.List.Infix
import ChatServer.EchoServer

/-!
Where the bytes of the clients of the echo server are. Those that a client has sent are
on their way in one direction, held by the server, on their way back, or received, in
this order; and what leaves the bytes of a client behind is only that it has left.
-/
namespace ChatServer.EchoServer

open Lib.Runs MessageTasks

variable {C : Type*} [DecidableEq C]

section Bytes

theorem unsent_afterSend (rest : Bytes) : (afterSend rest).unsent = rest := by
  cases rest <;> rfl

theorem asks_afterSend (rest : Bytes) : (afterSend rest).asks = true := by
  cases rest <;> rfl

variable {s : System C} {c d : C}

@[simp]
theorem setClient_self (client : Client) : (s.setClient c client).clients c = client :=
  Function.update_self ..

theorem setClient_of_ne (client : Client) (hne : c ≠ d) :
    (s.setClient c client).clients d = s.clients d :=
  Function.update_of_ne (fun heq => hne heq.symm) ..

theorem ne_nil_of_afterSend {line rest : Bytes} (h : afterSend line = .sending rest) :
    rest ≠ [] := by
  cases line with
  | nil => cases h
  | cons b line =>
    cases h
    exact List.cons_ne_nil b line

omit [DecidableEq C] in
theorem ne_nil_of_afterEcho {line rest : Bytes} (h : System.afterEcho c line = .sending d rest) :
    rest ≠ [] := by
  cases line with
  | nil => cases h
  | cons b line =>
    cases h
    exact List.cons_ne_nil b line

theorem held_afterEcho {rest : Bytes} (h : s.server = System.afterEcho c rest) :
    s.held c = rest := by
  unfold System.held
  rw [h]
  cases rest with
  | nil => rfl
  | cons b rest => exact if_pos rfl

theorem held_afterEcho_of_ne {rest : Bytes} (h : s.server = System.afterEcho c rest)
    (hne : c ≠ d) : s.held d = [] := by
  unfold System.held
  rw [h]
  cases rest with
  | nil => rfl
  | cons b rest => exact if_neg hne

omit [DecidableEq C] in
theorem alive_of_receiving (h : s.server = .receiving c) : s.server ≠ .killed := by
  intro hkilled
  rw [h] at hkilled
  cases hkilled

omit [DecidableEq C] in
theorem alive_of_sending {rest : Bytes} (h : s.server = .sending c rest) : s.server ≠ .killed := by
  intro hkilled
  rw [h] at hkilled
  cases hkilled

theorem held_receiving (h : s.server = .receiving c) (d : C) : s.held d = [] := by
  unfold System.held
  rw [h]

theorem held_sending {rest : Bytes} (h : s.server = .sending c rest) : s.held c = rest := by
  unfold System.held
  rw [h]
  exact if_pos rfl

theorem held_sending_of_ne {rest : Bytes} (h : s.server = .sending c rest) (hne : c ≠ d) :
    s.held d = [] := by
  unfold System.held
  rw [h]
  exact if_neg hne

end Bytes

/-- The lines that the server has printed for a client. -/
def logOf (s : System C) (c : C) : List Text :=
  s.log.filterMap fun entry => if entry.1 = c then some entry.2 else none

/-- What is known of the bytes of a client. -/
structure Echoing (capacity : ℕ) (s : System C) (c : C) : Prop where
  toServer : (s.clients c).heard.flatten ++ (s.clients c).toServer <+: (s.clients c).lines.flatten
  toClient : (s.clients c).received.flatten ++ (s.clients c).toClient <+:
    (s.clients c).heard.flatten
  echoed : (s.clients c).received.flatten.length + (s.held c).length ≤
    (s.clients c).heard.flatten.length
  sends : (s.clients c).phase ≠ .finished →
    (s.clients c).heard.flatten ++ (s.clients c).toServer ++ (s.clients c).phase.unsent =
      (s.clients c).lines.flatten
  echoes : (s.clients c).phase ≠ .finished → s.server ≠ .killed →
    (s.clients c).received.flatten ++ (s.clients c).toClient ++ s.held c =
      (s.clients c).heard.flatten
  printed : (s.clients c).printed = (s.clients c).received.map printedPart
  logged : logOf s c = (s.clients c).heard.map printedPart
  room : (s.clients c).toServer.length ≤ capacity ∧ (s.clients c).toClient.length ≤ capacity
  asking : (s.clients c).phase.asks = true → (s.clients c).lines.getLast? = some [] ∨
    (s.clients c).received.flatten.length < (s.clients c).lines.flatten.length
  sending : ∀ rest, (s.clients c).phase = .sending rest → rest ≠ []
  holding : ∀ rest, s.server = .sending c rest → rest ≠ []

namespace Echoing

variable {capacity : ℕ} {s t : System C} {c : C}

theorem init : Echoing capacity (.init : System C) c where
  toServer := List.prefix_refl _
  toClient := List.prefix_refl _
  echoed := le_refl _
  sends _ := rfl
  echoes _ _ := rfl
  printed := rfl
  logged := rfl
  room := ⟨Nat.zero_le _, Nat.zero_le _⟩
  asking h := by cases h
  sending _ h := by cases h
  holding _ h := by cases h

/-- Steps that do not concern the client. -/
theorem other (h : Echoing capacity s c) (hclient : t.clients c = s.clients c)
    (hheld : t.held c = s.held c) (hkilled : s.server = .killed → t.server = .killed)
    (hlog : logOf t c = logOf s c)
    (hholding : ∀ rest, t.server = .sending c rest → rest ≠ []) : Echoing capacity t c := by
  constructor
  case holding => exact hholding
  all_goals simp only [hclient, hheld, hlog]
  · exact h.toServer
  · exact h.toClient
  · exact h.echoed
  · exact h.sends
  · exact fun hphase halive => h.echoes hphase fun heq => halive (hkilled heq)
  · exact h.printed
  · exact h.logged
  · exact h.room
  · exact h.asking
  · exact h.sending

theorem received_length_le (h : Echoing capacity s c) :
    (s.clients c).received.flatten.length ≤ (s.clients c).lines.flatten.length := by
  have hheard := h.toServer.length_le
  have hecho := h.echoed
  rw [List.length_append] at hheard
  omega

/-- How many bytes are on the way. -/
theorem count (h : Echoing capacity s c) (hopen : (s.clients c).phase ≠ .finished)
    (halive : s.server ≠ .killed) :
    (s.clients c).received.flatten.length + ((s.clients c).toClient.length + (s.held c).length +
      (s.clients c).toServer.length + (s.clients c).phase.unsent.length) =
        (s.clients c).lines.flatten.length := by
  rw [← h.sends hopen, ← h.echoes hopen halive]
  simp only [List.length_append]
  omega

theorem received_eq_iff (h : Echoing capacity s c) :
    (s.clients c).received.flatten = (s.clients c).lines.flatten ↔
      (s.clients c).received.flatten.length = (s.clients c).lines.flatten.length := by
  refine ⟨congrArg List.length, List.IsPrefix.eq_of_length ?_⟩
  exact ((List.prefix_append _ _).trans h.toClient).trans
    ((List.prefix_append _ _).trans h.toServer)

/-- A step of the client or of its user. -/
theorem ofClient (h : Echoing capacity s c) {client : Client}
    (hclient : t.clients c = client) (hserver : t.server = s.server) (hlog : t.log = s.log)
    (hheard : client.heard = (s.clients c).heard)
    (hback : client.received.flatten ++ client.toClient =
      (s.clients c).received.flatten ++ (s.clients c).toClient)
    (hbefore : client.phase ≠ .finished → (s.clients c).phase ≠ .finished)
    (hsent : client.heard.flatten ++ client.toServer <+: client.lines.flatten)
    (hreceived : client.received.flatten.length + (s.held c).length ≤
      client.heard.flatten.length)
    (hsends : client.phase ≠ .finished →
      client.heard.flatten ++ client.toServer ++ client.phase.unsent = client.lines.flatten)
    (hprinted : client.printed = client.received.map printedPart)
    (hroom : client.toServer.length ≤ capacity ∧ client.toClient.length ≤ capacity)
    (hasking : client.phase.asks = true → client.lines.getLast? = some [] ∨
      client.received.flatten.length < client.lines.flatten.length)
    (hsending : ∀ rest, client.phase = .sending rest → rest ≠ []) : Echoing capacity t c := by
  have hheld : t.held c = s.held c := by
    unfold System.held
    rw [hserver]
  have hlogged : logOf t c = logOf s c := by
    unfold logOf
    rw [hlog]
  constructor
  all_goals simp only [hclient, hheld, hserver, hlogged]
  · exact hsent
  · rw [hback, hheard]
    exact h.toClient
  · exact hreceived
  · exact hsends
  · intro hphase halive
    rw [hback, hheard]
    exact h.echoes (hbefore hphase) halive
  · exact hprinted
  · rw [hheard]
    exact h.logged
  · exact hroom
  · exact hasking
  · exact hsending
  · exact h.holding

theorem connect (h : Echoing capacity s c) (hphase : (s.clients c).phase = .offline)
    (hclient : t.clients c = { s.clients c with phase := .typing }) (hserver : t.server = s.server)
    (hlog : t.log = s.log) : Echoing capacity t c := by
  have hopen : (s.clients c).phase ≠ .finished := by
    rw [hphase]
    exact Phase.noConfusion
  have hsends := h.sends hopen
  rw [hphase] at hsends
  exact h.ofClient hclient hserver hlog rfl rfl (fun _ => hopen) h.toServer h.echoed
    (fun _ => hsends) h.printed h.room (fun hasks => by cases hasks) (fun _ hstep => by cases hstep)

theorem type (h : Echoing capacity s c) (hphase : (s.clients c).phase = .typing) (line : Text) :
    Echoing capacity (s.setClient c ((s.clients c).type line)) c := by
  unfold Client.type
  split
  · exact h.ofClient (setClient_self _) rfl rfl rfl rfl (fun hne => absurd rfl hne) h.toServer
      h.echoed (fun hne => absurd rfl hne) h.printed h.room (fun hasks => by cases hasks)
      (fun _ hstep => by cases hstep)
  · have hopen : (s.clients c).phase ≠ .finished := by
      rw [hphase]
      exact Phase.noConfusion
    refine h.ofClient (setClient_self _) rfl rfl rfl rfl (fun _ => hopen) ?_ h.echoed ?_
      h.printed h.room ?_ (fun _ => ne_nil_of_afterSend)
    · rw [List.flatten_append]
      exact h.toServer.trans (List.prefix_append _ _)
    · intro _
      have hsends := h.sends hopen
      rw [hphase] at hsends
      rw [unsent_afterSend, List.flatten_append, ← hsends]
      simp [Phase.unsent]
    · intro _
      have hle := h.received_length_le
      cases line with
      | nil => exact Or.inl (List.getLast?_append ..)
      | cons b line =>
        right
        simp only [List.flatten_append, List.length_append, List.flatten_cons, List.length_cons]
        omega

theorem send (h : Echoing capacity s c) {rest : Bytes} {size : ℕ}
    (hphase : (s.clients c).phase = .sending rest) (hsize : size ≤ rest.length)
    (hroom : (s.clients c).toServer.length + size ≤ capacity) :
    Echoing capacity (s.setClient c ((s.clients c).send rest size)) c := by
  have hopen : (s.clients c).phase ≠ .finished := by
    rw [hphase]
    exact Phase.noConfusion
  have hsends := h.sends hopen
  have hasking := h.asking
  rw [hphase] at hsends hasking
  have hsplit : (s.clients c).heard.flatten ++ ((s.clients c).toServer ++ rest.take size) ++
      rest.drop size = (s.clients c).lines.flatten := by
    rw [← hsends, ← List.append_assoc, List.append_assoc _ (rest.take size), List.take_append_drop]
    rfl
  refine h.ofClient (setClient_self _) rfl rfl rfl rfl (fun _ => hopen) ?_ h.echoed ?_ h.printed
    ⟨?_, h.room.2⟩ (fun _ => hasking rfl) (fun _ => ne_nil_of_afterSend)
  · exact ⟨_, hsplit⟩
  · intro _
    show _ ++ (afterSend (rest.drop size)).unsent = _
    rw [unsent_afterSend]
    exact hsplit
  · show ((s.clients c).toServer ++ rest.take size).length ≤ capacity
    rw [List.length_append, List.length_take]
    omega

theorem recv (h : Echoing capacity s c) {size : ℕ} (hphase : (s.clients c).phase = .waiting) :
    Echoing capacity (s.setClient c ((s.clients c).recv size)) c := by
  have hopen : (s.clients c).phase ≠ .finished := by
    rw [hphase]
    exact Phase.noConfusion
  have hsends := h.sends hopen
  rw [hphase] at hsends
  have hback : ((s.clients c).received ++ [(s.clients c).toClient.take size]).flatten ++
      (s.clients c).toClient.drop size =
        (s.clients c).received.flatten ++ (s.clients c).toClient := by
    simp [List.flatten_append]
  refine h.ofClient (setClient_self _) rfl rfl rfl hback (fun _ => hopen) h.toServer ?_
    (fun _ => hsends) ?_ ⟨h.room.1, ?_⟩ (fun hasks => by cases hasks)
    (fun _ hstep => by cases hstep)
  · -- All that is on its way back was read by the server and is not held any more.
    have hroom : (s.clients c).received.flatten.length + (s.clients c).toClient.length +
        (s.held c).length ≤ (s.clients c).heard.flatten.length := by
      by_cases halive : s.server = .killed
      · have hle := h.toClient.length_le
        have hheld : s.held c = [] := by
          unfold System.held
          rw [halive]
        rw [List.length_append] at hle
        rw [hheld, List.length_nil]
        omega
      · rw [← h.echoes hopen halive, List.length_append, List.length_append]
    show ((s.clients c).received ++ [(s.clients c).toClient.take size]).flatten.length +
      (s.held c).length ≤ (s.clients c).heard.flatten.length
    have hbuffer : ((s.clients c).toClient.take size).length ≤ (s.clients c).toClient.length :=
      List.length_take_le' _ _
    simp only [List.flatten_append, List.length_append, List.flatten_singleton]
    omega
  · show _ ++ [_] = ((s.clients c).received ++ [_]).map printedPart
    rw [List.map_append, h.printed]
    rfl
  · show ((s.clients c).toClient.drop size).length ≤ capacity
    rw [List.length_drop]
    exact (Nat.sub_le _ _).trans h.room.2

theorem serverRecv (h : Echoing capacity s c) (hserver : s.server = .receiving c) (size : ℕ) :
    Echoing capacity (s.serverRecv c size) c := by
  have hclient : (s.serverRecv c size).clients c = { s.clients c with
      toServer := (s.clients c).toServer.drop size
      heard := (s.clients c).heard ++ [(s.clients c).toServer.take size] } :=
    setClient_self _
  have hbefore : s.held c = [] := held_receiving hserver c
  have hheld : (s.serverRecv c size).held c = (s.clients c).toServer.take size :=
    held_afterEcho rfl
  have hflow : ((s.clients c).heard ++ [(s.clients c).toServer.take size]).flatten ++
      (s.clients c).toServer.drop size = (s.clients c).heard.flatten ++ (s.clients c).toServer := by
    simp [List.flatten_append]
  constructor
  case holding => exact fun _ => ne_nil_of_afterEcho
  all_goals simp only [hclient, hheld]
  · rw [hflow]
    exact h.toServer
  · refine h.toClient.trans ?_
    rw [List.flatten_append]
    exact List.prefix_append _ _
  · have hechoed := h.echoed
    simp only [List.flatten_append, List.length_append, List.flatten_singleton]
    omega
  · rw [hflow]
    exact h.sends
  · intro hphase _
    have hechoes := h.echoes hphase (alive_of_receiving hserver)
    rw [hbefore, List.append_nil] at hechoes
    rw [hechoes, List.flatten_append, List.flatten_singleton]
  · exact h.printed
  · show (s.log ++ [(c, _)]).filterMap _ = _
    rw [List.filterMap_append, List.map_append]
    refine congrArg₂ (· ++ ·) h.logged ?_
    simp
  · refine ⟨?_, h.room.2⟩
    rw [List.length_drop]
    exact (Nat.sub_le _ _).trans h.room.1
  · exact h.asking
  · exact h.sending

theorem serverSend (h : Echoing capacity s c) {rest : Bytes} {size : ℕ}
    (hserver : s.server = .sending c rest) (hphase : (s.clients c).phase ≠ .finished)
    (hsize : size ≤ rest.length) (hroom : (s.clients c).toClient.length + size ≤ capacity) :
    Echoing capacity (s.serverSend c rest size) c := by
  have hclient : (s.serverSend c rest size).clients c = { s.clients c with
      toClient := (s.clients c).toClient ++ rest.take size } :=
    setClient_self _
  have hbefore : s.held c = rest := held_sending hserver
  have hheld : (s.serverSend c rest size).held c = rest.drop size := held_afterEcho rfl
  have hechoes := h.echoes hphase (alive_of_sending hserver)
  rw [hbefore] at hechoes
  have hflow : (s.clients c).received.flatten ++ ((s.clients c).toClient ++ rest.take size) ++
      rest.drop size = (s.clients c).heard.flatten := by
    rw [← hechoes, ← List.append_assoc, List.append_assoc _ (rest.take size), List.take_append_drop]
  constructor
  case holding => exact fun _ => ne_nil_of_afterEcho
  all_goals simp only [hclient, hheld]
  · exact h.toServer
  · exact ⟨_, hflow⟩
  · have hechoed := h.echoed
    rw [hbefore] at hechoed
    rw [List.length_drop]
    omega
  · exact h.sends
  · exact fun _ _ => hflow
  · exact h.printed
  · exact h.logged
  · refine ⟨h.room.1, ?_⟩
    rw [List.length_append, List.length_take]
    omega
  · exact h.asking
  · exact h.sending

/-- When the client has left the server forgets what it holds. -/
theorem leave (h : Echoing capacity s c) (hphase : (s.clients c).phase = .finished)
    (hclient : t.clients c = s.clients c ∨ t.clients c = { s.clients c with reset := true })
    (hheld : t.held c = []) (hlog : t.log = s.log)
    (hholding : ∀ rest, t.server ≠ .sending c rest) : Echoing capacity t c := by
  have hechoed := h.echoed
  have hlogged : logOf t c = logOf s c := by
    unfold logOf
    rw [hlog]
  rcases hclient with hclient | hclient
  all_goals
    constructor
    case holding => exact fun rest hstage => absurd hstage (hholding rest)
    all_goals simp only [hclient, hheld, hlogged, List.length_nil]
    · exact h.toServer
    · exact h.toClient
    · omega
    · exact h.sends
    · exact fun hopen => absurd hphase hopen
    · exact h.printed
    · exact h.logged
    · exact h.room
    · exact h.asking
    · exact h.sending

/-- A step that concerns another client, of its own or with the server. -/
theorem ofOther {d : C} (h : Echoing capacity s d) {client : Client} (hne : c ≠ d)
    (hclients : t.clients = (s.setClient c client).clients)
    (hserver : t.server = s.server ∨ ∃ rest, t.server = System.afterEcho c rest)
    (hheld : s.held d = [] ∨ t.server = s.server) (halive : s.server = .killed → t.server = .killed)
    (hlog : logOf t d = logOf s d) : Echoing capacity t d := by
  have hclient : t.clients d = s.clients d := by
    rw [hclients]
    exact setClient_of_ne client hne
  refine h.other hclient ?_ halive hlog ?_
  · rcases hserver with hsame | ⟨rest, hecho⟩
    · unfold System.held
      rw [hsame]
    · rcases hheld with hnone | hsame
      · rw [held_afterEcho_of_ne hecho hne, hnone]
      · unfold System.held
        rw [hsame]
  · rcases hserver with hsame | ⟨rest, hecho⟩
    · rw [hsame]
      exact h.holding
    · rw [hecho]
      exact fun _ => ne_nil_of_afterEcho

theorem step {a : Action C} (h : ∀ c, Echoing capacity s c) (hstep : Step capacity s a t) (d : C) :
    Echoing capacity t d := by
  have hown : ∀ {c : C} {client : Client}, c ≠ d → Echoing capacity (s.setClient c client) d :=
    fun hne => (h d).ofOther hne rfl (Or.inl rfl) (Or.inr rfl) id rfl
  cases hstep with
  | @connect c hphase _ =>
    by_cases hcd : c = d
    · subst hcd
      exact (h c).connect hphase (setClient_self _) rfl rfl
    · exact (h d).ofOther hcd rfl (Or.inl rfl) (Or.inr rfl) id rfl
  | @type c line hphase =>
    by_cases hcd : c = d
    · subst hcd
      exact (h c).type hphase line
    · exact hown hcd
  | @send c size rest hphase hsize hroom =>
    by_cases hcd : c = d
    · subst hcd
      exact (h c).send hphase hsize.2 hroom
    · exact hown hcd
  | @recv c size hphase _ =>
    by_cases hcd : c = d
    · subst hcd
      exact (h c).recv hphase
    · exact hown hcd
  | @lost c hkilled hphase =>
    by_cases hcd : c = d
    · subst hcd
      exact (h c).ofClient (setClient_self _) rfl rfl rfl rfl (fun hne => absurd rfl hne)
        (h c).toServer (h c).echoed (fun hne => absurd rfl hne) (h c).printed (h c).room
        (fun hasks => by cases hasks) (fun _ hsends => by cases hsends)
    · exact hown hcd
  | @accept c rest hserver _ =>
    have hheld : s.held d = [] := by
      unfold System.held
      rw [hserver]
    refine (h d).other rfl hheld.symm ?_ rfl (fun _ hstage => by cases hstage)
    intro hkilled
    rw [hserver] at hkilled
    cases hkilled
  | @serverRecv c size hserver _ =>
    by_cases hcd : c = d
    · subst hcd
      exact (h c).serverRecv hserver size
    · refine (h d).ofOther hcd rfl (Or.inr ⟨_, rfl⟩) (Or.inl (held_receiving hserver d)) ?_ ?_
      · exact fun hkilled => absurd hkilled (alive_of_receiving hserver)
      · show (s.log ++ [(c, _)]).filterMap _ = logOf s d
        rw [List.filterMap_append]
        simp [hcd, logOf]
  | @serverSend c size rest hserver hphase hsize hroom =>
    by_cases hcd : c = d
    · subst hcd
      exact (h c).serverSend hserver hphase hsize.2 hroom
    · exact (h d).ofOther hcd rfl (Or.inr ⟨_, rfl⟩) (Or.inl (held_sending_of_ne hserver hcd))
        (fun hkilled => absurd hkilled (alive_of_sending hserver)) rfl
  | @drop c rest hserver hphase =>
    by_cases hcd : c = d
    · subst hcd
      exact (h c).leave hphase (Or.inr (setClient_self _)) rfl rfl
        (fun _ hstage => by cases hstage)
    · exact (h d).ofOther hcd rfl (Or.inr ⟨[], rfl⟩) (Or.inl (held_sending_of_ne hserver hcd))
        (fun hkilled => absurd hkilled (alive_of_sending hserver)) rfl
  | @sigpipe c rest hserver hphase =>
    by_cases hcd : c = d
    · subst hcd
      exact (h c).leave hphase (Or.inl rfl) rfl rfl (fun _ hstage => by cases hstage)
    · exact (h d).other rfl (held_sending_of_ne hserver hcd).symm (fun _ => rfl) rfl
        (fun _ hstage => by cases hstage)
  | @hangUp c hserver hphase =>
    exact (h d).other rfl (held_receiving hserver d).symm
      (fun hkilled => absurd hkilled (alive_of_receiving hserver)) rfl
      (fun _ hstage => by cases hstage)

theorem of_reachable {backlog : ℕ} {allowed : System C → Action C → Prop}
    (hs : Reachable (machine capacity backlog) allowed s) (c : C) : Echoing capacity s c :=
  hs.invariant (P := fun s => ∀ c, Echoing capacity s c) (fun _ => init)
    (fun _ _ _ h _ hnext => step h (step_of_next hnext)) c

end Echoing

section Killed

variable {capacity : ℕ} {s t : System C}

/-- A client has closed its socket before all that it had sent came back. -/
def LeftEarly (s : System C) (c : C) : Prop :=
  (s.clients c).phase = .finished ∧ (s.clients c).received.flatten ≠ (s.clients c).lines.flatten

/-- A client that has left takes no step any more. -/
theorem LeftEarly.setClient {c d : C} {client : Client} (h : LeftEarly s d)
    (hopen : (s.clients c).phase ≠ .finished) : LeftEarly (s.setClient c client) d := by
  have hne : c ≠ d := by
    intro heq
    rw [heq] at hopen
    exact hopen h.1
  unfold LeftEarly
  rw [setClient_of_ne client hne]
  exact h

theorem LeftEarly.step {a : Action C} (hechoing : ∀ c, Echoing capacity s c)
    (h : s.server = .killed → ∃ d, LeftEarly s d) (hstep : Step capacity s a t)
    (hkilled : t.server = .killed) : ∃ d, LeftEarly t d := by
  cases hstep with
  | connect _ halive => exact absurd hkilled halive
  | type hphase =>
    obtain ⟨d, hd⟩ := h hkilled
    exact ⟨d, hd.setClient (by rw [hphase]; exact Phase.noConfusion)⟩
  | send hphase _ _ =>
    obtain ⟨d, hd⟩ := h hkilled
    exact ⟨d, hd.setClient (by rw [hphase]; exact Phase.noConfusion)⟩
  | recv hphase _ =>
    obtain ⟨d, hd⟩ := h hkilled
    exact ⟨d, hd.setClient (by rw [hphase]; exact Phase.noConfusion)⟩
  | @lost c _ hphase =>
    obtain ⟨d, hd⟩ := h hkilled
    refine ⟨d, hd.setClient fun hfinished => ?_⟩
    rw [hfinished] at hphase
    cases hphase
  | accept _ _ | drop _ _ | hangUp _ _ => cases hkilled
  | @serverRecv c size _ _ =>
    have hstage : System.afterEcho c ((s.clients c).toServer.take size) = .killed := hkilled
    cases hbuffer : (s.clients c).toServer.take size <;> (rw [hbuffer] at hstage; cases hstage)
  | @serverSend c size rest _ _ _ _ =>
    have hstage : System.afterEcho c (rest.drop size) = .killed := hkilled
    cases hrest : rest.drop size <;> (rw [hrest] at hstage; cases hstage)
  | @sigpipe c rest hserver hphase =>
    refine ⟨c, hphase, ?_⟩
    intro (hall : (s.clients c).received.flatten = (s.clients c).lines.flatten)
    -- What the server holds has not come back.
    have hechoed := (hechoing c).echoed
    have hheard := (hechoing c).toServer.length_le
    have hlength := List.length_pos_of_ne_nil ((hechoing c).holding rest hserver)
    rw [held_sending hserver, hall] at hechoed
    rw [List.length_append] at hheard
    omega

end Killed

section Results

variable {capacity backlog : ℕ} {s : System C} {allowed : System C → Action C → Prop}

/-- What a client has received is a part of what the server has heard of it, and that of
what the client has sent, from the start and with nothing of another client between;
both print each piece that recv returned up to its first zero byte. While the client and
the server are there all the other bytes are on the way. -/
theorem echo_exact (hs : Reachable (machine capacity backlog) allowed s) (c : C) :
    ((s.clients c).received.flatten <+: (s.clients c).heard.flatten ∧
      (s.clients c).heard.flatten <+: (s.clients c).lines.flatten) ∧
    ((s.clients c).printed = (s.clients c).received.map printedPart ∧
      logOf s c = (s.clients c).heard.map printedPart) ∧
    ((s.clients c).phase ≠ .finished → s.server ≠ .killed →
      (s.clients c).received.flatten ++ (s.clients c).toClient ++ s.held c ++
        (s.clients c).toServer ++ (s.clients c).phase.unsent = (s.clients c).lines.flatten) := by
  have h := Echoing.of_reachable hs c
  refine ⟨⟨?_, ?_⟩, ⟨h.printed, h.logged⟩, fun hopen halive => ?_⟩
  · exact (List.prefix_append _ _).trans h.toClient
  · exact (List.prefix_append _ _).trans h.toServer
  · rw [h.echoes hopen halive, h.sends hopen]

/-- The server is ended by a signal only when a client has left before its last echo. -/
theorem killed_early (hs : Reachable (machine capacity backlog) allowed s)
    (hkilled : s.server = .killed) :
    ∃ c, (s.clients c).phase = .finished ∧
      (s.clients c).received.flatten ≠ (s.clients c).lines.flatten := by
  refine hs.invariant_of_reachable (P := fun s => s.server = .killed → ∃ c, LeftEarly s c)
    (fun hinit => by cases hinit) ?_ hkilled
  intro _ _ _ hreach h _ hnext
  exact LeftEarly.step (Echoing.of_reachable hreach) h (step_of_next hnext)

end Results

section Sample

/-- The line `ab` comes back in two pieces, and the user leaves after the first. -/
def earlySteps : List (Action Unit) :=
  [.connect (), .accept, .type () [97, 98], .send () 2, .serverRecv 1, .serverSend 1, .recv () 1]

theorem echo_exact_ab : ∃ s : System Unit, Reachable (machine 4 5) AnyStep s ∧
    ((s.clients ()).printed = [[97]] ∧ (s.clients ()).toServer = [98] ∧ logOf s () = [[97]]) ∧
    ((s.clients ()).received.flatten <+: (s.clients ()).heard.flatten ∧
      (s.clients ()).heard.flatten <+: (s.clients ()).lines.flatten) ∧
    ((s.clients ()).printed = (s.clients ()).received.map printedPart ∧
      logOf s () = (s.clients ()).heard.map printedPart) ∧
    ((s.clients ()).phase ≠ .finished → s.server ≠ .killed →
      (s.clients ()).received.flatten ++ (s.clients ()).toClient ++ s.held () ++
        (s.clients ()).toServer ++ (s.clients ()).phase.unsent = (s.clients ()).lines.flatten) := by
  have hrun : (run (machine 4 5) AnyStep (machine 4 5).init earlySteps).any (fun s =>
      (s.clients ()).printed = [[97]] ∧ (s.clients ()).toServer = [98] ∧ logOf s () = [[97]]) =
        true := by
    decide +kernel
  obtain ⟨s, hs, h⟩ := exists_reachable hrun
  exact ⟨s, hs, h, echo_exact hs ()⟩

theorem killed_early_ab : ∃ s : System Unit, Reachable (machine 4 5) AnyStep s ∧
    s.server = .killed ∧ ∃ c, (s.clients c).phase = .finished ∧
      (s.clients c).received.flatten ≠ (s.clients c).lines.flatten := by
  have hrun : (run (machine 4 5) AnyStep (machine 4 5).init (earlySteps ++
      [.type () (text "exit"), .serverRecv 1, .sigpipe])).any
        (fun s => s.server = .killed) = true := by
    decide +kernel
  obtain ⟨s, hs, h⟩ := exists_reachable hrun
  exact ⟨s, hs, h, killed_early hs h⟩

end Sample

end ChatServer.EchoServer
