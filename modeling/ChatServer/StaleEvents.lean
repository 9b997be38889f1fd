import ChatServer.Ownership

/-!
The events of a batch. Run looks up the connection of an event by its
descriptor, when it comes to the event. The entry that it finds is that of the
connection for which the event was reported, unless accept_loop has made an
entry for the same descriptor since.
-/
namespace ChatServer.StaleEvents

open ConnectionTable Descriptors Ownership Lib.Runs Lib.Shards

variable {s t : Server} {a : Action}

/-- The entries of the batch that Run has yet to come to. -/
def batchLeft : Reactor → List Ready
  | .waiting => []
  | .dispatching batch _ => batch
  | .accepting batch _ => batch

def callsLeft : Reactor → List Call
  | .dispatching _ calls => calls
  | _ => []

/-- `events[i].data.fd`, for a connection. -/
def readyFd : Ready → Option ℕ
  | .conn fd _ _ => some fd
  | _ => none

/-- accept returns no descriptor for which an event is left in the batch. -/
def NoEventLeft (s : Server) : Action → Prop
  | .accept fd => ∀ e ∈ batchLeft s.reactor, readyFd e ≠ some fd
  | _ => True

instance (s : Server) (a : Action) : Decidable (NoEventLeft s a) := by
  unfold NoEventLeft
  split <;> infer_instance

theorem calls_same (bits : ReadyBits) (c : ConnId) :
    ∀ call ∈ bits.calls c c, call.conn = call.source := by
  unfold ReadyBits.calls
  intro call hcall
  split at hcall
  · rw [List.mem_singleton.mp hcall]
  · rcases List.mem_append.mp hcall with hcall | hcall
    · split at hcall
      · rw [List.mem_singleton.mp hcall]
      · cases hcall
    · split at hcall
      · rw [List.mem_singleton.mp hcall]
      · cases hcall

/-- What is looked up for an event that is left is its connection or nothing. -/
structure Current (s : Server) : Prop where
  left : ∀ fd bits source, .conn fd bits source ∈ batchLeft s.reactor →
    s.fdOf source = some fd ∧ ∀ c, s.table.lookup fd = some c → c = source
  making : ∀ c stage, inHand s.reactor = some (c, stage) →
    ∀ e ∈ batchLeft s.reactor, ∀ fd, readyFd e = some fd → s.fdOf c ≠ some fd
  calls : ∀ call ∈ callsLeft s.reactor, call.conn = call.source
  called : ∀ call ∈ s.called, call.conn = call.source

namespace Current

/-- A step that makes no entry. -/
theorem same (h : Current s) (hfds : t.fdOf = s.fdOf)
    (hbatch : ∀ e ∈ batchLeft t.reactor, e ∈ batchLeft s.reactor)
    (htable : ∀ fd c, t.table.lookup fd = some c → s.table.lookup fd = some c)
    (hmaking : ∀ c stage, inHand t.reactor = some (c, stage) →
      ∃ stage', inHand s.reactor = some (c, stage'))
    (hcalls : ∀ call ∈ callsLeft t.reactor, call.conn = call.source)
    (hcalled : ∀ call ∈ t.called, call.conn = call.source) : Current t := by
  refine ⟨?_, ?_, hcalls, hcalled⟩
  · intro fd bits source hin
    obtain ⟨hfd, hsource⟩ := h.left fd bits source (hbatch _ hin)
    rw [hfds]
    exact ⟨hfd, fun c hc => hsource c (htable fd c hc)⟩
  · intro c stage hc e he fd hfd
    obtain ⟨stage', hs⟩ := hmaking c stage hc
    rw [hfds]
    exact h.making c stage' hs e (hbatch e he) fd hfd

theorem close {thread : Thread} (h : Current s) (c : ConnId) : Current (s.close thread c) := by
  have hfds := fdOf_close s thread c
  rcases close_cases s thread c with heq | ⟨fd, _, heq⟩
  · rw [heq]
    exact h
  · rw [heq] at hfds ⊢
    exact h.same hfds (fun _ he => he) (fun _ _ hc => hc) (fun _ stage hc => ⟨stage, hc⟩) h.calls
      h.called

/-- The same, with no connection in hand and no call to make. -/
theorem resting (h : Current s) (hfds : t.fdOf = s.fdOf)
    (hbatch : ∀ e ∈ batchLeft t.reactor, e ∈ batchLeft s.reactor)
    (htable : ∀ fd c, t.table.lookup fd = some c → s.table.lookup fd = some c)
    (hidle : inHand t.reactor = none) (hcalls : callsLeft t.reactor = [])
    (hcalled : t.called = s.called) : Current t := by
  refine h.same hfds hbatch htable ?_ ?_ ?_
  · intro c stage hc
    cases hidle.symm.trans hc
  · simp [hcalls]
  · rw [hcalled]
    exact h.called

/-- Run comes to the next entry of the batch. -/
theorem dispatched {e : Ready} {rest : List Ready} {reactor : Reactor} (h : Current s)
    (hreactor : s.reactor = .dispatching (e :: rest) []) (hbatch : batchLeft reactor = rest)
    (hidle : inHand reactor = none)
    (hcalls : ∀ call ∈ callsLeft reactor, call.conn = call.source) :
    Current { s with reactor := reactor } := by
  refine h.same rfl ?_ (fun _ _ hc => hc) ?_ hcalls h.called
  · intro e' he'
    rw [hreactor]
    exact List.mem_cons_of_mem e (hbatch ▸ he')
  · intro c stage hc
    cases hidle.symm.trans hc

/-- A step of accept_loop with the connection that it has in hand. -/
theorem restage {rest : List Ready} {c : ConnId} {stage stage' : AcceptStage} (h : Current s)
    (hs : s.reactor = .accepting rest (some (c, stage)))
    (ht : t.reactor = .accepting rest (some (c, stage'))) (hfds : t.fdOf = s.fdOf)
    (htable : t.table = s.table) (hcalled : t.called = s.called) : Current t := by
  refine h.same hfds ?_ (fun _ _ hc => by rwa [htable] at hc) ?_ ?_ ?_
  · rw [hs, ht]
    exact fun _ he => he
  · intro d stage hd
    rw [ht] at hd
    cases hd
    exact ⟨_, by rw [hs]; rfl⟩
  · rw [ht]
    exact nofun
  · rw [hcalled]
    exact h.called

theorem call {batch : List Ready} {call : Call} {calls : List Call} (h : Current s)
    (hreactor : s.reactor = .dispatching batch (call :: calls)) (messages : ℕ) :
    Current { s.addRefs call.conn messages with
      reactor := .dispatching batch calls
      called := s.called ++ [call] } := by
  have hcalls := h.calls
  rw [hreactor] at hcalls
  refine h.same rfl ?_ (fun _ _ hc => hc) nofun ?_ ?_
  · rw [hreactor]
    exact fun _ he => he
  · exact fun call hcall => hcalls call (List.mem_cons_of_mem _ hcall)
  · intro call' hcall
    rcases List.mem_append.mp hcall with hcall | hcall
    · exact h.called call' hcall
    · rw [List.mem_singleton.mp hcall]
      exact hcalls call List.mem_cons_self

theorem accept {rest : List Ready} {fd : ℕ} (h : Current s) (href : Referenced s)
    (hreactor : s.reactor = .accepting rest none)
    (hfree : ∀ e ∈ batchLeft s.reactor, readyFd e ≠ some fd) :
    Current { s with
      conns := Function.update s.conns s.accepted (some ⟨fd, false⟩)
      accepted := s.accepted + 1
      reactor := .accepting rest (some (s.accepted, .made)) } := by
  rw [hreactor] at hfree
  refine ⟨?_, ?_, nofun, h.called⟩
  · intro fd' bits source hin
    obtain ⟨hfd', hsource⟩ := h.left fd' bits source (by rw [hreactor]; exact hin)
    refine ⟨?_, hsource⟩
    have hne : source ≠ s.accepted := by
      intro heq
      rw [(href.known source).mpr (le_of_eq heq.symm)] at hfd'
      cases hfd'
    simpa [Server.fdOf, hne] using hfd'
  · intro c stage hc e he fd' hfd'
    cases hc
    have hne : fd ≠ fd' := by
      rintro rfl
      exact hfree e he hfd'
    simpa [Server.fdOf] using hne

theorem step (h : Current s) (howned : Owned s) (hallowed : NoEventLeft s a)
    (hmoves : s.Moves a t) : Current t := by
  have hlisted := howned.listed
  cases hmoves with
  | @epollWait batch hreactor hreported =>
    refine ⟨?_, by simp [inHand], by simp [callsLeft], h.called⟩
    intro fd bits source hin
    obtain ⟨hinterest, hfd⟩ := hreported _ hin
    refine ⟨hfd, fun c hc => ?_⟩
    obtain ⟨k, hk⟩ := hlisted.interest source hinterest
    cases hfd.symm.trans (hlisted.keyed k source hk)
    exact Option.some.inj (hc.symm.trans hk)
  | listen timedOut hreactor => exact h.dispatched hreactor rfl rfl (by simp [callsLeft])
  | timer hreactor hmapped =>
    refine h.dispatched hreactor rfl rfl ?_
    intro call hcall
    obtain ⟨c, _, rfl⟩ := List.mem_map.mp hcall
    rfl
  | other timedOut hreactor => exact h.dispatched hreactor rfl rfl (by simp [callsLeft])
  | @found rest fd bits source c timedOut hreactor hlookup =>
    obtain ⟨_, hsource⟩ := h.left fd bits source (by simp [hreactor, batchLeft])
    cases hsource c hlookup
    exact h.dispatched hreactor rfl rfl (calls_same bits source)
  | missing timedOut hreactor hlookup => exact h.dispatched hreactor rfl rfl (by simp [callsLeft])
  | handle messages hreactor => exact h.call hreactor messages
  | handleClose messages shouldClose hreactor hclosing => exact (h.call hreactor messages).close _
  | endBatch hreactor =>
    exact h.resting rfl (by simp [batchLeft]) (fun _ _ hc => hc) rfl rfl rfl
  | accept hreactor hfd hfree => exact h.accept howned.referenced hreactor hallowed
  | @insert rest c fd hreactor hfd =>
    have hmaking := h.making c .made (by simp [hreactor, inHand])
    rw [hreactor] at hmaking
    refine ⟨?_, ?_, by simp [callsLeft], h.called⟩
    · intro fd' bits source hin
      obtain ⟨hfd', hsource⟩ := h.left fd' bits source (by simpa [hreactor, batchLeft] using hin)
      refine ⟨hfd', ?_⟩
      have hne : fd' ≠ fd := by
        rintro rfl
        exact hmaking _ hin fd' rfl hfd
      intro d hd
      rw [ShardedMap.lookup_insert_ne _ _ hne] at hd
      exact hsource d hd
    · intro d stage hd
      cases hd
      exact hmaking
  | register hreactor => exact h.restage hreactor rfl rfl rfl rfl
  | count hreactor => exact h.restage hreactor rfl rfl rfl rfl
  | pushConnect hreactor =>
    refine h.resting rfl ?_ (fun _ _ hc => hc) rfl rfl rfl
    intro e he
    rw [hreactor]
    exact he
  | acceptFails hreactor =>
    refine h.resting rfl ?_ (fun _ _ hc => hc) rfl rfl rfl
    intro e he
    rw [hreactor]
    exact he
  | logicClose hclosing hrefs => exact h.close _
  | closeErase hclosing hfd =>
    refine h.same rfl (fun _ he => he) ?_ (fun _ stage hc => ⟨stage, hc⟩) h.calls h.called
    intro k d hd
    exact ShardedMap.lookup_of_erase hd
  | _ =>
    exact h.same rfl (fun _ he => he) (fun _ _ hc => hc) (fun _ stage hc => ⟨stage, hc⟩) h.calls
      h.called

theorem init : Current Server.init := ⟨nofun, nofun, nofun, nofun⟩

end Current

/-- Run makes no call with a connection but that of the event, in every run in
which accept returns no descriptor with an event left in the batch. -/
theorem events_reach_their_connection (hs : Reachable machine NoEventLeft s) :
    ∀ call ∈ s.called, call.conn = call.source := by
  have hcurrent : Current s := by
    refine hs.invariant_of_reachable (P := Current) Current.init ?_
    intro s a t hs h hallowed hnext
    exact h.step (owned hs) hallowed (Server.next_moves hnext)
  exact hcurrent.called

section Samples

/-- A connection is accepted and sends 61 messages at once, the last of which
is one too many. -/
def floodSteps : List Action :=
  [.epollWait [.listen]] ++ acceptSteps 9 ++ [.endBatch,
    .epollWait [.conn 9 ⟨false, true, false⟩ 0], .dispatch [], .handle 61 false, .endBatch]

/-- A batch with a new connection and a hang-up. -/
def hangupBatch : List Ready := [.listen, .conn 9 ⟨true, false, false⟩ 0]

theorem events_reach_their_connection_sample :
    ∃ s, Reachable machine NoEventLeft s ∧ s.called = [⟨.handleRead, 0, 0⟩, ⟨.closeConn, 0, 0⟩] ∧
      ∀ call ∈ s.called, call.conn = call.source := by
  have hrun : (run machine NoEventLeft Server.init
      (floodSteps ++ [.epollWait hangupBatch] ++ acceptSteps 10 ++
        [.dispatch [], .handle 0 false])).any (fun s =>
      s.called = [⟨.handleRead, 0, 0⟩, ⟨.closeConn, 0, 0⟩]) := by
    decide +kernel
  obtain ⟨s, hs, hcalled⟩ := exists_reachable hrun
  exact ⟨s, hs, hcalled, events_reach_their_connection hs⟩

/-- The logic thread closes the connection and drops the last references while
Run has the batch, and the new connection gets the descriptor: the hang-up
closes the new connection. -/
theorem hangup_closes_new_connection :
    ∃ s, Reachable machine AnyStep s ∧ ⟨.closeConn, 0, 1⟩ ∈ s.called ∧
      s.closing .reactor = some (1, .exchanged) := by
  have hrun : (run machine AnyStep Server.init
      (floodSteps ++ [.epollWait hangupBatch] ++ List.replicate 61 (.dropRef 0) ++
        [.logicClose 0] ++ closeSteps .logic ++ List.replicate 2 (.dropRef 0) ++ acceptSteps 9 ++
        [.dispatch [], .handle 0 false])).any (fun s =>
      ⟨.closeConn, 0, 1⟩ ∈ s.called ∧ s.closing .reactor = some (1, .exchanged)) := by
    decide +kernel
  exact exists_reachable hrun

end Samples

end ChatServer.StaleEvents
