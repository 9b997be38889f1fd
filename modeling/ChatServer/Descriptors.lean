import ChatServer.ConnectionTable

/-!
The lifetime of descriptors. No step but accept gives life to a connection, and
accept gives it a descriptor that no other connection alive has. So two
connections that are alive have different descriptors.
-/
namespace ChatServer.Descriptors

open ConnectionTable Lib.Shards

variable {s t : Server} {a : Action} {c d : ConnId} {fd : ℕ}

theorem fdOf_of_conn {closed : Bool} (h : s.conns c = some ⟨fd, closed⟩) : s.fdOf c = some fd := by
  simp [Server.fdOf, h]

/-- The exchange in close_conn: it has no effect on a closed connection. -/
theorem close_cases (s : Server) (thread : Thread) (c : ConnId) :
    s.close thread c = s ∨ ∃ fd, s.conns c = some ⟨fd, false⟩ ∧
      s.close thread c = { s with
        conns := Function.update s.conns c (some ⟨fd, true⟩)
        closing := Function.update s.closing thread (some (c, .exchanged)) } := by
  unfold Server.close
  split
  · rename_i fd hconn
    exact Or.inr ⟨fd, hconn, rfl⟩
  · exact Or.inl rfl

theorem fdOf_close (s : Server) (thread : Thread) (c : ConnId) :
    (s.close thread c).fdOf = s.fdOf := by
  rcases close_cases s thread c with heq | ⟨fd, hconn, heq⟩
  · rw [heq]
  · rw [heq]
    funext d
    by_cases hd : d = c
    · simp [Server.fdOf, hd, hconn]
    · simp [Server.fdOf, hd]

/-- A connection keeps its descriptor. -/
theorem fdOf_next (h : s.Moves a t) (ha : ∀ fd, a ≠ .accept fd) :
    t.fdOf = s.fdOf ∧ t.accepted = s.accepted := by
  cases h with
  | accept hreactor hfd hfree => exact absurd rfl (ha _)
  | @handleClose batch call calls messages shouldClose hreactor hclosing =>
    refine ⟨fdOf_close _ _ _, ?_⟩
    rcases close_cases { s.addRefs call.conn messages with
      reactor := .dispatching batch calls
      called := s.called ++ [call] } .reactor call.conn with heq | ⟨fd, _, heq⟩
    · rw [heq]
      rfl
    · rw [heq]
      rfl
  | @logicClose c hclosing hrefs =>
    refine ⟨fdOf_close s .logic c, ?_⟩
    rcases close_cases s .logic c with heq | ⟨fd, _, heq⟩
    · rw [heq]
    · rw [heq]
  | _ => exact ⟨rfl, rfl⟩

theorem refs_calls (bits : ReadyBits) (source c : ConnId) :
    ∀ d ∈ (bits.calls source c).map Call.conn, d = c := by
  unfold ReadyBits.calls
  intro d hd
  split at hd
  · simpa using hd
  · rw [List.map_append, List.mem_append] at hd
    rcases hd with hd | hd
    · split at hd
      · simpa using hd
      · cases hd
    · split at hd
      · simpa using hd
      · cases hd

theorem alive_of_logicRefs (h : 0 < s.logicRefs c) : s.Alive c :=
  .inr (.inr (.inr (.inr (.inl h))))

theorem alive_of_has (h : s.table.Has c) : s.Alive c := .inl h

theorem alive_of_lookup (h : s.table.lookup fd = some c) : s.Alive c :=
  alive_of_has ((s.table.has_iff).mpr ⟨fd, h⟩)

theorem alive_of_reactor (h : c ∈ s.reactor.refs) : s.Alive c := .inr (.inl h)

theorem alive_of_closing {thread : Thread} (h : (s.closing thread).map Prod.fst = some c) :
    s.Alive c := by
  cases thread with
  | reactor => exact .inr (.inr (.inl h))
  | logic => exact .inr (.inr (.inr (.inl h)))

theorem alive_of_poolRefs (h : 0 < s.poolRefs c) : s.Alive c :=
  .inr (.inr (.inr (.inr (.inr h))))

/-- Where the references of a state come from. -/
theorem alive_elim {P : ConnId → Prop} (h : s.Alive c) (htable : ∀ d, s.table.Has d → P d)
    (hreactor : ∀ d ∈ s.reactor.refs, P d)
    (hclosing : ∀ thread d, (s.closing thread).map Prod.fst = some d → P d)
    (hlogic : ∀ d, 0 < s.logicRefs d → P d) (hpool : ∀ d, 0 < s.poolRefs d → P d) : P c := by
  rcases h with h | h | h | h | h | h
  · exact htable c h
  · exact hreactor c h
  · exact hclosing .reactor c h
  · exact hclosing .logic c h
  · exact hlogic c h
  · exact hpool c h

theorem closing_update {closing : Thread → Option (ConnId × CloseStage)} {thread thread' : Thread}
    {stage : Option (ConnId × CloseStage)}
    (h : (Function.update closing thread' stage thread).map Prod.fst = some d) :
    stage.map Prod.fst = some d ∨ (closing thread).map Prod.fst = some d := by
  rw [Function.update_apply] at h
  split at h
  · exact Or.inl h
  · exact Or.inr h

/-- Whom the reactor refers to in its next step. -/
theorem alive_setReactor {reactor : Reactor} (hc : ({ s with reactor := reactor } : Server).Alive c)
    (hrefs : ∀ d ∈ reactor.refs, s.Alive d) : s.Alive c :=
  alive_elim hc (fun _ h => alive_of_has h) hrefs (fun _ _ h => alive_of_closing h)
    (fun _ h => alive_of_logicRefs h) fun _ h => alive_of_poolRefs h

theorem alive_setPoolRefs {refs : ConnId → ℕ} (hc : ({ s with poolRefs := refs } : Server).Alive c)
    (hrefs : ∀ d, 0 < refs d → s.Alive d) : s.Alive c :=
  alive_elim hc (fun _ h => alive_of_has h) (fun _ h => alive_of_reactor h)
    (fun _ _ h => alive_of_closing h) (fun _ h => alive_of_logicRefs h) hrefs

theorem alive_setLogicRefs {refs : ConnId → ℕ}
    (hc : ({ s with logicRefs := refs } : Server).Alive c)
    (hrefs : ∀ d, 0 < refs d → s.Alive d) : s.Alive c :=
  alive_elim hc (fun _ h => alive_of_has h) (fun _ h => alive_of_reactor h)
    (fun _ _ h => alive_of_closing h) hrefs fun _ h => alive_of_poolRefs h

theorem pos_update {refs : ConnId → ℕ} {count : ℕ} (h : 0 < Function.update refs c count d) :
    d = c ∨ 0 < refs d := by
  by_cases hd : d = c
  · exact Or.inl hd
  · exact Or.inr (by simpa [hd] using h)

theorem alive_addRefs {count : ℕ} (hd : (s.addRefs c count).Alive d) : d = c ∨ s.Alive d := by
  refine alive_elim (P := fun d => d = c ∨ s.Alive d) hd (fun _ h => .inr (alive_of_has h))
    (fun _ h => .inr (alive_of_reactor h)) (fun _ _ h => .inr (alive_of_closing h)) ?_
    (fun _ h => .inr (alive_of_poolRefs h))
  intro e he
  exact (pos_update he).imp_right alive_of_logicRefs

theorem alive_setClosing {thread : Thread} {stage : Option (ConnId × CloseStage)}
    (hd : (s.setClosing thread stage).Alive d) : stage.map Prod.fst = some d ∨ s.Alive d := by
  refine alive_elim (P := fun d => stage.map Prod.fst = some d ∨ s.Alive d) hd
    (fun _ h => .inr (alive_of_has h)) (fun _ h => .inr (alive_of_reactor h)) ?_
    (fun _ h => .inr (alive_of_logicRefs h)) (fun _ h => .inr (alive_of_poolRefs h))
  intro thread' d' h
  exact (closing_update h).imp_right alive_of_closing

/-- close_conn gives no reference to a connection but its own. -/
theorem alive_close {thread : Thread} (h : (s.close thread c).Alive d) : d = c ∨ s.Alive d := by
  rcases close_cases s thread c with heq | ⟨fd, _, heq⟩
  · rw [heq] at h
    exact Or.inr h
  · rw [heq] at h
    have hset : (s.setClosing thread (some (c, .exchanged))).Alive d := h
    exact (alive_setClosing hset).imp_left fun hown => (Option.some.inj hown).symm

/-- close_conn goes on with its connection. -/
theorem alive_goOn {thread : Thread} {stage stage' : CloseStage}
    (hclosing : s.closing thread = some (c, stage))
    (hd : (s.setClosing thread (some (c, stage'))).Alive d) : s.Alive d := by
  rcases alive_setClosing hd with hown | hbefore
  · have hbefore : (s.closing thread).map Prod.fst = some d := by
      rw [hclosing]
      exact hown
    exact alive_of_closing hbefore
  · exact hbefore

/-- A call is taken off the batch, and its events are pushed. -/
theorem alive_handle {batch : List Ready} {call : Call} {calls : List Call} {messages : ℕ}
    (hreactor : s.reactor = .dispatching batch (call :: calls))
    (hc : ({ s.addRefs call.conn messages with
      reactor := .dispatching batch calls } : Server).Alive c) : s.Alive c := by
  have hrest : (s.addRefs call.conn messages).Alive c := by
    refine alive_setReactor hc fun d hd => alive_of_reactor ?_
    show d ∈ s.reactor.refs
    rw [hreactor]
    exact List.mem_cons_of_mem _ hd
  rcases alive_addRefs hrest with rfl | hbefore
  · exact alive_of_reactor (by simp [hreactor, Reactor.refs])
  · exact hbefore

theorem alive_insert {rest : List Ready} (hreactor : s.reactor = .accepting rest (some (c, .made)))
    (hd : ({ s with
      table := s.table.insert fd c
      reactor := .accepting rest (some (c, .inserted)) } : Server).Alive d) : s.Alive d := by
  refine alive_elim hd ?_ ?_ (fun _ _ h => alive_of_closing h) (fun _ h => alive_of_logicRefs h)
    fun _ h => alive_of_poolRefs h
  · intro e he
    rcases ShardedMap.has_of_insert he with rfl | he
    · exact alive_of_reactor (by simp [hreactor, Reactor.refs])
    · exact alive_of_has he
  · intro e he
    exact alive_of_reactor (by rw [hreactor]; exact he)

theorem alive_erase (hd : ({ s with table := s.table.erase fd } : Server).Alive d) : s.Alive d :=
  alive_elim hd (fun _ h => alive_of_has (ShardedMap.has_of_erase h))
    (fun _ h => alive_of_reactor h) (fun _ _ h => alive_of_closing h)
    (fun _ h => alive_of_logicRefs h) fun _ h => alive_of_poolRefs h

/-- Only accept brings a connection to life. -/
theorem alive_next (h : s.Moves a t) (ha : ∀ fd, a ≠ .accept fd) (hc : t.Alive c) :
    s.Alive c := by
  cases h with
  | accept _ _ _ => exact absurd rfl (ha _)
  | epollWait _ _ | listen _ _ | other _ _ | missing _ _ _ | endBatch _ | acceptFails _ =>
    exact alive_setReactor hc fun d hd => by cases hd
  | @timer rest timedOut _ hmapped =>
    refine alive_setReactor hc fun d hd => ?_
    have hin : d ∈ timedOut := by simpa [Reactor.refs] using hd
    exact alive_of_has (hmapped d hin)
  | found timedOut _ hlookup =>
    refine alive_setReactor hc fun d hd => ?_
    rw [refs_calls _ _ _ d hd]
    exact alive_of_lookup hlookup
  | handle messages hreactor => exact alive_handle hreactor hc
  | @handleClose batch call calls messages shouldClose hreactor _ =>
    rcases alive_close hc with rfl | hc
    · exact alive_of_reactor (by simp [hreactor, Reactor.refs])
    · exact alive_handle hreactor hc
  | insert hreactor _ => exact alive_insert hreactor hc
  | register hreactor | count hreactor =>
    exact alive_setReactor hc fun d hd => alive_of_reactor (by rw [hreactor]; exact hd)
  | @pushConnect rest c' hreactor =>
    have hadded : (s.addRefs c' 1).Alive c := alive_setReactor hc fun d hd => by cases hd
    rcases alive_addRefs hadded with rfl | hbefore
    · exact alive_of_reactor (by simp [hreactor, Reactor.refs])
    · exact hbefore
  | logicClose _ hrefs =>
    rcases alive_close hc with rfl | hc
    · exact alive_of_logicRefs hrefs
    · exact hc
  | closeCount hclosing | closeDelete hclosing => exact alive_goOn hclosing hc
  | @closePush thread c' hclosing =>
    rcases alive_addRefs (alive_goOn (s := s.addRefs c' 1) hclosing hc) with rfl | hbefore
    · have hown : (s.closing thread).map Prod.fst = some c := by
        rw [hclosing]
        rfl
      exact alive_of_closing hown
    · exact hbefore
  | closeErase _ _ =>
    rcases alive_setClosing hc with hnone | herased
    · cases hnone
    · exact alive_erase herased
  | copyRef hrefs =>
    rcases alive_addRefs hc with rfl | hbefore
    · exact alive_of_logicRefs hrefs
    · exact hbefore
  | dropRef hrefs =>
    refine alive_setLogicRefs hc fun d hd => ?_
    rcases pos_update hd with rfl | hd
    · exact alive_of_logicRefs hrefs
    · exact alive_of_logicRefs hd
  | snapshot hmapped =>
    refine alive_setPoolRefs hc fun d hd => ?_
    rcases pos_update hd with rfl | hd
    · exact alive_of_has hmapped
    · exact alive_of_poolRefs hd
  | dropSnapshot hrefs =>
    refine alive_setPoolRefs hc fun d hd => ?_
    rcases pos_update hd with rfl | hd
    · exact alive_of_poolRefs hrefs
    · exact alive_of_poolRefs hd

section Accept

variable {rest : List Ready}

theorem fdOf_accept :
    ({ s with
      conns := Function.update s.conns s.accepted (some ⟨fd, false⟩)
      accepted := s.accepted + 1
      reactor := .accepting rest (some (s.accepted, .made)) } : Server).fdOf c =
      if c = s.accepted then some fd else s.fdOf c := by
  by_cases hc : c = s.accepted
  · simp [Server.fdOf, hc]
  · simp [Server.fdOf, hc]

theorem alive_accept (h : ({ s with
      conns := Function.update s.conns s.accepted (some ⟨fd, false⟩)
      accepted := s.accepted + 1
      reactor := .accepting rest (some (s.accepted, .made)) } : Server).Alive c) :
    c = s.accepted ∨ s.Alive c := by
  refine alive_elim (P := fun c => c = s.accepted ∨ s.Alive c) h
    (fun d hd => .inr (alive_of_has hd)) (fun d hd => .inl (by simpa [Reactor.refs] using hd))
    (fun _ d hd => .inr (alive_of_closing hd)) (fun d hd => .inr (alive_of_logicRefs hd))
    (fun d hd => .inr (alive_of_poolRefs hd))

end Accept

/-- Connections that are alive have different descriptors. -/
structure Referenced (s : Server) : Prop where
  known : ∀ c : ℕ, s.fdOf c = none ↔ s.accepted ≤ c
  refs : ∀ c, s.Alive c → s.fdOf c ≠ none
  distinct : ∀ c d fd, s.Alive c → s.Alive d → s.fdOf c = some fd → s.fdOf d = some fd → c = d
  bounded : ∀ c fd, s.fdOf c = some fd → fd < maxFd

namespace Referenced

theorem init : Referenced Server.init := by
  have hdead : ∀ c, ¬ Server.init.Alive c := by
    intro c hc
    refine alive_elim (P := fun _ => False) hc ?_ (fun d hd => by cases hd)
      (fun _ d hd => by cases hd) (fun d hd => absurd hd (Nat.lt_irrefl 0))
      (fun d hd => absurd hd (Nat.lt_irrefl 0))
    intro d hd
    obtain ⟨fd, hfd⟩ := (ShardedMap.has_iff _).mp hd
    simp [Server.init] at hfd
  exact ⟨fun c => iff_of_true rfl (Nat.zero_le c), fun c hc => absurd hc (hdead c),
    fun c d fd hc => absurd hc (hdead c), fun c fd hc => by cases hc⟩

/-- accept returns a descriptor that no connection alive has. -/
theorem accept {rest : List Ready} (h : Referenced s) (hfd : fd < maxFd)
    (hfree : ¬ s.FdOpen fd) :
    Referenced { s with
      conns := Function.update s.conns s.accepted (some ⟨fd, false⟩)
      accepted := s.accepted + 1
      reactor := .accepting rest (some (s.accepted, .made)) } := by
  -- The descriptor is not that of another connection that is alive.
  have hother : ∀ c, s.Alive c → s.fdOf c ≠ some fd := by
    intro c hc hcfd
    refine hfree ⟨c, ?_, hc, hcfd⟩
    by_contra hlt
    rw [(h.known c).mpr (by omega)] at hcfd
    cases hcfd
  refine ⟨?_, ?_, ?_, ?_⟩
  · intro c
    rw [fdOf_accept]
    dsimp only
    split
    · rename_i hc
      subst hc
      simp only [reduceCtorEq, false_iff]
      omega
    · rename_i hc
      have hne : c ≠ s.accepted := hc
      rw [h.known c]
      omega
  · intro c hc
    rw [fdOf_accept]
    split
    · simp
    · rename_i hne
      exact h.refs c ((alive_accept hc).resolve_left hne)
  · intro c d fd' hc hd hcfd hdfd
    rw [fdOf_accept] at hcfd hdfd
    split at hcfd
    · rename_i hcnew
      cases hcfd
      split at hdfd
      · rename_i hdnew
        exact hcnew.trans hdnew.symm
      · rename_i hne
        exact absurd hdfd (hother d ((alive_accept hd).resolve_left hne))
    · rename_i hne
      split at hdfd
      · cases hdfd
        exact absurd hcfd (hother c ((alive_accept hc).resolve_left hne))
      · rename_i hne'
        exact h.distinct c d fd' ((alive_accept hc).resolve_left hne)
          ((alive_accept hd).resolve_left hne') hcfd hdfd
  · intro c fd' hc
    rw [fdOf_accept] at hc
    split at hc
    · cases hc
      exact hfd
    · exact h.bounded c fd' hc

theorem step (h : Referenced s) (hmoves : s.Moves a t) : Referenced t := by
  by_cases ha : ∀ fd, a ≠ .accept fd
  · obtain ⟨hfds, haccepted⟩ := fdOf_next hmoves ha
    refine ⟨?_, ?_, ?_, ?_⟩
    · rw [hfds, haccepted]
      exact h.known
    · rw [hfds]
      exact fun c hc => h.refs c (alive_next hmoves ha hc)
    · rw [hfds]
      exact fun c d fd hc hd =>
        h.distinct c d fd (alive_next hmoves ha hc) (alive_next hmoves ha hd)
    · rw [hfds]
      exact h.bounded
  · obtain ⟨fd, rfl⟩ := not_forall_not.mp ha
    cases hmoves with
    | accept hreactor hfd hfree => exact h.accept hfd hfree

end Referenced

end ChatServer.Descriptors
