import ChatServer.Descriptors

/-!
The table of connections. Two connections that are both alive have different
descriptors, so a descriptor has one entry at most, and it is the entry of the
connection that owns the descriptor. An entry is made once and erased once, by
the thread that won the exchange, and the counter of active connections goes
with it.
-/
namespace ChatServer.Ownership

open ConnectionTable Descriptors Lib.Runs Lib.Shards

variable {s t : Server} {a : Action} {c d : ConnId} {fd : ℕ}

section Entries

/-- The connection that accept_loop has in hand. -/
def inHand : Reactor → Option (ConnId × AcceptStage)
  | .accepting _ conn => conn
  | _ => none

/-- Every open connection has its entry, except while it is being made; and a
thread that closes one still finds it. -/
structure Listed (s : Server) : Prop where
  keyed : ∀ fd c, s.table.lookup fd = some c → s.fdOf c = some fd
  mapped : ∀ c fd, s.conns c = some ⟨fd, false⟩ → inHand s.reactor ≠ some (c, .made) →
    s.table.lookup fd = some c
  closing : ∀ thread c stage, s.closing thread = some (c, stage) →
    ∃ fd, s.conns c = some ⟨fd, true⟩ ∧ s.table.lookup fd = some c
  apart : ∀ thread thread' c stage stage', s.closing thread = some (c, stage) →
    s.closing thread' = some (c, stage') → thread = thread'
  making : ∀ c stage, inHand s.reactor = some (c, stage) → ∃ fd, s.conns c = some ⟨fd, false⟩ ∧
    s.logicRefs c = 0 ∧ (stage = .made → s.table.lookup fd = none)
  interest : ∀ c ∈ s.interest, ∃ fd, s.table.lookup fd = some c
  deleted : ∀ thread c, s.closing thread = some (c, .deleted) → c ∉ s.interest

namespace Listed

theorem init : Listed Server.init :=
  ⟨by simp [Server.init], nofun, nofun, nofun, nofun, nofun, nofun⟩

/-- A step that keeps the table and what close_conn has in hand. -/
theorem same (h : Listed s) (hconns : t.conns = s.conns) (htable : t.table = s.table)
    (hclosing : t.closing = s.closing) (hinterest : t.interest = s.interest)
    (hmade : ∀ c, inHand s.reactor = some (c, .made) →
      inHand t.reactor = some (c, .made))
    (hmaking : ∀ c stage, inHand t.reactor = some (c, stage) →
      ∃ stage', inHand s.reactor = some (c, stage') ∧ (stage = .made → stage' = .made) ∧
        t.logicRefs c = s.logicRefs c) : Listed t := by
  have hfds : t.fdOf = s.fdOf := by
    unfold Server.fdOf
    rw [hconns]
  refine ⟨?_, ?_, ?_, ?_, ?_, ?_, ?_⟩
  · rw [htable, hfds]
    exact h.keyed
  · rw [hconns, htable]
    exact fun c fd hc hnot => h.mapped c fd hc fun hs => hnot (hmade c hs)
  · rw [hclosing, hconns, htable]
    exact h.closing
  · rw [hclosing]
    exact h.apart
  · intro c stage hc
    obtain ⟨stage', hs, hstage, hrefs⟩ := hmaking c stage hc
    obtain ⟨fd, hconn, hnone, hmissing⟩ := h.making c stage' hs
    rw [hconns, htable, hrefs]
    exact ⟨fd, hconn, hnone, fun hst => hmissing (hstage hst)⟩
  · rw [hinterest, htable]
    exact h.interest
  · rw [hclosing, hinterest]
    exact h.deleted

/-- Outside of accept_loop. -/
theorem same_idle (h : Listed s) (hconns : t.conns = s.conns) (htable : t.table = s.table)
    (hclosing : t.closing = s.closing) (hinterest : t.interest = s.interest)
    (hs : ∀ c, inHand s.reactor ≠ some (c, .made))
    (ht : inHand t.reactor = none) : Listed t := by
  refine h.same hconns htable hclosing hinterest (fun c hc => absurd hc (hs c)) ?_
  intro c stage hc
  rw [ht] at hc
  cases hc

theorem close {thread : Thread} (h : Listed s)
    (hnot : ∀ stage, inHand s.reactor ≠ some (c, stage)) :
    Listed (s.close thread c) := by
  have hfds := fdOf_close s thread c
  rcases close_cases s thread c with heq | ⟨fd, hconn, heq⟩
  · rw [heq]
    exact h
  rw [heq] at hfds ⊢
  have hentry : s.table.lookup fd = some c := h.mapped c fd hconn (hnot _)
  -- A connection that is being closed had been closed before.
  have hother : ∀ thread' stage, s.closing thread' ≠ some (c, stage) := by
    intro thread' stage hc
    obtain ⟨fd', hclosed, _⟩ := h.closing thread' c stage hc
    rw [hconn] at hclosed
    cases hclosed
  refine ⟨?_, ?_, ?_, ?_, ?_, h.interest, ?_⟩
  · rw [hfds]
    exact h.keyed
  · intro d fd' hd hmade
    dsimp only at hd
    rw [Function.update_apply] at hd
    split at hd
    · cases hd
    · exact h.mapped d fd' hd hmade
  · intro thread' d stage hd
    dsimp only at hd ⊢
    rw [Function.update_apply] at hd
    split at hd
    · cases hd
      exact ⟨fd, Function.update_self .., hentry⟩
    · obtain ⟨fd', hclosed, hlookup⟩ := h.closing thread' d stage hd
      have hne : d ≠ c := by
        rintro rfl
        exact hother thread' stage hd
      exact ⟨fd', by rwa [Function.update_of_ne hne], hlookup⟩
  · intro thread₁ thread₂ d stage stage' h₁ h₂
    dsimp only at h₁ h₂
    rw [Function.update_apply] at h₁ h₂
    split at h₁
    · rename_i heq₁
      cases h₁
      split at h₂
      · rename_i heq₂
        exact heq₁.trans heq₂.symm
      · exact absurd h₂ (hother thread₂ stage')
    · split at h₂
      · cases h₂
        exact absurd h₁ (hother thread₁ stage)
      · exact h.apart thread₁ thread₂ d stage stage' h₁ h₂
  · intro d stage hd
    obtain ⟨fd', hd', hrefs, hmade⟩ := h.making d stage hd
    have hne : d ≠ c := by
      rintro rfl
      exact hnot stage hd
    exact ⟨fd', by simpa [hne] using hd', hrefs, hmade⟩
  · intro thread' d hd
    dsimp only at hd
    rw [Function.update_apply] at hd
    split at hd
    · cases hd
    · exact h.deleted thread' d hd

/-- close_conn goes on with its connection. -/
theorem restage {thread : Thread} {stage stage' : CloseStage} (h : Listed s)
    (hstage : s.closing thread = some (c, stage)) (hconns : t.conns = s.conns)
    (htable : t.table = s.table)
    (hclosing : t.closing = Function.update s.closing thread (some (c, stage')))
    (hinterest : ∀ d ∈ t.interest, d ∈ s.interest) (hdeleted : stage' = .deleted → c ∉ t.interest)
    (hreactor : t.reactor = s.reactor) (hrefs : ∀ d ≠ c, t.logicRefs d = s.logicRefs d) :
    Listed t := by
  have hfds : t.fdOf = s.fdOf := by
    unfold Server.fdOf
    rw [hconns]
  -- Every thread has the connection in hand that it had before.
  have hbefore : ∀ thread' d st, t.closing thread' = some (d, st) →
      ∃ st', s.closing thread' = some (d, st') := by
    intro thread' d st hd
    rw [hclosing, Function.update_apply] at hd
    split at hd
    · rename_i heq
      cases hd
      exact ⟨stage, heq ▸ hstage⟩
    · exact ⟨st, hd⟩
  refine ⟨?_, ?_, ?_, ?_, ?_, ?_, ?_⟩
  · rw [htable, hfds]
    exact h.keyed
  · rw [hconns, htable, hreactor]
    exact h.mapped
  · intro thread' d st hd
    obtain ⟨st', hs⟩ := hbefore thread' d st hd
    rw [hconns, htable]
    exact h.closing thread' d st' hs
  · intro thread₁ thread₂ d st₁ st₂ h₁ h₂
    obtain ⟨st₁', hs₁⟩ := hbefore thread₁ d st₁ h₁
    obtain ⟨st₂', hs₂⟩ := hbefore thread₂ d st₂ h₂
    exact h.apart thread₁ thread₂ d st₁' st₂' hs₁ hs₂
  · intro d st hd
    rw [hreactor] at hd
    obtain ⟨fd, hconn, hnone, hmissing⟩ := h.making d st hd
    obtain ⟨fd', hclosed, _⟩ := h.closing thread c stage hstage
    have hne : d ≠ c := by
      rintro rfl
      rw [hconn] at hclosed
      cases hclosed
    rw [hconns, htable, hrefs d hne]
    exact ⟨fd, hconn, hnone, hmissing⟩
  · intro d hd
    rw [htable]
    exact h.interest d (hinterest d hd)
  · intro thread' d hd
    rw [hclosing, Function.update_apply] at hd
    split at hd
    · cases hd
      exact hdeleted rfl
    · exact fun hin => h.deleted thread' d hd (hinterest d hin)

theorem accept {rest : List Ready} (h : Listed s) (href : Referenced s)
    (hreactor : s.reactor = .accepting rest none) (hfree : ¬ s.FdOpen fd) :
    Listed { s with
      conns := Function.update s.conns s.accepted (some ⟨fd, false⟩)
      accepted := s.accepted + 1
      reactor := .accepting rest (some (s.accepted, .made)) } := by
  have hnew : s.fdOf s.accepted = none := (href.known s.accepted).mpr (le_refl _)
  have hold : ∀ d k, s.fdOf d = some k → d ≠ s.accepted := by
    rintro d k hd rfl
    rw [hnew] at hd
    cases hd
  have hidle : inHand s.reactor = none := by simp [inHand, hreactor]
  refine ⟨?_, ?_, ?_, h.apart, ?_, h.interest, h.deleted⟩
  · intro k d hd
    have hk := h.keyed k d hd
    simpa [Server.fdOf, hold d k hk] using hk
  · intro d k hd hmade
    dsimp only at hd
    rw [Function.update_apply] at hd
    split at hd
    · rename_i heq
      exact absurd (by simp [inHand, heq]) hmade
    · exact h.mapped d k hd (by simp [hidle])
  · intro thread d stage hd
    obtain ⟨k, hconn, hlookup⟩ := h.closing thread d stage hd
    have hne := hold d k (fdOf_of_conn hconn)
    exact ⟨k, by simpa [hne] using hconn, hlookup⟩
  · intro d stage hd
    simp only [inHand, Option.some.injEq, Prod.mk.injEq] at hd
    obtain ⟨rfl, rfl⟩ := hd
    refine ⟨fd, Function.update_self .., ?_, ?_⟩
    · by_contra hrefs
      exact href.refs _ (alive_of_logicRefs (Nat.pos_of_ne_zero hrefs)) hnew
    · intro _
      cases hlookup : s.table.lookup fd with
      | none => rfl
      | some d =>
        have hd := h.keyed fd d hlookup
        refine absurd ⟨d, ?_, alive_of_lookup hlookup, hd⟩ hfree
        by_contra hlt
        rw [(href.known d).mpr (not_lt.mp hlt)] at hd
        cases hd

theorem insert {rest : List Ready} (h : Listed s)
    (hreactor : s.reactor = .accepting rest (some (c, .made))) (hfd : s.fdOf c = some fd) :
    Listed { s with
      table := s.table.insert fd c
      reactor := .accepting rest (some (c, .inserted)) } := by
  have hmaking : inHand s.reactor = some (c, .made) := by
    simp [inHand, hreactor]
  obtain ⟨fd', hconn, hrefs, hmissing⟩ := h.making c .made hmaking
  cases hfd.symm.trans (fdOf_of_conn hconn)
  have hmissing := hmissing rfl
  -- The entries of the other descriptors stay.
  have hkeep : ∀ {k d}, s.table.lookup k = some d → (s.table.insert fd c).lookup k = some d := by
    intro k d hk
    have hne : k ≠ fd := by
      rintro rfl
      rw [hmissing] at hk
      cases hk
    rwa [ShardedMap.lookup_insert_ne _ _ hne]
  refine ⟨?_, ?_, ?_, h.apart, ?_, ?_, h.deleted⟩
  · intro k d hk
    by_cases hkfd : k = fd
    · subst hkfd
      cases hk.symm.trans (ShardedMap.lookup_insert ..)
      exact hfd
    · exact h.keyed k d (by rwa [ShardedMap.lookup_insert_ne _ _ hkfd] at hk)
  · intro d k hd _
    by_cases hdc : d = c
    · subst hdc
      cases hconn.symm.trans hd
      exact ShardedMap.lookup_insert ..
    · refine hkeep (h.mapped d k hd ?_)
      rw [hmaking]
      simpa using fun heq => hdc heq.symm
  · intro thread d stage hd
    obtain ⟨k, hclosed, hlookup⟩ := h.closing thread d stage hd
    exact ⟨k, hclosed, hkeep hlookup⟩
  · intro d stage hd
    cases hd
    exact ⟨fd, hconn, hrefs, nofun⟩
  · intro d hd
    obtain ⟨k, hlookup⟩ := h.interest d hd
    exact ⟨k, hkeep hlookup⟩

theorem register {rest : List Ready} (h : Listed s)
    (hreactor : s.reactor = .accepting rest (some (c, .inserted))) :
    Listed { s with
      interest := c :: s.interest
      reactor := .accepting rest (some (c, .registered)) } := by
  have hmaking : inHand s.reactor = some (c, .inserted) := by
    simp [inHand, hreactor]
  obtain ⟨fd, hconn, hrefs, _⟩ := h.making c .inserted hmaking
  refine ⟨h.keyed, ?_, h.closing, h.apart, ?_, ?_, ?_⟩
  · intro d k hd _
    refine h.mapped d k hd ?_
    rw [hmaking]
    simp
  · intro d stage hd
    cases hd
    exact ⟨fd, hconn, hrefs, nofun⟩
  · intro d hd
    rcases List.mem_cons.mp hd with rfl | hd
    · exact ⟨fd, h.mapped d fd hconn (by simp [hmaking])⟩
    · exact h.interest d hd
  · intro thread d hd hin
    rcases List.mem_cons.mp hin with rfl | hin
    · obtain ⟨k, hclosed, _⟩ := h.closing thread d _ hd
      rw [hconn] at hclosed
      cases hclosed
    · exact h.deleted thread d hd hin

theorem erase {thread : Thread} (h : Listed s) (hstage : s.closing thread = some (c, .deleted))
    (hfd : s.fdOf c = some fd) :
    Listed ({ s with table := s.table.erase fd }.setClosing thread none) := by
  obtain ⟨fd', hconn, hlookup⟩ := h.closing thread c .deleted hstage
  cases hfd.symm.trans (fdOf_of_conn hconn)
  -- The entries of the other connections stay.
  have hkeep : ∀ {k d}, s.table.lookup k = some d → d ≠ c →
      (s.table.erase fd).lookup k = some d := by
    intro k d hk hne
    have hkfd : k ≠ fd := by
      rintro rfl
      exact hne (Option.some.inj (hk.symm.trans hlookup))
    rwa [ShardedMap.lookup_erase_ne _ hkfd]
  have hclosing : ∀ {thread' d stage},
      (Function.update s.closing thread none) thread' = some (d, stage) →
      s.closing thread' = some (d, stage) ∧ d ≠ c := by
    intro thread' d stage hd
    rw [Function.update_apply] at hd
    split at hd
    · cases hd
    · rename_i hne
      refine ⟨hd, ?_⟩
      rintro rfl
      exact hne (h.apart thread' thread d _ _ hd hstage)
  refine ⟨?_, ?_, ?_, ?_, ?_, ?_, ?_⟩
  · intro k d hk
    change (s.table.erase fd).lookup k = some d at hk
    by_cases hkfd : k = fd
    · rw [hkfd, ShardedMap.lookup_erase] at hk
      cases hk
    · exact h.keyed k d ((ShardedMap.lookup_erase_ne _ hkfd).symm.trans hk)
  · intro d k hd hmade
    refine hkeep (h.mapped d k hd hmade) ?_
    rintro rfl
    cases hconn.symm.trans hd
  · intro thread' d stage hd
    obtain ⟨hd, hne⟩ := hclosing hd
    obtain ⟨k, hclosed, hk⟩ := h.closing thread' d stage hd
    exact ⟨k, hclosed, hkeep hk hne⟩
  · intro thread₁ thread₂ d st₁ st₂ h₁ h₂
    exact h.apart thread₁ thread₂ d st₁ st₂ (hclosing h₁).1 (hclosing h₂).1
  · intro d stage hd
    obtain ⟨k, hk, hrefs, hmissing⟩ := h.making d stage hd
    refine ⟨k, hk, hrefs, fun hst => ?_⟩
    by_cases hkfd : k = fd
    · rw [hkfd]
      exact ShardedMap.lookup_erase ..
    · exact (ShardedMap.lookup_erase_ne _ hkfd).trans (hmissing hst)
  · intro d hd
    obtain ⟨k, hk⟩ := h.interest d hd
    refine ⟨k, hkeep hk ?_⟩
    rintro rfl
    exact h.deleted thread d hstage hd
  · exact fun thread' d hd => h.deleted thread' d (hclosing hd).1

theorem step (h : Listed s) (href : Referenced s) (hmoves : s.Moves a t) : Listed t := by
  have hidle : ∀ {batch calls}, s.reactor = .dispatching batch calls → inHand s.reactor = none :=
    fun hreactor => by simp [inHand, hreactor]
  have hnone : inHand s.reactor = none → ∀ c stage, inHand s.reactor ≠ some (c, stage) :=
    fun hs c stage => by simp [hs]
  -- The logic thread has no reference to a connection that is being made.
  have hlogic : ∀ c, 0 < s.logicRefs c → ∀ stage, inHand s.reactor ≠ some (c, stage) := by
    intro c hrefs stage hc
    obtain ⟨_, _, hzero, _⟩ := h.making c stage hc
    omega
  have hrefsOnly : ∀ {u : Server}, u.conns = s.conns → u.table = s.table →
      u.closing = s.closing → u.interest = s.interest → u.reactor = s.reactor →
      (∀ c stage, inHand s.reactor = some (c, stage) → u.logicRefs c = s.logicRefs c) →
      Listed u := by
    intro u hconns htable hclosing hinterest hreactor hrefs
    refine h.same hconns htable hclosing hinterest (fun c hc => by rwa [hreactor]) ?_
    intro c stage hc
    rw [hreactor] at hc
    exact ⟨stage, hc, id, hrefs c stage hc⟩
  cases hmoves with
  | epollWait hreactor hreported =>
    exact h.same_idle rfl rfl rfl rfl (by simp [inHand, hreactor]) rfl
  | listen timedOut hreactor =>
    exact h.same_idle rfl rfl rfl rfl (fun c => hnone (hidle hreactor) c _) rfl
  | timer hreactor hmapped =>
    exact h.same_idle rfl rfl rfl rfl (fun c => hnone (hidle hreactor) c _) rfl
  | other timedOut hreactor =>
    exact h.same_idle rfl rfl rfl rfl (fun c => hnone (hidle hreactor) c _) rfl
  | found timedOut hreactor hlookup =>
    exact h.same_idle rfl rfl rfl rfl (fun c => hnone (hidle hreactor) c _) rfl
  | missing timedOut hreactor hlookup =>
    exact h.same_idle rfl rfl rfl rfl (fun c => hnone (hidle hreactor) c _) rfl
  | handle messages hreactor =>
    exact h.same_idle rfl rfl rfl rfl (fun c => hnone (hidle hreactor) c _) rfl
  | @handleClose batch call calls messages shouldClose hreactor hclosing =>
    have hcalled : Listed { s.addRefs call.conn messages with
        reactor := .dispatching batch calls
        called := s.called ++ [call] } :=
      h.same_idle rfl rfl rfl rfl (fun c => hnone (hidle hreactor) c _) rfl
    exact hcalled.close (fun stage hc => by cases hc)
  | endBatch hreactor =>
    exact h.same_idle rfl rfl rfl rfl (fun c => hnone (hidle hreactor) c _) rfl
  | accept hreactor hfd hfree => exact h.accept href hreactor hfree
  | insert hreactor hfd => exact h.insert hreactor hfd
  | register hreactor => exact h.register hreactor
  | @count rest c hreactor =>
    refine h.same rfl rfl rfl rfl (fun d hd => ?_) ?_
    · simp [inHand, hreactor] at hd
    · intro d stage hd
      cases hd
      exact ⟨.registered, by simp [inHand, hreactor], nofun, rfl⟩
  | pushConnect hreactor =>
    exact h.same_idle rfl rfl rfl rfl (by simp [inHand, hreactor]) rfl
  | acceptFails hreactor => exact h.same_idle rfl rfl rfl rfl (by simp [inHand, hreactor]) rfl
  | logicClose hclosing hrefs => exact h.close (hlogic _ hrefs)
  | closeCount hclosing =>
    exact h.restage hclosing rfl rfl rfl (fun _ hd => hd) nofun rfl (fun _ _ => rfl)
  | closePush hclosing =>
    refine h.restage hclosing rfl rfl rfl (fun _ hd => hd) nofun rfl ?_
    intro d hd
    simp [Server.setClosing, Server.addRefs, hd]
  | closeDelete hclosing =>
    refine h.restage hclosing rfl rfl rfl (fun d hd => List.mem_of_mem_filter hd) ?_ rfl
      (fun _ _ => rfl)
    simp [Server.setClosing]
  | closeErase hclosing hfd => exact h.erase hclosing hfd
  | @copyRef c hrefs =>
    refine hrefsOnly rfl rfl rfl rfl rfl ?_
    intro d stage hd
    have hne : d ≠ c := by
      rintro rfl
      exact hlogic d hrefs stage hd
    simp [Server.addRefs, hne]
  | @dropRef c hrefs =>
    refine hrefsOnly rfl rfl rfl rfl rfl ?_
    intro d stage hd
    have hne : d ≠ c := by
      rintro rfl
      exact hlogic d hrefs stage hd
    simp [hne]
  | snapshot hmapped => exact hrefsOnly rfl rfl rfl rfl rfl (fun _ _ _ => rfl)
  | dropSnapshot hrefs => exact hrefsOnly rfl rfl rfl rfl rfl (fun _ _ _ => rfl)

end Listed

/-- An entry whose connection accept_loop has not counted yet. -/
def uncounted : Option (ConnId × AcceptStage) → ℕ
  | some (_, .inserted) => 1
  | some (_, .registered) => 1
  | _ => 0

/-- An entry whose connection close_conn has already discounted. -/
def discounted : Option (ConnId × CloseStage) → ℕ
  | none => 0
  | some (_, .exchanged) => 0
  | _ => 1

/-- The counter, and the entries for which it is ahead or behind. -/
def Balanced (s : Server) : Prop :=
  s.activeConnections + uncounted (inHand s.reactor) + discounted (s.closing .reactor) +
    discounted (s.closing .logic) = s.table.size

theorem discounted_close (s : Server) (thread : Thread) (c : ConnId)
    (hfree : s.closing thread = none) (thread' : Thread) :
    discounted ((s.close thread c).closing thread') = discounted (s.closing thread') := by
  rcases close_cases s thread c with heq | ⟨fd, _, heq⟩
  · rw [heq]
  · rw [heq]
    dsimp only
    rw [Function.update_apply]
    split
    · rename_i hthread
      rw [hthread, hfree]
      rfl
    · rfl

theorem balanced_close {thread : Thread} (h : Balanced s) (hfree : s.closing thread = none) :
    Balanced (s.close thread c) := by
  unfold Balanced
  rw [discounted_close s thread c hfree, discounted_close s thread c hfree]
  rcases close_cases s thread c with heq | ⟨fd, _, heq⟩
  · rw [heq]
    exact h
  · rw [heq]
    exact h

/-- close_conn goes on: what it takes off the counter or the table it owes less. -/
theorem balanced_restage {thread : Thread} {stage : Option (ConnId × CloseStage)}
    (h : Balanced s) (hreactor : t.reactor = s.reactor)
    (hclosing : t.closing = Function.update s.closing thread stage)
    (hsum : t.activeConnections + discounted stage + s.table.size =
      s.activeConnections + discounted (s.closing thread) + t.table.size) : Balanced t := by
  unfold Balanced at h ⊢
  rw [hreactor, hclosing]
  cases thread with
  | reactor =>
    rw [Function.update_self, Function.update_of_ne (by decide)]
    omega
  | logic =>
    rw [Function.update_self, Function.update_of_ne (by decide)]
    omega

/-- A step that leaves the counter and what close_conn has in hand. -/
theorem balanced_same (h : Balanced s) (hcounter : t.activeConnections = s.activeConnections)
    (hclosing : t.closing = s.closing) (htable : t.table = s.table)
    (hmaking : uncounted (inHand t.reactor) = uncounted (inHand s.reactor)) : Balanced t := by
  unfold Balanced at h ⊢
  rw [hcounter, hclosing, htable, hmaking]
  exact h

theorem balanced_step (h : Balanced s) (hlisted : Listed s) (hmoves : s.Moves a t) :
    Balanced t := by
  cases hmoves with
  | epollWait hreactor hreported => exact balanced_same h rfl rfl rfl (by rw [hreactor]; rfl)
  | listen timedOut hreactor => exact balanced_same h rfl rfl rfl (by rw [hreactor]; rfl)
  | timer hreactor hmapped => exact balanced_same h rfl rfl rfl (by rw [hreactor]; rfl)
  | other timedOut hreactor => exact balanced_same h rfl rfl rfl (by rw [hreactor]; rfl)
  | found timedOut hreactor hlookup =>
    exact balanced_same h rfl rfl rfl (by rw [hreactor]; rfl)
  | missing timedOut hreactor hlookup =>
    exact balanced_same h rfl rfl rfl (by rw [hreactor]; rfl)
  | handle messages hreactor => exact balanced_same h rfl rfl rfl (by rw [hreactor]; rfl)
  | @handleClose batch call calls messages shouldClose hreactor hclosing =>
    have hcalled : Balanced { s.addRefs call.conn messages with
        reactor := .dispatching batch calls
        called := s.called ++ [call] } :=
      balanced_same h rfl rfl rfl (by rw [hreactor]; rfl)
    exact balanced_close hcalled hclosing
  | endBatch hreactor => exact balanced_same h rfl rfl rfl (by rw [hreactor]; rfl)
  | accept hreactor hfd hfree => exact balanced_same h rfl rfl rfl (by rw [hreactor]; rfl)
  | @insert rest c fd hreactor hfd =>
    obtain ⟨fd', hconn, _, hmissing⟩ := hlisted.making c .made (by rw [hreactor]; rfl)
    cases hfd.symm.trans (fdOf_of_conn hconn)
    have hsize := ShardedMap.size_insert s.table (hmissing rfl) c
    have hmaking : uncounted (inHand s.reactor) = 0 := by
      rw [hreactor]
      rfl
    have hmade : uncounted (some (c, .inserted)) = 1 := rfl
    unfold Balanced at h ⊢
    dsimp only [inHand]
    omega
  | register hreactor => exact balanced_same h rfl rfl rfl (by rw [hreactor]; rfl)
  | @count rest c hreactor =>
    have hmaking : uncounted (inHand s.reactor) = 1 := by
      rw [hreactor]
      rfl
    have hcounted : uncounted (some (c, .counted)) = 0 := rfl
    unfold Balanced at h ⊢
    dsimp only [inHand]
    omega
  | pushConnect hreactor => exact balanced_same h rfl rfl rfl (by rw [hreactor]; rfl)
  | acceptFails hreactor => exact balanced_same h rfl rfl rfl (by rw [hreactor]; rfl)
  | logicClose hclosing hrefs => exact balanced_close h hclosing
  | closeCount hclosing =>
    refine balanced_restage h rfl rfl ?_
    simp only [Server.setClosing, hclosing, discounted]
    omega
  | closePush hclosing =>
    refine balanced_restage h rfl rfl ?_
    simp only [Server.setClosing, Server.addRefs, hclosing, discounted]
  | closeDelete hclosing =>
    refine balanced_restage h rfl rfl ?_
    simp only [Server.setClosing, hclosing, discounted]
  | @closeErase thread c fd hclosing hfd =>
    obtain ⟨fd', hconn, hlookup⟩ := hlisted.closing thread c .deleted hclosing
    cases hfd.symm.trans (fdOf_of_conn hconn)
    have hsize := ShardedMap.size_erase s.table hlookup
    refine balanced_restage h rfl rfl ?_
    simp only [Server.setClosing, hclosing, discounted]
    omega
  | copyRef hrefs => exact h
  | dropRef hrefs => exact h
  | snapshot hmapped => exact h
  | dropSnapshot hrefs => exact h

end Entries

structure Owned (s : Server) : Prop where
  referenced : Referenced s
  listed : Listed s
  balanced : Balanced s

theorem owned {allowed : Server → Action → Prop} (hs : Reachable machine allowed s) : Owned s := by
  have hbalanced : Balanced Server.init := by
    simp [Balanced, Server.init, inHand, uncounted, discounted, ShardedMap.size_empty]
  refine hs.invariant (P := Owned) ⟨.init, .init, hbalanced⟩ ?_
  intro s a t h _ hnext
  have hmoves := Server.next_moves hnext
  exact ⟨h.referenced.step hmoves, h.listed.step h.referenced hmoves,
    balanced_step h.balanced h.listed hmoves⟩

/-- Neither accept_loop nor close_conn has a connection in hand. -/
def Quiet (s : Server) : Prop :=
  inHand s.reactor = none ∧ s.closing .reactor = none ∧ s.closing .logic = none

instance (s : Server) : Decidable (Quiet s) := inferInstanceAs (Decidable (_ ∧ _ ∧ _))

section Sample

/-- accept_loop with one new connection. -/
def acceptSteps (fd : ℕ) : List Action :=
  [.dispatch [], .accept fd, .insert, .register, .count, .pushConnect, .acceptFails]

def closeSteps (thread : Thread) : List Action :=
  [.closeCount thread, .closePush thread, .closeDelete thread, .closeErase thread]

end Sample

end ChatServer.Ownership
