import ChatServer.IdleSweep

/-!
The counter of timeouts. check_timeouts counts a timeout for every connection
that its loops over the heaps collected, and close_conn does something only for
a connection that is still open. The entry of an earlier connection with the
same descriptor leads to the same connection as its own entry, so a sweep may
collect a connection twice. It collects each connection once exactly when no
heap has two entries that are due for one idle descriptor.
-/
namespace ChatServer.TimeoutCount

open Broadcast Lib.Runs Lib.Shards Lib.PriorityQueue IdleSweep
open ConnectionTable (shardOf)

/-- `timeouts` has the connection of each call of `METRICS.on_timeout`, and
`closings` the connections that a sweep found open and closed. -/
structure Metered (H : Implementation TimerEvent TimerEvent.expiresAt) where
  server : Server H
  timeouts : List ConnId
  closings : List ConnId

variable {H : Implementation TimerEvent TimerEvent.expiresAt}

/-- `closed.exchange(true)` finds the connection open. -/
def isOpen (s : Server H) (c : ConnId) : Bool := (s.conns c).any fun conn => !conn.closed

namespace Metered

/-- A turn of the loop over the connections that have timed out. -/
def closeTimedOut (m : Metered H) (c : ConnId) : Metered H where
  server := m.server.closeConn c
  timeouts := m.timeouts ++ [c]
  closings := if isOpen m.server c then m.closings ++ [c] else m.closings

def checkTimeouts (m : Metered H) (now : ℤ) : Metered H :=
  let swept := (List.finRange numShards).foldl (m.server.sweepShard now) (m.server.heaps, [])
  swept.2.foldl closeTimedOut
    { m with server := { m.server with clock := now, heaps := swept.1 } }

def next (m : Metered H) : Action → Option (Metered H)
  | .sweep now => if m.server.clock ≤ now then some (m.checkTimeouts now) else none
  | a => (m.server.next a).map fun t => { m with server := t }

end Metered

def machine (H : Implementation TimerEvent TimerEvent.expiresAt) (start : ℤ) :
    Machine (Metered H) Action :=
  ⟨⟨.init start, [], []⟩, Metered.next⟩

variable {m m' : Metered H} {s : Server H} {a : Action} {now start : ℤ} {c : ConnId}
  {cs : List ConnId}

section Refinement

theorem server_foldl (cs : List ConnId) (m : Metered H) :
    (cs.foldl Metered.closeTimedOut m).server = cs.foldl Server.closeConn m.server := by
  induction cs generalizing m with
  | nil => rfl
  | cons c cs ih => exact ih (m.closeTimedOut c)

theorem checkTimeouts_eq (m : Metered H) (now : ℤ) :
    m.checkTimeouts now = (timedOut m.server now).foldl Metered.closeTimedOut
      { m with server := { m.server with clock := now, heaps := sweptHeap m.server now } } := by
  unfold Metered.checkTimeouts
  rw [foldl_sweepShard _ (List.nodup_finRange numShards) _ _ fun _ _ => rfl]
  simp only [List.mem_finRange, if_true, List.nil_append]
  rfl

theorem server_checkTimeouts (m : Metered H) (now : ℤ) :
    (m.checkTimeouts now).server = m.server.checkTimeouts now := by
  rw [checkTimeouts_eq, server_foldl, IdleSweep.checkTimeouts_eq]

/-- Counting does not change what the server does. -/
theorem server_next (h : m.next a = some m') : m.server.next a = some m'.server := by
  cases a with
  | sweep now =>
    obtain ⟨hnow, heq⟩ := Option.ite_none_right_eq_some.mp h
    rw [← Option.some.inj heq, server_checkTimeouts]
    exact if_pos hnow
  | accept fd made registered =>
    obtain ⟨t, ht, rfl⟩ := Option.map_eq_some_iff.mp h
    exact ht
  | read d at_ =>
    obtain ⟨t, ht, rfl⟩ := Option.map_eq_some_iff.mp h
    exact ht
  | close d =>
    cases h
    rfl

theorem server_reachable {allowed : Metered H → Action → Prop}
    (hm : Reachable (machine H start) allowed m) :
    Reachable (IdleSweep.machine H start) AnyStep m.server := by
  induction hm with
  | init => exact .init
  | step _ _ hnext ih => exact .step ih trivial (server_next hnext)

end Refinement

section Collected

/-- The shard has a connection with the descriptor that has been idle. -/
def idle (s : Server H) (now : ℤ) (i : Fin numShards) (fd : ℕ) : Bool :=
  (s.find i fd).any fun found => found.2.lastActivity + connectionTimeout ≤ now

/-- No heap has two entries that are due for one idle descriptor. -/
def OneEntry (s : Server H) (now : ℤ) : Prop :=
  ∀ i, ((H.items (s.heaps i)).filter fun event =>
    event.expiresAt ≤ now ∧ idle s now i event.fd).map TimerEvent.fd |>.Nodup

instance (s : Server H) (now : ℤ) : Decidable (OneEntry s now) :=
  inferInstanceAs (Decidable (∀ _, _))

/-- The connection that has the descriptor. -/
def owner (s : Server H) (i : Fin numShards) (fd : ℕ) : Option ConnId :=
  (s.find i fd).map Prod.fst

theorem fd_of_owner (hs : Tracked s) {i : Fin numShards} {fd : ℕ} (h : owner s i fd = some c) :
    ∃ conn, s.conns c = some conn ∧ conn.fd = fd ∧ conn.closed = false ∧ shardOf fd = i := by
  obtain ⟨⟨d, conn⟩, hfind, rfl⟩ := Option.map_eq_some_iff.mp h
  obtain ⟨d', hlookup, hfound⟩ := Option.bind_eq_some_iff.mp hfind
  obtain ⟨conn', hconn, heq⟩ := Option.map_eq_some_iff.mp hfound
  cases heq
  obtain ⟨hi, hmapped⟩ := s.table.index_of_lookup hlookup
  obtain ⟨conn'', hconn', hfd, hopen⟩ := hs.mapped fd d hmapped
  exact ⟨conn'', hconn', hfd, hopen, hi⟩

theorem expired_eq (s : Server H) (now : ℤ) (i : Fin numShards) (event : TimerEvent) :
    expired s.find now i event = if idle s now i event.fd then owner s i event.fd else none := by
  unfold expired idle owner
  cases s.find i event.fd with
  | none => simp
  | some found =>
    by_cases hlater : now < found.2.lastActivity + connectionTimeout
    · simp [hlater]
    · simp [hlater, not_lt.mp hlater]

/-- What the loop over one heap collects. -/
theorem filterMap_expired (s : Server H) (now : ℤ) (i : Fin numShards) (events : List TimerEvent) :
    events.filterMap (expired s.find now i) =
      ((events.filter fun event => idle s now i event.fd).map TimerEvent.fd).filterMap
        (owner s i) := by
  induction events with
  | nil => rfl
  | cons event events ih =>
    rw [List.filterMap_cons, ih, expired_eq]
    by_cases hidle : idle s now i event.fd
    · simp [hidle, List.filterMap_cons]
    · simp [hidle]

/-- A connection that has a descriptor determines it. -/
theorem nodup_owners (hs : Tracked s) {i : Fin numShards} {fds : List ℕ}
    (howned : ∀ fd ∈ fds, (owner s i fd).isSome) :
    (fds.filterMap (owner s i)).Nodup ↔ fds.Nodup := by
  constructor
  · intro hnodup
    refine (List.pairwise_filterMap.mp hnodup).imp_of_mem ?_
    rintro fd fd' hfd _ hdiffer rfl
    obtain ⟨c, hc⟩ := Option.isSome_iff_exists.mp (howned fd hfd)
    exact hdiffer c hc c hc rfl
  · intro hnodup
    refine hnodup.filterMap ?_
    intro fd fd' c hc hc'
    obtain ⟨conn, hconn, rfl, _⟩ := fd_of_owner hs hc
    obtain ⟨conn', hconn', rfl, _⟩ := fd_of_owner hs hc'
    cases hconn.symm.trans hconn'
    rfl

theorem owned_of_idle {i : Fin numShards} {fd : ℕ} (h : idle s now i fd = true) :
    (owner s i fd).isSome := by
  obtain ⟨found, hfound, _⟩ := (Option.any_eq_true _ _).mp h
  simp [owner, hfound]

/-- A sweep collects each connection once exactly when no heap has two entries
that are due for one idle descriptor. -/
theorem nodup_timedOut (hs : Tracked s) (now : ℤ) : (timedOut s now).Nodup ↔ OneEntry s now := by
  have hshard : ∀ i, ((due s now i).filterMap (expired s.find now i)).Nodup ↔
      (((H.items (s.heaps i)).filter fun event =>
        event.expiresAt ≤ now ∧ idle s now i event.fd).map TimerEvent.fd).Nodup := by
    intro i
    have hdue : ((due s now i : List TimerEvent) : Multiset TimerEvent) =
        (H.items (s.heaps i)).filter (·.expiresAt ≤ now) :=
      (drain_spec (again_later s.find now i) (Multiset.card_le_card (Multiset.filter_le _ _))).1
    have hfilter : (H.items (s.heaps i)).filter (fun event =>
        event.expiresAt ≤ now ∧ idle s now i event.fd) =
        ((due s now i).filter fun event => idle s now i event.fd : List TimerEvent) := by
      calc
        _ = ((H.items (s.heaps i)).filter (·.expiresAt ≤ now)).filter fun event =>
            idle s now i event.fd = true := by
          rw [Multiset.filter_filter]
          simp only [and_comm]
        _ = _ := by
          rw [← hdue, Multiset.filter_coe]
          simp only [Bool.decide_eq_true]
    rw [filterMap_expired, hfilter, Multiset.map_coe, Multiset.coe_nodup]
    refine nodup_owners hs ?_
    intro fd hfd
    obtain ⟨event, hevent, rfl⟩ := List.mem_map.mp hfd
    exact owned_of_idle (List.mem_filter.mp hevent).2
  unfold timedOut OneEntry
  rw [List.nodup_flatMap]
  constructor
  · intro h i
    exact (hshard i).mp (h.1 i (List.mem_finRange i))
  · intro h
    refine ⟨fun i _ => (hshard i).mpr (h i), ?_⟩
    refine (List.nodup_finRange numShards).imp ?_
    intro i j hij c hi hj
    obtain ⟨event, _, hi⟩ := List.mem_filterMap.mp hi
    obtain ⟨event', _, hj⟩ := List.mem_filterMap.mp hj
    rw [expired_eq, Option.ite_none_right_eq_some] at hi hj
    obtain ⟨conn, hconn, hfd, _, rfl⟩ := fd_of_owner hs hi.2
    obtain ⟨conn', hconn', hfd', _, rfl⟩ := fd_of_owner hs hj.2
    cases hconn.symm.trans hconn'
    exact hij (by rw [← hfd, ← hfd'])

end Collected

section Count

/-- The connections that a sweep collects are open. -/
theorem isOpen_of_timedOut (hs : Tracked s) (h : c ∈ timedOut s now) : isOpen s c := by
  obtain ⟨i, event, _, hexpired⟩ := mem_timedOut.mp h
  rw [expired_eq, Option.ite_none_right_eq_some] at hexpired
  obtain ⟨conn, hconn, _, hopen, _⟩ := fd_of_owner hs hexpired.2
  simp [isOpen, hconn, hopen]

theorem timeouts_foldl (cs : List ConnId) (m : Metered H) :
    (cs.foldl Metered.closeTimedOut m).timeouts = m.timeouts ++ cs := by
  induction cs generalizing m with
  | nil => simp
  | cons c cs ih => simp [ih, Metered.closeTimedOut]

/-- The loop over connections that are open and differ from each other. -/
theorem closings_foldl (hnodup : cs.Nodup) (hopen : ∀ c ∈ cs, isOpen m.server c) :
    (cs.foldl Metered.closeTimedOut m).closings = m.closings ++ cs := by
  induction cs generalizing m with
  | nil => simp
  | cons c cs ih =>
    obtain ⟨hnot, hnodup⟩ := List.nodup_cons.mp hnodup
    have hrest : ∀ d ∈ cs, isOpen (m.closeTimedOut c).server d := by
      intro d hd
      have hne : d ≠ c := by
        rintro rfl
        exact hnot hd
      have hd := hopen d (List.mem_cons_of_mem _ hd)
      unfold isOpen at hd ⊢
      change ((m.server.closeConn c).conns d).any _ = true
      rwa [conns_closeConn, Function.update_of_ne hne]
    rw [List.foldl_cons, ih hnodup hrest]
    simp [Metered.closeTimedOut, hopen c List.mem_cons_self]

/-- Each connection that a sweep collects is counted. -/
theorem timeouts_checkTimeouts (m : Metered H) (now : ℤ) :
    (m.checkTimeouts now).timeouts = m.timeouts ++ timedOut m.server now := by
  rw [checkTimeouts_eq, timeouts_foldl]

/-- A sweep that finds two entries for one idle descriptor counts a timeout twice. -/
theorem counted_twice (hs : Tracked m.server) (hmore : ¬ OneEntry m.server now) :
    ¬ (m.checkTimeouts now).timeouts.Nodup := by
  rw [timeouts_checkTimeouts, List.nodup_append]
  intro hnodup
  exact hmore ((nodup_timedOut hs now).mp hnodup.2.1)

/-- The timeouts that were counted are those of the connections that a sweep
closed, and none of these is opened again. -/
structure Counted (m : Metered H) : Prop where
  each : m.timeouts = m.closings
  once : m.closings.Nodup
  closed : ∀ c ∈ m.closings, ∃ conn, m.server.conns c = some conn ∧ conn.closed = true

/-- A closed connection stays closed. -/
theorem closed_next (hs : Tracked s) {t : Server H} (hnext : s.next a = some t)
    (hc : ∃ conn, s.conns c = some conn ∧ conn.closed = true) :
    ∃ conn, t.conns c = some conn ∧ conn.closed = true := by
  obtain ⟨conn, hconn, hclosed⟩ := hc
  cases a with
  | accept fd made registered =>
    obtain ⟨_, heq⟩ := Option.ite_none_right_eq_some.mp hnext
    cases heq
    have hne : c ≠ s.accepted := Nat.ne_of_lt (hs.fresh c conn hconn)
    exact ⟨conn, by simpa [Server.accept, hne] using hconn, hclosed⟩
  | read d now =>
    obtain ⟨_, heq⟩ := Option.ite_none_right_eq_some.mp hnext
    obtain ⟨conn', hconn', rfl⟩ := Option.map_eq_some_iff.mp heq
    unfold Server.updateActivity
    dsimp only
    rw [Function.update_apply]
    split
    · rename_i heq
      subst heq
      cases hconn.symm.trans hconn'
      exact ⟨_, rfl, hclosed⟩
    · exact ⟨conn, hconn, hclosed⟩
  | close d =>
    cases hnext
    rw [conns_closeConn, Function.update_apply]
    split
    · rename_i heq
      rw [← heq, hconn]
      exact ⟨_, rfl, rfl⟩
    · exact ⟨conn, hconn, hclosed⟩
  | sweep now =>
    obtain ⟨_, heq⟩ := Option.ite_none_right_eq_some.mp hnext
    cases heq
    rw [IdleSweep.checkTimeouts_eq, conns_closeAll]
    split
    · change ∃ conn, (s.conns c).map _ = some conn ∧ _
      rw [hconn]
      exact ⟨_, rfl, rfl⟩
    · exact ⟨conn, hconn, hclosed⟩

/-- A sweep that finds no two entries for one idle descriptor closes each
connection that it collects. -/
theorem closings_checkTimeouts (hs : Tracked m.server) (hone : OneEntry m.server now) :
    (m.checkTimeouts now).closings = m.closings ++ timedOut m.server now := by
  rw [checkTimeouts_eq]
  exact closings_foldl ((nodup_timedOut hs now).mpr hone) fun _ => isOpen_of_timedOut hs

theorem Counted.checkTimeouts (h : Counted m) (hs : Tracked m.server)
    (hone : OneEntry m.server now) (hnow : m.server.clock ≤ now) :
    Counted (m.checkTimeouts now) := by
  have hclosings := closings_checkTimeouts hs hone
  have hnext : m.server.next (.sweep now) = some (m.server.checkTimeouts now) := if_pos hnow
  refine ⟨?_, ?_, ?_⟩
  · rw [timeouts_checkTimeouts, hclosings, h.each]
  · rw [hclosings, List.nodup_append]
    refine ⟨h.once, (nodup_timedOut hs now).mpr hone, ?_⟩
    rintro c hc _ hd rfl
    obtain ⟨conn, hconn, hclosed⟩ := h.closed c hc
    have hopen := isOpen_of_timedOut hs hd
    simp [isOpen, hconn, hclosed] at hopen
  · intro c hc
    rw [server_checkTimeouts]
    rw [hclosings] at hc
    rcases List.mem_append.mp hc with hc | hc
    · exact closed_next hs hnext (h.closed c hc)
    · obtain ⟨conn, hconn, _⟩ := (Option.any_eq_true _ _).mp (isOpen_of_timedOut hs hc)
      rw [IdleSweep.checkTimeouts_eq, conns_closeAll, if_pos hc]
      change ∃ conn, (m.server.conns c).map _ = some conn ∧ _
      rw [hconn]
      exact ⟨_, rfl, rfl⟩

/-- Nothing but a sweep counts timeouts. -/
theorem Counted.other {t : Server H} (h : Counted m) (hs : Tracked m.server)
    (hnext : m.server.next a = some t) : Counted { m with server := t } :=
  ⟨h.each, h.once, fun c hc => closed_next hs hnext (h.closed c hc)⟩

/-- A sweep finds at most one entry that is due for each idle descriptor. -/
def SweepsOnce (m : Metered H) : Action → Prop
  | .sweep now => OneEntry m.server now
  | _ => True

instance (m : Metered H) : ∀ a, Decidable (SweepsOnce m a)
  | .sweep now => inferInstanceAs (Decidable (OneEntry m.server now))
  | .accept .. | .read .. | .close .. => isTrue trivial

theorem counted (hm : Reachable (machine H start) SweepsOnce m) : Counted m := by
  refine hm.invariant_of_reachable (P := Counted) ⟨rfl, List.nodup_nil, by simp [machine]⟩ ?_
  intro m a m' hm h ha hnext
  have hs := (watched (server_reachable hm)).toTracked
  cases a with
  | sweep now =>
    obtain ⟨hnow, heq⟩ := Option.ite_none_right_eq_some.mp hnext
    cases heq
    exact h.checkTimeouts hs ha hnow
  | accept fd made registered =>
    obtain ⟨t, ht, rfl⟩ := Option.map_eq_some_iff.mp hnext
    exact h.other hs ht
  | read d at_ =>
    obtain ⟨t, ht, rfl⟩ := Option.map_eq_some_iff.mp hnext
    exact h.other hs ht
  | close d =>
    cases hnext
    exact h.other hs (a := .close d) rfl

/-- When every sweep finds at most one entry that is due for each idle
descriptor, a timeout is counted once for each connection that a sweep closed. -/
theorem timeouts_counted_once (hm : Reachable (machine H start) SweepsOnce m) :
    m.timeouts.Nodup ∧ m.timeouts.length ≤ m.closings.toFinset.card := by
  have h := counted hm
  rw [h.each, List.toFinset_card_of_nodup h.once]
  exact ⟨h.once, le_refl _⟩

end Count

section Sample

/-- The first sweep takes off the entry of connection 0, which was closed, before
its descriptor is used again. -/
theorem timeouts_counted_once_sample :
    ∃ m : Metered sampleHeaps, Reachable (machine sampleHeaps 0) SweepsOnce m ∧
      m.timeouts = [1, 2] ∧ m.timeouts.Nodup ∧ m.timeouts.length ≤ m.closings.toFinset.card := by
  have hrun : (run (machine sampleHeaps 0) SweepsOnce (machine sampleHeaps 0).init
      [.accept 9 0 1, .close 0, .sweep (700 * 10 ^ 9),
        .accept 9 (700 * 10 ^ 9) (701 * 10 ^ 9), .accept 25 (701 * 10 ^ 9) (702 * 10 ^ 9),
        .sweep (1500 * 10 ^ 9)]).any (fun m => m.timeouts = [1, 2]) := by
    decide +kernel
  obtain ⟨m, hm, htimeouts⟩ := exists_reachable hrun
  exact ⟨m, hm, htimeouts, timeouts_counted_once hm⟩

/-- The entry of connection 0, which was closed, leads to connection 1. -/
theorem timeout_counted_twice :
    ∃ m : Metered sampleHeaps, Reachable (machine sampleHeaps 0) AnyStep m ∧
      m.timeouts = [1, 1] ∧ m.closings = [1] ∧
      ¬ (m.timeouts.Nodup ∧ m.timeouts.length ≤ m.closings.toFinset.card) := by
  have hrun : (run (machine sampleHeaps 0) AnyStep (machine sampleHeaps 0).init
      [.accept 9 0 1, .close 0, .accept 9 100 101, .sweep (700 * 10 ^ 9)]).any
        (fun m => m.timeouts = [1, 1] ∧ m.closings = [1]) := by
    decide +kernel
  obtain ⟨m, hm, htimeouts, hclosings⟩ := exists_reachable hrun
  refine ⟨m, hm, htimeouts, hclosings, ?_⟩
  simp [htimeouts]

end Sample

end ChatServer.TimeoutCount
