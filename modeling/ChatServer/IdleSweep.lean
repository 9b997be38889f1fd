import ChatServer.ConnectionTable
import ChatServer.Lib.PriorityQueue

/-!
The sweep of idle connections. accept_loop puts the descriptor of a connection
on the timer heap of its shard, with the time at which the connection expires
unless it is heard of. An entry is neither removed by close_conn nor changed by
handle_read: check_timeouts takes off every entry that is due, and looks up
what connection has the descriptor by then. A connection in a shard map always
has an entry that is due when it is idle for long enough, since an entry that
is taken off too early is put back with the time at which it was due.
-/
namespace ChatServer.IdleSweep

open Broadcast Lib.Runs Lib.Shards Lib.PriorityQueue
open ConnectionTable (shardOf)

/-- `CONNECTION_TIMEOUT_SEC`, in nanoseconds as all times here. -/
def connectionTimeout : ℤ := 600 * 10 ^ 9

structure TimerEvent where
  expiresAt : ℤ
  fd : ℕ
deriving DecidableEq

/-- What counts of a Connection here. -/
structure Conn where
  fd : ℕ
  closed : Bool
  lastActivity : ℤ
  /-- When the connection expires according to accept_loop. -/
  registration : ℤ
deriving DecidableEq

/-- The heaps are some implementation of priority queues. -/
structure Server (H : Implementation TimerEvent TimerEvent.expiresAt) where
  /-- What the clock read last. -/
  clock : ℤ
  conns : ConnId → Option Conn
  accepted : ℕ
  table : ShardedMap shardOf ConnId
  heaps : Fin numShards → H.Queue

/-- Each action comes with what the clock reads in it: accept_loop reads it when
it makes the connection and when it registers its timer. -/
inductive Action
  | accept (fd : ℕ) (made registered : ℤ)
  | read (conn : ConnId) (now : ℤ)
  | close (conn : ConnId)
  | sweep (now : ℤ)

namespace Server

variable {H : Implementation TimerEvent TimerEvent.expiresAt}

def init (start : ℤ) : Server H where
  clock := start
  conns _ := none
  accepted := 0
  table := .empty
  heaps _ := H.empty

def accept (s : Server H) (fd : ℕ) (made registered : ℤ) : Server H where
  clock := registered
  conns := Function.update s.conns s.accepted
    (some ⟨fd, false, made, registered + connectionTimeout⟩)
  accepted := s.accepted + 1
  table := s.table.insert fd s.accepted
  heaps := Function.update s.heaps (shardOf fd)
    (H.push ⟨registered + connectionTimeout, fd⟩ (s.heaps (shardOf fd)))

/-- `update_activity` -/
def updateActivity (s : Server H) (c : ConnId) (conn : Conn) (now : ℤ) : Server H :=
  { s with
    clock := now
    conns := Function.update s.conns c (some { conn with lastActivity := now }) }

def closeConn (s : Server H) (c : ConnId) : Server H :=
  match s.conns c with
  | none => s
  | some conn =>
      if conn.closed then s
      else { s with
        conns := Function.update s.conns c (some { conn with closed := true })
        table := s.table.erase conn.fd }

/-- `shards_[i].connections.find(fd)` -/
def find (s : Server H) (i : Fin numShards) (fd : ℕ) : Option (ConnId × Conn) :=
  ((s.table.shards i).lookup fd).bind fun c => (s.conns c).map fun conn => (c, conn)

/-- The loop over the heap of a shard; one turn takes one entry off the heap. -/
def sweepHeap (s : Server H) (now : ℤ) (i : Fin numShards) :
    ℕ → H.Queue → List ConnId → H.Queue × List ConnId
  | 0, heap, timedOut => (heap, timedOut)
  | fuel + 1, heap, timedOut =>
      match H.top heap with
      | none => (heap, timedOut)
      | some event =>
          if now < event.expiresAt then (heap, timedOut)
          else
            match s.find i event.fd with
            | none => sweepHeap s now i fuel (H.pop heap) timedOut
            | some (c, conn) =>
                let expectedExpiry := conn.lastActivity + connectionTimeout
                if now < expectedExpiry then
                  sweepHeap s now i fuel (H.push ⟨expectedExpiry, event.fd⟩ (H.pop heap)) timedOut
                else sweepHeap s now i fuel (H.pop heap) (timedOut ++ [c])

/-- An entry that is put back is not due, so there are no more turns than there
are entries. -/
def sweepShard (s : Server H) (now : ℤ) (acc : (Fin numShards → H.Queue) × List ConnId)
    (i : Fin numShards) : (Fin numShards → H.Queue) × List ConnId :=
  let swept := s.sweepHeap now i (H.items (acc.1 i)).card (acc.1 i) acc.2
  (Function.update acc.1 i swept.1, swept.2)

def checkTimeouts (s : Server H) (now : ℤ) : Server H :=
  let swept := (List.finRange numShards).foldl (s.sweepShard now) (s.heaps, [])
  swept.2.foldl closeConn { s with clock := now, heaps := swept.1 }

/-- The clock does not run backwards. -/
def next (s : Server H) : Action → Option (Server H)
  | .accept fd made registered =>
      if s.clock ≤ made ∧ made ≤ registered then some (s.accept fd made registered) else none
  | .read c now =>
      if s.clock ≤ now then (s.conns c).map fun conn => s.updateActivity c conn now else none
  | .close c => some (s.closeConn c)
  | .sweep now => if s.clock ≤ now then some (s.checkTimeouts now) else none

end Server

def machine (H : Implementation TimerEvent TimerEvent.expiresAt) (start : ℤ) :
    Machine (Server H) Action :=
  ⟨Server.init start, Server.next⟩

variable {H : Implementation TimerEvent TimerEvent.expiresAt} {s t : Server H} {now : ℤ}
  {i : Fin numShards} {c d : ConnId} {conn conn' : Conn} {fd : ℕ}

section Heap

/-- What an entry that is due is put back as. The connection maps say what a shard has
under a descriptor. -/
def again (connections : Fin numShards → ℕ → Option (ConnId × Conn)) (now : ℤ)
    (i : Fin numShards) (event : TimerEvent) : Option TimerEvent :=
  (connections i event.fd).bind fun found =>
    if now < found.2.lastActivity + connectionTimeout then
      some ⟨found.2.lastActivity + connectionTimeout, event.fd⟩
    else none

/-- The connection that has timed out according to an entry. -/
def expired (connections : Fin numShards → ℕ → Option (ConnId × Conn)) (now : ℤ)
    (i : Fin numShards) (event : TimerEvent) : Option ConnId :=
  (connections i event.fd).bind fun found =>
    if now < found.2.lastActivity + connectionTimeout then none else some found.1

/-- The entry is put back with an expiry that was compared with `now`. -/
theorem again_later (connections : Fin numShards → ℕ → Option (ConnId × Conn)) (now : ℤ)
    (i : Fin numShards) (event event' : TimerEvent)
    (h : again connections now i event = some event') : now < event'.expiresAt := by
  obtain ⟨found, _, hfound⟩ := Option.bind_eq_some_iff.mp h
  split at hfound
  · rename_i hlater
    cases hfound
    exact hlater
  · cases hfound

/-- The loop takes the entries that are due off the heap. -/
theorem sweepHeap_eq (s : Server H) (now : ℤ) (i : Fin numShards) (fuel : ℕ) (heap : H.Queue)
    (timedOut : List ConnId) :
    s.sweepHeap now i fuel heap timedOut =
      ((drain H now (again s.find now i) fuel heap).2,
        timedOut ++
          (drain H now (again s.find now i) fuel heap).1.filterMap (expired s.find now i)) := by
  induction fuel generalizing heap timedOut with
  | zero => simp [Server.sweepHeap, drain]
  | succ fuel ih =>
    unfold Server.sweepHeap drain
    cases htop : H.top heap with
    | none => simp
    | some event =>
      by_cases hbeyond : now < event.expiresAt
      · simp [hbeyond]
      · dsimp only
        rw [if_neg hbeyond, if_neg hbeyond]
        cases hfind : s.find i event.fd with
        | none =>
          have hagain : again s.find now i event = none := by simp [again, hfind]
          have hexpired : expired s.find now i event = none := by simp [expired, hfind]
          dsimp only
          rw [ih, hagain, List.filterMap_cons_none hexpired, Option.elim_none]
        | some found =>
          obtain ⟨c, conn⟩ := found
          dsimp only
          split
          · rename_i hlater
            have hagain : again s.find now i event =
                some ⟨conn.lastActivity + connectionTimeout, event.fd⟩ := by
              simp [again, hfind, hlater]
            have hexpired : expired s.find now i event = none := by simp [expired, hfind, hlater]
            rw [ih, hagain, List.filterMap_cons_none hexpired, Option.elim_some]
          · rename_i hlater
            have hagain : again s.find now i event = none := by simp [again, hfind, hlater]
            have hexpired : expired s.find now i event = some c := by simp [expired, hfind, hlater]
            rw [ih, hagain, List.filterMap_cons_some hexpired, Option.elim_none,
              List.append_assoc, List.singleton_append]

/-- The loop has ended after as many turns as there are entries. -/
theorem sweepHeap_of_le (s : Server H) (now : ℤ) (i : Fin numShards) {fuel : ℕ}
    {heap : H.Queue} (hfuel : (H.items heap).card ≤ fuel) (timedOut : List ConnId) :
    s.sweepHeap now i fuel heap timedOut =
      s.sweepHeap now i (H.items heap).card heap timedOut := by
  have hdue := Multiset.card_le_card (Multiset.filter_le (·.expiresAt ≤ now) (H.items heap))
  rw [sweepHeap_eq, sweepHeap_eq, drain_of_le (again_later s.find now i) hdue hfuel]

theorem sweepShard_eq (s : Server H) (now : ℤ) (heaps : Fin numShards → H.Queue)
    (timedOut : List ConnId) (i : Fin numShards) :
    s.sweepShard now (heaps, timedOut) i =
      (Function.update heaps i
        (drain H now (again s.find now i) (H.items (heaps i)).card (heaps i)).2,
        timedOut ++
          (drain H now (again s.find now i) (H.items (heaps i)).card (heaps i)).1.filterMap
            (expired s.find now i)) := by
  unfold Server.sweepShard
  rw [sweepHeap_eq]

/-- The entries that a sweep finds due in a shard. -/
def due (s : Server H) (now : ℤ) (i : Fin numShards) : List TimerEvent :=
  (drain H now (again s.find now i) (H.items (s.heaps i)).card (s.heaps i)).1

theorem mem_due {event : TimerEvent} :
    event ∈ due s now i ↔ event ∈ H.items (s.heaps i) ∧ event.expiresAt ≤ now :=
  mem_drained (again_later s.find now i) (le_refl _)

/-- The heap of a shard after a sweep. -/
def sweptHeap (s : Server H) (now : ℤ) (i : Fin numShards) : H.Queue :=
  (drain H now (again s.find now i) (H.items (s.heaps i)).card (s.heaps i)).2

theorem mem_sweptHeap {event : TimerEvent} :
    event ∈ H.items (sweptHeap s now i) ↔
      (event ∈ H.items (s.heaps i) ∧ now < event.expiresAt) ∨
        ∃ event', (event' ∈ H.items (s.heaps i) ∧ event'.expiresAt ≤ now) ∧
          again s.find now i event' = some event :=
  mem_drain (again_later s.find now i) (le_refl _)

/-- The loop over the shards, for those that it has not come to yet. -/
theorem foldl_sweepShard (is : List (Fin numShards)) (hnodup : is.Nodup)
    (heaps : Fin numShards → H.Queue) (timedOut : List ConnId)
    (hsame : ∀ i ∈ is, heaps i = s.heaps i) :
    is.foldl (s.sweepShard now) (heaps, timedOut) =
      (fun i => if i ∈ is then sweptHeap s now i else heaps i,
        timedOut ++ is.flatMap fun i => (due s now i).filterMap (expired s.find now i)) := by
  induction is generalizing heaps timedOut with
  | nil => simp
  | cons i is ih =>
    obtain ⟨hnot, hnodup⟩ := List.nodup_cons.mp hnodup
    have hshard : s.sweepShard now (heaps, timedOut) i =
        (Function.update heaps i (sweptHeap s now i),
          timedOut ++ (due s now i).filterMap (expired s.find now i)) := by
      rw [sweepShard_eq, hsame i List.mem_cons_self]
      rfl
    rw [List.foldl_cons, hshard, ih hnodup]
    · refine Prod.ext ?_ ?_
      · funext j
        by_cases hj : j = i
        · subst hj
          simp [hnot]
        · simp [hj]
      · simp
    · intro j hj
      have hne : j ≠ i := by
        rintro rfl
        exact hnot hj
      rw [Function.update_of_ne hne]
      exact hsame j (List.mem_cons_of_mem _ hj)

/-- The connections that a sweep closes. -/
def timedOut (s : Server H) (now : ℤ) : List ConnId :=
  (List.finRange numShards).flatMap fun i => (due s now i).filterMap (expired s.find now i)

theorem checkTimeouts_eq (s : Server H) (now : ℤ) :
    s.checkTimeouts now =
      (timedOut s now).foldl Server.closeConn
        { s with clock := now, heaps := sweptHeap s now } := by
  unfold Server.checkTimeouts
  rw [foldl_sweepShard _ (List.nodup_finRange numShards) _ _ fun _ _ => rfl]
  simp only [List.mem_finRange, if_true, List.nil_append]
  rfl

theorem mem_timedOut : c ∈ timedOut s now ↔
    ∃ i, ∃ event ∈ due s now i, expired s.find now i event = some c := by
  simp [timedOut]

end Heap

section Close

theorem closeConn_heaps (s : Server H) (c : ConnId) :
    (s.closeConn c).heaps = s.heaps ∧ (s.closeConn c).clock = s.clock ∧
      (s.closeConn c).accepted = s.accepted := by
  unfold Server.closeConn
  split
  · exact ⟨rfl, rfl, rfl⟩
  · split
    · exact ⟨rfl, rfl, rfl⟩
    · exact ⟨rfl, rfl, rfl⟩

theorem conns_closeConn (s : Server H) (c : ConnId) :
    (s.closeConn c).conns =
      Function.update s.conns c ((s.conns c).map fun conn => { conn with closed := true }) := by
  unfold Server.closeConn
  split
  · rename_i hnone
    rw [hnone, Option.map_none, ← hnone, Function.update_eq_self]
  · rename_i conn hconn
    split
    · rename_i hclosed
      have hsame : ({ conn with closed := true } : Conn) = conn := by rw [← hclosed]
      rw [hconn, Option.map_some, hsame, ← hconn, Function.update_eq_self]
    · rw [hconn]
      rfl

theorem lookup_closeConn (h : (s.closeConn c).table.lookup fd = some d) :
    s.table.lookup fd = some d := by
  unfold Server.closeConn at h
  split at h
  · exact h
  · split at h
    · exact h
    · exact ShardedMap.lookup_of_erase h

theorem closeAll_heaps (cs : List ConnId) (s : Server H) :
    (cs.foldl Server.closeConn s).heaps = s.heaps ∧
      (cs.foldl Server.closeConn s).clock = s.clock := by
  induction cs generalizing s with
  | nil => exact ⟨rfl, rfl⟩
  | cons c cs ih =>
    obtain ⟨hheaps, hclock, _⟩ := closeConn_heaps s c
    obtain ⟨hheaps', hclock'⟩ := ih (s.closeConn c)
    exact ⟨hheaps'.trans hheaps, hclock'.trans hclock⟩

theorem conns_closeAll (cs : List ConnId) (s : Server H) (c : ConnId) :
    (cs.foldl Server.closeConn s).conns c =
      if c ∈ cs then (s.conns c).map fun conn => { conn with closed := true }
      else s.conns c := by
  induction cs generalizing s with
  | nil => rfl
  | cons d cs ih =>
    rw [List.foldl_cons, ih, conns_closeConn, Function.update_apply]
    by_cases hd : c = d
    · subst hd
      simp [Function.comp_def]
    · simp [hd]

end Close

/-- The connections in the shard maps are open and have their descriptor. -/
structure Tracked (s : Server H) : Prop where
  fresh : ∀ (c : ℕ) conn, s.conns c = some conn → c < s.accepted
  mapped : ∀ fd c, s.table.lookup fd = some c →
    ∃ conn, s.conns c = some conn ∧ conn.fd = fd ∧ conn.closed = false

namespace Tracked

theorem not_mapped_closeConn (h : Tracked s) : (s.closeConn c).table.lookup fd ≠ some c := by
  intro hc
  obtain ⟨conn, hconn, rfl, hopen⟩ := h.mapped fd c (lookup_closeConn hc)
  unfold Server.closeConn at hc
  rw [hconn] at hc
  simp only [hopen, Bool.false_eq_true, if_false] at hc
  rw [ShardedMap.lookup_erase] at hc
  cases hc

theorem closeConn (h : Tracked s) (c : ConnId) : Tracked (s.closeConn c) := by
  refine ⟨?_, ?_⟩
  · intro d conn hd
    rw [conns_closeConn, Function.update_apply] at hd
    rw [(closeConn_heaps s c).2.2]
    split at hd
    · rename_i heq
      obtain ⟨conn', hconn', _⟩ := Option.map_eq_some_iff.mp hd
      rw [heq]
      exact h.fresh c conn' hconn'
    · exact h.fresh d conn hd
  · intro fd d hd
    obtain ⟨conn, hconn, hfd, hopen⟩ := h.mapped fd d (lookup_closeConn hd)
    have hne : d ≠ c := by
      rintro rfl
      exact h.not_mapped_closeConn hd
    exact ⟨conn, by rw [conns_closeConn, Function.update_of_ne hne, hconn], hfd, hopen⟩

theorem swept (h : Tracked s) :
    Tracked { s with clock := now, heaps := sweptHeap s now } := ⟨h.fresh, h.mapped⟩

/-- The loop that closes the connections which timed out. -/
theorem closeAll (h : Tracked s) (cs : List ConnId) :
    Tracked (cs.foldl Server.closeConn s) ∧
      ∀ fd c, (cs.foldl Server.closeConn s).table.lookup fd = some c →
        c ∉ cs ∧ s.table.lookup fd = some c := by
  induction cs generalizing s with
  | nil => exact ⟨h, fun fd c hc => ⟨List.not_mem_nil, hc⟩⟩
  | cons d cs ih =>
    obtain ⟨htracked, hlookup⟩ := ih (h.closeConn d)
    refine ⟨htracked, ?_⟩
    intro fd c hc
    obtain ⟨hnot, hc⟩ := hlookup fd c hc
    have hne : c ≠ d := by
      rintro rfl
      exact h.not_mapped_closeConn hc
    exact ⟨by simp [hne, hnot], lookup_closeConn hc⟩

end Tracked

/-- The shard of the connection has an entry with its descriptor, which is due
when the connection has been idle for too long and its registration has expired. -/
def Timed (s : Server H) (conn : Conn) : Prop :=
  ∃ event ∈ H.items (s.heaps (shardOf conn.fd)), event.fd = conn.fd ∧
    (event.expiresAt ≤ conn.lastActivity + connectionTimeout ∨
      event.expiresAt ≤ conn.registration)

/-- Every connection in a shard map has an entry on its heap. -/
structure Watched (s : Server H) : Prop extends Tracked s where
  past : ∀ c conn, s.conns c = some conn → conn.lastActivity ≤ s.clock
  timed : ∀ fd c conn, s.table.lookup fd = some c → s.conns c = some conn → Timed s conn

section Accept

variable {made registered : ℤ}

theorem conns_accept (h : (s.accept fd made registered).conns c = some conn) :
    (c = s.accepted ∧ conn = ⟨fd, false, made, registered + connectionTimeout⟩) ∨
      s.conns c = some conn := by
  unfold Server.accept at h
  dsimp only at h
  rw [Function.update_apply] at h
  split at h
  · rename_i heq
    exact Or.inl ⟨heq, (Option.some.inj h).symm⟩
  · exact Or.inr h

theorem lookup_accept {fd' : ℕ} (h : (s.accept fd made registered).table.lookup fd' = some c) :
    (fd' = fd ∧ c = s.accepted) ∨ s.table.lookup fd' = some c := by
  unfold Server.accept at h
  by_cases hfd : fd' = fd
  · subst hfd
    rw [ShardedMap.lookup_insert] at h
    exact Or.inl ⟨rfl, (Option.some.inj h).symm⟩
  · rw [ShardedMap.lookup_insert_ne _ _ hfd] at h
    exact Or.inr h

/-- What is on a heap stays there. -/
theorem mem_heap_accept {event : TimerEvent} (h : event ∈ H.items (s.heaps i)) :
    event ∈ H.items ((s.accept fd made registered).heaps i) := by
  unfold Server.accept
  dsimp only
  rw [Function.update_apply]
  split
  · rename_i hi
    rw [H.items_push, ← hi]
    exact Multiset.mem_cons_of_mem h
  · exact h

end Accept

namespace Watched

theorem init (start : ℤ) : Watched (Server.init start : Server H) :=
  ⟨⟨nofun, by simp [Server.init]⟩, nofun, by simp [Server.init]⟩

theorem accept {made registered : ℤ} (h : Watched s) (hmade : s.clock ≤ made)
    (hregistered : made ≤ registered) : Watched (s.accept fd made registered) := by
  have hnew : ∀ fd c, s.table.lookup fd = some c → c ≠ s.accepted := by
    intro fd c hc
    obtain ⟨conn, hconn, _⟩ := h.mapped fd c hc
    exact Nat.ne_of_lt (h.fresh c conn hconn)
  refine ⟨⟨?_, ?_⟩, ?_, ?_⟩
  · intro c conn hc
    change c < s.accepted + 1
    rcases conns_accept hc with ⟨heq, _⟩ | hold
    · rw [heq]
      exact Nat.lt_succ_self _
    · have hlt := h.fresh c conn hold
      omega
  · intro fd' c hc
    rcases lookup_accept hc with ⟨rfl, rfl⟩ | hold
    · exact ⟨_, Function.update_self .., rfl, rfl⟩
    · obtain ⟨conn, hconn, hconnfd, hopen⟩ := h.mapped fd' c hold
      have hne := hnew fd' c hold
      exact ⟨conn, by simpa [Server.accept, hne] using hconn, hconnfd, hopen⟩
  · intro c conn hc
    change conn.lastActivity ≤ registered
    rcases conns_accept hc with ⟨_, rfl⟩ | hold
    · exact hregistered
    · have hpast := h.past c conn hold
      omega
  · intro fd' c conn hc hconn
    rcases conns_accept hconn with ⟨rfl, rfl⟩ | hold
    · refine ⟨⟨registered + connectionTimeout, fd⟩, ?_, rfl, Or.inr (le_refl _)⟩
      simp [Server.accept, H.items_push]
    · have hlt := h.fresh c conn hold
      have hmapped : s.table.lookup fd' = some c := by
        rcases lookup_accept hc with ⟨_, heq⟩ | hmapped
        · exact absurd heq (Nat.ne_of_lt hlt)
        · exact hmapped
      obtain ⟨event, hevent, htimed⟩ := h.timed fd' c conn hmapped hold
      exact ⟨event, mem_heap_accept hevent, htimed⟩

theorem updateActivity (h : Watched s) (hconn : s.conns c = some conn) (hnow : s.clock ≤ now) :
    Watched (s.updateActivity c conn now) := by
  have hpast := h.past c conn hconn
  have hconns : ∀ d conn', (s.updateActivity c conn now).conns d = some conn' →
      (d = c ∧ conn' = { conn with lastActivity := now }) ∨ s.conns d = some conn' := by
    intro d conn' hd
    unfold Server.updateActivity at hd
    dsimp only at hd
    rw [Function.update_apply] at hd
    split at hd
    · rename_i heq
      exact Or.inl ⟨heq, (Option.some.inj hd).symm⟩
    · exact Or.inr hd
  refine ⟨⟨?_, ?_⟩, ?_, ?_⟩
  · intro d conn' hd
    rcases hconns d conn' hd with ⟨rfl, _⟩ | hd
    · exact h.fresh d conn hconn
    · exact h.fresh d conn' hd
  · intro fd d hd
    obtain ⟨conn', hconn', hfd, hopen⟩ := h.mapped fd d hd
    by_cases heq : d = c
    · subst heq
      cases hconn.symm.trans hconn'
      exact ⟨_, Function.update_self .., hfd, hopen⟩
    · exact ⟨conn', by simpa [Server.updateActivity, heq] using hconn', hfd, hopen⟩
  · intro d conn' hd
    change conn'.lastActivity ≤ now
    rcases hconns d conn' hd with ⟨_, rfl⟩ | hd
    · exact le_refl _
    · exact (h.past d conn' hd).trans hnow
  · intro fd d conn' hd hconn'
    rcases hconns d conn' hconn' with ⟨rfl, rfl⟩ | hold
    · obtain ⟨event, hevent, hfd, hexpires⟩ := h.timed fd d conn hd hconn
      refine ⟨event, hevent, hfd, ?_⟩
      dsimp only
      omega
    · exact h.timed fd d conn' hd hold

theorem closeConn (h : Watched s) (c : ConnId) : Watched (s.closeConn c) := by
  obtain ⟨hheaps, hclock, _⟩ := closeConn_heaps s c
  refine ⟨h.toTracked.closeConn c, ?_, ?_⟩
  · intro d conn hd
    rw [conns_closeConn, Function.update_apply] at hd
    rw [hclock]
    split at hd
    · obtain ⟨conn', hconn', rfl⟩ := Option.map_eq_some_iff.mp hd
      exact h.past c conn' hconn'
    · exact h.past d conn hd
  · intro fd d conn hd hconn
    have hne : d ≠ c := by
      rintro rfl
      exact h.toTracked.not_mapped_closeConn hd
    rw [conns_closeConn, Function.update_of_ne hne] at hconn
    unfold Timed
    rw [hheaps]
    exact h.timed fd d conn (lookup_closeConn hd) hconn

/-- A connection that is in a shard map after a sweep was not taken for idle. -/
theorem mapped_after (h : Watched s) (hc : (s.checkTimeouts now).table.lookup fd = some c) :
    ∃ conn, (s.checkTimeouts now).conns c = some conn ∧ s.conns c = some conn ∧
      Timed (s.checkTimeouts now) conn ∧
      (now < conn.lastActivity + connectionTimeout ∨ now < conn.registration) := by
  have hheaps := (closeAll_heaps (timedOut s now)
    { s with clock := now, heaps := sweptHeap s now }).1
  have hconns := conns_closeAll (timedOut s now)
    { s with clock := now, heaps := sweptHeap s now } c
  rw [checkTimeouts_eq] at hc ⊢
  obtain ⟨hnot, hlookup⟩ := (h.toTracked.swept.closeAll (timedOut s now)).2 fd c hc
  obtain ⟨conn, hconn, rfl, _⟩ := h.mapped fd c hlookup
  refine ⟨conn, by rw [hconns, if_neg hnot, hconn], hconn, ?_⟩
  unfold Timed
  rw [hheaps]
  obtain ⟨event, hevent, hfd, hexpires⟩ := h.timed conn.fd c conn hlookup hconn
  by_cases hdue : event.expiresAt ≤ now
  · -- The entry is taken off the heap, and the connection is found by its descriptor.
    have hfind : s.find (shardOf conn.fd) event.fd = some (c, conn) := by
      rw [hfd]
      exact Option.bind_eq_some_iff.mpr ⟨c, hlookup, by rw [hconn]; rfl⟩
    have hlater : now < conn.lastActivity + connectionTimeout := by
      by_contra hidle
      refine hnot (mem_timedOut.mpr ⟨shardOf conn.fd, event, mem_due.mpr ⟨hevent, hdue⟩, ?_⟩)
      simp [expired, hfind, hidle]
    refine ⟨⟨⟨conn.lastActivity + connectionTimeout, event.fd⟩, ?_, hfd, Or.inl (le_refl _)⟩,
      Or.inl hlater⟩
    refine mem_sweptHeap.mpr (Or.inr ⟨event, ⟨hevent, hdue⟩, ?_⟩)
    simp [again, hfind, hlater]
  · refine ⟨⟨event, mem_sweptHeap.mpr (Or.inl ⟨hevent, not_le.mp hdue⟩), hfd, hexpires⟩, ?_⟩
    omega

theorem checkTimeouts (h : Watched s) (hnow : s.clock ≤ now) :
    Watched (s.checkTimeouts now) := by
  have htracked : Tracked (s.checkTimeouts now) := by
    rw [checkTimeouts_eq]
    exact (h.toTracked.swept.closeAll (timedOut s now)).1
  refine ⟨htracked, ?_, ?_⟩
  · intro c conn hc
    rw [checkTimeouts_eq, conns_closeAll] at hc
    rw [checkTimeouts_eq, (closeAll_heaps _ _).2]
    split at hc
    · obtain ⟨conn', hconn', rfl⟩ := Option.map_eq_some_iff.mp hc
      exact (h.past c conn' hconn').trans hnow
    · exact (h.past c conn hc).trans hnow
  · intro fd c conn hc hconn
    obtain ⟨conn', hconn', _, htimed, _⟩ := h.mapped_after hc
    cases hconn.symm.trans hconn'
    exact htimed

end Watched

theorem watched {allowed : Server H → Action → Prop} {start : ℤ}
    (hs : Reachable (machine H start) allowed s) : Watched s := by
  refine hs.invariant (P := Watched) (Watched.init start) ?_
  intro s a t h _ hnext
  cases a with
  | accept fd made registered =>
    obtain ⟨⟨hmade, hregistered⟩, heq⟩ := Option.ite_none_right_eq_some.mp hnext
    cases heq
    exact h.accept hmade hregistered
  | read c now =>
    obtain ⟨hnow, heq⟩ := Option.ite_none_right_eq_some.mp hnext
    obtain ⟨conn, hconn, rfl⟩ := Option.map_eq_some_iff.mp heq
    exact h.updateActivity hconn hnow
  | close c =>
    cases hnext
    exact h.closeConn c
  | sweep now =>
    obtain ⟨hnow, heq⟩ := Option.ite_none_right_eq_some.mp hnext
    cases heq
    exact h.checkTimeouts hnow

/-- The connections that a sweep closes have been idle. -/
theorem idle_of_closed (hconn : s.conns c = some conn)
    (hafter : (s.checkTimeouts now).conns c = some conn') (hopen : conn.closed = false)
    (hclosed : conn'.closed = true) : conn.lastActivity + connectionTimeout ≤ now := by
  have hin : c ∈ timedOut s now := by
    by_contra hnot
    rw [checkTimeouts_eq, conns_closeAll, if_neg hnot] at hafter
    cases hconn.symm.trans hafter
    rw [hopen] at hclosed
    cases hclosed
  obtain ⟨i, event, _, hexpired⟩ := mem_timedOut.mp hin
  obtain ⟨⟨d, conn''⟩, hfind, hidle⟩ := Option.bind_eq_some_iff.mp hexpired
  obtain ⟨d', _, hfound⟩ := Option.bind_eq_some_iff.mp hfind
  obtain ⟨_, hconn', heq⟩ := Option.map_eq_some_iff.mp hfound
  cases heq
  split at hidle
  · cases hidle
  · rename_i hnot
    cases hidle
    cases hconn.symm.trans hconn'
    exact not_lt.mp hnot

/-- A sweep closes only connections that have been idle, and leaves only those
in the shard maps that have not been idle or whose registration has not expired. -/
theorem idle_detection {allowed : Server H → Action → Prop} {start : ℤ}
    (hs : Reachable (machine H start) allowed s) (hnext : s.next (.sweep now) = some t) :
    (∀ c conn conn', s.conns c = some conn → t.conns c = some conn' → conn.closed = false →
      conn'.closed = true → conn.lastActivity + connectionTimeout ≤ now) ∧
    ∀ c, t.table.Has c → ∃ conn, t.conns c = some conn ∧
      (now < conn.lastActivity + connectionTimeout ∨ now < conn.registration) := by
  obtain ⟨_, heq⟩ := Option.ite_none_right_eq_some.mp hnext
  cases heq
  refine ⟨fun c conn conn' => idle_of_closed, ?_⟩
  intro c hc
  obtain ⟨fd, hlookup⟩ := (ShardedMap.has_iff _).mp hc
  obtain ⟨conn, hconn, _, _, hnot⟩ := (watched hs).mapped_after hlookup
  exact ⟨conn, hconn, hnot⟩

section Sample

def sampleHeaps : Implementation TimerEvent TimerEvent.expiresAt := sorted TimerEvent.expiresAt

/-- Connection 1 has the descriptor of connection 0, and connection 2 is in the
same shard; only connection 1 is heard of. -/
def sampleSteps : List Action :=
  [.accept 9 0 1, .close 0, .accept 9 100 101, .accept 25 200 201, .read 1 (500 * 10 ^ 9)]

/-- The sweep closes connection 2, and leaves connection 1 although the entry
of connection 0 is due. -/
theorem idle_detection_sample :
    ∃ s t : Server sampleHeaps, Reachable (machine sampleHeaps 0) AnyStep s ∧
      s.next (.sweep (700 * 10 ^ 9)) = some t ∧
      (∃ conn, s.conns 2 = some conn ∧ conn.closed = false ∧ t.table.lookup 25 = none ∧
        conn.lastActivity + connectionTimeout ≤ 700 * 10 ^ 9) ∧
      ∃ conn, t.conns 1 = some conn ∧ (700 * 10 ^ 9 < conn.lastActivity + connectionTimeout ∨
        700 * 10 ^ 9 < conn.registration) := by
  have hrun : (run (machine sampleHeaps 0) AnyStep (Server.init 0) sampleSteps).any (fun s =>
      s.conns 2 = some ⟨25, false, 200, 201 + connectionTimeout⟩ ∧
        (s.next (.sweep (700 * 10 ^ 9))).any (fun t =>
          t.conns 2 = some ⟨25, true, 200, 201 + connectionTimeout⟩ ∧ t.table.lookup 25 = none ∧
            t.table.Has 1)) := by
    decide +kernel
  obtain ⟨s, hs, hopen, hsweep⟩ := exists_reachable hrun
  obtain ⟨t, hnext, ht⟩ := (Option.any_eq_true _ _).mp hsweep
  obtain ⟨hclosed, hgone, hmapped⟩ := of_decide_eq_true ht
  obtain ⟨hsound, hcomplete⟩ := idle_detection hs hnext
  exact ⟨s, t, hs, hnext, ⟨_, hopen, rfl, hgone, hsound 2 _ _ hopen hclosed rfl rfl⟩,
    hcomplete 1 hmapped⟩

end Sample

end ChatServer.IdleSweep
