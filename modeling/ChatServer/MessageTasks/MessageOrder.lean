import Mathlib.Data.Fintype.Basic
import Mathlib.Tactic.Linarith
import ChatServer.MessageTasks
import ChatServer.Lib.WorkQueue

/-!
The order of the messages of a connection in the third version. The tasks wait
in a line in the order in which handle_read has decoded the messages, and the
workers take them from its front. But a worker that has taken a task may be
overtaken before it has locked the connection's mutex, and a second time before
it has pushed its chat line.
-/
namespace ChatServer.MessageTasks.MessageOrder

open Lib.Runs Lib.WorkQueue

variable {C W : Type*}

/-- Of two messages of one connection, the first was decoded before the second. -/
def Before (p q : C × ℕ) : Prop := p.1 = q.1 → p.2 < q.2

section Stages

/-- The message for which a worker is to lock the connection's mutex. -/
def awaits : Stage C → Option (Message C)
  | .taken m => some m
  | _ => none

/-- The message whose chat line a call pushes. -/
def chatOf : Call C → Option (C × ℕ)
  | .broadcast evt => evt.origin
  | _ => none

/-- The messages whose chat lines are still to be pushed. -/
def chats : Stage C → List (C × ℕ)
  | .calling calls => calls.filterMap chatOf
  | _ => []

def nextChat : Stage C → Option (C × ℕ)
  | .calling (call :: _) => chatOf call
  | _ => none

@[simp] theorem awaits_after (calls : List (Call C)) : awaits (Stage.after calls) = none := by
  cases calls <;> rfl

@[simp] theorem chats_after (calls : List (Call C)) :
    chats (Stage.after calls) = calls.filterMap chatOf := by
  cases calls <;> rfl

/-- The calls that are left have no other lines. -/
theorem chats_after_sublist {stage : Stage C} {call : Call C} {calls : List (Call C)}
    (h : stage = .calling (call :: calls)) : (chats (Stage.after calls)).Sublist (chats stage) := by
  rw [h, chats_after]
  exact (List.sublist_cons_self call calls).filterMap chatOf

end Stages

/-- The messages that have found the connection open are the first that were decoded,
in order; the first that was treated as the username is the very first; and the chat
lines have reached the queue in order. -/
structure InOrder (s : Server C W) : Prop where
  acts : ∀ c, (s.conns c).acted = List.range (s.conns c).acted.length
  first : ∀ c, ∀ i ∈ (s.conns c).asked.head?, i = 0
  lines : (s.globalQueue.filterMap BroadcastEvent.origin).Pairwise Before

/-- A worker locks the mutex of an open connection, or pushes a chat line, only when
no other worker is still to do so for an older message of this connection. -/
def InTurn (s : Server C W) : Action C W → Prop
  | .lock w => ∀ m ∈ awaits (s.stage (.worker w)), (s.conns m.conn).closed = false →
      ∀ v, ∀ k ∈ awaits (s.stage (.worker v)), k.conn = m.conn → m.number ≤ k.number
  | .call t => ∀ p ∈ nextChat (s.stage t),
      ∀ v, ∀ q ∈ chats (s.stage (.worker v)), q.1 = p.1 → p.2 ≤ q.2
  | _ => True

instance [DecidableEq C] [Fintype W] (s : Server C W) : ∀ a, Decidable (InTurn s a)
  | .lock w => inferInstanceAs (Decidable (∀ m ∈ awaits (s.stage (.worker w)),
      (s.conns m.conn).closed = false → ∀ v, ∀ k ∈ awaits (s.stage (.worker v)),
        k.conn = m.conn → m.number ≤ k.number))
  | .call t => inferInstanceAs (Decidable (∀ p ∈ nextChat (s.stage t),
      ∀ v, ∀ q ∈ chats (s.stage (.worker v)), q.1 = p.1 → p.2 ≤ q.2))
  | .tick _ | .read _ | .decode _ | .readDone _ | .hangUp _ | .take _ | .insert _ | .assign _
  | .disconnect _ => isTrue trivial

section OnMessageRecv

variable {conn : Connection} {now : ℚ} {m : Message C} {r : Connection × Stage C}

theorem eq_of_closed (h : Received conn now m r) (hclosed : conn.closed = true) :
    r = (conn, .idle) := by
  cases h with
  | closed _ => rfl
  | _ hopen => cases hopen.symm.trans hclosed

/-- The message is added to those that have found the connection open. -/
theorem acted_of_open (h : Received conn now m r) (hopen : conn.closed = false) :
    r.1.acted = conn.acted ++ [m.number] := by
  cases h with
  | closed hclosed => cases hopen.symm.trans hclosed
  | _ => rfl

theorem kept_received (h : Received conn now m r) :
    r.1.decoded = conn.decoded ∧ r.1.closed = conn.closed := by
  cases h <;> exact ⟨rfl, rfl⟩

theorem asked_received (h : Received conn now m r) :
    r.1.asked = conn.asked ∨ r.1.asked = conn.asked ++ [m.number] := by
  cases h with
  | username _ _ _ => exact Or.inr rfl
  | _ => exact Or.inl rfl

/-- A full bucket stays full, so the spam check lets the message pass. -/
theorem asked_of_full (h : Received conn now m r) (hopen : conn.closed = false)
    (hstate : conn.state = .awaitingUsername) (hfull : conn.tokens = maxTokens)
    (hpast : conn.lastRefillTime ≤ now) : r.1.asked = conn.asked ++ [m.number] := by
  have htokens : (conn.refill now).tokens = maxTokens := by
    simp only [Connection.refill, hfull, refillRate]
    split
    · rfl
    · rename_i hless
      linarith
  cases h with
  | closed hclosed => cases hopen.symm.trans hclosed
  | spam _ hlow =>
    rw [htokens, maxTokens] at hlow
    norm_num at hlow
  | username _ _ _ => rfl
  | chat _ _ hactive => cases hstate.symm.trans hactive

/-- There is at most one chat line to be pushed, and it is that of the message. -/
theorem stage_received (h : Received conn now m r) :
    awaits r.2 = none ∧ (chats r.2 = [] ∨ chats r.2 = [(m.conn, m.number)]) := by
  cases h with
  | chat _ _ _ => exact ⟨rfl, Or.inr rfl⟩
  | _ => exact ⟨rfl, Or.inl rfl⟩

theorem conn_of_logsIn (h : Received conn now m r) {c : C} (hlogin : r.2.logsIn = some c) :
    c = m.conn := by
  cases h with
  | username _ _ _ => exact (Option.some.inj hlogin).symm
  | _ => cases hlogin

end OnMessageRecv

section Line

/-- The line of the pool, and what the workers have taken and not yet locked for. -/
def pool (s : Server C W) : Pool W (Message C) :=
  ⟨s.taskQueue, fun w => awaits (s.stage (.worker w))⟩

def Older (j k : Message C) : Prop := Before (j.conn, j.number) (k.conn, k.number)

/-- What is known about the messages that wait or that a worker has taken. -/
structure Queued (s : Server C W) : Prop where
  ordered : (pool s).Ordered Older
  acts : ∀ c, (s.conns c).acted = List.range (s.conns c).acted.length
  bounded : ∀ c, (s.conns c).acted.length ≤ (s.conns c).decoded
  pending : ∀ m, (pool s).Has m →
    (s.conns m.conn).acted.length ≤ m.number ∧ m.number < (s.conns m.conn).decoded
  complete : ∀ c i, (s.conns c).closed = false → (s.conns c).acted.length ≤ i →
    i < (s.conns c).decoded → ∃ m, (pool s).Has m ∧ m.conn = c ∧ m.number = i

theorem pool_pushTask [DecidableEq C] (s : Server C W) (c : C) (raw : Text) :
    pool (s.pushTask c raw) = (pool s).join [⟨c, (s.conns c).decoded, raw⟩] := rfl

theorem decoded_pushTask [DecidableEq C] (s : Server C W) (c : C) (raw : Text) (d : C) :
    ((s.pushTask c raw).conns d).decoded =
      if d = c then (s.conns d).decoded + 1 else (s.conns d).decoded := by
  change (Function.update s.conns c _ d).decoded = _
  rw [Function.update_apply]
  split
  · rename_i heq
    rw [heq]
  · rfl

namespace Queued

variable {s u : Server C W}

theorem init (fd : C → ℕ) : Queued (Server.init fd : Server C W) := by
  refine ⟨⟨List.Pairwise.nil, nofun, nofun⟩, fun _ => rfl, fun _ => Nat.le_refl _, ?_, ?_⟩
  · rintro m (hm | ⟨w, hw⟩)
    · cases hm
    · cases hw
  · intro c i _ _ hi
    exact absurd hi (Nat.not_lt_zero i)

/-- The pool and the numbers stay. -/
theorem keep (h : Queued s) (hpool : pool u = pool s)
    (hconns : ∀ c, (u.conns c).acted = (s.conns c).acted ∧
      (u.conns c).decoded = (s.conns c).decoded)
    (hopen : ∀ c, (u.conns c).closed = false → (s.conns c).closed = false) : Queued u := by
  refine ⟨hpool ▸ h.ordered, ?_, ?_, ?_, ?_⟩
  · intro c
    rw [(hconns c).1]
    exact h.acts c
  · intro c
    rw [(hconns c).1, (hconns c).2]
    exact h.bounded c
  · intro m hm
    rw [(hconns m.conn).1, (hconns m.conn).2]
    exact h.pending m (hpool ▸ hm)
  · intro c i hc
    rw [(hconns c).1, (hconns c).2, hpool]
    exact h.complete c i (hopen c hc)

section Steps

variable [DecidableEq C] [DecidableEq W] {w : W} {m : Message C} {rest : List (Message C)}

omit [DecidableEq W] in
theorem decode (h : Queued s) (c : C) (raw : Text) : Queued (s.pushTask c raw) := by
  have hacted : ∀ d, ((s.pushTask c raw).conns d).acted = (s.conns d).acted :=
    Server.apply_setConn Connection.acted rfl
  have hclosed : ∀ d, ((s.pushTask c raw).conns d).closed = (s.conns d).closed :=
    Server.apply_setConn Connection.closed rfl
  have hdecoded : ∀ d, (s.conns d).decoded ≤ ((s.pushTask c raw).conns d).decoded := by
    intro d
    rw [decoded_pushTask]
    split <;> omega
  refine ⟨?_, ?_, ?_, ?_, ?_⟩
  · rw [pool_pushTask]
    refine h.ordered.join (List.pairwise_singleton _ _) fun j hj k hk => ?_
    rw [List.mem_singleton.mp hk]
    intro hconn
    have hnumber := (h.pending j hj).2
    rwa [show j.conn = c from hconn] at hnumber
  · intro d
    rw [hacted]
    exact h.acts d
  · intro d
    rw [hacted]
    exact (h.bounded d).trans (hdecoded d)
  · intro k hk
    rw [hacted]
    rcases Pool.has_join.mp (pool_pushTask s c raw ▸ hk) with hk | hk
    · obtain ⟨hlow, hhigh⟩ := h.pending k hk
      exact ⟨hlow, hhigh.trans_le (hdecoded k.conn)⟩
    · rw [List.mem_singleton.mp hk]
      refine ⟨h.bounded c, ?_⟩
      change (s.conns c).decoded < ((s.pushTask c raw).conns c).decoded
      rw [decoded_pushTask, if_pos rfl]
      exact Nat.lt_succ_self _
  · intro d i hd hlow hhigh
    rw [hacted] at hlow
    rw [hclosed] at hd
    rw [pool_pushTask]
    by_cases hi : i < (s.conns d).decoded
    · obtain ⟨k, hk, heq⟩ := h.complete d i hd hlow hi
      exact ⟨k, Pool.has_join.mpr (Or.inl hk), heq⟩
    · rw [decoded_pushTask] at hhigh
      split at hhigh
      · rename_i hdc
        subst hdc
        refine ⟨_, Pool.has_join.mpr (Or.inr (List.mem_singleton_self _)), rfl, ?_⟩
        change (s.conns d).decoded = i
        omega
      · exact absurd hhigh hi

omit [DecidableEq C] in
theorem take (h : Queued s) (hidle : s.stage (.worker w) = .idle)
    (hqueue : s.taskQueue = m :: rest) :
    Queued { s.goto (.worker w) (.taken m) with taskQueue := rest } := by
  have hpool : pool { s.goto (.worker w) (.taken m) with taskQueue := rest } =
      (pool s).take w m rest :=
    congrArg (Pool.mk rest) (comp_update_worker awaits s.stage w (.taken m))
  have hheld : (pool s).held w = none := congrArg awaits hidle
  refine ⟨?_, h.acts, h.bounded, ?_, ?_⟩
  · rw [hpool]
    exact h.ordered.take hqueue hheld
  · intro k hk
    exact h.pending k ((hpool ▸ hk).of_take hqueue)
  · intro c i hc hlow hhigh
    obtain ⟨k, hk, heq⟩ := h.complete c i hc hlow hhigh
    exact ⟨k, hpool ▸ hk.take hqueue hheld, heq⟩

omit [DecidableEq C] [DecidableEq W] in
/-- The message that comes to the mutex in its turn is the next one. -/
theorem number_eq (h : Queued s) (htaken : s.stage (.worker w) = .taken m)
    (hopen : (s.conns m.conn).closed = false) (hturn : InTurn s (.lock w)) :
    m.number = (s.conns m.conn).acted.length := by
  have hheld : (pool s).held w = some m := congrArg awaits htaken
  obtain ⟨hlow, hhigh⟩ := h.pending m (Or.inr ⟨w, hheld⟩)
  by_contra hne
  have hless : (s.conns m.conn).acted.length < m.number := by omega
  obtain ⟨k, hk, hconn, hnumber⟩ :=
    h.complete m.conn (s.conns m.conn).acted.length hopen (Nat.le_refl _) (by omega)
  rcases hk with hk | ⟨v, hv⟩
  · have holder := h.ordered.front w m hheld k hk hconn.symm
    omega
  · have hlate := hturn m hheld hopen v k hv hconn
    omega

theorem pool_receive (s : Server C W) (w : W) (m : Message C) :
    pool (s.receive w m) = (pool s).release w := by
  have hnone := (stage_received (received (s.conns m.conn) s.now m)).1
  have hheld := comp_update_worker awaits s.stage w (onMessageRecv (s.conns m.conn) s.now m).2
  rw [hnone] at hheld
  exact congrArg (Pool.mk s.taskQueue) hheld

/-- The message of a closed connection is dropped. -/
theorem drop (h : Queued s) (htaken : s.stage (.worker w) = .taken m)
    (hclosed : (s.conns m.conn).closed = true) : Queued (s.receive w m) := by
  have hheld : (pool s).held w = some m := congrArg awaits htaken
  have hconns : (s.receive w m).conns = s.conns := by
    change Function.update s.conns m.conn (onMessageRecv (s.conns m.conn) s.now m).1 = s.conns
    rw [eq_of_closed (received _ _ _) hclosed, Function.update_eq_self]
  refine ⟨?_, ?_, ?_, ?_, ?_⟩
  · rw [pool_receive]
    exact h.ordered.release
  · rw [hconns]
    exact h.acts
  · rw [hconns]
    exact h.bounded
  · intro k hk
    rw [hconns]
    rw [pool_receive] at hk
    exact h.pending k hk.of_release
  · intro c i hc hlow hhigh
    rw [hconns] at hc hlow hhigh
    rw [pool_receive]
    obtain ⟨k, hk, hconn, hnumber⟩ := h.complete c i hc hlow hhigh
    rcases hk.release w with hk | hk
    · exact ⟨k, hk, hconn, hnumber⟩
    · cases hheld.symm.trans hk
      rw [hconn, hc] at hclosed
      cases hclosed

/-- The next message of an open connection is handled. -/
theorem act (h : Queued s) (htaken : s.stage (.worker w) = .taken m)
    (hopen : (s.conns m.conn).closed = false)
    (hnumber : m.number = (s.conns m.conn).acted.length) : Queued (s.receive w m) := by
  have hheld : (pool s).held w = some m := congrArg awaits htaken
  have hkept := kept_received (received (s.conns m.conn) s.now m)
  have hdecoded : ∀ d, ((s.receive w m).conns d).decoded = (s.conns d).decoded :=
    Server.apply_setConn Connection.decoded hkept.1
  have hclosed : ∀ d, ((s.receive w m).conns d).closed = (s.conns d).closed :=
    Server.apply_setConn Connection.closed hkept.2
  have hself : ((s.receive w m).conns m.conn).acted = (s.conns m.conn).acted ++ [m.number] := by
    change (Function.update s.conns m.conn _ m.conn).acted = _
    rw [Function.update_self]
    exact acted_of_open (received _ _ _) hopen
  have hother : ∀ d, d ≠ m.conn → ((s.receive w m).conns d).acted = (s.conns d).acted := by
    intro d hd
    change (Function.update s.conns m.conn _ d).acted = _
    rw [Function.update_of_ne hd]
  have hlater : ∀ k, ((pool s).release w).Has k → k.conn = m.conn → m.number < k.number := by
    intro k hk hconn
    have hlow := (h.pending k hk.of_release).1
    rw [hconn] at hlow
    rcases hk with hk | ⟨v, hv⟩
    · exact h.ordered.front w m hheld k hk hconn.symm
    · obtain ⟨hne, hv⟩ := Pool.held_release hv
      rcases h.ordered.apart w v m k hne.symm hheld hv with hless | hless
      · exact hless hconn.symm
      · have hless : k.number < m.number := hless hconn
        omega
  refine ⟨?_, ?_, ?_, ?_, ?_⟩
  · rw [pool_receive]
    exact h.ordered.release
  · intro d
    by_cases hd : d = m.conn
    · rw [hd, hself, List.length_append, List.length_singleton, List.range_succ, ← h.acts m.conn,
        hnumber]
    · rw [hother d hd]
      exact h.acts d
  · intro d
    rw [hdecoded]
    by_cases hd : d = m.conn
    · rw [hd, hself, List.length_append, List.length_singleton]
      have hhigh := (h.pending m (Or.inr ⟨w, hheld⟩)).2
      omega
    · rw [hother d hd]
      exact h.bounded d
  · intro k hk
    rw [pool_receive] at hk
    rw [hdecoded]
    have hpending := h.pending k hk.of_release
    by_cases hk' : k.conn = m.conn
    · have hless := hlater k hk hk'
      rw [hk'] at hpending ⊢
      rw [hself, List.length_append, List.length_singleton]
      omega
    · rwa [hother k.conn hk']
  · intro d i hd hlow hhigh
    rw [hclosed] at hd
    rw [hdecoded] at hhigh
    rw [pool_receive]
    have hlow' : (s.conns d).acted.length ≤ i := by
      by_cases hdm : d = m.conn
      · rw [hdm, hself, List.length_append, List.length_singleton] at hlow
        rw [hdm]
        omega
      · rwa [hother d hdm] at hlow
    obtain ⟨k, hk, hconn, hi⟩ := h.complete d i hd hlow' hhigh
    rcases hk.release w with hk | hk
    · exact ⟨k, hk, hconn, hi⟩
    · cases hheld.symm.trans hk
      rw [← hconn, hself, List.length_append, List.length_singleton] at hlow
      omega

theorem lock (h : Queued s) (htaken : s.stage (.worker w) = .taken m)
    (hturn : InTurn s (.lock w)) : Queued (s.receive w m) := by
  cases hclosed : (s.conns m.conn).closed with
  | true => exact h.drop htaken hclosed
  | false => exact h.act htaken hclosed (h.number_eq htaken hclosed hturn)

end Steps

end Queued

end Line

section Usernames

/-- What the spam check and the history of a connection depend on. -/
def record (conn : Connection) : List ℕ × List ℕ × ℚ × ℚ :=
  (conn.acted, conn.asked, conn.tokens, conn.lastRefillTime)

/-- The first message that finds the connection open is treated as the username. -/
structure Started (s : Server C W) : Prop where
  fresh : ∀ c, (s.conns c).acted = [] → (s.conns c).asked = [] ∧
    (s.conns c).state = .awaitingUsername ∧ (s.conns c).tokens = maxTokens ∧
    (s.conns c).lastRefillTime ≤ s.now
  first : ∀ c, (s.conns c).acted ≠ [] → (s.conns c).asked.head? = some 0
  login : ∀ t c, (s.stage t).logsIn = some c → (s.conns c).acted ≠ []

namespace Started

variable {s u : Server C W}

theorem init (fd : C → ℕ) : Started (Server.init fd : Server C W) :=
  ⟨fun _ _ => ⟨rfl, rfl, rfl, le_refl _⟩, fun _ hacted => absurd rfl hacted, nofun⟩

theorem keep (h : Started s) (hnow : s.now ≤ u.now)
    (hrecord : ∀ c, record (u.conns c) = record (s.conns c))
    (hstate : ∀ c, (s.conns c).acted = [] → (u.conns c).state = (s.conns c).state)
    (hlogin : ∀ t c, (u.stage t).logsIn = some c → (s.stage t).logsIn = some c) : Started u := by
  have hacted : ∀ c, (u.conns c).acted = (s.conns c).acted :=
    fun c => congrArg Prod.fst (hrecord c)
  have hasked : ∀ c, (u.conns c).asked = (s.conns c).asked :=
    fun c => congrArg (fun r => r.2.1) (hrecord c)
  have htokens : ∀ c, (u.conns c).tokens = (s.conns c).tokens :=
    fun c => congrArg (fun r => r.2.2.1) (hrecord c)
  have hrefill : ∀ c, (u.conns c).lastRefillTime = (s.conns c).lastRefillTime :=
    fun c => congrArg (fun r => r.2.2.2) (hrecord c)
  refine ⟨fun c hc => ?_, fun c hc => ?_, fun t c ht => ?_⟩
  · have hc : (s.conns c).acted = [] := hacted c ▸ hc
    obtain ⟨hnone, hwaiting, hfull, hpast⟩ := h.fresh c hc
    rw [hasked, hstate c hc, htokens, hrefill]
    exact ⟨hnone, hwaiting, hfull, hpast.trans hnow⟩
  · rw [hasked]
    exact h.first c (hacted c ▸ hc)
  · rw [hacted]
    exact h.login t c (hlogin t c ht)

variable [DecidableEq C] [DecidableEq W] {w : W} {m : Message C}

/-- The next message of an open connection is handled. -/
theorem act (h : Started s) (hopen : (s.conns m.conn).closed = false)
    (hnumber : m.number = (s.conns m.conn).acted.length) : Started (s.receive w m) := by
  have hself : (s.receive w m).conns m.conn = (onMessageRecv (s.conns m.conn) s.now m).1 :=
    Function.update_self m.conn _ s.conns
  have hother : ∀ d, d ≠ m.conn → (s.receive w m).conns d = s.conns d :=
    fun d hd => Function.update_of_ne hd _ _
  have hacted := acted_of_open (received (s.conns m.conn) s.now m) hopen
  have hnonempty : ((s.receive w m).conns m.conn).acted ≠ [] := by
    rw [hself, hacted]
    exact List.append_ne_nil_of_right_ne_nil _ (List.cons_ne_nil _ _)
  refine ⟨fun c hc => ?_, fun c hc => ?_, fun t c ht => ?_⟩
  · have hne : c ≠ m.conn := fun heq => hnonempty (heq ▸ hc)
    rw [hother c hne] at hc ⊢
    exact h.fresh c hc
  · by_cases heq : c = m.conn
    · rw [heq, hself]
      by_cases hfirst : (s.conns m.conn).acted = []
      · obtain ⟨hnone, hwaiting, hfull, hpast⟩ := h.fresh m.conn hfirst
        rw [asked_of_full (received _ _ _) hopen hwaiting hfull hpast, hnone, hnumber, hfirst]
        rfl
      · have hhead := h.first m.conn hfirst
        rcases asked_received (received (s.conns m.conn) s.now m) with hsame | hmore
        · rw [hsame]
          exact hhead
        · rw [hmore, List.head?_append, hhead]
          rfl
    · rw [hother c heq] at hc ⊢
      exact h.first c hc
  · by_cases heq : c = m.conn
    · exact heq ▸ hnonempty
    · rw [hother c heq]
      change (Function.update s.stage (.worker w)
        (onMessageRecv (s.conns m.conn) s.now m).2 t).logsIn = some c at ht
      rw [Function.update_apply] at ht
      split at ht
      · exact absurd (conn_of_logsIn (received _ _ _) ht) heq
      · exact h.login t c ht

theorem drop (h : Started s) (hclosed : (s.conns m.conn).closed = true) :
    Started (s.receive w m) := by
  have hconns : (s.receive w m).conns = s.conns := by
    change Function.update s.conns m.conn (onMessageRecv (s.conns m.conn) s.now m).1 = s.conns
    rw [eq_of_closed (received _ _ _) hclosed, Function.update_eq_self]
  refine h.keep (le_refl _) (fun c => by rw [hconns]) (fun c _ => by rw [hconns]) ?_
  intro t c ht
  change (Function.update s.stage (.worker w)
    (onMessageRecv (s.conns m.conn) s.now m).2 t).logsIn = some c at ht
  rw [eq_of_closed (received _ _ _) hclosed, Function.update_apply] at ht
  split at ht
  · cases ht
  · exact ht

end Started

end Usernames

section Lines

/-- The chat lines that the workers are still to push. -/
def Pending (s : Server C W) (p : C × ℕ) : Prop := ∃ w, p ∈ chats (s.stage (.worker w))

def pushed (s : Server C W) : List (C × ℕ) := s.globalQueue.filterMap BroadcastEvent.origin

structure Lined (s : Server C W) : Prop where
  reactor : chats (s.stage .reactor) = []
  single : ∀ w, (chats (s.stage (.worker w))).length ≤ 1
  apart : ∀ v w p, p ∈ chats (s.stage (.worker v)) → p ∈ chats (s.stage (.worker w)) → v = w
  pending : ∀ p, Pending s p → p.2 < (s.conns p.1).acted.length
  below : ∀ p ∈ pushed s, p.2 < (s.conns p.1).acted.length
  clear : Clear Before (fun p => [p]) (Pending s) (pushed s)

namespace Lined

variable {s u : Server C W}

theorem init (fd : C → ℕ) : Lined (Server.init fd : Server C W) :=
  ⟨rfl, fun _ => Nat.zero_le _, fun _ _ _ hp => absurd hp List.not_mem_nil,
    fun _ ⟨_, hp⟩ => absurd hp List.not_mem_nil, fun _ hp => absurd hp List.not_mem_nil, clear_nil⟩

/-- No line is pushed, and none is to be pushed that was not before. -/
theorem keep (h : Lined s) (hpushed : pushed u = pushed s)
    (hacted : ∀ c, (s.conns c).acted.length ≤ (u.conns c).acted.length)
    (hchats : ∀ t, (chats (u.stage t)).Sublist (chats (s.stage t))) : Lined u := by
  have hpending : ∀ p, Pending u p → Pending s p :=
    fun p ⟨w, hp⟩ => ⟨w, (hchats (.worker w)).subset hp⟩
  refine ⟨?_, fun w => ?_, fun v w p hv hw => ?_, fun p hp => ?_, fun p hp => ?_, ?_⟩
  · exact List.sublist_nil.mp (h.reactor ▸ hchats .reactor)
  · exact (hchats (.worker w)).length_le.trans (h.single w)
  · exact h.apart v w p ((hchats _).subset hv) ((hchats _).subset hw)
  · exact (h.pending p (hpending p hp)).trans_le (hacted p.1)
  · exact (h.below p (hpushed ▸ hp)).trans_le (hacted p.1)
  · rw [hpushed]
    exact h.clear.mono fun p hp => Or.inl (hpending p hp)

variable [DecidableEq C] [DecidableEq W] {w : W} {m : Message C} {t : Thread W}
  {evt : BroadcastEvent C} {calls : List (Call C)}

omit [DecidableEq C] in
theorem chats_update {stage : Stage C} (hstage : (chats stage).Sublist (chats (s.stage t)))
    (v : Thread W) :
    (chats (Function.update s.stage t stage v)).Sublist (chats (s.stage v)) := by
  rw [Function.update_apply]
  split
  · rename_i heq
    exact heq ▸ hstage
  · exact List.Sublist.refl _

/-- The message that is handled is after all those with a chat line so far. -/
theorem receive (h : Lined s) (htaken : s.stage (.worker w) = .taken m)
    (hnumber : (s.conns m.conn).closed = false → m.number = (s.conns m.conn).acted.length) :
    Lined (s.receive w m) := by
  have hempty : chats (s.stage (.worker w)) = [] := by rw [htaken]; rfl
  have hself : (s.receive w m).conns m.conn = (onMessageRecv (s.conns m.conn) s.now m).1 :=
    Function.update_self m.conn _ s.conns
  have hother : ∀ d, d ≠ m.conn → (s.receive w m).conns d = s.conns d :=
    fun d hd => Function.update_of_ne hd _ _
  have hstage : ∀ v, (s.receive w m).stage v = Function.update s.stage (.worker w)
      (onMessageRecv (s.conns m.conn) s.now m).2 v := fun _ => rfl
  have hacted : ∀ c, (s.conns c).acted.length ≤ ((s.receive w m).conns c).acted.length := by
    intro c
    by_cases hc : c = m.conn
    · rw [hc, hself]
      cases hclosed : (s.conns m.conn).closed with
      | true => rw [eq_of_closed (received _ _ _) hclosed]
      | false =>
        rw [acted_of_open (received _ _ _) hclosed, List.length_append]
        exact Nat.le_add_right _ _
    · rw [hother c hc]
  rcases (stage_received (received (s.conns m.conn) s.now m)).2 with hnone | hone
  · have hless : (chats (onMessageRecv (s.conns m.conn) s.now m).2).Sublist
        (chats (s.stage (.worker w))) := by
      rw [hnone]
      exact List.nil_sublist _
    refine h.keep rfl hacted fun v => ?_
    rw [hstage]
    exact chats_update hless v
  · have hopen : (s.conns m.conn).closed = false := by
      rw [Bool.eq_false_iff]
      intro hclosed
      rw [eq_of_closed (received _ _ _) hclosed] at hone
      cases hone
    have hnumber := hnumber hopen
    have hnew : ((s.receive w m).conns m.conn).acted.length =
        (s.conns m.conn).acted.length + 1 := by
      rw [hself, acted_of_open (received _ _ _) hopen, List.length_append, List.length_singleton]
    -- The new line is that of `w`, and the others are as before.
    have hchats : ∀ v p, p ∈ chats ((s.receive w m).stage (.worker v)) →
        (v = w ∧ p = (m.conn, m.number)) ∨ (v ≠ w ∧ p ∈ chats (s.stage (.worker v))) := by
      intro v p hp
      rw [hstage] at hp
      by_cases hv : v = w
      · rw [hv, Function.update_self, hone] at hp
        exact Or.inl ⟨hv, List.mem_singleton.mp hp⟩
      · rw [Function.update_of_ne (fun heq => hv (Thread.worker.inj heq))] at hp
        exact Or.inr ⟨hv, hp⟩
    have hapart : ∀ v, (m.conn, m.number) ∉ chats (s.stage (.worker v)) := by
      intro v hv
      have hless : m.number < (s.conns m.conn).acted.length := h.pending _ ⟨v, hv⟩
      omega
    refine ⟨h.reactor, fun v => ?_, fun v x p hv hx => ?_, fun p hp => ?_, fun p hp => ?_, ?_⟩
    · rw [hstage]
      by_cases hv : v = w
      · rw [hv, Function.update_self, hone]
        exact Nat.le_refl 1
      · rw [Function.update_of_ne (fun heq => hv (Thread.worker.inj heq))]
        exact h.single v
    · rcases hchats v p hv with ⟨hvw, hp⟩ | ⟨_, hv⟩
      · rcases hchats x p hx with ⟨hxw, _⟩ | ⟨_, hx⟩
        · rw [hvw, hxw]
        · exact absurd (hp ▸ hx) (hapart x)
      · rcases hchats x p hx with ⟨_, hp⟩ | ⟨_, hx⟩
        · exact absurd (hp ▸ hv) (hapart v)
        · exact h.apart v x p hv hx
    · obtain ⟨v, hv⟩ := hp
      rcases hchats v p hv with ⟨_, rfl⟩ | ⟨_, hv⟩
      · rw [hnew]
        omega
      · exact (h.pending p ⟨v, hv⟩).trans_le (hacted p.1)
    · exact (h.below p hp).trans_le (hacted p.1)
    · refine h.clear.mono fun p ⟨v, hv⟩ => ?_
      rcases hchats v p hv with ⟨_, rfl⟩ | ⟨_, hv⟩
      · refine Or.inr fun y hy x hx hconn => ?_
        rw [List.mem_singleton.mp hy] at hconn ⊢
        have hless := h.below x hx
        rw [show x.1 = m.conn from hconn] at hless
        omega
      · exact Or.inl ⟨v, hv⟩

omit [DecidableEq C] in
/-- What is pushed in its turn comes before the lines of the connection that are left. -/
theorem broadcast (h : Lined s) (hcalling : s.stage t = .calling (.broadcast evt :: calls))
    (hturn : InTurn s (.call t)) :
    Lined { s.goto t (.after calls) with globalQueue := s.globalQueue ++ [evt] } := by
  have hbefore : chats (s.stage t) = (Call.broadcast evt :: calls).filterMap chatOf := by
    rw [hcalling]
    rfl
  cases horigin : evt.origin with
  | none =>
    have hchat : chatOf (.broadcast evt) = none := horigin
    refine h.keep ?_ (fun _ => Nat.le_refl _) (chats_update ?_)
    · change (s.globalQueue ++ [evt]).filterMap BroadcastEvent.origin = _
      rw [List.filterMap_append, List.filterMap_cons_none horigin, List.filterMap_nil,
        List.append_nil]
      rfl
    · rw [hbefore, chats_after, List.filterMap_cons_none hchat]
  | some p =>
    have hchat : chatOf (.broadcast evt) = some p := horigin
    rw [List.filterMap_cons_some hchat] at hbefore
    cases t with
    | reactor => exact absurd (hbefore.symm.trans h.reactor) (List.cons_ne_nil _ _)
    | worker w =>
      have hsingle := h.single w
      rw [hbefore, List.length_cons] at hsingle
      have hnone : calls.filterMap chatOf = [] := List.eq_nil_of_length_eq_zero (by omega)
      have hmine : p ∈ chats (s.stage (.worker w)) := by
        rw [hbefore]
        exact List.mem_cons_self
      have hleft : (chats (Stage.after calls)).Sublist (chats (s.stage (.worker w))) := by
        rw [chats_after, hnone]
        exact List.nil_sublist _
      -- Whoever has a line left is another worker.
      have hothers : ∀ v q, q ∈ chats (Function.update s.stage (.worker w) (.after calls)
          (.worker v)) → v ≠ w ∧ q ∈ chats (s.stage (.worker v)) := by
        intro v q hq
        by_cases hv : v = w
        · rw [hv, Function.update_self, chats_after, hnone] at hq
          cases hq
        · exact ⟨hv, (chats_update hleft _).subset hq⟩
      have hpushed : pushed { s.goto (.worker w) (.after calls) with
          globalQueue := s.globalQueue ++ [evt] } = pushed s ++ [p] := by
        change (s.globalQueue ++ [evt]).filterMap BroadcastEvent.origin = _
        rw [List.filterMap_append, List.filterMap_cons_some horigin, List.filterMap_nil]
        rfl
      refine ⟨h.reactor, fun v => ?_, ?_, fun q ⟨v, hv⟩ => ?_, fun q hq => ?_, ?_⟩
      · exact (chats_update hleft _).length_le.trans (h.single v)
      · intro v x q hv hx
        exact h.apart v x q (hothers v q hv).2 (hothers x q hx).2
      · exact h.pending q ⟨v, (hothers v q hv).2⟩
      · rw [hpushed] at hq
        rcases List.mem_append.mp hq with hq | hq
        · exact h.below q hq
        · rw [List.mem_singleton.mp hq]
          exact h.pending p ⟨w, hmine⟩
      · rw [hpushed]
        refine h.clear.deliver (j := p) ⟨w, hmine⟩ (List.Sublist.refl _)
          (List.pairwise_singleton _ _) fun q ⟨v, hv⟩ => ?_
        obtain ⟨hne, hv⟩ := hothers v q hv
        refine ⟨⟨v, hv⟩, fun x hx y hy hconn => ?_⟩
        rw [List.mem_singleton.mp hx, List.mem_singleton.mp hy] at hconn ⊢
        have hlate : p.2 ≤ q.2 := by
          refine hturn p ?_ v q hv hconn.symm
          rw [hcalling]
          exact horigin
        have hdiff : p.2 ≠ q.2 := by
          intro heq
          have hsame : p = q := Prod.ext hconn heq
          exact hne (h.apart v w q hv (hsame ▸ hmine))
        omega

end Lined

end Lines

/-- The connection is as before, unless it was closed or its login has ended. -/
structure Alike (before after : Connection) : Prop where
  record : record after = record before
  decoded : after.decoded = before.decoded
  state : before.acted = [] → after.state = before.state
  opened : after.closed = false → before.closed = false

theorem Alike.refl (conn : Connection) : Alike conn conn :=
  ⟨rfl, rfl, fun _ => rfl, fun hopen => hopen⟩

theorem alike_setConn [DecidableEq C] {s : Server C W} {c : C} {conn : Connection}
    (h : Alike (s.conns c) conn) (d : C) : Alike (s.conns d) ((s.setConn c conn).conns d) := by
  change Alike (s.conns d) (Function.update s.conns c conn d)
  rw [Function.update_apply]
  split
  · rename_i heq
    exact heq ▸ h
  · exact .refl _

theorem alike_enqueue (conn : Connection) (msg : Text) : Alike conn (conn.enqueue msg) := by
  unfold Connection.enqueue
  split
  · exact .refl _
  · exact ⟨rfl, rfl, fun _ => rfl, fun hopen => hopen⟩

structure Tracked (s : Server C W) : Prop where
  queued : Queued s
  started : Started s
  lined : Lined s

namespace Tracked

variable [DecidableEq C] [DecidableEq W] {s u : Server C W} {t : Thread W} {stage : Stage C}

omit [DecidableEq C] in
theorem awaits_update (hbefore : awaits (s.stage t) = none) (hafter : awaits stage = none)
    (v : Thread W) : awaits (Function.update s.stage t stage v) = awaits (s.stage v) := by
  rw [Function.update_apply]
  split
  · rename_i heq
    rw [heq, hbefore, hafter]
  · rfl

omit [DecidableEq C] in
/-- A thread goes on, and no message comes to the pool or from it to a mutex. -/
theorem goOn (h : Tracked s) (hconns : ∀ c, Alike (s.conns c) (u.conns c))
    (hqueues : u.taskQueue = s.taskQueue ∧ u.globalQueue = s.globalQueue ∧ u.now = s.now)
    (hstage : u.stage = Function.update s.stage t stage)
    (hawaits : awaits (s.stage t) = none ∧ awaits stage = none)
    (hlogin : ∀ c, stage.logsIn = some c → (s.stage t).logsIn = some c)
    (hchats : (chats stage).Sublist (chats (s.stage t))) : Tracked u := by
  obtain ⟨htasks, hglobal, hnow⟩ := hqueues
  have hacted : ∀ c, (u.conns c).acted = (s.conns c).acted :=
    fun c => congrArg Prod.fst (hconns c).record
  have hpool : pool u = pool s := by
    unfold pool
    rw [htasks, hstage]
    congr 1
    funext v
    exact awaits_update hawaits.1 hawaits.2 (.worker v)
  have hpushed : pushed u = pushed s := congrArg (List.filterMap BroadcastEvent.origin) hglobal
  refine ⟨?_, ?_, ?_⟩
  · exact h.queued.keep hpool (fun c => ⟨hacted c, (hconns c).decoded⟩) fun c => (hconns c).opened
  · refine h.started.keep (le_of_eq hnow.symm) (fun c => (hconns c).record)
      (fun c => (hconns c).state) fun v c hv => ?_
    rw [hstage, Function.update_apply] at hv
    split at hv
    · rename_i heq
      exact heq ▸ hlogin c hv
    · exact hv
  · refine h.lined.keep hpushed (fun c => le_of_eq (hacted c ▸ rfl)) fun v => ?_
    rw [hstage]
    exact Lined.chats_update hchats v

omit [DecidableEq C] in
/-- The same, where the thread has no line to push and no login to end. -/
theorem goFree (h : Tracked s) (hconns : ∀ c, Alike (s.conns c) (u.conns c))
    (hqueues : u.taskQueue = s.taskQueue ∧ u.globalQueue = s.globalQueue ∧ u.now = s.now)
    (hstage : u.stage = Function.update s.stage t stage) (hbefore : awaits (s.stage t) = none)
    (hfree : awaits stage = none ∧ stage.logsIn = none ∧ chats stage = []) : Tracked u := by
  obtain ⟨hawaits, hlogs, hchats⟩ := hfree
  refine h.goOn hconns hqueues hstage ⟨hbefore, hawaits⟩ ?_ ?_
  · intro c hc
    cases hlogs.symm.trans hc
  · rw [hchats]
    exact List.nil_sublist _

omit [DecidableEq C] in
/-- The same, where the thread goes on with the calls that are left. -/
theorem goAfter {call : Call C} {calls : List (Call C)} (h : Tracked s)
    (hcalling : s.stage t = .calling (call :: calls))
    (hconns : ∀ c, Alike (s.conns c) (u.conns c))
    (hqueues : u.taskQueue = s.taskQueue ∧ u.globalQueue = s.globalQueue ∧ u.now = s.now)
    (hstage : u.stage = Function.update s.stage t (.after calls)) : Tracked u := by
  have hbefore : awaits (s.stage t) = none := congrArg awaits hcalling
  refine h.goOn hconns hqueues hstage ⟨hbefore, awaits_after calls⟩ ?_
    (chats_after_sublist hcalling)
  intro c hc
  cases (Stage.logsIn_after calls).symm.trans hc

theorem insert {w : W} {m : Message C} (h : Tracked s)
    (hlogin : s.stage (.worker w) = .login m) : Tracked (s.tryInsert w m) := by
  have hbefore : awaits (s.stage (.worker w)) = none := congrArg awaits hlogin
  unfold Server.tryInsert
  split
  · refine h.goOn (t := .worker w) (fun _ => .refl _) ⟨rfl, rfl, rfl⟩ rfl ⟨hbefore, rfl⟩ ?_
      (List.nil_sublist _)
    intro c hc
    rw [hlogin]
    exact hc
  · exact h.goFree (t := .worker w) (fun _ => .refl _) ⟨rfl, rfl, rfl⟩ rfl hbefore ⟨rfl, rfl, rfl⟩

theorem disconnect {c : C} (h : Tracked s) (hleaving : s.stage t = .leaving c) :
    Tracked (s.onClientDisconnect t c) := by
  have hbefore : awaits (s.stage t) = none := congrArg awaits hleaving
  have hconns : ∀ d, Alike (s.conns d)
      ((s.setConn c { s.conns c with disconnected := true }).conns d) :=
    alike_setConn ⟨rfl, rfl, fun _ => rfl, fun hopen => hopen⟩
  unfold Server.onClientDisconnect
  dsimp only
  split
  · exact h.goFree (t := t) hconns ⟨rfl, rfl, rfl⟩ rfl hbefore ⟨rfl, rfl, rfl⟩
  · exact h.goFree (t := t) hconns ⟨rfl, rfl, rfl⟩ rfl hbefore ⟨rfl, rfl, rfl⟩

theorem step {a : Action C W} (h : Tracked s) (ha : InTurn s a) (hnext : s.next a = some u) :
    Tracked u := by
  cases step_of_next hnext with
  | @tick elapsed hpast =>
    have hnow : s.now ≤ s.now + elapsed := by linarith
    exact ⟨h.queued.keep rfl (fun _ => ⟨rfl, rfl⟩) (fun _ hc => hc),
      h.started.keep hnow (fun _ => rfl) (fun _ _ => rfl) (fun _ _ ht => ht),
      h.lined.keep rfl (fun _ => le_refl _) (fun _ => List.Sublist.refl _)⟩
  | read hidle _ =>
    exact h.goFree (fun _ => .refl _) ⟨rfl, rfl, rfl⟩ rfl (congrArg awaits hidle) ⟨rfl, rfl, rfl⟩
  | @decode c raw _ =>
    have hrecord : ∀ d, record ((s.pushTask c raw).conns d) = record (s.conns d) :=
      Server.apply_setConn record rfl
    have hstate : ∀ d, ((s.pushTask c raw).conns d).state = (s.conns d).state :=
      Server.apply_setConn Connection.state rfl
    have hacted : ∀ d, ((s.pushTask c raw).conns d).acted = (s.conns d).acted :=
      fun d => congrArg Prod.fst (hrecord d)
    exact ⟨h.queued.decode c raw,
      h.started.keep (le_refl _) hrecord (fun d _ => hstate d) (fun _ _ ht => ht),
      h.lined.keep rfl (fun d => le_of_eq (hacted d ▸ rfl)) (fun _ => List.Sublist.refl _)⟩
  | @readDone c shouldClose hreading =>
    refine h.goFree (fun _ => .refl _) ⟨rfl, rfl, rfl⟩ rfl (congrArg awaits hreading) ?_
    cases shouldClose <;> exact ⟨rfl, rfl, rfl⟩
  | hangUp hidle =>
    exact h.goFree (fun _ => .refl _) ⟨rfl, rfl, rfl⟩ rfl (congrArg awaits hidle) ⟨rfl, rfl, rfl⟩
  | @take w m rest hidle hqueue =>
    refine ⟨h.queued.take hidle hqueue, ?_, ?_⟩
    · refine h.started.keep (le_refl _) (fun _ => rfl) (fun _ _ => rfl) fun v c hv => ?_
      change (Function.update s.stage (.worker w) (.taken m) v).logsIn = some c at hv
      rw [Function.update_apply] at hv
      split at hv
      · cases hv
      · exact hv
    · have htaken : (chats (.taken m)).Sublist (chats (s.stage (.worker w))) :=
        List.nil_sublist _
      exact h.lined.keep rfl (fun _ => le_refl _) (Lined.chats_update htaken)
  | @lock w m htaken _ =>
    have hnumber : (s.conns m.conn).closed = false →
        m.number = (s.conns m.conn).acted.length :=
      fun hopen => h.queued.number_eq htaken hopen ha
    refine ⟨h.queued.lock htaken ha, ?_, h.lined.receive htaken hnumber⟩
    cases hclosed : (s.conns m.conn).closed with
    | true => exact h.started.drop hclosed
    | false => exact h.started.act hclosed (hnumber hclosed)
  | insert hlogin => exact h.insert hlogin
  | @assign w m haccepted =>
    have hacted := h.started.login (.worker w) m.conn (congrArg Stage.logsIn haccepted)
    have hconns : ∀ d, Alike (s.conns d) ((s.finishLogin w m).conns d) :=
      alike_setConn ⟨rfl, rfl, fun hnone => absurd hnone hacted, fun hopen => hopen⟩
    exact h.goFree (t := .worker w) hconns ⟨rfl, rfl, rfl⟩ rfl (congrArg awaits haccepted)
      ⟨rfl, rfl, rfl⟩
  | @sendFast t c msg calls hcalling _ =>
    exact h.goAfter hcalling (alike_setConn (alike_enqueue (s.conns c) msg)) ⟨rfl, rfl, rfl⟩ rfl
  | @broadcast t evt calls hcalling =>
    -- But for the queue it is as if the thread went on.
    have hgone : Tracked (s.goto t (.after calls)) :=
      h.goAfter hcalling (fun _ => .refl _) ⟨rfl, rfl, rfl⟩ rfl
    exact ⟨hgone.queued.keep rfl (fun _ => ⟨rfl, rfl⟩) (fun _ hc => hc),
      hgone.started.keep (le_refl _) (fun _ => rfl) (fun _ _ => rfl) (fun _ _ hv => hv),
      h.lined.broadcast hcalling ha⟩
  | @closeAgain t c calls hcalling _ =>
    exact h.goAfter hcalling (fun _ => .refl _) ⟨rfl, rfl, rfl⟩ rfl
  | @close t c calls hcalling _ =>
    have hconns : ∀ d, Alike (s.conns d)
        ((s.setConn c { s.conns c with closed := true }).conns d) :=
      alike_setConn ⟨rfl, rfl, fun _ => rfl, nofun⟩
    exact h.goFree hconns ⟨rfl, rfl, rfl⟩ rfl (congrArg awaits hcalling) ⟨rfl, rfl, rfl⟩
  | disconnect hleaving => exact h.disconnect hleaving

theorem of_reachable {fd : C → ℕ} (hs : Reachable (machine fd) InTurn s) : Tracked s :=
  hs.invariant ⟨Queued.init fd, Started.init fd, Lined.init fd⟩
    fun _ _ _ h ha hnext => h.step ha hnext

omit [DecidableEq C] [DecidableEq W] in
theorem inOrder (h : Tracked s) : InOrder s := by
  refine ⟨h.queued.acts, fun c i hi => ?_, h.lined.clear.pairwise⟩
  by_cases hacted : (s.conns c).acted = []
  · rw [(h.started.fresh c hacted).1] at hi
    cases hi
  · rw [h.started.first c hacted] at hi
    exact (Option.some.inj hi).symm

end Tracked

/-- Whatever the threads do, the messages of each connection are handled in the order
in which they were decoded, if no worker is overtaken. -/
theorem messages_in_order [DecidableEq C] [DecidableEq W] {fd : C → ℕ} {s : Server C W}
    (hs : Reachable (machine fd) InTurn s) : InOrder s :=
  (Tracked.of_reachable hs).inOrder

section Runs

def descriptor (_ : Fin 1) : ℕ := 5

/-- The messages of the one client, decoded in one turn of handle_read. -/
def decodeSteps (messages : List Text) : List (Action (Fin 1) (Fin 2)) :=
  .read 0 :: messages.map .decode ++ [.readDone false]

/-- A worker that has taken the first message runs the whole login. -/
def loginSteps (w : Fin 2) : List (Action (Fin 1) (Fin 2)) :=
  [.lock w, .insert w, .assign w, .call (.worker w), .call (.worker w)]

/-- A username on one worker, and two chat lines on two that take them together. -/
theorem messages_in_order_sample : ∃ s : Server (Fin 1) (Fin 2),
    Reachable (machine descriptor) InTurn s ∧
      ((s.conns 0).acted = [0, 1, 2] ∧ (s.conns 0).username = [97] ∧
        s.globalQueue.filterMap BroadcastEvent.origin = [(0, 1), (0, 2)]) ∧ InOrder s := by
  have hrun : (run (machine descriptor) InTurn (machine descriptor).init
      (decodeSteps [[97], [104], [105]] ++ [.take 0] ++ loginSteps 0 ++
        [.take 0, .take 1, .lock 0, .lock 1, .call (.worker 0), .call (.worker 1)])).any (fun s =>
      (s.conns 0).acted = [0, 1, 2] ∧ (s.conns 0).username = [97] ∧
        s.globalQueue.filterMap BroadcastEvent.origin = [(0, 1), (0, 2)]) = true := by
    decide +kernel
  obtain ⟨s, hs, hafter⟩ := exists_reachable hrun
  exact ⟨s, hs, hafter, messages_in_order hs⟩

/-- The second message becomes the username, when its worker is the first to lock; and
two chat lines come to the queue the wrong way round, when the worker that has locked
first is the second to push. -/
theorem messages_overtaken :
    (∃ s : Server (Fin 1) (Fin 2), Reachable (machine descriptor) AnyStep s ∧
      (s.conns 0).acted = [1] ∧ (s.conns 0).username = [104] ∧ ¬ InOrder s) ∧
    ∃ s : Server (Fin 1) (Fin 2), Reachable (machine descriptor) AnyStep s ∧
      (s.conns 0).acted = [0, 1, 2] ∧ (s.conns 0).username = [97] ∧ ¬ InOrder s := by
  have hname : (run (machine descriptor) AnyStep (machine descriptor).init
      (decodeSteps [[97], [104]] ++ [.take 0, .take 1] ++ loginSteps 1)).any (fun s =>
      (s.conns 0).acted = [1] ∧ (s.conns 0).username = [104]) = true := by
    decide +kernel
  have hlines : (run (machine descriptor) AnyStep (machine descriptor).init
      (decodeSteps [[97], [104], [105]] ++ [.take 0] ++ loginSteps 0 ++
        [.take 0, .take 1, .lock 0, .lock 1, .call (.worker 1), .call (.worker 0)])).any (fun s =>
      (s.conns 0).acted = [0, 1, 2] ∧ (s.conns 0).username = [97] ∧
        s.globalQueue.filterMap BroadcastEvent.origin = [(0, 2), (0, 1)]) = true := by
    decide +kernel
  constructor
  · obtain ⟨s, hs, hacted, husername⟩ := exists_reachable hname
    refine ⟨s, hs, hacted, husername, fun h => ?_⟩
    have hacts := h.acts 0
    rw [hacted] at hacts
    exact absurd hacts (by decide)
  · obtain ⟨s, hs, hacted, husername, hqueue⟩ := exists_reachable hlines
    refine ⟨s, hs, hacted, husername, fun h => ?_⟩
    have hordered := h.lines
    rw [hqueue] at hordered
    have hless : (2 : ℕ) < 1 := (List.pairwise_cons.mp hordered).1 (0, 1) (by simp) rfl
    omega

end Runs

end ChatServer.MessageTasks.MessageOrder
