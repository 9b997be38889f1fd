import ChatServer.MessageTasks.Departure
import ChatServer.MessageTasks.MessageOrder
import ChatServer.MessageTasks.Sessions

/-!
What becomes of the messages of the third version. The workers may handle the messages of
a connection in any order, but each is handled at most once and none is lost while
the connection is open; and a chat line that is pushed is the text of one message,
with the name of the user who sent it. Beside the server there is a history of the
messages that handle_read has decoded.
-/
namespace ChatServer.MessageTasks.ChatHistory

open Lib.Runs Lib.WorkQueue MessageOrder
open Departure (callsLeft)

/-- `raws` has the payloads of the messages of a connection, in the order of their numbers. -/
structure Journal (C W : Type*) where
  server : Server C W
  raws : C → List Text

variable {C W : Type*}

section Machine

variable [DecidableEq C] [DecidableEq W]

def Journal.record (j : Journal C W) (a : Action C W) (s : Server C W) : Journal C W :=
  match a, j.server.stage .reactor with
  | .decode raw, .reading c => ⟨s, Function.update j.raws c (j.raws c ++ [raw])⟩
  | _, _ => ⟨s, j.raws⟩

def machine (fd : C → ℕ) : Machine (Journal C W) (Action C W) where
  init := ⟨.init fd, fun _ => []⟩
  next j a := (j.server.next a).map (j.record a)

omit [DecidableEq W] in
theorem record_server (j : Journal C W) (a : Action C W) (s : Server C W) :
    (j.record a s).server = s := by
  unfold Journal.record
  split <;> rfl

theorem server_reachable {fd : C → ℕ} {allowed : Journal C W → Action C W → Prop}
    {j : Journal C W} (hj : Reachable (machine fd) allowed j) :
    Reachable (MessageTasks.machine fd) AnyStep j.server := by
  refine hj.invariant (P := fun j => Reachable (MessageTasks.machine fd) AnyStep j.server) .init ?_
  intro j a k hj _ hnext
  obtain ⟨s, hs, rfl⟩ := Option.map_eq_some_iff.mp hnext
  rw [record_server]
  exact .step hj trivial hs

end Machine

/-- The message that a worker has in hand. -/
def handles : Stage C → Option (Message C)
  | .taken m | .login m | .accepted m => some m
  | _ => none

theorem handles_of_awaits {stage : Stage C} {m : Message C} (h : awaits stage = some m) :
    handles stage = some m := by
  cases stage with
  | taken k => exact h
  | _ => cases h

/-- Two messages that are not the same one. -/
def Apart (m k : Message C) : Prop := (m.conn, m.number) ≠ (k.conn, k.number)

/-- The event is pushed, or about to be. -/
def Composed (s : Server C W) (evt : BroadcastEvent C) : Prop :=
  evt ∈ s.globalQueue ∨ ∃ t, .broadcast evt ∈ callsLeft (s.stage t)

/-- The line of a message that was handled, in the name of its sender. -/
def Spoken (j : Journal C W) (evt : BroadcastEvent C) (p : C × ℕ) : Prop :=
  (j.server.conns p.1).state = .active ∧ p.2 ∈ (j.server.conns p.1).acted ∧
    evt.senderFd = some (j.server.conns p.1).fd ∧
    ∃ raw, (j.raws p.1)[p.2]? = some raw ∧
      evt.payload = chatLine (j.server.conns p.1).username raw

structure Kept (fd : C → ℕ) (j : Journal C W) : Prop where
  fds : ∀ c, (j.server.conns c).fd = fd c
  counted : ∀ c, (j.raws c).length = (j.server.conns c).decoded
  carries : ∀ m, m ∈ j.server.taskQueue ∨ (∃ t, handles (j.server.stage t) = some m) →
    (j.raws m.conn)[m.number]? = some m.raw
  apart : (pool j.server).Ordered Apart
  once : ∀ c, (j.server.conns c).acted.Nodup
  pending : ∀ m, (pool j.server).Has m → m.number ∉ (j.server.conns m.conn).acted
  bounded : ∀ c, ∀ i ∈ (j.server.conns c).acted, i < (j.server.conns c).decoded
  complete : ∀ c i, (j.server.conns c).closed = false → i < (j.server.conns c).decoded →
    i ∈ (j.server.conns c).acted ∨ ∃ m, (pool j.server).Has m ∧ m.conn = c ∧ m.number = i
  spoken : ∀ evt p, Composed j.server evt → evt.origin = some p → Spoken j evt p
  single : ∀ t, (chats (j.server.stage t)).length ≤ 1
  different : ∀ t v p, p ∈ chats (j.server.stage t) → p ∈ chats (j.server.stage v) → t = v
  lines : (pushed j.server).Nodup
  ahead : ∀ t, ∀ p ∈ chats (j.server.stage t), p ∉ pushed j.server

/-- What the messages of a connection depend on is as before, but it may have been closed
or its login have ended. -/
structure Same (before after : Connection) : Prop where
  fd : after.fd = before.fd
  decoded : after.decoded = before.decoded
  acted : after.acted = before.acted
  name : before.state = .active → after.state = .active ∧ after.username = before.username
  opened : after.closed = false → before.closed = false

theorem Same.refl (conn : Connection) : Same conn conn :=
  ⟨rfl, rfl, rfl, fun hstate => ⟨hstate, rfl⟩, fun hopen => hopen⟩

theorem same_setConn [DecidableEq C] {s : Server C W} {c : C} {conn : Connection}
    (h : Same (s.conns c) conn) (d : C) : Same (s.conns d) ((s.setConn c conn).conns d) := by
  change Same (s.conns d) (Function.update s.conns c conn d)
  rw [Function.update_apply]
  split
  · rename_i heq
    exact heq ▸ h
  · exact .refl _

theorem same_enqueue (conn : Connection) (msg : Text) : Same conn (conn.enqueue msg) := by
  unfold Connection.enqueue
  split
  · exact .refl _
  · exact ⟨rfl, rfl, rfl, fun hstate => ⟨hstate, rfl⟩, fun hopen => hopen⟩

theorem mem_pushed {s : Server C W} {p : C × ℕ} :
    p ∈ pushed s ↔ ∃ evt ∈ s.globalQueue, evt.origin = some p := by
  simp [pushed]

theorem chats_eq (stage : Stage C) : chats stage = (callsLeft stage).filterMap chatOf := by
  cases stage <;> rfl

theorem mem_chats {stage : Stage C} {p : C × ℕ} :
    p ∈ chats stage ↔ ∃ evt, .broadcast evt ∈ callsLeft stage ∧ evt.origin = some p := by
  rw [chats_eq, List.mem_filterMap]
  constructor
  · rintro ⟨call, hcall, hp⟩
    cases call with
    | broadcast evt => exact ⟨evt, hcall, hp⟩
    | sendFast c msg => cases hp
    | close c => cases hp
  · rintro ⟨evt, hevt, hp⟩
    exact ⟨.broadcast evt, hevt, hp⟩

/-- What a turn of OnMessageRecv under the mutex leaves alone. -/
def told (conn : Connection) : ℕ × ℕ × Bool × ConnState × Text :=
  (conn.fd, conn.decoded, conn.closed, conn.state, conn.username)

section Received

variable {conn : Connection} {now : ℚ} {m : Message C} {r : Connection × Stage C}

theorem told_received (h : Received conn now m r) : told r.1 = told conn := by
  cases h <;> rfl

theorem acted_received (h : Received conn now m r) :
    r.1.acted = if conn.closed = true then conn.acted else conn.acted ++ [m.number] := by
  cases h with
  | closed hclosed => exact (if_pos hclosed).symm
  | spam hopen _ | username hopen _ _ | chat hopen _ _ =>
    rw [if_neg (Bool.eq_false_iff.mp hopen)]

/-- The one line that may follow is that of the message, by a user. -/
theorem calls_received (h : Received conn now m r) :
    (∀ evt p, .broadcast evt ∈ callsLeft r.2 → evt.origin = some p → conn.closed = false ∧
      conn.state = .active ∧
      evt = ⟨some conn.fd, chatLine conn.username m.raw, some (m.conn, m.number)⟩) ∧
    ∀ k, handles r.2 = some k → k = m := by
  cases h with
  | closed _ => exact ⟨fun _ _ hevt => (nomatch hevt), nofun⟩
  | spam _ _ =>
    refine ⟨fun evt p hevt => ?_, nofun⟩
    rcases List.mem_cons.mp hevt with hevt | hevt
    · cases hevt
    · cases List.mem_singleton.mp hevt
  | username _ _ _ => exact ⟨fun _ _ hevt => (nomatch hevt), fun k hk => (Option.some.inj hk).symm⟩
  | chat hopen _ hstate =>
    refine ⟨fun evt p hevt _ => ⟨hopen, hstate, ?_⟩, nofun⟩
    cases List.mem_singleton.mp hevt
    rfl

end Received

section Decode

variable [DecidableEq C] {c d : C} {raw : Text}

/-- The payloads that were decoded before keep their numbers. -/
theorem getElem?_decode {raws : C → List Text} {i : ℕ} {payload : Text}
    (hi : (raws d)[i]? = some payload) :
    (Function.update raws c (raws c ++ [raw]) d)[i]? = some payload := by
  by_cases hd : d = c
  · subst hd
    rw [Function.update_self, List.getElem?_append_left (List.getElem?_eq_some_iff.mp hi).1]
    exact hi
  · rw [Function.update_of_ne hd]
    exact hi

end Decode

section Receive

variable [DecidableEq C] [DecidableEq W] {s : Server C W} {w : W} {m : Message C}

theorem told_receive (s : Server C W) (w : W) (m : Message C) (c : C) :
    told ((s.receive w m).conns c) = told (s.conns c) :=
  Server.apply_setConn told (told_received (received (s.conns m.conn) s.now m)) c

theorem acted_receive (s : Server C W) (w : W) (m : Message C) (c : C) :
    ((s.receive w m).conns c).acted =
      if c = m.conn ∧ (s.conns c).closed = false then (s.conns c).acted ++ [m.number]
      else (s.conns c).acted := by
  have hconns : (s.receive w m).conns = Function.update s.conns m.conn
      (onMessageRecv (s.conns m.conn) s.now m).1 := rfl
  rw [hconns]
  by_cases hc : c = m.conn
  · subst hc
    rw [Function.update_self, acted_received (received (s.conns m.conn) s.now m)]
    cases (s.conns m.conn).closed <;> simp
  · rw [Function.update_of_ne hc, if_neg fun hcon => hc hcon.1]

/-- The message counts as handled if the connection was open. -/
theorem mem_acted_receive {c : C} {i : ℕ} : i ∈ ((s.receive w m).conns c).acted ↔
    i ∈ (s.conns c).acted ∨ (c = m.conn ∧ (s.conns c).closed = false ∧ i = m.number) := by
  rw [acted_receive]
  split
  · rename_i hcon
    obtain ⟨rfl, hopen⟩ := hcon
    simp [hopen]
  · rename_i hcon
    exact ⟨Or.inl, fun hi => hi.resolve_right fun hnew => hcon ⟨hnew.1, hnew.2.1⟩⟩

theorem handles_receive {t : Thread W} {k : Message C}
    (ht : handles ((s.receive w m).stage t) = some k) : k = m ∨ handles (s.stage t) = some k := by
  change handles (Function.update s.stage (.worker w)
    (onMessageRecv (s.conns m.conn) s.now m).2 t) = some k at ht
  rw [Function.update_apply] at ht
  split at ht
  · exact Or.inl ((calls_received (received (s.conns m.conn) s.now m)).2 k ht)
  · exact Or.inr ht

/-- The one chat line that may be about to be pushed now is that of the message. -/
theorem calls_receive {t : Thread W} {evt : BroadcastEvent C} {p : C × ℕ}
    (ht : .broadcast evt ∈ callsLeft ((s.receive w m).stage t)) (horigin : evt.origin = some p) :
    (t = .worker w ∧ (s.conns m.conn).closed = false ∧ (s.conns m.conn).state = .active ∧
      evt = ⟨some (s.conns m.conn).fd, chatLine (s.conns m.conn).username m.raw,
        some (m.conn, m.number)⟩) ∨ .broadcast evt ∈ callsLeft (s.stage t) := by
  change Call.broadcast evt ∈ callsLeft (Function.update s.stage (.worker w)
    (onMessageRecv (s.conns m.conn) s.now m).2 t) at ht
  rw [Function.update_apply] at ht
  split at ht
  · rename_i heq
    exact Or.inl ⟨heq, (calls_received (received (s.conns m.conn) s.now m)).1 evt p ht horigin⟩
  · exact Or.inr ht

theorem chats_receive {t : Thread W} {p : C × ℕ} (ht : p ∈ chats ((s.receive w m).stage t)) :
    (t = .worker w ∧ p = (m.conn, m.number)) ∨ p ∈ chats (s.stage t) := by
  obtain ⟨evt, hevt, horigin⟩ := mem_chats.mp ht
  rcases calls_receive hevt horigin with ⟨heq, -, -, rfl⟩ | hbefore
  · exact Or.inl ⟨heq, (Option.some.inj horigin).symm⟩
  · exact Or.inr (mem_chats.mpr ⟨evt, hbefore, horigin⟩)

theorem length_chats_receive {t : Thread W} (h : (chats (s.stage t)).length ≤ 1) :
    (chats ((s.receive w m).stage t)).length ≤ 1 := by
  show (chats (Function.update s.stage (.worker w)
    (onMessageRecv (s.conns m.conn) s.now m).2 t)).length ≤ 1
  rw [Function.update_apply]
  split
  · rcases (MessageOrder.stage_received (received (s.conns m.conn) s.now m)).2 with hnone | hone
    · rw [hnone]
      exact Nat.zero_le 1
    · rw [hone]
      exact Nat.le_refl 1
  · exact h

end Receive

namespace Kept

variable {fd : C → ℕ} {j k : Journal C W} {u : Server C W} {t : Thread W} {stage : Stage C}

theorem chat_acted (h : Kept fd j) {p : C × ℕ} (hp : p ∈ chats (j.server.stage t)) :
    p.2 ∈ (j.server.conns p.1).acted := by
  obtain ⟨evt, hevt, horigin⟩ := mem_chats.mp hp
  exact (h.spoken evt p (Or.inr ⟨t, hevt⟩) horigin).2.1

theorem pushed_acted (h : Kept fd j) {p : C × ℕ} (hp : p ∈ pushed j.server) :
    p.2 ∈ (j.server.conns p.1).acted := by
  obtain ⟨evt, hevt, horigin⟩ := mem_pushed.mp hp
  exact (h.spoken evt p (Or.inl hevt) horigin).2.1

theorem spoken_same {evt : BroadcastEvent C} {p : C × ℕ} (h : Spoken j evt p)
    (hconns : ∀ c, Same (j.server.conns c) (u.conns c)) : Spoken ⟨u, j.raws⟩ evt p := by
  obtain ⟨hstate, hacted, hfd, hline⟩ := h
  obtain ⟨hactive, hname⟩ := (hconns p.1).name hstate
  refine ⟨hactive, ?_, ?_, ?_⟩
  · exact (hconns p.1).acted ▸ hacted
  · exact (hconns p.1).fd ▸ hfd
  · exact hname ▸ hline

variable [DecidableEq W]

/-- A thread goes on, and no message comes to the pool or is handled. -/
theorem goOn (h : Kept fd j) (hconns : ∀ c, Same (j.server.conns c) (u.conns c))
    (htasks : u.taskQueue = j.server.taskQueue) (hglobal : u.globalQueue = j.server.globalQueue)
    (hstage : u.stage = Function.update j.server.stage t stage)
    (hawaits : awaits (j.server.stage t) = none ∧ awaits stage = none)
    (hhandles : ∀ m, handles stage = some m → handles (j.server.stage t) = some m)
    (hcalls : ∀ evt p, .broadcast evt ∈ callsLeft stage → evt.origin = some p →
      .broadcast evt ∈ callsLeft (j.server.stage t))
    (hchats : (chats stage).Sublist (chats (j.server.stage t))) : Kept fd ⟨u, j.raws⟩ := by
  have hacted : ∀ c, (u.conns c).acted = (j.server.conns c).acted := fun c => (hconns c).acted
  have hdecoded : ∀ c, (u.conns c).decoded = (j.server.conns c).decoded :=
    fun c => (hconns c).decoded
  have hpool : pool u = pool j.server := by
    unfold pool
    rw [htasks, hstage]
    congr 1
    funext v
    exact Tracked.awaits_update hawaits.1 hawaits.2 (.worker v)
  have hpushed : pushed u = pushed j.server :=
    congrArg (List.filterMap BroadcastEvent.origin) hglobal
  have hbefore : ∀ v, (chats (u.stage v)).Sublist (chats (j.server.stage v)) := by
    intro v
    rw [hstage]
    exact Lined.chats_update hchats v
  refine ⟨?_, ?_, ?_, ?_, ?_, ?_, ?_, ?_, ?_, ?_, ?_, ?_, ?_⟩
  · exact fun c => (hconns c).fd.trans (h.fds c)
  · exact fun c => (h.counted c).trans (hdecoded c).symm
  · rintro m (hm | ⟨v, hv⟩)
    · exact h.carries m (Or.inl (htasks ▸ hm))
    · refine h.carries m (Or.inr ⟨v, ?_⟩)
      change handles (u.stage v) = some m at hv
      rw [hstage, Function.update_apply] at hv
      split at hv
      · rename_i heq
        exact heq ▸ hhandles m hv
      · exact hv
  · exact hpool ▸ h.apart
  · intro c
    rw [hacted]
    exact h.once c
  · intro m hm
    rw [hacted]
    exact h.pending m (hpool ▸ hm)
  · intro c i hi
    rw [hdecoded]
    exact h.bounded c i (hacted c ▸ hi)
  · intro c i hopen hi
    rw [hacted, hpool]
    exact h.complete c i ((hconns c).opened hopen) (hdecoded c ▸ hi)
  · intro evt p hevt horigin
    refine spoken_same (h.spoken evt p ?_ horigin) hconns
    rcases hevt with hevt | ⟨v, hv⟩
    · exact Or.inl (hglobal ▸ hevt)
    · refine Or.inr ⟨v, ?_⟩
      rw [hstage, Function.update_apply] at hv
      split at hv
      · rename_i heq
        exact heq ▸ hcalls evt p hv horigin
      · exact hv
  · exact fun v => (hbefore v).length_le.trans (h.single v)
  · exact fun v x p hv hx => h.different v x p ((hbefore v).subset hv) ((hbefore x).subset hx)
  · exact hpushed ▸ h.lines
  · intro v p hp
    rw [hpushed]
    exact h.ahead v p ((hbefore v).subset hp)

/-- The same, where the thread has no chat line to push and no login to end. -/
theorem goFree (h : Kept fd j) (hconns : ∀ c, Same (j.server.conns c) (u.conns c))
    (htasks : u.taskQueue = j.server.taskQueue) (hglobal : u.globalQueue = j.server.globalQueue)
    (hstage : u.stage = Function.update j.server.stage t stage)
    (hbefore : awaits (j.server.stage t) = none)
    (hfree : handles stage = none ∧ chats stage = []) : Kept fd ⟨u, j.raws⟩ := by
  obtain ⟨hhandles, hchats⟩ := hfree
  have hawaits : awaits stage = none := by
    cases stage with
    | taken m => cases hhandles
    | _ => rfl
  refine h.goOn hconns htasks hglobal hstage ⟨hbefore, hawaits⟩ ?_ ?_ ?_
  · intro m hm
    cases hhandles.symm.trans hm
  · intro evt p hevt horigin
    have hin : p ∈ chats stage := mem_chats.mpr ⟨evt, hevt, horigin⟩
    rw [hchats] at hin
    cases hin
  · rw [hchats]
    exact List.nil_sublist _

/-- The same, where the thread goes on with the calls that are left. -/
theorem goAfter {call : Call C} {calls : List (Call C)} (h : Kept fd j)
    (hcalling : j.server.stage t = .calling (call :: calls))
    (hconns : ∀ c, Same (j.server.conns c) (u.conns c))
    (htasks : u.taskQueue = j.server.taskQueue) (hglobal : u.globalQueue = j.server.globalQueue)
    (hstage : u.stage = Function.update j.server.stage t (.after calls)) :
    Kept fd ⟨u, j.raws⟩ := by
  have hbefore : awaits (j.server.stage t) = none := congrArg awaits hcalling
  have hleft : callsLeft (Stage.after calls) = calls := by cases calls <;> rfl
  have hhandles : handles (Stage.after calls) = none := by cases calls <;> rfl
  refine h.goOn hconns htasks hglobal hstage ⟨hbefore, awaits_after calls⟩ ?_ ?_
    (chats_after_sublist hcalling)
  · intro m hm
    cases hhandles.symm.trans hm
  · intro evt p hevt _
    rw [hleft] at hevt
    rw [hcalling]
    exact List.mem_cons_of_mem _ hevt

omit [DecidableEq W] in
theorem init (fd : C → ℕ) : Kept fd (⟨.init fd, fun _ => []⟩ : Journal C W) where
  fds _ := rfl
  counted _ := rfl
  carries m hm := by
    rcases hm with hm | ⟨t, ht⟩
    · cases hm
    · cases ht
  apart := ⟨List.Pairwise.nil, nofun, nofun⟩
  once _ := List.nodup_nil
  pending m hm := by
    rcases hm with hm | ⟨w, hw⟩
    · cases hm
    · cases hw
  bounded _ _ hi := nomatch hi
  complete _ _ _ hi := absurd hi (Nat.not_lt_zero _)
  spoken evt p hevt := by
    rcases hevt with hevt | ⟨t, ht⟩
    · cases hevt
    · cases ht
  single _ := Nat.zero_le _
  different _ _ _ hp := nomatch hp
  lines := List.nodup_nil
  ahead _ _ hp := nomatch hp

omit [DecidableEq W] in
/-- No message in the pool has the number of the next one. -/
theorem apart_decode [DecidableEq C] (h : Kept fd j) (c : C) (raw : Text) :
    (pool (j.server.pushTask c raw)).Ordered Apart := by
  rw [pool_pushTask]
  refine h.apart.join (List.pairwise_singleton _ _) fun m hm k hk heq => ?_
  rw [List.mem_singleton.mp hk] at heq
  obtain ⟨hconn, hnumber⟩ := Prod.mk.inj heq
  have hcarried : m.number < (j.raws m.conn).length := by
    refine (List.getElem?_eq_some_iff.mp (h.carries m ?_)).1
    rcases hm with hm | ⟨w, hw⟩
    · exact Or.inl hm
    · exact Or.inr ⟨.worker w, handles_of_awaits hw⟩
  rw [h.counted, hconn] at hcarried
  change m.number < (j.server.conns c).decoded at hcarried
  change m.number = (j.server.conns c).decoded at hnumber
  omega

omit [DecidableEq W] in
/-- The message is in the pool now, and the others are where they were. -/
theorem complete_decode [DecidableEq C] {d : C} {i : ℕ} (h : Kept fd j) (c : C) (raw : Text)
    (hopen : (j.server.conns d).closed = false)
    (hi : i < ((j.server.pushTask c raw).conns d).decoded) :
    i ∈ (j.server.conns d).acted ∨
      ∃ m, (pool (j.server.pushTask c raw)).Has m ∧ m.conn = d ∧ m.number = i := by
  rw [pool_pushTask]
  by_cases hbefore : i < (j.server.conns d).decoded
  · refine (h.complete d i hopen hbefore).imp_right fun ⟨m, hm, heq⟩ => ⟨m, ?_, heq⟩
    exact Pool.has_join.mpr (Or.inl hm)
  · rw [decoded_pushTask] at hi
    split at hi
    · rename_i hd
      subst hd
      refine Or.inr ⟨_, Pool.has_join.mpr (Or.inr (List.mem_singleton_self _)), rfl, ?_⟩
      change (j.server.conns d).decoded = i
      omega
    · exact absurd hi hbefore

omit [DecidableEq W] in
/-- handle_read has decoded a message, which gets the next number. -/
theorem decode [DecidableEq C] (h : Kept fd j) (c : C) (raw : Text) :
    Kept fd ⟨j.server.pushTask c raw, Function.update j.raws c (j.raws c ++ [raw])⟩ := by
  have hacted : ∀ d, ((j.server.pushTask c raw).conns d).acted = (j.server.conns d).acted :=
    Server.apply_setConn Connection.acted rfl
  have hclosed : ∀ d, ((j.server.pushTask c raw).conns d).closed = (j.server.conns d).closed :=
    Server.apply_setConn Connection.closed rfl
  have hfd : ∀ d, ((j.server.pushTask c raw).conns d).fd = (j.server.conns d).fd :=
    Server.apply_setConn Connection.fd rfl
  have hname : ∀ d, ((j.server.pushTask c raw).conns d).username = (j.server.conns d).username :=
    Server.apply_setConn Connection.username rfl
  have hstate : ∀ d, ((j.server.pushTask c raw).conns d).state = (j.server.conns d).state :=
    Server.apply_setConn Connection.state rfl
  refine ⟨fun d => (hfd d).trans (h.fds d), ?_, ?_, h.apart_decode c raw, ?_, ?_, ?_, ?_, ?_,
    h.single, h.different, h.lines, h.ahead⟩
  · intro d
    show (Function.update j.raws c (j.raws c ++ [raw]) d).length = _
    rw [decoded_pushTask, Function.update_apply, ← h.counted d]
    split
    · rename_i hd
      rw [hd, List.length_append, List.length_singleton]
    · rfl
  · rintro m (hm | hheld)
    · rcases List.mem_append.mp hm with hm | hm
      · exact getElem?_decode (h.carries m (Or.inl hm))
      · rw [List.mem_singleton.mp hm]
        show (Function.update j.raws c (j.raws c ++ [raw]) c)[(j.server.conns c).decoded]? = _
        rw [Function.update_self, ← h.counted c, List.getElem?_concat_length]
    · exact getElem?_decode (h.carries m (Or.inr hheld))
  · intro d
    rw [hacted]
    exact h.once d
  · intro m hm
    rw [hacted]
    rcases Pool.has_join.mp (pool_pushTask j.server c raw ▸ hm) with hm | hm
    · exact h.pending m hm
    · rw [List.mem_singleton.mp hm]
      exact fun hin => absurd (h.bounded c _ hin) (Nat.lt_irrefl _)
  · intro d i hi
    rw [hacted] at hi
    have hbefore := h.bounded d i hi
    rw [decoded_pushTask]
    split <;> omega
  · intro d i hopen hi
    rw [hclosed] at hopen
    rw [hacted]
    exact h.complete_decode c raw hopen hi
  · intro evt p hevt horigin
    obtain ⟨hactive, hin, hsender, text, htext, hpayload⟩ := h.spoken evt p hevt horigin
    refine ⟨(hstate p.1).trans hactive, ?_, ?_, text, getElem?_decode htext, ?_⟩
    · rw [hacted]
      exact hin
    · rw [hfd]
      exact hsender
    · rw [hname]
      exact hpayload

theorem take {w : W} {m : Message C} {rest : List (Message C)} (h : Kept fd j)
    (hidle : j.server.stage (.worker w) = .idle) (hqueue : j.server.taskQueue = m :: rest) :
    Kept fd ⟨{ j.server.goto (.worker w) (.taken m) with taskQueue := rest }, j.raws⟩ := by
  have hpool : pool { j.server.goto (.worker w) (.taken m) with taskQueue := rest } =
      (pool j.server).take w m rest :=
    congrArg (Pool.mk rest) (comp_update_worker awaits j.server.stage w (.taken m))
  have hheld : (pool j.server).held w = none := congrArg awaits hidle
  have hbefore : ∀ v, callsLeft (Function.update j.server.stage (.worker w) (.taken m) v) ⊆
      callsLeft (j.server.stage v) := by
    intro v
    rw [Function.update_apply]
    split
    · exact List.nil_subset _
    · exact List.Subset.refl _
  have hchats : ∀ v, (chats (Function.update j.server.stage (.worker w) (.taken m) v)).Sublist
      (chats (j.server.stage v)) := Lined.chats_update (List.nil_sublist _)
  refine ⟨h.fds, h.counted, ?_, ?_, h.once, ?_, h.bounded, ?_, ?_, ?_, ?_, h.lines, ?_⟩
  · rintro k (hk | ⟨v, hv⟩)
    · exact h.carries k (Or.inl (hqueue ▸ List.mem_cons_of_mem m hk))
    · change handles (Function.update j.server.stage (.worker w) (.taken m) v) = some k at hv
      rw [Function.update_apply] at hv
      split at hv
      · cases hv
        exact h.carries m (Or.inl (hqueue ▸ List.mem_cons_self))
      · exact h.carries k (Or.inr ⟨v, hv⟩)
  · rw [hpool]
    exact h.apart.take hqueue hheld
  · intro k hk
    exact h.pending k ((hpool ▸ hk).of_take hqueue)
  · intro c i hopen hi
    refine (h.complete c i hopen hi).imp_right fun ⟨k, hk, heq⟩ => ⟨k, ?_, heq⟩
    exact hpool ▸ hk.take hqueue hheld
  · intro evt p hevt horigin
    refine h.spoken evt p ?_ horigin
    exact hevt.imp_right fun ⟨v, hv⟩ => ⟨v, hbefore v hv⟩
  · exact fun v => (hchats v).length_le.trans (h.single v)
  · exact fun v x p hv hx => h.different v x p ((hchats v).subset hv) ((hchats x).subset hx)
  · exact fun v p hp => h.ahead v p ((hchats v).subset hp)

/-- A message in the pool is not that of the worker that has its turn. -/
theorem apart_taken {w : W} {m k : Message C} (h : Kept fd j)
    (hheld : (pool j.server).held w = some m) (hk : ((pool j.server).release w).Has k) :
    Apart m k := by
  rcases hk with hk | ⟨v, hv⟩
  · exact h.apart.front w m hheld k hk
  · obtain ⟨hne, hv⟩ := Pool.held_release hv
    rcases h.apart.apart w v m k hne.symm hheld hv with heq | heq
    · exact heq
    · exact fun hsame => heq hsame.symm

theorem spoken_receive [DecidableEq C] {w : W} {m : Message C} {evt : BroadcastEvent C}
    {p : C × ℕ} (h : Spoken j evt p) : Spoken ⟨j.server.receive w m, j.raws⟩ evt p := by
  obtain ⟨hactive, hin, hsender, raw, hraw, hpayload⟩ := h
  have htold := told_receive j.server w m p.1
  simp only [told, Prod.mk.injEq] at htold
  obtain ⟨hfd, -, -, hstate, hname⟩ := htold
  refine ⟨hstate.trans hactive, mem_acted_receive.mpr (Or.inl hin), ?_, raw, hraw, ?_⟩
  · rw [hsender]
    exact congrArg some hfd.symm
  · rw [hpayload]
    exact congrArg (chatLine · raw) hname.symm

/-- The line of the message itself. -/
theorem spoken_new [DecidableEq C] {w : W} {m : Message C}
    (hcarried : (j.raws m.conn)[m.number]? = some m.raw)
    (hopen : (j.server.conns m.conn).closed = false)
    (hactive : (j.server.conns m.conn).state = .active) :
    Spoken ⟨j.server.receive w m, j.raws⟩
      ⟨some (j.server.conns m.conn).fd, chatLine (j.server.conns m.conn).username m.raw,
        some (m.conn, m.number)⟩ (m.conn, m.number) := by
  have htold := told_receive j.server w m m.conn
  simp only [told, Prod.mk.injEq] at htold
  obtain ⟨hfd, -, -, hstate, hname⟩ := htold
  exact ⟨hstate.trans hactive, mem_acted_receive.mpr (Or.inr ⟨rfl, hopen, rfl⟩),
    congrArg some hfd.symm, m.raw, hcarried, congrArg (chatLine · m.raw) hname.symm⟩

/-- A worker takes its turn in OnMessageRecv for the message that it has taken. -/
theorem receive [DecidableEq C] {w : W} {m : Message C} (h : Kept fd j)
    (htaken : j.server.stage (.worker w) = .taken m) :
    Kept fd ⟨j.server.receive w m, j.raws⟩ := by
  have hheld : (pool j.server).held w = some m := congrArg awaits htaken
  have hpool := Queued.pool_receive j.server w m
  have hcarried := h.carries m (Or.inr ⟨.worker w, congrArg handles htaken⟩)
  have hnew : m.number ∉ (j.server.conns m.conn).acted := h.pending m (Or.inr ⟨w, hheld⟩)
  have hfresh : ∀ v, (m.conn, m.number) ∉ chats (j.server.stage v) :=
    fun v hv => hnew (h.chat_acted hv)
  have hfields : ∀ c, ((j.server.receive w m).conns c).fd = (j.server.conns c).fd ∧
      ((j.server.receive w m).conns c).decoded = (j.server.conns c).decoded ∧
      ((j.server.receive w m).conns c).closed = (j.server.conns c).closed := by
    intro c
    have htold := told_receive j.server w m c
    simp only [told, Prod.mk.injEq] at htold
    exact ⟨htold.1, htold.2.1, htold.2.2.1⟩
  refine ⟨?_, ?_, ?_, ?_, ?_, ?_, ?_, ?_, ?_, ?_, ?_, h.lines, ?_⟩
  · exact fun c => (hfields c).1.trans (h.fds c)
  · exact fun c => (h.counted c).trans (hfields c).2.1.symm
  · rintro k (hk | ⟨v, hv⟩)
    · exact h.carries k (Or.inl hk)
    · rcases handles_receive hv with rfl | hv
      · exact hcarried
      · exact h.carries k (Or.inr ⟨v, hv⟩)
  · exact hpool ▸ h.apart.release
  · intro c
    show ((j.server.receive w m).conns c).acted.Nodup
    rw [acted_receive]
    split
    · rename_i hcon
      have hnot : m.number ∉ (j.server.conns c).acted := hcon.1 ▸ hnew
      exact List.Nodup.append (h.once c) (List.nodup_singleton _) (by simpa using hnot)
    · exact h.once c
  · intro k hk hin
    rcases mem_acted_receive.mp hin with hin | ⟨hconn, -, hnumber⟩
    · exact h.pending k ((hpool ▸ hk).of_release) hin
    · exact h.apart_taken hheld (hpool ▸ hk) (Prod.ext hconn.symm hnumber.symm)
  · intro c i hi
    rw [(hfields c).2.1]
    rcases mem_acted_receive.mp hi with hi | ⟨rfl, -, rfl⟩
    · exact h.bounded c i hi
    · rw [← h.counted]
      exact (List.getElem?_eq_some_iff.mp hcarried).1
  · intro c i hopen hi
    rw [(hfields c).2.2] at hopen
    rw [(hfields c).2.1] at hi
    rcases h.complete c i hopen hi with hin | ⟨k, hk, rfl, rfl⟩
    · exact Or.inl (mem_acted_receive.mpr (Or.inl hin))
    · rcases hk.release w with hk | hk
      · exact Or.inr ⟨k, hpool ▸ hk, rfl, rfl⟩
      · cases hheld.symm.trans hk
        exact Or.inl (mem_acted_receive.mpr (Or.inr ⟨rfl, hopen, rfl⟩))
  · intro evt p hevt horigin
    rcases hevt with hevt | ⟨v, hv⟩
    · exact spoken_receive (h.spoken evt p (Or.inl hevt) horigin)
    · rcases calls_receive hv horigin with ⟨-, hopen, hactive, rfl⟩ | hv
      · cases horigin
        exact spoken_new hcarried hopen hactive
      · exact spoken_receive (h.spoken evt p (Or.inr ⟨v, hv⟩) horigin)
  · exact fun v => length_chats_receive (h.single v)
  · intro v x p hv hx
    rcases chats_receive hv with ⟨hvw, rfl⟩ | hv
    · rcases chats_receive hx with ⟨hxw, -⟩ | hx
      · rw [hvw, hxw]
      · exact absurd hx (hfresh x)
    · rcases chats_receive hx with ⟨-, rfl⟩ | hx
      · exact absurd hv (hfresh v)
      · exact h.different v x p hv hx
  · intro v p hp hin
    rcases chats_receive hp with ⟨-, rfl⟩ | hp
    · exact hnew (h.pushed_acted hin)
    · exact h.ahead v p hp hin

omit [DecidableEq W] in
theorem pushed_append (s : Server C W) (u : Server C W) (evt : BroadcastEvent C)
    (h : u.globalQueue = s.globalQueue ++ [evt]) : pushed u = pushed s ++ evt.origin.toList := by
  unfold pushed
  rw [h, List.filterMap_append]
  cases horigin : evt.origin with
  | none => simp [horigin]
  | some p => simp [horigin]

theorem broadcast {evt : BroadcastEvent C} {calls : List (Call C)} (h : Kept fd j)
    (hcalling : j.server.stage t = .calling (.broadcast evt :: calls)) :
    Kept fd ⟨{ j.server.goto t (.after calls) with
      globalQueue := j.server.globalQueue ++ [evt] }, j.raws⟩ := by
  -- But for the queue it is as if the thread went on.
  have hgone : Kept fd ⟨j.server.goto t (.after calls), j.raws⟩ :=
    h.goAfter hcalling (fun _ => .refl _) rfl rfl rfl
  have hqueue : pushed { j.server.goto t (.after calls) with
      globalQueue := j.server.globalQueue ++ [evt] } = pushed j.server ++ evt.origin.toList :=
    pushed_append _ _ evt rfl
  have hmine : ∀ p, evt.origin = some p → p ∈ chats (j.server.stage t) := by
    intro p horigin
    rw [mem_chats, hcalling]
    exact ⟨evt, List.mem_cons_self, horigin⟩
  refine ⟨hgone.fds, hgone.counted, hgone.carries, hgone.apart, hgone.once, hgone.pending,
    hgone.bounded, hgone.complete, ?_, hgone.single, hgone.different, ?_, ?_⟩
  · intro evt' p hevt horigin
    refine h.spoken evt' p ?_ horigin
    rcases hevt with hevt | ⟨v, hv⟩
    · rcases List.mem_append.mp hevt with hevt | hevt
      · exact Or.inl hevt
      · refine Or.inr ⟨t, ?_⟩
        rw [hcalling, List.mem_singleton.mp hevt]
        exact List.mem_cons_self
    · refine Or.inr ⟨v, ?_⟩
      change Call.broadcast evt' ∈ callsLeft (Function.update j.server.stage t (.after calls) v)
        at hv
      rw [Function.update_apply] at hv
      split at hv
      · rename_i hvt
        rw [hvt, hcalling]
        cases calls with
        | nil => cases hv
        | cons call calls => exact List.mem_cons_of_mem _ hv
      · exact hv
  · show (pushed _).Nodup
    rw [hqueue]
    cases horigin : evt.origin with
    | none => simpa using h.lines
    | some p =>
      have hnot := h.ahead t p (hmine p horigin)
      exact List.Nodup.append h.lines (List.nodup_singleton p) (by simpa using hnot)
  · intro v p hp hin
    have hbefore : p ∈ chats (j.server.stage v) := by
      refine (Lined.chats_update ?_ v).subset hp
      exact chats_after_sublist hcalling
    rw [hqueue] at hin
    rcases List.mem_append.mp hin with hin | hin
    · exact h.ahead v p hbefore hin
    · -- The thread has no line left after its one line.
      have horigin : evt.origin = some p := by simpa using hin
      have hvt : v = t := h.different v t p hbefore (hmine p horigin)
      subst hvt
      have hsingle := h.single v
      have hchat : chatOf (.broadcast evt) = some p := horigin
      rw [chats_eq, hcalling] at hsingle
      change ((Call.broadcast evt :: calls).filterMap chatOf).length ≤ 1 at hsingle
      rw [List.filterMap_cons_some hchat, List.length_cons] at hsingle
      have hnone : calls.filterMap chatOf = [] := List.eq_nil_of_length_eq_zero (by omega)
      change p ∈ chats (Function.update j.server.stage v (.after calls) v) at hp
      rw [Function.update_self, chats_after, hnone] at hp
      cases hp

theorem step [DecidableEq C] {a : Action C W} {s : Server C W} (h : Kept fd j)
    (hnamed : Sessions.Named j.server) (hnext : j.server.next a = some s) :
    Kept fd (j.record a s) := by
  have hrecord : (∀ raw, a ≠ .decode raw) → j.record a s = ⟨s, j.raws⟩ := by
    intro ha
    unfold Journal.record
    split
    · exact absurd rfl (ha _)
    · rfl
  cases step_of_next hnext with
  | @tick elapsed _ =>
    rw [hrecord nofun]
    exact ⟨h.fds, h.counted, h.carries, h.apart, h.once, h.pending, h.bounded, h.complete,
      h.spoken, h.single, h.different, h.lines, h.ahead⟩
  | read hidle _ =>
    rw [hrecord nofun]
    exact h.goFree (fun _ => .refl _) rfl rfl rfl (congrArg awaits hidle) ⟨rfl, rfl⟩
  | @decode c raw hreading =>
    have hraws : j.record (.decode raw) (j.server.pushTask c raw) =
        ⟨j.server.pushTask c raw, Function.update j.raws c (j.raws c ++ [raw])⟩ := by
      simp only [Journal.record, hreading]
    rw [hraws]
    exact h.decode c raw
  | @readDone c shouldClose hreading =>
    rw [hrecord nofun]
    refine h.goFree (fun _ => .refl _) rfl rfl rfl (congrArg awaits hreading) ?_
    cases shouldClose <;> exact ⟨rfl, rfl⟩
  | hangUp hidle =>
    rw [hrecord nofun]
    exact h.goFree (fun _ => .refl _) rfl rfl rfl (congrArg awaits hidle) ⟨rfl, rfl⟩
  | take hidle hqueue =>
    rw [hrecord nofun]
    exact h.take hidle hqueue
  | lock htaken _ =>
    rw [hrecord nofun]
    exact h.receive htaken
  | @insert w m hlogin =>
    rw [hrecord nofun]
    have hbefore : awaits (j.server.stage (.worker w)) = none := congrArg awaits hlogin
    unfold Server.tryInsert
    split
    · refine h.goOn (t := .worker w) (fun _ => .refl _) rfl rfl rfl ⟨hbefore, rfl⟩ ?_ nofun
        (List.nil_sublist _)
      intro k hk
      rw [hlogin]
      exact hk
    · exact h.goFree (t := .worker w) (fun _ => .refl _) rfl rfl rfl hbefore ⟨rfl, rfl⟩
  | @assign w m haccepted =>
    rw [hrecord nofun]
    have hwaiting : (j.server.conns m.conn).state = .awaitingUsername :=
      hnamed.waiting (.worker w) m.conn (congrArg Stage.logsIn haccepted)
    have hconns : ∀ d, Same (j.server.conns d) ((j.server.finishLogin w m).conns d) :=
      same_setConn ⟨rfl, rfl, rfl, fun hactive => (nomatch hwaiting.symm.trans hactive),
        fun hopen => hopen⟩
    exact h.goFree (t := .worker w) hconns rfl rfl rfl (congrArg awaits haccepted) ⟨rfl, rfl⟩
  | @sendFast t c msg calls hcalling _ =>
    rw [hrecord nofun]
    exact h.goAfter hcalling (same_setConn (same_enqueue (j.server.conns c) msg)) rfl rfl rfl
  | broadcast hcalling =>
    rw [hrecord nofun]
    exact h.broadcast hcalling
  | @closeAgain t c calls hcalling _ =>
    rw [hrecord nofun]
    exact h.goAfter hcalling (fun _ => .refl _) rfl rfl rfl
  | @close t c calls hcalling _ =>
    rw [hrecord nofun]
    have hconns : ∀ d, Same (j.server.conns d)
        ((j.server.setConn c { j.server.conns c with closed := true }).conns d) :=
      same_setConn ⟨rfl, rfl, rfl, fun hactive => ⟨hactive, rfl⟩, nofun⟩
    exact h.goFree hconns rfl rfl rfl (congrArg awaits hcalling) ⟨rfl, rfl⟩
  | @disconnect t c hleaving =>
    rw [hrecord nofun]
    have hconns : ∀ d, Same (j.server.conns d)
        ((j.server.setConn c { j.server.conns c with disconnected := true }).conns d) :=
      same_setConn ⟨rfl, rfl, rfl, fun hactive => ⟨hactive, rfl⟩, fun hopen => hopen⟩
    have hbefore : awaits (j.server.stage t) = none := congrArg awaits hleaving
    unfold Server.onClientDisconnect
    dsimp only
    split
    · exact h.goFree hconns rfl rfl rfl hbefore ⟨rfl, rfl⟩
    · exact h.goFree hconns rfl rfl rfl hbefore ⟨rfl, rfl⟩

theorem of_reachable [DecidableEq C] {allowed : Journal C W → Action C W → Prop}
    (hj : Reachable (machine fd) allowed j) : Kept fd j := by
  refine hj.invariant_of_reachable (init fd) ?_
  intro j a k hreach h _ hnext
  obtain ⟨s, hs, rfl⟩ := Option.map_eq_some_iff.mp hnext
  exact h.step (Sessions.Named.of_reachable (server_reachable hreach)) hs

end Kept

section Results

variable [DecidableEq C] [DecidableEq W] {fd : C → ℕ} {j : Journal C W}
  {allowed : Journal C W → Action C W → Prop}

/-- Whatever the threads do, no message is handled twice, and while the connection is open
each decoded message is handled or is still in the queue or with a worker. -/
theorem handled_once (hj : Reachable (machine fd) allowed j) (c : C) :
    (j.server.conns c).acted.Nodup ∧
    (∀ i ∈ (j.server.conns c).acted, i < (j.raws c).length) ∧
    (∀ m, (pool j.server).Has m → m.number ∉ (j.server.conns m.conn).acted) ∧
    ((j.server.conns c).closed = false → ∀ i raw, (j.raws c)[i]? = some raw →
      i ∈ (j.server.conns c).acted ∨ (pool j.server).Has ⟨c, i, raw⟩) := by
  have h := Kept.of_reachable hj
  refine ⟨h.once c, ?_, h.pending, ?_⟩
  · rw [h.counted]
    exact h.bounded c
  · intro hopen i raw hraw
    have hlen := (List.getElem?_eq_some_iff.mp hraw).1
    rw [h.counted] at hlen
    refine (h.complete c i hopen hlen).imp_right ?_
    rintro ⟨⟨d, k, text⟩, hm, rfl, rfl⟩
    have hcarried : (j.raws d)[k]? = some text := by
      refine h.carries ⟨d, k, text⟩ ?_
      rcases hm with hm | ⟨w, hw⟩
      · exact Or.inl hm
      · exact Or.inr ⟨.worker w, handles_of_awaits hw⟩
    rw [hraw] at hcarried
    cases hcarried
    exact hm

/-- The chat lines in the global queue are lines of different messages, each with the
text of its message behind the name that its sender has logged in with. -/
theorem chat_lines_faithful (hj : Reachable (machine fd) allowed j) :
    (j.server.globalQueue.filterMap BroadcastEvent.origin).Nodup ∧
    ∀ evt ∈ j.server.globalQueue, ∀ c i, evt.origin = some (c, i) →
      i ∈ (j.server.conns c).acted ∧ (j.server.conns c).state = .active ∧
      evt.senderFd = some (fd c) ∧ ∃ raw, (j.raws c)[i]? = some raw ∧
        evt.payload = chatLine (j.server.conns c).username raw := by
  have h := Kept.of_reachable hj
  refine ⟨h.lines, fun evt hevt c i horigin => ?_⟩
  obtain ⟨hactive, hin, hsender, hline⟩ := h.spoken evt (c, i) (Or.inl hevt) horigin
  refine ⟨hin, hactive, ?_, hline⟩
  rw [← h.fds c]
  exact hsender

end Results

section Sample

/-- Two chat lines of one user on two workers, of which the second overtakes the first. -/
def overtakenSteps (w v : Fin 2) : List (Action (Fin 1) (Fin 2)) :=
  decodeSteps [[97], [104], [105], [106]] ++ [.take w] ++ loginSteps w ++
    [.take w, .take v, .lock w, .lock v, .call (.worker v), .call (.worker w)]

theorem handled_once_sample : ∃ j : Journal (Fin 1) (Fin 2),
    Reachable (machine descriptor) AnyStep j ∧
      ((j.server.conns 0).acted = [0, 1, 2] ∧ (j.server.conns 0).closed = false ∧
        (j.raws 0).length = 4) ∧
      (j.server.conns 0).acted.Nodup ∧
      (∀ i ∈ (j.server.conns 0).acted, i < (j.raws 0).length) ∧
      (∀ m, (pool j.server).Has m → m.number ∉ (j.server.conns m.conn).acted) ∧
      ((j.server.conns 0).closed = false → ∀ i raw, (j.raws 0)[i]? = some raw →
        i ∈ (j.server.conns 0).acted ∨ (pool j.server).Has ⟨0, i, raw⟩) := by
  have hrun : (run (machine descriptor) AnyStep (machine descriptor).init (overtakenSteps 0 1)).any
      (fun j => (j.server.conns 0).acted = [0, 1, 2] ∧ (j.server.conns 0).closed = false ∧
        (j.raws 0).length = 4) = true := by
    decide +kernel
  obtain ⟨j, hj, h⟩ := exists_reachable hrun
  exact ⟨j, hj, h, handled_once hj 0⟩

theorem chat_lines_faithful_sample : ∃ j : Journal (Fin 1) (Fin 2),
    Reachable (machine descriptor) AnyStep j ∧
      j.server.globalQueue.filterMap BroadcastEvent.origin = [(0, 2), (0, 1)] ∧
      (j.server.globalQueue.filterMap BroadcastEvent.origin).Nodup ∧
      ∀ evt ∈ j.server.globalQueue, ∀ c i, evt.origin = some (c, i) →
        i ∈ (j.server.conns c).acted ∧ (j.server.conns c).state = .active ∧
        evt.senderFd = some (descriptor c) ∧ ∃ raw, (j.raws c)[i]? = some raw ∧
          evt.payload = chatLine (j.server.conns c).username raw := by
  have hrun : (run (machine descriptor) AnyStep (machine descriptor).init (overtakenSteps 0 1)).any
      (fun j => j.server.globalQueue.filterMap BroadcastEvent.origin = [(0, 2), (0, 1)]) =
        true := by
    decide +kernel
  obtain ⟨j, hj, h⟩ := exists_reachable hrun
  exact ⟨j, hj, h, chat_lines_faithful hj⟩

end Sample

end ChatServer.MessageTasks.ChatHistory
