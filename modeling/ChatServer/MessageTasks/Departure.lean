import Mathlib.Data.Fintype.Basic
import ChatServer.Lib.History
import ChatServer.MessageTasks.UsernameRelease

/-!
The arrival and the departure of a user in the third version. A worker that has
logged a user in unlocks everything and then pushes the arrival to `global_queue_`;
OnClientDisconnect needs no lock of the connection, so its departure may be pushed
first. The events in the queue do not say which connection they are about; a journal
beside the server keeps that, and what each thread is still to announce.
-/
namespace ChatServer.MessageTasks.Departure

open Lib.Runs Lib.History UsernameRelease

/-- A broadcast that the whole chat is told about a connection. -/
inductive Announcement (C : Type*)
  | arrival (conn : C)
  | departure (conn : C)
deriving DecidableEq

/-- `queue` is `globalQueue` with what each event announces, and `pending` what a thread
has composed and not yet pushed. -/
structure Journal (C W : Type*) where
  server : Server C W
  pending : Thread W → Option (Announcement C)
  queue : List (BroadcastEvent C × Option (Announcement C))

variable {C W : Type*}

/-- The thread that composes an announcement in this step. -/
def composes (s : Server C W) : Action C W → Option (Thread W × Announcement C)
  | .assign w =>
      match s.stage (.worker w) with
      | .accepted m => some (.worker w, .arrival m.conn)
      | _ => none
  | .disconnect t =>
      match s.stage t with
      | .leaving c => if (s.conns c).username = [] then none else some (t, .departure c)
      | _ => none
  | _ => none

/-- The thread that pushes an event to `global_queue_` in this step. -/
def pushes (s : Server C W) : Action C W → Option (Thread W × BroadcastEvent C)
  | .call t =>
      match s.stage t with
      | .calling (.broadcast evt :: _) => some (t, evt)
      | _ => none
  | _ => none

/-- The connection whose departure is pushed in this step. -/
def departs (j : Journal C W) (a : Action C W) : Option C :=
  match pushes j.server a with
  | some (t, _) =>
      match j.pending t with
      | some (.departure c) => some c
      | _ => none
  | none => none

/-- No login is disturbed, and no departure is pushed before a pending arrival of the
same connection. -/
def Waits (j : Journal C W) (a : Action C W) : Prop :=
  Undisturbed j.server a ∧
    ∀ c ∈ departs j a, ∀ w, j.pending (.worker w) ≠ some (.arrival c)

instance [Fintype W] [DecidableEq C] (j : Journal C W) (a : Action C W) : Decidable (Waits j a) :=
  inferInstanceAs (Decidable (_ ∧ _))

section Machine

variable [DecidableEq C] [DecidableEq W]

def Journal.record (j : Journal C W) (a : Action C W) (s : Server C W) : Journal C W :=
  match composes j.server a, pushes j.server a with
  | some (t, announcement), _ =>
      { j with server := s, pending := Function.update j.pending t (some announcement) }
  | none, some (t, evt) =>
      { server := s
        pending := Function.update j.pending t none
        queue := j.queue ++ [(evt, j.pending t)] }
  | none, none => { j with server := s }

/-- The server takes a step and the journal records it. -/
def machine (fd : C → ℕ) : Machine (Journal C W) (Action C W) where
  init := ⟨.init fd, fun _ => none, []⟩
  next j a := (j.server.next a).map (j.record a)

end Machine

/-- A departure stands behind the arrival of the same connection. -/
def InOrder (j : Journal C W) : Prop :=
  Justified (fun before e => ∀ c, e.2 = some (.departure c) →
    ∃ evt, (evt, some (.arrival c)) ∈ before) j.queue

/-- The departure of a user who has arrived and whose connection is gone is in the
queue, or a thread is about to push it. -/
def NoneStays (j : Journal C W) : Prop :=
  ∀ c evt, (evt, some (.arrival c)) ∈ j.queue → (j.server.conns c).disconnected = true →
    (∃ evt', (evt', some (.departure c)) ∈ j.queue) ∨ ∃ t, j.pending t = some (.departure c)

/-- The journal tells what is in `globalQueue`: an arrival and a departure have the text
for the user of their connection, and everything else is a chat line. -/
structure Faithful (j : Journal C W) : Prop where
  queue_eq : j.queue.map Prod.fst = j.server.globalQueue
  arrival : ∀ evt c, (evt, some (.arrival c)) ∈ j.queue →
    evt.payload = joinLine (j.server.conns c).username ∧ (j.server.conns c).username ≠ []
  departure : ∀ evt c, (evt, some (.departure c)) ∈ j.queue →
    evt.payload = leftLine (j.server.conns c).username ∧ (j.server.conns c).username ≠ []
  other : ∀ evt, (evt, none) ∈ j.queue → evt.origin ≠ none

/-- The calls that a thread has still to make. -/
def callsLeft : Stage C → List (Call C)
  | .calling calls => calls
  | _ => []

/-- What a thread goes on with while it has this to announce. -/
def Expects (s : Server C W) (stage : Stage C) : Option (Announcement C) → Prop
  | none => ∀ evt, .broadcast evt ∈ callsLeft stage → evt.origin ≠ none
  | some (.arrival c) => (s.conns c).username ≠ [] ∧ ∃ evt,
      evt.payload = joinLine (s.conns c).username ∧
      (stage = .calling [.sendFast c usernameAccepted, .broadcast evt] ∨
        stage = .calling [.broadcast evt])
  | some (.departure c) => (s.conns c).username ≠ [] ∧ (s.conns c).disconnected = true ∧
      stage = .calling [.broadcast ⟨none, leftLine (s.conns c).username, none⟩]

structure Kept (j : Journal C W) : Prop where
  faithful : Faithful j
  expects : ∀ t, Expects j.server (j.server.stage t) (j.pending t)
  fresh : ∀ t m, j.server.stage t = .accepted m →
    m.raw ≠ [] ∧ (j.server.conns m.conn).disconnected = false
  announced : ∀ c, (j.server.conns c).username ≠ [] →
    (∃ w, j.pending (.worker w) = some (.arrival c)) ∨
      ∃ evt, (evt, some (.arrival c)) ∈ j.queue
  gone : ∀ c, (j.server.conns c).username ≠ [] → (j.server.conns c).disconnected = true →
    (∃ evt, (evt, some (.departure c)) ∈ j.queue) ∨ ∃ t, j.pending t = some (.departure c)
  ordered : InOrder j

section Expecting

variable {s u : Server C W} {stage : Stage C} {announcement : Option (Announcement C)}

/-- Usernames are not changed and OnClientDisconnect is not undone. -/
theorem Expects.mono (h : Expects s stage announcement)
    (hname : ∀ c, (s.conns c).username ≠ [] → (u.conns c).username = (s.conns c).username)
    (hleft : ∀ c, (s.conns c).disconnected = true → (u.conns c).disconnected = true) :
    Expects u stage announcement := by
  cases announcement with
  | none => exact h
  | some announcement =>
    cases announcement with
    | arrival c =>
      have heq := hname c h.1
      simp only [Expects, heq] at h ⊢
      exact h
    | departure c =>
      have heq := hname c h.1
      have hgone := hleft c h.2.1
      simp only [Expects, heq, hgone] at h ⊢
      exact ⟨h.1, trivial, h.2.2⟩

/-- A thread that is not at its calls has nothing to announce. -/
theorem Expects.eq_none (h : Expects s stage announcement)
    (hstage : ∀ calls, stage ≠ .calling calls) : announcement = none := by
  cases announcement with
  | none => rfl
  | some announcement =>
    cases announcement with
    | arrival c =>
      obtain ⟨_, evt, _, hcalls | hcalls⟩ := h
      · exact absurd hcalls (hstage _)
      · exact absurd hcalls (hstage _)
    | departure c => exact absurd h.2.2 (hstage _)

/-- A thread that makes its first call without an announcement goes on with the others. -/
theorem Expects.after_none {call : Call C} {calls : List (Call C)}
    (h : Expects s (.calling (call :: calls)) none) : Expects s (.after calls) none := by
  intro evt hevt
  refine h evt (List.mem_cons_of_mem _ ?_)
  cases calls with
  | nil => cases hevt
  | cons call calls => exact hevt

theorem Expects.after_sendFast {c : C} {msg : Text} {calls : List (Call C)}
    (h : Expects s (.calling (.sendFast c msg :: calls)) announcement) :
    Expects s (.after calls) announcement := by
  cases announcement with
  | none => exact h.after_none
  | some announcement =>
    cases announcement with
    | arrival d =>
      obtain ⟨hname, evt, hevt, hcalls | hcalls⟩ := h
      · obtain ⟨_, hlater⟩ := List.cons.inj (Stage.calling.inj hcalls)
        refine ⟨hname, evt, hevt, .inr ?_⟩
        rw [hlater]
        rfl
      · cases hcalls
    | departure d =>
      obtain ⟨_, _, hcalls⟩ := h
      cases hcalls

/-- Only a thread without an announcement closes a connection. -/
theorem Expects.eq_none_of_close {c : C} {calls : List (Call C)}
    (h : Expects s (.calling (.close c :: calls)) announcement) : announcement = none := by
  cases announcement with
  | none => rfl
  | some announcement =>
    cases announcement with
    | arrival d =>
      obtain ⟨_, evt, _, hcalls | hcalls⟩ := h
      · cases hcalls
      · cases hcalls
    | departure d =>
      obtain ⟨_, _, hcalls⟩ := h
      cases hcalls

section Push

variable {evt : BroadcastEvent C} {calls : List (Call C)} {c : C}

theorem Expects.arrival_payload
    (h : Expects s (.calling (.broadcast evt :: calls)) (some (.arrival c))) :
    evt.payload = joinLine (s.conns c).username ∧ (s.conns c).username ≠ [] ∧ calls = [] := by
  obtain ⟨hne, evt', hevt, hcalls | hcalls⟩ := h
  · cases hcalls
  · cases hcalls
    exact ⟨hevt, hne, rfl⟩

theorem Expects.departure_payload
    (h : Expects s (.calling (.broadcast evt :: calls)) (some (.departure c))) :
    evt.payload = leftLine (s.conns c).username ∧ (s.conns c).username ≠ [] ∧ calls = [] := by
  obtain ⟨hne, _, hcalls⟩ := h
  cases hcalls
  exact ⟨rfl, hne, rfl⟩

/-- With the event that it announces a thread has made its last call. -/
theorem Expects.after_push (h : Expects s (.calling (.broadcast evt :: calls)) announcement) :
    Expects s (.after calls) none := by
  have hlast : Expects s (.after []) none := by
    intro evt' hevt
    cases hevt
  cases announcement with
  | none => exact h.after_none
  | some announcement =>
    cases announcement with
    | arrival c =>
      rw [h.arrival_payload.2.2]
      exact hlast
    | departure c =>
      rw [h.departure_payload.2.2]
      exact hlast

theorem Faithful.push {j k : Journal C W} (h : Faithful j)
    (hexpects : Expects j.server (.calling (.broadcast evt :: calls)) announcement)
    (hqueue : k.queue = j.queue ++ [(evt, announcement)])
    (hglobal : k.server.globalQueue = j.server.globalQueue ++ [evt])
    (hconns : k.server.conns = j.server.conns) : Faithful k := by
  constructor
  · rw [hqueue, hglobal, List.map_append, h.queue_eq]
    rfl
  · intro e c he
    rw [hqueue] at he
    rw [hconns]
    rcases List.mem_append.mp he with he | he
    · exact h.arrival e c he
    · obtain ⟨rfl, rfl⟩ := Prod.mk.inj (List.mem_singleton.mp he)
      obtain ⟨hpayload, hne, _⟩ := hexpects.arrival_payload
      exact ⟨hpayload, hne⟩
  · intro e c he
    rw [hqueue] at he
    rw [hconns]
    rcases List.mem_append.mp he with he | he
    · exact h.departure e c he
    · obtain ⟨rfl, rfl⟩ := Prod.mk.inj (List.mem_singleton.mp he)
      obtain ⟨hpayload, hne, _⟩ := hexpects.departure_payload
      exact ⟨hpayload, hne⟩
  · intro e he
    rw [hqueue] at he
    rcases List.mem_append.mp he with he | he
    · exact h.other e he
    · obtain ⟨rfl, rfl⟩ := Prod.mk.inj (List.mem_singleton.mp he)
      exact hexpects e List.mem_cons_self

end Push

/-- OnMessageRecv composes nothing but a chat line. -/
theorem expects_received (s : Server C W) {conn : Connection} {now : ℚ} {m : Message C}
    {r : Connection × Stage C} (h : Received conn now m r) :
    Expects s r.2 none ∧ ∀ k, r.2 ≠ .accepted k := by
  constructor
  · intro evt hevt
    cases h with
    | closed _ => cases hevt
    | spam _ _ =>
      cases hevt with
      | tail _ hlater =>
        cases hlater with
        | tail _ hnone => cases hnone
    | username _ _ _ => cases hevt
    | chat _ _ _ =>
      cases List.mem_singleton.mp hevt
      exact Option.some_ne_none _
  · intro k hk
    cases h with
    | closed _ => cases hk
    | spam _ _ => cases hk
    | username _ _ _ => cases hk
    | chat _ _ _ => cases hk

end Expecting

section Disconnect

variable [DecidableEq C] [DecidableEq W] (s : Server C W) (t : Thread W) (c : C)

/-- OnClientDisconnect writes to one connection. -/
theorem conns_onClientDisconnect : (s.onClientDisconnect t c).conns =
    Function.update s.conns c { s.conns c with disconnected := true } := by
  unfold Server.onClientDisconnect
  dsimp only
  split <;> rfl

theorem disconnected_onClientDisconnect :
    ((s.onClientDisconnect t c).conns c).disconnected = true := by
  rw [conns_onClientDisconnect, Function.update_self]

theorem conns_onClientDisconnect_of_ne {d : C} (hd : d ≠ c) :
    (s.onClientDisconnect t c).conns d = s.conns d := by
  rw [conns_onClientDisconnect, Function.update_of_ne hd]

theorem username_onClientDisconnect (d : C) :
    ((s.onClientDisconnect t c).conns d).username = (s.conns d).username := by
  by_cases hd : d = c
  · rw [hd, conns_onClientDisconnect, Function.update_self]
  · rw [conns_onClientDisconnect_of_ne s t c hd]

end Disconnect

namespace Kept

variable [DecidableEq C] [DecidableEq W] {j : Journal C W} {u : Server C W} {t : Thread W} {w : W}
  {c : C} {stage : Stage C}

omit [DecidableEq C] [DecidableEq W] in
/-- A step that neither composes nor pushes anything, and keeps the usernames. -/
theorem frame (h : Kept j) (hids : ∀ c, identity (u.conns c) = identity (j.server.conns c))
    (hqueue : u.globalQueue = j.server.globalQueue)
    (hexpects : ∀ t, Expects j.server (u.stage t) (j.pending t))
    (hfresh : ∀ t m, u.stage t = .accepted m →
      m.raw ≠ [] ∧ (j.server.conns m.conn).disconnected = false) :
    Kept { j with server := u } := by
  have hname : ∀ c, (u.conns c).username = (j.server.conns c).username :=
    fun c => congrArg Prod.fst (hids c)
  have hleft : ∀ c, (u.conns c).disconnected = (j.server.conns c).disconnected :=
    fun c => congrArg (fun i => i.2.2) (hids c)
  refine ⟨⟨?_, ?_, ?_, h.faithful.other⟩, ?_, ?_, ?_, ?_, h.ordered⟩
  · exact h.faithful.queue_eq.trans hqueue.symm
  · intro evt c hevt
    rw [hname]
    exact h.faithful.arrival evt c hevt
  · intro evt c hevt
    rw [hname]
    exact h.faithful.departure evt c hevt
  · exact fun t => (hexpects t).mono (fun c _ => hname c) fun c hc => (hleft c).trans hc
  · intro t m hm
    rw [hleft]
    exact hfresh t m hm
  · intro c hc
    rw [hname] at hc
    exact h.announced c hc
  · intro c hc hgone
    rw [hname] at hc
    rw [hleft] at hgone
    exact h.gone c hc hgone

omit [DecidableEq C] in
/-- One thread goes on, and does not insert a name. -/
theorem goOn (h : Kept j) (hids : ∀ c, identity (u.conns c) = identity (j.server.conns c))
    (hqueue : u.globalQueue = j.server.globalQueue)
    (hstage : u.stage = Function.update j.server.stage t stage)
    (hexpects : Expects j.server stage (j.pending t)) (hnot : ∀ m, stage ≠ .accepted m) :
    Kept { j with server := u } := by
  refine h.frame hids hqueue ?_ ?_
  · intro v
    rw [hstage, Function.update_apply]
    split
    · rename_i heq
      rw [heq]
      exact hexpects
    · exact h.expects v
  · intro v m hv
    rw [hstage, Function.update_apply] at hv
    split at hv
    · exact absurd hv (hnot m)
    · exact h.fresh v m hv

omit [DecidableEq C] in
/-- A thread that was not at its calls goes on with nothing to announce. -/
theorem move (h : Kept j) (hids : ∀ c, identity (u.conns c) = identity (j.server.conns c))
    (hqueue : u.globalQueue = j.server.globalQueue)
    (hstage : u.stage = Function.update j.server.stage t stage)
    (hbefore : ∀ calls, j.server.stage t ≠ .calling calls) (hexpects : Expects j.server stage none)
    (hnot : ∀ m, stage ≠ .accepted m) : Kept { j with server := u } :=
  h.goOn hids hqueue hstage ((h.expects t).eq_none hbefore ▸ hexpects) hnot

omit [DecidableEq C] in
/-- A thread that was not at its calls goes on to a stage with no broadcast ahead. -/
theorem goQuiet (h : Kept j) (hids : ∀ c, identity (u.conns c) = identity (j.server.conns c))
    (hqueue : u.globalQueue = j.server.globalQueue)
    (hstage : u.stage = Function.update j.server.stage t stage)
    (hbefore : ∀ calls, j.server.stage t ≠ .calling calls)
    (hcalls : ∀ evt, .broadcast evt ∉ callsLeft stage) (hnot : ∀ m, stage ≠ .accepted m) :
    Kept { j with server := u } :=
  h.move hids hqueue hstage hbefore (fun evt hevt => absurd hevt (hcalls evt)) hnot

theorem insert {m : Message C} (h : Kept j) (hlogin : j.server.stage (.worker w) = .login m)
    (hhere : j.server.Free m.raw → (j.server.conns m.conn).disconnected = false) :
    Kept { j with server := j.server.tryInsert w m } := by
  have hout : ∀ calls, j.server.stage (.worker w) ≠ .calling calls := by
    intro calls hcalls
    cases hlogin.symm.trans hcalls
  have hnone := (h.expects (.worker w)).eq_none hout
  unfold Server.tryInsert
  split
  · rename_i hfree
    refine h.frame (fun _ => rfl) rfl ?_ ?_
    · intro v
      change Expects j.server (Function.update j.server.stage (.worker w) (.accepted m) v) _
      rw [Function.update_apply]
      split
      · rename_i heq
        rw [heq, hnone]
        intro evt hevt
        cases hevt
      · exact h.expects v
    · intro v k hk
      change Function.update j.server.stage (.worker w) (.accepted m) v = _ at hk
      rw [Function.update_apply] at hk
      split at hk
      · cases hk
        exact ⟨hfree.2, hhere hfree⟩
      · exact h.fresh v k hk
  · exact h.goQuiet (t := .worker w) (fun _ => rfl) rfl rfl hout (by simp [callsLeft]) nofun

omit [DecidableEq C] in
/-- A thread that had nothing to announce goes on, and may have something now. Names that
are there stay, and what is new about a connection is what is to be announced. -/
theorem compose {announcement : Option (Announcement C)} (h : Kept j)
    (hbefore : ∀ calls, j.server.stage t ≠ .calling calls)
    (hqueue : u.globalQueue = j.server.globalQueue)
    (hstage : u.stage = Function.update j.server.stage t stage)
    (hnot : ∀ m, stage ≠ .accepted m) (hexpects : Expects u stage announcement)
    (hname : ∀ c, (j.server.conns c).username ≠ [] →
      (u.conns c).username = (j.server.conns c).username)
    (hleft : ∀ c, (j.server.conns c).disconnected = true → (u.conns c).disconnected = true)
    (hfresh : ∀ v m, v ≠ t → j.server.stage v = .accepted m →
      (u.conns m.conn).disconnected = false)
    (harrival : ∀ c, (u.conns c).username ≠ [] → (j.server.conns c).username ≠ [] ∨
      announcement = some (.arrival c) ∧ ∃ w, t = .worker w)
    (hdeparture : ∀ c, (u.conns c).username ≠ [] → (u.conns c).disconnected = true →
      (j.server.conns c).username ≠ [] ∧ (j.server.conns c).disconnected = true ∨
        announcement = some (.departure c)) :
    Kept { j with server := u, pending := Function.update j.pending t announcement } := by
  have hnone := (h.expects t).eq_none hbefore
  have hself : Function.update j.pending t announcement t = announcement := Function.update_self ..
  have hother : ∀ v, v ≠ t → Function.update j.pending t announcement v = j.pending v :=
    fun v hv => Function.update_of_ne hv _ _
  have hkeeps : ∀ v a, j.pending v = some a →
      Function.update j.pending t announcement v = some a := by
    intro v a hv
    rw [hother v]
    · exact hv
    · rintro rfl
      cases hnone.symm.trans hv
  refine ⟨⟨h.faithful.queue_eq.trans hqueue.symm, ?_, ?_, h.faithful.other⟩, ?_, ?_, ?_, ?_,
    h.ordered⟩
  · intro evt c hevt
    obtain ⟨hpayload, hne⟩ := h.faithful.arrival evt c hevt
    dsimp only
    rw [hname c hne]
    exact ⟨hpayload, hne⟩
  · intro evt c hevt
    obtain ⟨hpayload, hne⟩ := h.faithful.departure evt c hevt
    dsimp only
    rw [hname c hne]
    exact ⟨hpayload, hne⟩
  · intro v
    dsimp only
    rw [hstage]
    by_cases hv : v = t
    · rw [hv, Function.update_self, hself]
      exact hexpects
    · rw [Function.update_of_ne hv, hother v hv]
      exact (h.expects v).mono hname hleft
  · intro v m hm
    dsimp only at hm ⊢
    rw [hstage] at hm
    by_cases hv : v = t
    · rw [hv, Function.update_self] at hm
      exact absurd hm (hnot m)
    · rw [Function.update_of_ne hv] at hm
      exact ⟨(h.fresh v m hm).1, hfresh v m hv hm⟩
  · intro c hc
    dsimp only
    rcases harrival c hc with hold | ⟨hnew, w, rfl⟩
    · refine (h.announced c hold).imp_left ?_
      rintro ⟨w, hw⟩
      exact ⟨w, hkeeps _ _ hw⟩
    · exact .inl ⟨w, hself.trans hnew⟩
  · intro c hc hgone
    dsimp only
    rcases hdeparture c hc hgone with ⟨hold, hleftOld⟩ | hnew
    · refine (h.gone c hold hleftOld).imp_right ?_
      rintro ⟨v, hv⟩
      exact ⟨v, hkeeps _ _ hv⟩
    · exact .inr ⟨t, hself.trans hnew⟩

/-- The user is logged in, and the worker has the arrival to announce. -/
theorem assign {m : Message C} (h : Kept j)
    (haccepted : j.server.stage (.worker w) = .accepted m)
    (hunnamed : (j.server.conns m.conn).username = []) :
    Kept { j with
      server := j.server.finishLogin w m
      pending := Function.update j.pending (.worker w) (some (.arrival m.conn)) } := by
  obtain ⟨hraw, hhere⟩ := h.fresh (.worker w) m haccepted
  have hconns : (j.server.finishLogin w m).conns =
      Function.update j.server.conns m.conn ((j.server.conns m.conn).activate m.raw) := rfl
  have hself : ((j.server.finishLogin w m).conns m.conn).username = m.raw := by
    rw [hconns, Function.update_self]
    rfl
  have hleft : ∀ c, ((j.server.finishLogin w m).conns c).disconnected =
      (j.server.conns c).disconnected := by
    intro c
    rw [hconns, Function.update_apply]
    split
    · rename_i heq
      rw [heq]
      rfl
    · rfl
  refine h.compose ?_ rfl rfl ?_ ⟨hself ▸ hraw, _, ?_, .inl rfl⟩ ?_ ?_ ?_ ?_ ?_
  · intro calls hcalls
    cases haccepted.symm.trans hcalls
  · intro k hk
    cases hk
  · rw [hself]
  · intro c hc
    have hne : c ≠ m.conn := fun heq => hc (heq ▸ hunnamed)
    rw [hconns, Function.update_of_ne hne]
  · intro c hc
    rw [hleft, hc]
  · intro v k _ hk
    rw [hleft]
    exact (h.fresh v k hk).2
  · intro c hc
    by_cases hcm : c = m.conn
    · exact .inr ⟨by rw [hcm], w, rfl⟩
    · rw [hconns, Function.update_of_ne hcm] at hc
      exact .inl hc
  · intro c hc hgone
    rw [hleft] at hgone
    have hcm : c ≠ m.conn := by
      rintro rfl
      cases hhere.symm.trans hgone
    rw [hconns, Function.update_of_ne hcm] at hc
    exact .inl ⟨hc, hgone⟩

/-- OnClientDisconnect has left the connection, with a departure to announce if the user
had logged in. -/
theorem disconnect (h : Kept j) (hleaving : j.server.stage t = .leaving c)
    (hundisturbed : ∀ v m, j.server.stage v = .accepted m → m.conn ≠ c) :
    Kept { j with
      server := j.server.onClientDisconnect t c
      pending := Function.update j.pending t
        (if (j.server.conns c).username = [] then none else some (.departure c)) } := by
  have hname := username_onClientDisconnect j.server t c
  have hother : ∀ d, d ≠ c → (j.server.onClientDisconnect t c).conns d = j.server.conns d :=
    fun d hd => conns_onClientDisconnect_of_ne j.server t c hd
  have hself := disconnected_onClientDisconnect j.server t c
  have hmono : ∀ d, (j.server.conns d).disconnected = true →
      ((j.server.onClientDisconnect t c).conns d).disconnected = true := by
    intro d hd
    by_cases hdc : d = c
    · rw [hdc, hself]
    · rw [hother d hdc, hd]
  have hbefore : ∀ calls, j.server.stage t ≠ .calling calls := by
    intro calls hcalls
    cases hleaving.symm.trans hcalls
  have hfresh : ∀ v m, v ≠ t → j.server.stage v = .accepted m →
      ((j.server.onClientDisconnect t c).conns m.conn).disconnected = false := by
    intro v m _ hm
    rw [hother _ (hundisturbed v m hm)]
    exact (h.fresh v m hm).2
  have harrival : ∀ d, ((j.server.onClientDisconnect t c).conns d).username ≠ [] →
      (j.server.conns d).username ≠ [] := fun d hd => hname d ▸ hd
  by_cases hnamed : (j.server.conns c).username = []
  · have hafter : j.server.onClientDisconnect t c =
        (j.server.setConn c { j.server.conns c with disconnected := true }).goto t .idle := by
      unfold Server.onClientDisconnect
      exact if_pos hnamed
    have hstage : (j.server.onClientDisconnect t c).stage =
        Function.update j.server.stage t .idle := by
      rw [hafter]
      rfl
    rw [if_pos hnamed]
    refine h.compose hbefore (by rw [hafter]; rfl) hstage ?_ ?_ (fun d _ => hname d) hmono hfresh
      (fun d hd => .inl (harrival d hd)) ?_
    · intro m hm
      cases hm
    · intro evt hevt
      cases hevt
    · intro d hd hgone
      have hdc : d ≠ c := by
        rintro rfl
        exact harrival d hd hnamed
      rw [hother d hdc] at hgone
      exact .inl ⟨harrival d hd, hgone⟩
  · have hafter : j.server.onClientDisconnect t c =
        { (j.server.setConn c { j.server.conns c with disconnected := true }).goto t
            (.calling [.broadcast ⟨none, leftLine (j.server.conns c).username, none⟩]) with
          usernames := j.server.usernames.erase (j.server.conns c).username } := by
      unfold Server.onClientDisconnect
      exact if_neg hnamed
    have hstage : (j.server.onClientDisconnect t c).stage = Function.update j.server.stage t
        (.calling [.broadcast ⟨none, leftLine (j.server.conns c).username, none⟩]) := by
      rw [hafter]
      rfl
    rw [if_neg hnamed]
    refine h.compose hbefore (by rw [hafter]; rfl) hstage ?_ ⟨?_, hself, ?_⟩
      (fun d _ => hname d) hmono hfresh (fun d hd => .inl (harrival d hd)) ?_
    · intro m hm
      cases hm
    · rw [hname]
      exact hnamed
    · rw [hname]
    · intro d hd hgone
      by_cases hdc : d = c
      · exact .inr (by rw [hdc])
      · rw [hother d hdc] at hgone
        exact .inl ⟨harrival d hd, hgone⟩

omit [DecidableEq C] in
/-- An event is pushed, a departure only when no arrival of the connection is pending. -/
theorem push {evt : BroadcastEvent C} {calls : List (Call C)} (h : Kept j)
    (hnamed : ∀ c, (j.server.conns c).username ≠ [] →
      j.pending t = some (.departure c) → ∀ w, j.pending (.worker w) ≠ some (.arrival c))
    (hcalling : j.server.stage t = .calling (.broadcast evt :: calls)) :
    Kept {
      server := { j.server.goto t (.after calls) with
        globalQueue := j.server.globalQueue ++ [evt] }
      pending := Function.update j.pending t none
      queue := j.queue ++ [(evt, j.pending t)] } := by
  have hexpects := h.expects t
  rw [hcalling] at hexpects
  have hself : Function.update j.pending t none t = none := Function.update_self ..
  have hother : ∀ v, v ≠ t → Function.update j.pending t none v = j.pending v :=
    fun v hv => Function.update_of_ne hv _ _
  have hmem : ∀ {e}, e ∈ j.queue → e ∈ j.queue ++ [(evt, j.pending t)] :=
    fun he => List.mem_append_left _ he
  have hnew : (evt, j.pending t) ∈ j.queue ++ [(evt, j.pending t)] :=
    List.mem_append_right _ List.mem_cons_self
  refine ⟨h.faithful.push hexpects rfl rfl rfl, ?_, ?_, ?_, ?_, ?_⟩
  · intro v
    change Expects j.server (Function.update j.server.stage t (.after calls) v)
      (Function.update j.pending t none v)
    by_cases hv : v = t
    · rw [hv, Function.update_self, hself]
      exact hexpects.after_push
    · rw [Function.update_of_ne hv, hother v hv]
      exact h.expects v
  · intro v m hm
    change Function.update j.server.stage t (.after calls) v = _ at hm
    by_cases hv : v = t
    · rw [hv, Function.update_self] at hm
      have hlogin := congrArg Stage.logsIn hm
      rw [Stage.logsIn_after] at hlogin
      cases hlogin
    · rw [Function.update_of_ne hv] at hm
      exact h.fresh v m hm
  · intro c hc
    rcases h.announced c hc with ⟨w, hw⟩ | ⟨e, he⟩
    · by_cases hwt : .worker w = t
      · exact .inr ⟨evt, by rw [← hw, hwt]; exact hnew⟩
      · exact .inl ⟨w, (hother _ hwt).trans hw⟩
    · exact .inr ⟨e, hmem he⟩
  · intro c hc hgone
    rcases h.gone c hc hgone with ⟨e, he⟩ | ⟨v, hv⟩
    · exact .inl ⟨e, hmem he⟩
    · by_cases hvt : v = t
      · exact .inl ⟨evt, by rw [← hv, hvt]; exact hnew⟩
      · exact .inr ⟨v, (hother _ hvt).trans hv⟩
  · refine h.ordered.snoc ?_
    intro c hc
    have hc' : j.pending t = some (.departure c) := hc
    rw [hc'] at hexpects
    have hne := hexpects.departure_payload.2.1
    rcases h.announced c hne with ⟨w, hw⟩ | he
    · exact absurd hw (hnamed c hne hc w)
    · exact he

theorem receive {m : Message C} (h : Kept j) (htaken : j.server.stage (.worker w) = .taken m) :
    Kept { j with server := j.server.receive w m } := by
  have hreceived := received (j.server.conns m.conn) j.server.now m
  have hids := Server.apply_setConn identity (s := j.server) (c := m.conn)
    (identity_received hreceived)
  obtain ⟨hexpects, hnot⟩ := expects_received j.server hreceived
  refine h.move (t := .worker w) hids rfl rfl ?_ hexpects hnot
  intro calls hcalls
  cases htaken.symm.trans hcalls

theorem sendFast {c : C} {msg : Text} {calls : List (Call C)} (h : Kept j)
    (hcalling : j.server.stage t = .calling (.sendFast c msg :: calls)) :
    Kept (j.record (.call t)
      ((j.server.setConn c ((j.server.conns c).enqueue msg)).goto t (.after calls))) := by
  have hpushes : pushes j.server (.call t) = none := by simp only [pushes, hcalling]
  have hexpects := h.expects t
  rw [hcalling] at hexpects
  simp only [Journal.record, composes, hpushes]
  refine h.goOn (t := t) ?_ rfl rfl hexpects.after_sendFast ?_
  · exact Server.apply_setConn identity (identity_enqueue _ msg)
  · exact fun m => not_accepted_of_logsIn (Stage.logsIn_after calls) m

omit [DecidableEq C] in
theorem broadcast {evt : BroadcastEvent C} {calls : List (Call C)} (h : Kept j)
    (hcalling : j.server.stage t = .calling (.broadcast evt :: calls))
    (hwaits : ∀ c ∈ departs j (.call t), ∀ w, j.pending (.worker w) ≠ some (.arrival c)) :
    Kept (j.record (.call t) { j.server.goto t (.after calls) with
      globalQueue := j.server.globalQueue ++ [evt] }) := by
  have hpushes : pushes j.server (.call t) = some (t, evt) := by simp only [pushes, hcalling]
  simp only [Journal.record, composes, hpushes]
  refine h.push ?_ hcalling
  intro c _ hc
  refine hwaits c ?_
  simp only [departs, hpushes, hc]
  rfl

omit [DecidableEq C] in
theorem closeAgain {c : C} {calls : List (Call C)} (h : Kept j)
    (hcalling : j.server.stage t = .calling (.close c :: calls)) :
    Kept (j.record (.call t) (j.server.goto t (.after calls))) := by
  have hpushes : pushes j.server (.call t) = none := by simp only [pushes, hcalling]
  have hexpects := h.expects t
  rw [hcalling] at hexpects
  have hnone := hexpects.eq_none_of_close
  simp only [Journal.record, composes, hpushes]
  rw [hnone] at hexpects
  refine h.goOn (t := t) (fun _ => rfl) rfl rfl (hnone ▸ hexpects.after_none) ?_
  exact fun m => not_accepted_of_logsIn (Stage.logsIn_after calls) m

theorem close {c : C} {calls : List (Call C)} (h : Kept j)
    (hcalling : j.server.stage t = .calling (.close c :: calls)) :
    Kept (j.record (.call t)
      ((j.server.setConn c { j.server.conns c with closed := true }).goto t (.leaving c))) := by
  have hpushes : pushes j.server (.call t) = none := by simp only [pushes, hcalling]
  have hexpects := h.expects t
  rw [hcalling] at hexpects
  have hnone := hexpects.eq_none_of_close
  simp only [Journal.record, composes, hpushes]
  refine h.goOn (t := t) (Server.apply_setConn identity rfl) rfl rfl ?_ nofun
  rw [hnone]
  intro evt hevt
  cases hevt

/-- OnClientDisconnect does not come between the insertion of a name and its assignment, so
the journal has the departure of every user that it finds. -/
theorem leave {c : C} (h : Kept j) (htracked : Tracked j.server)
    (hleaving : j.server.stage t = .leaving c)
    (hundisturbed : Undisturbed j.server (.disconnect t)) :
    Kept (j.record (.disconnect t) (j.server.onClientDisconnect t c)) := by
  have hnone : ∀ v m, j.server.stage v = .accepted m → m.conn ≠ c := by
    rintro v m hm rfl
    have hmtx := htracked.locked v m.conn (congrArg Stage.holds hm)
    have hinserted := hundisturbed m.conn (by rw [hleaving]; rfl) v (by rw [hmtx]; rfl)
    rw [hm] at hinserted
    cases hinserted
  have hafter := h.disconnect hleaving hnone
  have hpending : j.pending t = none := by
    refine (h.expects t).eq_none ?_
    intro calls hcalls
    cases hleaving.symm.trans hcalls
  by_cases hnamed : (j.server.conns c).username = []
  · have hcomposes : composes j.server (.disconnect t) = none := by
      simp only [composes, hleaving, hnamed, if_true]
    rw [if_pos hnamed, ← hpending, Function.update_eq_self] at hafter
    simp only [Journal.record, hcomposes, pushes]
    exact hafter
  · have hcomposes : composes j.server (.disconnect t) = some (t, .departure c) := by
      simp only [composes, hleaving, hnamed, if_false]
    rw [if_neg hnamed] at hafter
    simp only [Journal.record, hcomposes]
    exact hafter

theorem step {a : Action C W} (h : Kept j) (htracked : Tracked j.server) (ha : Waits j a)
    (hnext : j.server.next a = some u) : Kept (j.record a u) := by
  cases step_of_next hnext with
  | tick _ => exact h.frame (fun _ => rfl) rfl h.expects h.fresh
  | read hidle _ =>
    refine h.goQuiet (t := .reactor) (fun _ => rfl) rfl rfl ?_ nofun nofun
    exact fun calls hcalls => nomatch hidle.symm.trans hcalls
  | decode _ => exact h.frame (Server.apply_setConn identity rfl) rfl h.expects h.fresh
  | @readDone c shouldClose hreading =>
    refine h.goQuiet (t := .reactor) (fun _ => rfl) rfl rfl ?_ ?_ ?_
    · exact fun calls hcalls => nomatch hreading.symm.trans hcalls
    · cases shouldClose <;> simp [callsLeft]
    · cases shouldClose <;> exact nofun
  | hangUp hidle =>
    refine h.goQuiet (t := .reactor) (fun _ => rfl) rfl rfl ?_ (by simp [callsLeft]) nofun
    exact fun calls hcalls => nomatch hidle.symm.trans hcalls
  | @take w m rest hidle _ =>
    refine h.goQuiet (t := .worker w) (fun _ => rfl) rfl rfl ?_ nofun nofun
    exact fun calls hcalls => nomatch hidle.symm.trans hcalls
  | lock htaken _ => exact h.receive htaken
  | @insert w m hlogin =>
    refine h.insert hlogin fun hfree => ha.1 m ?_ hfree
    rw [hlogin]
    rfl
  | @assign w m haccepted =>
    have hcomposes : composes j.server (.assign w) = some (.worker w, .arrival m.conn) := by
      simp only [composes, haccepted]
    have hwaiting := htracked.waiting (.worker w) m.conn (congrArg Stage.logsIn haccepted)
    simp only [Journal.record, hcomposes]
    exact h.assign haccepted (htracked.unnamed m.conn hwaiting)
  | sendFast hcalling _ => exact h.sendFast hcalling
  | broadcast hcalling => exact h.broadcast hcalling ha.2
  | closeAgain hcalling _ => exact h.closeAgain hcalling
  | close hcalling _ => exact h.close hcalling
  | disconnect hleaving => exact h.leave htracked hleaving ha.1

end Kept

section Results

variable [DecidableEq C] [DecidableEq W] {fd : C → ℕ} {j : Journal C W}

/-- The journal only watches: every run of the server is recorded. -/
theorem exists_journal {s : Server C W} (hs : Reachable (MessageTasks.machine fd) AnyStep s) :
    ∃ j : Journal C W, Reachable (machine fd) AnyStep j ∧ j.server = s := by
  induction hs with
  | init => exact ⟨(machine fd).init, .init, rfl⟩
  | @step s u a _ _ hnext ih =>
    obtain ⟨j, hj, rfl⟩ := ih
    have hserver : (j.record a u).server = u := by
      unfold Journal.record
      split <;> rfl
    have hrecorded : (machine fd).next j a = some (j.record a u) :=
      Option.map_eq_some_iff.mpr ⟨u, hnext, rfl⟩
    exact ⟨j.record a u, .step hj trivial hrecorded, hserver⟩

theorem Kept.of_reachable (hj : Reachable (machine fd) Waits j) :
    Kept j ∧ Reachable (MessageTasks.machine fd) Undisturbed j.server := by
  induction hj with
  | init =>
    refine ⟨⟨⟨rfl, ?_, ?_, ?_⟩, ?_, ?_, ?_, ?_, .nil⟩, .init⟩
    · intro evt c hevt
      cases hevt
    · intro evt c hevt
      cases hevt
    · intro evt hevt
      cases hevt
    · intro t evt hevt
      cases hevt
    · intro t m hm
      cases hm
    · intro c hc
      exact absurd rfl hc
    · intro c hc
      exact absurd rfl hc
  | @step j k a _ ha hnext ih =>
    obtain ⟨hkept, hserver⟩ := ih
    obtain ⟨u, hu, rfl⟩ := Option.map_eq_some_iff.mp hnext
    have hrecorded : (j.record a u).server = u := by
      unfold Journal.record
      split <;> rfl
    refine ⟨hkept.step (Tracked.of_reachable hserver) ha hu, ?_⟩
    rw [hrecorded]
    exact .step hserver ha.1 hu

/-- If no login is disturbed by OnClientDisconnect and no departure is pushed before a
pending arrival, then in every state the departures in `global_queue_` stand behind the
arrivals of their connections, and no user who is gone appears to be present. -/
theorem departures_announced (hj : Reachable (machine fd) Waits j) :
    Faithful j ∧ InOrder j ∧ NoneStays j := by
  have hkept := (Kept.of_reachable hj).1
  refine ⟨hkept.faithful, hkept.ordered, ?_⟩
  intro c evt hevt hgone
  exact hkept.gone c (hkept.faithful.arrival evt c hevt).2 hgone

end Results

section Samples

/-- A client logs in with the name `a`, up to the push of its arrival. -/
def login : List (Action Unit Unit) :=
  [.read (), .decode [97], .readDone false, .take (), .lock (), .insert (), .assign (),
    .call (.worker ())]

/-- The reactor closes the connection, up to the push of its departure. -/
def hangUp : List (Action Unit Unit) :=
  [.hangUp (), .call .reactor, .disconnect .reactor]

theorem departures_announced_sample : ∃ j : Journal Unit Unit,
    j.queue.map Prod.snd = [some (.arrival ()), some (.departure ())] ∧
      Faithful j ∧ InOrder j ∧ NoneStays j := by
  have hrun : (run (machine fun _ => 5) Waits (machine fun _ => 5).init
      (login ++ hangUp ++ [.call (.worker ()), .call .reactor])).any (fun j =>
        j.queue.map Prod.snd = [some (.arrival ()), some (.departure ())]) = true := by
    decide +kernel
  obtain ⟨j, hj, hqueue⟩ := exists_reachable hrun
  exact ⟨j, hqueue, departures_announced hj⟩

/-- The worker is suspended between the login and the push of the arrival: the departure
is announced first. -/
theorem departure_overtakes : ∃ j : Journal Unit Unit, Reachable (machine fun _ => 5) AnyStep j ∧
    j.server.globalQueue.map BroadcastEvent.payload = [leftLine [97], joinLine [97]] ∧
      ¬ InOrder j := by
  have hrun : (run (machine fun _ => 5) AnyStep (machine fun _ => 5).init
      (login ++ hangUp ++ [.call .reactor, .call (.worker ())])).any (fun j =>
        j.server.globalQueue.map BroadcastEvent.payload = [leftLine [97], joinLine [97]] ∧
          j.queue.map Prod.snd = [some (.departure ()), some (.arrival ())]) = true := by
    decide +kernel
  obtain ⟨j, hj, htexts, hqueue⟩ := exists_reachable hrun
  refine ⟨j, hj, htexts, fun h => ?_⟩
  obtain ⟨e, rest, heq, he, _⟩ := List.map_eq_cons_iff.mp hqueue
  obtain ⟨evt, hevt⟩ := h [] e rest heq () he
  cases hevt

end Samples

end ChatServer.MessageTasks.Departure
