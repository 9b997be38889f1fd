import ChatServer.AppendedPackets
import ChatServer.LogicThread

/-!
The order in which the logic thread handles the events of a connection.
HandleConnect comes first, and nothing is done for the connection after
HandleDisconnect. A message that was pushed before the end of the connection is
handled before it, or not at all, depending on when its event is examined.
-/
namespace ChatServer.EventOrder

open ServerSystem LifeCycle AppendedPackets Lib.Runs Lib.History

/-- The entry is a call of a handler for the connection, or an append to it. -/
def Concerns (conn : ConnId) : Entry → Prop
  | .call evt => evt.conn = conn
  | .append _ receiver _ => receiver = conn
  | _ => False

/-- What holds of the order of the calls: the first one for a connection is
HandleConnect, and after HandleDisconnect nothing is done for it. -/
structure Ordered (s : Life) : Prop where
  alive : ∀ evt, s.held = .entering evt →
    ∀ d ∈ calls s.log, d.type = .disconnect → evt.conn ≠ d.conn
  met : ∀ evt, s.held = .entering evt → evt.type = .message →
    ∃ k ∈ calls s.log, k.type = .connect ∧ k.conn = evt.conn
  buried : Justified (fun before e => ∀ d ∈ calls before, d.type = .disconnect →
    ¬ Concerns d.conn e) s.log
  introduced : Justified (fun before e => ∀ evt, e = .call evt → evt.type = .message →
    ∃ k ∈ calls before, k.type = .connect ∧ k.conn = evt.conn) s.log

/-- What holds of the life of the connections at all times. -/
structure Lived (s : Life) : Prop where
  fifo : Fifo s
  flagged : Flagged s
  counted : Counted s
  ordered : Ordered s

namespace Lived

variable {s t : Life}

theorem mem_examined_of_passed (h : Lived s) {evt : Queued}
    (hevt : evt ∈ calls s.log ++ s.held.admitted) : evt ∈ (examined s.log).map Prod.fst := by
  rw [h.fifo.called] at hevt
  obtain ⟨x, hx, rfl⟩ := List.mem_map.mp hevt
  exact List.mem_map_of_mem (List.mem_of_mem_filter hx)

theorem mem_examined_of_called (h : Lived s) {evt : Queued} (hevt : evt ∈ calls s.log) :
    evt ∈ (examined s.log).map Prod.fst :=
  h.mem_examined_of_passed (List.mem_append_left _ hevt)

theorem mem_pushes_of_examined (h : Lived s) {evt : Queued}
    (hevt : evt ∈ (examined s.log).map Prod.fst) : evt ∈ pushes s.log := by
  rw [h.fifo.queue]
  exact List.mem_append_left _ (List.mem_append_left _ hevt)

theorem mem_pushes_of_entering (h : Lived s) {evt : Queued} (hheld : s.held = .entering evt) :
    evt ∈ pushes s.log :=
  h.mem_pushes_of_examined (h.mem_examined_of_passed (by simp [hheld, Held.admitted]))

/-- The flag of a connection with a DISCONNECT event has been exchanged. -/
theorem closed_of_disconnect (h : Lived s) {d : Queued} (hd : d ∈ pushes s.log)
    (htype : d.type = .disconnect) : s.flag d.conn = some true := by
  have hpos : 0 < pushed s.log .disconnect d.conn :=
    List.countP_pos_iff.mpr ⟨d, hd, by simp [htype]⟩
  have hcount := h.counted.disconnects d.conn
  by_contra hopen
  rw [if_neg hopen] at hcount
  omega

theorem closed_of_called (h : Lived s) {d : Queued} (hd : d ∈ calls s.log)
    (htype : d.type = .disconnect) : s.flag d.conn = some true := by
  exact h.closed_of_disconnect (h.mem_pushes_of_examined (h.mem_examined_of_called hd)) htype

/-- A connection has one DISCONNECT event. -/
theorem disconnect_unique (h : Lived s) {d d' : Queued} (hd : d ∈ pushes s.log)
    (hd' : d' ∈ pushes s.log) (htype : d.type = .disconnect) (htype' : d'.type = .disconnect)
    (hconn : d.conn = d'.conn) : d = d' := by
  have hcount := h.counted.disconnects d.conn
  have hone : ((pushes s.log).filter fun evt => evt.type = .disconnect ∧
      evt.conn = d.conn).length ≤ 1 := by
    rw [← List.countP_eq_length_filter]
    change pushed s.log .disconnect d.conn ≤ 1
    have hflag : (if s.flag d.conn = some true then 1 else 0) ≤ 1 := by
      split <;> omega
    omega
  have hin : d ∈ (pushes s.log).filter fun evt => evt.type = .disconnect ∧ evt.conn = d.conn :=
    List.mem_filter.mpr ⟨hd, by simp [htype]⟩
  have hin' : d' ∈ (pushes s.log).filter fun evt => evt.type = .disconnect ∧ evt.conn = d.conn :=
    List.mem_filter.mpr ⟨hd', by simp [htype', hconn]⟩
  obtain ⟨only, honly⟩ := List.length_eq_one_iff.mp
    (Nat.le_antisymm hone (List.length_pos_of_mem hin))
  rw [honly, List.mem_singleton] at hin hin'
  exact hin.trans hin'.symm

/-- A connection whose event is let through has not been buried. -/
theorem alive_of_pass (h : Lived s) {evt : Queued} {closed : Bool}
    (hheld : s.held = .taken evt) (hclosed : closed = true ↔ s.flag evt.conn = some true)
    (hpass : closed = false ∨ evt.type = .disconnect) {d : Queued} (hd : d ∈ calls s.log)
    (htype : d.type = .disconnect) : evt.conn ≠ d.conn := by
  intro hconn
  have hseen := h.mem_examined_of_called hd
  have hset := h.closed_of_called hd htype
  have hqueue := h.fifo.queue
  rw [hheld] at hqueue
  simp only [Held.unexamined] at hqueue
  rcases hpass with hopen | hevt
  · rw [← hconn] at hset
    rw [hclosed.mpr hset] at hopen
    cases hopen
  · have hsame : d = evt := by
      refine h.disconnect_unique ?_ ?_ htype hevt hconn.symm
      · simp [hqueue, hseen]
      · simp [hqueue]
    have hnodup := h.fifo.nodup
    rw [hqueue, List.append_assoc] at hnodup
    exact (List.disjoint_of_nodup_append hnodup) hseen (by simp [hsame])

/-- HandleConnect was called before a MESSAGE event is let through. -/
theorem met_of_pass (h : Lived s) {evt : Queued} {closed : Bool}
    (hheld : s.held = .taken evt) (hclosed : closed = true ↔ s.flag evt.conn = some true)
    (hpass : closed = false ∨ evt.type = .disconnect) (hmessage : evt.type = .message) :
    ∃ k ∈ calls s.log, k.type = .connect ∧ k.conn = evt.conn := by
  have hqueue := h.fifo.queue
  have hcalled := h.fifo.called
  rw [hheld] at hqueue hcalled
  simp only [Held.unexamined, Held.admitted, List.append_nil] at hqueue hcalled
  have hsplit : pushes s.log = (examined s.log).map Prod.fst ++ evt :: s.queue := by
    simpa using hqueue
  obtain ⟨k, hk, hconnect, hconn⟩ := h.counted.introduced _ evt _ hsplit hmessage
  obtain ⟨⟨k, read⟩, hread, rfl⟩ := List.mem_map.mp hk
  have hopen : closed = false := by
    rcases hpass with hopen | hevt
    · exact hopen
    · rw [hmessage] at hevt
      cases hevt
  have hpassed : passes (k, read) = true := by
    cases read with
    | false => rfl
    | true =>
      have hset := h.flagged.of_examined hread
      have hsame : s.flag evt.conn = some true := hconn ▸ hset
      rw [hclosed.mpr hsame] at hopen
      cases hopen
  refine ⟨k, ?_, hconnect, hconn⟩
  rw [hcalled]
  exact List.mem_map_of_mem (f := Prod.fst) (List.mem_filter.mpr ⟨hread, hpassed⟩)

theorem ordered_step (h : Lived s) (hstep : s.Step t) : Ordered t := by
  -- An entry that is no call and no append leaves the order of the calls alone.
  have hother : ∀ e, calledBy e = none → (∀ conn, ¬ Concerns conn e) →
      ∀ u : Life, u.log = s.log ++ [e] → u.held = s.held → Ordered u := by
    intro e hcalled hconcerns u hlog hheld
    have hcalls : calls u.log = calls s.log := by
      rw [hlog, calls_snoc, hcalled]
      simp
    refine ⟨?_, ?_, ?_, ?_⟩
    · rw [hheld, hcalls]
      exact h.ordered.alive
    · rw [hheld, hcalls]
      exact h.ordered.met
    · rw [hlog]
      exact h.ordered.buried.snoc fun d _ _ => hconcerns d.conn
    · rw [hlog]
      refine h.ordered.introduced.snoc ?_
      rintro evt rfl
      cases hcalled
  cases hstep with
  | quiet => exact h.ordered
  | accept hnew hopening hclosing =>
    exact ⟨h.ordered.alive, h.ordered.met, h.ordered.buried, h.ordered.introduced⟩
  | announce hopening => exact hother _ rfl (fun _ => id) _ rfl rfl
  | message payload hopening hknown => exact hother _ rfl (fun _ => id) _ rfl rfl
  | reactorClose hopen hopening hclosing => exact hother _ rfl (fun _ => id) _ rfl rfl
  | reactorPush hclosing => exact hother _ rfl (fun _ => id) _ rfl rfl
  | logicClose hopen hclosing => exact hother _ rfl (fun _ => id) _ rfl rfl
  | logicPush hclosing => exact hother _ rfl (fun _ => id) _ rfl rfl
  | take hheld hqueue => exact ⟨nofun, nofun, h.ordered.buried, h.ordered.introduced⟩
  | discard hheld hclosed htype =>
    exact ⟨nofun, nofun, h.ordered.buried.snoc fun _ _ _ => id, h.ordered.introduced.snoc nofun⟩
  | @pass evt closed hheld hclosed hpass =>
    refine ⟨?_, ?_, h.ordered.buried.snoc fun _ _ _ => id, h.ordered.introduced.snoc nofun⟩
    · intro evt' hevt d hd htype
      cases hevt
      exact h.alive_of_pass hheld hclosed hpass (by simpa using hd) htype
    · intro evt' hevt hmessage
      cases hevt
      simpa using h.met_of_pass hheld hclosed hpass hmessage
  | @call evt hheld =>
    refine ⟨nofun, nofun, h.ordered.buried.snoc ?_, h.ordered.introduced.snoc ?_⟩
    · exact fun d hd htype => h.ordered.alive evt hheld d hd htype
    · intro evt' hevt hmessage
      cases hevt
      exact h.ordered.met evt hheld hmessage
  | @append evt conn msg hopen =>
    refine ⟨?_, ?_, h.ordered.buried.snoc ?_, h.ordered.introduced.snoc nofun⟩
    · simpa using h.ordered.alive
    · simpa using h.ordered.met
    · intro d hd htype hconn
      have hclosed := h.closed_of_called hd htype
      rw [← hconn, hopen] at hclosed
      cases hclosed

theorem step (h : Lived s) (hstep : s.Step t) : Lived t :=
  ⟨h.fifo.step hstep, h.flagged.step hstep, h.counted.step hstep, h.ordered_step hstep⟩

theorem init {n : ℕ} : Lived (life (System.init : System n)) := by
  have hflag : ∀ conn, flag (.init : Broadcast.Server n) conn = none := fun _ => rfl
  refine ⟨⟨rfl, rfl, rfl⟩, ⟨?_, .nil⟩, ⟨?_, ?_, nofun, .nil⟩, ⟨nofun, nofun, .nil, .nil⟩⟩
  · intro conn
    simp [life, hflag, System.init]
  · intro conn
    simp [life, hflag, System.init, pushed, pushes]
  · intro conn
    simp [life, hflag, System.init, pushed, pushes, reactorClosing, logicClosing]

end Lived

section Runs

variable {n : ℕ} {setup : Setup} {allowed : System n → Action n → Prop} {s : System n}

theorem lived (hs : Reachable (machine setup n) allowed s) : Lived (life s) := by
  refine hs.invariant (P := fun s => Lived (life s)) .init ?_
  intro s a t h _ hnext
  exact h.step (next_life hnext)

/-- A connection is open as long as its flag was not exchanged. -/
theorem open_of_log (hs : Reachable (machine setup n) allowed s) {conn : ConnId}
    (hlog : .exchange conn ∉ s.log) : s.isClosed conn = false := by
  rw [← Bool.not_eq_true, isClosed_iff]
  intro hflag
  exact hlog (((lived hs).flagged.exchanged conn).mpr hflag)

/-- The event of a connection whose flag was not exchanged is let through. -/
theorem entering_reachable (hs : Reachable (machine setup n) allowed s)
    (hallowed : allowed s .examine) {evt : Queued} (hlogic : s.logic = .taken evt)
    (hlog : .exchange evt.conn ∉ s.log) :
    Reachable (machine setup n) allowed
      ((s.record (.examine evt false)).setLogic (.entering evt)) := by
  have hopen := open_of_log hs hlog
  refine .step (a := .examine) hs hallowed ?_
  show System.next setup s .examine = _
  simp only [System.next, hlogic, hopen, Bool.false_eq_true, false_and, if_false]

/-- Whichever thread closes a connection, and however often: it has one CONNECT
event, pushed by accept_loop, and at most one DISCONNECT event; HandleConnect
comes before each HandleMessage; after HandleDisconnect no handler is called
for it; and whatever steps follow, nothing is appended to its queue. -/
theorem life_cycle (hs : Reachable (machine setup n) allowed s) (conn : ConnId) :
    pushed s.log .connect conn =
        (if (s.net.conns conn).isSome ∧ opening s.reactor ≠ some conn then 1 else 0) ∧
      pushed s.log .disconnect conn ≤ 1 ∧
      (∀ before evt after, s.log = before ++ .call evt :: after → evt.type = .message →
        ∃ k ∈ calls before, k.type = .connect ∧ k.conn = evt.conn) ∧
      (∀ before d after, s.log = before ++ .call d :: after → d.type = .disconnect →
        ∀ e ∈ after, ¬ Concerns d.conn e) ∧
      ∀ d ∈ calls s.log, d.type = .disconnect →
        ∀ as t, run (machine setup n) AnyStep s as = some t →
          appended t.net d.conn = appended s.net d.conn := by
  have h := lived hs
  refine ⟨?_, ?_, ?_, ?_, ?_⟩
  · have hconnects := h.counted.connects conn
    simpa [life, flag, Option.isSome_iff_ne_none] using hconnects
  · have hcount := h.counted.disconnects conn
    have hflag : (if (life s).flag conn = some true then 1 else 0) ≤ 1 := by
      split <;> omega
    change pushed (life s).log .disconnect conn ≤ 1
    omega
  · intro before evt after hlog
    exact h.ordered.introduced before _ after hlog evt rfl
  · intro before d after hlog htype e he
    obtain ⟨between, rest, rfl⟩ := List.append_of_mem he
    have hsplit : s.log = (before ++ .call d :: between) ++ e :: rest := by simpa using hlog
    exact h.ordered.buried _ e rest hsplit d (mem_calls.mpr (by simp)) htype
  · intro d hd htype as t hrun
    exact appended_closed ((isClosed_iff s d.conn).mpr (h.closed_of_called hd htype)) hrun

/-- All that has been pushed has been examined. -/
def Drained (s : System n) : Prop := s.eventQueue = [] ∧ s.logic = .idle

instance (s : System n) : Decidable (Drained s) := inferInstanceAs (Decidable (_ ∧ _))

/-- A message whose event was pushed before the DISCONNECT event of its
connection is handled before HandleDisconnect if ProcessEvent examined it
before the flag was exchanged, and otherwise never. -/
theorem message_before_end (hs : Reachable (machine setup n) allowed s) (hdrained : Drained s)
    {evt d : Queued} (hevt : evt.type = .message) (hd : d.type = .disconnect)
    (hpushed : [evt, d].Sublist (pushes s.log)) :
    d ∈ calls s.log ∧ ∃ before closed after, s.log = before ++ .examine evt closed :: after ∧
      (closed = true ↔ .exchange evt.conn ∈ before) ∧
      (closed = false → [evt, d].Sublist (calls s.log)) ∧ (closed = true → evt ∉ calls s.log) := by
  have h := lived hs
  have hqueue : pushes s.log = (examined s.log).map Prod.fst := by
    simpa [life, hdrained.1, hdrained.2, held, Held.unexamined] using h.fifo.queue
  have hcalls : calls s.log = ((examined s.log).filter passes).map Prod.fst := by
    simpa [life, hdrained.2, held, Held.admitted] using h.fifo.called
  have hnodup : ((examined s.log).map Prod.fst).Nodup := hqueue ▸ h.fifo.nodup
  rw [hqueue] at hpushed
  obtain ⟨read, hread, hpair⟩ := List.sublist_map_iff.mp hpushed
  obtain ⟨x, y, rfl⟩ : ∃ x y, read = [x, y] :=
    List.length_eq_two.mp (by simpa using (congrArg List.length hpair).symm)
  obtain ⟨x, closed⟩ := x
  obtain ⟨y, closed'⟩ := y
  simp only [List.map_cons, List.map_nil, List.cons.injEq, and_true] at hpair
  obtain ⟨rfl, rfl⟩ := hpair
  have hlast : passes (d, closed') = true := by simp [passes, hd]
  have hkept := hread.filter passes
  rw [hcalls]
  refine ⟨?_, ?_⟩
  · have hin : (d, closed') ∈ (examined s.log).filter passes :=
      List.mem_filter.mpr ⟨hread.subset (by simp), hlast⟩
    exact List.mem_map_of_mem (f := Prod.fst) hin
  have hseen : (evt, closed) ∈ examined s.log := hread.subset (by simp)
  obtain ⟨before, after, hlog⟩ := List.append_of_mem (mem_examined.mp hseen)
  refine ⟨before, closed, after, hlog, h.flagged.read before _ after hlog evt closed rfl, ?_, ?_⟩
  · rintro rfl
    have hfirst : passes (evt, false) = true := rfl
    simpa [hfirst, hlast] using hkept.map Prod.fst
  · rintro rfl hcalled
    -- Examined once, so examined closed, and no message passes then.
    obtain ⟨⟨evt', closed⟩, hin, rfl⟩ := List.mem_map.mp hcalled
    obtain ⟨hin, hpassed⟩ := List.mem_filter.mp hin
    have hsame := List.inj_on_of_nodup_map hnodup hin hseen rfl
    cases hsame
    have htype : evt'.type = .disconnect := by simpa [passes] using hpassed
    cases hevt.symm.trans htype

end Runs

section Samples

open LogicThread (sampleParser sampleEnv)

def sampleSetup : Setup := ⟨Broadcast.sampleKernel, sampleParser, fun _ => []⟩

/-- The steps of accept_loop for one connection. -/
def acceptSteps {n : ℕ} (conn : ConnId) (fd : ℕ) : List (Action n) :=
  [.accept conn fd 0, .register, .pushConnect]

/-- The steps of close_conn on the reactor. -/
def closeSteps {n : ℕ} (conn : ConnId) : List (Action n) :=
  [.close conn, .reactorPush, .reactorErase]

/-- The logic thread handles an event; the handler makes `outputs` calls. -/
def handleSteps {n : ℕ} (outputs : ℕ) : List (Action n) :=
  [.take, .examine, .call sampleEnv] ++ List.replicate (outputs + 1) .output

/-- A message is queued behind the end of its connection. -/
theorem life_cycle_sample :
    ∃ s t : System 1, Reachable (machine sampleSetup 1) AnyStep s ∧
      ⟨1, ⟨.disconnect, 0, none⟩⟩ ∈ calls s.log ∧
      run (machine sampleSetup 1) AnyStep s ([.output, .take, .examine] : List (Action 1)) =
        some t ∧
      pushed s.log .disconnect 0 ≤ 1 ∧ appended t.net 0 = appended s.net 0 ∧
      t.log = s.log ++ [.examine ⟨2, ⟨.message, 0, some []⟩⟩ true] ∧
      ∀ e ∈ t.log.drop s.log.length, ¬ Concerns 0 e := by
  have hrun : (run (machine sampleSetup 1) AnyStep System.init
      (acceptSteps 0 7 ++ handleSteps 0 ++ closeSteps 0 ++ [.message 0 [], .take, .examine,
        .call sampleEnv])).any (fun s =>
      s.log = ([.push ⟨0, ⟨.connect, 0, none⟩⟩, .examine ⟨0, ⟨.connect, 0, none⟩⟩ false,
        .call ⟨0, ⟨.connect, 0, none⟩⟩, .exchange 0, .push ⟨1, ⟨.disconnect, 0, none⟩⟩,
        .push ⟨2, ⟨.message, 0, some []⟩⟩, .examine ⟨1, ⟨.disconnect, 0, none⟩⟩ true,
        .call ⟨1, ⟨.disconnect, 0, none⟩⟩] : List Entry) ∧
      (run (machine sampleSetup 1) AnyStep s
        ([.output, .take, .examine] : List (Action 1))).any (fun t =>
          t.log = s.log ++ [.examine ⟨2, ⟨.message, 0, some []⟩⟩ true]) = true) := by
    decide +kernel
  obtain ⟨s, hs, hlog, hlater⟩ := exists_reachable hrun
  obtain ⟨t, ht, hmore⟩ := (Option.any_eq_true _ _).mp hlater
  have hmore := of_decide_eq_true hmore
  have hcalled : ⟨1, ⟨.disconnect, 0, none⟩⟩ ∈ calls s.log := by
    rw [hlog]
    decide
  obtain ⟨_, honce, _, _, hsame⟩ := life_cycle hs 0
  obtain ⟨_, _, _, hafter, _⟩ := life_cycle (reachable_of_run hs ht) 0
  refine ⟨s, t, hs, hcalled, ht, honce, hsame _ hcalled rfl _ t ht, hmore, ?_⟩
  rw [hmore, List.drop_left]
  refine hafter (s.log.dropLast) ⟨1, ⟨.disconnect, 0, none⟩⟩ _ ?_ rfl
  rw [hmore, hlog]
  rfl

theorem message_before_end_sample :
    ∃ s : System 1, Reachable (machine sampleSetup 1) AnyStep s ∧ Drained s ∧
      ⟨2, ⟨.disconnect, 0, none⟩⟩ ∈ calls s.log := by
  have hrun : (run (machine sampleSetup 1) AnyStep System.init
      (acceptSteps 0 7 ++ handleSteps 0 ++ [.message 0 []] ++ handleSteps 0 ++ closeSteps 0 ++
        handleSteps 0)).any (fun s =>
      Drained s ∧ pushes s.log = [⟨0, ⟨.connect, 0, none⟩⟩, ⟨1, ⟨.message, 0, some []⟩⟩,
        ⟨2, ⟨.disconnect, 0, none⟩⟩]) := by
    decide +kernel
  obtain ⟨s, hs, hdrained, hpushes⟩ := exists_reachable hrun
  have hpair : [⟨1, ⟨.message, 0, some []⟩⟩, ⟨2, ⟨.disconnect, 0, none⟩⟩].Sublist
      (pushes s.log) := by
    rw [hpushes]
    exact List.sublist_cons_self _ _
  refine ⟨s, hs, hdrained, ?_⟩
  exact (message_before_end hs hdrained (by rfl) (by rfl) hpair).1

/-- A message and the end of its connection, before the logic thread comes to
examine the message. -/
theorem message_before_end_discarded :
    ∃ s : System 1, Reachable (machine sampleSetup 1) AnyStep s ∧ Drained s ∧
      s.reactor = .idle ∧
      (∃ before after, s.log = before ++
        [.push ⟨1, ⟨.message, 0, some []⟩⟩, .exchange 0, .push ⟨2, ⟨.disconnect, 0, none⟩⟩] ++
          after) ∧
      ⟨2, ⟨.disconnect, 0, none⟩⟩ ∈ calls s.log ∧ ⟨1, ⟨.message, 0, some []⟩⟩ ∉ calls s.log := by
  have hrun : (run (machine sampleSetup 1) AnyStep System.init
      (acceptSteps 0 7 ++ handleSteps 0 ++ [.message 0 []] ++ closeSteps 0 ++
        [.take, .examine] ++ handleSteps 0)).any (fun s =>
      Drained s ∧ s.reactor = .idle ∧
        s.log = ([.push ⟨0, ⟨.connect, 0, none⟩⟩, .examine ⟨0, ⟨.connect, 0, none⟩⟩ false,
          .call ⟨0, ⟨.connect, 0, none⟩⟩] : List Entry) ++
          ([.push ⟨1, ⟨.message, 0, some []⟩⟩, .exchange 0,
            .push ⟨2, ⟨.disconnect, 0, none⟩⟩] : List Entry) ++
          ([.examine ⟨1, ⟨.message, 0, some []⟩⟩ true,
            .examine ⟨2, ⟨.disconnect, 0, none⟩⟩ true,
            .call ⟨2, ⟨.disconnect, 0, none⟩⟩] : List Entry)) := by
    decide +kernel
  obtain ⟨s, hs, hdrained, hreactor, hlog⟩ := exists_reachable hrun
  refine ⟨s, hs, hdrained, hreactor, ⟨_, _, hlog⟩, ?_, ?_⟩
  · rw [hlog]
    decide
  · rw [hlog]
    decide

end Samples

end ChatServer.EventOrder
