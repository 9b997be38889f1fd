import Mathlib.Tactic.Linarith
import ChatServer.BroadcastOrder
import ChatServer.EventOrder
import ChatServer.Recipients

/-!
The reply to a login. Until its LoginRequest is handled a connection is in
nobody's directory, so the handlers send it nothing, and HandleLogin sends the
reply before anything else. A broadcast goes to every open connection of its
shard, so the reply comes first only if no shard task is there before it.
-/
namespace ChatServer.LoginReply

open ServerSystem LifeCycle AppendedPackets EventOrder Recipients Lib.Runs

section Session

variable {app : ChatApp} {env : Env} {clock : ℚ} {id : ConnId}

/-- A connection that has not logged in, with all its tokens. -/
structure Fresh (app : ChatApp) (clock : ℚ) (id : ConnId) : Prop where
  session : ∀ s, app.userData id = some s →
    s.isLoggedIn = false ∧ s.tokens = 60 ∧ s.lastRefill ≤ clock
  unlisted : ¬ Listed app id

namespace Fresh

theorem later {now : ℚ} (h : Fresh app clock id) (hclock : clock ≤ now) : Fresh app now id := by
  refine ⟨?_, h.unlisted⟩
  intro s hs
  obtain ⟨hout, htokens, hrefill⟩ := h.session s hs
  exact ⟨hout, htokens, hrefill.trans hclock⟩

/-- The events of other connections leave it as it is, and send it nothing. -/
theorem other (parse : Parser) {evt : NetworkEvent} (h : Fresh app clock id)
    (hclock : clock ≤ env.now) (hevt : evt.conn ≠ id) :
    Fresh (app.processEvent parse env false evt).1 env.now id ∧
      ∀ msg, .sendProto id msg ∉ (app.processEvent parse env false evt).2 := by
  refine ⟨⟨?_, ?_⟩, ?_⟩
  · intro s hs
    rw [processEvent_userData_of_ne hevt.symm] at hs
    exact (h.later hclock).session s hs
  · intro hlisted
    rcases listed_after hlisted with heq | hbefore
    · exact hevt heq.symm
    · exact h.unlisted hbefore
  · intro msg hmsg
    rcases recipient hmsg with heq | hbefore
    · exact hevt heq.symm
    · exact h.unlisted hbefore

/-- So do HandleConnect and HandleDisconnect of the connection itself. -/
theorem own (parse : Parser) {evt : NetworkEvent} (h : Fresh app clock id)
    (hclock : clock ≤ env.now) (hevt : evt.conn = id) (htype : evt.type ≠ .message) :
    Fresh (app.processEvent parse env false evt).1 env.now id ∧
      ∀ msg, .sendProto id msg ∉ (app.processEvent parse env false evt).2 := by
  obtain ⟨type, conn, payload⟩ := evt
  cases hevt
  cases type with
  | message => exact absurd rfl htype
  | connect =>
    refine ⟨⟨?_, h.unlisted⟩, by simp [ChatApp.processEvent]⟩
    intro s hs
    have hnew : some (ChatSession.new env.now) = some s :=
      ChatApp.setSession_userData_self.symm.trans hs
    cases hnew
    exact ⟨rfl, rfl, le_refl _⟩
  | disconnect =>
    have hnothing : app.handleDisconnect env conn = (app, []) := by
      unfold ChatApp.handleDisconnect
      split
      · rfl
      · rename_i s hs
        rw [if_neg (by simp [(h.session s hs).1])]
    have hprocess : app.processEvent parse env false ⟨.disconnect, conn, payload⟩ = (app, []) :=
      hnothing
    rw [hprocess]
    exact ⟨h.later hclock, by simp⟩

/-- A LoginRequest is answered, and nobody else gets a message. -/
theorem login {parse : Parser} {evt : NetworkEvent} {payload : Bytes} {req : LoginRequest}
    (h : Fresh app clock id) (hclock : clock ≤ env.now) (hevt : evt.conn = id)
    (htype : evt.type = .message) (hpayload : evt.payload = some payload)
    (hparse : parse payload = some (.login req)) :
    app.processEvent parse env false evt = (app, []) ∨
      ∃ resp, (app.processEvent parse env false evt).2 =
        [.sendProto id (.loginResponse resp)] := by
  obtain ⟨type, conn, payload'⟩ := evt
  cases hevt
  cases htype
  cases hpayload
  have hprocess : app.processEvent parse env false ⟨.message, conn, some payload⟩ =
      app.handleMessage parse env conn payload := rfl
  rw [hprocess]
  unfold ChatApp.handleMessage
  split
  · exact Or.inl rfl
  · rename_i s hs
    obtain ⟨_, htokens, hrefill⟩ := h.session s hs
    have hpaid : ¬ (s.refill env.now).tokens < 1 := by
      have helapsed : 0 ≤ env.now - s.lastRefill := sub_nonneg.mpr (hrefill.trans hclock)
      unfold ChatSession.refill
      dsimp only
      split <;> linarith
    right
    rw [hparse]
    dsimp only
    rw [if_neg hpaid]
    unfold ChatApp.dispatch ChatApp.handleLogin
    dsimp only
    split
    · exact ⟨_, rfl⟩
    · exact ⟨_, rfl⟩

end Fresh

end Session

/-- The MESSAGE events that were pushed for a connection. -/
def requests (log : List Entry) (id : ConnId) : List Queued :=
  (pushes log).filter fun evt => evt.type = .message ∧ evt.conn = id

/-- The payload of the event is a LoginRequest. -/
def isLogin (parse : Parser) (evt : Queued) : Bool :=
  match evt.event.payload.bind parse with
  | some (.login _) => true
  | _ => false

/-- So far the client has sent one LoginRequest at most, and nothing else. -/
def OnlyLogin (parse : Parser) (log : List Entry) (id : ConnId) : Prop :=
  (requests log id).length ≤ 1 ∧ ∀ evt ∈ requests log id, isLogin parse evt = true

instance (parse : Parser) (log : List Entry) (id : ConnId) : Decidable (OnlyLogin parse log id) :=
  inferInstanceAs (Decidable (_ ∧ _))

def appendsTo (id : ConnId) : Entry → Bool
  | .append _ conn _ => conn = id
  | _ => false

/-- SendPreEncoded has appended a message to the queue of the connection. -/
def Answered (log : List Entry) (id : ConnId) : Prop := ∃ e ∈ log, appendsTo id e = true

instance (log : List Entry) (id : ConnId) : Decidable (Answered log id) :=
  inferInstanceAs (Decidable (∃ e ∈ log, _))

/-- A shard task that has something to append to the queue of the connection
finds the connection answered, unless more than one LoginRequest has come from it. -/
def AfterReply {n : ℕ} (setup : Setup) (id : ConnId) (s : System n) : Action n → Prop
  | .net (.turn w) =>
      match s.net.workers w, s.net.conns id with
      | some ⟨task, some (receiver :: _)⟩, some conn =>
          receiver = id → Answered s.log id ∨ ¬ OnlyLogin setup.parse s.log id ∨
            conn.closed = true ∨
            ShardTask.keptEvents conn.fd conn.outgoingQueue.length task.batch.events = []
      | _, _ => True
  | _ => True

instance {n : ℕ} (setup : Setup) (id : ConnId) (s : System n) (a : Action n) :
    Decidable (AfterReply setup id s a) := by
  unfold AfterReply
  repeat' split
  all_goals infer_instance

/-- The calls that the logic thread has yet to carry out. -/
def outputs : LogicStage → List Output
  | .sending _ outputs => outputs
  | .notifying _ outputs => outputs
  | .closing _ _ outputs => outputs
  | _ => []

section Steps

variable {n : ℕ} {setup : Setup} {s t : System n} {a : Action n} {id : ConnId}

theorem exists_of_isLogin {parse : Parser} {evt : Queued} (h : isLogin parse evt = true) :
    ∃ payload req, evt.event.payload = some payload ∧ parse payload = some (.login req) := by
  unfold isLogin at h
  split at h
  · rename_i req hrequest
    obtain ⟨payload, hpayload, hparse⟩ := Option.bind_eq_some_iff.mp hrequest
    exact ⟨payload, req, hpayload, hparse⟩
  · cases h

theorem requests_append (log more : List Entry) :
    requests (log ++ more) id = requests log id ++ requests more id := by
  simp [requests, pushes]

theorem OnlyLogin.before {parse : Parser} {log more : List Entry}
    (h : OnlyLogin parse (log ++ more) id) : OnlyLogin parse log id := by
  rw [OnlyLogin, requests_append, List.length_append] at h
  obtain ⟨hone, hlogin⟩ := h
  exact ⟨by omega, fun evt hevt => hlogin evt (List.mem_append_left _ hevt)⟩

theorem answered_snoc {log : List Entry} {e : Entry} :
    Answered (log ++ [e]) id ↔ Answered log id ∨ appendsTo id e = true := by
  simp [Answered, or_and_right, exists_or]

/-- A step adds one entry to the log at most. -/
theorem next_log (hnext : s.next setup a = some t) : ∃ more, t.log = s.log ++ more := by
  cases System.next_steps hnext with
  | pushConnect hstage => exact ⟨_, rfl⟩
  | message payload hidle hknown => exact ⟨_, rfl⟩
  | close hidle hopen hnet => exact ⟨_, rfl⟩
  | reactorPush hstage => exact ⟨_, rfl⟩
  | discard hstage hclosed htype => exact ⟨_, rfl⟩
  | pass hstage hpass => exact ⟨_, rfl⟩
  | call hstage hclock => exact ⟨_, rfl⟩
  | append hstage hopen hnet => exact ⟨_, rfl⟩
  | logicClose hstage hopen hnet => exact ⟨_, rfl⟩
  | logicPush hstage => exact ⟨_, rfl⟩
  | _ => exact ⟨[], (List.append_nil _).symm⟩

end Steps

/-- How far the login of a connection has come. -/
inductive Phase {n : ℕ} (setup : Setup) (s : System n) (id : ConnId) : Prop
  | fresh (hfresh : Fresh s.app s.clock id) (hsilent : ∀ msg, .sendProto id msg ∉ outputs s.logic)
      (hlog : ¬ Answered s.log id) (hnothing : appended s.net id = [])
  | replying {evt : Queued} {resp : LoginResponse} (hevt : evt ∈ requests s.log id)
      (hlogic : s.logic = .sending evt [.sendProto id (.loginResponse resp)])
      (hlog : ¬ Answered s.log id) (hnothing : appended s.net id = [])
  | replied {evt : Queued} {resp : LoginResponse} {rest : List SharedPayload}
      (hevt : evt ∈ requests s.log id) (hentry : .append evt id (.loginResponse resp) ∈ s.log)
      (hfirst : appended s.net id = ⟨setup.encode (.loginResponse resp), none⟩ :: rest)
  | closed (hclosed : s.isClosed id = true) (hnothing : appended s.net id = [])

namespace Phase

variable {n : ℕ} {setup : Setup} {s t : System n} {a : Action n} {id : ConnId}

/-- A step that keeps the tables and the clock, and neither takes up a call
nor records an append to the connection. -/
theorem fresh_same (hfresh : Fresh s.app s.clock id)
    (hsilent : ∀ msg, .sendProto id msg ∉ outputs s.logic) (hlog : ¬ Answered s.log id)
    (happ : t.app = s.app) (hclock : t.clock = s.clock)
    (hlogic : ∀ o ∈ outputs t.logic, o ∈ outputs s.logic)
    (hentries : t.log = s.log ∨ ∃ e, t.log = s.log ++ [e] ∧ appendsTo id e = false)
    (hnothing : appended t.net id = []) : Phase setup t id := by
  refine .fresh ?_ (fun msg hmsg => hsilent msg (hlogic _ hmsg)) ?_ hnothing
  · rw [happ, hclock]
    exact hfresh
  · rcases hentries with heq | ⟨e, heq, he⟩
    · rw [heq]
      exact hlog
    · rw [heq, answered_snoc, he]
      simpa using hlog

/-- The handler that is called for an event sends the connection nothing, or
the reply to its LoginRequest. -/
theorem call {evt : Queued} {env : Env} (hlived : Lived (life s))
    (honly : OnlyLogin setup.parse s.log id) (hfresh : Fresh s.app s.clock id)
    (hlog : ¬ Answered s.log id) (hnothing : appended s.net id = [])
    (hstage : s.logic = .entering evt) (hclock : s.clock ≤ env.now) :
    Phase setup (({ s with
        app := (s.app.processEvent setup.parse env false evt.event).1
        clock := env.now }.record (.call evt)).setLogic
      (.sending evt (s.app.processEvent setup.parse env false evt.event).2)) id := by
  have hlog' : ¬ Answered (s.log ++ [.call evt]) id := by
    rw [answered_snoc]
    simpa [appendsTo] using hlog
  by_cases hconn : evt.conn = id
  · by_cases htype : evt.type = .message
    · have hpushed : evt ∈ pushes s.log :=
        hlived.mem_pushes_of_entering (by simp [life, held, hstage])
      have hevt : evt ∈ requests s.log id := List.mem_filter.mpr ⟨hpushed, by simp [htype, hconn]⟩
      obtain ⟨payload, req, hpayload, hparse⟩ := exists_of_isLogin (honly.2 evt hevt)
      rcases hfresh.login hclock hconn htype hpayload hparse with hignored | ⟨resp, hreply⟩
      · rw [hignored]
        exact .fresh (hfresh.later hclock) (fun msg hmsg => by cases hmsg) hlog' hnothing
      · rw [hreply]
        refine .replying ?_ rfl hlog' hnothing
        exact (requests_append s.log [.call evt]) ▸ List.mem_append_left _ hevt
    · obtain ⟨hafter, hsilent⟩ := hfresh.own setup.parse hclock hconn htype
      exact .fresh hafter hsilent hlog' hnothing
  · obtain ⟨hafter, hsilent⟩ := hfresh.other setup.parse hclock hconn
    exact .fresh hafter hsilent hlog' hnothing

/-- A worker has nothing to append to an open connection that waits for the reply. -/
theorem turn_waits {w : Fin n} {task : Broadcast.Task} {rest : List ConnId}
    (hallowed : AfterReply setup id s (.net (.turn w)))
    (honly : OnlyLogin setup.parse s.log id) (hlog : ¬ Answered s.log id)
    (hheld : s.net.workers w = some ⟨task, some (id :: rest)⟩) (hopen : s.isClosed id = false)
    (hnext : s.next setup (.net (.turn w)) = some t) : appended t.net id = appended s.net id := by
  cases System.next_steps hnext with
  | @net _ net hkind hnet =>
    cases Broadcast.Server.next_moves hnet with
    | @turn _ task' _ _ conn hheld' hconn =>
      cases hheld.symm.trans hheld'
      unfold AfterReply at hallowed
      dsimp only at hallowed
      rw [hheld, hconn] at hallowed
      rcases hallowed rfl with hanswered | hmore | hclosed | hnone
      · exact absurd hanswered hlog
      · exact absurd honly hmore
      · simp [System.isClosed, hconn, hclosed] at hopen
      · exact turn_skips hnet hheld hconn hnone

theorem replied_step {evt : Queued} {resp : LoginResponse} {rest : List SharedPayload}
    (hevt : evt ∈ requests s.log id) (hentry : .append evt id (.loginResponse resp) ∈ s.log)
    (hfirst : appended s.net id = ⟨setup.encode (.loginResponse resp), none⟩ :: rest)
    (hnext : s.next setup a = some t) : Phase setup t id := by
  obtain ⟨more, hlog⟩ := next_log hnext
  have hevt' : evt ∈ requests t.log id := by
    rw [hlog, requests_append]
    exact List.mem_append_left _ hevt
  have hentry' : .append evt id (.loginResponse resp) ∈ t.log := by
    rw [hlog]
    exact List.mem_append_left _ hentry
  cases next_gains hnext id with
  | nothing h => exact .replied hevt' hentry' (h.trans hfirst)
  | turn ha hheld hopen more h =>
    rw [hfirst, List.cons_append] at h
    exact .replied hevt' hentry' h
  | send ha hlogic hopen h =>
    rw [hfirst, List.cons_append] at h
    exact .replied hevt' hentry' h

theorem closed_step (hclosed : s.isClosed id = true) (hnothing : appended s.net id = [])
    (hnext : s.next setup a = some t) : Phase setup t id := by
  refine .closed (isClosed_stays hclosed hnext) ?_
  cases next_gains hnext id with
  | nothing h => exact h.trans hnothing
  | turn ha hheld hopen more h => cases hclosed.symm.trans hopen
  | send ha hlogic hopen h => cases hclosed.symm.trans hopen

theorem fresh_step (hlived : Lived (life s)) (hallowed : AfterReply setup id s a)
    (honly : OnlyLogin setup.parse s.log id) (hfresh : Fresh s.app s.clock id)
    (hsilent : ∀ msg, .sendProto id msg ∉ outputs s.logic) (hlog : ¬ Answered s.log id)
    (hnothing : appended s.net id = []) (hnext : s.next setup a = some t) : Phase setup t id := by
  have hnothing' : appended t.net id = [] := by
    cases next_gains hnext id with
    | nothing h => exact h.trans hnothing
    | turn ha hheld hopen more h =>
      subst ha
      exact (turn_waits hallowed honly hlog hheld hopen hnext).trans hnothing
    | @send evt msg rest ha hlogic hopen h =>
      exact absurd (by simp [hlogic, outputs]) (hsilent msg)
  have hsame := @fresh_same n setup s t id hfresh hsilent hlog
  -- The stages of the logic thread that come after a call has been carried out.
  have hrest : ∀ {evt o rest}, s.logic = .sending evt (o :: rest) →
      ∀ o' ∈ rest, o' ∈ outputs s.logic := by
    intro evt o rest hstage o' ho'
    rw [hstage]
    exact List.mem_cons_of_mem o ho'
  have hkeep : ∀ {stage : LogicStage}, s.logic = stage →
      ∀ o ∈ outputs stage, o ∈ outputs s.logic := by
    rintro stage rfl o ho
    exact ho
  cases System.next_steps hnext with
  | net hkind hnet => exact hsame rfl rfl (hkeep rfl) (.inl rfl) hnothing'
  | accept hidle hnet => exact hsame rfl rfl (hkeep rfl) (.inl rfl) hnothing'
  | register hstage hnet => exact hsame rfl rfl (hkeep rfl) (.inl rfl) hnothing'
  | pushConnect hstage => exact hsame rfl rfl (hkeep rfl) (.inr ⟨_, rfl, rfl⟩) hnothing'
  | message payload hidle hknown =>
    exact hsame rfl rfl (hkeep rfl) (.inr ⟨_, rfl, rfl⟩) hnothing'
  | closeAgain hclosed => exact hsame rfl rfl (hkeep rfl) (.inl rfl) hnothing'
  | close hidle hopen hnet => exact hsame rfl rfl (hkeep rfl) (.inr ⟨_, rfl, rfl⟩) hnothing'
  | reactorPush hstage => exact hsame rfl rfl (hkeep rfl) (.inr ⟨_, rfl, rfl⟩) hnothing'
  | reactorErase hstage hnet => exact hsame rfl rfl (hkeep rfl) (.inl rfl) hnothing'
  | take hstage hqueue => exact hsame rfl rfl (fun o ho => by cases ho) (.inl rfl) hnothing'
  | discard hstage hclosed htype =>
    exact hsame rfl rfl (fun o ho => by cases ho) (.inr ⟨_, rfl, rfl⟩) hnothing'
  | pass hstage hpass =>
    exact hsame rfl rfl (fun o ho => by cases ho) (.inr ⟨_, rfl, rfl⟩) hnothing'
  | call hstage hclock => exact call hlived honly hfresh hlog hnothing hstage hclock
  | endEvent hstage => exact hsame rfl rfl (fun o ho => by cases ho) (.inl rfl) hnothing'
  | dropped hstage hclosed hnet => exact hsame rfl rfl (hrest hstage) (.inl rfl) hnothing'
  | @append evt conn msg rest net hstage hopen hnet =>
    have hconn : conn ≠ id := by
      rintro rfl
      exact hsilent msg (by simp [hstage, outputs])
    exact hsame rfl rfl (hrest hstage) (.inr ⟨_, rfl, by simp [appendsTo, hconn]⟩) hnothing'
  | broadcast hstage hnet => exact hsame rfl rfl (hrest hstage) (.inl rfl) hnothing'
  | logicCloseAgain hstage hclosed => exact hsame rfl rfl (hrest hstage) (.inl rfl) hnothing'
  | logicClose hstage hopen hnet =>
    exact hsame rfl rfl (hrest hstage) (.inr ⟨_, rfl, rfl⟩) hnothing'
  | notify hstage hnet =>
    exact hsame rfl rfl (fun o ho => hkeep hstage o ho) (.inl rfl) hnothing'
  | logicPush hstage =>
    exact hsame rfl rfl (fun o ho => hkeep hstage o ho) (.inr ⟨_, rfl, rfl⟩) hnothing'
  | logicErase hstage hnet =>
    exact hsame rfl rfl (fun o ho => hkeep hstage o ho) (.inl rfl) hnothing'

theorem replying_step {evt : Queued} {resp : LoginResponse} (hallowed : AfterReply setup id s a)
    (honly : OnlyLogin setup.parse s.log id) (hevt : evt ∈ requests s.log id)
    (hlogic : s.logic = .sending evt [.sendProto id (.loginResponse resp)])
    (hlog : ¬ Answered s.log id) (hnothing : appended s.net id = [])
    (hnext : s.next setup a = some t) : Phase setup t id := by
  obtain ⟨more, hmore⟩ := next_log hnext
  have hevt' : evt ∈ requests t.log id := by
    rw [hmore, requests_append]
    exact List.mem_append_left _ hevt
  have hnothing' : a ≠ .output ∨ s.isClosed id = true → appended t.net id = [] := by
    intro hquiet
    cases next_gains hnext id with
    | nothing h => exact h.trans hnothing
    | turn ha hheld hopen more h =>
      subst ha
      exact (turn_waits hallowed honly hlog hheld hopen hnext).trans hnothing
    | send ha hlogic hopen h =>
      rcases hquiet with hother | hclosed
      · exact absurd ha hother
      · cases hclosed.symm.trans hopen
  -- A step of another thread.
  have hstay : a ≠ .output → t.logic = s.logic →
      (t.log = s.log ∨ ∃ e, t.log = s.log ++ [e] ∧ appendsTo id e = false) → Phase setup t id := by
    intro hother hsame hentries
    refine .replying hevt' (hsame.trans hlogic) ?_ (hnothing' (.inl hother))
    rcases hentries with heq | ⟨e, heq, he⟩
    · rw [heq]
      exact hlog
    · rw [heq, answered_snoc, he]
      simpa using hlog
  cases System.next_steps hnext with
  | net hkind hnet => exact hstay nofun rfl (.inl rfl)
  | accept hidle hnet => exact hstay nofun rfl (.inl rfl)
  | register hstage hnet => exact hstay nofun rfl (.inl rfl)
  | pushConnect hstage => exact hstay nofun rfl (.inr ⟨_, rfl, rfl⟩)
  | message payload hidle hknown => exact hstay nofun rfl (.inr ⟨_, rfl, rfl⟩)
  | closeAgain hclosed => exact hstay nofun rfl (.inl rfl)
  | close hidle hopen hnet => exact hstay nofun rfl (.inr ⟨_, rfl, rfl⟩)
  | reactorPush hstage => exact hstay nofun rfl (.inr ⟨_, rfl, rfl⟩)
  | reactorErase hstage hnet => exact hstay nofun rfl (.inl rfl)
  | dropped hstage hclosed hnet =>
    cases hlogic.symm.trans hstage
    exact .closed (isClosed_stays hclosed hnext) (hnothing' (.inr hclosed))
  | @append _ _ _ _ net hstage hopen hnet =>
    cases hlogic.symm.trans hstage
    have hfirst : appended net id = [⟨setup.encode (.loginResponse resp), none⟩] := by
      rw [appended_sent hopen hnet, hnothing, List.nil_append]
    exact .replied hevt' (List.mem_append_right _ List.mem_cons_self) hfirst
  | take hstage hqueue => cases hlogic.symm.trans hstage
  | discard hstage hclosed htype => cases hlogic.symm.trans hstage
  | pass hstage hpass => cases hlogic.symm.trans hstage
  | call hstage hclock => cases hlogic.symm.trans hstage
  | endEvent hstage => cases hlogic.symm.trans hstage
  | broadcast hstage hnet => cases hlogic.symm.trans hstage
  | logicCloseAgain hstage hclosed => cases hlogic.symm.trans hstage
  | logicClose hstage hopen hnet => cases hlogic.symm.trans hstage
  | notify hstage hnet => cases hlogic.symm.trans hstage
  | logicPush hstage => cases hlogic.symm.trans hstage
  | logicErase hstage hnet => cases hlogic.symm.trans hstage

theorem step (hlived : Lived (life s)) (hallowed : AfterReply setup id s a)
    (honly : OnlyLogin setup.parse s.log id) (h : Phase setup s id)
    (hnext : s.next setup a = some t) : Phase setup t id := by
  cases h with
  | fresh hfresh hsilent hlog hnothing =>
    exact fresh_step hlived hallowed honly hfresh hsilent hlog hnothing hnext
  | replying hevt hlogic hlog hnothing =>
    exact replying_step hallowed honly hevt hlogic hlog hnothing hnext
  | replied hevt hentry hfirst => exact replied_step hevt hentry hfirst hnext
  | closed hclosed hnothing => exact closed_step hclosed hnothing hnext

theorem init : Phase setup (System.init : System n) id := by
  refine .fresh ⟨nofun, ?_⟩ (fun msg hmsg => by cases hmsg) ?_ rfl
  · intro ⟨name, hname⟩
    cases hname
  · intro ⟨e, he, _⟩
    cases he

end Phase

/-- In a run in which the shard tasks come to a connection after its reply, the
first packet for it, when its client has sent its LoginRequest and nothing
else, is the reply to it. -/
theorem login_reply_first {n : ℕ} {setup : Setup} {s : System n} {id : ConnId}
    (hs : Reachable (machine setup n) (AfterReply setup id) s) {conn : Connection}
    (hconn : s.net.conns id = some conn) {evt : Queued} (hrequests : requests s.log id = [evt])
    (hlogin : isLogin setup.parse evt = true) :
    conn.appended = [] ∨ ∃ resp rest,
      conn.appended = ⟨setup.encode (.loginResponse resp), none⟩ :: rest ∧
        .append evt id (.loginResponse resp) ∈ s.log := by
  have hphase : OnlyLogin setup.parse s.log id → Phase setup s id := by
    refine hs.invariant_of_reachable (P := fun s => OnlyLogin setup.parse s.log id →
      Phase setup s id) (fun _ => .init) ?_
    intro s a t hreach h hallowed hnext honly
    obtain ⟨more, hlog⟩ := next_log hnext
    have hbefore : OnlyLogin setup.parse s.log id := by
      rw [hlog] at honly
      exact honly.before
    exact (h hbefore).step (lived hreach) hallowed hbefore hnext
  have honly : OnlyLogin setup.parse s.log id := by
    rw [OnlyLogin, hrequests]
    simpa using hlogin
  rw [← appended_of_conn hconn]
  cases hphase honly with
  | fresh hfresh hsilent hlog hnothing => exact Or.inl hnothing
  | replying hevt hlogic hlog hnothing => exact Or.inl hnothing
  | closed hclosed hnothing => exact Or.inl hnothing
  | @replied evt' resp rest hevt hentry hfirst =>
    rw [hrequests, List.mem_singleton] at hevt
    subst hevt
    exact Or.inr ⟨resp, rest, hfirst, hentry⟩

section Samples

open LogicThread (sampleEnv)

def chatParser : Parser
  | [0x0A, 3, 0x0A, 1, 0x61] => some (.login ⟨"a"⟩)
  | [0x0A, 3, 0x0A, 1, 0x62] => some (.login ⟨"b"⟩)
  | [0x12, 4, 0x0A, 2, 0x68, 0x69] => some (.globalChat ⟨"hi"⟩)
  | _ => none

/-- The packets of a successful login and of "hi" from "a". -/
def chatEncode : ServerMessage → Bytes
  | .loginResponse _ => [0, 0, 0, 0x17, 0x0A, 0x15, 8, 1, 0x12, 0x11, 0x4C, 0x6F, 0x67, 0x69, 0x6E,
      0x20, 0x73, 0x75, 0x63, 0x63, 0x65, 0x73, 0x73, 0x66, 0x75, 0x6C, 0x2E]
  | .chatBroadcast _ => [0, 0, 0, 9, 0x12, 7, 0x0A, 1, 0x61, 0x12, 2, 0x68, 0x69]
  | _ => []

/-- The requests of the samples, as they are queued. -/
def loginRequest (number : ℕ) : Queued := ⟨number, ⟨.message, 1, some [0x0A, 3, 0x0A, 1, 0x62]⟩⟩

def chatRequest : Queued := ⟨3, ⟨.message, 0, some [0x12, 4, 0x0A, 2, 0x68, 0x69]⟩⟩

def chatSetup : Setup := ⟨Broadcast.sampleKernel, chatParser, chatEncode⟩

/-- Both clients have logged in, and "hi" of the other one is taken from its queue. -/
def answeredSteps : List (Action 1) :=
  acceptSteps 0 23 ++ acceptSteps 1 16 ++ [.message 1 [0x0A, 3, 0x0A, 1, 0x62],
    .message 0 [0x0A, 3, 0x0A, 1, 0x61], .message 0 [0x12, 4, 0x0A, 2, 0x68, 0x69]] ++
    handleSteps 0 ++ handleSteps 0 ++ handleSteps 1 ++ handleSteps 1 ++ [.take]

/-- The request of the other client, as it is queued behind both logins. -/
def laterChat : Queued := ⟨4, ⟨.message, 0, some [0x12, 4, 0x0A, 2, 0x68, 0x69]⟩⟩

/-- From the call of the handler for "hi" to the turn of its shard task at the connection. -/
def deliverySteps : List (Action 1) :=
  [.call sampleEnv, .output, .notify, .output, .net (.epollWait [.notify]), .net .dispatch,
    .net .endBatch, .net .pushBatch, .net (.pop ⟨0, Nat.one_pos⟩),
    .net (.snapshot ⟨0, Nat.one_pos⟩ [1])]

theorem answeredSteps_isSome :
    (run (machine chatSetup 1) (AfterReply chatSetup 1) System.init answeredSteps).isSome =
      true := by
  decide +kernel

def answeredTaken : System 1 :=
  (run (machine chatSetup 1) (AfterReply chatSetup 1) System.init answeredSteps).get
    answeredSteps_isSome

theorem answeredEntering_reachable : Reachable (machine chatSetup 1) (AfterReply chatSetup 1)
    ((answeredTaken.record (.examine laterChat false)).setLogic (.entering laterChat)) := by
  have hreach : Reachable (machine chatSetup 1) (AfterReply chatSetup 1) answeredTaken :=
    reachable_of_run .init (Option.some_get answeredSteps_isSome).symm
  have hlogic : answeredTaken.logic = .taken laterChat := by
    decide +kernel
  have hlog : .exchange laterChat.conn ∉ answeredTaken.log := by
    decide +kernel
  exact entering_reachable hreach trivial hlogic hlog

/-- A client that logs in before the task for another client's broadcast comes to it. -/
theorem login_reply_first_sample :
    ∃ (s : System 1) (conn : Connection),
      Reachable (machine chatSetup 1) (AfterReply chatSetup 1) s ∧
      s.net.conns 1 = some conn ∧ Answered s.log 1 ∧
      Broadcast.heldBy s.net 0 = some ([⟨-1, ⟨[0, 0, 0, 9, 0x12, 7, 0x0A, 1, 0x61, 0x12, 2,
        0x68, 0x69], some 0⟩⟩], some []) ∧
      (conn.appended = [] ∨ ∃ resp rest,
        conn.appended = ⟨chatSetup.encode (.loginResponse resp), none⟩ :: rest ∧
          .append (loginRequest 2) 1 (.loginResponse resp) ∈ s.log) := by
  have hrun : (run (machine chatSetup 1) (AfterReply chatSetup 1)
      ((answeredTaken.record (.examine laterChat false)).setLogic (.entering laterChat))
      (deliverySteps ++ [.net (.turn 0)])).any (fun s =>
        decide ((s.net.conns 1).isSome ∧ Answered s.log 1 ∧ requests s.log 1 = [loginRequest 2] ∧
          Broadcast.heldBy s.net 0 = some ([⟨-1, ⟨[0, 0, 0, 9, 0x12, 7, 0x0A, 1, 0x61, 0x12, 2,
            0x68, 0x69], some 0⟩⟩], some []))) = true := by
    decide +kernel
  obtain ⟨s, hs, hP⟩ := (Option.any_eq_true _ _).mp hrun
  obtain ⟨hsome, hanswered, hrequests, hheld⟩ := of_decide_eq_true hP
  obtain ⟨conn, hconn⟩ := Option.isSome_iff_exists.mp hsome
  have hreach := reachable_of_run answeredEntering_reachable hs
  exact ⟨s, conn, hreach, hconn, hanswered, hheld, login_reply_first hreach hconn hrequests rfl⟩

/-- The steps up to where the logic thread has taken "hi" from its queue. -/
def chatSteps : List (Action 1) :=
  acceptSteps 0 23 ++ acceptSteps 1 16 ++ [.message 0 [0x0A, 3, 0x0A, 1, 0x61],
    .message 0 [0x12, 4, 0x0A, 2, 0x68, 0x69], .message 1 [0x0A, 3, 0x0A, 1, 0x62]] ++
    handleSteps 0 ++ handleSteps 0 ++ handleSteps 1 ++ [.take]

theorem chatSteps_isSome :
    (run (machine chatSetup 1) AnyStep System.init chatSteps).isSome = true := by
  decide +kernel

/-- "hi" is about to be examined. -/
def chatTaken : System 1 :=
  (run (machine chatSetup 1) AnyStep System.init chatSteps).get chatSteps_isSome

theorem chatTaken_reachable : Reachable (machine chatSetup 1) AnyStep chatTaken :=
  reachable_of_run .init (Option.some_get chatSteps_isSome).symm

/-- The logic thread has let "hi" through. -/
def chatEntering : System 1 :=
  (chatTaken.record (.examine chatRequest false)).setLogic (.entering chatRequest)

theorem chatEntering_reachable : Reachable (machine chatSetup 1) AnyStep chatEntering := by
  have hlogic : chatTaken.logic = .taken chatRequest := by
    decide +kernel
  -- The flag is read off the log: the kernel cannot run attempt_write.
  have hlog : .exchange chatRequest.conn ∉ chatTaken.log := by
    decide +kernel
  exact entering_reachable chatTaken_reachable trivial hlogic hlog

/-- The task for the broadcast of another client comes to a connection before
its LoginRequest is handled. -/
theorem broadcast_before_reply :
    ∃ (s : System 1) (conn : Connection) (evt : Queued),
      Reachable (machine chatSetup 1) AnyStep s ∧ s.net.conns 1 = some conn ∧
      requests s.log 1 = [evt] ∧ isLogin chatSetup.parse evt = true ∧
      ¬ (conn.appended = [] ∨ ∃ resp rest, conn.appended.map SharedPayload.bytes =
        chatSetup.encode (.loginResponse resp) :: rest) := by
  have hrun : (run (machine chatSetup 1) AnyStep chatEntering
      deliverySteps).any (fun s =>
      decide (Broadcast.heldBy s.net 0 = some ([⟨-1, ⟨[0, 0, 0, 9, 0x12, 7, 0x0A, 1, 0x61, 0x12, 2,
          0x68, 0x69], some 0⟩⟩], some [1]) ∧
        Broadcast.given s.net 1 = some ((16, false, []), 0) ∧
        requests s.log 1 = [loginRequest 4])) = true := by
    decide +kernel
  obtain ⟨s, hs, hP⟩ := (Option.any_eq_true _ _).mp hrun
  obtain ⟨hworker, hgiven, hrequests⟩ := of_decide_eq_true hP
  obtain ⟨task, hheld, hevents⟩ := Broadcast.heldBy_eq_some hworker
  obtain ⟨conn, hconn, hfd, hopen, happended, hsize⟩ := Broadcast.given_eq_some hgiven
  obtain ⟨net, conn', hnext, hnew, hmarks, _⟩ :=
    BroadcastOrder.turn_gives chatSetup.kernel hheld hconn hopen
      (by simp [hevents, BroadcastOrder.included_everybody])
      (by simp [hsize, hevents, maxOutgoingQueueSize])
  have hturn : s.next chatSetup (.net (.turn 0)) = some { s with net := net } := by
    simp only [System.next, ofPool, true_or, if_true, System.onNet, hnext, Option.map_some]
  refine ⟨{ s with net := net }, conn', _, ?_, hnew, hrequests, rfl, ?_⟩
  · exact .step (a := .net (.turn 0)) (reachable_of_run chatEntering_reachable hs) trivial hturn
  · simp only [ShardTask.marks, Prod.mk.injEq, hevents, happended] at hmarks
    rw [hmarks.2.2]
    rintro (hnothing | ⟨resp, rest, hfirst⟩)
    · simp at hnothing
    · simp [chatSetup, chatEncode] at hfirst

end Samples

end ChatServer.LoginReply
