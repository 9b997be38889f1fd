import ChatServer.ClientReceive
import ChatServer.LoginReply

/-!
The confirmation of a private message. HandlePrivateChat looks up the target,
sends it the message and then tells the sender so. But SendPreEncoded returns
nothing: it drops what is meant for a closed connection, and a connection that
is closed stays in the directory until its DISCONNECT event is processed, or
for good if it has logged in twice.
-/
namespace ChatServer.Confirmation

open ServerSystem LifeCycle AppendedPackets LoginReply Lib.Runs
open ClientReceive (confirmation)

/-- The request that the event brings to HandlePrivateChat. -/
def privateRequest (parse : Parser) (evt : Queued) : Option PrivateChatRequest :=
  match evt.type, evt.event.payload.bind parse with
  | .message, some (.privateChat req) => some req
  | _, _ => none

/-- A private message is sent to a connection that is open. -/
def TargetOpen {n : ℕ} (s : System n) : Action n → Prop
  | .output =>
      match s.logic with
      | .sending _ (.sendProto d (.privateChat _) :: _) => s.isClosed d = false
      | _ => True
  | _ => True

/-- The connection to which the step sends a private message. -/
def privateTarget {n : ℕ} (s : System n) : Action n → Option ConnId
  | .output =>
      match s.logic with
      | .sending _ (.sendProto d (.privateChat _) :: _) => some d
      | _ => none
  | _ => none

theorem targetOpen_iff {n : ℕ} {s : System n} {a : Action n} :
    (∀ d ∈ privateTarget s a, s.isClosed d = false) ↔ TargetOpen s a := by
  unfold privateTarget TargetOpen
  split
  · split
    · simp
    · simp
  · simp

instance {n : ℕ} (s : System n) (a : Action n) : Decidable (TargetOpen s a) :=
  decidable_of_iff (∀ d ∈ privateTarget s a, s.isClosed d = false) targetOpen_iff

/-- The calls that are left, and the event they are made for. -/
def remaining : LogicStage → Option (Queued × List Output)
  | .sending evt outputs => some (evt, outputs)
  | .notifying evt outputs => some (evt, outputs)
  | .closing evt _ outputs => some (evt, outputs)
  | _ => none

/-- The private message of the session, as it is sent. -/
def privateMessage (session : ChatSession) (req : PrivateChatRequest) (time : ℕ) : ServerMessage :=
  .privateChat ⟨session.username, req.text, time⟩

/-- The message of the request was appended to the queue of the connection that
is registered under the target's name. -/
def Delivered {n : ℕ} (setup : Setup) (s : System n) (evt : Queued) (req : PrivateChatRequest) :
    Prop :=
  ∃ d session time, s.app.onlineUsers req.targetUsername = some d ∧
    s.app.userData evt.conn = some session ∧
    .append evt d (privateMessage session req time) ∈ s.log ∧
    ⟨setup.encode (privateMessage session req time), none⟩ ∈ appended s.net d

section Calls

variable {parse : Parser} {evt : Queued} {req : PrivateChatRequest}

theorem event_of_request (h : privateRequest parse evt = some req) :
    ∃ payload, evt.event = ⟨.message, evt.conn, some payload⟩ ∧
      parse payload = some (.privateChat req) := by
  unfold privateRequest at h
  split at h
  · rename_i htype hparse
    obtain ⟨payload, hpayload, hrequest⟩ := Option.bind_eq_some_iff.mp hparse
    cases h
    refine ⟨payload, ?_, hrequest⟩
    rw [← htype, ← hpayload]
  · cases h

/-- HandlePrivateChat finds the target and makes two calls, or it makes calls
without a confirmation. -/
theorem private_calls (app : ChatApp) (env : Env) (h : privateRequest parse evt = some req) :
    (∃ d session, (app.processEvent parse env false evt.event).1.onlineUsers req.targetUsername =
        some d ∧
      (app.processEvent parse env false evt.event).1.userData evt.conn = some session ∧
      (app.processEvent parse env false evt.event).2 =
        [.sendProto d (privateMessage session req env.time),
          .sendProto evt.conn (confirmation req.targetUsername req.text)]) ∨
    .sendProto evt.conn (confirmation req.targetUsername req.text) ∉
      (app.processEvent parse env false evt.event).2 := by
  obtain ⟨payload, hevt, hparse⟩ := event_of_request h
  have hprocess : app.processEvent parse env false evt.event =
      app.handleMessage parse env evt.conn payload := by
    rw [hevt]
    rfl
  rw [hprocess]
  unfold ChatApp.handleMessage
  split
  · exact Or.inr (by simp)
  · rename_i session hsession
    rw [hparse]
    dsimp only
    split
    · exact Or.inr (by simp [confirmation])
    · dsimp only [ChatApp.dispatch, ChatApp.handlePrivateChat]
      split
      · split
        · rename_i d hd
          exact Or.inl ⟨d, _, hd, ChatApp.setSession_userData_self, rfl⟩
        · exact Or.inr (by simp [confirmation])
      · exact Or.inr (by simp)

end Calls

section Steps

variable {n : ℕ} {setup : Setup} {s t : System n} {a : Action n} {evt : Queued}
  {req : PrivateChatRequest}

theorem appended_grows (hnext : s.next setup a = some t) (d : ConnId) :
    appended s.net d <+: appended t.net d := by
  cases next_gains hnext d with
  | nothing h =>
    rw [h]
  | turn ha hheld hopen more h =>
    rw [h]
    exact List.prefix_append _ _
  | send ha hlogic hopen h =>
    rw [h]
    exact List.prefix_append _ _

theorem Delivered.later (h : Delivered setup s evt req) (happ : t.app = s.app)
    (hnext : s.next setup a = some t) : Delivered setup t evt req := by
  obtain ⟨d, session, time, hd, hsession, hentry, hqueued⟩ := h
  obtain ⟨more, hlog⟩ := next_log hnext
  refine ⟨d, session, time, by rw [happ]; exact hd, by rw [happ]; exact hsession, ?_,
    (appended_grows hnext d).subset hqueued⟩
  rw [hlog]
  exact List.mem_append_left _ hentry

/-- What a step does to the calls of the logic thread: nothing, or it begins an
event, or it carries out the first call of one. -/
theorem next_remaining (hnext : s.next setup a = some t) :
    (t.app = s.app ∧ (remaining t.logic = none ∨ remaining t.logic = remaining s.logic)) ∨
    (∃ evt env, t.app = (s.app.processEvent setup.parse env false evt.event).1 ∧
      remaining t.logic = some (evt, (s.app.processEvent setup.parse env false evt.event).2)) ∨
    ∃ evt o rest, a = .output ∧ s.logic = .sending evt (o :: rest) ∧ t.app = s.app ∧
      remaining t.logic = some (evt, rest) ∧
      ∀ d msg, o = .sendProto d msg → s.isClosed d = false →
        .append evt d msg ∈ t.log ∧ ⟨setup.encode msg, none⟩ ∈ appended t.net d := by
  cases System.next_steps hnext with
  | call hstage hclock => exact Or.inr (Or.inl ⟨_, _, rfl, rfl⟩)
  | take hstage hqueue => exact Or.inl ⟨rfl, Or.inl rfl⟩
  | discard hstage hclosed htype => exact Or.inl ⟨rfl, Or.inl rfl⟩
  | pass hstage hpass => exact Or.inl ⟨rfl, Or.inl rfl⟩
  | endEvent hstage => exact Or.inl ⟨rfl, Or.inl rfl⟩
  | dropped hstage hclosed hnet =>
    refine Or.inr (Or.inr ⟨_, _, _, rfl, hstage, rfl, rfl, ?_⟩)
    intro d msg ho hopen
    cases ho
    cases hclosed.symm.trans hopen
  | @append evt conn msg rest net hstage hopen' hnet =>
    refine Or.inr (Or.inr ⟨_, _, _, rfl, hstage, rfl, rfl, ?_⟩)
    intro d msg ho hopen
    cases ho
    refine ⟨List.mem_append_right _ List.mem_cons_self, ?_⟩
    show _ ∈ appended net conn
    rw [appended_sent hopen hnet]
    exact List.mem_append_right _ List.mem_cons_self
  | broadcast hstage hnet => exact Or.inr (Or.inr ⟨_, _, _, rfl, hstage, rfl, rfl, by simp⟩)
  | logicCloseAgain hstage hclosed =>
    exact Or.inr (Or.inr ⟨_, _, _, rfl, hstage, rfl, rfl, by simp⟩)
  | logicClose hstage hopen hnet =>
    exact Or.inr (Or.inr ⟨_, _, _, rfl, hstage, rfl, rfl, by simp⟩)
  | notify hstage hnet => exact Or.inl ⟨rfl, Or.inr (by rw [hstage]; rfl)⟩
  | logicPush hstage => exact Or.inl ⟨rfl, Or.inr (by rw [hstage]; rfl)⟩
  | logicErase hstage hnet => exact Or.inl ⟨rfl, Or.inr (by rw [hstage]; rfl)⟩
  | _ => exact Or.inl ⟨rfl, Or.inr rfl⟩

end Steps

/-- How far the calls for a PrivateChatRequest have come. -/
inductive Phase {n : ℕ} (setup : Setup) (s : System n) (evt : Queued) (req : PrivateChatRequest) :
    List Output → Prop
  | found {d : ConnId} {session : ChatSession} {time : ℕ}
      (hd : s.app.onlineUsers req.targetUsername = some d)
      (hsession : s.app.userData evt.conn = some session) :
      Phase setup s evt req [.sendProto d (privateMessage session req time),
        .sendProto evt.conn (confirmation req.targetUsername req.text)]
  | sent (h : Delivered setup s evt req) :
      Phase setup s evt req [.sendProto evt.conn (confirmation req.targetUsername req.text)]
  | silent {outputs : List Output}
      (h : .sendProto evt.conn (confirmation req.targetUsername req.text) ∉ outputs) :
      Phase setup s evt req outputs

namespace Phase

variable {n : ℕ} {setup : Setup} {s t : System n} {a : Action n} {evt : Queued}
  {req : PrivateChatRequest} {outputs : List Output}

theorem later (h : Phase setup s evt req outputs) (happ : t.app = s.app)
    (hnext : s.next setup a = some t) : Phase setup t evt req outputs := by
  cases h with
  | found hd hsession => exact .found (by rw [happ]; exact hd) (by rw [happ]; exact hsession)
  | sent h => exact .sent (h.later happ hnext)
  | silent h => exact .silent h

/-- The first of the calls is carried out. -/
theorem advance {o : Output} {rest : List Output} (h : Phase setup s evt req (o :: rest))
    (happ : t.app = s.app)
    (hsent : ∀ d session time, o = .sendProto d (privateMessage session req time) →
      .append evt d (privateMessage session req time) ∈ t.log ∧
        ⟨setup.encode (privateMessage session req time), none⟩ ∈ appended t.net d) :
    Phase setup t evt req rest := by
  cases h with
  | @found d session time hd hsession =>
    obtain ⟨hentry, hqueued⟩ := hsent d session time rfl
    exact .sent ⟨d, session, time, by rw [happ]; exact hd, by rw [happ]; exact hsession, hentry,
      hqueued⟩
  | sent h => exact .silent (by simp)
  | silent h => exact .silent fun hmem => h (List.mem_cons_of_mem _ hmem)

end Phase

section Runs

variable {n : ℕ} {setup : Setup} {s : System n}

theorem phase (hs : Reachable (machine setup n) TargetOpen s) {evt : Queued}
    {req : PrivateChatRequest} (hrequest : privateRequest setup.parse evt = some req)
    {outputs : List Output} (hlogic : remaining s.logic = some (evt, outputs)) :
    Phase setup s evt req outputs := by
  revert outputs
  refine hs.invariant (P := fun s => ∀ {outputs}, remaining s.logic = some (evt, outputs) →
    Phase setup s evt req outputs) ?_ ?_
  · intro outputs hlogic
    cases hlogic
  · intro s a t h hallowed hnext outputs hlogic
    rcases next_remaining hnext with ⟨happ, hidle | hsame⟩ | ⟨evt', env, happ, hcalls⟩ |
      ⟨evt', o, rest, ha, hstage, happ, hrest, happend⟩
    · cases hidle.symm.trans hlogic
    · exact (h (hsame.symm.trans hlogic)).later happ hnext
    · cases hcalls.symm.trans hlogic
      rcases private_calls s.app env hrequest with
        ⟨d, session, hd, hsession, hmade⟩ | hnone
      · rw [hmade]
        exact .found (by rw [happ]; exact hd) (by rw [happ]; exact hsession)
      · exact .silent hnone
    · cases hrest.symm.trans hlogic
      subst ha
      refine (h (by rw [hstage]; rfl)).advance happ ?_
      intro d session time ho
      subst ho
      refine happend d _ rfl ?_
      simpa only [TargetOpen, hstage, privateMessage] using hallowed

end Runs

/-- In a run in which every private message is sent to a connection that is open,
whenever HandlePrivateChat is about to send the confirmation the message was
appended to the queue of the connection registered under the target's name. -/
theorem confirmation_truthful (setup : Setup) (n : ℕ) (s : System n)
    (hs : Reachable (machine setup n) TargetOpen s) (evt : Queued) (req : PrivateChatRequest)
    (hrequest : privateRequest setup.parse evt = some req) (rest : List Output)
    (hlogic : s.logic = .sending evt
      (.sendProto evt.conn (confirmation req.targetUsername req.text) :: rest)) :
    Delivered setup s evt req := by
  have hphase := phase hs hrequest (by rw [hlogic]; rfl)
  generalize houtputs : Output.sendProto evt.conn (confirmation req.targetUsername req.text) ::
    rest = outputs at hphase
  cases hphase with
  | found hd hsession => cases houtputs
  | sent h => exact h
  | silent h =>
    rw [← houtputs] at h
    exact absurd List.mem_cons_self h

section Samples

open LogicThread (sampleEnv)
open EventOrder

def mailParser : Parser
  | [0x0A, 3, 0x0A, 1, 0x61] => some (.login ⟨"a"⟩)
  | [0x0A, 3, 0x0A, 1, 0x62] => some (.login ⟨"b"⟩)
  | [0x1A, 7, 0x0A, 1, 0x61, 0x12, 2, 0x68, 0x69] => some (.privateChat ⟨"a", "hi"⟩)
  | _ => none

def mailSetup : Setup :=
  ⟨Broadcast.sampleKernel, mailParser, PacketCodec.encode ChatProto.serializeServer⟩

/-- "hi" from b to a. -/
def mail : Queued := ⟨4, ⟨.message, 1, some [0x1A, 7, 0x0A, 1, 0x61, 0x12, 2, 0x68, 0x69]⟩⟩

/-- Both have connected, and their requests wait in the queue. -/
def mailQueued : List (Action 1) :=
  acceptSteps 0 23 ++ acceptSteps 1 16 ++ [.message 0 [0x0A, 3, 0x0A, 1, 0x61],
    .message 1 [0x0A, 3, 0x0A, 1, 0x62],
    .message 1 [0x1A, 7, 0x0A, 1, 0x61, 0x12, 2, 0x68, 0x69]] ++ handleSteps 0 ++ handleSteps 0

/-- The logic thread has let "hi" through. -/
def entering (s : System 1) : System 1 :=
  (s.record (.examine mail false)).setLogic (.entering mail)

/-- A run that takes "hi" from the queue while b is open, and goes on from there. -/
def mailRun (allowed : System 1 → Action 1 → Prop) [∀ s a, Decidable (allowed s a)]
    (steps rest : List (Action 1)) : Option (System 1) :=
  ((run (machine mailSetup 1) allowed System.init steps).filter fun s =>
    s.logic = .taken mail ∧ .exchange 1 ∉ s.log ∧ allowed s .examine).bind fun s =>
      run (machine mailSetup 1) allowed (entering s) rest

theorem mailRun_reachable {allowed : System 1 → Action 1 → Prop}
    [∀ s a, Decidable (allowed s a)] {steps rest : List (Action 1)} {t : System 1}
    (h : mailRun allowed steps rest = some t) : Reachable (machine mailSetup 1) allowed t := by
  obtain ⟨s, htaken, hrest⟩ := Option.bind_eq_some_iff.mp h
  obtain ⟨hrun, hguard⟩ := Option.filter_eq_some_iff.mp htaken
  obtain ⟨hlogic, hlog, hexamine⟩ := of_decide_eq_true hguard
  have hentering : Reachable (machine mailSetup 1) allowed (entering s) :=
    entering_reachable (reachable_of_run .init hrun) hexamine hlogic hlog
  exact reachable_of_run hentering hrest

/-- A call for an open connection. -/
theorem output_appends {n : ℕ} {setup : Setup} {s : System n} {evt : Queued} {d : ConnId}
    {msg : ServerMessage} {rest : List Output}
    (hlogic : s.logic = .sending evt (.sendProto d msg :: rest)) (hopen : s.isClosed d = false)
    (hknown : s.known d = true) :
    ∃ net, s.next setup .output =
      some (({ s with net := net }.record (.append evt d msg)).setLogic (.sending evt rest)) := by
  obtain ⟨conn, hconn⟩ := Option.isSome_iff_exists.mp hknown
  have hop : Broadcast.Ordinary (.sendPreEncoded ⟨setup.encode msg, none⟩) := rfl
  refine ⟨s.net.setConn d (sendPreEncoded (setup.kernel d) conn ⟨setup.encode msg, none⟩), ?_⟩
  simp only [System.next, hlogic, System.onNet, Broadcast.Server.next, if_pos hop, hconn,
    Option.map_some, hopen, Bool.false_eq_true, if_false]
  rfl

/-- "hi" is sent to a, who is there. -/
theorem confirmation_truthful_sample :
    ∃ s, Reachable (machine mailSetup 1) TargetOpen s ∧
      s.logic = .sending mail [.sendProto 1 (confirmation "a" "hi")] ∧
      Delivered mailSetup s mail ⟨"a", "hi"⟩ := by
  have hrun : (mailRun TargetOpen (mailQueued ++ handleSteps 1 ++ handleSteps 1 ++ [.take])
      [.call sampleEnv]).any (fun s => s.logic = .sending mail
        [.sendProto 0 (.privateChat ⟨"b", "hi", 0⟩), .sendProto 1 (confirmation "a" "hi")] ∧
      .exchange 0 ∉ s.log ∧ s.known 0 = true) := by
    decide +kernel
  obtain ⟨s, hmail, hP⟩ := (Option.any_eq_true _ _).mp hrun
  obtain ⟨hlogic, hlog, hknown⟩ := of_decide_eq_true hP
  have hs := mailRun_reachable hmail
  have hopen := open_of_log hs hlog
  obtain ⟨net, hnext⟩ : ∃ net, (machine mailSetup 1).next s .output = _ :=
    output_appends hlogic hopen hknown
  have hallowed : TargetOpen s .output := by
    simpa only [TargetOpen, hlogic] using hopen
  have hsent := hs.step hallowed hnext
  exact ⟨_, hsent, rfl, confirmation_truthful mailSetup 1 _ hsent mail ⟨"a", "hi"⟩ rfl [] rfl⟩

/-- The reactor closes a, and before the DISCONNECT event is processed "hi"
is: the message is dropped, and b is told that it was sent. -/
theorem confirmation_untrue :
    ∃ (s : System 1) (evt : Queued) (req : PrivateChatRequest),
      Reachable (machine mailSetup 1) AnyStep s ∧
      privateRequest mailSetup.parse evt = some req ∧
      s.logic = .sending evt [.sendProto evt.conn (confirmation req.targetUsername req.text)] ∧
      ¬ Delivered mailSetup s evt req := by
  have hrun : (mailRun AnyStep (mailQueued ++ [.take, .examine, .call sampleEnv, .close 0,
      .output, .output] ++ handleSteps 1 ++ [.take]) [.call sampleEnv, .output]).any (fun s =>
      s.logic = .sending mail [.sendProto 1 (confirmation "a" "hi")] ∧
      s.app.onlineUsers "a" = some 0 ∧ ¬ Answered s.log 0) := by
    decide +kernel
  obtain ⟨s, hmail, hP⟩ := (Option.any_eq_true _ _).mp hrun
  obtain ⟨hlogic, hdir, hlog⟩ := of_decide_eq_true hP
  refine ⟨s, mail, ⟨"a", "hi"⟩, mailRun_reachable hmail, rfl, hlogic, ?_⟩
  intro ⟨d, session, time, hd, _, hentry, _⟩
  cases hdir.symm.trans hd
  exact hlog ⟨_, hentry, by simp [appendsTo]⟩

end Samples

end ChatServer.Confirmation
