import ChatServer.LineServer.EventLoop

/-!
What a client of the second version is sent. The welcome and the answers to the names
that it enters are sent directly, the broadcasts through `out_buf`. A connection
that awaits its username gets no broadcasts, and after it has logged in it gets
nothing else, so the direct replies never come between the bytes of a broadcast that
is sent in pieces.
-/
namespace ChatServer.LineServer.EventLoop

open Lib.Runs MessageTasks TotalOrder

variable {W : Type*} {fds : ServerFds} {l m : Loop W} {c : ConnId}

/-- The answers to the lines that were taken for a username. -/
def answersTo (conn : Connection) : List Text :=
  match conn.state with
  | .awaitingUsername => List.replicate conn.entered.length errorMessage
  | .active => List.replicate (conn.entered.length - 1) errorMessage ++ [validMessage]

/-- What the kernel has taken of the direct replies. -/
def direct (replies : List (Text × ℕ)) : Bytes := replies.flatMap fun r => r.1.take r.2

/-- The fields of a connection that its stream depends on. -/
def streamView (conn : Connection) : ConnState × List Text × List Broadcast × Bytes :=
  (conn.state, conn.entered, conn.appended, conn.sent)

structure Streamed (l : Loop W) : Prop where
  fresh : ∀ c, l.server.accepted ≤ c → l.wire c = [] ∧ l.replies c = []
  wire : ∀ c, l.wire c = direct (l.replies c) ++ (l.server.conns c).sent
  silent : ∀ c, (l.server.conns c).state = .awaitingUsername → (l.server.conns c).appended = []
  answers : ∀ c, c < l.server.accepted →
    (l.replies c).map Prod.fst = welcomeMessage :: answersTo (l.server.conns c)

theorem dispatch_conns (fds : ServerFds) (s : Server W) (e : Event) :
    (s.dispatch fds e.fd e.error e.input e.output).conns = s.conns ∧
      (s.dispatch fds e.fd e.error e.input e.output).accepted = s.accepted := by
  unfold Server.dispatch Server.drain
  split
  · exact ⟨rfl, rfl⟩
  · split
    · exact ⟨rfl, rfl⟩
    · split
      · split <;> exact ⟨rfl, rfl⟩
      · split
        · exact ⟨rfl, rfl⟩
        · split
          · exact ⟨rfl, rfl⟩
          · split <;> exact ⟨rfl, rfl⟩

theorem leave_conns (s : Server W) (c : ConnId) :
    (s.leave c).conns = s.conns ∧ (s.leave c).accepted = s.accepted := by
  unfold Server.leave
  split <;> exact ⟨rfl, rfl⟩

theorem direct_append (replies : List (Text × ℕ)) (msg : Text) (taken : ℕ) :
    direct (replies ++ [(msg, taken)]) = direct replies ++ msg.take taken := by
  simp [direct]

namespace Streamed

/-- A step that sends nothing. -/
theorem frame (h : Streamed l) (hwire : m.wire = l.wire) (hreplies : m.replies = l.replies)
    (haccepted : m.server.accepted = l.server.accepted)
    (hview : ∀ c, streamView (m.server.conns c) = streamView (l.server.conns c)) :
    Streamed m := by
  have hfields : ∀ c, (m.server.conns c).state = (l.server.conns c).state ∧
      (m.server.conns c).entered = (l.server.conns c).entered ∧
      (m.server.conns c).appended = (l.server.conns c).appended ∧
      (m.server.conns c).sent = (l.server.conns c).sent := by
    intro c
    simpa [streamView] using hview c
  refine ⟨?_, ?_, ?_, ?_⟩
  · rw [haccepted, hwire, hreplies]
    exact h.fresh
  · intro c
    rw [hwire, hreplies, (hfields c).2.2.2]
    exact h.wire c
  · intro c
    rw [(hfields c).1, (hfields c).2.2.1]
    exact h.silent c
  · intro c hc
    rw [haccepted] at hc
    rw [hreplies, answersTo, (hfields c).1, (hfields c).2.1]
    exact h.answers c hc

/-- A step that touches the connections at most beside their streams. -/
theorem setConn (h : Streamed l) {s : Server W} {conn : Connection}
    (hwire : m.wire = l.wire) (hreplies : m.replies = l.replies)
    (haccepted : m.server.accepted = l.server.accepted)
    (hconns : m.server.conns = (s.setConn c conn).conns) (hs : s.conns = l.server.conns)
    (hview : streamView conn = streamView (l.server.conns c)) : Streamed m := by
  refine h.frame hwire hreplies haccepted fun d => ?_
  rw [hconns, ← hs]
  exact s.setConn_same streamView (by rw [hs]; exact hview) d

/-- A connection that awaits its username has not been sent anything buffered. -/
theorem sent_of_awaiting (h : Streamed l) (hordered : Ordered l.server)
    (hstate : (l.server.conns c).state = .awaitingUsername) :
    (l.server.conns c).sent = [] ∧ (l.server.conns c).outBuf = [] := by
  have hboth := hordered.sent c
  rw [h.silent c hstate] at hboth
  exact List.append_eq_nil_iff.mp hboth

/-- A direct reply to a connection that awaits its username. -/
theorem reply (h : Streamed l) (hordered : Ordered l.server) (msg : Text) (taken : ℕ)
    {conn : Connection} (hmade : c < l.server.accepted)
    (hstate : (l.server.conns c).state = .awaitingUsername)
    (hwire : m.wire = (l.reply c msg taken).wire)
    (hreplies : m.replies = (l.reply c msg taken).replies)
    (haccepted : m.server.accepted = l.server.accepted)
    (hconns : m.server.conns = Function.update l.server.conns c conn)
    (hsent : conn.sent = (l.server.conns c).sent)
    (happended : conn.appended = (l.server.conns c).appended)
    (hanswers : answersTo conn = answersTo (l.server.conns c) ++ [msg]) : Streamed m := by
  have hnothing := (h.sent_of_awaiting hordered hstate).1
  have hself : m.server.conns c = conn := by rw [hconns, Function.update_self]
  have hother : ∀ d, d ≠ c → m.server.conns d = l.server.conns d ∧ m.wire d = l.wire d ∧
      m.replies d = l.replies d := by
    intro d hd
    rw [hconns, hwire, hreplies]
    exact ⟨Function.update_of_ne hd _ _, Function.update_of_ne hd _ _,
      Function.update_of_ne hd _ _⟩
  have hself' : m.wire c = l.wire c ++ msg.take taken ∧
      m.replies c = l.replies c ++ [(msg, taken)] := by
    rw [hwire, hreplies]
    exact ⟨Function.update_self .., Function.update_self ..⟩
  refine ⟨?_, ?_, ?_, ?_⟩
  · intro d hd
    rw [haccepted] at hd
    have hne : d ≠ c := by
      rintro rfl
      exact absurd hmade (Nat.not_lt.mpr hd)
    obtain ⟨-, hw, hr⟩ := hother d hne
    rw [hw, hr]
    exact h.fresh d hd
  · intro d
    by_cases hd : d = c
    · rw [hd, hself'.1, hself'.2, hself, hsent, direct_append, h.wire c, hnothing, List.append_nil,
        List.append_nil]
    · obtain ⟨hconn, hw, hr⟩ := hother d hd
      rw [hconn, hw, hr]
      exact h.wire d
  · intro d hawaiting
    by_cases hd : d = c
    · rw [hd, hself, happended]
      exact h.silent c hstate
    · rw [(hother d hd).1] at hawaiting ⊢
      exact h.silent d hawaiting
  · intro d hmade'
    rw [haccepted] at hmade'
    by_cases hd : d = c
    · rw [hd, hself'.2, hself, List.map_append, h.answers c hmade, hanswers]
      rfl
    · obtain ⟨hconn, -, hr⟩ := hother d hd
      rw [hconn, hr]
      exact h.answers d hmade'

/-- A new connection is welcomed. -/
theorem accept (h : Streamed l) {fd : ℕ} (taken : ℕ)
    (hwire : m.wire = (l.reply l.server.accepted welcomeMessage taken).wire)
    (hreplies : m.replies = (l.reply l.server.accepted welcomeMessage taken).replies)
    (hserver : m.server = l.server.accept fd) : Streamed m := by
  have hself : m.server.conns l.server.accepted = .new fd := by
    rw [hserver]
    exact Function.update_self ..
  have hother : ∀ d, d ≠ l.server.accepted → m.server.conns d = l.server.conns d ∧
      m.wire d = l.wire d ∧ m.replies d = l.replies d := by
    intro d hd
    rw [hserver, hwire, hreplies]
    exact ⟨Function.update_of_ne hd _ _, Function.update_of_ne hd _ _,
      Function.update_of_ne hd _ _⟩
  obtain ⟨hnowire, hnoreply⟩ := h.fresh l.server.accepted (Nat.le_refl _)
  have hself' : m.wire l.server.accepted = welcomeMessage.take taken ∧
      m.replies l.server.accepted = [(welcomeMessage, taken)] := by
    rw [hwire, hreplies]
    constructor
    · refine (Function.update_self ..).trans ?_
      rw [hnowire]
      rfl
    · refine (Function.update_self ..).trans ?_
      rw [hnoreply]
      rfl
  have haccepted : m.server.accepted = l.server.accepted + 1 := by
    rw [hserver]
    rfl
  refine ⟨?_, ?_, ?_, ?_⟩
  · intro d hd
    rw [haccepted] at hd
    obtain ⟨-, hw, hr⟩ := hother d (Nat.ne_of_gt hd)
    rw [hw, hr]
    exact h.fresh d (Nat.le_of_succ_le hd)
  · intro d
    by_cases hd : d = l.server.accepted
    · rw [hd, hself'.1, hself'.2, hself]
      simp [direct, Connection.new]
    · obtain ⟨hconn, hw, hr⟩ := hother d hd
      rw [hconn, hw, hr]
      exact h.wire d
  · intro d hawaiting
    by_cases hd : d = l.server.accepted
    · rw [hd, hself]
      rfl
    · rw [(hother d hd).1] at hawaiting ⊢
      exact h.silent d hawaiting
  · intro d hd
    rw [haccepted] at hd
    by_cases heq : d = l.server.accepted
    · rw [heq, hself'.2, hself]
      rfl
    · obtain ⟨hconn, -, hr⟩ := hother d heq
      rw [hconn, hr]
      exact h.answers d (lt_of_le_of_ne (Nat.le_of_lt_succ hd) heq)

/-- handle_write sends a part of the buffer. -/
theorem transmit (h : Streamed l) {bytes : Bytes} {conn : Connection}
    (hmade : c < l.server.accepted)
    (hwire : m.wire = (l.transmit c bytes).wire) (hreplies : m.replies = l.replies)
    (haccepted : m.server.accepted = l.server.accepted)
    (hconns : m.server.conns = Function.update l.server.conns c conn)
    (hsent : conn.sent = (l.server.conns c).sent ++ bytes)
    (happended : conn.appended = (l.server.conns c).appended)
    (hstate : conn.state = (l.server.conns c).state)
    (hentered : conn.entered = (l.server.conns c).entered) : Streamed m := by
  have hself : m.server.conns c = conn := by rw [hconns, Function.update_self]
  have hother : ∀ d, d ≠ c → m.server.conns d = l.server.conns d ∧ m.wire d = l.wire d := by
    intro d hd
    rw [hconns, hwire]
    exact ⟨Function.update_of_ne hd _ _, Function.update_of_ne hd _ _⟩
  refine ⟨?_, ?_, ?_, ?_⟩
  · intro d hd
    rw [haccepted] at hd
    have hne : d ≠ c := by
      rintro rfl
      exact absurd hmade (Nat.not_lt.mpr hd)
    rw [hreplies, (hother d hne).2]
    exact h.fresh d hd
  · intro d
    by_cases hd : d = c
    · have hbytes : m.wire c = l.wire c ++ bytes := by
        rw [hwire]
        exact Function.update_self ..
      rw [hd, hbytes, hreplies, hself, hsent, h.wire c, List.append_assoc]
    · rw [hreplies, (hother d hd).1, (hother d hd).2]
      exact h.wire d
  · intro d hawaiting
    by_cases hd : d = c
    · rw [hd, hself] at hawaiting ⊢
      rw [happended]
      exact h.silent c (hstate.symm.trans hawaiting)
    · rw [(hother d hd).1] at hawaiting ⊢
      exact h.silent d hawaiting
  · intro d hd
    rw [haccepted] at hd
    rw [hreplies]
    by_cases heq : d = c
    · rw [heq, hself, answersTo, hstate, hentered]
      exact h.answers c hmade
    · rw [(hother d heq).1]
      exact h.answers d hd

/-- handle_broadcasts appends to the buffers of active connections. -/
theorem deliver (h : Streamed l) (htabled : Tabled l.server) {messages : List Broadcast}
    (hwire : m.wire = l.wire) (hreplies : m.replies = l.replies)
    (hserver : m.server = l.server.deliver messages) : Streamed m := by
  have hconn : ∀ c, m.server.conns c = if c ∈ l.server.activeConns ∧ (l.server.conns c).Listens
      then (l.server.conns c).append ((l.server.conns c).wanted messages)
      else l.server.conns c := by
    intro c
    rw [hserver]
    exact htabled.deliver_conns messages c
  have hkept : ∀ c, (m.server.conns c).state = (l.server.conns c).state ∧
      (m.server.conns c).entered = (l.server.conns c).entered ∧
      (m.server.conns c).sent = (l.server.conns c).sent := by
    intro c
    rw [hconn]
    split <;> exact ⟨rfl, rfl, rfl⟩
  have haccepted : m.server.accepted = l.server.accepted := by
    rw [hserver]
    rfl
  refine ⟨?_, ?_, ?_, ?_⟩
  · rw [haccepted, hwire, hreplies]
    exact h.fresh
  · intro c
    rw [hwire, hreplies, (hkept c).2.2]
    exact h.wire c
  · intro c hawaiting
    rw [(hkept c).1] at hawaiting
    rw [hconn, if_neg]
    · exact h.silent c hawaiting
    · intro ⟨_, hlistens⟩
      cases hawaiting.symm.trans hlistens.2
  · intro c hc
    rw [haccepted] at hc
    rw [hreplies, answersTo, (hkept c).1, (hkept c).2.1]
    exact h.answers c hc

theorem init : Streamed (Loop.init fds : Loop W) where
  fresh _ _ := ⟨rfl, rfl⟩
  wire _ := rfl
  silent _ _ := rfl
  answers _ hc := absurd hc (Nat.not_lt_zero _)

theorem step [DecidableEq W] (h : Streamed l) (htabled : Tabled l.server)
    (hordered : Ordered l.server) (hsteps : Steps fds l m) : Streamed m := by
  have hmade : ∀ {stage}, l.server.stage = stage → ∀ c, stage.conn? = some c →
      c < l.server.accepted := by
    rintro stage rfl
    exact htabled.made
  cases hsteps with
  | @dispatch e rest _ _ _ =>
    obtain ⟨hconns, haccepted⟩ := dispatch_conns fds l.server e
    exact h.frame rfl rfl haccepted fun c => congrArg (fun conns => streamView (conns c)) hconns
  | turn _ => exact h.frame rfl rfl rfl fun _ => rfl
  | @deliver messages _ =>
    exact h.deliver htabled (Loop.rearm_same Loop.wire (by simp) l messages)
      (Loop.rearm_same Loop.replies (by simp) l messages) rfl
  | @accept fd taken _ _ =>
    refine h.accept taken ?_ ?_ rfl
    · simp [Loop.reply]
    · simp [Loop.reply]
  | data chunk hstage =>
    exact h.setConn (s := l.server) rfl rfl rfl rfl rfl rfl
  | @login c write name rest taken hstage hstate =>
    refine h.reply hordered validMessage taken (hmade hstage c rfl) hstate ?_ ?_ rfl rfl rfl rfl ?_
    · simp
    · simp
    · simp [answersTo, hstate]
  | @refused c write name rest taken hstage hstate =>
    refine h.reply hordered errorMessage taken (hmade hstage c rfl) hstate rfl rfl rfl rfl rfl rfl
      ?_
    simp [answersTo, hstate, List.replicate_succ']
  | chat line rest task hstage hstate =>
    exact h.setConn (s := l.server) rfl rfl rfl rfl rfl rfl
  | written _ _ =>
    exact h.frame (Loop.wire_epollMod ..) (Loop.replies_epollMod ..) rfl fun _ => rfl
  | wouldBlock _ _ =>
    exact h.frame (Loop.wire_epollMod ..) (Loop.replies_epollMod ..) rfl fun _ => rfl
  | @sent c count hstage =>
    exact h.transmit (hmade hstage c rfl) rfl rfl rfl rfl rfl rfl rfl rfl
  | exchange hstage => exact h.setConn (s := l.server) rfl rfl rfl rfl rfl rfl
  | @leave c write hstage =>
    obtain ⟨hconns, haccepted⟩ := leave_conns l.server c
    exact h.frame (Loop.wire_writeNotify ..) (Loop.replies_writeNotify ..) haccepted fun c =>
      congrArg (fun conns => streamView (conns c)) hconns
  | leaveNameless _ => exact h.frame rfl rfl rfl fun _ => rfl
  | release _ => exact h.frame rfl rfl rfl fun _ => rfl
  | stop _ hconns haccepted hwire hreplies =>
    exact h.frame hwire hreplies haccepted fun c =>
      congrArg (fun conns => streamView (conns c)) hconns
  | shutdown _ => exact h.frame rfl rfl rfl fun _ => rfl
  | workerTurn _ => exact h.frame rfl rfl rfl fun _ => rfl
  | take _ => exact h.frame rfl rfl rfl fun _ => rfl
  | push _ _ => exact h.frame rfl rfl rfl fun _ => rfl
  | otherOpens _ => exact h.frame rfl rfl rfl fun _ => rfl
  | otherCloses _ => exact h.frame rfl rfl rfl fun _ => rfl
  | wait _ _ _ => exact h.frame rfl rfl rfl fun _ => rfl
  | readNotify _ _ => exact h.frame rfl rfl rfl fun _ => rfl
  | notify _ =>
    refine h.frame (Loop.wire_writeNotify ..) (Loop.replies_writeNotify ..) ?_ fun c => ?_
    · simp
    · simp
  | wake =>
    refine h.frame (Loop.wire_wake ..) (Loop.replies_wake ..) ?_ fun c => ?_
    · simp
    · simp
  | forget _ _ => exact h.frame rfl rfl rfl fun _ => rfl
  | drained _ =>
    refine h.frame (Loop.wire_wake ..) (Loop.replies_wake ..) ?_ fun c => ?_
    · simp
    · simp
  | drainedUnwatched _ => exact h.frame rfl rfl rfl fun _ => rfl
  | filled => exact h.frame rfl rfl rfl fun _ => rfl

end Streamed

section Reachable

variable [Fintype W] [DecidableEq W] {allowed : Loop W → Action W → Prop}

theorem streamed (hl : Reachable (machine fds) allowed l) : Streamed l :=
  hl.invariant_of_reachable (P := Streamed) .init fun _ _ _ hreach h _ hnext =>
    h.step (tabled (server_reachable hreach)) (ordered (server_reachable hreach))
      (next_steps hnext)

/-- The bytes that the kernel took for a connection are the direct replies, each cut
where the kernel took no more, and then a beginning of the broadcasts that were
appended; the replies are the welcome and one answer for each name entered, of which
only the last accepts. -/
theorem stream_exact (hl : Reachable (machine fds) allowed l) (hmade : c < l.server.accepted) :
    l.wire c = direct (l.replies c) ++ (l.server.conns c).sent ∧
      (l.replies c).map Prod.fst = welcomeMessage :: answersTo (l.server.conns c) ∧
      (l.server.conns c).sent ++ (l.server.conns c).outBuf =
        (l.server.conns c).appended.flatMap Broadcast.msg :=
  ⟨(streamed hl).wire c, (streamed hl).answers c hmade, (ordered (server_reachable hl)).sent c⟩

end Reachable

section Sample

/-- A client whose empty name is refused and who then logs in as amy; the kernel takes
20 bytes of the refusal, and 5 bytes of the announcement so far. -/
def streamRun : List (Action Unit) :=
  [.wake 4, .wait [⟨4, false, true, false⟩], .server (.epollEvent 4 false true false) 0,
    .server (.accept 7) 100, .server .acceptFails 0, .wake 7, .wait [⟨7, false, true, false⟩],
    .server (.epollEvent 7 false true false) 0, .server (.recv (.bytes (text "\namy\n"))) 0,
    .server .reactor 20, .server .reactor 100, .server .reactor 0, .server (.recv .wouldBlock) 0,
    .wait [⟨6, false, true, false⟩], .readNotify, .server (.epollEvent 6 false true false) 0,
    .server .reactor 0, .drained 7, .wait [⟨7, false, false, true⟩],
    .server (.epollEvent 7 false false true) 0, .server (.send (.bytes 5)) 0]

theorem stream_exact_amy : ∃ l : Loop Unit, Reachable (machine sampleFds) AnyStep l ∧
    (0 < l.server.accepted ∧ (l.replies 0).map Prod.snd = [100, 20, 100] ∧
      (l.server.conns 0).sent.length = 5) ∧
    l.wire 0 = direct (l.replies 0) ++ (l.server.conns 0).sent ∧
    (l.replies 0).map Prod.fst = welcomeMessage :: answersTo (l.server.conns 0) ∧
    (l.server.conns 0).sent ++ (l.server.conns 0).outBuf =
      (l.server.conns 0).appended.flatMap Broadcast.msg := by
  have hrun : (run (machine sampleFds) AnyStep (machine sampleFds).init streamRun).any (fun l =>
      0 < l.server.accepted ∧ (l.replies 0).map Prod.snd = [100, 20, 100] ∧
        (l.server.conns 0).sent.length = 5) = true := by
    decide +kernel
  obtain ⟨l, hl, h⟩ := exists_reachable hrun
  exact ⟨l, hl, h, stream_exact hl h.1⟩

end Sample

end ChatServer.LineServer.EventLoop
