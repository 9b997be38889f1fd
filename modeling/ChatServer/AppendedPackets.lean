import ChatServer.LifeCycle

/-!
The packets that are appended to the queues of the connections. Only a turn of
a shard task and SendPreEncoded append, and only to an open connection. So once
a connection is closed its queue gets nothing more, whatever steps follow.
-/
namespace ChatServer.AppendedPackets

open ServerSystem LifeCycle Lib.Runs

section Appended

variable {n : ℕ} {kernel : ConnId → Kernel} {net net' : Broadcast.Server n}

/-- The packets that were appended to the queue of a connection so far. -/
def appended (net : Broadcast.Server n) (id : ConnId) : List SharedPayload :=
  ((net.conns id).map Connection.appended).getD []

theorem appended_of_conn {id : ConnId} {conn : Connection} (h : net.conns id = some conn) :
    appended net id = conn.appended := by
  simp [appended, h]

/-- What a step appends to the queue of a connection. -/
inductive Appends (net : Broadcast.Server n) (id : ConnId) (a : Broadcast.Action n)
    (net' : Broadcast.Server n) : Prop
  | nothing (h : appended net' id = appended net id)
  | turn {w : Fin n} {task : Broadcast.Task} {rest : List ConnId} (ha : a = .turn w)
      (hheld : net.workers w = some ⟨task, some (id :: rest)⟩) (hopen : flag net id = some false)
      (more : List SharedPayload) (h : appended net' id = appended net id ++ more)
  | send {packet : SharedPayload} (ha : a = .connOp id (.sendPreEncoded packet))
      (hopen : flag net id = some false) (h : appended net' id = appended net id ++ [packet])

theorem appended_setConn (id c : ConnId) (conn : Connection) :
    appended (net.setConn id conn) c = if c = id then conn.appended else appended net c := by
  by_cases hc : c = id
  · simp [appended, Broadcast.Server.setConn, hc]
  · simp [appended, Broadcast.Server.setConn, hc]

theorem appends_setConn_same {id c : ConnId} {conn conn' : Connection} {a : Broadcast.Action n}
    (hconn : net.conns id = some conn) (h : conn'.appended = conn.appended) :
    Appends net c a (net.setConn id conn') := by
  refine .nothing ?_
  rw [appended_setConn]
  split
  · rename_i hc
    subst hc
    exact h.trans (appended_of_conn hconn).symm
  · rfl

theorem appended_send {id : ConnId} {conn : Connection} {packet : SharedPayload}
    (hconn : net.conns id = some conn) (hopen : conn.closed = false) :
    appended (net.setConn id (sendPreEncoded (kernel id) conn packet)) id =
      appended net id ++ [packet] := by
  have hmarks := ShardTask.sendPreEncoded_marks (kernel id) conn packet hopen
  simp only [ShardTask.marks, Prod.mk.injEq] at hmarks
  rw [appended_setConn, if_pos rfl, appended_of_conn hconn]
  exact hmarks.2.2

theorem appends_connOp {id : ConnId} {op : ConnOp} {conn : Connection}
    (hop : Broadcast.Ordinary op) (hconn : net.conns id = some conn) (c : ConnId) :
    Appends net c (.connOp id op) (net.setConn id (op.apply (kernel id) conn)) := by
  cases op with
  | sendPreEncoded packet =>
    cases hclosed : conn.closed with
    | true =>
      have hsame : sendPreEncoded (kernel id) conn packet = conn := if_pos hclosed
      exact appends_setConn_same hconn (congrArg Connection.appended hsame)
    | false =>
      by_cases hc : c = id
      · subst hc
        exact .send rfl (by simp [flag, hconn, hclosed]) (appended_send hconn hclosed)
      · exact .nothing (by rw [appended_setConn, if_neg hc])
  | shardTask events => cases hop
  | flush =>
    exact appends_setConn_same hconn
      (congrArg (fun m => m.2.2) (ShardTask.flushBody_marks (kernel id) conn))
  | handleWrite =>
    exact appends_setConn_same hconn
      (congrArg (fun m => m.2.2) (ShardTask.handleWrite_marks (kernel id) conn))
  | handleRead answers =>
    exact appends_setConn_same hconn
      (congrArg (fun m => m.2.2) (ShardTask.handleRead_marks conn answers))
  | register => exact appends_setConn_same hconn rfl
  | close => cases hop

theorem appends_turn {w : Fin n} {task : Broadcast.Task} {id : ConnId} {rest : List ConnId}
    {conn : Connection} (hheld : net.workers w = some ⟨task, some (id :: rest)⟩)
    (hconn : net.conns id = some conn) (c : ConnId) :
    Appends net c (.turn w)
      ((net.setConn id (shardTaskBody (kernel id) conn task.batch.events)).setWorker w
        (some ⟨task, some rest⟩)) := by
  have hworker : ∀ running, appended ((net.setConn id
      (shardTaskBody (kernel id) conn task.batch.events)).setWorker w running) c =
      appended (net.setConn id (shardTaskBody (kernel id) conn task.batch.events)) c :=
    fun _ => rfl
  by_cases hc : c = id
  · subst hc
    cases hclosed : conn.closed with
    | true =>
      refine .nothing ?_
      rw [hworker, appended_setConn, if_pos rfl, ShardTask.shardTaskBody_closed _ _ _ hclosed]
      exact (appended_of_conn hconn).symm
    | false =>
      have hmarks := ShardTask.shardTaskBody_marks (kernel c) conn task.batch.events hclosed
      simp only [ShardTask.marks, Prod.mk.injEq] at hmarks
      have hopen : flag net c = some false := by simp [flag, hconn, hclosed]
      have hmore := hmarks.2.2
      rw [← appended_of_conn hconn] at hmore
      refine .turn rfl hheld hopen _ (Eq.trans ?_ hmore)
      rw [hworker, appended_setConn, if_pos rfl]
  · exact .nothing (by rw [hworker, appended_setConn, if_neg hc])

theorem next_appends {a : Broadcast.Action n} (hnext : net.next kernel a = some net')
    (id : ConnId) : Appends net id a net' := by
  cases Broadcast.Server.next_moves hnext with
  | @accept c fd now hfresh =>
    refine .nothing ?_
    change appended (net.setConn c _) id = _
    rw [appended_setConn]
    split
    · rename_i hc
      simp [appended, hc, hfresh, Connection.new]
    · rfl
  | closeAgain hconn hclosed => exact .nothing rfl
  | @close c conn hconn hopen =>
    refine .nothing ?_
    change appended (net.setConn c conn.close) id = _
    rw [appended_setConn]
    split
    · rename_i hc
      subst hc
      refine Eq.trans ?_ (appended_of_conn hconn).symm
      unfold Connection.close
      split <;> rfl
    · rfl
  | turn hheld hconn => exact appends_turn hheld hconn id
  | connOp hop hconn => exact appends_connOp hop hconn id
  | broadcastNotify hinside =>
    refine .nothing ?_
    unfold Broadcast.Server.notify
    split <;> rfl
  | flush hreactor =>
    refine .nothing ?_
    unfold Broadcast.Server.swapQueue
    split <;> rfl
  | _ => exact .nothing rfl

/-- A turn at a connection for which the task has nothing to keep. -/
theorem turn_skips {w : Fin n} {task : Broadcast.Task} {id : ConnId} {rest : List ConnId}
    {conn : Connection} (hnext : net.next kernel (.turn w) = some net')
    (hheld : net.workers w = some ⟨task, some (id :: rest)⟩) (hconn : net.conns id = some conn)
    (hnone : ShardTask.keptEvents conn.fd conn.outgoingQueue.length task.batch.events = []) :
    appended net' id = appended net id := by
  cases Broadcast.Server.next_moves hnext with
  | turn hheld' hconn' =>
    cases hheld.symm.trans hheld'
    cases hconn.symm.trans hconn'
    change appended (net.setConn id (shardTaskBody (kernel id) conn task.batch.events)) id = _
    rw [appended_setConn, if_pos rfl, appended_of_conn hconn]
    cases hclosed : conn.closed with
    | true => rw [ShardTask.shardTaskBody_closed _ _ _ hclosed]
    | false =>
      have hmarks := ShardTask.shardTaskBody_marks (kernel id) conn task.batch.events hclosed
      simp only [ShardTask.marks, Prod.mk.injEq, hnone, List.map_nil, List.append_nil] at hmarks
      exact hmarks.2.2

end Appended

section Steps

variable {n : ℕ} {setup : Setup} {s t : System n} {a : Action n} {id : ConnId}

/-- A closed connection stays closed. -/
theorem isClosed_stays (hclosed : s.isClosed id = true) (hnext : s.next setup a = some t) :
    t.isClosed id = true := by
  rw [isClosed_iff] at hclosed ⊢
  exact (next_life hnext).flag_closed hclosed

/-- SendPreEncoded on an open connection appends the packet. -/
theorem appended_sent {packet : SharedPayload} {net : Broadcast.Server n}
    (hopen : s.isClosed id = false)
    (hnet : s.net.next setup.kernel (.connOp id (.sendPreEncoded packet)) = some net) :
    appended net id = appended s.net id ++ [packet] := by
  cases Broadcast.Server.next_moves hnet with
  | @connOp _ _ conn hop hconn =>
    have hconn' : conn.closed = false := by
      simpa [System.isClosed, hconn] using hopen
    exact appended_send hconn hconn'

/-- What a step of the system appends to the queue of a connection. -/
inductive Gains (setup : Setup) (s : System n) (id : ConnId) (a : Action n) (t : System n) : Prop
  | nothing (h : appended t.net id = appended s.net id)
  | turn {w : Fin n} {task : Broadcast.Task} {rest : List ConnId} (ha : a = .net (.turn w))
      (hheld : s.net.workers w = some ⟨task, some (id :: rest)⟩) (hopen : s.isClosed id = false)
      (more : List SharedPayload) (h : appended t.net id = appended s.net id ++ more)
  | send {evt : Queued} {msg : ServerMessage} {rest : List Output} (ha : a = .output)
      (hlogic : s.logic = .sending evt (.sendProto id msg :: rest))
      (hopen : s.isClosed id = false)
      (h : appended t.net id = appended s.net id ++ [⟨setup.encode msg, none⟩])

theorem isClosed_of_flag (h : flag s.net id = some false) : s.isClosed id = false := by
  cases hclosed : s.isClosed id with
  | false => rfl
  | true =>
    rw [(isClosed_iff s id).mp hclosed] at h
    cases h

theorem next_gains (hnext : s.next setup a = some t) (id : ConnId) : Gains setup s id a t := by
  -- Only a turn of a worker and SendPreEncoded append.
  have hsame : ∀ {b net}, s.net.next setup.kernel b = some net → (∀ w, b ≠ .turn w) →
      (∀ packet, b ≠ .connOp id (.sendPreEncoded packet)) →
      appended net id = appended s.net id := by
    intro b net hnet hturn hsend
    cases next_appends hnet id with
    | nothing h => exact h
    | turn ha hheld hopen more h => exact absurd ha (hturn _)
    | send ha hopen h => exact absurd ha (hsend _)
  cases System.next_steps hnext with
  | @net b net hkind hnet =>
    cases next_appends hnet id with
    | nothing h => exact .nothing h
    | turn ha hheld hopen more h =>
      exact .turn (congrArg Action.net ha) hheld (isClosed_of_flag hopen) more h
    | send ha hopen h =>
      subst ha
      simp [ofPool, ofReactor] at hkind
  | accept hidle hnet => exact .nothing (hsame hnet (by simp) (by simp))
  | register hstage hnet => exact .nothing (hsame hnet (by simp) (by simp))
  | close hidle hopen hnet => exact .nothing (hsame hnet (by simp) (by simp))
  | reactorErase hstage hnet => exact .nothing (hsame hnet (by simp) (by simp))
  | broadcast hstage hnet => exact .nothing (hsame hnet (by simp) (by simp))
  | logicClose hstage hopen hnet => exact .nothing (hsame hnet (by simp) (by simp))
  | notify hstage hnet => exact .nothing (hsame hnet (by simp) (by simp))
  | logicErase hstage hnet => exact .nothing (hsame hnet (by simp) (by simp))
  | @dropped evt conn msg rest net hstage hclosed hnet =>
    cases next_appends hnet id with
    | nothing h => exact .nothing h
    | turn ha hheld hopen more h => cases ha
    | send ha hopen h =>
      cases ha
      rw [isClosed_of_flag hopen] at hclosed
      cases hclosed
  | @append evt conn msg rest net hstage hopen hnet =>
    cases next_appends hnet id with
    | nothing h => exact .nothing h
    | turn ha hheld hopen' more h => cases ha
    | send ha hopen' h =>
      cases ha
      exact .send rfl hstage hopen h
  | _ => exact .nothing rfl

/-- An entry for an append is written exactly when the packet is appended. -/
theorem append_logged {evt : Queued} {msg : ServerMessage} {rest : List Output}
    (hlogic : s.logic = .sending evt (.sendProto id msg :: rest))
    (hnext : s.next setup .output = some t) :
    (t.log = s.log ++ [.append evt id msg] ∧
        appended t.net id = appended s.net id ++ [⟨setup.encode msg, none⟩]) ∨
      (t.log = s.log ∧ appended t.net id = appended s.net id) := by
  cases System.next_steps hnext with
  | append hstage hopen hnet =>
    cases hlogic.symm.trans hstage
    exact Or.inl ⟨rfl, appended_sent hopen hnet⟩
  | dropped hstage hclosed hnet =>
    cases hlogic.symm.trans hstage
    refine Or.inr ⟨rfl, ?_⟩
    cases next_gains hnext id with
    | nothing h => exact h
    | turn ha hheld hopen more h => cases ha
    | send ha hlogic' hopen h => cases hclosed.symm.trans hopen
  | endEvent hstage => cases hlogic.symm.trans hstage
  | broadcast hstage hnet => cases hlogic.symm.trans hstage
  | logicCloseAgain hstage hclosed => cases hlogic.symm.trans hstage
  | logicClose hstage hopen hnet => cases hlogic.symm.trans hstage

/-- Whatever steps follow, a closed connection gets no packet any more. -/
theorem appended_closed (hclosed : s.isClosed id = true) {as : List (Action n)}
    (hrun : run (machine setup n) AnyStep s as = some t) :
    appended t.net id = appended s.net id := by
  induction as generalizing s with
  | nil =>
    cases hrun
    rfl
  | cons a rest ih =>
    simp only [run, Option.ite_none_right_eq_some] at hrun
    obtain ⟨u, hnext, hrest⟩ := Option.bind_eq_some_iff.mp hrun.2
    rw [ih (isClosed_stays hclosed hnext) hrest]
    cases next_gains hnext id with
    | nothing h => exact h
    | turn ha hheld hopen more h => cases hclosed.symm.trans hopen
    | send ha hlogic hopen h => cases hclosed.symm.trans hopen

end Steps

end ChatServer.AppendedPackets
