import ChatServer.LineServer.Connections

/-!
The broadcasts of the second version. Any thread may queue a message; the main thread
drains the queue, copies the table and appends to the buffer of each connection
that it does not skip. The order of the queue is the order for everybody, and
what handle_write sends is the beginning of what was appended.
-/
namespace ChatServer.LineServer

open Lib.Runs MessageTasks

/-- During handle_broadcasts the connection is in `connections_`, not closed and active. -/
def Drain.Reaches (d : Drain) (c : ConnId) : Prop :=
  c ∈ d.connections.entries.map Sigma.snd ∧ (d.conns c).closed = false ∧
    (d.conns c).state = .active

instance (d : Drain) (c : ConnId) : Decidable (d.Reaches c) :=
  inferInstanceAs (Decidable (_ ∧ _ ∧ _))

/-- What a drain has for a connection: everything that it did not send itself. -/
def Drain.forConn (d : Drain) (c : ConnId) : List Broadcast :=
  if d.Reaches c then d.messages.filter fun m => m.senderFd ≠ some (d.conns c).fd else []

/-- The messages of the queue are numbered in the order of the calls of
queue_broadcast_message. -/
structure TotallyOrdered {W : Type*} (s : Server W) : Prop where
  numbered : s.queued.map Broadcast.number = List.range s.queued.length
  /-- The drains take the messages in this order, each in one drain. -/
  drained : s.drains.flatMap Drain.messages <+: s.queued
  /-- A connection gets what the drains that reach it have for it. -/
  appended : ∀ c, (s.conns c).appended = s.drains.flatMap fun d => d.forConn c
  increasing : ∀ c, (s.conns c).appended.Pairwise fun m n => m.number < n.number
  sameOrder : ∀ c d, (s.conns c).appended.filter (· ∈ (s.conns d).appended) =
    (s.conns d).appended.filter (· ∈ (s.conns c).appended)
  /-- `out_buf` is what is left of it when the bytes that were sent are taken off. -/
  sent : ∀ c, (s.conns c).sent ++ (s.conns c).outBuf =
    (s.conns c).appended.flatMap Broadcast.msg

namespace TotalOrder

variable {W : Type*} {s t : Server W} {c d : ConnId}

/-- The messages that handle_broadcasts has taken and not yet passed on. -/
def inProgress : Stage → List Broadcast
  | .broadcasting messages => messages
  | _ => []

/-- The messages of the drains, with those not yet passed on, are all the messages in
the order in which they were queued; a connection gets those of the drains that
reach it; and it is sent what it gets. -/
structure Ordered (s : Server W) : Prop where
  queued : s.drains.flatMap Drain.messages ++ inProgress s.stage ++ s.broadcastQueue = s.queued
  numbered : s.queued.map Broadcast.number = List.range s.queued.length
  appended : ∀ c, (s.conns c).appended = s.drains.flatMap fun d => d.forConn c
  sent : ∀ c, (s.conns c).sent ++ (s.conns c).outBuf = (s.conns c).appended.flatMap Broadcast.msg

theorem append_nil (conn : Connection) : conn.append [] = conn := by
  simp [Connection.append]

namespace Ordered

/-- A step that has nothing to do with broadcasts. -/
theorem keep (h : Ordered s) (hqueued : t.queued = s.queued) (hdrains : t.drains = s.drains)
    (hqueue : t.broadcastQueue = s.broadcastQueue)
    (hstage : inProgress t.stage = inProgress s.stage)
    (happended : ∀ c, (t.conns c).appended = (s.conns c).appended)
    (hsent : ∀ c, (t.conns c).sent ++ (t.conns c).outBuf = (s.conns c).sent ++ (s.conns c).outBuf) :
    Ordered t where
  queued := by
    rw [hdrains, hstage, hqueue, hqueued]
    exact h.queued
  numbered := by
    rw [hqueued]
    exact h.numbered
  appended c := by
    rw [happended, hdrains]
    exact h.appended c
  sent c := by
    rw [hsent, happended]
    exact h.sent c

theorem goto (h : Ordered s) {stage : Stage} (hstage : inProgress stage = inProgress s.stage) :
    Ordered (s.goto stage) :=
  h.keep rfl rfl rfl hstage (fun _ => rfl) (fun _ => rfl)

theorem setConn (h : Ordered s) {conn : Connection}
    (happended : conn.appended = (s.conns c).appended)
    (hsent : conn.sent ++ conn.outBuf = (s.conns c).sent ++ (s.conns c).outBuf) :
    Ordered (s.setConn c conn) :=
  h.keep rfl rfl rfl rfl (s.setConn_same Connection.appended happended)
    (s.setConn_same (fun conn => conn.sent ++ conn.outBuf) hsent)

theorem turn (h : Ordered s) {stage : Stage} (hturn : Turns s stage) : Ordered (s.goto stage) := by
  refine h.goto ?_
  cases hturn with
  | @wouldBlock c write hstage | @closed c write hstage hclosed =>
    rw [hstage]
    cases write <;> rfl
  | @finish again hstage =>
    rw [hstage]
    cases again <;> rfl
  | _ hstage => exact (congrArg inProgress hstage).symm

theorem queueBroadcastMessage (h : Ordered s) (msg : Text) (senderFd : Option ℕ)
    (origin : Option (ConnId × Text)) :
    Ordered (s.queueBroadcastMessage msg senderFd origin) where
  queued := by
    show _ ++ (s.broadcastQueue ++ _) = s.queued ++ _
    rw [← List.append_assoc]
    exact congrArg (· ++ _) h.queued
  numbered := by
    show (s.queued ++ _).map _ = List.range (s.queued ++ _).length
    rw [List.map_append, List.length_append, h.numbered]
    exact List.range_succ.symm
  appended := h.appended
  sent := h.sent

theorem setWorker [DecidableEq W] (h : Ordered s) (w : W) (stage : Worker) :
    Ordered (s.setWorker w stage) :=
  h.keep rfl rfl rfl rfl (fun _ => rfl) (fun _ => rfl)

theorem drain (h : Ordered s) (hstage : s.stage = .polling) :
    Ordered { s with broadcastQueue := [], stage := .broadcasting s.broadcastQueue } where
  queued := by
    have hqueued := h.queued
    rw [hstage] at hqueued
    simpa [inProgress] using hqueued
  numbered := h.numbered
  appended := h.appended
  sent := h.sent

/-- The drain reaches exactly the connections that the loop does not skip. -/
theorem deliver (h : Ordered s) (htabled : Tabled s) {messages : List Broadcast}
    (hstage : s.stage = .broadcasting messages) : Ordered (s.deliver messages) := by
  let drain : Drain := ⟨messages, s.conns, s.connections⟩
  have hconn : ∀ c, (s.deliver messages).conns c = (s.conns c).append (drain.forConn c) := by
    intro c
    rw [htabled.deliver_conns]
    by_cases hreaches : drain.Reaches c
    · rw [Drain.forConn, if_pos hreaches]
      exact if_pos hreaches
    · rw [Drain.forConn, if_neg hreaches, append_nil]
      exact if_neg hreaches
  constructor
  · have hqueued := h.queued
    rw [hstage] at hqueued
    show (s.drains ++ [drain]).flatMap Drain.messages ++ [] ++ s.broadcastQueue = s.queued
    rw [List.flatMap_append, List.append_nil, ← hqueued]
    exact congrArg (s.drains.flatMap Drain.messages ++ · ++ _) (List.append_nil messages)
  · exact h.numbered
  · intro c
    rw [hconn]
    show (s.conns c).appended ++ _ = (s.drains ++ [drain]).flatMap _
    rw [h.appended, List.flatMap_append]
    exact congrArg _ (List.append_nil _).symm
  · intro c
    rw [hconn]
    show (s.conns c).sent ++ ((s.conns c).outBuf ++ _) = ((s.conns c).appended ++ _).flatMap _
    rw [← List.append_assoc, h.sent, List.flatMap_append]

theorem accept (h : Ordered s) (htabled : Tabled s) (fd : ℕ) : Ordered (s.accept fd) := by
  have hfresh := htabled.fresh s.accepted (le_refl _)
  have hsame : ∀ {β : Type} (f : Connection → β), f (.new fd) = f (.new 0) →
      ∀ c, f ((s.accept fd).conns c) = f (s.conns c) := by
    intro β f hf c
    by_cases hc : c = s.accepted
    · rw [hc, hfresh, ← hf]
      exact congrArg f (Function.update_self _ _ _)
    · exact congrArg f (Function.update_of_ne hc _ _)
  exact h.keep rfl rfl rfl rfl (hsame Connection.appended rfl)
    (hsame (fun conn => conn.sent ++ conn.outBuf) rfl)

theorem init (fds : ServerFds) : Ordered (.init fds : Server W) where
  queued := rfl
  numbered := rfl
  appended _ := rfl
  sent _ := rfl

theorem moves [DecidableEq W] {fds : ServerFds} (h : Ordered s) (htabled : Tabled s)
    (hmoves : Moves fds s t) : Ordered t := by
  cases hmoves with
  | turn hturn => exact h.turn hturn
  | drain hstage => exact h.drain hstage
  | deliver hstage => exact h.deliver htabled hstage
  | @accept fd hstage hfree => exact h.accept htabled fd
  | data chunk hstage =>
    refine Ordered.goto ?_ ?_
    · exact h.setConn rfl rfl
    · exact (congrArg inProgress hstage).symm
  | login =>
    refine Ordered.queueBroadcastMessage ?_ _ _ _
    refine Ordered.setConn ?_ rfl rfl
    exact h.keep rfl rfl rfl rfl (fun _ => rfl) (fun _ => rfl)
  | refused => exact h.setConn rfl rfl
  | @chat c write line rest =>
    have hconn : Ordered (s.setConn c { s.conns c with
        inBuf := rest
        chatted := (s.conns c).chatted ++ [line] }) := h.setConn rfl rfl
    exact hconn.keep rfl rfl rfl rfl (fun _ => rfl) (fun _ => rfl)
  | @sent c count hstage =>
    refine h.setConn rfl ?_
    show (s.conns c).sent ++ _ ++ _ = _
    rw [List.append_assoc, List.take_append_drop]
  | exchange hstage hopen =>
    refine Ordered.goto ?_ ?_
    · exact h.setConn rfl rfl
    · exact (congrArg inProgress hstage).symm
  | leave hstage hname =>
    refine Ordered.goto ?_ ?_
    · refine Ordered.queueBroadcastMessage ?_ _ _ _
      exact h.keep rfl rfl rfl rfl (fun _ => rfl) (fun _ => rfl)
    · exact (congrArg inProgress hstage).symm
  | leaveNameless hstage hname => exact h.goto (congrArg inProgress hstage).symm
  | @release c write hstage =>
    refine h.keep rfl rfl rfl ?_ (fun _ => rfl) (fun _ => rfl)
    rw [hstage]
    cases write <;> rfl
  | shutdown hstage | closeClient hstage | clear hstage | closeServer hstage =>
    exact h.keep rfl rfl rfl (congrArg inProgress hstage).symm (fun _ => rfl) (fun _ => rfl)
  | workerTurn | take | otherOpens | otherCloses =>
    exact h.keep rfl rfl rfl rfl (fun _ => rfl) (fun _ => rfl)
  | push => exact (h.queueBroadcastMessage _ _ _).setWorker _ _

theorem drained (h : Ordered s) : s.drains.flatMap Drain.messages <+: s.queued := by
  rw [← h.queued, List.append_assoc]
  exact List.prefix_append _ _

/-- The messages of the drains that are for a connection are in the order of the queue. -/
theorem appended_sublist (h : Ordered s) (c : ConnId) :
    (s.conns c).appended.Sublist s.queued := by
  have hdrain : ∀ d : Drain, (d.forConn c).Sublist d.messages := by
    intro d
    unfold Drain.forConn
    split
    · exact List.filter_sublist
    · exact List.nil_sublist _
  have hdrains : ∀ ds : List Drain,
      (ds.flatMap fun d => d.forConn c).Sublist (ds.flatMap Drain.messages) := by
    intro ds
    induction ds with
    | nil => exact List.Sublist.refl _
    | cons d ds ih => exact (hdrain d).append ih
  rw [h.appended]
  exact (hdrains s.drains).trans h.drained.sublist

theorem numbers_increase (h : Ordered s) (c : ConnId) :
    (s.conns c).appended.Pairwise fun m n => m.number < n.number := by
  have hqueued : (s.queued.map Broadcast.number).Pairwise (· < ·) := by
    rw [h.numbered]
    exact List.pairwise_lt_range
  exact (List.pairwise_map.mp hqueued).sublist (h.appended_sublist c)

theorem sameOrder (h : Ordered s) (c d : ConnId) :
    (s.conns c).appended.filter (· ∈ (s.conns d).appended) =
      (s.conns d).appended.filter (· ∈ (s.conns c).appended) := by
  have hnodup : ∀ c, (s.conns c).appended.Nodup := by
    intro c
    refine (h.numbers_increase c).imp ?_
    rintro m n hlt rfl
    exact lt_irrefl _ hlt
  have hperm : ((s.conns c).appended.filter (· ∈ (s.conns d).appended)).Perm
      ((s.conns d).appended.filter (· ∈ (s.conns c).appended)) := by
    refine (List.perm_ext_iff_of_nodup ((hnodup c).filter _) ((hnodup d).filter _)).mpr ?_
    intro m
    simp only [List.mem_filter, decide_eq_true_eq]
    exact and_comm
  refine hperm.eq_of_pairwise ?_ ((h.numbers_increase c).filter _) ((h.numbers_increase d).filter _)
  intro m n _ _ hlt hgt
  exact absurd hlt (Nat.lt_asymm hgt)

end Ordered

section Reachable

variable [Fintype W] [DecidableEq W] {fds : ServerFds} {allowed : Server W → Action W → Prop}

theorem ordered (hs : Reachable (machine fds) allowed s) : Ordered s :=
  hs.invariant_of_reachable (.init fds) fun _ _ _ hreach h _ hnext =>
    h.moves (tabled hreach) (moves_of_next hnext)

/-- Whatever the workers and the main thread do, everybody gets the messages in the
order in which they were queued. -/
theorem total_order (hs : Reachable (machine fds) AnyStep s) : TotallyOrdered s where
  numbered := (ordered hs).numbered
  drained := (ordered hs).drained
  appended := (ordered hs).appended
  increasing := (ordered hs).numbers_increase
  sameOrder := (ordered hs).sameOrder
  sent := (ordered hs).sent

end Reachable

section Samples

/-- amy is told of both arrivals and of bob's line, bob of his own arrival and not of his
line, and amy has been sent 20 bytes. -/
theorem total_order_two : ∃ s : Server Unit,
    ((s.conns 0).appended.map Broadcast.number = [0, 1, 2] ∧
      (s.conns 1).appended.map Broadcast.number = [1] ∧ (s.conns 0).sent.length = 20) ∧
      TotallyOrdered s := by
  have hrun : (run (machine sampleFds) AnyStep (machine sampleFds).init
      ([.work (), .epollEvent 4 false true false, .accept 7, .accept 8, .acceptFails,
        .epollEvent 7 false true false, .recv (.bytes (text "amy\n")), .reactor, .reactor,
        .recv .wouldBlock, .epollEvent 6 false true false, .reactor,
        .epollEvent 8 false true false, .recv (.bytes (text "bob\nhi\n")), .reactor, .reactor,
        .work (), .work (), .reactor, .recv .wouldBlock, .work (),
        .epollEvent 6 false true false, .reactor,
        .epollEvent 7 false false true, .send (.bytes 20), .send .wouldBlock] :
        List (Action Unit))).any (fun s =>
          (s.conns 0).appended.map Broadcast.number = [0, 1, 2] ∧
          (s.conns 1).appended.map Broadcast.number = [1] ∧
          (s.conns 0).sent.length = 20) = true := by
    decide +kernel
  obtain ⟨s, hs, h⟩ := exists_reachable hrun
  exact ⟨s, h, total_order hs⟩

end Samples

end TotalOrder

end ChatServer.LineServer
