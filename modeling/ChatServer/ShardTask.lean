import ChatServer.OutputStream

/-!
The shard task at one connection. Its turn appends the events of the batch
that are not excluded for the connection, up to the limit of the queue; no
other operation appends a broadcast. Neither touches the descriptor, and only
`close` touches the closed flag.
-/
namespace ChatServer.ShardTask

open OutputStream

/-- The fields that tell which packets a connection was given. -/
def marks (conn : Connection) : ℕ × Bool × List SharedPayload :=
  (conn.fd, conn.closed, conn.appended)

/-- The event is not excluded for the descriptor. -/
def Included (fd : ℕ) (evt : BroadcastEvent) : Prop :=
  ¬ (evt.senderFd ≠ -1 ∧ (fd : ℤ) = evt.senderFd)

instance (fd : ℕ) (evt : BroadcastEvent) : Decidable (Included fd evt) :=
  inferInstanceAs (Decidable (¬ _))

/-- The events of a batch that a turn appends to a queue of `size` packets. -/
def keptEvents (fd size : ℕ) (events : List BroadcastEvent) : List BroadcastEvent :=
  (events.filter (Included fd ·)).take (maxOutgoingQueueSize - size)

theorem keptEvents_sublist (fd size : ℕ) (events : List BroadcastEvent) :
    (keptEvents fd size events).Sublist events :=
  (List.take_sublist _ _).trans List.filter_sublist

theorem keptEvents_all {fd size : ℕ} {events : List BroadcastEvent}
    (hin : ∀ evt ∈ events, Included fd evt) (hroom : size + events.length ≤ maxOutgoingQueueSize) :
    keptEvents fd size events = events := by
  have hfilter : events.filter (Included fd ·) = events :=
    List.filter_eq_self.mpr fun evt hevt => decide_eq_true (hin evt hevt)
  rw [keptEvents, hfilter]
  exact List.take_of_length_le (by omega)

theorem appendEvents_marks (conn : Connection) (events : List BroadcastEvent) (addedAny : Bool) :
    marks (appendEvents conn events addedAny).1 =
      (conn.fd, conn.closed, conn.appended ++
        (keptEvents conn.fd conn.outgoingQueue.length events).map BroadcastEvent.payload) := by
  induction events generalizing conn addedAny with
  | nil => simp [appendEvents, marks, keptEvents]
  | cons evt rest ih =>
    unfold appendEvents
    split
    · rename_i hown
      have hnot : ¬ Included conn.fd evt := not_not.mpr hown
      have hkept : keptEvents conn.fd conn.outgoingQueue.length (evt :: rest) =
          keptEvents conn.fd conn.outgoingQueue.length rest := by
        simp only [keptEvents, List.filter_cons, hnot, decide_false, Bool.false_eq_true, if_false]
      rw [hkept]
      exact ih conn addedAny
    · rename_i hother
      have hin : Included conn.fd evt := hother
      split
      · rename_i hlimit
        have hkept : keptEvents conn.fd conn.outgoingQueue.length (evt :: rest) = [] := by
          simp only [keptEvents, Nat.sub_eq_zero_of_le hlimit, List.take_zero]
        split
        · simp [marks, hkept]
        · simp [marks, hkept]
      · rename_i hlimit
        have hroom : maxOutgoingQueueSize - conn.outgoingQueue.length =
            (maxOutgoingQueueSize - (conn.append evt.payload).outgoingQueue.length) + 1 := by
          simp only [Connection.append, List.length_append, List.length_singleton]
          omega
        have hkept : keptEvents conn.fd conn.outgoingQueue.length (evt :: rest) =
            evt :: keptEvents conn.fd (conn.append evt.payload).outgoingQueue.length rest := by
          simp only [keptEvents, hroom, List.filter_cons, hin, decide_true, if_true,
            List.take_succ_cons]
        refine (ih (conn.append evt.payload) true).trans ?_
        rw [hkept, List.map_cons]
        simp [Connection.append]

/-- The queue and the record of what was appended grow together. -/
theorem appendEvents_length (conn : Connection) (events : List BroadcastEvent)
    (addedAny : Bool) :
    (appendEvents conn events addedAny).1.outgoingQueue.length + conn.appended.length =
      conn.outgoingQueue.length + (appendEvents conn events addedAny).1.appended.length := by
  induction events generalizing conn addedAny with
  | nil => rfl
  | cons evt rest ih =>
    unfold appendEvents
    split
    · exact ih conn addedAny
    · split
      · split <;> rfl
      · have happend := ih (conn.append evt.payload) true
        simp only [Connection.append, List.length_append, List.length_singleton] at happend ⊢
        omega

theorem marks_rearms {c d : Connection} (h : c.Rearms d) : marks d = marks c := by
  obtain ⟨_, _, _, _, rfl⟩ := h
  rfl

/-- attempt_write gives the connection no packet, and never lengthens the queue. -/
theorem attemptWrite_marks (writev : Kernel) (conn : Connection) :
    marks (attemptWrite writev conn).1 = marks conn ∧
      (attemptWrite writev conn).1.outgoingQueue.length ≤ conn.outgoingQueue.length := by
  refine attemptWrite_induct (P := fun c => marks c = marks conn ∧
    c.outgoingQueue.length ≤ conn.outgoingQueue.length) ⟨rfl, Nat.le_refl _⟩ ?_ ?_ ?_
  · intro c d ⟨hmarks, hlen⟩ hnext
    rcases writeIteration_again hnext with ⟨pkt, rest, hqueue, _, rfl⟩ | ⟨n, _, _, _, rfl⟩
    · rw [hqueue, List.length_cons] at hlen
      exact ⟨hmarks, Nat.le_of_succ_le hlen⟩
    · exact ⟨hmarks, (consumeSent_length_le c.outgoingQueue n).trans hlen⟩
  · intro c ⟨hmarks, hlen⟩ _
    have hresume := c.resumeReading_rearms
    refine ⟨(marks_rearms hresume).trans hmarks, ?_⟩
    obtain ⟨_, _, _, _, heq⟩ := hresume
    rw [heq]
    exact hlen
  · intro c hc _
    exact hc

/-- The turn of a shard task at an open connection appends the kept events. -/
theorem shardTaskBody_marks (writev : Kernel) (conn : Connection) (events : List BroadcastEvent)
    (hopen : conn.closed = false) :
    marks (shardTaskBody writev conn events) =
      (conn.fd, conn.closed, conn.appended ++
        (keptEvents conn.fd conn.outgoingQueue.length events).map BroadcastEvent.payload) := by
  have happended := appendEvents_marks conn.ensureCodec events false
  unfold shardTaskBody
  dsimp only
  rw [if_neg (Bool.eq_false_iff.mp hopen)]
  split
  · refine (marks_rearms (Connection.armIfQueued_rearms _)).trans ?_
    refine (attemptWrite_marks writev _).1.trans ?_
    exact (marks_rearms (Connection.checkHighWater_rearms _)).trans happended
  · exact happended

theorem shardTaskBody_length (writev : Kernel) (conn : Connection)
    (events : List BroadcastEvent) :
    (shardTaskBody writev conn events).outgoingQueue.length + conn.appended.length ≤
      conn.outgoingQueue.length + (shardTaskBody writev conn events).appended.length := by
  have hlength := appendEvents_length conn.ensureCodec events false
  unfold shardTaskBody
  dsimp only
  split
  · exact Nat.le_refl _
  · split
    · obtain ⟨hmarks, hshorter⟩ := attemptWrite_marks writev
        (appendEvents conn.ensureCodec events false).1.checkHighWater
      obtain ⟨_, _, _, _, hqueued⟩ :=
        (appendEvents conn.ensureCodec events false).1.checkHighWater_rearms
      obtain ⟨_, _, _, _, harmed⟩ := (attemptWrite writev
        (appendEvents conn.ensureCodec events false).1.checkHighWater).1.armIfQueued_rearms
      simp only [marks, Prod.mk.injEq] at hmarks
      rw [harmed]
      dsimp only
      rw [hmarks.2.2]
      rw [hqueued] at hshorter ⊢
      exact (Nat.add_le_add_right hshorter _).trans hlength.le
    · exact hlength.le

theorem shardTaskBody_closed (writev : Kernel) (conn : Connection) (events : List BroadcastEvent)
    (hclosed : conn.closed = true) : shardTaskBody writev conn events = conn := if_pos hclosed

theorem sendPreEncoded_marks (writev : Kernel) (conn : Connection) (packet : SharedPayload)
    (hopen : conn.closed = false) :
    marks (sendPreEncoded writev conn packet) =
      (conn.fd, conn.closed, conn.appended ++ [packet]) := by
  have hqueued : marks (conn.append packet).checkHighWater = marks (conn.append packet) :=
    marks_rearms (Connection.checkHighWater_rearms _)
  unfold sendPreEncoded
  dsimp only
  rw [if_neg (Bool.eq_false_iff.mp hopen)]
  refine (marks_rearms (Connection.recomputeInterest_rearms _)).trans ?_
  split
  · refine (marks_rearms (Connection.rearm_rearms _)).trans ?_
    exact (attemptWrite_marks writev _).1.trans hqueued
  · exact hqueued

theorem flushBody_marks (writev : Kernel) (conn : Connection) :
    marks (flushBody writev conn) = marks conn := by
  unfold flushBody
  split
  · rfl
  · refine (marks_rearms (Connection.armIfQueued_rearms _)).trans ?_
    exact (attemptWrite_marks writev conn).1

theorem handleWrite_marks (writev : Kernel) (conn : Connection) :
    marks (handleWrite writev conn).1 = marks conn := by
  have hwritten := (attemptWrite_marks writev conn).1
  unfold handleWrite
  dsimp only
  split
  · exact hwritten
  · exact (marks_rearms (Connection.setWriteArmed_rearms _ _ _)).trans hwritten

theorem handleRead_marks (conn : Connection) (answers : List ReadvAnswer) :
    marks (handleRead conn answers).conn = marks conn := by
  obtain ⟨_, _, _, _, _, _, htaken⟩ := handleRead_takesIn conn answers
  rw [htaken]
  rfl

end ChatServer.ShardTask
