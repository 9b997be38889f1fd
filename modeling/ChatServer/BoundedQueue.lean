import ChatServer.FlowControl

/-!
The limit of the output queue. The loop of the shard task stops when the queue
has reached `MAX_OUTGOING_QUEUE_SIZE` packets, and no operation but the shard
task and SendPreEncoded appends anything. SendPreEncoded has no such test: the
queue stays within the limit exactly when each packet it is called with finds
room.
-/
namespace ChatServer.BoundedQueue

open FlowControl OutputStream ShardTask WriteAttempt

/-- The connection when the operation has made its last push_back. -/
def pushed (conn : Connection) : ConnOp → Connection
  | .sendPreEncoded packet => if conn.closed then conn else conn.append packet
  | .shardTask events =>
      if conn.closed then conn else (appendEvents conn.ensureCodec events false).1
  | _ => conn

/-- A call of SendPreEncoded for an open connection finds room in its queue. -/
def RoomToSend (conn : Connection) : ConnOp → Prop
  | .sendPreEncoded _ =>
      conn.closed = true ∨ conn.outgoingQueue.length < maxOutgoingQueueSize
  | _ => True

def WithinLimit (conn : Connection) : Prop := conn.outgoingQueue.length ≤ maxOutgoingQueueSize

section Operations

variable {conn : Connection}

/-- The loop of the shard task keeps the limit. -/
theorem appendEvents_withinLimit (h : WithinLimit conn) (events : List BroadcastEvent)
    (addedAny : Bool) : WithinLimit (appendEvents conn events addedAny).1 := by
  induction events generalizing conn addedAny with
  | nil => exact h
  | cons evt rest ih =>
    unfold appendEvents
    split
    · exact ih h addedAny
    · split
      · split
        · exact h
        · exact h
      · rename_i hroom
        refine ih ?_ true
        simp only [WithinLimit, Connection.append, List.length_append, List.length_singleton]
        omega

/-- What an operation has pushed is within the limit when it finds room. -/
theorem pushed_withinLimit (h : WithinLimit conn) (op : ConnOp) :
    WithinLimit (pushed conn op) ↔ RoomToSend conn op := by
  cases op with
  | sendPreEncoded packet =>
    simp only [pushed, RoomToSend]
    unfold WithinLimit at h ⊢
    cases hclosed : conn.closed with
    | true => simpa using h
    | false =>
      simp only [Connection.append, Bool.false_eq_true, if_false, false_or, List.length_append,
        List.length_singleton]
      omega
  | shardTask events =>
    refine iff_of_true ?_ trivial
    simp only [pushed]
    split
    · exact h
    · have hcodec : WithinLimit conn.ensureCodec := h
      exact appendEvents_withinLimit hcodec events false
  | flush | handleWrite | handleRead _ | register | close => exact iff_of_true h trivial

theorem queue_rearms {c d : Connection} (h : c.Rearms d) : d.outgoingQueue = c.outgoingQueue := by
  obtain ⟨_, _, _, _, rfl⟩ := h
  rfl

/-- Behind its last push_back an operation changes the queue in attempt_write only. -/
theorem apply_queue (writev : Kernel) (conn : Connection) (op : ConnOp) :
    (op.apply writev conn).outgoingQueue = (pushed conn op).outgoingQueue ∨
      ∃ d, d.outgoingQueue = (pushed conn op).outgoingQueue ∧
        (op.apply writev conn).outgoingQueue = (attemptWrite writev d).1.outgoingQueue := by
  cases op with
  | sendPreEncoded packet =>
    simp only [ConnOp.apply, sendPreEncoded, pushed]
    split
    · exact Or.inl rfl
    · have hchecked := queue_rearms (conn.append packet).checkHighWater_rearms
      rw [queue_rearms (Connection.recomputeInterest_rearms _)]
      split
      · rw [queue_rearms (Connection.rearm_rearms _)]
        exact Or.inr ⟨_, hchecked, rfl⟩
      · exact Or.inl hchecked
  | shardTask events =>
    simp only [ConnOp.apply, shardTaskBody, pushed]
    split
    · exact Or.inl rfl
    · split
      · rw [queue_rearms (Connection.armIfQueued_rearms _)]
        exact Or.inr ⟨_, queue_rearms (Connection.checkHighWater_rearms _), rfl⟩
      · exact Or.inl rfl
  | flush =>
    simp only [ConnOp.apply, flushBody, pushed]
    split
    · exact Or.inl rfl
    · rw [queue_rearms (Connection.armIfQueued_rearms _)]
      exact Or.inr ⟨conn, rfl, rfl⟩
  | handleWrite =>
    simp only [ConnOp.apply, handleWrite, pushed]
    refine Or.inr ⟨conn, rfl, ?_⟩
    split
    · rfl
    · exact queue_rearms (Connection.setWriteArmed_rearms _ _ _)
  | handleRead answers =>
    obtain ⟨_, _, _, _, _, heq⟩ := handleRead_reads conn answers
    simp only [ConnOp.apply, pushed, heq, true_or]
  | register => exact Or.inl rfl
  | close =>
    have hclose := output_close conn
    simp only [output, Prod.mk.injEq] at hclose
    exact Or.inl hclose.2.1

theorem apply_length (writev : Kernel) (conn : Connection) (op : ConnOp) :
    (op.apply writev conn).outgoingQueue.length ≤ (pushed conn op).outgoingQueue.length := by
  rcases apply_queue writev conn op with heq | ⟨d, hd, heq⟩
  · rw [heq]
  · rw [heq, ← hd]
    exact (attemptWrite_marks writev d).2

/-- A socket that takes nothing leaves everything in the queue. -/
theorem apply_takesNothing {op : ConnOp}
    (hbytes : unsentBytes (pushed conn op).outgoingQueue ≠ []) :
    (op.apply takesNothing conn).outgoingQueue = (pushed conn op).outgoingQueue := by
  rcases apply_queue takesNothing conn op with heq | ⟨d, hd, heq⟩
  · exact heq
  · rw [← hd] at hbytes
    rw [heq, attemptWrite_refused hbytes rfl, ← hd]
    rfl

end Operations

/-- In a run of any operations, the queue is within the limit after each
push_back and after each operation exactly when every call of SendPreEncoded
for the open connection finds room. -/
theorem queue_bounded_iff (writev : Kernel) (fd now : ℕ) (ops : List ConnOp) :
    (∀ done op, done ++ [op] <+: ops →
      WithinLimit (pushed (ConnOp.applyAll writev (Connection.new fd now) done) op) ∧
        WithinLimit (ConnOp.applyAll writev (Connection.new fd now) (done ++ [op]))) ↔
    ∀ done op, done ++ [op] <+: ops →
      RoomToSend (ConnOp.applyAll writev (Connection.new fd now) done) op := by
  have hstep : ∀ done op, WithinLimit (ConnOp.applyAll writev (Connection.new fd now) done) →
      (WithinLimit (pushed (ConnOp.applyAll writev (Connection.new fd now) done) op) ∧
        WithinLimit (ConnOp.applyAll writev (Connection.new fd now) (done ++ [op])) ↔
      RoomToSend (ConnOp.applyAll writev (Connection.new fd now) done) op) := by
    intro done op h
    rw [← pushed_withinLimit h op, ConnOp.applyAll_concat]
    exact and_iff_left_of_imp fun hpushed => (apply_length writev _ op).trans hpushed
  have hinit : WithinLimit (Connection.new fd now) := Nat.zero_le _
  constructor
  · intro hall done op hdone
    refine (hstep done op ?_).mp (hall done op hdone)
    rcases List.eq_nil_or_concat' done with rfl | ⟨before, last, rfl⟩
    · exact hinit
    · exact (hall before last ((List.prefix_append _ _).trans hdone)).2
  · intro hall done op hdone
    have hwithin : ∀ done, done <+: ops →
        WithinLimit (ConnOp.applyAll writev (Connection.new fd now) done) := by
      intro done hdone
      induction done using List.reverseRecOn with
      | nil => exact hinit
      | append_singleton done last ih =>
        have hbefore := ih ((List.prefix_append _ _).trans hdone)
        exact ((hstep done last hbefore).mpr (hall done last hdone)).2
    exact (hstep done op (hwithin done ((List.prefix_append _ _).trans hdone))).mpr
      (hall done op hdone)

section Sample

/-- What a shard task has pushed for a new connection of a burst of broadcasts. -/
theorem pushed_burst (fd now : ℕ) {n : ℕ} (hn : n ≤ maxOutgoingQueueSize) :
    (pushed (Connection.new fd now) (.shardTask (burst n samplePayload))).outgoingQueue.length =
        n ∧
      (unsentBytes (pushed (Connection.new fd now)
        (.shardTask (burst n samplePayload))).outgoingQueue).length = n * 8000 := by
  have hnothing : (Connection.new fd now).ensureCodec.outgoingQueue = [] := rfl
  have hintact : StreamIntact (Connection.new fd now).ensureCodec := ⟨rfl, rfl⟩
  obtain ⟨happended, hlength⟩ := appendEvents_burst hnothing rfl samplePayload hn
  have hstream := congrArg List.length
    (appendEvents_intact hintact (burst n samplePayload) false).stream
  have hsent := (appendEvents_arming (Connection.new fd now).ensureCodec
    (burst n samplePayload) false).2
  refine ⟨hlength, ?_⟩
  rw [hsent, happended, List.flatMap_replicate, List.length_flatten, List.map_replicate,
    List.sum_replicate_nat] at hstream
  have hbytes : samplePayload.bytes.length = 8000 := List.length_replicate
  rw [hbytes] at hstream
  exact hstream

theorem shardTask_open (writev : Kernel) {conn : Connection} (events : List BroadcastEvent)
    (hopen : conn.closed = false) :
    ((ConnOp.shardTask events).apply writev conn).closed = false := by
  have hmarks := congrArg (·.2.1) (shardTaskBody_marks writev conn events hopen)
  exact hmarks.trans hopen

theorem applyAll_pair (writev : Kernel) (conn : Connection) (op op' : ConnOp) :
    ConnOp.applyAll writev conn [op, op'] = op'.apply writev (op.apply writev conn) := rfl

/-- What a client that does not read is left with. -/
theorem length_overfull :
    (ConnOp.applyAll takesNothing (Connection.new 7 0) [.shardTask (burst 5000 samplePayload),
        .sendPreEncoded samplePayload]).outgoingQueue.length = 5001 ∧
      (ConnOp.applyAll takesNothing (Connection.new 7 0) [.shardTask (burst 5000 samplePayload),
        .sendPreEncoded samplePayload]).closed = false := by
  obtain ⟨conn, hconn⟩ : ∃ conn, conn = (ConnOp.shardTask (burst 5000 samplePayload)).apply
    takesNothing (Connection.new 7 0) := ⟨_, rfl⟩
  obtain ⟨hlength, hunsent⟩ := pushed_burst 7 0 (le_refl 5000)
  have hqueue : conn.outgoingQueue = (pushed (Connection.new 7 0)
      (.shardTask (burst 5000 samplePayload))).outgoingQueue := by
    rw [hconn]
    refine apply_takesNothing ?_
    intro hnil
    rw [hnil, List.length_nil] at hunsent
    omega
  have hopen : conn.closed = false := by
    rw [hconn]
    exact shardTask_open takesNothing (burst 5000 samplePayload) rfl
  have hpushed : pushed conn (.sendPreEncoded samplePayload) = conn.append samplePayload :=
    if_neg (Bool.eq_false_iff.mp hopen)
  have hsend : ((ConnOp.sendPreEncoded samplePayload).apply takesNothing conn).outgoingQueue =
      conn.outgoingQueue ++ [.new samplePayload] := by
    have hbytes : unsentBytes (pushed conn (.sendPreEncoded samplePayload)).outgoingQueue ≠ [] := by
      intro hnil
      rw [hpushed, Connection.append, unsentBytes_append, List.append_eq_nil_iff, hqueue] at hnil
      rw [hnil.1, List.length_nil] at hunsent
      omega
    rw [apply_takesNothing hbytes, hpushed]
    rfl
  rw [applyAll_pair, ← hconn]
  constructor
  · rw [hsend, List.length_append, hqueue, hlength]
    rfl
  · have hmarks := congrArg (·.2.1) (sendPreEncoded_marks takesNothing conn samplePayload hopen)
    exact hmarks.trans hopen

/-- A burst of broadcasts fills the queue of a client that does not read, and
SendPreEncoded queues its packet behind it. -/
theorem queue_exceeds_limit :
    ¬ WithinLimit (ConnOp.applyAll takesNothing (Connection.new 7 0)
      [.shardTask (burst 5000 samplePayload), .sendPreEncoded samplePayload]) := by
  unfold WithinLimit
  rw [length_overfull.1]
  decide

end Sample

end ChatServer.BoundedQueue
