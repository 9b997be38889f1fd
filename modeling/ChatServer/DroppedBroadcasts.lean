import ChatServer.BoundedQueue

/-!
The report of dropped broadcasts. A shard task stops appending when the queue
has reached its limit, and reports that it did when the queue is exactly at the
limit. The loop never passes the limit by itself, but SendPreEncoded does, and
then the broadcasts are dropped without a report.
-/
namespace ChatServer.DroppedBroadcasts

open FlowControl OutputStream ShardTask BoundedQueue

/-- The calls of `METRICS.on_message_dropped`. -/
def dropped (conn : Connection) : ℕ := conn.metrics.droppedMessages

/-- The events for the descriptor that a turn does not append to a queue of
`size` packets. -/
def discardedEvents (fd size : ℕ) (events : List BroadcastEvent) : List BroadcastEvent :=
  (events.filter (Included fd ·)).drop (maxOutgoingQueueSize - size)

theorem kept_append_discarded (fd size : ℕ) (events : List BroadcastEvent) :
    keptEvents fd size events ++ discardedEvents fd size events =
      events.filter (Included fd ·) := List.take_append_drop _ _

instance (conn : Connection) : Decidable (WithinLimit conn) :=
  inferInstanceAs (Decidable (_ ≤ _))

/-- The operation is a turn of a shard task that discards an event. -/
def Discards (conn : Connection) : ConnOp → Prop
  | .shardTask events =>
      conn.closed = false ∧ discardedEvents conn.fd conn.outgoingQueue.length events ≠ []
  | _ => False

/-- The operation reports once that it has discarded events, and otherwise
reports nothing. -/
structure Reported (writev : Kernel) (conn : Connection) (op : ConnOp) : Prop where
  once : Discards conn op → dropped (op.apply writev conn) = dropped conn + 1
  never : ¬ Discards conn op → dropped (op.apply writev conn) = dropped conn

/-- A shard task that has an event for the connection finds its queue within the limit. -/
def FindsWithinLimit (conn : Connection) : ConnOp → Prop
  | .shardTask events =>
      conn.closed = true ∨ WithinLimit conn ∨ events.filter (Included conn.fd ·) = []
  | _ => True

section Operations

variable {conn : Connection}

theorem dropped_rearms {c d : Connection} (h : c.Rearms d) : dropped d = dropped c := by
  obtain ⟨_, _, _, _, rfl⟩ := h
  rfl

theorem attemptWrite_dropped (writev : Kernel) (conn : Connection) :
    dropped (attemptWrite writev conn).1 = dropped conn := by
  refine attemptWrite_induct (P := fun c => dropped c = dropped conn) rfl ?_ ?_ ?_
  · intro c d hc hnext
    rcases writeIteration_again hnext with ⟨pkt, rest, _, _, rfl⟩ | ⟨n, _, _, _, rfl⟩
    · exact hc
    · exact hc
  · intro c hc _
    exact (dropped_rearms c.resumeReading_rearms).trans hc
  · intro c hc _
    exact hc

/-- The loop reports the events that it discards, unless the queue was over the limit. -/
theorem appendEvents_dropped (conn : Connection) (events : List BroadcastEvent)
    (addedAny : Bool) :
    dropped (appendEvents conn events addedAny).1 = dropped conn +
      if WithinLimit conn ∧ discardedEvents conn.fd conn.outgoingQueue.length events ≠ [] then 1
      else 0 := by
  induction events generalizing conn addedAny with
  | nil => simp [appendEvents, discardedEvents]
  | cons evt rest ih =>
    unfold appendEvents
    split
    · rename_i hown
      have hnot : ¬ Included conn.fd evt := not_not.mpr hown
      have hsame : discardedEvents conn.fd conn.outgoingQueue.length (evt :: rest) =
          discardedEvents conn.fd conn.outgoingQueue.length rest := by
        simp only [discardedEvents, List.filter_cons, hnot, decide_false, Bool.false_eq_true,
          if_false]
      rw [hsame]
      exact ih conn addedAny
    · rename_i hother
      have hin : Included conn.fd evt := hother
      split
      · rename_i hlimit
        have hall : discardedEvents conn.fd conn.outgoingQueue.length (evt :: rest) ≠ [] := by
          simp [discardedEvents, Nat.sub_eq_zero_of_le hlimit, hin]
        split
        · rename_i hexact
          rw [if_pos ⟨le_of_eq hexact, hall⟩]
          rfl
        · rename_i hover
          rw [if_neg]
          · rfl
          · rintro ⟨hwithin, _⟩
            unfold WithinLimit at hwithin
            omega
      · rename_i hroom
        have hleft : maxOutgoingQueueSize - conn.outgoingQueue.length =
            (maxOutgoingQueueSize - (conn.append evt.payload).outgoingQueue.length) + 1 := by
          simp only [Connection.append, List.length_append, List.length_singleton]
          omega
        have hsame : discardedEvents conn.fd conn.outgoingQueue.length (evt :: rest) =
            discardedEvents conn.fd (conn.append evt.payload).outgoingQueue.length rest := by
          simp only [discardedEvents, hleft, List.filter_cons, hin, decide_true, if_true,
            List.drop_succ_cons]
        have hwithin : WithinLimit conn ∧ WithinLimit (conn.append evt.payload) := by
          simp only [WithinLimit, Connection.append, List.length_append, List.length_singleton]
          omega
        refine (ih (conn.append evt.payload) true).trans ?_
        simp only [hsame, hwithin, true_and]
        rfl

/-- A shard task reports what it discards exactly when it finds the queue within the limit. -/
theorem shardTaskBody_dropped (writev : Kernel) (events : List BroadcastEvent)
    (hopen : conn.closed = false) :
    dropped (shardTaskBody writev conn events) = dropped conn +
      if WithinLimit conn ∧ discardedEvents conn.fd conn.outgoingQueue.length events ≠ [] then 1
      else 0 := by
  have happended := appendEvents_dropped conn.ensureCodec events false
  unfold shardTaskBody
  dsimp only
  rw [if_neg (Bool.eq_false_iff.mp hopen)]
  split
  · refine (dropped_rearms (Connection.armIfQueued_rearms _)).trans ?_
    refine (attemptWrite_dropped writev _).trans ?_
    exact (dropped_rearms (Connection.checkHighWater_rearms _)).trans happended
  · exact happended

theorem handleRead_dropped (conn : Connection) (answers : List ReadvAnswer) :
    dropped (handleRead conn answers).conn = dropped conn := by
  obtain ⟨_, _, _, _, _, _, htaken⟩ := handleRead_takesIn conn answers
  rw [htaken]
  rfl

/-- No operation but the shard task reports anything. -/
theorem apply_dropped (writev : Kernel) (conn : Connection) {op : ConnOp}
    (hop : ∀ events, op ≠ .shardTask events) : dropped (op.apply writev conn) = dropped conn := by
  cases op with
  | sendPreEncoded packet =>
    have hqueued : dropped (conn.append packet).checkHighWater = dropped (conn.append packet) :=
      dropped_rearms (Connection.checkHighWater_rearms _)
    simp only [ConnOp.apply, sendPreEncoded]
    split
    · rfl
    · refine (dropped_rearms (Connection.recomputeInterest_rearms _)).trans ?_
      split
      · refine (dropped_rearms (Connection.rearm_rearms _)).trans ?_
        exact (attemptWrite_dropped writev _).trans hqueued
      · exact hqueued
  | shardTask events => exact absurd rfl (hop events)
  | flush =>
    simp only [ConnOp.apply, flushBody]
    split
    · rfl
    · refine (dropped_rearms (Connection.armIfQueued_rearms _)).trans ?_
      exact attemptWrite_dropped writev conn
  | handleWrite =>
    have hwritten := attemptWrite_dropped writev conn
    simp only [ConnOp.apply, handleWrite]
    split
    · exact hwritten
    · exact (dropped_rearms (Connection.setWriteArmed_rearms _ _ _)).trans hwritten
  | handleRead answers => exact handleRead_dropped conn answers
  | register => rfl
  | close =>
    simp only [ConnOp.apply, Connection.close]
    split
    · rfl
    · rfl

theorem discardedEvents_of_over (fd : ℕ) {size : ℕ} (h : maxOutgoingQueueSize < size)
    (events : List BroadcastEvent) :
    discardedEvents fd size events = events.filter (Included fd ·) := by
  rw [discardedEvents, Nat.sub_eq_zero_of_le (le_of_lt h), List.drop_zero]

theorem reported_shardTask (writev : Kernel) (conn : Connection) (events : List BroadcastEvent) :
    Reported writev conn (.shardTask events) ↔ FindsWithinLimit conn (.shardTask events) := by
  by_cases hclosed : conn.closed = true
  · have hsame : (ConnOp.shardTask events).apply writev conn = conn := if_pos hclosed
    refine iff_of_true ⟨fun hdiscards => ?_, fun _ => by rw [hsame]⟩ (Or.inl hclosed)
    exact absurd (hdiscards.1.symm.trans hclosed) Bool.false_ne_true
  · have hopen : conn.closed = false := Bool.eq_false_iff.mpr hclosed
    have hdropped := shardTaskBody_dropped writev events hopen
    by_cases hwithin : WithinLimit conn
    · refine iff_of_true ⟨?_, ?_⟩ (Or.inr (Or.inl hwithin))
      · intro hdiscards
        rwa [if_pos ⟨hwithin, hdiscards.2⟩] at hdropped
      · intro hnot
        rwa [if_neg fun hboth => hnot ⟨hopen, hboth.2⟩] at hdropped
    · rw [if_neg fun hboth => hwithin hboth.1] at hdropped
      have hover := discardedEvents_of_over conn.fd (not_le.mp hwithin) events
      constructor
      · intro hreported
        refine Or.inr (Or.inr ?_)
        by_contra hsome
        have honce := hreported.once ⟨hopen, by rwa [hover]⟩
        simp only [ConnOp.apply] at honce
        omega
      · intro hfinds
        have hnone := (hfinds.resolve_left hclosed).resolve_left hwithin
        refine ⟨fun hdiscards => ?_, fun _ => hdropped⟩
        exact absurd (hover.trans hnone) hdiscards.2

theorem reported_iff (writev : Kernel) (conn : Connection) (op : ConnOp) :
    Reported writev conn op ↔ FindsWithinLimit conn op := by
  cases op with
  | shardTask events => exact reported_shardTask writev conn events
  | sendPreEncoded _ | flush | handleWrite | handleRead _ | register | close =>
    exact iff_of_true ⟨nofun, fun _ => apply_dropped writev conn nofun⟩ trivial

end Operations

/-- In a run of any operations on a connection, every batch that a shard task
discards from is reported once and nothing else is reported, exactly when every
shard task with an event for the open connection finds its queue within the limit. -/
theorem drops_reported_iff (writev : Kernel) (fd now : ℕ) (ops : List ConnOp) :
    (∀ done op, done ++ [op] <+: ops →
      Reported writev (ConnOp.applyAll writev (Connection.new fd now) done) op) ↔
    ∀ done op, done ++ [op] <+: ops →
      FindsWithinLimit (ConnOp.applyAll writev (Connection.new fd now) done) op := by
  constructor
  · intro hall done op hdone
    exact (reported_iff writev _ op).mp (hall done op hdone)
  · intro hall done op hdone
    exact (reported_iff writev _ op).mpr (hall done op hdone)

/-- The queue of a client that does not read is over the limit by a packet of
SendPreEncoded when the next broadcast comes. -/
theorem drop_unreported :
    ¬ ∀ done op, done ++ [op] <+: [.shardTask (burst 5000 samplePayload),
        .sendPreEncoded samplePayload, .shardTask (burst 1 samplePayload)] →
      Reported takesNothing (ConnOp.applyAll takesNothing (Connection.new 7 0) done) op := by
  intro hall
  have hreported := hall [.shardTask (burst 5000 samplePayload), .sendPreEncoded samplePayload]
    (.shardTask (burst 1 samplePayload)) (List.prefix_refl _)
  obtain ⟨hlength, hopen⟩ := length_overfull
  have hfinds := (reported_iff takesNothing _ _).mp hreported
  rcases hfinds with hclosed | hwithin | hnone
  · exact absurd (hopen.symm.trans hclosed) Bool.false_ne_true
  · rw [WithinLimit, hlength] at hwithin
    exact absurd hwithin (by decide)
  · have hin : burst 1 samplePayload = [⟨-1, samplePayload⟩] := rfl
    rw [hin, List.filter_eq_nil_iff] at hnone
    refine hnone _ (List.mem_singleton_self _) (decide_eq_true ?_)
    exact fun h => h.1 rfl

end ChatServer.DroppedBroadcasts
