import ChatServer.ConnectionOps

/-!
Integrity of the output stream of a connection. The bytes the kernel has
accepted, followed by what is still queued, are the payloads appended so far,
and `pending_bytes` counts exactly what is still queued. This holds between
operations and at every loop test of every attempt_write, so that no writev
can return more than `pending_bytes`.
-/
namespace ChatServer.OutputStream

/-- The fields that the output stream is made of. -/
def output (conn : Connection) : Bytes × List OutgoingPacket × List SharedPayload × ℕ :=
  (conn.sent, conn.outgoingQueue, conn.appended, conn.pendingBytes)

structure StreamIntact (conn : Connection) : Prop where
  stream : conn.sent ++ unsentBytes conn.outgoingQueue =
    conn.appended.flatMap SharedPayload.bytes
  pending : conn.pendingBytes = (unsentBytes conn.outgoingQueue).length

theorem StreamIntact.congr {c d : Connection} (h : StreamIntact c) (heq : output d = output c) :
    StreamIntact d := by
  simp only [output, Prod.mk.injEq] at heq
  obtain ⟨hsent, hqueue, happended, hpending⟩ := heq
  constructor
  · rw [hsent, hqueue, happended]
    exact h.stream
  · rw [hpending, hqueue]
    exact h.pending

theorem StreamIntact.rearms {c d : Connection} (h : StreamIntact c) (hd : c.Rearms d) :
    StreamIntact d := by
  obtain ⟨_, _, _, _, rfl⟩ := hd
  exact h.congr rfl

theorem output_close (conn : Connection) : output conn.close = output conn := by
  unfold Connection.close
  split <;> rfl

theorem output_handleRead (conn : Connection) (answers : List ReadvAnswer) :
    output (handleRead conn answers).conn = output conn := by
  obtain ⟨_, _, _, _, _, _, htaken⟩ := handleRead_takesIn conn answers
  rw [htaken]
  rfl

theorem new_intact (fd now : ℕ) : StreamIntact (Connection.new fd now) := ⟨rfl, rfl⟩

theorem append_intact {conn : Connection} (h : StreamIntact conn) (payload : SharedPayload) :
    StreamIntact (conn.append payload) := by
  constructor
  · simp only [Connection.append, unsentBytes_append, unsentBytes_cons, unsentBytes_nil,
      OutgoingPacket.new_unsent, List.append_nil, List.flatMap_append, List.flatMap_cons,
      List.flatMap_nil]
    rw [← List.append_assoc, h.stream]
  · simp [Connection.append, unsentBytes_append, h.pending]

theorem appendEvents_intact {conn : Connection} (h : StreamIntact conn)
    (events : List BroadcastEvent) (addedAny : Bool) :
    StreamIntact (appendEvents conn events addedAny).1 := by
  induction events generalizing conn addedAny with
  | nil => exact h
  | cons evt rest ih =>
    unfold appendEvents
    split
    · exact ih h addedAny
    · split
      · split
        · exact h.congr rfl
        · exact h
      · exact ih (append_intact h evt.payload) true

/-- One turn of the write loop: what leaves the queue is what the kernel took. -/
theorem writeIteration_intact {writev : Kernel} {conn next : Connection}
    (h : StreamIntact conn) (hnext : writeIteration writev conn = .again next) :
    StreamIntact next := by
  rcases writeIteration_again hnext with
    ⟨pkt, rest, hqueue, hempty, rfl⟩ | ⟨n, hpos, hle, htake, rfl⟩
  · have hrest : unsentBytes rest = [] := by
      rw [hqueue, unsentBytes_cons] at hempty
      exact (List.append_eq_nil_iff.mp hempty).2
    constructor
    · simpa only [hrest, hempty] using h.stream
    · simpa only [hrest, hempty] using h.pending
  · have hpending := h.pending
    constructor
    · simp only [Connection.afterWritev, consumeSent_unsent, htake]
      rw [List.append_assoc, List.take_append_drop, h.stream]
    · simp only [Connection.afterWritev, consumeSent_unsent, List.length_drop]
      rw [if_pos (by omega)]
      omega

theorem attemptWrite_intact (writev : Kernel) {conn : Connection} (h : StreamIntact conn) :
    StreamIntact (attemptWrite writev conn).1 :=
  attemptWrite_induct h (fun _ _ hc hnext => writeIteration_intact hc hnext)
    (fun c hc _ => hc.rearms c.resumeReading_rearms) (fun _ hc _ => hc.congr rfl)

theorem sendPreEncoded_intact (writev : Kernel) {conn : Connection} (h : StreamIntact conn)
    (packet : SharedPayload) : StreamIntact (sendPreEncoded writev conn packet) := by
  have hqueued : StreamIntact (conn.append packet).checkHighWater :=
    (append_intact h packet).rearms (Connection.checkHighWater_rearms _)
  unfold sendPreEncoded
  dsimp only
  split
  · exact h
  · split
    · have hwritten := attemptWrite_intact writev hqueued
      exact (hwritten.rearms (Connection.rearm_rearms _)).rearms
        (Connection.recomputeInterest_rearms _)
    · exact hqueued.rearms (Connection.recomputeInterest_rearms _)

theorem shardTaskBody_intact (writev : Kernel) {conn : Connection} (h : StreamIntact conn)
    (events : List BroadcastEvent) : StreamIntact (shardTaskBody writev conn events) := by
  have hset : StreamIntact conn.ensureCodec := h.congr rfl
  have happended := appendEvents_intact hset events false
  unfold shardTaskBody
  dsimp only
  split
  · exact h
  · split
    · have hwritten :=
        attemptWrite_intact writev (happended.rearms (Connection.checkHighWater_rearms _))
      exact hwritten.rearms (Connection.armIfQueued_rearms _)
    · exact happended

theorem flushBody_intact (writev : Kernel) {conn : Connection} (h : StreamIntact conn) :
    StreamIntact (flushBody writev conn) := by
  unfold flushBody
  split
  · exact h
  · exact (attemptWrite_intact writev h).rearms (Connection.armIfQueued_rearms _)

theorem handleWrite_intact (writev : Kernel) {conn : Connection} (h : StreamIntact conn) :
    StreamIntact (handleWrite writev conn).1 := by
  have hwritten := attemptWrite_intact writev h
  unfold handleWrite
  dsimp only
  split
  · exact hwritten.congr rfl
  · exact hwritten.rearms (Connection.setWriteArmed_rearms _ _ _)

theorem apply_intact (writev : Kernel) {conn : Connection} (h : StreamIntact conn) (op : ConnOp) :
    StreamIntact (op.apply writev conn) := by
  cases op with
  | sendPreEncoded packet => exact sendPreEncoded_intact writev h packet
  | shardTask events => exact shardTaskBody_intact writev h events
  | flush => exact flushBody_intact writev h
  | handleWrite => exact handleWrite_intact writev h
  | handleRead answers => exact h.congr (output_handleRead conn answers)
  | register => exact h.congr rfl
  | close => exact h.congr (output_close conn)

/-- The connection with which an operation calls attempt_write, if it does. -/
def writeEntry (conn : Connection) : ConnOp → Option Connection
  | .sendPreEncoded packet =>
      let wasEmpty := conn.outgoingQueue.isEmpty && !conn.isWriteArmed
      let queued := (conn.append packet).checkHighWater
      if !conn.closed && sendGuard queued wasEmpty then some queued else none
  | .shardTask events =>
      let (appended, addedAny) := appendEvents conn.ensureCodec events false
      if !conn.closed && addedAny then some appended.checkHighWater else none
  | .flush => if conn.closed || conn.outgoingQueue.isEmpty then none else some conn
  | .handleWrite => some conn
  | _ => none

/-- What an operation does after its call of attempt_write. -/
def afterWrite (written : Connection) (fatal : Bool) : ConnOp → Connection
  | .sendPreEncoded _ => written.rearm.recomputeInterest
  | .handleWrite =>
      let armed := !written.outgoingQueue.isEmpty
      if fatal then { written with isWriteArmed := armed }
      else { written with isWriteArmed := armed }.updateEpollEvents ⟨written.wantsRead, armed⟩
  | _ => written.armIfQueued

/-- `writeEntry` and `afterWrite` are the operation around its one call. -/
theorem apply_of_writeEntry (writev : Kernel) {conn entry : Connection} {op : ConnOp}
    (h : writeEntry conn op = some entry) :
    op.apply writev conn =
      afterWrite (attemptWrite writev entry).1 (attemptWrite writev entry).2 op := by
  cases op with
  | sendPreEncoded packet =>
    simp only [writeEntry, Option.ite_none_right_eq_some, Bool.and_eq_true,
      Bool.not_eq_true', Option.some.injEq] at h
    obtain ⟨⟨hopen, hguard⟩, rfl⟩ := h
    simp only [ConnOp.apply, sendPreEncoded, hopen, hguard, if_true, afterWrite,
      Bool.false_eq_true, if_false]
  | shardTask events =>
    simp only [writeEntry, Option.ite_none_right_eq_some, Bool.and_eq_true,
      Bool.not_eq_true', Option.some.injEq] at h
    obtain ⟨⟨hopen, hadded⟩, rfl⟩ := h
    simp only [ConnOp.apply, shardTaskBody, hopen, hadded, if_true, afterWrite,
      Bool.false_eq_true, if_false]
  | flush =>
    simp only [writeEntry, Option.ite_none_left_eq_some, Option.some.injEq] at h
    obtain ⟨hbusy, rfl⟩ := h
    simp only [ConnOp.apply, flushBody, hbusy, if_false, afterWrite, Bool.false_eq_true]
  | handleWrite =>
    cases h
    rfl
  | handleRead answers => cases h
  | register => cases h
  | close => cases h

theorem writeEntry_intact {conn entry : Connection} {op : ConnOp} (h : StreamIntact conn)
    (hentry : writeEntry conn op = some entry) : StreamIntact entry := by
  cases op with
  | sendPreEncoded packet =>
    simp only [writeEntry, Option.ite_none_right_eq_some, Option.some.injEq] at hentry
    rw [← hentry.2]
    exact (append_intact h packet).rearms (Connection.checkHighWater_rearms _)
  | shardTask events =>
    simp only [writeEntry, Option.ite_none_right_eq_some, Option.some.injEq] at hentry
    rw [← hentry.2]
    have hset : StreamIntact conn.ensureCodec := h.congr rfl
    exact (appendEvents_intact hset events false).rearms (Connection.checkHighWater_rearms _)
  | flush =>
    simp only [writeEntry, Option.ite_none_left_eq_some, Option.some.injEq] at hentry
    rw [← hentry.2]
    exact h
  | handleWrite =>
    cases hentry
    exact h
  | handleRead answers => cases hentry
  | register => cases hentry
  | close => cases hentry

/-- Each writev of a call takes a byte off the queue, but for a last failing one. -/
theorem attemptWrite_writevCalls (writev : Kernel) (conn : Connection) :
    (attemptWrite writev conn).1.writevCalls ≤
      conn.writevCalls + (unsentBytes conn.outgoingQueue).length + 1 := by
  unfold attemptWrite
  split
  · simp only
    omega
  · obtain ⟨last, hlast, hreturns⟩ := attemptWriteLoop_returns writev conn
    have hbudget : last.writevCalls + (unsentBytes last.outgoingQueue).length ≤
        conn.writevCalls + (unsentBytes conn.outgoingQueue).length := by
      refine hlast.invariant (P := fun c => c.writevCalls +
        (unsentBytes c.outgoingQueue).length ≤ _) ?_ (Nat.le_refl _)
      intro c d hc hnext
      rcases writeIteration_again hnext with
        ⟨pkt, rest, hqueue, hempty, rfl⟩ | ⟨n, hpos, hle, _, rfl⟩
      · rw [hqueue, unsentBytes_cons, List.length_append] at hc
        simp only
        omega
      · simp only [Connection.afterWritev, consumeSent_unsent, List.length_drop]
        omega
    rcases writeIteration_returns hreturns with ⟨_, hnext, _⟩ | ⟨_, hnext⟩
    · have hcalls : last.resumeReading.writevCalls = last.writevCalls := by
        unfold Connection.resumeReading
        split <;> rfl
      rw [hnext, hcalls]
      omega
    · rw [hnext]
      simp only [Connection.writevFails]
      omega

/-- In any run of operations the stream is intact after each of them and at
every loop test of their write attempts. No writev can return more than
`pending_bytes` there, and the attempt ends after at most one writev for each
pending byte and one that fails. -/
theorem output_stream_integrity (writev : Kernel) (fd now : ℕ) (ops : List ConnOp) :
    StreamIntact (ConnOp.applyAll writev (Connection.new fd now) ops) ∧
    ∀ op entry, writeEntry (ConnOp.applyAll writev (Connection.new fd now) ops) op = some entry →
      op.apply writev (ConnOp.applyAll writev (Connection.new fd now) ops) =
        afterWrite (attemptWrite writev entry).1 (attemptWrite writev entry).2 op ∧
      (∀ conn, AtLoopTest writev entry conn → StreamIntact conn ∧
        (gather iovLimit conn.outgoingQueue).flatten.length ≤ conn.pendingBytes) ∧
      (attemptWrite writev entry).1.writevCalls ≤ entry.writevCalls + entry.pendingBytes + 1 := by
  have hrun : StreamIntact (ConnOp.applyAll writev (Connection.new fd now) ops) :=
    ConnOp.applyAll_invariant (new_intact fd now) (fun _ op h => apply_intact writev h op) ops
  refine ⟨hrun, ?_⟩
  intro op entry hentry
  have hintact := writeEntry_intact hrun hentry
  refine ⟨apply_of_writeEntry writev hentry, ?_, ?_⟩
  · intro conn hconn
    have hat : StreamIntact conn :=
      hconn.invariant (fun _ _ hc hnext => writeIteration_intact hc hnext) hintact
    refine ⟨hat, ?_⟩
    rw [hat.pending]
    exact (gather_front iovLimit conn.outgoingQueue).length_le
  · rw [hintact.pending]
    exact attemptWrite_writevCalls writev entry

/-- A socket that takes one byte and is then full, in the EPOLLOUT handler
after a packet was queued. -/
theorem output_stream_integrity_one_byte :
    ∃ (writev : Kernel) (conn : Connection),
      conn = ConnOp.applyAll writev (Connection.new 7 0)
        [.register, .sendPreEncoded ⟨[1, 2, 3], none⟩] ∧
      StreamIntact conn ∧
      (attemptWrite writev conn).1.writevCalls ≤ conn.writevCalls + conn.pendingBytes + 1 := by
  let writev : Kernel := fun calls offered =>
    if h : calls = 0 ∧ 1 ≤ offered then .sent 1 Nat.one_pos h.2 else .eagain
  obtain ⟨hintact, hattempt⟩ := output_stream_integrity writev 7 0
    [.register, .sendPreEncoded ⟨[1, 2, 3], none⟩]
  exact ⟨writev, _, rfl, hintact, (hattempt .handleWrite _ rfl).2.2⟩

end ChatServer.OutputStream
