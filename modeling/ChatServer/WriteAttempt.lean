import ChatServer.ShardTask

/-!
How a call of attempt_write ends. Either the queue is drained, and a paused
connection reads again, or a writev failed and everything that is left stays
queued. What the kernel took is what went off `pending_bytes`.
-/
namespace ChatServer.WriteAttempt

open OutputStream ShardTask

/-- The fields that a change of the interest mask leaves alone. -/
def flow (conn : Connection) :
    (Bytes × List OutgoingPacket × List SharedPayload × ℕ) × Bool × Bool × Bool × RingBuffer :=
  (output conn, conn.isReadingPaused, conn.writevFailed, conn.closed, conn.inBuf)

/-- The fields that attempt_write leaves alone. -/
def arming (conn : Connection) : Bool × EpollEvents × Option EpollEvents × Bool × RingBuffer :=
  (conn.isWriteArmed, conn.currentEpollEvents, conn.interest, conn.closed, conn.inBuf)

theorem gather_nil_of_unsentBytes {limit : ℕ} {queue : List OutgoingPacket}
    (h : unsentBytes queue = []) : gather limit queue = [] := by
  induction queue generalizing limit with
  | nil => cases limit <;> rfl
  | cons pkt rest ih =>
    rw [unsentBytes_cons, List.append_eq_nil_iff] at h
    have hlen := congrArg List.length h.1
    rw [pkt.unsent_length, List.length_nil] at hlen
    have hoff : ¬ pkt.sentOffset < pkt.payload.bytes.length := by omega
    cases limit with
    | zero => rfl
    | succ limit =>
      simp only [gather, hoff, if_false]
      exact ih h.2

/-- Up to the limit the gather loop offers everything. -/
theorem gather_all {limit : ℕ} {queue : List OutgoingPacket} (h : queue.length ≤ limit) :
    (gather limit queue).flatten = unsentBytes queue := by
  induction queue generalizing limit with
  | nil => cases limit <;> rfl
  | cons pkt rest ih =>
    obtain ⟨limit, rfl⟩ : ∃ l, limit = l + 1 := ⟨limit - 1, by simp at h; omega⟩
    rw [List.length_cons] at h
    have hlen := pkt.unsent_length
    by_cases hoff : pkt.sentOffset < pkt.payload.bytes.length
    · simp only [gather, hoff, if_true, List.flatten_cons, unsentBytes_cons]
      rw [ih (by omega)]
    · have hempty : pkt.unsent = [] := List.eq_nil_of_length_eq_zero (by omega)
      simp only [gather, hoff, if_false, unsentBytes_cons, hempty, List.nil_append]
      exact ih (by omega)

/-- A writev is only called, and can only fail, while there are bytes to send. -/
theorem writeIteration_fails {writev : Kernel} {conn next : Connection} {fatal : Bool}
    (h : writeIteration writev conn = .returns next fatal) (hqueue : conn.outgoingQueue ≠ []) :
    unsentBytes conn.outgoingQueue ≠ [] := by
  intro hempty
  have hgather : gather iovLimit conn.outgoingQueue = [] := gather_nil_of_unsentBytes hempty
  simp [writeIteration, hqueue, hgather] at h

/-- How attempt_write ends. -/
theorem attemptWrite_cases (writev : Kernel) (conn : Connection) :
    (conn.outgoingQueue = [] ∧ attemptWrite writev conn = (conn, false)) ∨
    ∃ last, AtLoopTest writev conn last ∧
      ((last.outgoingQueue = [] ∧ attemptWrite writev conn = (last.resumeReading, false)) ∨
        (unsentBytes last.outgoingQueue ≠ [] ∧
          (attemptWrite writev conn).1 = last.writevFails)) := by
  by_cases hempty : conn.outgoingQueue = []
  · exact Or.inl ⟨hempty, by simp [attemptWrite, hempty]⟩
  · have hloop : attemptWrite writev conn = attemptWriteLoop writev conn := by
      simp [attemptWrite, hempty]
    obtain ⟨last, hlast, hreturns⟩ := attemptWriteLoop_returns writev conn
    refine Or.inr ⟨last, hlast, ?_⟩
    rw [hloop]
    rcases writeIteration_returns hreturns with ⟨hqueue, hnext, hfatal⟩ | ⟨hqueue, hnext⟩
    · exact Or.inl ⟨hqueue, Prod.ext hnext hfatal⟩
    · exact Or.inr ⟨writeIteration_fails hreturns hqueue, hnext⟩

/-- With bytes to send an iteration comes to its writev. -/
theorem gather_of_unsentBytes {conn : Connection} (hbytes : unsentBytes conn.outgoingQueue ≠ []) :
    conn.outgoingQueue ≠ [] ∧ gather iovLimit conn.outgoingQueue ≠ [] := by
  constructor
  · intro hnil
    exact hbytes (by rw [hnil, unsentBytes_nil])
  · intro hnil
    exact hbytes (unsentBytes_of_gather_nil hnil)

theorem writeIteration_sent {writev : Kernel} {conn : Connection} {n : ℕ} {pos : 0 < n}
    {le : n ≤ (gather iovLimit conn.outgoingQueue).flatten.length}
    (hbytes : unsentBytes conn.outgoingQueue ≠ [])
    (hsent : writev conn.writevCalls (gather iovLimit conn.outgoingQueue).flatten.length =
      .sent n pos le) :
    writeIteration writev conn =
      .again (conn.afterWritev (gather iovLimit conn.outgoingQueue) n) := by
  obtain ⟨hqueue, hgather⟩ := gather_of_unsentBytes hbytes
  simp only [writeIteration, List.isEmpty_iff, hqueue, hgather, if_false, hsent]

/-- A writev that is refused ends the attempt. -/
theorem attemptWrite_refused {writev : Kernel} {conn : Connection}
    (hbytes : unsentBytes conn.outgoingQueue ≠ [])
    (hrefuse : writev conn.writevCalls (gather iovLimit conn.outgoingQueue).flatten.length =
      .eagain) : attemptWrite writev conn = (conn.writevFails, false) := by
  obtain ⟨hqueue, hgather⟩ := gather_of_unsentBytes hbytes
  have hreturns : writeIteration writev conn = .returns conn.writevFails false := by
    simp only [writeIteration, List.isEmpty_iff, hqueue, hgather, if_false, hrefuse]
  rw [attemptWrite, if_neg (by simpa using hqueue), attemptWriteLoop]
  split
  · rename_i next hnext
    cases hreturns.symm.trans hnext
  · rename_i next fatal hnext
    cases hreturns.symm.trans hnext
    rfl

/-- An attempt whose first iteration goes on to a queue that is not empty. -/
theorem attemptWrite_again {writev : Kernel} {conn next : Connection}
    (h : writeIteration writev conn = .again next) (hnext : next.outgoingQueue ≠ []) :
    attemptWrite writev conn = attemptWrite writev next := by
  have hqueue : conn.outgoingQueue ≠ [] := by
    intro hnil
    simp [writeIteration, hnil] at h
  have hloop : attemptWriteLoop writev conn = attemptWriteLoop writev next := by
    rw [attemptWriteLoop]
    split
    · rename_i other hother
      rw [h] at hother
      cases hother
      rfl
    · rename_i other fatal hother
      cases h.symm.trans hother
  simpa [attemptWrite, hqueue, hnext] using hloop

theorem attemptWrite_arming (writev : Kernel) (conn : Connection) :
    arming (attemptWrite writev conn).1 = arming conn := by
  refine attemptWrite_induct (P := fun c => arming c = arming conn) rfl ?_ ?_ (fun _ hc _ => hc)
  · intro c d hc hnext
    rcases writeIteration_again hnext with ⟨_, _, _, _, rfl⟩ | ⟨_, _, _, _, rfl⟩
    · exact hc
    · exact hc
  · intro c hc _
    unfold Connection.resumeReading
    split
    · exact hc
    · exact hc

/-- Iterations that go on do not touch the flag. -/
theorem AtLoopTest.paused {writev : Kernel} {conn later : Connection}
    (h : AtLoopTest writev conn later) : later.isReadingPaused = conn.isReadingPaused := by
  refine h.invariant (P := fun c => c.isReadingPaused = conn.isReadingPaused) ?_ rfl
  intro c d hc hnext
  rcases writeIteration_again hnext with ⟨_, _, _, _, rfl⟩ | ⟨_, _, _, _, rfl⟩
  · exact hc
  · exact hc

/-- What is left in the queue was refused by the kernel. -/
theorem attemptWrite_stalled {writev : Kernel} {conn : Connection}
    (h : (attemptWrite writev conn).1.outgoingQueue ≠ []) :
    (attemptWrite writev conn).1.writevFailed = true ∧
      unsentBytes (attemptWrite writev conn).1.outgoingQueue ≠ [] := by
  rcases attemptWrite_cases writev conn with
    ⟨hempty, heq⟩ | ⟨last, _, ⟨hempty, heq⟩ | ⟨hleft, heq⟩⟩
  · rw [heq] at h
    exact absurd hempty h
  · have hqueue : last.resumeReading.outgoingQueue = last.outgoingQueue := by
      unfold Connection.resumeReading
      split <;> rfl
    rw [heq, hqueue] at h
    exact absurd hempty h
  · rw [heq]
    exact ⟨rfl, hleft⟩

/-- A fatal write error leaves something in the queue. -/
theorem attemptWrite_fatal {writev : Kernel} {conn : Connection}
    (h : (attemptWrite writev conn).2 = true) :
    (attemptWrite writev conn).1.outgoingQueue ≠ [] := by
  rcases attemptWrite_cases writev conn with ⟨_, heq⟩ | ⟨last, _, ⟨_, heq⟩ | ⟨hleft, heq⟩⟩
  · rw [heq] at h
    cases h
  · rw [heq] at h
    cases h
  · rw [heq]
    intro hnil
    exact hleft (by rw [show last.outgoingQueue = [] from hnil, unsentBytes_nil])

/-- After an attempt reading is paused when it was before and bytes are left. -/
theorem attemptWrite_paused (writev : Kernel) {conn : Connection} (h : StreamIntact conn)
    (hidle : conn.outgoingQueue = [] → conn.isReadingPaused = false) :
    (attemptWrite writev conn).1.isReadingPaused =
      (conn.isReadingPaused && !(attemptWrite writev conn).1.outgoingQueue.isEmpty) := by
  rcases attemptWrite_cases writev conn with
    ⟨hempty, heq⟩ | ⟨last, hlast, ⟨hempty, heq⟩ | ⟨hleft, heq⟩⟩
  · simp [heq, hidle hempty]
  · have hintact : StreamIntact last :=
      hlast.invariant (fun _ _ hc hnext => writeIteration_intact hc hnext) h
    have hpending : last.pendingBytes = 0 := by simp [hintact.pending, hempty]
    have hresumed : last.resumeReading.isReadingPaused = false := by
      cases hpaused : last.isReadingPaused <;>
        simp [Connection.resumeReading, hpaused, hpending]
    have hqueue : last.resumeReading.outgoingQueue = [] := by
      unfold Connection.resumeReading
      split <;> exact hempty
    simp [heq, hresumed, hqueue]
  · have hqueue : last.outgoingQueue ≠ [] := by
      intro hnil
      exact hleft (by simp [hnil])
    simp [heq, Connection.writevFails, AtLoopTest.paused hlast, hqueue]

section KernelAnswers

/-- The sizes of the suffixes that are still to be sent, as the gather loop meets them. -/
def unsentSizes (queue : List OutgoingPacket) : List ℕ :=
  (queue.map fun pkt => pkt.payload.bytes.length - pkt.sentOffset).filter (0 < ·)

/-- What the kernel leaves of pieces of these sizes when it takes `n` bytes. -/
def leftOver : List ℕ → ℕ → List ℕ
  | [], _ => []
  | size :: rest, n => if size ≤ n then leftOver rest (n - size) else (size - n) :: rest

theorem leftOver_sum (sizes : List ℕ) (n : ℕ) : (leftOver sizes n).sum = sizes.sum - n := by
  induction sizes generalizing n with
  | nil => simp [leftOver]
  | cons size rest ih =>
    rw [leftOver]
    split
    · rw [ih, List.sum_cons]
      omega
    · simp only [List.sum_cons]
      omega

/-- A kernel that takes everything leaves nothing. -/
theorem leftOver_all (sizes : List ℕ) : leftOver sizes sizes.sum = [] := by
  induction sizes with
  | nil => rfl
  | cons size rest ih =>
    rw [List.sum_cons, leftOver, if_pos (by omega), Nat.add_sub_cancel_left, ih]

theorem take_sum_le (sizes : List ℕ) (limit : ℕ) : (sizes.take limit).sum ≤ sizes.sum := by
  conv_rhs => rw [← List.take_append_drop limit sizes, List.sum_append]
  omega

/-- The bytes that the kernel takes of pieces of these sizes, by its answers from
`call` on: each writev is offered the first pieces up to the limit, and the first
one that fails is the last. -/
def bytesTaken (writev : Kernel) (call : ℕ) (sizes : List ℕ) : ℕ :=
  match writev call (sizes.take iovLimit).sum with
  | .sent n _ _ => n + bytesTaken writev (call + 1) (leftOver sizes n)
  | .eagain => 0
  | .fatal => 0
termination_by sizes.sum
decreasing_by
  have hle := take_sum_le sizes iovLimit
  rw [leftOver_sum]
  omega

/-- One answer of the kernel to an offer of this size. -/
theorem bytesTaken_offered (writev : Kernel) (call : ℕ) {sizes : List ℕ} {offered : ℕ}
    (h : offered = (sizes.take iovLimit).sum) :
    bytesTaken writev call sizes =
      match writev call offered with
      | .sent n _ _ => n + bytesTaken writev (call + 1) (leftOver sizes n)
      | .eagain => 0
      | .fatal => 0 := by
  subst h
  rw [bytesTaken]
  cases writev call (sizes.take iovLimit).sum with
  | sent n pos le => rfl
  | eagain => rfl
  | fatal => rfl

/-- Nothing is taken of nothing. -/
@[simp]
theorem bytesTaken_nil (writev : Kernel) (call : ℕ) : bytesTaken writev call [] = 0 := by
  rw [bytesTaken]
  split
  · rename_i n hpos hle _
    simp only [List.take_nil, List.sum_nil] at hle
    omega
  · rfl
  · rfl

theorem unsentSizes_cons_of_lt {pkt : OutgoingPacket}
    (hoff : pkt.sentOffset < pkt.payload.bytes.length) (rest : List OutgoingPacket) :
    unsentSizes (pkt :: rest) =
      (pkt.payload.bytes.length - pkt.sentOffset) :: unsentSizes rest := by
  have hpos : 0 < pkt.payload.bytes.length - pkt.sentOffset := by omega
  simp [unsentSizes, hpos]

theorem unsentSizes_cons_of_not_lt {pkt : OutgoingPacket}
    (hoff : ¬ pkt.sentOffset < pkt.payload.bytes.length) (rest : List OutgoingPacket) :
    unsentSizes (pkt :: rest) = unsentSizes rest := by
  have hzero : ¬ 0 < pkt.payload.bytes.length - pkt.sentOffset := by omega
  simp [unsentSizes, hzero]

/-- The gather loop offers the first of these pieces. -/
theorem gather_length (limit : ℕ) (queue : List OutgoingPacket) :
    (gather limit queue).flatten.length = ((unsentSizes queue).take limit).sum := by
  induction queue generalizing limit with
  | nil => cases limit <;> rfl
  | cons pkt rest ih =>
    cases limit with
    | zero => rfl
    | succ limit =>
      by_cases hoff : pkt.sentOffset < pkt.payload.bytes.length
      · rw [unsentSizes_cons_of_lt hoff, List.take_succ_cons, List.sum_cons, ← ih limit]
        simp only [gather, hoff, if_true, List.flatten_cons, List.length_append,
          pkt.unsent_length]
      · rw [unsentSizes_cons_of_not_lt hoff, ← ih (limit + 1)]
        simp only [gather, hoff, if_false]

theorem unsentSizes_nil_of_gather {queue : List OutgoingPacket}
    (h : gather iovLimit queue = []) : unsentSizes queue = [] := by
  have hsum := gather_length iovLimit queue
  rw [h] at hsum
  cases hsizes : unsentSizes queue with
  | nil => rfl
  | cons size rest =>
    have hmem : size ∈ unsentSizes queue := by simp [hsizes]
    have hpos : 0 < size := by simpa using (List.mem_filter.mp hmem).2
    rw [hsizes, iovLimit, List.take_succ_cons, List.sum_cons] at hsum
    simp only [List.flatten_nil, List.length_nil] at hsum
    omega

theorem leftOver_zero {sizes : List ℕ} (hpos : ∀ size ∈ sizes, 0 < size) :
    leftOver sizes 0 = sizes := by
  cases sizes with
  | nil => rfl
  | cons size rest =>
    have hsize := hpos size (List.mem_cons_self ..)
    rw [leftOver, if_neg (by omega), Nat.sub_zero]

/-- The consume loop takes as many bytes off the front of the pieces. -/
theorem consumeSent_sizes (queue : List OutgoingPacket) (n : ℕ) :
    unsentSizes (consumeSent queue n).1 = leftOver (unsentSizes queue) n := by
  induction queue generalizing n with
  | nil => rfl
  | cons pkt rest ih =>
    by_cases hzero : n = 0
    · have hpos : ∀ size ∈ unsentSizes (pkt :: rest), 0 < size := by
        intro size hsize
        simpa using (List.mem_filter.mp hsize).2
      subst hzero
      rw [leftOver_zero hpos]
      simp [consumeSent]
    · by_cases hoff : pkt.sentOffset < pkt.payload.bytes.length
      · rw [unsentSizes_cons_of_lt hoff, leftOver]
        by_cases hall : pkt.payload.bytes.length - pkt.sentOffset ≤ n
        · rw [if_pos hall, ← ih]
          simp only [consumeSent, hzero, hall, if_false, dif_pos]
        · have hleft : pkt.sentOffset + n < pkt.payload.bytes.length := by omega
          rw [if_neg hall]
          simp only [consumeSent, hzero, hall, if_false, dif_neg, not_false_eq_true]
          rw [unsentSizes_cons_of_lt hleft, Nat.sub_add_eq]
      · have hall : pkt.payload.bytes.length - pkt.sentOffset ≤ n := by omega
        have hnone : pkt.payload.bytes.length - pkt.sentOffset = 0 := by omega
        rw [unsentSizes_cons_of_not_lt hoff, ← ih]
        simp [consumeSent, hzero, hnone]

theorem unsentSizes_sum (queue : List OutgoingPacket) :
    (unsentSizes queue).sum = (unsentBytes queue).length := by
  induction queue with
  | nil => rfl
  | cons pkt rest ih =>
    rw [unsentBytes_cons, List.length_append, pkt.unsent_length]
    by_cases hoff : pkt.sentOffset < pkt.payload.bytes.length
    · rw [unsentSizes_cons_of_lt hoff, List.sum_cons, ih]
    · rw [unsentSizes_cons_of_not_lt hoff, ih]
      omega

theorem unsentSizes_length_le (queue : List OutgoingPacket) :
    (unsentSizes queue).length ≤ queue.length := by
  have hfilter := List.length_filter_le (0 < ·)
    (queue.map fun pkt => pkt.payload.bytes.length - pkt.sentOffset)
  rwa [List.length_map] at hfilter

/-- What the kernel is going to take of the queue of a connection. -/
def kernelTakes (writev : Kernel) (conn : Connection) : ℕ :=
  bytesTaken writev conn.writevCalls (unsentSizes conn.outgoingQueue)

/-- An iteration that goes on moves the bytes it has sent out of the sum. -/
theorem kernelTakes_again {writev : Kernel} {conn next : Connection}
    (h : writeIteration writev conn = .again next) :
    next.sent.length + kernelTakes writev next = conn.sent.length + kernelTakes writev conn := by
  unfold writeIteration at h
  split at h
  · cases h
  · dsimp only at h
    split at h
    · rename_i hnone
      cases h
      have hsizes := unsentSizes_nil_of_gather (List.isEmpty_iff.mp hnone)
      have htail : unsentSizes conn.outgoingQueue.tail = [] := by
        refine List.eq_nil_iff_forall_not_mem.mpr ?_
        intro size hsize
        have hmem : size ∈ unsentSizes conn.outgoingQueue :=
          ((List.tail_sublist _).map _).filter _ |>.subset hsize
        rw [hsizes] at hmem
        cases hmem
      simp [kernelTakes, hsizes, htail]
    · split at h
      · rename_i n hpos hle hsent
        cases h
        have htaken : kernelTakes writev conn = n + bytesTaken writev (conn.writevCalls + 1)
            (leftOver (unsentSizes conn.outgoingQueue) n) := by
          rw [kernelTakes, bytesTaken_offered writev _ (gather_length iovLimit _), hsent]
        simp only [kernelTakes, Connection.afterWritev, List.length_append, List.length_take,
          consumeSent_sizes] at htaken ⊢
        omega
      · cases h
      · cases h

theorem kernelTakes_returns {writev : Kernel} {conn next : Connection} {fatal : Bool}
    (h : writeIteration writev conn = .returns next fatal) : kernelTakes writev conn = 0 := by
  unfold writeIteration at h
  split at h
  · rename_i hempty
    simp [kernelTakes, List.isEmpty_iff.mp hempty, unsentSizes]
  · dsimp only at h
    split at h
    · cases h
    · rw [kernelTakes, bytesTaken_offered writev _ (gather_length iovLimit _)]
      split at h
      · cases h
      · rename_i hrefuse
        rw [hrefuse]
      · rename_i hfatal
        rw [hfatal]

/-- An attempt sends what the kernel was going to take. -/
theorem attemptWrite_taken (writev : Kernel) (conn : Connection) :
    (attemptWrite writev conn).1.sent.length =
      conn.sent.length + kernelTakes writev conn := by
  unfold attemptWrite
  split
  · rename_i hempty
    simp [kernelTakes, List.isEmpty_iff.mp hempty, unsentSizes]
  · obtain ⟨last, hlast, hreturns⟩ := attemptWriteLoop_returns writev conn
    have htaken : last.sent.length + kernelTakes writev last =
        conn.sent.length + kernelTakes writev conn := by
      refine hlast.invariant (P := fun c => c.sent.length + kernelTakes writev c =
        conn.sent.length + kernelTakes writev conn) ?_ rfl
      intro c d hc hnext
      rw [kernelTakes_again hnext, hc]
    rw [kernelTakes_returns hreturns, Nat.add_zero] at htaken
    rw [← htaken]
    rcases writeIteration_returns hreturns with ⟨_, hnext, _⟩ | ⟨_, hnext⟩
    · rw [hnext]
      unfold Connection.resumeReading
      split <;> rfl
    · rw [hnext]
      rfl

end KernelAnswers

/-- What the kernel takes in an attempt is what the attempt takes off `pending_bytes`. -/
theorem attemptWrite_pending (writev : Kernel) {conn : Connection} (h : StreamIntact conn) :
    (attemptWrite writev conn).1.sent.length + (attemptWrite writev conn).1.pendingBytes =
      conn.sent.length + conn.pendingBytes := by
  have hwritten := attemptWrite_intact writev h
  have hmarks := (attemptWrite_marks writev conn).1
  simp only [marks, Prod.mk.injEq] at hmarks
  have hstream := congrArg List.length (hwritten.stream.trans (hmarks.2.2 ▸ h.stream.symm))
  simp only [List.length_append, ← hwritten.pending, ← h.pending] at hstream
  exact hstream

/-- The queue is drained when the kernel has taken every pending byte. -/
theorem attemptWrite_drained (writev : Kernel) {conn : Connection} (h : StreamIntact conn) :
    (attemptWrite writev conn).1.outgoingQueue = [] ↔
      (attemptWrite writev conn).1.pendingBytes = 0 := by
  have hpending := (attemptWrite_intact writev h).pending
  constructor
  · intro hempty
    simp [hpending, hempty]
  · intro hzero
    by_contra hleft
    have hbytes := (attemptWrite_stalled hleft).2
    exact hbytes (List.eq_nil_of_length_eq_zero (hpending.symm.trans hzero))

end ChatServer.WriteAttempt
