import ChatServer.FlowControl
import ChatServer.ReceivePath

/-!
The interest in EPOLLIN. SendPreEncoded and handle_write compute the whole
mask again; the shard task and the timer flush only add EPOLLOUT, although they
too pause and resume reading. So EPOLLIN agrees with the flow control exactly
in the runs in which no such turn changes whether reading is paused.
-/
namespace ChatServer.ReadInterest

open OutputStream WriteAttempt FlowControl ReceivePath Lib.Runs

/-- The local variable `should_close` of handle_read and of handle_write. -/
def shouldClose (writev : Kernel) (conn : Connection) : ConnOp → Bool
  | .handleRead answers => (handleRead conn answers).shouldClose
  | .handleWrite => (handleWrite writev conn).2
  | _ => false

/-- An operation to its end, where it closes the connection if it should. -/
def perform (writev : Kernel) (conn : Connection) (op : ConnOp) : Connection :=
  if shouldClose writev conn op then (op.apply writev conn).close else op.apply writev conn

def performAll (writev : Kernel) (conn : Connection) (ops : List ConnOp) : Connection :=
  ops.foldl (perform writev) conn

theorem perform_of_open {writev : Kernel} {conn : Connection} {op : ConnOp}
    (h : (perform writev conn op).closed = false) :
    shouldClose writev conn op = false ∧ perform writev conn op = op.apply writev conn := by
  unfold perform at h ⊢
  split at h
  · rw [close_closed] at h
    cases h
  · rename_i hstays
    exact ⟨by simpa using hstays, if_neg hstays⟩

/-- A handle_read that leaves the connection open leaves room in the buffer. -/
theorem handleRead_room {conn : Connection} {answers : List ReadvAnswer}
    (h : (handleRead conn answers).shouldClose = false) :
    (handleRead conn answers).conn.inBuf.full = false := by
  have hroom : ∀ r : RingBuffer, r.getWriteableIovecs.isEmpty = false → r.full = false := by
    intro r hiovecs
    by_contra hfull
    have hcount : r.count = r.buf.length := by simpa [RingBuffer.full] using hfull
    simp [RingBuffer.getWriteableIovecs, hcount] at hiovecs
  induction answers generalizing conn with
  | nil => exact hroom _ h
  | cons answer rest ih =>
    unfold handleRead at h ⊢
    dsimp only at h ⊢
    split at h
    · cases h
    · rename_i hiovecs
      rw [if_neg hiovecs]
      split at h
      · exact ih h
      · cases h
      · exact hroom _ (by simpa using hiovecs)
      · cases h

/-- EPOLLIN is asked for exactly when reading is not paused and there is room. -/
def ReadAgrees (conn : Connection) : Prop :=
  conn.closed = false →
    (conn.currentEpollEvents.epollin = true ↔
      conn.isReadingPaused = false ∧ conn.inBuf.full = false)

/-- The operations that add EPOLLOUT to the mask and never touch EPOLLIN. -/
def addsOnly : ConnOp → Bool
  | .shardTask _ => true
  | .flush => true
  | _ => false

/-- A turn that only adds to the mask does not drain a connection on which
reading was paused; and if its appends take the connection to the high water
mark, the kernel takes everything at once. -/
def KeepsPausing (writev : Kernel) (conn : Connection) (op : ConnOp) : Prop :=
  addsOnly op = true → ∀ entry, writeEntry conn op = some entry →
    (conn.isReadingPaused = true → kernelTakes writev entry < entry.pendingBytes) ∧
    (conn.isReadingPaused = false → entry.isReadingPaused = true →
      kernelTakes writev entry = entry.pendingBytes)

/-- What holds of a registered connection: an open one has room to read. -/
structure Readable (conn : Connection) : Prop where
  throttled : Throttled conn
  room : conn.closed = false → conn.inBuf.full = false

theorem accepted_readable (fd now : ℕ) : Readable (accepted fd now) :=
  ⟨applyAll_throttled takesNothing fd now [.register],
    fun _ => Bool.eq_false_iff.mpr (new_not_full fd now)⟩

theorem perform_readable (writev : Kernel) {conn : Connection} (h : Readable conn) {op : ConnOp}
    (hop : op ≠ .register) : Readable (perform writev conn op) := by
  have hthrottled := apply_throttled writev h.throttled op
  constructor
  · unfold perform
    split
    · exact close_throttled hthrottled
    · exact hthrottled
  · intro hopen
    obtain ⟨hstays, heq⟩ := perform_of_open hopen
    rw [heq] at hopen ⊢
    cases hentry : writeEntry conn op with
    | some entry =>
      have hattempt := apply_attempted writev h.throttled hentry
      rw [hattempt.inBuf]
      exact h.room (hattempt.closed.symm.trans hopen)
    | none =>
      rcases idle_of_no_writeEntry writev h.throttled.armed hentry with
        rfl | rfl | ⟨answers, rfl⟩ | ⟨_, _, hidle⟩
      · exact absurd rfl hop
      · exact absurd hopen (by simp [ConnOp.apply, close_closed])
      · exact handleRead_room hstays
      · rw [hidle] at hopen ⊢
        exact h.room hopen

/-- In a state with room EPOLLIN only has to agree with the pausing. -/
theorem readAgrees_iff {conn : Connection} (hroom : conn.closed = false → conn.inBuf.full = false) :
    ReadAgrees conn ↔
      (conn.closed = false → conn.currentEpollEvents.epollin = !conn.isReadingPaused) := by
  unfold ReadAgrees
  refine forall_congr' fun hopen => ?_
  rw [hroom hopen]
  cases conn.currentEpollEvents.epollin <;> cases conn.isReadingPaused <;> decide

theorem armIfQueued_epollin (conn : Connection) :
    conn.armIfQueued.currentEpollEvents.epollin = conn.currentEpollEvents.epollin := by
  unfold Connection.armIfQueued
  split
  · simp
  · rfl

/-- What an operation with a write attempt leaves in the mask for EPOLLIN. -/
theorem apply_epollin {writev : Kernel} {conn entry : Connection} {op : ConnOp}
    (hentry : writeEntry conn op = some entry) (hstays : shouldClose writev conn op = false) :
    (op.apply writev conn).currentEpollEvents.epollin =
      if addsOnly op then conn.currentEpollEvents.epollin
      else (op.apply writev conn).wantsRead := by
  have hwants : ∀ (c : Connection) (events : EpollEvents),
      (c.updateEpollEvents events).wantsRead = c.wantsRead := by
    intro c events
    have hflow : flow (c.updateEpollEvents events) = flow c := updateEpollEvents_flow events
    simp only [flow, Prod.mk.injEq] at hflow
    simp only [Connection.wantsRead, hflow]
  have hkept := (attemptWrite_arming writev entry).trans (writeEntry_arming hentry).1
  simp only [arming, Prod.mk.injEq] at hkept
  cases op with
  | sendPreEncoded packet =>
    rw [apply_of_writeEntry writev hentry]
    simp only [addsOnly, afterWrite, Connection.recomputeInterest, updateEpollEvents_events,
      hwants, Bool.false_eq_true, if_false]
    rfl
  | handleWrite =>
    have hfatal : (attemptWrite writev entry).2 = false := by
      cases hentry
      exact hstays
    rw [apply_of_writeEntry writev hentry]
    simp only [addsOnly, afterWrite, hfatal, updateEpollEvents_events, hwants,
      Bool.false_eq_true, if_false]
    rfl
  | shardTask events =>
    rw [apply_of_writeEntry writev hentry]
    simp only [addsOnly, if_true, afterWrite, armIfQueued_epollin, hkept]
  | flush =>
    rw [apply_of_writeEntry writev hentry]
    simp only [addsOnly, if_true, afterWrite, armIfQueued_epollin, hkept]
  | _ => cases hentry

theorem appendEvents_paused (conn : Connection) (events : List BroadcastEvent)
    (addedAny : Bool) :
    (appendEvents conn events addedAny).1.isReadingPaused = conn.isReadingPaused := by
  induction events generalizing conn addedAny with
  | nil => rfl
  | cons evt rest ih =>
    unfold appendEvents
    split
    · exact ih conn addedAny
    · split
      · split <;> rfl
      · exact ih _ true

/-- Before its write attempt an operation can only pause reading. -/
theorem writeEntry_paused {conn entry : Connection} {op : ConnOp}
    (hentry : writeEntry conn op = some entry) (hpaused : conn.isReadingPaused = true) :
    entry.isReadingPaused = true := by
  have hcheck : ∀ c : Connection, c.isReadingPaused = true →
      c.checkHighWater.isReadingPaused = true := by
    intro c hc
    unfold Connection.checkHighWater
    split
    · rfl
    · exact hc
  cases op with
  | sendPreEncoded packet =>
    simp only [writeEntry, Option.ite_none_right_eq_some, Option.some.injEq] at hentry
    rw [← hentry.2]
    exact hcheck _ hpaused
  | shardTask events =>
    simp only [writeEntry, Option.ite_none_right_eq_some, Option.some.injEq] at hentry
    rw [← hentry.2]
    exact hcheck _ ((appendEvents_paused _ events false).trans hpaused)
  | flush =>
    simp only [writeEntry, Option.ite_none_left_eq_some, Option.some.injEq] at hentry
    rw [← hentry.2]
    exact hpaused
  | handleWrite =>
    cases hentry
    exact hpaused
  | _ => cases hentry

theorem readAgrees_of_idle {writev : Kernel} {conn : Connection} (h : Readable conn)
    (hagrees : ReadAgrees conn) {op : ConnOp} (hop : op ≠ .register)
    (hentry : writeEntry conn op = none) : ReadAgrees (perform writev conn op) := by
  have hbefore := (readAgrees_iff h.room).mp hagrees
  refine (readAgrees_iff (perform_readable writev h hop).room).mpr ?_
  intro hopen
  obtain ⟨_, heq⟩ := perform_of_open hopen
  rw [heq] at hopen ⊢
  rcases apply_of_no_writeEntry writev h.throttled.armed hentry with
    rfl | rfl | ⟨_, _, _, _, _, hread⟩
  · exact absurd rfl hop
  · exact absurd hopen (by simp [ConnOp.apply, close_closed])
  · rw [hread] at hopen ⊢
    exact hbefore hopen

theorem readAgrees_of_recompute {writev : Kernel} {conn entry : Connection} {op : ConnOp}
    (hentry : writeEntry conn op = some entry) (hadds : addsOnly op = false) :
    ReadAgrees (perform writev conn op) := by
  intro hopen
  obtain ⟨hstays, heq⟩ := perform_of_open hopen
  have hmask := apply_epollin hentry hstays
  rw [hadds, if_neg Bool.false_ne_true] at hmask
  rw [heq, hmask]
  simp [Connection.wantsRead]

/-- The shard task and the flush keep the agreement if the pausing is the same
before and after. -/
theorem readAgrees_of_adds {writev : Kernel} {conn entry : Connection} (h : Readable conn)
    (hagrees : ReadAgrees conn) {op : ConnOp} (hentry : writeEntry conn op = some entry)
    (hadds : addsOnly op = true) :
    ReadAgrees (perform writev conn op) ↔
      (op.apply writev conn).isReadingPaused = conn.isReadingPaused := by
  have hattempt := apply_attempted writev h.throttled hentry
  have hopen : conn.closed = false := by
    cases op with
    | shardTask events =>
      by_contra hclosed
      simp [writeEntry, hclosed] at hentry
    | flush =>
      by_contra hclosed
      simp [writeEntry, hclosed] at hentry
    | _ => cases hadds
  have hstays : shouldClose writev conn op = false := by
    cases op with
    | shardTask events => rfl
    | flush => rfl
    | _ => cases hadds
  have hop : op ≠ .register := by
    rintro rfl
    cases hadds
  have heq : perform writev conn op = op.apply writev conn := by simp [perform, hstays]
  have hbefore := (readAgrees_iff h.room).mp hagrees hopen
  have hmask := apply_epollin hentry hstays
  rw [hadds, if_pos rfl] at hmask
  rw [readAgrees_iff (perform_readable writev h hop).room, heq, hattempt.closed, hmask, hbefore]
  simp only [hopen, true_imp_iff, Bool.not_inj_iff]
  exact eq_comm

/-- Whether an attempt leaves the pausing as it was before the appends. -/
theorem paused_unchanged_iff {writev : Kernel} {conn entry : Connection} (h : Throttled conn)
    {op : ConnOp} (hentry : writeEntry conn op = some entry) :
    (op.apply writev conn).isReadingPaused = conn.isReadingPaused ↔
      (conn.isReadingPaused = true → kernelTakes writev entry < entry.pendingBytes) ∧
      (conn.isReadingPaused = false → entry.isReadingPaused = true →
        kernelTakes writev entry = entry.pendingBytes) := by
  have hattempt := apply_attempted writev h hentry
  have hpending := hattempt.pending
  have hleft : (op.apply writev conn).outgoingQueue.isEmpty = true ↔
      kernelTakes writev entry = entry.pendingBytes := by
    rw [List.isEmpty_iff, hattempt.drained]
    omega
  rw [hattempt.paused]
  cases hpaused : conn.isReadingPaused with
  | true =>
    rw [writeEntry_paused hentry hpaused]
    cases hempty : (op.apply writev conn).outgoingQueue.isEmpty with
    | true =>
      have htaken := hleft.mp hempty
      simp [htaken]
    | false =>
      have htaken : kernelTakes writev entry ≠ entry.pendingBytes := by
        intro hall
        rw [hleft.mpr hall] at hempty
        cases hempty
      have hless : kernelTakes writev entry < entry.pendingBytes := by omega
      simp [hless]
  | false =>
    cases hentryPaused : entry.isReadingPaused with
    | true => simp [← hleft]
    | false => simp

theorem perform_readAgrees_iff (writev : Kernel) {conn : Connection} (h : Readable conn)
    (hagrees : ReadAgrees conn) {op : ConnOp} (hop : op ≠ .register) :
    ReadAgrees (perform writev conn op) ↔ KeepsPausing writev conn op := by
  cases hentry : writeEntry conn op with
  | none =>
    refine iff_of_true (readAgrees_of_idle h hagrees hop hentry) ?_
    intro _ entry hsome
    rw [hentry] at hsome
    cases hsome
  | some entry =>
    cases hadds : addsOnly op with
    | false =>
      refine iff_of_true (readAgrees_of_recompute hentry hadds) ?_
      intro htrue
      rw [hadds] at htrue
      cases htrue
    | true =>
      rw [readAgrees_of_adds h hagrees hentry hadds, paused_unchanged_iff h.throttled hentry]
      constructor
      · intro hkeeps _ entry' hentry'
        cases hentry.symm.trans hentry'
        exact hkeeps
      · intro hkeeps
        exact hkeeps hadds entry hentry

theorem accepted_readAgrees (fd now : ℕ) : ReadAgrees (accepted fd now) :=
  (readAgrees_iff (accepted_readable fd now).room).mpr fun _ => rfl

/-- In a run of operations on a registered connection EPOLLIN agrees with the
flow control throughout exactly if no turn of a shard task or of the timer
flush changes whether reading is paused. -/
theorem read_interest_iff (writev : Kernel) (fd now : ℕ) (ops : List ConnOp)
    (hops : ∀ op ∈ ops, op ≠ .register) :
    (∀ done, done <+: ops → ReadAgrees (performAll writev (accepted fd now) done)) ↔
    ∀ done op, done ++ [op] <+: ops →
      KeepsPausing writev (performAll writev (accepted fd now) done) op :=
  throughout_iff (I := Readable) (K := fun op => op ≠ .register)
    (fun _ _ hop h => perform_readable writev h hop)
    (fun _ _ hop h hagrees => perform_readAgrees_iff writev h hagrees hop)
    (accepted_readable fd now) (accepted_readAgrees fd now) hops

/-- A socket that takes all it is offered. -/
def takesAll : Kernel := fun _ offered =>
  if h : 0 < offered then .sent offered h le_rfl else .eagain

theorem kernelTakes_all {conn : Connection} (h : StreamIntact conn)
    (hfew : conn.outgoingQueue.length ≤ iovLimit) :
    kernelTakes takesAll conn = conn.pendingBytes := by
  have hsum := unsentSizes_sum conn.outgoingQueue
  rw [← h.pending] at hsum
  have hpieces := (unsentSizes_length_le conn.outgoingQueue).trans hfew
  have hoffered : conn.pendingBytes =
      ((unsentSizes conn.outgoingQueue).take iovLimit).sum := by
    rw [List.take_of_length_le hpieces, hsum]
  rw [kernelTakes, bytesTaken_offered takesAll _ hoffered]
  by_cases hnone : 0 < conn.pendingBytes
  · have hanswer : takesAll conn.writevCalls conn.pendingBytes =
        .sent conn.pendingBytes hnone le_rfl := dif_pos hnone
    have hleft : leftOver (unsentSizes conn.outgoingQueue) conn.pendingBytes = [] := by
      rw [← hsum, leftOver_all]
    rw [hanswer]
    simp only [hleft, bytesTaken_nil, Nat.add_zero]
  · have hanswer : takesAll conn.writevCalls conn.pendingBytes = .eagain := dif_neg hnone
    rw [hanswer]
    exact (Nat.eq_zero_of_not_pos hnone).symm

/-- A shard task that takes a connection to the high water mark, on a socket
that takes everything at once. -/
theorem read_interest_burst :
    (∃ entry, writeEntry (accepted 7 0) (.shardTask (burst 40 samplePayload)) = some entry ∧
      entry.isReadingPaused = true) ∧
    ReadAgrees (performAll takesAll (accepted 7 0) [.shardTask (burst 40 samplePayload)]) := by
  obtain ⟨op, hop⟩ : ∃ op, op = ConnOp.shardTask (burst 40 samplePayload) := ⟨_, rfl⟩
  obtain ⟨entry, hentry, hlength, _, hpaused⟩ := sampleBurst_entry 7 0
  rw [← hop] at hentry ⊢
  refine ⟨⟨entry, hentry, hpaused⟩, ?_⟩
  refine (read_interest_iff takesAll 7 0 [op] (by simp [hop])).mpr ?_ _ List.prefix_rfl
  intro done last hdone hadds
  obtain ⟨rfl, rfl⟩ : done = [] ∧ last = op := by
    have hlen := hdone.length_le
    have hlast := hdone.subset (List.mem_append_right _ (List.mem_singleton_self last))
    simp only [List.length_append, List.length_singleton] at hlen
    exact ⟨List.length_eq_zero_iff.mp (by omega), List.mem_singleton.mp hlast⟩
  change ∀ entry', writeEntry (accepted 7 0) last = some entry' → _
  intro entry' hentry'
  cases hentry.symm.trans hentry'
  have hintact := writeEntry_intact (accepted_readable 7 0).throttled.intact hentry
  have hall := kernelTakes_all hintact (by rw [hlength]; decide)
  refine ⟨?_, fun _ _ => hall⟩
  intro hnever
  cases hnever

/-- A shard task that takes a connection to the high water mark, on a socket
that takes nothing, pauses reading and leaves EPOLLIN in the mask. -/
theorem paused_with_epollin :
    ¬ ∀ (writev : Kernel) (fd now : ℕ) (ops : List ConnOp), (∀ op ∈ ops, op ≠ .register) →
      ReadAgrees (performAll writev (accepted fd now) ops) := by
  intro hall
  obtain ⟨op, hop⟩ : ∃ op, op = ConnOp.shardTask (burst 40 samplePayload) := ⟨_, rfl⟩
  have hagrees : ReadAgrees (perform takesNothing (accepted 7 0) op) := by
    refine hall takesNothing 7 0 [op] ?_
    rw [hop]
    exact shardTask_ne_register _
  obtain ⟨entry, hentry, _⟩ := sampleBurst_entry 7 0
  rw [← hop] at hentry
  have hsame := (readAgrees_of_adds (accepted_readable 7 0) (accepted_readAgrees 7 0) hentry
    (by rw [hop]; rfl)).mp hagrees
  have hpaused := (sampleBurst_refused 7 0 (congrArg _ hop)).2
  rw [hpaused] at hsame
  cases hsame

end ChatServer.ReadInterest
