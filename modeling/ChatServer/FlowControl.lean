import ChatServer.Lib.Runs
import ChatServer.WriteAttempt

/-!
Flow control. An operation makes at most one write attempt, so what it does to
`pending_bytes`, the queue and the pausing of reading follows from how the
attempt ends. Reading is paused from the high water mark on and never with an
empty queue. That it resumes at the low water mark is true only of runs in
which no attempt stops between the mark and an empty queue.
-/
namespace ChatServer.FlowControl

open OutputStream ShardTask WriteAttempt Lib.Runs

section InterestMask

variable {conn : Connection}

@[simp]
theorem updateEpollEvents_events (events : EpollEvents) :
    (conn.updateEpollEvents events).currentEpollEvents = events := by
  unfold Connection.updateEpollEvents
  split
  · assumption
  · rfl

@[simp]
theorem updateEpollEvents_armed (events : EpollEvents) :
    (conn.updateEpollEvents events).isWriteArmed = conn.isWriteArmed := by
  unfold Connection.updateEpollEvents
  split <;> rfl

@[simp]
theorem updateEpollEvents_flow (events : EpollEvents) :
    flow (conn.updateEpollEvents events) = flow conn := by
  unfold Connection.updateEpollEvents
  split <;> rfl

theorem rearm_flow : flow conn.rearm = flow conn := by
  unfold Connection.rearm
  dsimp only
  split
  · split <;> exact updateEpollEvents_flow _
  · split <;> exact updateEpollEvents_flow _

theorem armIfQueued_flow : flow conn.armIfQueued = flow conn := by
  unfold Connection.armIfQueued
  split
  · exact updateEpollEvents_flow _
  · rfl

theorem afterWrite_flow (fatal : Bool) (op : ConnOp) :
    flow (afterWrite conn fatal op) = flow conn := by
  cases op with
  | sendPreEncoded packet => exact (updateEpollEvents_flow _).trans rearm_flow
  | handleWrite =>
    simp only [afterWrite]
    split
    · rfl
    · exact updateEpollEvents_flow _
  | _ => exact armIfQueued_flow

theorem armIfQueued_armed (hqueue : conn.outgoingQueue ≠ []) :
    conn.armIfQueued.isWriteArmed = true := by
  unfold Connection.armIfQueued
  split
  · rfl
  · rename_i hno
    simpa [hqueue] using hno

end InterestMask

/-- The operations that call attempt_write leave EPOLLOUT armed for a queue
that is not empty. -/
theorem afterWrite_armed {conn : Connection} (hqueue : conn.outgoingQueue ≠ []) (fatal : Bool)
    (op : ConnOp) : (afterWrite conn fatal op).isWriteArmed = true := by
  cases op with
  | sendPreEncoded packet =>
    have hflow : flow conn.rearm = flow conn := rearm_flow
    have hleft : conn.rearm.outgoingQueue ≠ [] := by
      intro hnil
      exact hqueue ((congrArg (fun f => f.1.2.1) hflow).symm.trans hnil)
    simp [afterWrite, Connection.recomputeInterest, hleft]
  | handleWrite =>
    simp only [afterWrite]
    split
    · simpa using hqueue
    · simpa using hqueue
  | _ => exact armIfQueued_armed hqueue

/-- An operation whose first writev is refused leaves everything queued. -/
theorem apply_refused {writev : Kernel} {conn entry : Connection} {op : ConnOp}
    (hentry : writeEntry conn op = some entry) (hbytes : unsentBytes entry.outgoingQueue ≠ [])
    (hrefuse : writev entry.writevCalls (gather iovLimit entry.outgoingQueue).flatten.length =
      .eagain) : flow (op.apply writev conn) = flow entry.writevFails := by
  rw [apply_of_writeEntry writev hentry, attemptWrite_refused hbytes hrefuse]
  exact afterWrite_flow false op

/-- `d` is `c` but for the side of the connection that is read, and the metrics. -/
def Reads (c d : Connection) : Prop :=
  ∃ inBuf codecSet lastActivity received metrics, d = { c with
    inBuf := inBuf
    codecSet := codecSet
    lastActivity := lastActivity
    received := received
    metrics := metrics }

theorem Reads.refl (c : Connection) : Reads c c := ⟨_, _, _, _, _, rfl⟩

theorem Reads.trans {c d e : Connection} (h : Reads c d) (h' : Reads d e) : Reads c e := by
  obtain ⟨_, _, _, _, _, rfl⟩ := h
  obtain ⟨inBuf, codecSet, lastActivity, received, metrics, rfl⟩ := h'
  exact ⟨inBuf, codecSet, lastActivity, received, metrics, rfl⟩

theorem handleRead_reads (conn : Connection) (answers : List ReadvAnswer) :
    Reads conn (handleRead conn answers).conn := by
  obtain ⟨_, _, _, _, _, _, htaken⟩ := handleRead_takesIn conn answers
  exact ⟨_, _, _, _, _, htaken⟩

theorem appendEvents_added (conn : Connection) (events : List BroadcastEvent) :
    (appendEvents conn events true).2 = true := by
  induction events generalizing conn with
  | nil => rfl
  | cons evt rest ih =>
    unfold appendEvents
    split
    · exact ih conn
    · split
      · split <;> rfl
      · exact ih _

/-- `d` is `c` but for the codec and the metrics. -/
def Idles (c d : Connection) : Prop :=
  ∃ codecSet metrics, d = { c with codecSet := codecSet, metrics := metrics }

theorem Idles.refl (c : Connection) : Idles c c := ⟨_, _, rfl⟩

theorem Idles.trans {c d e : Connection} (h : Idles c d) (h' : Idles d e) : Idles c e := by
  obtain ⟨_, _, rfl⟩ := h
  obtain ⟨codecSet, metrics, rfl⟩ := h'
  exact ⟨codecSet, metrics, rfl⟩

/-- A batch that appends nothing to the connection at most counts a drop. -/
theorem appendEvents_unadded {conn : Connection} {events : List BroadcastEvent}
    (h : (appendEvents conn events false).2 = false) :
    Idles conn (appendEvents conn events false).1 := by
  induction events with
  | nil => exact .refl conn
  | cons evt rest ih =>
    unfold appendEvents at h ⊢
    split
    · rename_i hown
      rw [if_pos hown] at h
      exact ih h
    · rename_i hother
      rw [if_neg hother] at h
      split
      · split
        · exact ⟨_, _, rfl⟩
        · exact .refl conn
      · rename_i hroom
        rw [if_neg hroom] at h
        rw [appendEvents_added] at h
        cases h

/-- While a queue that is not empty is armed, SendPreEncoded never skips its attempt. -/
theorem sendGuard_true {conn : Connection}
    (harmed : conn.outgoingQueue ≠ [] → conn.isWriteArmed = true) (packet : SharedPayload) :
    sendGuard (conn.append packet).checkHighWater
      (conn.outgoingQueue.isEmpty && !conn.isWriteArmed) = true := by
  have hkept : (conn.append packet).checkHighWater.isWriteArmed = conn.isWriteArmed := by
    unfold Connection.checkHighWater
    split <;> rfl
  cases harm : conn.isWriteArmed with
  | true => simp [sendGuard, hkept, harm]
  | false =>
    have hempty : conn.outgoingQueue = [] := by
      by_contra hqueue
      rw [harmed hqueue] at harm
      cases harm
    simp [sendGuard, hempty]

/-- What an operation without a write attempt can be. -/
theorem idle_of_no_writeEntry (writev : Kernel) {conn : Connection} {op : ConnOp}
    (harmed : conn.outgoingQueue ≠ [] → conn.isWriteArmed = true)
    (h : writeEntry conn op = none) :
    op = .register ∨ op = .close ∨ (∃ answers, op = .handleRead answers) ∨
      Idles conn (op.apply writev conn) := by
  cases op with
  | sendPreEncoded packet =>
    simp only [writeEntry, sendGuard_true harmed packet, Bool.and_true,
      ite_eq_right_iff, reduceCtorEq, imp_false, Bool.not_eq_true, Bool.not_eq_false'] at h
    refine Or.inr (Or.inr (Or.inr ?_))
    simp only [ConnOp.apply, sendPreEncoded, h, if_true]
    exact .refl conn
  | shardTask events =>
    refine Or.inr (Or.inr (Or.inr ?_))
    simp only [ConnOp.apply, shardTaskBody]
    split
    · exact .refl conn
    · rename_i hopen
      have hnone : (appendEvents conn.ensureCodec events false).2 = false := by
        simpa [writeEntry, hopen] using h
      have hset : Idles conn conn.ensureCodec := ⟨_, _, rfl⟩
      simp only [hnone, Bool.false_eq_true, if_false]
      exact hset.trans (appendEvents_unadded hnone)
  | flush =>
    refine Or.inr (Or.inr (Or.inr ?_))
    simp only [ConnOp.apply, flushBody]
    split
    · exact .refl conn
    · rename_i hbusy
      simp [writeEntry, hbusy] at h
  | handleWrite => simp [writeEntry] at h
  | handleRead answers => exact Or.inr (Or.inr (Or.inl ⟨answers, rfl⟩))
  | register => exact Or.inl rfl
  | close => exact Or.inr (Or.inl rfl)

/-- Such an operation does not touch what is to be sent. -/
theorem apply_of_no_writeEntry (writev : Kernel) {conn : Connection} {op : ConnOp}
    (harmed : conn.outgoingQueue ≠ [] → conn.isWriteArmed = true)
    (h : writeEntry conn op = none) :
    op = .register ∨ op = .close ∨ Reads conn (op.apply writev conn) := by
  rcases idle_of_no_writeEntry writev harmed h with
    hregister | hclose | ⟨answers, rfl⟩ | ⟨_, _, heq⟩
  · exact Or.inl hregister
  · exact Or.inr (Or.inl hclose)
  · exact Or.inr (Or.inr (handleRead_reads conn answers))
  · exact Or.inr (Or.inr ⟨_, _, _, _, _, heq⟩)

/-- Backpressure: reading is paused from the high water mark on, and never
with an empty queue. -/
structure Throttled (conn : Connection) : Prop where
  intact : StreamIntact conn
  armed : conn.outgoingQueue ≠ [] → conn.isWriteArmed = true
  high : highWaterMark ≤ conn.pendingBytes → conn.isReadingPaused = true
  queued : conn.isReadingPaused = true → conn.outgoingQueue ≠ []

theorem new_throttled (fd now : ℕ) : Throttled (Connection.new fd now) where
  intact := new_intact fd now
  armed := fun h => absurd rfl h
  high := fun h => absurd (show highWaterMark ≤ 0 from h) (by decide)
  queued := fun h => absurd h Bool.false_ne_true

/-- The watermark check after packets were appended. -/
theorem checkHighWater_throttles {conn : Connection} (h : StreamIntact conn)
    (hqueued : conn.isReadingPaused = true → conn.outgoingQueue ≠ []) :
    (highWaterMark ≤ conn.checkHighWater.pendingBytes →
      conn.checkHighWater.isReadingPaused = true) ∧
    (conn.checkHighWater.isReadingPaused = true → conn.checkHighWater.outgoingQueue ≠ []) := by
  unfold Connection.checkHighWater
  split
  · rename_i hcross
    simp only [Bool.and_eq_true, Bool.not_eq_true', decide_eq_true_eq] at hcross
    refine ⟨fun _ => rfl, ?_⟩
    intro _ hnil
    have hpending := h.pending
    rw [show conn.outgoingQueue = [] from hnil] at hpending
    simp only [unsentBytes_nil, List.length_nil, highWaterMark] at hpending hcross
    omega
  · rename_i hbelow
    refine ⟨?_, hqueued⟩
    intro hhigh
    simpa [hhigh] using hbelow

theorem appendEvents_queued {conn : Connection}
    (h : conn.isReadingPaused = true → conn.outgoingQueue ≠ [])
    (events : List BroadcastEvent) (addedAny : Bool) :
    (appendEvents conn events addedAny).1.isReadingPaused = true →
      (appendEvents conn events addedAny).1.outgoingQueue ≠ [] := by
  induction events generalizing conn addedAny with
  | nil => exact h
  | cons evt rest ih =>
    unfold appendEvents
    split
    · exact ih h addedAny
    · split
      · split <;> exact h
      · refine ih ?_ true
        intro _
        simp [Connection.append]

/-- With what an operation enters attempt_write: the stream is intact and the
watermark has been checked. -/
theorem writeEntry_throttles {conn entry : Connection} {op : ConnOp} (h : Throttled conn)
    (hentry : writeEntry conn op = some entry) :
    (highWaterMark ≤ entry.pendingBytes → entry.isReadingPaused = true) ∧
    (entry.isReadingPaused = true → entry.outgoingQueue ≠ []) := by
  cases op with
  | sendPreEncoded packet =>
    simp only [writeEntry, Option.ite_none_right_eq_some, Option.some.injEq] at hentry
    rw [← hentry.2]
    refine checkHighWater_throttles (append_intact h.intact packet) ?_
    intro _
    simp [Connection.append]
  | shardTask events =>
    simp only [writeEntry, Option.ite_none_right_eq_some, Option.some.injEq] at hentry
    rw [← hentry.2]
    have hset : StreamIntact conn.ensureCodec := h.intact.congr rfl
    have hqueued : conn.ensureCodec.isReadingPaused = true →
        conn.ensureCodec.outgoingQueue ≠ [] := h.queued
    exact checkHighWater_throttles (appendEvents_intact hset events false)
      (appendEvents_queued hqueued events false)
  | flush =>
    simp only [writeEntry, Option.ite_none_left_eq_some, Option.some.injEq] at hentry
    rw [← hentry.2]
    exact ⟨h.high, h.queued⟩
  | handleWrite =>
    cases hentry
    exact ⟨h.high, h.queued⟩
  | _ => cases hentry

theorem appendEvents_arming (conn : Connection) (events : List BroadcastEvent)
    (addedAny : Bool) :
    arming (appendEvents conn events addedAny).1 = arming conn ∧
      (appendEvents conn events addedAny).1.sent = conn.sent := by
  induction events generalizing conn addedAny with
  | nil => exact ⟨rfl, rfl⟩
  | cons evt rest ih =>
    unfold appendEvents
    split
    · exact ih conn addedAny
    · split
      · split <;> exact ⟨rfl, rfl⟩
      · exact ih _ true

/-- The appends before a write attempt touch neither the mask nor what the kernel took. -/
theorem writeEntry_arming {conn entry : Connection} {op : ConnOp}
    (hentry : writeEntry conn op = some entry) :
    arming entry = arming conn ∧ entry.sent = conn.sent := by
  have hcheck : ∀ c : Connection, arming c.checkHighWater = arming c ∧
      c.checkHighWater.sent = c.sent := by
    intro c
    unfold Connection.checkHighWater
    split <;> exact ⟨rfl, rfl⟩
  cases op with
  | sendPreEncoded packet =>
    simp only [writeEntry, Option.ite_none_right_eq_some, Option.some.injEq] at hentry
    rw [← hentry.2]
    exact hcheck _
  | shardTask events =>
    simp only [writeEntry, Option.ite_none_right_eq_some, Option.some.injEq] at hentry
    rw [← hentry.2]
    obtain ⟨harming, hsent⟩ := hcheck (appendEvents conn.ensureCodec events false).1
    obtain ⟨happended, htaken⟩ := appendEvents_arming conn.ensureCodec events false
    exact ⟨harming.trans happended, hsent.trans htaken⟩
  | flush =>
    simp only [writeEntry, Option.ite_none_left_eq_some, Option.some.injEq] at hentry
    rw [← hentry.2]
    exact ⟨rfl, rfl⟩
  | handleWrite =>
    cases hentry
    exact ⟨rfl, rfl⟩
  | _ => cases hentry

/-- What an operation with a write attempt comes to: of the bytes pending at
its entry some are taken, and reading stays paused exactly if some are left. -/
structure Attempted (conn entry : Connection) (taken : ℕ) (next : Connection) : Prop where
  intact : StreamIntact next
  armed : next.outgoingQueue ≠ [] → next.isWriteArmed = true
  failed : next.outgoingQueue ≠ [] → next.writevFailed = true
  pending : taken + next.pendingBytes = entry.pendingBytes
  drained : next.outgoingQueue = [] ↔ next.pendingBytes = 0
  paused : next.isReadingPaused = (entry.isReadingPaused && !next.outgoingQueue.isEmpty)
  closed : next.closed = conn.closed
  inBuf : next.inBuf = conn.inBuf

theorem apply_attempted (writev : Kernel) {conn entry : Connection} {op : ConnOp}
    (h : Throttled conn) (hentry : writeEntry conn op = some entry) :
    Attempted conn entry (kernelTakes writev entry) (op.apply writev conn) := by
  have hintact := writeEntry_intact h.intact hentry
  obtain ⟨_, hqueued⟩ := writeEntry_throttles h hentry
  obtain ⟨harming, _⟩ := writeEntry_arming hentry
  have hidle : entry.outgoingQueue = [] → entry.isReadingPaused = false := by
    intro hnil
    by_contra hpaused
    exact hqueued (by simpa using hpaused) hnil
  have hafter : flow (op.apply writev conn) = flow (attemptWrite writev entry).1 := by
    rw [apply_of_writeEntry writev hentry]
    exact afterWrite_flow _ op
  simp only [flow, output, Prod.mk.injEq] at hafter
  obtain ⟨⟨_, hqueue, _, hpending⟩, hpaused, hfailed, hclosed, hinBuf⟩ := hafter
  have hkept := (attemptWrite_arming writev entry).trans harming
  simp only [arming, Prod.mk.injEq] at hkept
  obtain ⟨_, _, _, hclosed', hinBuf'⟩ := hkept
  have htaken := attemptWrite_pending writev hintact
  constructor
  · exact apply_intact writev h.intact op
  · intro hleft
    rw [apply_of_writeEntry writev hentry]
    rw [hqueue] at hleft
    exact afterWrite_armed hleft _ op
  · intro hleft
    rw [hqueue] at hleft
    exact hfailed.trans (attemptWrite_stalled hleft).1
  · have hgrows := attemptWrite_taken writev entry
    rw [hpending]
    omega
  · rw [hqueue, hpending]
    exact attemptWrite_drained writev hintact
  · rw [hpaused, hqueue]
    exact attemptWrite_paused writev hintact hidle
  · exact hclosed.trans hclosed'
  · exact hinBuf.trans hinBuf'

theorem Reads.throttled {c d : Connection} (hread : Reads c d) (h : Throttled c) :
    Throttled d := by
  obtain ⟨_, _, _, _, _, rfl⟩ := hread
  exact ⟨h.intact.congr rfl, h.armed, h.high, h.queued⟩

theorem close_throttled {conn : Connection} (h : Throttled conn) : Throttled conn.close := by
  have hintact : StreamIntact conn.close := h.intact.congr (output_close conn)
  unfold Connection.close at hintact ⊢
  split at hintact
  · rename_i hclosed
    rw [if_pos hclosed]
    exact h
  · rename_i hopen
    rw [if_neg hopen]
    exact ⟨hintact, h.armed, h.high, h.queued⟩

theorem apply_throttled (writev : Kernel) {conn : Connection} (h : Throttled conn)
    (op : ConnOp) : Throttled (op.apply writev conn) := by
  cases hentry : writeEntry conn op with
  | some entry =>
    have hattempt := apply_attempted writev h hentry
    obtain ⟨hhigh, _⟩ := writeEntry_throttles h hentry
    have hpending := hattempt.pending
    refine ⟨hattempt.intact, hattempt.armed, ?_, ?_⟩
    · intro habove
      have hentryPaused := hhigh (by omega)
      have hleft : (op.apply writev conn).outgoingQueue ≠ [] := by
        intro hnil
        have hzero := hattempt.drained.mp hnil
        simp only [highWaterMark] at habove
        omega
      rw [hattempt.paused, hentryPaused]
      simpa using hleft
    · intro hpaused
      rw [hattempt.paused] at hpaused
      simp only [Bool.and_eq_true, Bool.not_eq_true', List.isEmpty_eq_false_iff] at hpaused
      exact hpaused.2
  | none =>
    rcases apply_of_no_writeEntry writev h.armed hentry with rfl | rfl | hread
    · exact ⟨h.intact.congr rfl, h.armed, h.high, h.queued⟩
    · exact close_throttled h
    · exact hread.throttled h

theorem applyAll_throttled (writev : Kernel) (fd now : ℕ) (ops : List ConnOp) :
    Throttled (ConnOp.applyAll writev (Connection.new fd now) ops) :=
  ConnOp.applyAll_invariant (new_throttled fd now) (fun _ op h => apply_throttled writev h op) ops

/-- Reading has resumed once no more than the low water mark is pending. -/
def AboveLowMark (conn : Connection) : Prop :=
  conn.isReadingPaused = true → lowWaterMark < conn.pendingBytes

/-- If the operation writes while reading is paused, the kernel takes either
everything or so little that more than the low water mark stays pending. -/
def LeavesMoreOrNothing (writev : Kernel) (conn : Connection) (op : ConnOp) : Prop :=
  ∀ entry, writeEntry conn op = some entry → entry.isReadingPaused = true →
    kernelTakes writev entry + lowWaterMark < entry.pendingBytes ∨
      kernelTakes writev entry = entry.pendingBytes

theorem apply_aboveLowMark_iff (writev : Kernel) {conn : Connection} (hthrottled : Throttled conn)
    (h : AboveLowMark conn) (op : ConnOp) :
    AboveLowMark (op.apply writev conn) ↔ LeavesMoreOrNothing writev conn op := by
  cases hentry : writeEntry conn op with
  | none =>
    have hnext : AboveLowMark (op.apply writev conn) := by
      rcases apply_of_no_writeEntry writev hthrottled.armed hentry with rfl | rfl | hread
      · exact h
      · change AboveLowMark conn.close
        unfold Connection.close
        split <;> exact h
      · obtain ⟨_, _, _, _, _, heq⟩ := hread
        rw [heq]
        exact h
    refine iff_of_true hnext ?_
    intro entry hsome
    rw [hentry] at hsome
    cases hsome
  | some entry =>
    have hattempt := apply_attempted writev hthrottled hentry
    have hpending := hattempt.pending
    have hdrained := hattempt.drained
    have hpaused := hattempt.paused
    constructor
    · intro habove entry' hentry' hentryPaused
      cases hentry.symm.trans hentry'
      by_cases hempty : (op.apply writev conn).outgoingQueue = []
      · have hzero := hdrained.mp hempty
        omega
      · have hlow := habove (by rw [hpaused, hentryPaused]; simpa using hempty)
        omega
    · intro htaken hnext
      rw [hpaused] at hnext
      simp only [Bool.and_eq_true, Bool.not_eq_true', List.isEmpty_eq_false_iff] at hnext
      have hleft : (op.apply writev conn).pendingBytes ≠ 0 := fun hzero =>
        hnext.2 (hdrained.mpr hzero)
      have hcase := htaken entry hentry hnext.1
      omega

/-- In a run of operations on a connection reading is never left paused at or
below the low water mark exactly if no operation stops between the two. -/
theorem low_water_mark_iff (writev : Kernel) (fd now : ℕ) (ops : List ConnOp) :
    (∀ done, done <+: ops →
      AboveLowMark (ConnOp.applyAll writev (Connection.new fd now) done)) ↔
    ∀ done op, done ++ [op] <+: ops →
      LeavesMoreOrNothing writev (ConnOp.applyAll writev (Connection.new fd now) done) op :=
  throughout_iff (I := Throttled) (fun _ op _ h => apply_throttled writev h op)
    (fun _ op _ hthrottled h => apply_aboveLowMark_iff writev hthrottled h op)
    (new_throttled fd now) (fun h => absurd h Bool.false_ne_true) (fun _ _ => trivial)

/-- The state in which accept_loop leaves a connection. -/
def accepted (fd now : ℕ) : Connection := (Connection.new fd now).register

/-- The broadcast of a payload to everybody, `n` times in one batch. -/
def burst (n : ℕ) (payload : SharedPayload) : List BroadcastEvent :=
  List.replicate n ⟨-1, payload⟩

theorem appendEvents_burst {conn : Connection} (hqueue : conn.outgoingQueue = [])
    (hnew : conn.appended = []) {n : ℕ} (payload : SharedPayload) (hn : n ≤ maxOutgoingQueueSize) :
    (appendEvents conn (burst n payload) false).1.appended = List.replicate n payload ∧
      (appendEvents conn (burst n payload) false).1.outgoingQueue.length = n := by
  have hkept : keptEvents conn.fd conn.outgoingQueue.length (burst n payload) =
      burst n payload := by
    have hlen : (burst n payload).length = n := List.length_replicate
    refine keptEvents_all ?_ (by rw [hqueue, List.length_nil]; omega)
    intro evt hevt
    rw [List.eq_of_mem_replicate hevt]
    exact fun hown => hown.1 rfl
  have happended : (appendEvents conn (burst n payload) false).1.appended =
      List.replicate n payload := by
    have hmarks := congrArg (fun m => m.2.2) (appendEvents_marks conn (burst n payload) false)
    simp only [hkept, hnew, List.nil_append] at hmarks
    exact hmarks.trans (by simp [burst])
  have htogether := appendEvents_length conn (burst n payload) false
  refine ⟨happended, ?_⟩
  simpa [happended, hqueue, hnew] using htogether

/-- The shard task enters attempt_write with the whole burst pending. -/
theorem burst_entry (fd now n : ℕ) (payload : SharedPayload) (hn : n < maxOutgoingQueueSize) :
    ∃ entry, writeEntry (accepted fd now) (.shardTask (burst (n + 1) payload)) = some entry ∧
      entry.outgoingQueue.length = n + 1 ∧
      entry.pendingBytes = (n + 1) * payload.bytes.length := by
  have hadded : (appendEvents (accepted fd now).ensureCodec (burst (n + 1) payload) false).2 =
      true := appendEvents_added _ (burst n payload)
  have hentry : writeEntry (accepted fd now) (.shardTask (burst (n + 1) payload)) =
      some (appendEvents (accepted fd now).ensureCodec
        (burst (n + 1) payload) false).1.checkHighWater := by
    simp only [writeEntry, hadded, Bool.and_true]
    rfl
  have hnothing : (accepted fd now).ensureCodec.outgoingQueue = [] := rfl
  obtain ⟨happended, hlength⟩ := appendEvents_burst hnothing rfl payload hn
  have hstart : StreamIntact (accepted fd now) := ⟨rfl, rfl⟩
  have hintact := writeEntry_intact hstart hentry
  have hsent : (accepted fd now).sent = [] := rfl
  have hstream := congrArg List.length hintact.stream
  rw [(writeEntry_arming hentry).2, hsent, List.nil_append, ← hintact.pending] at hstream
  obtain ⟨_, _, _, _, hchecked⟩ := (appendEvents (accepted fd now).ensureCodec
    (burst (n + 1) payload) false).1.checkHighWater_rearms
  refine ⟨_, hentry, ?_, ?_⟩
  · rw [hchecked]
    exact hlength
  · rw [hchecked] at hstream ⊢
    simpa only [happended, List.flatMap_replicate, List.length_flatten, List.map_replicate,
      List.sum_replicate_nat] using hstream

theorem shardTask_ne_register (events : List BroadcastEvent) :
    ∀ op ∈ [ConnOp.shardTask events], op ≠ .register := by
  simp

/-- A broadcast of a size that a client can cause. -/
def samplePayload : SharedPayload := ⟨List.replicate 8000 0, some 0⟩

/-- A socket that takes nothing. -/
def takesNothing : Kernel := fun _ _ => .eagain

/-- Forty such broadcasts are more than the high water mark. -/
theorem sampleBurst_entry (fd now : ℕ) :
    ∃ entry, writeEntry (accepted fd now) (.shardTask (burst 40 samplePayload)) = some entry ∧
      entry.outgoingQueue.length = 40 ∧ entry.pendingBytes = 320000 ∧
      entry.isReadingPaused = true := by
  have hbytes : samplePayload.bytes.length = 8000 := List.length_replicate
  obtain ⟨entry, hentry, hlength, hpending⟩ := burst_entry fd now 39 samplePayload (by decide)
  refine ⟨entry, hentry, hlength, by omega, ?_⟩
  have hthrottled := applyAll_throttled takesNothing fd now [.register]
  refine (writeEntry_throttles hthrottled hentry).1 ?_
  simp only [highWaterMark]
  omega

theorem sampleBurst_refused (fd now : ℕ) {conn : Connection}
    (hconn : conn = (ConnOp.shardTask (burst 40 samplePayload)).apply takesNothing
      (accepted fd now)) : conn.pendingBytes = 320000 ∧ conn.isReadingPaused = true := by
  obtain ⟨entry, hentry, _, hpending, hpaused⟩ := sampleBurst_entry fd now
  have hthrottled := applyAll_throttled takesNothing fd now [.register]
  have hbytes : unsentBytes entry.outgoingQueue ≠ [] := by
    intro hnil
    have hzero := (writeEntry_intact hthrottled.intact hentry).pending
    rw [hnil, List.length_nil] at hzero
    omega
  have hflow : flow conn = flow entry.writevFails := by
    rw [hconn]
    exact apply_refused hentry hbytes rfl
  simp only [flow, output, Connection.writevFails, Prod.mk.injEq] at hflow
  exact ⟨hflow.1.2.2.2.trans hpending, hflow.2.1.trans hpaused⟩

/-- A socket that takes all but the last byte it is offered. -/
def leavesOne : Kernel := fun _ offered =>
  if h : 1 < offered then .sent (offered - 1) (by omega) (by omega) else .eagain

/-- Such a socket leaves one byte of what fits into one writev. -/
theorem attemptWrite_leavesOne {conn : Connection} (h : StreamIntact conn)
    (hmany : 1 < conn.pendingBytes) (hfew : conn.outgoingQueue.length ≤ iovLimit) :
    (attemptWrite leavesOne conn).1.pendingBytes = 1 := by
  have hpending := h.pending
  have hoffered : (gather iovLimit conn.outgoingQueue).flatten.length = conn.pendingBytes := by
    rw [gather_all hfew, hpending]
  have hsent : leavesOne conn.writevCalls (gather iovLimit conn.outgoingQueue).flatten.length =
      .sent ((gather iovLimit conn.outgoingQueue).flatten.length - 1) (by omega) (by omega) :=
    dif_pos (by omega)
  have hbefore : unsentBytes conn.outgoingQueue ≠ [] := by
    intro hnil
    rw [hnil, List.length_nil] at hpending
    omega
  have hiteration := writeIteration_sent hbefore hsent
  have hnext := writeIteration_intact h hiteration
  obtain ⟨next, hdef⟩ : ∃ next, next = conn.afterWritev (gather iovLimit conn.outgoingQueue)
      ((gather iovLimit conn.outgoingQueue).flatten.length - 1) := ⟨_, rfl⟩
  rw [← hdef] at hiteration hnext
  have hone : next.pendingBytes = 1 := by
    simp only [hdef, Connection.afterWritev]
    rw [if_pos (by omega)]
    omega
  have hleft : (unsentBytes next.outgoingQueue).length = 1 := hnext.pending.symm.trans hone
  have hbytes : unsentBytes next.outgoingQueue ≠ [] := by
    intro hnil
    rw [hnil, List.length_nil] at hleft
    omega
  have hrefuse : leavesOne next.writevCalls (gather iovLimit next.outgoingQueue).flatten.length =
      .eagain := by
    have hle := (gather_front iovLimit next.outgoingQueue).length_le
    exact dif_neg (by omega)
  rw [attemptWrite_again hiteration (gather_of_unsentBytes hbytes).1,
    attemptWrite_refused hbytes hrefuse]
  exact hone

/-- Reading stays paused with one byte pending: forty broadcasts of 8000 bytes
reach a connection whose socket then takes all but the last byte of them. -/
theorem paused_below_low_mark :
    ¬ ∀ (writev : Kernel) (fd now : ℕ) (ops : List ConnOp), (∀ op ∈ ops, op ≠ .register) →
      AboveLowMark (ConnOp.applyAll writev (accepted fd now) ops) := by
  intro hall
  obtain ⟨op, hop⟩ : ∃ op, op = ConnOp.shardTask (burst 40 samplePayload) := ⟨_, rfl⟩
  obtain ⟨entry, hentry, hlength, hpending, hpaused⟩ := sampleBurst_entry 7 0
  rw [← hop] at hentry
  have hthrottled : Throttled (accepted 7 0) := applyAll_throttled leavesOne 7 0 [.register]
  have hattempt := apply_attempted leavesOne hthrottled hentry
  have hone : (op.apply leavesOne (accepted 7 0)).pendingBytes = 1 := by
    have hwritten := attemptWrite_leavesOne (writeEntry_intact hthrottled.intact hentry)
      (by omega) (by rw [hlength]; decide)
    rw [apply_of_writeEntry leavesOne hentry]
    exact (congrArg (fun f => f.1.2.2.2) (afterWrite_flow _ op)).trans hwritten
  have hleft : (op.apply leavesOne (accepted 7 0)).outgoingQueue ≠ [] := by
    intro hnil
    have hzero := hattempt.drained.mp hnil
    omega
  have habove : AboveLowMark (op.apply leavesOne (accepted 7 0)) := by
    rw [← ConnOp.applyAll_singleton]
    refine hall leavesOne 7 0 [op] ?_
    rw [hop]
    exact shardTask_ne_register _
  have hlow := habove (hattempt.paused.trans (by simpa [hpaused] using hleft))
  rw [hone] at hlow
  exact absurd hlow (by decide)

end ChatServer.FlowControl
