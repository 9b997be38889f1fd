import ChatServer.FlowControl

/-!
The interest in EPOLLOUT under edge triggering. Once accept_loop has registered
a connection, its armed flag, the cached mask and the mask in the kernel agree
after every operation, and a queue that is not empty waits for an edge.
-/
namespace ChatServer.WriteInterest

open OutputStream WriteAttempt FlowControl

section InterestMask

variable {conn : Connection}

/-- The flag, the cached mask and the mask in the kernel agree. -/
structure Registered (conn : Connection) : Prop where
  armed : conn.isWriteArmed = conn.currentEpollEvents.epollout
  known : conn.closed = false → conn.interest = some conn.currentEpollEvents

theorem updateEpollEvents_registered {events : EpollEvents}
    (hknown : conn.closed = false → conn.interest = some conn.currentEpollEvents)
    (harmed : conn.isWriteArmed = events.epollout) :
    Registered (conn.updateEpollEvents events) := by
  refine ⟨by simpa using harmed, ?_⟩
  unfold Connection.updateEpollEvents
  split
  · exact hknown
  · intro hopen
    simp [Connection.modFdEpoll, hknown hopen]

theorem rearm_registered (h : Registered conn) : Registered conn.rearm := by
  unfold Connection.rearm
  dsimp only
  split
  · split
    · exact updateEpollEvents_registered h.known rfl
    · exact updateEpollEvents_registered h.known h.armed
  · split
    · exact updateEpollEvents_registered h.known rfl
    · exact updateEpollEvents_registered h.known h.armed

theorem setWriteArmed_updateEpollEvents (armed : Bool) (events : EpollEvents) :
    { conn with isWriteArmed := armed }.updateEpollEvents events =
      { conn.updateEpollEvents events with isWriteArmed := armed } := by
  unfold Connection.updateEpollEvents
  dsimp only
  split <;> rfl

theorem armIfQueued_registered (h : Registered conn) : Registered conn.armIfQueued := by
  unfold Connection.armIfQueued
  split
  · rw [← setWriteArmed_updateEpollEvents]
    exact updateEpollEvents_registered h.known rfl
  · exact h

end InterestMask

/-- A fatal handle_write leaves the mask alone, which then has to be armed already. -/
theorem afterWrite_registered {conn : Connection} (h : Registered conn) {fatal : Bool}
    {op : ConnOp} (hfatal : op = .handleWrite → fatal = true →
      conn.outgoingQueue ≠ [] ∧ conn.currentEpollEvents.epollout = true) :
    Registered (afterWrite conn fatal op) := by
  cases op with
  | sendPreEncoded packet =>
    exact updateEpollEvents_registered (rearm_registered h).known rfl
  | handleWrite =>
    simp only [afterWrite]
    split
    · rename_i hclose
      obtain ⟨hqueue, hout⟩ := hfatal rfl hclose
      exact ⟨by simp [hqueue, hout], h.known⟩
    · exact updateEpollEvents_registered h.known rfl
  | _ => exact armIfQueued_registered h

/-- Once accept_loop has registered a connection its mask is kept up to date:
what is queued waits for an edge that has been asked for. -/
structure Watched (conn : Connection) : Prop extends Registered conn where
  queued : conn.outgoingQueue ≠ [] →
    conn.currentEpollEvents.epollout = true ∧ conn.writevFailed = true

theorem accepted_watched (fd now : ℕ) : Watched (accepted fd now) where
  armed := rfl
  known := fun _ => rfl
  queued := fun h => absurd rfl h

theorem close_watched {conn : Connection} (h : Watched conn) : Watched conn.close := by
  unfold Connection.close
  split
  · exact h
  · exact ⟨⟨h.armed, fun hopen => absurd hopen (by simp)⟩, h.queued⟩

theorem apply_watched (writev : Kernel) {conn : Connection} (hthrottled : Throttled conn)
    (h : Watched conn) {op : ConnOp} (hop : op ≠ .register) :
    Watched (op.apply writev conn) := by
  cases hentry : writeEntry conn op with
  | some entry =>
    have hattempt := apply_attempted writev hthrottled hentry
    obtain ⟨harming, _⟩ := writeEntry_arming hentry
    have hkept := (attemptWrite_arming writev entry).trans harming
    simp only [arming, Prod.mk.injEq] at hkept
    obtain ⟨harmed, hevents, hinterest, hclosed, _⟩ := hkept
    have hwritten : Registered (attemptWrite writev entry).1 :=
      ⟨by rw [harmed, hevents]; exact h.armed,
        by rw [hclosed, hinterest, hevents]; exact h.known⟩
    have hnext : Registered (op.apply writev conn) := by
      rw [apply_of_writeEntry writev hentry]
      refine afterWrite_registered hwritten ?_
      rintro rfl hfatal
      cases hentry
      have hleft := attemptWrite_fatal hfatal
      have hbefore : conn.outgoingQueue ≠ [] := by
        intro hnil
        simp [attemptWrite, hnil] at hfatal
      refine ⟨hleft, ?_⟩
      rw [hevents]
      exact (h.queued hbefore).1
    refine ⟨hnext, ?_⟩
    intro hleft
    refine ⟨?_, hattempt.failed hleft⟩
    rw [← hnext.armed]
    exact hattempt.armed hleft
  | none =>
    rcases apply_of_no_writeEntry writev hthrottled.armed hentry with rfl | rfl | hread
    · exact absurd rfl hop
    · exact close_watched h
    · obtain ⟨_, _, _, _, _, heq⟩ := hread
      rw [heq]
      exact ⟨⟨h.armed, h.known⟩, h.queued⟩

/-- What is kept up to date on a registered connection, over any run of
operations on it. -/
theorem applyAll_watched (writev : Kernel) (fd now : ℕ) (ops : List ConnOp)
    (hops : ∀ op ∈ ops, op ≠ .register) :
    Throttled (ConnOp.applyAll writev (accepted fd now) ops) ∧
      Watched (ConnOp.applyAll writev (accepted fd now) ops) := by
  have hstart : Throttled (accepted fd now) ∧ Watched (accepted fd now) :=
    ⟨applyAll_throttled writev fd now [.register], accepted_watched fd now⟩
  refine ConnOp.applyAll_invariant_of (P := fun c => Throttled c ∧ Watched c) hstart ?_ hops
  intro c op hop ⟨hthrottled, hwatched⟩
  exact ⟨apply_throttled writev hthrottled op, apply_watched writev hthrottled hwatched hop⟩

/-- No output is stranded. The flag is set exactly when EPOLLOUT is in the
mask, which is the mask in the kernel while the connection is open; with
something queued EPOLLOUT is in the mask and the last writev failed; and no
SendPreEncoded skips its write attempt. -/
theorem no_stranded_output (writev : Kernel) (fd now : ℕ) (ops : List ConnOp)
    (hops : ∀ op ∈ ops, op ≠ .register) (conn : Connection)
    (hconn : conn = ConnOp.applyAll writev (accepted fd now) ops) :
    (conn.isWriteArmed = true ↔ conn.currentEpollEvents.epollout = true) ∧
    (conn.closed = false → conn.interest = some conn.currentEpollEvents) ∧
    (conn.outgoingQueue ≠ [] →
      conn.currentEpollEvents.epollout = true ∧ conn.writevFailed = true) ∧
    (∀ packet, sendGuard (conn.append packet).checkHighWater
      (conn.outgoingQueue.isEmpty && !conn.isWriteArmed) = true) := by
  obtain ⟨hthrottled, hwatched⟩ := applyAll_watched writev fd now ops hops
  rw [← hconn] at hthrottled hwatched
  exact ⟨by rw [hwatched.armed], hwatched.known, hwatched.queued,
    sendGuard_true hthrottled.armed⟩

/-- A socket that takes nothing: the packet waits for an edge that was asked for. -/
theorem no_stranded_output_refused :
    (ConnOp.applyAll takesNothing (accepted 7 0)
      [.sendPreEncoded ⟨[1], none⟩]).currentEpollEvents.epollout = true := by
  have hqueued := (no_stranded_output takesNothing 7 0 [.sendPreEncoded ⟨[1], none⟩]
    (by simp) _ rfl).2.2.1
  have hentry : writeEntry (accepted 7 0) (.sendPreEncoded ⟨[1], none⟩) =
      some ((accepted 7 0).append ⟨[1], none⟩) := rfl
  have hrefused : flow (ConnOp.apply takesNothing (accepted 7 0)
      (.sendPreEncoded ⟨[1], none⟩)) = _ := apply_refused hentry (by decide) rfl
  refine (hqueued ?_).1
  intro hnil
  have hsame := (congrArg (fun f => f.1.2.1) hrefused).symm.trans hnil
  cases hsame

/-- Backpressure cannot wedge a reader. -/
theorem backpressure (writev : Kernel) (fd now : ℕ) (ops : List ConnOp)
    (hops : ∀ op ∈ ops, op ≠ .register) (conn : Connection)
    (hconn : conn = ConnOp.applyAll writev (accepted fd now) ops) :
    (highWaterMark ≤ conn.pendingBytes → conn.isReadingPaused = true) ∧
    (conn.isReadingPaused = true →
      conn.outgoingQueue ≠ [] ∧ conn.currentEpollEvents.epollout = true) := by
  obtain ⟨hthrottled, hwatched⟩ := applyAll_watched writev fd now ops hops
  rw [← hconn] at hthrottled hwatched
  refine ⟨hthrottled.high, ?_⟩
  intro hpaused
  have hqueue := hthrottled.queued hpaused
  exact ⟨hqueue, (hwatched.queued hqueue).1⟩

/-- Forty broadcasts of 8000 bytes to a socket that takes nothing. -/
theorem backpressure_burst :
    ∃ conn, conn = ConnOp.applyAll takesNothing (accepted 7 0)
        [.shardTask (burst 40 samplePayload)] ∧
      conn.isReadingPaused = true ∧ conn.currentEpollEvents.epollout = true := by
  obtain ⟨conn, hconn⟩ : ∃ conn, conn = ConnOp.applyAll takesNothing (accepted 7 0)
      [.shardTask (burst 40 samplePayload)] := ⟨_, rfl⟩
  obtain ⟨hhigh, hpaused⟩ := backpressure takesNothing 7 0
    [.shardTask (burst 40 samplePayload)] (shardTask_ne_register _) conn hconn
  have hpending :=
    (sampleBurst_refused 7 0 (hconn.trans (ConnOp.applyAll_singleton _ _ _))).1
  have hstopped : conn.isReadingPaused = true := by
    refine hhigh ?_
    simp only [highWaterMark]
    omega
  exact ⟨conn, hconn, hstopped, (hpaused hstopped).2⟩

end ChatServer.WriteInterest
