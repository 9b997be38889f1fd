import ChatServer.Connection

/-!
`WebServer::attempt_write`. The gather loop, the consume loop and the body of
the while loop are separate definitions; the while loop is proved to end, and
each of its iterations to move bytes from the queue to the kernel without
losing or repeating one.
-/
namespace ChatServer

/-- What a writev that was offered this many bytes may return. -/
inductive WritevResult (offered : ℕ)
  | sent (n : ℕ) (pos : 0 < n) (le : n ≤ offered)
  | eagain
  | fatal

/-- The kernel's answers to the writev calls on one connection, by their number. -/
abbrev Kernel := ℕ → (offered : ℕ) → WritevResult offered

def iovLimit : ℕ := 64

/-- The gather loop: the first `limit` non-empty suffixes. -/
def gather : ℕ → List OutgoingPacket → List Bytes
  | 0, _ => []
  | _, [] => []
  | limit + 1, pkt :: rest =>
      if pkt.sentOffset < pkt.payload.bytes.length then pkt.unsent :: gather limit rest
      else gather (limit + 1) rest

/-- The consume loop after a writev; also counts the packets it pops. -/
def consumeSent : List OutgoingPacket → ℕ → List OutgoingPacket × ℕ
  | [], _ => ([], 0)
  | pkt :: rest, bytesLeft =>
      if bytesLeft = 0 then (pkt :: rest, 0)
      else
        let remainingInPkt := pkt.payload.bytes.length - pkt.sentOffset
        if h : remainingInPkt ≤ bytesLeft then
          ((consumeSent rest (bytesLeft - remainingInPkt)).1,
            (consumeSent rest (bytesLeft - remainingInPkt)).2 + 1)
        else
          ({ pkt with
              sentOffset := pkt.sentOffset + bytesLeft
              offset_le := by omega } :: rest, 0)

namespace Connection

/-- The bookkeeping after a writev of `iov` that returned `n > 0`. -/
def afterWritev (conn : Connection) (iov : List Bytes) (n : ℕ) : Connection :=
  { conn with
    pendingBytes := if n ≤ conn.pendingBytes then conn.pendingBytes - n else 0
    outgoingQueue := (consumeSent conn.outgoingQueue n).1
    sent := conn.sent ++ iov.flatten.take n
    writevCalls := conn.writevCalls + 1
    writevFailed := false
    metrics := { conn.metrics with
      bytesSent := conn.metrics.bytesSent + n
      messagesSent := conn.metrics.messagesSent + (consumeSent conn.outgoingQueue n).2 } }

def writevFails (conn : Connection) : Connection :=
  { conn with writevCalls := conn.writevCalls + 1, writevFailed := true }

/-- The exit of the while loop with an empty queue. -/
def resumeReading (conn : Connection) : Connection :=
  if conn.isReadingPaused && conn.pendingBytes ≤ lowWaterMark then
    { conn with isReadingPaused := false }
  else conn

end Connection

inductive Iteration
  | again (conn : Connection)
  | returns (conn : Connection) (fatal : Bool)

/-- One turn of the while loop, its test included. -/
def writeIteration (writev : Kernel) (conn : Connection) : Iteration :=
  if conn.outgoingQueue.isEmpty then .returns conn.resumeReading false
  else
    let iov := gather iovLimit conn.outgoingQueue
    if iov.isEmpty then .again { conn with outgoingQueue := conn.outgoingQueue.tail }
    else
      match writev conn.writevCalls iov.flatten.length with
      | .sent n _ _ => .again (conn.afterWritev iov n)
      | .eagain => .returns conn.writevFails false
      | .fatal => .returns conn.writevFails true

theorem gather_front (limit : ℕ) (queue : List OutgoingPacket) :
    (gather limit queue).flatten <+: unsentBytes queue := by
  induction queue generalizing limit with
  | nil => cases limit <;> simp [gather]
  | cons pkt rest ih =>
    cases limit with
    | zero => simp [gather]
    | succ limit =>
      by_cases h : pkt.sentOffset < pkt.payload.bytes.length
      · simp only [gather, h, if_true, List.flatten_cons, unsentBytes_cons]
        exact (List.prefix_append_right_inj _).mpr (ih limit)
      · have hempty : pkt.unsent = [] := by
          apply List.length_eq_zero_iff.mp
          rw [pkt.unsent_length]
          omega
        simp only [gather, h, if_false, unsentBytes_cons, hempty, List.nil_append]
        exact ih (limit + 1)

/-- With nothing to offer, every queued packet is exhausted. -/
theorem unsentBytes_of_gather_nil {limit : ℕ} {queue : List OutgoingPacket}
    (h : gather (limit + 1) queue = []) : unsentBytes queue = [] := by
  induction queue with
  | nil => rfl
  | cons pkt rest ih =>
    by_cases hoff : pkt.sentOffset < pkt.payload.bytes.length
    · simp [gather, hoff] at h
    · have hempty : pkt.unsent = [] := by
        apply List.length_eq_zero_iff.mp
        rw [pkt.unsent_length]
        omega
      rw [unsentBytes_cons, hempty, List.nil_append]
      apply ih
      simpa only [gather, hoff, if_false] using h

theorem consumeSent_unsent (queue : List OutgoingPacket) (n : ℕ) :
    unsentBytes (consumeSent queue n).1 = (unsentBytes queue).drop n := by
  induction queue generalizing n with
  | nil => simp [consumeSent]
  | cons pkt rest ih =>
    have hlen := pkt.unsent_length
    by_cases hzero : n = 0
    · simp [consumeSent, hzero]
    · by_cases hall : pkt.payload.bytes.length - pkt.sentOffset ≤ n
      · simp only [consumeSent, hzero, hall, if_false, dif_pos, ih, unsentBytes_cons]
        rw [List.drop_append, List.drop_of_length_le (show pkt.unsent.length ≤ n by omega),
          List.nil_append, hlen]
      · simp only [consumeSent, hzero, hall, if_false, dif_neg, unsentBytes_cons,
          not_false_eq_true]
        rw [List.drop_append_of_le_length (by omega), OutgoingPacket.unsent,
          OutgoingPacket.unsent, List.drop_drop]

theorem consumeSent_length_le (queue : List OutgoingPacket) (n : ℕ) :
    (consumeSent queue n).1.length ≤ queue.length := by
  induction queue generalizing n with
  | nil => simp [consumeSent]
  | cons pkt rest ih =>
    unfold consumeSent
    split
    · exact Nat.le_refl _
    · dsimp only
      split
      · exact Nat.le_succ_of_le (ih _)
      · exact Nat.le_refl _

/-- What the while loop consumes: queued packets and unsent bytes. -/
def workLeft (conn : Connection) : ℕ :=
  conn.outgoingQueue.length + (unsentBytes conn.outgoingQueue).length

/-- What an iteration that goes on has done: it dropped an exhausted packet,
or the kernel took the first `n` of the unsent bytes. -/
theorem writeIteration_again {writev : Kernel} {conn next : Connection}
    (h : writeIteration writev conn = .again next) :
    (∃ pkt rest, conn.outgoingQueue = pkt :: rest ∧ unsentBytes conn.outgoingQueue = [] ∧
      next = { conn with outgoingQueue := rest }) ∨
    (∃ n, 0 < n ∧ n ≤ (unsentBytes conn.outgoingQueue).length ∧
      (gather iovLimit conn.outgoingQueue).flatten.take n =
        (unsentBytes conn.outgoingQueue).take n ∧
      next = conn.afterWritev (gather iovLimit conn.outgoingQueue) n) := by
  unfold writeIteration at h
  cases hqueue : conn.outgoingQueue with
  | nil => simp [hqueue] at h
  | cons pkt rest =>
    simp only [hqueue, List.isEmpty_cons, Bool.false_eq_true, if_false] at h
    cases hiov : gather iovLimit (pkt :: rest) with
    | nil =>
      simp only [hiov, List.isEmpty_nil, if_true, List.tail_cons, Iteration.again.injEq] at h
      exact Or.inl ⟨pkt, rest, rfl, unsentBytes_of_gather_nil hiov, h.symm⟩
    | cons first others =>
      simp only [hiov, List.isEmpty_cons, Bool.false_eq_true, if_false] at h
      split at h
      · rename_i n hpos hle _
        obtain ⟨tail, htail⟩ := gather_front iovLimit (pkt :: rest)
        have hoffered : n ≤ (first :: others).flatten.length := by
          rwa [hqueue, hiov] at hle
        rw [hiov] at htail
        refine Or.inr ⟨n, hpos, ?_, ?_, (Iteration.again.inj h).symm⟩
        · rw [← htail, List.length_append]
          omega
        · rw [← htail, List.take_append_of_le_length hoffered]
      · cases h
      · cases h

theorem writeIteration_workLeft {writev : Kernel} {conn next : Connection}
    (h : writeIteration writev conn = .again next) : workLeft next < workLeft conn := by
  rcases writeIteration_again h with ⟨pkt, rest, hqueue, hempty, rfl⟩ | ⟨n, hpos, hle, _, rfl⟩
  · have hrest : (unsentBytes rest).length ≤ (unsentBytes conn.outgoingQueue).length := by
      rw [hqueue, unsentBytes_cons, List.length_append]
      omega
    simp only [workLeft, hqueue, List.length_cons] at *
    omega
  · have hlen := consumeSent_length_le conn.outgoingQueue n
    simp only [workLeft, Connection.afterWritev, consumeSent_unsent, List.length_drop]
    omega

/-- The while loop; the second component is the returned flag. -/
def attemptWriteLoop (writev : Kernel) (conn : Connection) : Connection × Bool :=
  match _h : writeIteration writev conn with
  | .again next => attemptWriteLoop writev next
  | .returns next fatal => (next, fatal)
termination_by workLeft conn
decreasing_by exact writeIteration_workLeft _h

def attemptWrite (writev : Kernel) (conn : Connection) : Connection × Bool :=
  if conn.outgoingQueue.isEmpty then (conn, false) else attemptWriteLoop writev conn

/-- The connections that a call entered with `conn` has at its loop test. -/
inductive AtLoopTest (writev : Kernel) : Connection → Connection → Prop
  | enter (conn : Connection) : AtLoopTest writev conn conn
  | again {conn next later : Connection} (h : writeIteration writev conn = .again next)
      (hrest : AtLoopTest writev next later) : AtLoopTest writev conn later

/-- A call ends with a returning iteration at one of its loop tests. -/
theorem attemptWriteLoop_returns (writev : Kernel) (conn : Connection) :
    ∃ last, AtLoopTest writev conn last ∧
      writeIteration writev last =
        .returns (attemptWriteLoop writev conn).1 (attemptWriteLoop writev conn).2 := by
  induction hn : workLeft conn using Nat.strongRecOn generalizing conn with
  | ind n ih =>
    rw [attemptWriteLoop]
    split
    · rename_i next hnext
      have hlt : workLeft next < n := hn ▸ writeIteration_workLeft hnext
      obtain ⟨last, hlast, hreturns⟩ := ih _ hlt next rfl
      exact ⟨last, .again hnext hlast, hreturns⟩
    · rename_i next fatal hnext
      exact ⟨conn, .enter conn, hnext⟩

/-- A property kept by every iteration that goes on holds at every loop test. -/
theorem AtLoopTest.invariant {writev : Kernel} {P : Connection → Prop}
    (hstep : ∀ c d, P c → writeIteration writev c = .again d → P d)
    {conn later : Connection} (h : AtLoopTest writev conn later) (hconn : P conn) : P later := by
  induction h with
  | enter => exact hconn
  | again h hrest ih => exact ih (hstep _ _ hconn h)

/-- How a call can return: from the empty queue, or on a failed writev. -/
theorem writeIteration_returns {writev : Kernel} {conn next : Connection} {fatal : Bool}
    (h : writeIteration writev conn = .returns next fatal) :
    (conn.outgoingQueue = [] ∧ next = conn.resumeReading ∧ fatal = false) ∨
    (conn.outgoingQueue ≠ [] ∧ next = conn.writevFails) := by
  unfold writeIteration at h
  cases hqueue : conn.outgoingQueue with
  | nil =>
    simp only [hqueue, List.isEmpty_nil, if_true, Iteration.returns.injEq] at h
    exact Or.inl ⟨rfl, h.1.symm, h.2.symm⟩
  | cons pkt rest =>
    simp only [hqueue, List.isEmpty_cons, Bool.false_eq_true, if_false] at h
    refine Or.inr ⟨by simp, ?_⟩
    split at h
    · cases h
    · split at h
      · cases h
      · exact (Iteration.returns.inj h).1.symm
      · exact (Iteration.returns.inj h).1.symm

/-- To prove something of the result of attempt_write: it holds at the entry,
iterations that go on keep it, and so do the two ways to return. -/
theorem attemptWrite_induct {writev : Kernel} {P : Connection → Prop} {conn : Connection}
    (hconn : P conn)
    (hstep : ∀ c d, P c → writeIteration writev c = .again d → P d)
    (hresume : ∀ c, P c → c.outgoingQueue = [] → P c.resumeReading)
    (hfail : ∀ c, P c → c.outgoingQueue ≠ [] → P c.writevFails) :
    P (attemptWrite writev conn).1 := by
  unfold attemptWrite
  split
  · exact hconn
  · obtain ⟨last, hlast, hreturns⟩ := attemptWriteLoop_returns writev conn
    have hP := hlast.invariant hstep hconn
    rcases writeIteration_returns hreturns with ⟨hqueue, hnext, _⟩ | ⟨hqueue, hnext⟩
    · rw [hnext]
      exact hresume last hP hqueue
    · rw [hnext]
      exact hfail last hP hqueue

end ChatServer
