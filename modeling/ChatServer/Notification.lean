import ChatServer.Broadcast

/-!
The wake-up of the reactor. A broadcast is pushed first and notified second,
and the reactor empties the queue only after it has read the counter. So a
queued broadcast is always followed by a notification that the reactor has not
acted on yet, and the eventfd never counts without one.
-/
namespace ChatServer.Notification

open Broadcast Lib.Runs

variable {n : ℕ} {kernel : ConnId → Kernel} {s t : Server n}

/-- The events of the current batch that the loop has not come to. -/
def undispatched : Reactor → List Ready
  | .dispatching batch _ => batch
  | _ => []

def pendingBroadcast : Reactor → Bool
  | .dispatching _ pending => pending
  | _ => false

/-- The fields that the wake-up of the reactor depends on. -/
def wakeUp (s : Server n) : List BroadcastEvent × ℕ × ℕ × Bool × Reactor × Bool :=
  (s.globalQueue, s.notifying, s.counter, s.edge, s.reactor, s.running)

structure Awake (s : Server n) : Prop where
  counted : s.running = true → 0 < s.counter →
    s.edge = true ∨ .notify ∈ undispatched s.reactor
  queued : s.running = true → s.globalQueue ≠ [] →
    s.edge = true ∨ .notify ∈ undispatched s.reactor ∨ pendingBroadcast s.reactor = true ∨
      0 < s.notifying

namespace Awake

theorem init : Awake (Server.init : Server n) :=
  ⟨fun _ hcounter => absurd hcounter (Nat.lt_irrefl 0), fun _ hqueue => absurd rfl hqueue⟩

theorem congr (h : Awake s) (heq : wakeUp t = wakeUp s) : Awake t := by
  simp only [wakeUp, Prod.mk.injEq] at heq
  obtain ⟨hqueue, hnotifying, hcounter, hedge, hreactor, hrunning⟩ := heq
  constructor
  · rw [hrunning, hcounter, hedge, hreactor]
    exact h.counted
  · rw [hrunning, hqueue, hedge, hreactor, hnotifying]
    exact h.queued

/-- A server that is shutting down owes no wake-up. -/
theorem of_not_running (h : s.running = false) : Awake s :=
  ⟨fun hrunning => absurd (h.symm.trans hrunning) Bool.false_ne_true,
    fun hrunning => absurd (h.symm.trans hrunning) Bool.false_ne_true⟩

theorem push (h : Awake s) (data : Bytes) (excludeFd : ℤ) : Awake (s.pushEvent data excludeFd) :=
  ⟨h.counted, fun _ _ => .inr (.inr (.inr (Nat.succ_pos _)))⟩

/-- A write that fails leaves a counter that was notified before. -/
theorem notify (h : Awake s) : Awake s.notify := by
  unfold Server.notify
  split
  · exact ⟨fun _ _ => .inl rfl, fun _ _ => .inl rfl⟩
  · rename_i hfull
    have hcounter : 0 < s.counter :=
      (show 0 < eventfdMax by decide).trans_le (Nat.le_of_not_lt hfull)
    refine ⟨h.counted, ?_⟩
    intro hrunning _
    rcases h.counted hrunning hcounter with hedge | hbatch
    · exact .inl hedge
    · exact .inr (.inl hbatch)

/-- Outside a batch only the edge, and a thread inside Broadcast, can announce
what is in the queue. -/
theorem counted_idle (h : Awake s) (hbatch : undispatched s.reactor = [])
    (hrunning : s.running = true) (hcounter : 0 < s.counter) : s.edge = true := by
  refine (h.counted hrunning hcounter).resolve_right ?_
  rw [hbatch]
  exact List.not_mem_nil

theorem queued_idle (h : Awake s) (hbatch : undispatched s.reactor = [])
    (hrunning : s.running = true) (hqueue : s.globalQueue ≠ []) :
    s.edge = true ∨ pendingBroadcast s.reactor = true ∨ 0 < s.notifying := by
  refine (h.queued hrunning hqueue).imp_right fun h => h.resolve_left ?_
  rw [hbatch]
  exact List.not_mem_nil

theorem epollWait (h : Awake s) (hreactor : s.reactor = .waiting) (batch : List Ready) :
    Awake { s with
      edge := s.edge && !batch.contains .notify
      reactor := .dispatching batch false } := by
  have hbatch : undispatched s.reactor = [] := congrArg undispatched hreactor
  have hkept : s.edge = true →
      (s.edge && !batch.contains .notify) = true ∨ .notify ∈ batch := by
    intro hedge
    by_cases hmem : .notify ∈ batch
    · exact .inr hmem
    · left
      simp [hedge, hmem]
  constructor
  · intro hrunning hcounter
    exact hkept (h.counted_idle hbatch hrunning hcounter)
  · intro hrunning hqueue
    rcases h.queued_idle hbatch hrunning hqueue with hedge | hpending | hnotifying
    · exact (hkept hedge).imp_right .inl
    · rw [hreactor] at hpending
      exact absurd hpending Bool.false_ne_true
    · exact .inr (.inr (.inr hnotifying))

/-- The notify event: the counter is read, and the queue is flushed after the batch. -/
theorem dispatchNotify (rest : List Ready) :
    Awake { s with counter := 0, reactor := .dispatching rest true } :=
  ⟨fun _ hcounter => absurd hcounter (Nat.lt_irrefl 0), fun _ _ => .inr (.inr (.inl rfl))⟩

theorem dispatchOther (h : Awake s) {rest : List Ready} {pending : Bool}
    (hreactor : s.reactor = .dispatching (.other :: rest) pending) :
    Awake { s with reactor := .dispatching rest pending } := by
  have hrest : .notify ∈ undispatched s.reactor → .notify ∈ rest := by
    rw [hreactor]
    exact fun hmem => (List.mem_cons.mp hmem).resolve_left nofun
  have hpending : pendingBroadcast s.reactor = pending := by
    rw [hreactor]
    rfl
  constructor
  · intro hrunning hcounter
    exact (h.counted hrunning hcounter).imp_right hrest
  · intro hrunning hqueue
    have hqueued := h.queued hrunning hqueue
    rw [hpending] at hqueued
    exact hqueued.imp_right (Or.imp_left hrest)

/-- Back to the loop test, with nothing in the queue that was to be flushed. -/
theorem loop (h : Awake s) (hbatch : undispatched s.reactor = [])
    (hpending : pendingBroadcast s.reactor = true → s.globalQueue = []) : Awake s.loop := by
  constructor
  · intro hrunning hcounter
    exact .inl (h.counted_idle hbatch hrunning hcounter)
  · intro hrunning hqueue
    rcases h.queued_idle hbatch hrunning hqueue with hedge | htrue | hnotifying
    · exact .inl hedge
    · exact absurd (hpending htrue) hqueue
    · exact .inr (.inr (.inr hnotifying))

/-- The queue is taken: what comes later is pushed and notified later. -/
theorem swapQueue (h : Awake s) (hreactor : s.reactor = .dispatching [] true) :
    Awake s.swapQueue := by
  have hbatch : undispatched s.reactor = [] := congrArg undispatched hreactor
  unfold Server.swapQueue
  split
  · rename_i hempty
    exact h.loop hbatch fun _ => List.isEmpty_iff.mp hempty
  · refine ⟨?_, fun _ hqueue => absurd rfl hqueue⟩
    intro hrunning hcounter
    exact .inl (h.counted_idle hbatch hrunning hcounter)

theorem next (h : Awake s) {a : Action n} (hnext : s.next kernel a = some t) : Awake t := by
  cases Server.next_moves hnext with
  | broadcastPush data excludeFd => exact h.push data excludeFd
  | broadcastNotify => exact h.notify
  | epollWait hreactor => exact h.epollWait hreactor _
  | epollFails => exact of_not_running rfl
  | dispatchNotify => exact dispatchNotify _
  | dispatchSignal => exact of_not_running rfl
  | dispatchOther hreactor => exact h.dispatchOther hreactor
  | flush hreactor => exact h.swapQueue hreactor
  | endBatch hreactor =>
    refine h.loop (congrArg undispatched hreactor) ?_
    rw [hreactor]
    exact fun hpending => absurd hpending Bool.false_ne_true
  | pushBatch hreactor =>
    have hloop : Awake s.loop := by
      refine h.loop (congrArg undispatched hreactor) ?_
      rw [hreactor]
      exact fun hpending => absurd hpending Bool.false_ne_true
    exact hloop.congr rfl
  | pop => exact h.congr rfl
  | snapshot => exact h.congr rfl
  | turn => exact h.congr rfl
  | finish => exact h.congr rfl
  | accept => exact h.congr rfl
  | closeAgain => exact h
  | close => exact h.congr rfl
  | erase => exact h.congr rfl
  | connOp => exact h.congr rfl

end Awake

/-- While the server runs, a queued broadcast never waits without a
notification that is pending, dispatched in this batch, or still to be written. -/
theorem no_stranded_broadcast (kernel : ConnId → Kernel) (s : Server n)
    (hs : Reachable (machine kernel n) AnyStep s) (hrunning : s.running = true)
    (hqueue : s.globalQueue ≠ []) :
    s.edge = true ∨ .notify ∈ undispatched s.reactor ∨ pendingBroadcast s.reactor = true ∨
      0 < s.notifying := by
  have hawake : Awake s := hs.invariant .init fun _ _ _ h _ hnext => h.next hnext
  exact hawake.queued hrunning hqueue

/-- The notify event is dispatched and the queue is not flushed yet. -/
theorem no_stranded_broadcast_sample :
    ∃ s : Server 1, Reachable (machine sampleKernel 1) AnyStep s ∧ s.running = true ∧
      s.globalQueue ≠ [] ∧ s.edge = false ∧ pendingBroadcast s.reactor = true := by
  have hrun : (run (machine sampleKernel 1) AnyStep Server.init
      [.broadcastPush [1] (-1), .broadcastNotify, .epollWait [.notify], .dispatch]).any (fun s =>
      s.running = true ∧ s.globalQueue ≠ [] ∧ s.edge = false ∧
        undispatched s.reactor = [] ∧ s.notifying = 0) := by
    decide +kernel
  obtain ⟨s, hs, hrunning, hqueue, hedge, hbatch, hnotifying⟩ := exists_reachable hrun
  refine ⟨s, hs, hrunning, hqueue, hedge, ?_⟩
  rcases no_stranded_broadcast sampleKernel s hs hrunning hqueue with h | h | h | h
  · rw [hedge] at h
    exact absurd h Bool.false_ne_true
  · rw [hbatch] at h
    exact absurd h List.not_mem_nil
  · exact h
  · rw [hnotifying] at h
    exact absurd h (Nat.lt_irrefl 0)

end ChatServer.Notification
