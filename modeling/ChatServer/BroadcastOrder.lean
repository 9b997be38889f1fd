import ChatServer.BroadcastDelivery

/-!
Order of the broadcasts. The tasks of two flushes can be in the hands of two
workers at once, and nothing but the mutex of a connection stands between
them. A connection is given the broadcasts in the order of their Broadcast
calls as long as no worker takes its turn there while another one has yet to
take it with an earlier flush.
-/
namespace ChatServer.BroadcastOrder

open Broadcast BroadcastFlow BroadcastDelivery ShardTask Lib.Runs

variable {n : ℕ}

instance : DecidableRel Overtakes := by
  intro r r'
  unfold Overtakes Awaits
  split <;> infer_instance

/-- A worker waits at a connection for the workers that have an earlier batch for it. -/
def NotOvertaking (s : Server n) : Action n → Prop
  | .turn w => ∀ v, ¬ Overtakes (s.workers w) (s.workers v)
  | _ => True

instance (s : Server n) (a : Action n) : Decidable (NotOvertaking s a) := by
  unfold NotOvertaking
  split <;> infer_instance

/-- In a run where no worker overtakes another one at a connection, every
connection is given the broadcasts in the order of their Broadcast calls. -/
theorem broadcast_order (kernel : ConnId → Kernel) (s : Server n)
    (hs : Reachable (machine kernel n) NotOvertaking s) (id : ConnId) (conn : Connection)
    (hconn : s.conns id = some conn) :
    (conn.appended.filterMap SharedPayload.origin).Pairwise (· < ·) := by
  obtain ⟨_, _, hspaced⟩ := Spaced.reachable (R := (· < ·)) (fun _ _ => fun h => h)
    (fun s w hallowed v hover => absurd hover (hallowed v)) hs
  exact (hspaced id _ (inbox_of_conn hconn)).2.pairwise

section Samples

/-- A turn at an open connection whose queue has room for all of the batch. -/
theorem turn_gives (kernel : ConnId → Kernel) {s : Server n} {w : Fin n} {task : Task}
    {rest : List ConnId} {id : ConnId} {conn : Connection}
    (hheld : s.workers w = some ⟨task, some (id :: rest)⟩) (hconn : s.conns id = some conn)
    (hopen : conn.closed = false) (hin : ∀ evt ∈ task.batch.events, Included conn.fd evt)
    (hroom : conn.outgoingQueue.length + task.batch.events.length ≤ maxOutgoingQueueSize) :
    ∃ t conn', s.next kernel (.turn w) = some t ∧ t.conns id = some conn' ∧
      marks conn' = (conn.fd, conn.closed, conn.appended ++
        task.batch.events.map BroadcastEvent.payload) ∧
      conn'.outgoingQueue.length ≤ conn.outgoingQueue.length + task.batch.events.length ∧
      t.workers w = some ⟨task, some rest⟩ ∧ ∀ v ≠ w, t.workers v = s.workers v := by
  have hmarks := shardTaskBody_marks (kernel id) conn task.batch.events hopen
  have hlength := shardTaskBody_length (kernel id) conn task.batch.events
  rw [keptEvents_all hin hroom] at hmarks
  refine ⟨_, _, Server.turn_next kernel hheld hconn, Function.update_self _ _ _, hmarks, ?_,
    Function.update_self _ _ _, ?_⟩
  · simp only [marks, Prod.mk.injEq] at hmarks
    rw [hmarks.2.2, List.length_append, List.length_map] at hlength
    omega
  · exact fun v hv => Function.update_of_ne hv _ _

theorem included_everybody (fd : ℕ) (payload : SharedPayload) : Included fd ⟨-1, payload⟩ :=
  fun h => h.1 rfl

/-- Two flushes of one broadcast each. -/
def firstTask : Task := ⟨0, ⟨0, [⟨-1, ⟨[1], some 0⟩⟩]⟩⟩

def secondTask : Task := ⟨0, ⟨1, [⟨-1, ⟨[2], some 1⟩⟩]⟩⟩

/-- Each of two workers has come to connection 0 with the task of one of them. -/
structure BothHeld (s : Server 2) (conn : Connection) : Prop where
  first : s.workers 0 = some ⟨firstTask, some [0]⟩
  second : s.workers 1 = some ⟨secondTask, some [0]⟩
  found : s.conns 0 = some conn
  opened : conn.closed = false
  appended : conn.appended = []
  queue : conn.outgoingQueue.length = 0

theorem both_held : ∃ s conn, Reachable (machine sampleKernel 2) NotOvertaking s ∧
    BothHeld s conn := by
  have hrun : (run (machine sampleKernel 2) NotOvertaking Server.init
      (.accept 0 0 0 :: broadcastRound [1] ++ broadcastRound [2] ++
        [.pop 0, .snapshot 0 [0]] ++
        (List.replicate 15 [.pop 1, .snapshot 1 [], .finish 1]).flatten ++
        [.pop 1, .snapshot 1 [0]])).any (fun s =>
      s.workers 0 = some ⟨firstTask, some [0]⟩ ∧ s.workers 1 = some ⟨secondTask, some [0]⟩ ∧
        given s 0 = some ((0, false, []), 0)) := by
    decide +kernel
  obtain ⟨s, hs, hfirst, hsecond, hgiven⟩ := exists_reachable hrun
  obtain ⟨conn, hconn, hfd, hopen, happended, hsize⟩ := given_eq_some hgiven
  exact ⟨s, conn, hs, hfirst, hsecond, hconn, hopen, happended, hsize⟩

/-- The task of the first flush comes to the connection before that of the second. -/
theorem broadcast_order_sample :
    ∃ (s : Server 2) (conn : Connection), Reachable (machine sampleKernel 2) NotOvertaking s ∧
      s.conns 0 = some conn ∧ conn.appended = [⟨[1], some 0⟩, ⟨[2], some 1⟩] ∧
      (conn.appended.filterMap SharedPayload.origin).Pairwise (· < ·) := by
  obtain ⟨s, conn, hs, h⟩ := both_held
  obtain ⟨t, conn', hnext, hnew, hmarks, hqueue, hpast, hothers⟩ :=
    turn_gives sampleKernel h.first h.found h.opened
      (by simp [firstTask, included_everybody]) (by rw [h.queue]; decide)
  have hsecond := (hothers 1 (by decide)).trans h.second
  rw [h.queue] at hqueue
  simp only [marks, Prod.mk.injEq, h.appended] at hmarks
  obtain ⟨u, conn'', hnext', hnew', hmarks', -⟩ :=
    turn_gives sampleKernel hsecond hnew (hmarks.2.1.trans h.opened)
      (by simp [secondTask, included_everybody])
      ((Nat.add_le_add_right hqueue 1).trans (by decide))
  simp only [marks, Prod.mk.injEq, hmarks.2.2] at hmarks'
  have hfirst : NotOvertaking s (.turn 0) := by
    refine Fin.forall_fin_two.mpr ⟨?_, ?_⟩
    · rw [h.first]
      decide
    · rw [h.first, h.second]
      decide
  have hturn : NotOvertaking t (.turn 1) := by
    refine Fin.forall_fin_two.mpr ⟨?_, ?_⟩
    · rw [hsecond, hpast]
      decide
    · rw [hsecond]
      decide
  have ht : Reachable (machine sampleKernel 2) NotOvertaking t := hs.step hfirst hnext
  have hu : Reachable (machine sampleKernel 2) NotOvertaking u := ht.step hturn hnext'
  exact ⟨u, conn'', hu, hnew', hmarks'.2.2, broadcast_order sampleKernel u hu 0 conn'' hnew'⟩

/-- The task of the second flush comes to the connection first. -/
theorem broadcasts_swapped :
    ∃ (s : Server 2) (conn : Connection), Reachable (machine sampleKernel 2) AnyStep s ∧
      s.conns 0 = some conn ∧ conn.appended = [⟨[2], some 1⟩, ⟨[1], some 0⟩] ∧
      ¬ (conn.appended.filterMap SharedPayload.origin).Pairwise (· < ·) := by
  obtain ⟨s, conn, hs, h⟩ := both_held
  obtain ⟨t, conn', hnext, hnew, hmarks, hqueue, -, hothers⟩ :=
    turn_gives sampleKernel h.second h.found h.opened
      (by simp [secondTask, included_everybody]) (by rw [h.queue]; decide)
  rw [h.queue] at hqueue
  simp only [marks, Prod.mk.injEq, h.appended] at hmarks
  obtain ⟨u, conn'', hnext', hnew', hmarks', -⟩ :=
    turn_gives sampleKernel ((hothers 0 (by decide)).trans h.first) hnew
      (hmarks.2.1.trans h.opened) (by simp [firstTask, included_everybody])
      ((Nat.add_le_add_right hqueue 1).trans (by decide))
  simp only [marks, Prod.mk.injEq, hmarks.2.2] at hmarks'
  have hlog : conn''.appended = [⟨[2], some 1⟩, ⟨[1], some 0⟩] := hmarks'.2.2
  have hany : Reachable (machine sampleKernel 2) AnyStep s := hs.mono fun _ _ _ => trivial
  have ht : Reachable (machine sampleKernel 2) AnyStep t := .step (a := .turn 1) hany trivial hnext
  have hu : Reachable (machine sampleKernel 2) AnyStep u := .step (a := .turn 0) ht trivial hnext'
  refine ⟨u, conn'', hu, hnew', hlog, ?_⟩
  rw [hlog]
  decide

end Samples

end ChatServer.BroadcastOrder
