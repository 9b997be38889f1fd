import Mathlib.Algebra.BigOperators.Group.Finset.Piecewise
import Mathlib.Algebra.Order.Group.Multiset
import Mathlib.Tactic.Abel
import ChatServer.ThreadPool

/-!
The tasks that are left when the thread pool is shut down. The exit test after
the wait is passed over as long as there are tasks, so it lets a stopped worker
take what is queued. But a worker that has executed a task is back at the test
of the loop, which looks at the flag alone. Every pushed task is queued, in the
hands of a worker or executed, so at the end exactly the queued ones are lost.
-/
namespace ChatServer.PoolDrain

open ThreadPool Lib.Runs

/-- The task that a worker has taken and not executed yet. -/
def inHand {τ : Type*} : Stage τ → Multiset τ
  | .executing task => {task}
  | _ => 0

/-- A call of push_task or push_batch has the mutex. -/
def byPusher {n : ℕ} {τ : Type*} : Option (Holder n τ) → Bool
  | some (.pusher _) => true
  | _ => false

/-- The tasks of a call that has the mutex. -/
def pending {n : ℕ} {τ : Type*} : Option (Holder n τ) → List τ
  | some (.pusher push) => push.tasks
  | _ => []

/-- The tasks of all calls of push_task and push_batch. -/
def pushed {τ : Type*} (pushes : List (Push τ)) : List τ :=
  pushes.flatMap Push.tasks

/-- A pool together with the tasks executed so far. -/
structure Log (n : ℕ) (τ : Type*) where
  pool : Pool n τ
  executed : List τ

/-- The task that a step of the pool executes. -/
def executes {n : ℕ} {τ : Type*} (s : Pool n τ) : Action n → List τ
  | .work w =>
      match s.workers w with
      | .executing task => [task]
      | _ => []
  | _ => []

def Log.next {n : ℕ} {τ : Type*} (s : Log n τ) (a : Action n) : Option (Log n τ) :=
  (s.pool.next a).map fun pool => ⟨pool, s.executed ++ executes s.pool a⟩

theorem Log.next_eq {n : ℕ} {τ : Type*} {s t : Log n τ} {a : Action n} (h : s.next a = some t) :
    s.pool.next a = some t.pool ∧ t.executed = s.executed ++ executes s.pool a := by
  obtain ⟨pool, hpool, rfl⟩ := Option.map_eq_some_iff.mp h
  exact ⟨hpool, rfl⟩

/-- A pool of `n` workers to which these tasks are pushed. -/
def logged {τ : Type*} (n : ℕ) (pushes : List (Push τ)) : Machine (Log n τ) (Action n) :=
  ⟨⟨Pool.init n pushes, []⟩, Log.next⟩

/-- shutdown is called when all calls of push_task and push_batch have returned. -/
def AfterPushes {n : ℕ} {τ : Type*} (s : Pool n τ) : Action n → Prop
  | .store => s.incoming = [] ∧ byPusher s.queueMtx = false ∧ s.notifyOnes = 0 ∧ s.notifyAlls = 0
  | _ => True

/-- A worker that finds the flag false at the test of the loop leaves no task
to nobody: the queue is empty or another worker is still there. -/
def LastDrains {n : ℕ} {τ : Type*} (s : Pool n τ) : Action n → Prop
  | .work w => s.workers w = .testing → s.running = false →
      s.taskQueue = [] ∨ ∃ v, v ≠ w ∧ s.workers v ≠ .exited
  | _ => True

instance {n : ℕ} {τ : Type*} [DecidableEq τ] (s : Pool n τ) : ∀ a, Decidable (AfterPushes s a)
  | .store => inferInstanceAs (Decidable (s.incoming = [] ∧ byPusher s.queueMtx = false ∧
      s.notifyOnes = 0 ∧ s.notifyAlls = 0))
  | .work _ | .spurious _ | .push | .emplace | .notifyOne _ | .notifyAll | .wakeAll | .join =>
      isTrue trivial

instance {n : ℕ} {τ : Type*} [DecidableEq τ] (s : Pool n τ) : ∀ a, Decidable (LastDrains s a)
  | .work w => inferInstanceAs (Decidable (s.workers w = .testing → s.running = false →
      s.taskQueue = [] ∨ ∃ v, v ≠ w ∧ s.workers v ≠ .exited))
  | .store | .spurious _ | .push | .emplace | .notifyOne _ | .notifyAll | .wakeAll | .join =>
      isTrue trivial

section Account

variable {n : ℕ} {τ : Type*} {s t : Pool n τ} {w : Fin n}

/-- The tasks that are not executed yet, wherever they are. -/
def account (s : Pool n τ) : Multiset τ :=
  ∑ w, inHand (s.workers w) + s.taskQueue + pending s.queueMtx + pushed s.incoming

theorem sum_inHand_setWorker (s : Pool n τ) (w : Fin n) (stage : Stage τ) :
    ∑ v, inHand ((s.setWorker w stage).workers v) + inHand (s.workers w) =
      ∑ v, inHand (s.workers v) + inHand stage := by
  have hupdate : (fun v => inHand ((s.setWorker w stage).workers v)) =
      Function.update (fun v => inHand (s.workers v)) w (inHand stage) := by
    funext v
    by_cases hv : v = w
    · subst hv
      rw [Pool.setWorker_self, Function.update_self]
    · rw [Pool.setWorker_of_ne s hv, Function.update_of_ne hv]
  have hsplit := Finset.sum_erase_add Finset.univ (fun v => inHand (s.workers v))
    (Finset.mem_univ w)
  rw [hupdate, Finset.sum_update_of_mem (Finset.mem_univ w), Finset.sdiff_singleton_eq_erase,
    ← hsplit]
  abel

/-- Only the stage of one worker changes, and it has no task before and after. -/
theorem sum_inHand_idle (s : Pool n τ) {stage : Stage τ} (hbefore : inHand (s.workers w) = 0)
    (hafter : inHand stage = 0) :
    ∑ v, inHand ((s.setWorker w stage).workers v) = ∑ v, inHand (s.workers v) := by
  have hsum := sum_inHand_setWorker s w stage
  rwa [hbefore, hafter, add_zero, add_zero] at hsum

theorem inHand_wakeWorkers (s : Pool n τ) (v : Fin n) :
    inHand (s.wakeWorkers.workers v) = inHand (s.workers v) := by
  simp only [Pool.wakeWorkers]
  split
  · rename_i hasleep
    rw [hasleep]
    rfl
  · rfl

theorem pending_of_holds (h : Sound s) (hholds : (s.workers w).holds = true) :
    pending s.queueMtx = [] := by
  rw [(h.held w).mp hholds]
  rfl

theorem account_works (h : Sound s) (hworks : s.Works w t) :
    (executes s (.work w) : Multiset τ) + account t = account s := by
  have hidle : ∀ {stage : Stage τ} {mtx : Option (Holder n τ)}, inHand (s.workers w) = 0 →
      inHand stage = 0 → executes s (.work w) = [] → pending mtx = pending s.queueMtx →
      (executes s (.work w) : Multiset τ) +
        account ({ s with queueMtx := mtx }.setWorker w stage) = account s := by
    intro stage mtx hbefore hafter hnone hmtx
    have hsum := sum_inHand_idle s hbefore hafter
    simp only [account, Pool.setWorker, hnone, hmtx] at hsum ⊢
    rw [hsum, Multiset.coe_nil, zero_add]
  cases hworks with
  | stop hstage hstopped => exact hidle (by rw [hstage]; rfl) rfl (by simp [executes, hstage]) rfl
  | loop hstage hrunning => exact hidle (by rw [hstage]; rfl) rfl (by simp [executes, hstage]) rfl
  | acquire hstage hfree =>
    rcases hstage with hstage | hstage
    · exact hidle (by rw [hstage]; rfl) rfl (by simp [executes, hstage]) (by rw [hfree]; rfl)
    · exact hidle (by rw [hstage]; rfl) rfl (by simp [executes, hstage]) (by rw [hfree]; rfl)
  | pass hstage hpred => exact hidle (by rw [hstage]; rfl) rfl (by simp [executes, hstage]) rfl
  | block hstage hrunning => exact hidle (by rw [hstage]; rfl) rfl (by simp [executes, hstage]) rfl
  | sleep hstage =>
    have hmtx := pending_of_holds h (w := w) (by rw [hstage]; rfl)
    exact hidle (by rw [hstage]; rfl) rfl (by simp [executes, hstage]) (by rw [hmtx]; rfl)
  | finish hstage hstopped =>
    have hmtx := pending_of_holds h (w := w) (by rw [hstage]; rfl)
    exact hidle (by rw [hstage]; rfl) rfl (by simp [executes, hstage]) (by rw [hmtx]; rfl)
  | @take task rest hstage hqueue =>
    have hmtx := pending_of_holds h (w := w) (by rw [hstage]; rfl)
    have hsum := sum_inHand_setWorker s w (.executing task)
    have hnone : executes s (.work w) = [] := by simp [executes, hstage]
    have hbefore : inHand (s.workers w) = 0 := by rw [hstage]; rfl
    have hafter : inHand (.executing task) = {task} := rfl
    have hfree : pending (none : Option (Holder n τ)) = [] := rfl
    have htask : ((task :: rest : List τ) : Multiset τ) = {task} + rest := by
      rw [← Multiset.cons_coe, Multiset.singleton_add]
    rw [hbefore, hafter, add_zero] at hsum
    simp only [account, Pool.setWorker, hnone, hqueue, hmtx, hfree] at hsum ⊢
    rw [hsum, htask, Multiset.coe_nil]
    abel
  | @execute task hstage =>
    have hsum := sum_inHand_setWorker s w .testing
    have hone : executes s (.work w) = [task] := by simp [executes, hstage]
    have hbefore : inHand (s.workers w) = {task} := by rw [hstage]; rfl
    have hafter : inHand (.testing : Stage τ) = 0 := rfl
    rw [hbefore, hafter, add_zero] at hsum
    simp only [account, Pool.setWorker, hone, Multiset.coe_singleton] at hsum ⊢
    rw [← hsum]
    abel

/-- A step executes what it takes off the account. -/
theorem account_step {a : Action n} (h : Sound s) (hnext : s.next a = some t) :
    (executes s a : Multiset τ) + account t = account s := by
  cases Pool.next_steps hnext with
  | work hworks => exact account_works h hworks
  | spurious hstage =>
    have hafter : inHand (.woken : Stage τ) = 0 := rfl
    have hsum := sum_inHand_idle s (by rw [hstage]; rfl) hafter
    simp only [account, executes, Pool.setWorker] at hsum ⊢
    rw [hsum, Multiset.coe_nil, zero_add]
  | push hincoming hfree =>
    simp only [account, executes, pending, pushed, hincoming, hfree, List.flatMap_cons,
      ← Multiset.coe_add, Multiset.coe_nil]
    abel
  | emplace hheld hcount =>
    simp only [account, executes, pending, hheld, ← Multiset.coe_add, Multiset.coe_nil]
    abel
  | notifyOne hpending hstage =>
    have hafter : inHand (.woken : Stage τ) = 0 := rfl
    have hsum := sum_inHand_idle { s with notifyOnes := s.notifyOnes - 1 }
      (by rw [hstage]; rfl) hafter
    simp only [account, executes, Pool.setWorker] at hsum ⊢
    rw [hsum, Multiset.coe_nil, zero_add]
  | notifyNobody hpending => simp [account, executes]
  | notifyAll hpending =>
    simp only [account, executes, inHand_wakeWorkers, Multiset.coe_nil, zero_add]
    rfl
  | store hrunning => simp [account, executes]
  | wakeAll hstored =>
    simp only [account, executes, inHand_wakeWorkers, Multiset.coe_nil, zero_add]
    rfl
  | join hjoining hk hexited => simp [account, executes]

/-- No task is lost or executed twice on the way: in every run the executed
tasks and those on the account are the pushed ones. -/
theorem executed_add_account {pushes : List (Push τ)} {allowed : Log n τ → Action n → Prop}
    {s : Log n τ} (hs : Reachable (logged n pushes) allowed s) :
    Sound s.pool ∧ (s.executed : Multiset τ) + account s.pool = pushed pushes := by
  refine hs.invariant (P := fun s : Log n τ => Sound s.pool ∧
    (s.executed : Multiset τ) + account s.pool = pushed pushes) ?_ ?_
  · refine ⟨.init pushes, ?_⟩
    simp [logged, account, Pool.init, inHand, pending]
  · rintro s a t ⟨hsound, hsum⟩ _ hnext
    obtain ⟨hpool, hexecuted⟩ := Log.next_eq hnext
    refine ⟨hsound.step hpool, ?_⟩
    rw [← hsum, ← account_step hsound hpool, hexecuted, ← Multiset.coe_add]
    abel

end Account

section Leaving

variable {n : ℕ} {τ : Type*} {s t : Pool n τ} {w v : Fin n}

/-- After the wait a worker leaves only when nothing is queued. -/
theorem taskQueue_of_leaving (h : s.work w = some t) (hstage : s.workers w = .leaving)
    (hexited : t.workers w = .exited) : s.taskQueue = [] := by
  simp only [Pool.work, hstage] at h
  split at h
  · rename_i hdone
    simpa using (Bool.and_eq_true_iff.mp hdone).2
  · split at h
    · cases h
    · cases h
      rw [Pool.setWorker_self] at hexited
      cases hexited

/-- A worker leaves a stopped pool at the test of the loop or after the wait. -/
theorem exits_cases (h : s.work w = some t) (hexited : t.workers w = .exited) :
    s.running = false ∧ (s.workers w = .testing ∨ s.taskQueue = []) := by
  have hqueue := taskQueue_of_leaving h
  cases Pool.work_works h with
  | stop hstage hstopped => exact ⟨hstopped, Or.inl hstage⟩
  | finish hstage hstopped => exact ⟨hstopped, Or.inr (hqueue hstage hexited)⟩
  | _ =>
    rw [Pool.setWorker_self] at hexited
    cases hexited

theorem workers_of_ne (hworks : s.Works w t) (hv : v ≠ w) : t.workers v = s.workers v := by
  cases hworks <;> exact Pool.setWorker_of_ne _ hv _

theorem wakeWorkers_exited (s : Pool n τ) (v : Fin n) :
    s.wakeWorkers.workers v = .exited ↔ s.workers v = .exited := by
  simp only [Pool.wakeWorkers]
  split
  · rename_i hasleep
    rw [hasleep]
    constructor
    · intro hwoken
      cases hwoken
    · intro hexited
      cases hexited
  · exact Iff.rfl

/-- Only a worker's own step makes it leave, and nothing brings it back. -/
theorem exited_step {a : Action n} (hnext : s.next a = some t) (v : Fin n) :
    t.workers v = .exited ↔ s.workers v = .exited ∨ (a = .work v ∧ t.workers v = .exited) := by
  have hkeep : ∀ {stage : Stage τ} {w : Fin n} (p : Pool n τ), p.workers = s.workers →
      s.workers w = .asleep → stage ≠ .exited →
      ((p.setWorker w stage).workers v = .exited ↔ s.workers v = .exited) := by
    intro stage w p hp hasleep hstage
    by_cases hv : v = w
    · subst hv
      rw [Pool.setWorker_self, hasleep]
      exact iff_of_false hstage nofun
    · rw [Pool.setWorker_of_ne _ hv, hp]
  have hsame : (t.workers v = .exited ↔ s.workers v = .exited) → a ≠ .work v →
      (t.workers v = .exited ↔ s.workers v = .exited ∨ (a = .work v ∧ t.workers v = .exited)) := by
    intro hiff ha
    simp [hiff, ha]
  cases Pool.next_steps hnext with
  | @work w _ hworks =>
    by_cases hv : v = w
    · subst hv
      have hnot : s.workers v ≠ .exited := by
        intro hout
        cases hworks <;> simp_all
      simp [hnot]
    · refine hsame (by rw [workers_of_ne hworks hv]) ?_
      intro heq
      cases heq
      exact hv rfl
  | spurious hstage => exact hsame (hkeep s rfl hstage nofun) nofun
  | push hincoming hfree => exact hsame Iff.rfl nofun
  | emplace hheld hcount => exact hsame Iff.rfl nofun
  | notifyOne hpending hstage => exact hsame (hkeep _ rfl hstage nofun) nofun
  | notifyNobody hpending => exact hsame Iff.rfl nofun
  | notifyAll hpending => exact hsame (wakeWorkers_exited _ v) nofun
  | store hrunning => exact hsame Iff.rfl nofun
  | wakeAll hstored => exact hsame (wakeWorkers_exited _ v) nofun
  | join hjoining hk hexited => exact hsame Iff.rfl nofun

end Leaving

/-- What shutdown finds when it is called after the pushes. -/
structure Quiet {n : ℕ} {τ : Type*} (s : Pool n τ) : Prop where
  /-- As long as the pool runs no worker leaves. -/
  present : s.running = true → ∀ w, s.workers w ≠ .exited
  returned : s.running = false → s.incoming = [] ∧ byPusher s.queueMtx = false
  joined : ∀ k, s.shutdown = .joining k → ∀ w : Fin n, w.val < k → s.workers w = .exited

namespace Quiet

variable {n : ℕ} {τ : Type*} {pushes : List (Push τ)} {s t : Pool n τ}

theorem init (pushes : List (Push τ)) : Quiet (Pool.init n pushes) := by
  refine ⟨fun _ w => nofun, nofun, ?_⟩
  intro k hk
  cases hk

/-- In a pool that is being shut down nobody gets the mutex to push. -/
theorem byPusher_works {w : Fin n} (h : byPusher s.queueMtx = false) (hworks : s.Works w t) :
    byPusher t.queueMtx = false := by
  cases hworks <;> first | exact h | rfl

theorem step {a : Action n} (h : Quiet s)
    (hstore : a = .store → s.incoming = [] ∧ byPusher s.queueMtx = false)
    (hnext : s.next a = some t) : Quiet t := by
  have hexited := exited_step hnext
  have hjoined : (∀ k, t.shutdown = .joining k → s.shutdown = .joining k ∨ k = 0) →
      ∀ k, t.shutdown = .joining k → ∀ w : Fin n, w.val < k → t.workers w = .exited := by
    intro hsame k hk w hw
    rcases hsame k hk with hbefore | rfl
    · exact (hexited w).mpr (Or.inl (h.joined k hbefore w hw))
    · omega
  have hpresent : t.running = s.running → (∀ w, a ≠ .work w) →
      t.running = true → ∀ w, t.workers w ≠ .exited := by
    intro hrunning ha hstill w hout
    rcases (hexited w).mp hout with hbefore | ⟨heq, -⟩
    · exact h.present (hrunning ▸ hstill) w hbefore
    · exact ha w heq
  cases Pool.next_steps hnext with
  | @work w _ hworks =>
    have hrunning : t.running = s.running := by cases hworks <;> rfl
    have hincoming : t.incoming = s.incoming := by cases hworks <;> rfl
    refine ⟨?_, ?_, hjoined fun k hk => Or.inl (by rwa [← hworks.shutdown_eq])⟩
    · intro hstill v hout
      rcases (hexited v).mp hout with hbefore | ⟨heq, -⟩
      · exact h.present (hrunning ▸ hstill) v hbefore
      · cases heq
        rw [hrunning, (exits_cases hnext hout).1] at hstill
        cases hstill
    · intro hstopped
      obtain ⟨hnone, hmtx⟩ := h.returned (hrunning ▸ hstopped)
      exact ⟨hincoming.trans hnone, byPusher_works hmtx hworks⟩
  | spurious hstage =>
    exact ⟨hpresent rfl nofun, h.returned, hjoined fun k hk => Or.inl hk⟩
  | push hincoming hfree =>
    refine ⟨hpresent rfl nofun, ?_, hjoined fun k hk => Or.inl hk⟩
    intro hstopped
    have hnone := (h.returned hstopped).1
    rw [hincoming] at hnone
    cases hnone
  | emplace hheld hcount =>
    exact ⟨hpresent rfl nofun, fun hstopped => ⟨(h.returned hstopped).1, rfl⟩,
      hjoined fun k hk => Or.inl hk⟩
  | notifyOne hpending hstage =>
    exact ⟨hpresent rfl nofun, h.returned, hjoined fun k hk => Or.inl hk⟩
  | notifyNobody hpending =>
    exact ⟨hpresent rfl nofun, h.returned, hjoined fun k hk => Or.inl hk⟩
  | notifyAll hpending =>
    exact ⟨hpresent rfl nofun, h.returned, hjoined fun k hk => Or.inl hk⟩
  | store hrunning =>
    refine ⟨nofun, fun _ => hstore rfl, ?_⟩
    intro k hk
    cases hk
  | wakeAll hstored =>
    refine ⟨hpresent rfl nofun, h.returned, hjoined ?_⟩
    intro k hk
    cases hk
    exact Or.inr rfl
  | @join k hjoining hk hout =>
    refine ⟨hpresent rfl nofun, h.returned, ?_⟩
    intro k' hk' w hw
    cases hk'
    by_cases hlast : w.val = k
    · have hw : w = ⟨k, hk⟩ := Fin.ext hlast
      rw [hw]
      exact hout
    · exact h.joined k hjoining w (by omega)

end Quiet

section Drained

variable {n : ℕ} {τ : Type*}

/-- Somebody is left to take the tasks that are queued. -/
def Attended (s : Pool n τ) : Prop :=
  s.taskQueue = [] ∨ ∃ w, s.workers w ≠ .exited

/-- A worker leaves, but not as the last one with tasks in the queue. -/
theorem Attended.leave {s t : Pool n τ} {w : Fin n} (hdrains : LastDrains s (.work w))
    (hnext : s.work w = some t) (hout : t.workers w = .exited) : Attended t := by
  have hworks := Pool.work_works hnext
  have hqueue : t.taskQueue = s.taskQueue := by
    cases hworks with
    | take hstage hqueue =>
      rw [Pool.setWorker_self] at hout
      cases hout
    | _ => rfl
  unfold Attended
  rw [hqueue]
  obtain ⟨hstopped, htesting | hempty⟩ := exits_cases hnext hout
  · refine (hdrains htesting hstopped).imp_right ?_
    intro ⟨v, hv, hthere⟩
    refine ⟨v, ?_⟩
    rwa [workers_of_ne hworks hv]
  · exact Or.inl hempty

/-- When nobody is left the pool is stopped, so nothing is queued any more. -/
theorem Attended.deserted {s t : Pool n τ} {a : Action n} (hn : 0 < n) (hquiet : Quiet s)
    (hempty : s.taskQueue = []) (hgone : ∀ w, s.workers w = .exited) (hnext : s.next a = some t) :
    Attended t := by
  have hstopped : s.running = false := by
    by_contra hrunning
    exact hquiet.present (by simpa using hrunning) ⟨0, hn⟩ (hgone _)
  left
  cases Pool.next_steps hnext with
  | work hworks =>
    cases hworks with
    | take hstage hqueue =>
      rw [hempty] at hqueue
      cases hqueue
    | _ => exact hempty
  | emplace hheld hcount =>
    have hmtx := (hquiet.returned hstopped).2
    rw [hheld] at hmtx
    cases hmtx
  | _ => exact hempty

theorem Attended.step {s t : Pool n τ} {a : Action n} (hn : 0 < n) (hquiet : Quiet s)
    (h : Attended s) (hdrains : LastDrains s a) (hnext : s.next a = some t) : Attended t := by
  by_cases hleaves : ∃ w, a = .work w ∧ t.workers w = .exited
  · obtain ⟨w, rfl, hout⟩ := hleaves
    exact .leave hdrains hnext hout
  · by_cases hthere : ∃ w, s.workers w ≠ .exited
    · obtain ⟨w, hw⟩ := hthere
      refine Or.inr ⟨w, fun hout => ?_⟩
      exact hleaves ⟨w, ((exited_step hnext w).mp hout).resolve_left hw⟩
    · refine .deserted hn hquiet (h.resolve_right hthere) ?_ hnext
      intro w
      by_contra hw
      exact hthere ⟨w, hw⟩

variable {pushes : List (Push τ)} {allowed : Log n τ → Action n → Prop} {s : Log n τ}

theorem quiet_reachable (hallowed : ∀ s a, allowed s a → AfterPushes s.pool a)
    (hs : Reachable (logged n pushes) allowed s) : Quiet s.pool := by
  refine hs.invariant (P := fun s => Quiet s.pool) (.init pushes) ?_
  intro s a t h ha hnext
  have hafter := hallowed s a ha
  refine h.step ?_ (Log.next_eq hnext).1
  intro hstore
  subst hstore
  exact ⟨hafter.1, hafter.2.1⟩

theorem attended_reachable (hn : 0 < n) (hs : Reachable (logged n pushes)
    (fun s a => AfterPushes s.pool a ∧ LastDrains s.pool a) s) : Attended s.pool := by
  refine hs.invariant_of_reachable (P := fun s => Attended s.pool) (Or.inl rfl) ?_
  intro s a t hreach h ⟨_, hdrains⟩ hnext
  exact h.step hn (quiet_reachable (fun _ _ ha => ha.1) hreach) hdrains (Log.next_eq hnext).1

/-- When shutdown returns, the tasks that were not executed are those still queued. -/
theorem executed_add_queued (hallowed : ∀ s a, allowed s a → AfterPushes s.pool a)
    (hs : Reachable (logged n pushes) allowed s) (hjoined : s.pool.shutdown = .joining n) :
    (s.executed ++ s.pool.taskQueue).Perm (pushed pushes) := by
  obtain ⟨hsound, hsum⟩ := executed_add_account hs
  have hquiet := quiet_reachable hallowed hs
  have hstopped : s.pool.running = false := hsound.stopped.mpr (by rw [hjoined]; nofun)
  obtain ⟨hnone, hmtx⟩ := hquiet.returned hstopped
  have hinHand : ∀ w, inHand (s.pool.workers w) = 0 := by
    intro w
    rw [hquiet.joined n hjoined w w.isLt]
    rfl
  have hpending : pending s.pool.queueMtx = [] := by
    unfold pending
    split
    · rename_i push hheld
      rw [hheld] at hmtx
      cases hmtx
    · rfl
  apply Multiset.coe_eq_coe.mp
  rw [← hsum]
  simp [account, hinHand, hpending, hnone, pushed]

/-- If no worker leaves at the test of the loop as the last one while tasks are
queued, shutdown returns when every pushed task has been executed once. -/
theorem shutdown_drains {τ : Type*} (n : ℕ) (pushes : List (Push τ))
    (hworkers : n = 0 → pushed pushes = []) (s : Log n τ)
    (hs : Reachable (logged n pushes) (fun s a => AfterPushes s.pool a ∧ LastDrains s.pool a) s)
    (hjoined : s.pool.shutdown = .joining n) : s.executed.Perm (pushed pushes) := by
  have hall := executed_add_queued (fun _ _ ha => ha.1) hs hjoined
  have hempty : s.pool.taskQueue = [] := by
    by_cases hn : 0 < n
    · refine (attended_reachable hn hs).resolve_right ?_
      intro ⟨w, hw⟩
      exact hw ((quiet_reachable (fun _ _ ha => ha.1) hs).joined n hjoined w w.isLt)
    · rw [hworkers (by omega)] at hall
      exact (List.append_eq_nil_iff.mp (List.perm_nil.mp hall)).2
  rwa [hempty, List.append_nil] at hall

end Drained

section Samples

/-- Two workers are given two tasks; the second leaves at the test of the loop
when the first one is still there to take the other task. -/
theorem shutdown_drains_sample :
    ∃ s : Log 2 String, s.pool.shutdown = .joining 2 ∧ s.executed.Perm ["first", "second"] := by
  have hrun : (run (logged 2 [.batch ["first", "second"]])
      (fun s a => AfterPushes s.pool a ∧ LastDrains s.pool a)
      (logged 2 [.batch ["first", "second"]]).init
      [.push, .emplace, .notifyAll, .work 0, .work 0, .work 0, .work 0, .work 1, .store, .wakeAll,
        .work 1, .work 1, .work 1, .work 0, .work 0, .work 1, .work 1, .join, .join]).any
      (fun s => s.pool.shutdown = .joining 2) := by
    decide +kernel
  obtain ⟨s, hs, hjoined⟩ := exists_reachable hrun
  exact ⟨s, hjoined, shutdown_drains 2 [.batch ["first", "second"]] nofun s hs hjoined⟩

/-- shutdown is called while the only worker executes a task. It leaves at the
test of the loop, and the other task is never executed. -/
theorem task_abandoned :
    ∃ s : Log 1 String,
      Reachable (logged 1 [.batch ["first", "second"]]) (fun s a => AfterPushes s.pool a) s ∧
      s.pool.shutdown = .joining 1 ∧ s.pool.taskQueue = ["second"] ∧
      ¬ s.executed.Perm (pushed [.batch ["first", "second"]]) := by
  have hrun : (run (logged 1 [.batch ["first", "second"]]) (fun s a => AfterPushes s.pool a)
      (logged 1 [.batch ["first", "second"]]).init
      [.push, .emplace, .notifyAll, .work 0, .work 0, .work 0, .work 0, .store, .wakeAll,
        .work 0, .work 0, .join]).any
      (fun s => s.pool.shutdown = .joining 1 ∧ s.pool.taskQueue = ["second"] ∧
        s.executed = ["first"]) := by
    decide +kernel
  obtain ⟨s, hs, hjoined, hqueue, hexecuted⟩ := exists_reachable hrun
  refine ⟨s, hs, hjoined, hqueue, ?_⟩
  rw [hexecuted]
  exact fun hperm => absurd hperm.length_eq (by decide)

end Samples

end ChatServer.PoolDrain
