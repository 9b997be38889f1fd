import ChatServer.BroadcastFlow
import Mathlib.Data.List.Nodup

/-!
Delivery of the broadcasts. The batches are cut from one sequence of Broadcast
calls and their tasks are taken in FIFO order, so no two tasks of one shard
have a broadcast in common, and a connection is given none of them twice. At
its turn an open connection gets all that its descriptor and its queue allow.
-/
namespace ChatServer.BroadcastDelivery

open Broadcast BroadcastFlow ShardTask Lib.WorkQueue Lib.Runs

variable {n : ℕ} {f g : Flow n} {a : Action n}

section Order

/-- The Broadcast calls of `b` all come before those of `c`. -/
def BatchBefore (b c : Batch) : Prop :=
  b.number < c.number ∧ ∀ x ∈ origins b, ∀ y ∈ origins c, x < y

def Before (t u : Task) : Prop :=
  BatchBefore t.batch u.batch ∨ t.batch = u.batch ∧ t.shard < u.shard

/-- The broadcasts are numbered in order and below `k`. -/
def Intact (k : ℕ) (b : Batch) : Prop :=
  (origins b).Pairwise (· < ·) ∧ ∀ x ∈ origins b, x < k

structure Ordered (f : Flow n) : Prop where
  pool : f.pool.Ordered Before
  earlier : ∀ t, f.pool.Has t → BatchBefore t.batch f.last
  intact : ∀ t, f.pool.Has t → Intact f.broadcasts t.batch
  last : Intact f.broadcasts f.last

theorem Before.batch {t u : Task} (h : Before t u) (hshard : u.shard = t.shard) :
    BatchBefore t.batch u.batch := by
  rcases h with h | ⟨_, h⟩
  · exact h
  · omega

theorem tasks_before (b : Batch) : b.tasks.Pairwise Before := by
  refine List.pairwise_map.mpr (List.pairwise_lt_range.imp ?_)
  intro i j hij
  exact .inr ⟨rfl, hij⟩

theorem batch_of_mem_tasks {b : Batch} {t : Task} (h : t ∈ b.tasks) : t.batch = b := by
  obtain ⟨i, _, rfl⟩ := List.mem_map.mp h
  rfl

theorem origins_push (f : Flow n) (data : Bytes) (excludeFd : ℤ) :
    origins (f.push data excludeFd).last = origins f.last ++ [f.broadcasts] := by
  simp [origins, Flow.push]

theorem workers_setWorker {w v : Fin n} {running : Option Running} {r : Running}
    (h : (f.setWorker w running).workers v = some r) :
    (v = w ∧ running = some r) ∨ (v ≠ w ∧ f.workers v = some r) := by
  change Function.update f.workers w running v = some r at h
  rw [Function.update_apply] at h
  split at h
  · rename_i heq
    exact .inl ⟨heq, h⟩
  · rename_i hne
    exact .inr ⟨hne, h⟩

theorem pool_setWorker (f : Flow n) (w : Fin n) (running : Option Running) :
    (f.setWorker w running).pool =
      ⟨f.line, Function.update f.pool.held w (running.map Running.task)⟩ := by
  have hheld : (f.setWorker w running).pool.held =
      Function.update f.pool.held w (running.map Running.task) := by
    funext v
    change Option.map Running.task (Function.update f.workers w running v) = _
    rw [Function.update_apply, Function.update_apply]
    split <;> rfl
  rw [← hheld]
  rfl

/-- A worker that goes on with its task leaves the pool as it is. -/
theorem pool_setWorker_same {w : Fin n} {task : Task} {todo todo' : Option (List ConnId)}
    (h : f.workers w = some ⟨task, todo⟩) : (f.setWorker w (some ⟨task, todo'⟩)).pool = f.pool := by
  have hheld : f.pool.held w = some task := congrArg (Option.map Running.task) h
  rw [pool_setWorker, Option.map_some, ← hheld, Function.update_eq_self]
  rfl

theorem pool_pop (w : Fin n) (task : Task) (rest : List Task) :
    ({ f with line := rest }.setWorker w (some ⟨task, none⟩)).pool = f.pool.take w task rest :=
  pool_setWorker _ _ _

theorem pool_finish (w : Fin n) : (f.setWorker w none).pool = f.pool.release w :=
  pool_setWorker _ _ _

namespace Ordered

theorem init (kernel : ConnId → Kernel) : Ordered (flow (machine kernel n).init) := by
  have hnone : ∀ t, ¬ (flow (machine kernel n).init).pool.Has t := by
    intro t ht
    rcases ht with ht | ⟨w, hw⟩
    · cases ht
    · cases hw
  refine ⟨⟨.nil, nofun, nofun⟩, ?_, ?_, ⟨.nil, nofun⟩⟩
  · exact fun t ht => absurd ht (hnone t)
  · exact fun t ht => absurd ht (hnone t)

/-- No task is added, and no broadcast. -/
theorem shrink (h : Ordered f) (hpool : g.pool.Ordered Before)
    (hhas : ∀ t, g.pool.Has t → f.pool.Has t) (hlast : g.last = f.last)
    (hbroadcasts : g.broadcasts = f.broadcasts) : Ordered g where
  pool := hpool
  earlier t ht := hlast ▸ h.earlier t (hhas t ht)
  intact t ht := hbroadcasts ▸ h.intact t (hhas t ht)
  last := by
    rw [hlast, hbroadcasts]
    exact h.last

theorem same (h : Ordered f) (hpool : g.pool = f.pool) (hlast : g.last = f.last)
    (hbroadcasts : g.broadcasts = f.broadcasts) : Ordered g :=
  h.shrink (hpool ▸ h.pool) (fun _ ht => hpool ▸ ht) hlast hbroadcasts

theorem push (h : Ordered f) (data : Bytes) (excludeFd : ℤ) : Ordered (f.push data excludeFd) := by
  have hgrow : ∀ b, Intact f.broadcasts b → Intact (f.broadcasts + 1) b :=
    fun b hb => ⟨hb.1, fun x hx => Nat.lt_succ_of_lt (hb.2 x hx)⟩
  refine ⟨h.pool, ?_, fun t ht => hgrow _ (h.intact t ht), ?_⟩
  · intro t ht
    refine ⟨(h.earlier t ht).1, ?_⟩
    intro x hx y hy
    rw [origins_push, List.mem_append, List.mem_singleton] at hy
    rcases hy with hy | rfl
    · exact (h.earlier t ht).2 x hx y hy
    · exact (h.intact t ht).2 x hx
  · unfold Intact
    rw [origins_push]
    constructor
    · refine List.pairwise_append.mpr ⟨h.last.1, List.pairwise_singleton _ _, ?_⟩
      intro x hx y hy
      exact List.mem_singleton.mp hy ▸ h.last.2 x hx
    · intro x hx
      rcases List.mem_append.mp hx with hx | hx
      · exact Nat.lt_succ_of_lt (h.last.2 x hx)
      · exact List.mem_singleton.mp hx ▸ Nat.lt_succ_self _

theorem swap (h : Ordered f) : Ordered f.swap := by
  have hpool : f.swap.pool = f.pool.join f.last.tasks := rfl
  have hhas : ∀ t, f.swap.pool.Has t → f.pool.Has t ∨ t.batch = f.last := by
    intro t ht
    exact (Pool.has_join.mp (hpool ▸ ht)).imp_right batch_of_mem_tasks
  refine ⟨?_, ?_, ?_, ⟨.nil, nofun⟩⟩
  · rw [hpool]
    refine h.pool.join (tasks_before f.last) ?_
    intro t ht u hu
    exact .inl (batch_of_mem_tasks hu ▸ h.earlier t ht)
  · intro t ht
    refine ⟨?_, fun x _ y hy => absurd hy List.not_mem_nil⟩
    rcases hhas t ht with ht | ht
    · exact Nat.lt_succ_of_lt (h.earlier t ht).1
    · exact ht ▸ Nat.lt_succ_self _
  · intro t ht
    rcases hhas t ht with ht | ht
    · exact h.intact t ht
    · exact ht ▸ h.last

theorem step (h : Ordered f) (hstep : f.Step a g) : Ordered g := by
  cases hstep with
  | stay => exact h
  | push data excludeFd => exact h.push data excludeFd
  | swap => exact h.swap
  | @pop w task rest hline hidle =>
    have hpool := pool_pop (f := f) w task rest
    have hfree : f.pool.held w = none := congrArg (Option.map Running.task) hidle
    refine h.shrink (hpool ▸ h.pool.take hline hfree) ?_ rfl rfl
    intro t ht
    exact Pool.Has.of_take (hpool ▸ ht) hline
  | snapshot hheld => exact h.same (pool_setWorker_same hheld) rfl rfl
  | @turn w task id rest box part hheld =>
    have hheld' : (f.deliver id box part).workers w = some ⟨task, some (id :: rest)⟩ := hheld
    exact h.same (pool_setWorker_same hheld') rfl rfl
  | @finish w task hheld =>
    have hpool := pool_finish (f := f) w
    exact h.shrink (hpool ▸ h.pool.release) (fun t ht => Pool.Has.of_release (hpool ▸ ht)) rfl rfl
  | accept => exact h.same rfl rfl rfl
  | erase => exact h.same rfl rfl rfl

end Ordered

end Order

section Shards

/-- The connection exists, and its descriptor belongs to the shard. -/
def LivesIn (f : Flow n) (shard : ℕ) (id : ConnId) : Prop :=
  ∃ box, f.inbox id = some box ∧ shardIdx box.fd = shard

structure Seated (f : Flow n) : Prop where
  entries : ∀ shard, ∀ entry ∈ f.shards shard, LivesIn f shard entry.2
  todo : ∀ w task todo, f.workers w = some ⟨task, some todo⟩ →
    todo.Nodup ∧ ∀ id ∈ todo, LivesIn f task.shard id

namespace Seated

theorem init (kernel : ConnId → Kernel) : Seated (flow (machine kernel n).init) :=
  ⟨fun _ _ he => absurd he List.not_mem_nil, nofun⟩

/-- Every connection keeps its descriptor, and every shard and every worker
has at most what it had. -/
theorem shrink (h : Seated f) (hinbox : ∀ shard id, LivesIn f shard id → LivesIn g shard id)
    (hshards : ∀ shard, ∀ entry ∈ g.shards shard,
      entry ∈ f.shards shard ∨ LivesIn g shard entry.2)
    (hworkers : ∀ w task todo, g.workers w = some ⟨task, some todo⟩ →
      f.workers w = some ⟨task, some todo⟩ ∨
        todo.Nodup ∧ ∀ id ∈ todo, LivesIn f task.shard id) : Seated g := by
  constructor
  · intro shard entry hentry
    rcases hshards shard entry hentry with hentry | hentry
    · exact hinbox shard entry.2 (h.entries shard entry hentry)
    · exact hentry
  · intro w task todo hw
    have hold : todo.Nodup ∧ ∀ id ∈ todo, LivesIn f task.shard id := by
      rcases hworkers w task todo hw with hw | hw
      · exact h.todo w task todo hw
      · exact hw
    exact ⟨hold.1, fun id hid => hinbox _ id (hold.2 id hid)⟩

theorem step (h : Seated f) (hstep : f.Step a g) : Seated g := by
  cases hstep with
  | stay => exact h
  | push => exact ⟨h.entries, h.todo⟩
  | swap => exact ⟨h.entries, h.todo⟩
  | @pop w task rest hline hidle =>
    refine h.shrink (fun _ _ hin => hin) (fun _ _ he => .inl he) ?_
    intro v u todo hv
    rcases workers_setWorker hv with ⟨_, heq⟩ | ⟨_, hv⟩
    · cases heq
    · exact .inl hv
  | @snapshot w task seen hheld honce hseen =>
    refine h.shrink (fun _ _ hin => hin) (fun _ _ he => .inl he) ?_
    intro v u todo hv
    rcases workers_setWorker hv with ⟨_, heq⟩ | ⟨_, hv⟩
    · cases heq
      refine .inr ⟨honce, ?_⟩
      intro id hid
      obtain ⟨entry, hentry, rfl⟩ := List.mem_map.mp (hseen id hid)
      exact h.entries _ entry hentry
    · exact .inl hv
  | @turn w task id rest box part hheld hbox hpart =>
    refine h.shrink ?_ (fun _ _ he => .inl he) ?_
    · intro shard k ⟨kbox, hk, hshard⟩
      by_cases heq : k = id
      · subst heq
        cases hbox.symm.trans hk
        exact ⟨_, Function.update_self _ _ _, hshard⟩
      · exact ⟨kbox, (Function.update_of_ne heq _ _).trans hk, hshard⟩
    · intro v u todo hv
      rcases workers_setWorker hv with ⟨_, heq⟩ | ⟨_, hv⟩
      · cases heq
        obtain ⟨honce, hlives⟩ := h.todo w task _ hheld
        exact .inr ⟨honce.of_cons, fun k hk => hlives k (List.mem_cons_of_mem _ hk)⟩
      · exact .inl hv
  | @finish w task hheld =>
    refine h.shrink (fun _ _ hin => hin) (fun _ _ he => .inl he) ?_
    intro v u todo hv
    rcases workers_setWorker hv with ⟨_, heq⟩ | ⟨_, hv⟩
    · cases heq
    · exact .inl hv
  | @accept id fd now hfresh =>
    refine h.shrink ?_ ?_ (fun _ _ _ hv => .inl hv)
    · intro shard k ⟨kbox, hk, hshard⟩
      have hne : k ≠ id := by
        intro heq
        subst heq
        cases hfresh.symm.trans hk
      exact ⟨kbox, (Function.update_of_ne hne _ _).trans hk, hshard⟩
    · intro shard entry hentry
      change entry ∈ Function.update f.shards (shardIdx fd) _ shard at hentry
      rw [Function.update_apply] at hentry
      split at hentry
      · rename_i heq
        rcases List.mem_append.mp hentry with hentry | hentry
        · exact .inl (heq ▸ List.mem_of_mem_filter hentry)
        · cases List.mem_singleton.mp hentry
          exact .inr ⟨⟨fd, []⟩, Function.update_self _ _ _, heq.symm⟩
      · exact .inl hentry
  | erase id fd =>
    refine h.shrink (fun _ _ hin => hin) ?_ (fun _ _ _ hv => .inl hv)
    intro shard entry hentry
    change entry ∈ Function.update f.shards (shardIdx fd) _ shard at hentry
    rw [Function.update_apply] at hentry
    split at hentry
    · rename_i heq
      exact .inl (heq ▸ List.mem_of_mem_filter hentry)
    · exact .inl hentry

end Seated

end Shards

section Logs

variable {R : ℕ → ℕ → Prop}

/-- A worker with this list of connections to serve has not got past `id`. -/
def Awaits (id : ConnId) (todo : Option (List ConnId)) : Prop := ∀ left ∈ todo, id ∈ left

/-- The task may still give something to a connection with this descriptor. -/
def Ahead (f : Flow n) (id : ConnId) (fd : ℕ) (task : Task) : Prop :=
  task.shard = shardIdx fd ∧ (task ∈ f.line ∨ task.batch = f.last ∨
    ∃ w todo, f.workers w = some ⟨task, todo⟩ ∧ Awaits id todo)

/-- The one worker is at a connection that the other one has not got past with
an earlier batch. -/
def Overtakes : Option Running → Option Running → Prop
  | some ⟨later, some (id :: _)⟩, some ⟨earlier, todo⟩ =>
      earlier.shard = later.shard ∧ earlier.batch.number < later.batch.number ∧ Awaits id todo
  | _, _ => False

/-- What a connection was given is `R`-related in its order, and to all that is ahead. -/
def Spaced (R : ℕ → ℕ → Prop) (f : Flow n) : Prop :=
  ∀ id box, f.inbox id = some box → (∀ x ∈ box.log, x < f.broadcasts) ∧
    Clear R (fun task : Task => origins task.batch) (Ahead f id box.fd) box.log

namespace Spaced

theorem init (kernel : ConnId → Kernel) : Spaced R (flow (machine kernel n).init) := nofun

/-- The connections stay as they are, and what is ahead of them is older or related. -/
theorem shrink (h : Spaced R f) (hinbox : g.inbox = f.inbox)
    (hbroadcasts : f.broadcasts ≤ g.broadcasts)
    (hahead : ∀ id box task, f.inbox id = some box → Ahead g id box.fd task →
      Ahead f id box.fd task ∨ ∀ y ∈ origins task.batch, ∀ x ∈ box.log, R x y) :
    Spaced R g := by
  intro id box hbox
  rw [hinbox] at hbox
  obtain ⟨hbelow, hclear⟩ := h id box hbox
  exact ⟨fun x hx => (hbelow x hx).trans_le hbroadcasts,
    hclear.mono fun task => hahead id box task hbox⟩

theorem push (hR : ∀ x y, x < y → R x y) (h : Spaced R f) (data : Bytes) (excludeFd : ℤ) :
    Spaced R (f.push data excludeFd) := by
  refine h.shrink rfl (Nat.le_succ _) ?_
  intro id box task hbox ⟨hshard, hahead⟩
  rcases hahead with hline | hlast | hheld
  · exact .inl ⟨hshard, .inl hline⟩
  · right
    intro y hy x hx
    rw [hlast, origins_push, List.mem_append, List.mem_singleton] at hy
    obtain ⟨hbelow, hclear⟩ := h id box hbox
    rcases hy with hy | rfl
    · exact hclear.ahead ⟨task.shard, f.last⟩ ⟨hshard, .inr (.inl rfl)⟩ x hx y hy
    · exact hR x _ (hbelow x hx)
  · exact .inl ⟨hshard, .inr (.inr hheld)⟩

theorem swap (h : Spaced R f) : Spaced R f.swap := by
  refine h.shrink rfl (Nat.le_refl _) ?_
  intro id box task _ ⟨hshard, hahead⟩
  rcases hahead with hline | hlast | hheld
  · rcases List.mem_append.mp hline with hline | htask
    · exact .inl ⟨hshard, .inl hline⟩
    · exact .inl ⟨hshard, .inr (.inl (batch_of_mem_tasks htask))⟩
  · right
    intro y hy
    rw [hlast] at hy
    cases hy
  · exact .inl ⟨hshard, .inr (.inr hheld)⟩

section Turn

variable {w : Fin n} {task : Task} {id : ConnId} {rest : List ConnId} {box : Inbox}
  {part : List ℕ}

/-- A turn puts no task ahead of a connection. -/
theorem ahead_of_turn (hheld : f.workers w = some ⟨task, some (id :: rest)⟩) {k : ConnId}
    {fd : ℕ} {u : Task}
    (h : Ahead ((f.deliver id box part).setWorker w (some ⟨task, some rest⟩)) k fd u) :
    Ahead f k fd u := by
  obtain ⟨hu, hahead⟩ := h
  refine ⟨hu, hahead.imp_right (Or.imp_right ?_)⟩
  intro ⟨v, todo, hv, hawaits⟩
  rcases workers_setWorker hv with ⟨_, heq⟩ | ⟨_, hv⟩
  · cases heq
    refine ⟨w, _, hheld, ?_⟩
    intro left hleft
    cases hleft
    exact List.mem_cons_of_mem _ (hawaits rest rfl)
  · exact ⟨v, todo, hv, hawaits⟩

/-- What is ahead of the connection after its turn: a later task in line or in
the hand of a worker, the last batch, or an earlier task that is overtaken. -/
theorem related_after_turn (hR : ∀ x y, x < y → R x y) (hord : Ordered f)
    (hheld : f.workers w = some ⟨task, some (id :: rest)⟩) (honce : (id :: rest).Nodup)
    (hshard : shardIdx box.fd = task.shard)
    (hclear : ∀ v, Overtakes (f.workers w) (f.workers v) → ∀ x y, y < x → R x y) {u : Task}
    (h : Ahead ((f.deliver id box part).setWorker w (some ⟨task, some rest⟩)) id box.fd u) :
    ∀ x ∈ origins task.batch, ∀ y ∈ origins u.batch, R x y := by
  have hpool : f.pool.held w = some task := congrArg (Option.map Running.task) hheld
  obtain ⟨hu, hahead⟩ := h
  have hsame : u.shard = task.shard := hu.trans hshard
  intro x hx y hy
  rcases hahead with hline | hlast | ⟨v, todo, hv, hawaits⟩
  · have hbefore := (hord.pool.front w task hpool u hline).batch hsame
    exact hR x y (hbefore.2 x hx y hy)
  · have hlate : u.batch = f.last := hlast
    exact hR x y ((hord.earlier task (.inr ⟨w, hpool⟩)).2 x hx y (hlate ▸ hy))
  · rcases workers_setWorker hv with ⟨_, heq⟩ | ⟨hne, hv⟩
    · cases heq
      exact absurd (hawaits rest rfl) (List.nodup_cons.mp honce).1
    · have hhas : f.workers v = some ⟨u, todo⟩ := hv
      have hpool' : f.pool.held v = some u := congrArg (Option.map Running.task) hhas
      rcases hord.pool.apart w v task u hne.symm hpool hpool' with hbefore | hafter
      · exact hR x y ((hbefore.batch hsame).2 x hx y hy)
      · have hearlier := hafter.batch hsame.symm
        have hover : Overtakes (f.workers w) (f.workers v) := by
          rw [hheld, hhas]
          exact ⟨hsame, hearlier.1, hawaits⟩
        exact hclear v hover x y (hearlier.2 y hy x hx)

theorem turn (hR : ∀ x y, x < y → R x y) (hord : Ordered f) (hseat : Seated f) (h : Spaced R f)
    (hheld : f.workers w = some ⟨task, some (id :: rest)⟩) (hbox : f.inbox id = some box)
    (hpart : part.Sublist (origins task.batch))
    (hclear : ∀ v, Overtakes (f.workers w) (f.workers v) → ∀ x y, y < x → R x y) :
    Spaced R ((f.deliver id box part).setWorker w (some ⟨task, some rest⟩)) := by
  obtain ⟨honce, hlives⟩ := hseat.todo w task _ hheld
  obtain ⟨box', hbox', hshard⟩ := hlives id List.mem_cons_self
  cases hbox.symm.trans hbox'
  have htask : f.pool.Has task := .inr ⟨w, congrArg (Option.map Running.task) hheld⟩
  intro k kbox hk
  change Function.update f.inbox id _ k = some kbox at hk
  rw [Function.update_apply] at hk
  split at hk
  · rename_i heq
    subst heq
    cases hk
    obtain ⟨hbelow, hlog⟩ := h k box hbox
    constructor
    · intro x hx
      rcases List.mem_append.mp hx with hx | hx
      · exact hbelow x hx
      · exact (hord.intact task htask).2 x (hpart.subset hx)
    · have hahead : Ahead f k box.fd task := by
        refine ⟨hshard.symm, .inr (.inr ⟨w, _, hheld, ?_⟩)⟩
        intro left hleft
        cases hleft
        exact List.mem_cons_self
      refine hlog.deliver hahead hpart ((hord.intact task htask).1.imp (hR _ _)) ?_
      intro u hu
      exact ⟨ahead_of_turn hheld hu, related_after_turn hR hord hheld honce hshard hclear hu⟩
  · obtain ⟨hbelow, hlog⟩ := h k kbox hk
    exact ⟨hbelow, hlog.mono fun u hu => .inl (ahead_of_turn hheld hu)⟩

end Turn

theorem step (hR : ∀ x y, x < y → R x y) (hord : Ordered f) (hseat : Seated f) (h : Spaced R f)
    (hstep : f.Step a g)
    (hclear : ∀ w, a = .turn w → ∀ v, Overtakes (f.workers w) (f.workers v) →
      ∀ x y, y < x → R x y) : Spaced R g := by
  cases hstep with
  | stay => exact h
  | push data excludeFd => exact h.push hR data excludeFd
  | swap => exact h.swap
  | @pop w task rest hline hidle =>
    refine h.shrink rfl (Nat.le_refl _) ?_
    intro id box u _ ⟨hshard, hahead⟩
    refine .inl ⟨hshard, ?_⟩
    rcases hahead with hwait | hlast | ⟨v, todo, hv, hawaits⟩
    · exact .inl (hline ▸ List.mem_cons_of_mem task hwait)
    · exact .inr (.inl hlast)
    · rcases workers_setWorker hv with ⟨_, heq⟩ | ⟨_, hv⟩
      · cases heq
        exact .inl (hline ▸ List.mem_cons_self)
      · exact .inr (.inr ⟨v, todo, hv, hawaits⟩)
  | @snapshot w task seen hheld honce hseen =>
    refine h.shrink rfl (Nat.le_refl _) ?_
    intro id box u _ ⟨hshard, hahead⟩
    refine .inl ⟨hshard, hahead.imp_right (Or.imp_right ?_)⟩
    intro ⟨v, todo, hv, hawaits⟩
    rcases workers_setWorker hv with ⟨_, heq⟩ | ⟨_, hv⟩
    · cases heq
      exact ⟨w, none, hheld, nofun⟩
    · exact ⟨v, todo, hv, hawaits⟩
  | turn hheld hbox hpart => exact h.turn hR hord hseat hheld hbox hpart (hclear _ rfl)
  | @finish w task hheld =>
    refine h.shrink rfl (Nat.le_refl _) ?_
    intro id box u _ ⟨hshard, hahead⟩
    refine .inl ⟨hshard, hahead.imp_right (Or.imp_right ?_)⟩
    intro ⟨v, todo, hv, hawaits⟩
    rcases workers_setWorker hv with ⟨_, heq⟩ | ⟨_, hv⟩
    · cases heq
    · exact ⟨v, todo, hv, hawaits⟩
  | @accept id fd now hfresh =>
    intro k box hk
    change Function.update f.inbox id _ k = some box at hk
    rw [Function.update_apply] at hk
    split at hk
    · cases hk
      exact ⟨fun x hx => absurd hx List.not_mem_nil, clear_nil⟩
    · exact h k box hk
  | erase => exact h

/-- In every run whose turns overtake only where `R` does not mind. -/
theorem reachable {kernel : ConnId → Kernel} {allowed : Server n → Action n → Prop}
    (hR : ∀ x y, x < y → R x y)
    (hallowed : ∀ s w, allowed s (.turn w) → ∀ v, Overtakes (s.workers w) (s.workers v) →
      ∀ x y, y < x → R x y)
    {s : Server n} (hs : Reachable (machine kernel n) allowed s) :
    Ordered (flow s) ∧ Seated (flow s) ∧ Spaced R (flow s) := by
  refine hs.invariant (P := fun s => Ordered (flow s) ∧ Seated (flow s) ∧ Spaced R (flow s))
    ⟨.init kernel, .init kernel, .init kernel⟩ ?_
  intro s a t ⟨hord, hseat, hspaced⟩ ha hnext
  have hstep := next_flow hnext
  refine ⟨hord.step hstep, hseat.step hstep, hspaced.step hR hord hseat hstep ?_⟩
  intro w hw
  exact hallowed s w (hw ▸ ha)

end Spaced

end Logs

section Transit

/-- Broadcast `k` is still to be delivered to the shard: it is in the global
queue, or in a task of the shard that is not finished. -/
def InTransit (f : Flow n) (shard k : ℕ) : Prop :=
  k ∈ origins f.last ∨ ∃ task, f.pool.Has task ∧ task.shard = shard ∧ k ∈ origins task.batch

theorem InTransit.same {shard k : ℕ} (h : InTransit f shard k) (hlast : g.last = f.last)
    (hpool : g.pool = f.pool) : InTransit g shard k := by
  unfold InTransit
  rw [hlast, hpool]
  exact h

/-- A broadcast is lost at none of the hand-overs: it leaves a shard with the
end of a task that has reached all its connections. -/
theorem InTransit.step {shard k : ℕ} (hshard : shard < numShards) (h : InTransit f shard k)
    (hstep : f.Step a g) :
    InTransit g shard k ∨ ∃ w task, a = .finish w ∧ f.workers w = some ⟨task, some []⟩ ∧
      task.shard = shard ∧ k ∈ origins task.batch := by
  cases hstep with
  | stay => exact .inl h
  | push data excludeFd =>
    refine .inl (h.imp_left ?_)
    intro hk
    exact origins_push f data excludeFd ▸ List.mem_append_left _ hk
  | swap =>
    refine .inl (.inr ?_)
    rcases h with hk | ⟨task, htask, hrest⟩
    · have hmem : (⟨shard, f.last⟩ : Task) ∈ f.last.tasks :=
        List.mem_map.mpr ⟨shard, List.mem_range.mpr hshard, rfl⟩
      exact ⟨⟨shard, f.last⟩, (Pool.has_join (p := f.pool)).mpr (.inr hmem), rfl, hk⟩
    · exact ⟨task, (Pool.has_join (p := f.pool)).mpr (.inl htask), hrest⟩
  | @pop w task rest hline hidle =>
    have hfree : f.pool.held w = none := congrArg (Option.map Running.task) hidle
    refine .inl (h.imp_right ?_)
    intro ⟨u, hu, hrest⟩
    exact ⟨u, pool_pop (f := f) w task rest ▸ hu.take hline hfree, hrest⟩
  | snapshot hheld => exact .inl (h.same rfl (pool_setWorker_same hheld))
  | @turn w task id rest box part hheld =>
    have hheld' : (f.deliver id box part).workers w = some ⟨task, some (id :: rest)⟩ := hheld
    exact .inl (h.same rfl (pool_setWorker_same hheld'))
  | @finish w task hheld =>
    rcases h with hk | ⟨u, hu, hrest⟩
    · exact .inl (.inl hk)
    · rcases hu.release w with hu | hu
      · exact .inl (.inr ⟨u, pool_finish (f := f) w ▸ hu, hrest⟩)
      · obtain ⟨running, hrunning, rfl⟩ := Option.map_eq_some_iff.mp hu
        cases hheld.symm.trans hrunning
        exact .inr ⟨w, task, rfl, hheld, hrest⟩
  | accept => exact .inl (h.same rfl rfl)
  | erase => exact .inl (h.same rfl rfl)

end Transit

section Delivery

end Delivery

end ChatServer.BroadcastDelivery
