import Mathlib.Data.List.Nodup
import Mathlib.Logic.Function.Basic
import ChatServer.Lib.Runs

/-!
The pool of objects that are used again. An object leaves the pool when it is
acquired, is changed by its holders as they like, and comes back when it is
released: by a call of release, or by the deleter when the last shared pointer to it is
dropped, on whichever thread. release clears the object before it locks the
mutex, so other threads may acquire and release in between. The objects are only
deleted by the destructor of the pool.
-/
namespace ChatServer.ObjectPool

open Lib.Runs

abbrev Address := ℕ

/-- What a pool uses of the type of its objects: `T()` and `clear()`, which leaves what
`T()` gives. -/
class Poolable (T : Type*) where
  empty : T
  clear : T → T
  clear_eq : ∀ x, clear x = empty

instance {α : Type*} : Poolable (List α) := ⟨[], fun _ => [], fun _ => rfl⟩

/-- What has become of an acquired object. -/
inductive Stage
  /-- With the holder of the pointer that acquire returned. -/
  | owned
  /-- With the holders of one shared pointer and so many others. -/
  | shared (others : ℕ)
  /-- In release, before `ptr->clear()`. -/
  | releasing
  /-- In release, before the lock. -/
  | cleared
deriving DecidableEq

def Stage.held : Stage → Bool
  | .owned => true
  | .shared _ => true
  | _ => false

structure Acquired where
  object : Address
  stage : Stage
deriving DecidableEq

/-- The names `H` tell one acquisition from another. -/
structure Pool (H T : Type*) where
  /-- `pool_`, with its back at the end. -/
  pool : List Address
  /-- The objects made by `new`. -/
  allocated : List Address
  contents : Address → T
  acquired : H → Option Acquired

/-- A step of a holder, or of a thread that is in release. An allocation gives some
address that is not in use. -/
inductive Action (H T : Type*)
  | acquire (h : H) (fresh : Address)
  | acquireShared (h : H) (fresh : Address)
  | modify (h : H) (x : T)
  /-- A shared pointer is copied. -/
  | copy (h : H)
  | drop (h : H)
  | release (h : H)
  | clear (h : H)
  | pushBack (h : H)
deriving DecidableEq

/-- Who acquires an object. -/
def Action.acquirer {H T : Type*} : Action H T → Option H
  | .acquire h _ => some h
  | .acquireShared h _ => some h
  | _ => none

variable {H T : Type*} [DecidableEq H] [Poolable T]

namespace Pool

def init : Pool H T := ⟨[], [], fun _ => Poolable.empty, fun _ => none⟩

def setAcquired (s : Pool H T) (h : H) (a : Option Acquired) : Pool H T :=
  { s with acquired := Function.update s.acquired h a }

def acquire (s : Pool H T) (fresh : Address) : Option (Address × Pool H T) :=
  match s.pool.getLast? with
  | none =>
      if fresh ∈ s.allocated then none
      else some (fresh, { s with
        allocated := fresh :: s.allocated
        contents := Function.update s.contents fresh Poolable.empty })
  | some ptr => some (ptr, { s with pool := s.pool.dropLast })

/-- acquire, or acquire_shared, by a new holder. -/
def handOut (s : Pool H T) (h : H) (stage : Stage) (fresh : Address) : Option (Pool H T) :=
  match s.acquired h with
  | none => (s.acquire fresh).map fun found => found.2.setAcquired h (some ⟨found.1, stage⟩)
  | some _ => none

/-- An object is released once per acquisition: by its holder, or by the deleter. -/
def next (s : Pool H T) : Action H T → Option (Pool H T)
  | .acquire h fresh => s.handOut h .owned fresh
  | .acquireShared h fresh => s.handOut h (.shared 0) fresh
  | .modify h x =>
      match s.acquired h with
      | some ⟨ptr, stage⟩ =>
          if stage.held then some { s with contents := Function.update s.contents ptr x } else none
      | none => none
  | .copy h =>
      match s.acquired h with
      | some ⟨ptr, .shared others⟩ => some (s.setAcquired h (some ⟨ptr, .shared (others + 1)⟩))
      | _ => none
  | .drop h =>
      match s.acquired h with
      | some ⟨ptr, .shared 0⟩ => some (s.setAcquired h (some ⟨ptr, .releasing⟩))
      | some ⟨ptr, .shared (others + 1)⟩ => some (s.setAcquired h (some ⟨ptr, .shared others⟩))
      | _ => none
  | .release h =>
      match s.acquired h with
      | some ⟨ptr, .owned⟩ => some (s.setAcquired h (some ⟨ptr, .releasing⟩))
      | _ => none
  | .clear h =>
      match s.acquired h with
      | some ⟨ptr, .releasing⟩ =>
          some ({ s with
            contents := Function.update s.contents ptr (Poolable.clear (s.contents ptr))
            }.setAcquired h (some ⟨ptr, .cleared⟩))
      | _ => none
  | .pushBack h =>
      match s.acquired h with
      | some ⟨ptr, .cleared⟩ => some ({ s with pool := s.pool ++ [ptr] }.setAcquired h none)
      | _ => none

end Pool

def machine (H T : Type*) [DecidableEq H] [Poolable T] : Machine (Pool H T) (Action H T) :=
  ⟨.init, Pool.next⟩

variable {s t : Pool H T} {a : Action H T} {h k : H}

section Moves

/-- What a step can do. -/
inductive Moves (s : Pool H T) : Action H T → Pool H T → Prop
  | create {a : Action H T} {h : H} {fresh : Address} {stage : Stage}
      (ha : a.acquirer = some h) (hstage : stage.held = true) (hnone : s.acquired h = none)
      (hnew : fresh ∉ s.allocated) :
      Moves s a ({ s with
        allocated := fresh :: s.allocated
        contents := Function.update s.contents fresh Poolable.empty }.setAcquired h
          (some ⟨fresh, stage⟩))
  | reuse {a : Action H T} {h : H} {ptr : Address} {rest : List Address} {stage : Stage}
      (ha : a.acquirer = some h) (hstage : stage.held = true) (hnone : s.acquired h = none)
      (hpool : s.pool = rest ++ [ptr]) :
      Moves s a ({ s with pool := rest }.setAcquired h (some ⟨ptr, stage⟩))
  | modify {h : H} {x : T} {ptr : Address} {stage : Stage} (hstage : stage.held = true)
      (hfound : s.acquired h = some ⟨ptr, stage⟩) :
      Moves s (.modify h x) { s with contents := Function.update s.contents ptr x }
  /-- A shared pointer is copied or dropped, or release is called. -/
  | restage {a : Action H T} {h : H} {ptr : Address} {before after : Stage}
      (hbefore : before.held = true) (hafter : after ≠ .cleared)
      (hfound : s.acquired h = some ⟨ptr, before⟩) :
      Moves s a (s.setAcquired h (some ⟨ptr, after⟩))
  | clear {h : H} {ptr : Address} (hfound : s.acquired h = some ⟨ptr, .releasing⟩) :
      Moves s (.clear h) ({ s with
        contents := Function.update s.contents ptr Poolable.empty }.setAcquired h
          (some ⟨ptr, .cleared⟩))
  | pushBack {h : H} {ptr : Address} (hfound : s.acquired h = some ⟨ptr, .cleared⟩) :
      Moves s (.pushBack h) ({ s with pool := s.pool ++ [ptr] }.setAcquired h none)

theorem handOut_moves {stage : Stage} {fresh : Address} (ha : a.acquirer = some h)
    (hstage : stage.held = true) (hnext : s.handOut h stage fresh = some t) : Moves s a t := by
  unfold Pool.handOut at hnext
  split at hnext
  · rename_i hnone
    obtain ⟨⟨ptr, u⟩, hacquire, rfl⟩ := Option.map_eq_some_iff.mp hnext
    unfold Pool.acquire at hacquire
    split at hacquire
    · obtain ⟨hnew, heq⟩ := Option.ite_none_left_eq_some.mp hacquire
      cases heq
      exact .create ha hstage hnone hnew
    · rename_i ptr' hlast
      cases hacquire
      exact .reuse ha hstage hnone (List.dropLast_append_getLast? _ hlast).symm
  · cases hnext

theorem next_moves (hnext : s.next a = some t) : Moves s a t := by
  cases a with
  | acquire h fresh => exact handOut_moves rfl rfl hnext
  | acquireShared h fresh => exact handOut_moves rfl rfl hnext
  | modify h x =>
    simp only [Pool.next] at hnext
    split at hnext
    · rename_i hfound
      obtain ⟨hstage, heq⟩ := Option.ite_none_right_eq_some.mp hnext
      exact Option.some.inj heq ▸ .modify hstage hfound
    · cases hnext
  | copy h =>
    simp only [Pool.next] at hnext
    split at hnext
    · rename_i hfound
      exact Option.some.inj hnext ▸ .restage rfl (by simp) hfound
    · cases hnext
  | drop h =>
    simp only [Pool.next] at hnext
    split at hnext
    · rename_i hfound
      exact Option.some.inj hnext ▸ .restage rfl (by simp) hfound
    · rename_i hfound
      exact Option.some.inj hnext ▸ .restage rfl (by simp) hfound
    · cases hnext
  | release h =>
    simp only [Pool.next] at hnext
    split at hnext
    · rename_i hfound
      exact Option.some.inj hnext ▸ .restage rfl (by simp) hfound
    · cases hnext
  | clear h =>
    simp only [Pool.next] at hnext
    split at hnext
    · rename_i hfound
      rw [Poolable.clear_eq] at hnext
      exact Option.some.inj hnext ▸ .clear hfound
    · cases hnext
  | pushBack h =>
    simp only [Pool.next] at hnext
    split at hnext
    · rename_i hfound
      exact Option.some.inj hnext ▸ .pushBack hfound
    · cases hnext

omit [Poolable T] in
theorem acquired_setAcquired (s : Pool H T) (h k : H) (x : Option Acquired) :
    (s.setAcquired h x).acquired k = if k = h then x else s.acquired k :=
  Function.update_apply ..

end Moves

section Soundness

/-- An object is in the pool, where it is empty, or with one acquisition. -/
structure Sound (s : Pool H T) : Prop where
  nodup : s.pool.Nodup
  clean : ∀ ptr ∈ s.pool, s.contents ptr = Poolable.empty
  made : ∀ ptr ∈ s.pool, ptr ∈ s.allocated
  known : ∀ h x, s.acquired h = some x → x.object ∈ s.allocated
  outside : ∀ h x, s.acquired h = some x → x.object ∉ s.pool
  apart : ∀ h k x y, s.acquired h = some x → s.acquired k = some y → x.object = y.object → h = k
  cleared : ∀ h ptr, s.acquired h = some ⟨ptr, .cleared⟩ → s.contents ptr = Poolable.empty

omit [Poolable T] in
/-- Who has an object after one acquisition has changed. -/
theorem acquired_cases {x : Option Acquired} {y : Acquired}
    (hk : (s.setAcquired h x).acquired k = some y) :
    (k = h ∧ x = some y) ∨ (k ≠ h ∧ s.acquired k = some y) := by
  rw [acquired_setAcquired] at hk
  split at hk
  · rename_i heq
    exact Or.inl ⟨heq, hk⟩
  · rename_i hne
    exact Or.inr ⟨hne, hk⟩

namespace Sound

omit [DecidableEq H] in
theorem init : Sound (.init : Pool H T) where
  nodup := .nil
  clean ptr hptr := absurd hptr List.not_mem_nil
  made ptr hptr := absurd hptr List.not_mem_nil
  known h x hx := by cases hx
  outside h x hx := by cases hx
  apart h k x y hx := by cases hx
  cleared h ptr hptr := by cases hptr

/-- An object that was with nobody is with one acquisition. -/
theorem apart_new {new : Acquired} (hs : Sound s)
    (hother : ∀ k y, s.acquired k = some y → new.object ≠ y.object) (k l : H) (y z : Acquired)
    (hy : (s.setAcquired h (some new)).acquired k = some y)
    (hz : (s.setAcquired h (some new)).acquired l = some z) (hsame : y.object = z.object) :
    k = l := by
  rcases acquired_cases hy with ⟨hk, heq⟩ | ⟨_, hy⟩
  · rcases acquired_cases hz with ⟨hl, _⟩ | ⟨_, hz⟩
    · exact hk.trans hl.symm
    · cases heq
      exact absurd hsame (hother l z hz)
  · rcases acquired_cases hz with ⟨_, heq⟩ | ⟨_, hz⟩
    · cases heq
      exact absurd hsame.symm (hother k y hy)
    · exact hs.apart k l y z hy hz hsame

theorem create {fresh : Address} {stage : Stage} (hs : Sound s) (hstage : stage.held = true)
    (hnew : fresh ∉ s.allocated) :
    Sound (({ s with
      allocated := fresh :: s.allocated
      contents := Function.update s.contents fresh Poolable.empty } : Pool H T).setAcquired h
        (some ⟨fresh, stage⟩)) := by
  have hother : ∀ k y, s.acquired k = some y → fresh ≠ y.object := by
    intro k y hy heq
    exact hnew (heq ▸ hs.known k y hy)
  refine ⟨hs.nodup, ?_, fun ptr hptr => List.mem_cons_of_mem _ (hs.made ptr hptr), ?_, ?_, ?_, ?_⟩
  · intro ptr hptr
    by_cases heq : ptr = fresh
    · exact absurd (heq ▸ hs.made ptr hptr) hnew
    · exact (Function.update_of_ne heq ..).trans (hs.clean ptr hptr)
  · intro k y hy
    rcases acquired_cases hy with ⟨_, heq⟩ | ⟨_, hy⟩
    · cases heq
      exact List.mem_cons_self
    · exact List.mem_cons_of_mem _ (hs.known k y hy)
  · intro k y hy hpool
    rcases acquired_cases hy with ⟨_, heq⟩ | ⟨_, hy⟩
    · cases heq
      exact hnew (hs.made fresh hpool)
    · exact hs.outside k y hy hpool
  · exact hs.apart_new hother
  · intro k ptr hy
    rcases acquired_cases hy with ⟨_, heq⟩ | ⟨_, hy⟩
    · cases heq
      cases hstage
    · exact (Function.update_of_ne (hother k _ hy).symm ..).trans (hs.cleared k ptr hy)

theorem reuse {ptr : Address} {rest : List Address} {stage : Stage} (hs : Sound s)
    (hstage : stage.held = true) (hpool : s.pool = rest ++ [ptr]) :
    Sound (({ s with pool := rest } : Pool H T).setAcquired h (some ⟨ptr, stage⟩)) := by
  have hback : ptr ∈ s.pool := hpool ▸ List.mem_append_right _ List.mem_cons_self
  have hrest : ∀ p ∈ rest, p ∈ s.pool := fun p hp => hpool ▸ List.mem_append_left _ hp
  have hnodup := hs.nodup
  rw [hpool] at hnodup
  have hnot : ptr ∉ rest := fun hmem =>
    List.disjoint_of_nodup_append hnodup hmem List.mem_cons_self
  have hother : ∀ k y, s.acquired k = some y → ptr ≠ y.object := by
    intro k y hy heq
    exact hs.outside k y hy (heq ▸ hback)
  refine ⟨hnodup.of_append_left, fun p hp => hs.clean p (hrest p hp),
    fun p hp => hs.made p (hrest p hp), ?_, ?_, ?_, ?_⟩
  · intro k y hy
    rcases acquired_cases hy with ⟨_, heq⟩ | ⟨_, hy⟩
    · cases heq
      exact hs.made ptr hback
    · exact hs.known k y hy
  · intro k y hy hmem
    rcases acquired_cases hy with ⟨_, heq⟩ | ⟨_, hy⟩
    · cases heq
      exact hnot hmem
    · exact hs.outside k y hy (hrest _ hmem)
  · exact hs.apart_new hother
  · intro k p hy
    rcases acquired_cases hy with ⟨_, heq⟩ | ⟨_, hy⟩
    · cases heq
      cases hstage
    · exact hs.cleared k p hy

omit [DecidableEq H] in
/-- A holder stores something in its object. -/
theorem modify {ptr : Address} {stage : Stage} {x : T} (hs : Sound s) (hstage : stage.held = true)
    (hfound : s.acquired h = some ⟨ptr, stage⟩) :
    Sound { s with contents := Function.update s.contents ptr x } := by
  refine ⟨hs.nodup, ?_, hs.made, hs.known, hs.outside, hs.apart, ?_⟩
  · intro p hp
    have hne : p ≠ ptr := fun heq => hs.outside h _ hfound (heq ▸ hp)
    exact (Function.update_of_ne hne ..).trans (hs.clean p hp)
  · intro k p hk
    have hne : p ≠ ptr := by
      intro heq
      have hsame := hs.apart k h _ _ hk hfound heq
      subst hsame
      cases hk.symm.trans hfound
      cases hstage
    exact (Function.update_of_ne hne ..).trans (hs.cleared k p hk)

/-- What an acquisition with the same object keeps. -/
theorem setAcquired {ptr : Address} {before after : Stage} (hs : Sound s)
    (hfound : s.acquired h = some ⟨ptr, before⟩)
    (hcleared : after = .cleared → s.contents ptr = Poolable.empty) :
    Sound (s.setAcquired h (some ⟨ptr, after⟩)) := by
  have hbefore : ∀ {k y}, (s.setAcquired h (some ⟨ptr, after⟩)).acquired k = some y →
      ∃ x, s.acquired k = some x ∧ x.object = y.object := by
    intro k y hy
    rcases acquired_cases hy with ⟨rfl, heq⟩ | ⟨_, hy⟩
    · cases heq
      exact ⟨_, hfound, rfl⟩
    · exact ⟨y, hy, rfl⟩
  refine ⟨hs.nodup, hs.clean, hs.made, ?_, ?_, ?_, ?_⟩
  · intro k y hy
    obtain ⟨x, hx, hsame⟩ := hbefore hy
    exact hsame ▸ hs.known k x hx
  · intro k y hy
    obtain ⟨x, hx, hsame⟩ := hbefore hy
    exact hsame ▸ hs.outside k x hx
  · intro k l y z hy hz hsame
    obtain ⟨x, hx, hxy⟩ := hbefore hy
    obtain ⟨w, hw, hwz⟩ := hbefore hz
    exact hs.apart k l x w hx hw (hxy.trans (hsame.trans hwz.symm))
  · intro k p hk
    rcases acquired_cases hk with ⟨_, heq⟩ | ⟨_, hk⟩
    · cases heq
      exact hcleared rfl
    · exact hs.cleared k p hk

/-- An object is cleared while nobody holds it. -/
theorem clear {ptr : Address} (hs : Sound s) (hfound : s.acquired h = some ⟨ptr, .releasing⟩) :
    Sound (({ s with contents := Function.update s.contents ptr Poolable.empty } :
      Pool H T).setAcquired h (some ⟨ptr, .cleared⟩)) := by
  have hempty : ∀ p, s.contents p = Poolable.empty →
      Function.update s.contents ptr Poolable.empty p = Poolable.empty := by
    intro p hp
    rw [Function.update_apply]
    split
    · rfl
    · exact hp
  have hs' : Sound ({ s with contents := Function.update s.contents ptr Poolable.empty } :
      Pool H T) :=
    ⟨hs.nodup, fun p hp => hempty p (hs.clean p hp), hs.made, hs.known, hs.outside, hs.apart,
      fun k p hk => hempty p (hs.cleared k p hk)⟩
  exact hs'.setAcquired hfound fun _ => Function.update_self ..

theorem pushBack {ptr : Address} (hs : Sound s) (hfound : s.acquired h = some ⟨ptr, .cleared⟩) :
    Sound (({ s with pool := s.pool ++ [ptr] } : Pool H T).setAcquired h none) := by
  have hkept : ∀ {k y}, (({ s with pool := s.pool ++ [ptr] } : Pool H T).setAcquired h
      none).acquired k = some y → k ≠ h ∧ s.acquired k = some y := by
    intro k y hy
    rcases acquired_cases hy with ⟨_, heq⟩ | hy
    · cases heq
    · exact hy
  refine ⟨?_, ?_, ?_, fun k y hy => hs.known k y (hkept hy).2, ?_,
    fun k l y z hy hz => hs.apart k l y z (hkept hy).2 (hkept hz).2,
    fun k p hk => hs.cleared k p (hkept hk).2⟩
  · refine List.Nodup.append hs.nodup (List.nodup_singleton ptr) ?_
    exact List.disjoint_singleton.mpr (hs.outside h _ hfound)
  · intro p hp
    rcases List.mem_append.mp hp with hp | hp
    · exact hs.clean p hp
    · rw [List.mem_singleton.mp hp]
      exact hs.cleared h ptr hfound
  · intro p hp
    rcases List.mem_append.mp hp with hp | hp
    · exact hs.made p hp
    · rw [List.mem_singleton.mp hp]
      exact hs.known h _ hfound
  · intro k y hy hmem
    obtain ⟨hne, hy⟩ := hkept hy
    rcases List.mem_append.mp hmem with hmem | hmem
    · exact hs.outside k y hy hmem
    · exact hne (hs.apart k h y _ hy hfound (List.mem_singleton.mp hmem))

theorem step (hs : Sound s) (hmoves : Moves s a t) : Sound t := by
  cases hmoves with
  | create _ hstage _ hnew => exact hs.create hstage hnew
  | reuse _ hstage _ hpool => exact hs.reuse hstage hpool
  | modify hstage hfound => exact hs.modify hstage hfound
  | restage _ hafter hfound => exact hs.setAcquired hfound fun heq => absurd heq hafter
  | clear hfound => exact hs.clear hfound
  | pushBack hfound => exact hs.pushBack hfound

end Sound

theorem sound {allowed : Pool H T → Action H T → Prop}
    (hs : Reachable (machine H T) allowed s) : Sound s :=
  hs.invariant (P := Sound) Sound.init fun _ _ _ h _ hnext => h.step (next_moves hnext)

/-- What an acquisition hands out is empty and with nobody else. -/
theorem handOut_empty {stage : Stage} {fresh : Address} (hs : Sound s)
    (hnext : s.handOut h stage fresh = some t) :
    ∃ ptr, t.acquired h = some ⟨ptr, stage⟩ ∧ t.contents ptr = Poolable.empty ∧
      ∀ k x, s.acquired k = some x → x.object ≠ ptr := by
  unfold Pool.handOut at hnext
  split at hnext
  · obtain ⟨⟨ptr, u⟩, hacquire, rfl⟩ := Option.map_eq_some_iff.mp hnext
    refine ⟨ptr, Function.update_self .., ?_⟩
    unfold Pool.acquire at hacquire
    split at hacquire
    · obtain ⟨hnew, heq⟩ := Option.ite_none_left_eq_some.mp hacquire
      cases heq
      refine ⟨Function.update_self .., ?_⟩
      intro k x hx heq
      exact hnew (heq ▸ hs.known k x hx)
    · rename_i ptr' hlast
      cases hacquire
      have hback : ptr ∈ s.pool := List.mem_of_getLast? hlast
      exact ⟨hs.clean ptr hback, fun k x hx heq => hs.outside k x hx (heq ▸ hback)⟩
  · cases hnext

/-- Who has no object gets one by an acquisition only. -/
theorem acquired_none (hmoves : Moves s a t) (hnone : s.acquired h = none)
    (hother : a.acquirer ≠ some h) : t.acquired h = none := by
  have hne : ∀ {k x}, s.acquired k = some x → h ≠ k := by
    intro k x hfound heq
    cases hfound.symm.trans (heq ▸ hnone)
  cases hmoves with
  | create ha _ _ _ =>
    have hk := fun heq => hother (ha.trans (congrArg some heq))
    exact (Function.update_of_ne (Ne.symm hk) ..).trans hnone
  | reuse ha _ _ _ =>
    have hk := fun heq => hother (ha.trans (congrArg some heq))
    exact (Function.update_of_ne (Ne.symm hk) ..).trans hnone
  | modify _ _ => exact hnone
  | restage _ _ hfound => exact (Function.update_of_ne (hne hfound) ..).trans hnone
  | clear hfound => exact (Function.update_of_ne (hne hfound) ..).trans hnone
  | pushBack hfound => exact (Function.update_of_ne (hne hfound) ..).trans hnone

/-- Nobody but its holder changes a held object, and it stays with its holder. -/
theorem held_kept (hs : Sound s) (hmoves : Moves s a t) {x : Acquired}
    (hx : s.acquired h = some x) (hheld : x.stage.held = true) (hother : ∀ y, a ≠ .modify h y) :
    t.contents x.object = s.contents x.object ∧
      ∃ y, t.acquired h = some y ∧ y.object = x.object := by
  cases hmoves with
  | @create a k fresh stage _ hstage hnone hnew =>
    have hne : x.object ≠ fresh := fun heq => hnew (heq ▸ hs.known h x hx)
    have hk : h ≠ k := fun heq => by cases hx.symm.trans (heq ▸ hnone)
    exact ⟨Function.update_of_ne hne .., x, (Function.update_of_ne hk ..).trans hx, rfl⟩
  | @reuse a k ptr rest stage _ hstage hnone hpool =>
    have hk : h ≠ k := fun heq => by cases hx.symm.trans (heq ▸ hnone)
    exact ⟨rfl, x, (Function.update_of_ne hk ..).trans hx, rfl⟩
  | @modify k y ptr stage hstage hfound =>
    have hne : x.object ≠ ptr := by
      intro heq
      have hk := hs.apart h k x _ hx hfound heq
      exact hother y (hk ▸ rfl)
    exact ⟨Function.update_of_ne hne .., x, hx, rfl⟩
  | @restage a k ptr before after hbefore hafter hfound =>
    refine ⟨rfl, ?_⟩
    by_cases hk : h = k
    · subst hk
      cases hx.symm.trans hfound
      exact ⟨_, Function.update_self .., rfl⟩
    · exact ⟨x, (Function.update_of_ne hk ..).trans hx, rfl⟩
  | @clear k ptr hfound =>
    have hk : h ≠ k := by
      rintro rfl
      cases hx.symm.trans hfound
      cases hheld
    have hne : x.object ≠ ptr := fun heq => hk (hs.apart h k x _ hx hfound heq)
    exact ⟨Function.update_of_ne hne .., x, (Function.update_of_ne hk ..).trans hx, rfl⟩
  | @pushBack k ptr hfound =>
    have hk : h ≠ k := by
      rintro rfl
      cases hx.symm.trans hfound
      cases hheld
    exact ⟨rfl, x, (Function.update_of_ne hk ..).trans hx, rfl⟩

end Soundness

section References

/-- The use counts are right: so many shared pointers refer to an object. -/
def Counts (s : Pool H T) (refs : H → ℕ) : Prop :=
  ∀ h, 0 < refs h → ∃ ptr, s.acquired h = some ⟨ptr, .shared (refs h - 1)⟩

namespace Counts

variable {refs refs' : H → ℕ}

omit [DecidableEq H] [Poolable T] in
theorem held (hs : Counts s refs) (hrefs : 0 < refs h) :
    ∃ x, s.acquired h = some x ∧ x.stage.held = true := by
  obtain ⟨ptr, hptr⟩ := hs h hrefs
  exact ⟨_, hptr, rfl⟩

/-- An object to which something refers can be used, and the reference copied or dropped. -/
theorem usable (hs : Counts s refs) (hrefs : 0 < refs h) :
    (∀ x, (s.next (.modify h x)).isSome = true) ∧ (s.next (.copy h)).isSome = true ∧
      (s.next (.drop h)).isSome = true := by
  obtain ⟨ptr, hptr⟩ := hs h hrefs
  refine ⟨fun x => ?_, ?_, ?_⟩
  · simp [Pool.next, hptr, Stage.held]
  · simp [Pool.next, hptr]
  · cases hcount : refs h - 1 with
    | zero => simp [Pool.next, hptr, hcount]
    | succ others => simp [Pool.next, hptr, hcount]

omit [Poolable T] in
/-- A step of one acquisition. -/
theorem setAcquired {x : Option Acquired} (hs : Counts s refs)
    (hself : 0 < refs' h → ∃ ptr, x = some ⟨ptr, .shared (refs' h - 1)⟩)
    (hothers : ∀ k, k ≠ h → refs' k = refs k) : Counts (s.setAcquired h x) refs' := by
  intro k hk
  rw [acquired_setAcquired]
  split
  · rename_i heq
    subst heq
    exact hself hk
  · rename_i hne
    rw [hothers k hne] at hk ⊢
    exact hs k hk

theorem acquireShared {fresh : Address} (hs : Counts s refs)
    (hnext : s.next (.acquireShared h fresh) = some t) (hself : refs' h = 1)
    (hothers : ∀ k, k ≠ h → refs' k = refs k) : Counts t refs' := by
  have hfound : ∃ ptr u, u.acquired = s.acquired ∧
      t = Pool.setAcquired u h (some ⟨ptr, .shared 0⟩) := by
    simp only [Pool.next, Pool.handOut] at hnext
    split at hnext
    · obtain ⟨⟨ptr, u⟩, hacquire, rfl⟩ := Option.map_eq_some_iff.mp hnext
      refine ⟨ptr, u, ?_, rfl⟩
      unfold Pool.acquire at hacquire
      split at hacquire
      · obtain ⟨_, heq⟩ := Option.ite_none_left_eq_some.mp hacquire
        cases heq
        rfl
      · cases hacquire
        rfl
    · cases hnext
  obtain ⟨ptr, u, hu, rfl⟩ := hfound
  have hs' : Counts u refs := by
    intro k hk
    rw [hu]
    exact hs k hk
  exact hs'.setAcquired (fun _ => ⟨ptr, by rw [hself]⟩) hothers

theorem modify {x : T} (hs : Counts s refs) (hnext : s.next (.modify h x) = some t) :
    Counts t refs := by
  simp only [Pool.next] at hnext
  split at hnext
  · obtain ⟨_, heq⟩ := Option.ite_none_right_eq_some.mp hnext
    cases heq
    exact hs
  · cases hnext

theorem copy (hs : Counts s refs) (hnext : s.next (.copy h) = some t) (hrefs : 0 < refs h)
    (hself : refs' h = refs h + 1) (hothers : ∀ k, k ≠ h → refs' k = refs k) :
    Counts t refs' := by
  obtain ⟨ptr, hptr⟩ := hs h hrefs
  simp only [Pool.next, hptr, Option.some.injEq] at hnext
  subst hnext
  refine hs.setAcquired (fun _ => ⟨ptr, ?_⟩) hothers
  have hcount : refs h - 1 + 1 = refs' h - 1 := by omega
  rw [hcount]

theorem drop (hs : Counts s refs) (hnext : s.next (.drop h) = some t) (hrefs : 0 < refs h)
    (hself : refs' h + 1 = refs h) (hothers : ∀ k, k ≠ h → refs' k = refs k) :
    Counts t refs' := by
  obtain ⟨ptr, hptr⟩ := hs h hrefs
  cases hcount : refs h - 1 with
  | zero =>
    simp only [Pool.next, hptr, hcount, Option.some.injEq] at hnext
    subst hnext
    exact hs.setAcquired (fun hpos => by omega) hothers
  | succ others =>
    simp only [Pool.next, hptr, hcount, Option.some.injEq] at hnext
    subst hnext
    refine hs.setAcquired (fun _ => ⟨ptr, ?_⟩) hothers
    have hleft : others = refs' h - 1 := by omega
    rw [hleft]

/-- release takes an object to which nothing refers any more. -/
theorem clear (hs : Counts s refs) (hnext : s.next (.clear h) = some t) : Counts t refs := by
  simp only [Pool.next] at hnext
  split at hnext
  · rename_i ptr hfound
    cases hnext
    refine setAcquired (s := { s with contents := _ }) hs ?_ fun _ _ => rfl
    intro hpos
    obtain ⟨_, hptr⟩ := hs h hpos
    cases hptr.symm.trans hfound
  · cases hnext

theorem pushBack (hs : Counts s refs) (hnext : s.next (.pushBack h) = some t) :
    Counts t refs := by
  simp only [Pool.next] at hnext
  split at hnext
  · rename_i ptr hfound
    cases hnext
    refine setAcquired (s := { s with pool := _ }) hs ?_ fun _ _ => rfl
    intro hpos
    obtain ⟨_, hptr⟩ := hs h hpos
    cases hptr.symm.trans hfound
  · cases hnext

end Counts

end References

end ChatServer.ObjectPool
