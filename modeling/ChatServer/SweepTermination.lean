import Mathlib.Algebra.Order.BigOperators.Group.Finset
import ChatServer.IdleSweep

/-!
The loops of check_timeouts, turn by turn. The loop over a heap may put an
entry back in every turn, so the heap need not get smaller. But the entry that
is put back was compared with the same `now` as the entries that are taken off:
it is not due, and a turn leaves one entry less that is. Nothing is assumed of
what the heaps and the connection maps hold.
-/
namespace ChatServer.SweepTermination

open Broadcast Lib.Runs Lib.PriorityQueue IdleSweep

/-- Where check_timeouts is. -/
inductive Place
  /-- At the test of `while(!heap.empty())` for the first of the shards that are left. -/
  | sweeping (left : List (Fin numShards))
  /-- In the loop over the connections that have timed out. -/
  | closing (left : List ConnId)
  | returned
deriving DecidableEq

/-- The entries that were taken off the heap of each shard and those that were put on
it are history. -/
structure Sweep (H : Implementation TimerEvent TimerEvent.expiresAt) where
  place : Place
  heaps : Fin numShards → H.Queue
  timedOut : List ConnId
  popped : Fin numShards → List TimerEvent
  pushed : Fin numShards → List TimerEvent

variable {H : Implementation TimerEvent TimerEvent.expiresAt}

namespace Sweep

def start (heaps : Fin numShards → H.Queue) : Sweep H :=
  ⟨.sweeping (List.finRange numShards), heaps, [], fun _ => [], fun _ => []⟩

/-- `heap.pop()`, when this entry is at the top. -/
def pop (s : Sweep H) (i : Fin numShards) (event : TimerEvent) : Sweep H :=
  { s with
    heaps := Function.update s.heaps i (H.pop (s.heaps i))
    popped := Function.update s.popped i (s.popped i ++ [event]) }

/-- `heap.push` -/
def push (s : Sweep H) (i : Fin numShards) (event : TimerEvent) : Sweep H :=
  { s with
    heaps := Function.update s.heaps i (H.push event (s.heaps i))
    pushed := Function.update s.pushed i (s.pushed i ++ [event]) }

/-- A turn of the loop over the heap of a shard. The connection maps say what
`shards_[i].connections.find(fd)` gives. -/
def turn (connections : Fin numShards → ℕ → Option (ConnId × Conn)) (now : ℤ) (s : Sweep H)
    (i : Fin numShards) (left : List (Fin numShards)) : Sweep H :=
  match H.top (s.heaps i) with
  | none => { s with place := .sweeping left }
  | some event =>
      if now < event.expiresAt then { s with place := .sweeping left }
      else
        match connections i event.fd with
        | none => s.pop i event
        | some (c, conn) =>
            let expectedExpiry := conn.lastActivity + connectionTimeout
            if now < expectedExpiry then (s.pop i event).push i ⟨expectedExpiry, event.fd⟩
            else { s.pop i event with timedOut := s.timedOut ++ [c] }

def next (connections : Fin numShards → ℕ → Option (ConnId × Conn)) (now : ℤ) (s : Sweep H)
    (_ : Unit) : Option (Sweep H) :=
  match s.place with
  | .sweeping (i :: left) => some (s.turn connections now i left)
  | .sweeping [] => some { s with place := .closing s.timedOut }
  | .closing (_ :: left) => some { s with place := .closing left }
  | .closing [] => some { s with place := .returned }
  | .returned => none

end Sweep

/-- check_timeouts, from the heaps that it finds. -/
def machine (connections : Fin numShards → ℕ → Option (ConnId × Conn)) (now : ℤ)
    (heaps : Fin numShards → H.Queue) : Machine (Sweep H) Unit :=
  ⟨.start heaps, Sweep.next connections now⟩

variable {connections : Fin numShards → ℕ → Option (ConnId × Conn)} {now : ℤ}
  {heaps : Fin numShards → H.Queue} {s t : Sweep H} {i : Fin numShards}
  {left : List (Fin numShards)} {event : TimerEvent}

section Turn

/-- The turn that takes an entry off. -/
def takeOff (connections : Fin numShards → ℕ → Option (ConnId × Conn)) (now : ℤ) (s : Sweep H)
    (i : Fin numShards) (event : TimerEvent) : Sweep H where
  place := s.place
  heaps := Function.update s.heaps i ((again connections now i event).elim
    (H.pop (s.heaps i)) fun event' => H.push event' (H.pop (s.heaps i)))
  timedOut := s.timedOut ++ (expired connections now i event).toList
  popped := Function.update s.popped i (s.popped i ++ [event])
  pushed := Function.update s.pushed i (s.pushed i ++ (again connections now i event).toList)

theorem turn_of_due (htop : H.top (s.heaps i) = some event) (hdue : event.expiresAt ≤ now) :
    s.turn connections now i left = takeOff connections now s i event := by
  unfold Sweep.turn
  rw [htop]
  dsimp only
  rw [if_neg (not_lt.mpr hdue)]
  cases hfind : connections i event.fd with
  | none => simp [takeOff, again, expired, hfind, Sweep.pop]
  | some found =>
    obtain ⟨c, conn⟩ := found
    by_cases hlater : now < conn.lastActivity + connectionTimeout
    · simp [takeOff, again, expired, hfind, hlater, Sweep.pop, Sweep.push]
    · simp [takeOff, again, expired, hfind, hlater, Sweep.pop]

theorem turn_of_beyond (hbeyond : ∀ event, H.top (s.heaps i) = some event → now < event.expiresAt) :
    s.turn connections now i left = { s with place := .sweeping left } := by
  unfold Sweep.turn
  cases htop : H.top (s.heaps i) with
  | none => rfl
  | some event => exact if_pos (hbeyond event htop)

/-- What a step does. -/
inductive Moves (connections : Fin numShards → ℕ → Option (ConnId × Conn)) (now : ℤ)
    (s : Sweep H) : Sweep H → Prop
  | take {i : Fin numShards} {left : List (Fin numShards)} {event : TimerEvent}
      (hplace : s.place = .sweeping (i :: left)) (htop : H.top (s.heaps i) = some event)
      (hdue : event.expiresAt ≤ now) : Moves connections now s (takeOff connections now s i event)
  /-- No entry of the shard is due any more. -/
  | leave {i : Fin numShards} {left : List (Fin numShards)}
      (hplace : s.place = .sweeping (i :: left))
      (hbeyond : ∀ event, H.top (s.heaps i) = some event → now < event.expiresAt) :
      Moves connections now s { s with place := .sweeping left }
  | swept (hplace : s.place = .sweeping []) :
      Moves connections now s { s with place := .closing s.timedOut }
  | close {c : ConnId} {rest : List ConnId} (hplace : s.place = .closing (c :: rest)) :
      Moves connections now s { s with place := .closing rest }
  | finish (hplace : s.place = .closing []) :
      Moves connections now s { s with place := .returned }

theorem next_moves (a : Unit) (h : s.next connections now a = some t) :
    Moves connections now s t := by
  unfold Sweep.next at h
  split at h
  · rename_i i left hplace
    have hturn := Option.some.inj h
    rcases beyond_or_due (s.heaps i) now with hbeyond | ⟨event, htop, hdue⟩
    · rw [turn_of_beyond hbeyond] at hturn
      exact hturn ▸ .leave hplace hbeyond
    · rw [turn_of_due htop hdue] at hturn
      exact hturn ▸ .take hplace htop hdue
  · rename_i hplace
    cases h
    exact .swept hplace
  · rename_i c rest hplace
    cases h
    exact .close hplace
  · rename_i hplace
    cases h
    exact .finish hplace
  · cases h

end Turn

section Termination

/-- How many entries of the heap of a shard are due. -/
def countDue (now : ℤ) (s : Sweep H) (i : Fin numShards) : ℕ :=
  ((H.items (s.heaps i)).filter (·.expiresAt ≤ now)).card

/-- Twice the entries that are due, the connections that have timed out and what is left
of the loops. -/
def measure (now : ℤ) (s : Sweep H) : ℕ :=
  match s.place with
  | .sweeping left => 2 * ∑ i, countDue now s i + s.timedOut.length + left.length + 3
  | .closing left => left.length + 2
  | .returned => 0

section Sums

variable (connections)

/-- A turn of the loop over a heap takes one of the entries that are due. -/
theorem countDue_takeOff (htop : H.top (s.heaps i) = some event) (hdue : event.expiresAt ≤ now) :
    countDue now (takeOff connections now s i event) i + 1 = countDue now s i := by
  have hnext := due_next (again_later connections now i) htop hdue
  unfold countDue takeOff
  rw [hnext, Multiset.card_cons]
  simp only [Function.update_self]

theorem countDue_takeOff_ne {j : Fin numShards} (hne : j ≠ i) :
    countDue now (takeOff connections now s i event) j = countDue now s j := by
  unfold countDue takeOff
  simp only [Function.update_of_ne hne]

theorem sum_countDue (htop : H.top (s.heaps i) = some event) (hdue : event.expiresAt ≤ now) :
    ∑ j, countDue now (takeOff connections now s i event) j < ∑ j, countDue now s j := by
  have hone := countDue_takeOff connections htop hdue
  refine Finset.sum_lt_sum ?_ ⟨i, Finset.mem_univ i, by omega⟩
  intro j _
  by_cases hj : j = i
  · subst hj
    omega
  · rw [countDue_takeOff_ne connections hj]

theorem length_timedOut_takeOff (now : ℤ) (s : Sweep H) (i : Fin numShards) (event : TimerEvent) :
    (takeOff connections now s i event).timedOut.length ≤ s.timedOut.length + 1 := by
  have hone : (expired connections now i event).toList.length ≤ 1 := by
    cases expired connections now i event <;> simp
  unfold takeOff
  rw [List.length_append]
  omega

end Sums

theorem measure_lt (h : Moves connections now s t) : measure now t < measure now s := by
  cases h with
  | @take i left event hplace htop hdue =>
    have hsum := sum_countDue connections htop hdue
    have hlength := length_timedOut_takeOff connections now s i event
    have hsame : (takeOff connections now s i event).place = .sweeping (i :: left) := hplace
    unfold measure
    rw [hsame, hplace]
    dsimp only
    omega
  | leave hplace _ =>
    unfold measure
    rw [hplace]
    simp only [List.length_cons]
    change 2 * ∑ j, countDue now s j + _ + _ + 3 < _
    omega
  | swept hplace =>
    unfold measure
    rw [hplace]
    dsimp only
    omega
  | close hplace =>
    unfold measure
    rw [hplace]
    simp only [List.length_cons]
    omega
  | finish hplace =>
    unfold measure
    rw [hplace]
    simp

/-- Until check_timeouts has returned there is a step. -/
theorem exists_next (h : s.place ≠ .returned) : ∃ a t, s.next connections now a = some t := by
  refine ⟨(), ?_⟩
  unfold Sweep.next
  split
  · exact ⟨_, rfl⟩
  · exact ⟨_, rfl⟩
  · exact ⟨_, rfl⟩
  · exact ⟨_, rfl⟩
  · rename_i hplace
    exact absurd hplace h

theorem inevitable_returned (s : Sweep H) :
    Inevitable (machine connections now heaps) (fun t => t.place = .returned) s :=
  Inevitable.of_measure (P := fun _ => True) (measure now)
    (fun _ a _ _ hnext => ⟨trivial, measure_lt (next_moves a hnext)⟩)
    (fun _ _ hplace => exists_next hplace) trivial

end Termination

section Entries

/-- The shards whose heaps are still to be swept. -/
def Place.shardsLeft : Place → List (Fin numShards)
  | .sweeping left => left
  | .closing _ => []
  | .returned => []

/-- What the loops have done so far: of the entries that were due, those that are still
on a heap have not been taken off; what was put back is not due. -/
structure Draining (now : ℤ) (heaps : Fin numShards → H.Queue) (s : Sweep H) : Prop where
  taken : ∀ i, (s.popped i : Multiset TimerEvent) +
    (H.items (s.heaps i)).filter (·.expiresAt ≤ now) =
      (H.items (heaps i)).filter (·.expiresAt ≤ now)
  kept : ∀ i, (H.items (s.heaps i)).filter (now < ·.expiresAt) =
    (s.pushed i : Multiset TimerEvent) + (H.items (heaps i)).filter (now < ·.expiresAt)
  later : ∀ i, ∀ event ∈ s.pushed i, now < event.expiresAt
  swept : ∀ i, i ∉ s.place.shardsLeft → (H.items (s.heaps i)).filter (·.expiresAt ≤ now) = 0

namespace Draining

theorem start (now : ℤ) (heaps : Fin numShards → H.Queue) :
    Draining now heaps (Sweep.start heaps) where
  taken i := by simp [Sweep.start]
  kept i := by simp [Sweep.start]
  later i event h := by simp [Sweep.start] at h
  swept i h := absurd (List.mem_finRange i) h

theorem takeOff (h : Draining now heaps s) (hplace : s.place = .sweeping (i :: left))
    (htop : H.top (s.heaps i) = some event) (hdue : event.expiresAt ≤ now) :
    Draining now heaps (takeOff connections now s i event) := by
  have hagain := again_later connections now i
  refine ⟨?_, ?_, ?_, ?_⟩
  · intro j
    by_cases hj : j = i
    · subst hj
      simp only [SweepTermination.takeOff, Function.update_self]
      rw [← h.taken j, due_next hagain htop hdue, ← Multiset.coe_add, Multiset.coe_singleton,
        add_assoc, Multiset.singleton_add]
    · simp only [SweepTermination.takeOff, Function.update_of_ne hj]
      exact h.taken j
  · intro j
    by_cases hj : j = i
    · subst hj
      have hback : ((again connections now j event).toList : Multiset TimerEvent) =
          (again connections now j event).elim 0 fun event' => {event'} := by
        cases again connections now j event <;> rfl
      simp only [SweepTermination.takeOff, Function.update_self]
      rw [later_next hagain htop hdue, h.kept j, ← Multiset.coe_add, hback, ← add_assoc,
        add_comm (Option.elim _ _ _)]
    · simp only [SweepTermination.takeOff, Function.update_of_ne hj]
      exact h.kept j
  · intro j event' hevent'
    by_cases hj : j = i
    · subst hj
      simp only [SweepTermination.takeOff, Function.update_self, List.mem_append,
        Option.mem_toList] at hevent'
      rcases hevent' with hbefore | hback
      · exact h.later j event' hbefore
      · exact hagain event event' hback
    · simp only [SweepTermination.takeOff, Function.update_of_ne hj] at hevent'
      exact h.later j event' hevent'
  · intro j hj
    have hleft : (SweepTermination.takeOff connections now s i event).place.shardsLeft =
        i :: left := congrArg Place.shardsLeft hplace
    rw [hleft] at hj
    have hne : j ≠ i := fun heq => hj (heq ▸ List.mem_cons_self)
    simp only [SweepTermination.takeOff, Function.update_of_ne hne]
    exact h.swept j (by rw [hplace]; exact hj)

theorem leave (h : Draining now heaps s) (hplace : s.place = .sweeping (i :: left))
    (hbeyond : ∀ event, H.top (s.heaps i) = some event → now < event.expiresAt) :
    Draining now heaps { s with place := .sweeping left } := by
  refine ⟨h.taken, h.kept, h.later, ?_⟩
  intro j hj
  by_cases heq : j = i
  · subst heq
    exact (filter_of_beyond hbeyond).1
  · refine h.swept j ?_
    rw [hplace]
    exact List.not_mem_cons_of_ne_of_not_mem heq hj

/-- After the loop over the shards. -/
theorem move (h : Draining now heaps s) (hnone : s.place.shardsLeft = []) (place : Place) :
    Draining now heaps { s with place := place } :=
  ⟨h.taken, h.kept, h.later, fun j _ => h.swept j (hnone ▸ List.not_mem_nil)⟩

theorem step (h : Draining now heaps s) (hmoves : Moves connections now s t) :
    Draining now heaps t := by
  cases hmoves with
  | take hplace htop hdue => exact h.takeOff hplace htop hdue
  | leave hplace hbeyond => exact h.leave hplace hbeyond
  | swept hplace => exact h.move (congrArg Place.shardsLeft hplace) _
  | close hplace => exact h.move (congrArg Place.shardsLeft hplace) _
  | finish hplace => exact h.move (congrArg Place.shardsLeft hplace) _

theorem popped_le (h : Draining now heaps s) (i : Fin numShards) :
    (s.popped i : Multiset TimerEvent) ≤ (H.items (heaps i)).filter (·.expiresAt ≤ now) :=
  h.taken i ▸ Multiset.le_add_right _ _

theorem not_popped (h : Draining now heaps s) (hevent : event ∈ s.pushed i) :
    event ∉ s.popped i := by
  intro hpopped
  have hdue := Multiset.mem_of_le (h.popped_le i) (Multiset.mem_coe.mpr hpopped)
  exact absurd (h.later i event hevent) (not_lt.mpr (Multiset.mem_filter.mp hdue).2)

end Draining

theorem draining {allowed : Sweep H → Unit → Prop}
    (hs : Reachable (machine connections now heaps) allowed s) : Draining now heaps s :=
  hs.invariant (P := Draining now heaps) (Draining.start now heaps)
    fun _ a _ h _ hnext => h.step (next_moves a hnext)

/-- check_timeouts returns whatever the heaps and the connection maps hold. All along,
the entries taken off a heap are entries that were due, each as often as it was on the
heap, and none of them was put there by the sweep. In the end all of these have been
taken off, the entries that were not due and those that were put back are left, and
they expire after `now`. -/
theorem each_due_popped_once (connections : Fin numShards → ℕ → Option (ConnId × Conn)) (now : ℤ)
    (heaps : Fin numShards → H.Queue) :
    Inevitable (machine connections now heaps) (fun s => s.place = .returned)
      (Sweep.start heaps) ∧
    ∀ s, Reachable (machine connections now heaps) AnyStep s → ∀ i,
      (s.popped i : Multiset TimerEvent) ≤ (H.items (heaps i)).filter (·.expiresAt ≤ now) ∧
      (∀ event ∈ s.pushed i, event ∉ s.popped i) ∧
      (s.place = .returned →
        (s.popped i : Multiset TimerEvent) = (H.items (heaps i)).filter (·.expiresAt ≤ now) ∧
        H.items (s.heaps i) =
          (s.pushed i : Multiset TimerEvent) + (H.items (heaps i)).filter (now < ·.expiresAt) ∧
        ∀ event ∈ H.items (s.heaps i), now < event.expiresAt) := by
  refine ⟨inevitable_returned _, ?_⟩
  intro s hs i
  have h := draining hs
  refine ⟨h.popped_le i, fun event hevent => h.not_popped hevent, ?_⟩
  intro hplace
  have hnone := h.swept i (by rw [hplace]; exact List.not_mem_nil)
  have hafter : ∀ event ∈ H.items (s.heaps i), now < event.expiresAt := fun event hevent =>
    not_le.mp (Multiset.filter_eq_nil.mp hnone event hevent)
  refine ⟨?_, ?_, hafter⟩
  · rw [← h.taken i, hnone, add_zero]
  · rw [← h.kept i]
    exact (Multiset.filter_eq_self.mpr hafter).symm

end Entries

section Outcome

variable {server : Server H}

/-- What the shards that are left come to. -/
def outcome (server : Server H) (now : ℤ) (s : Sweep H) :
    (Fin numShards → H.Queue) × List ConnId :=
  s.place.shardsLeft.foldl (server.sweepShard now) (s.heaps, s.timedOut)

theorem sweepShard_takeOff (htop : H.top (s.heaps i) = some event)
    (hdue : event.expiresAt ≤ now) :
    server.sweepShard now ((takeOff server.find now s i event).heaps,
        (takeOff server.find now s i event).timedOut) i =
      server.sweepShard now (s.heaps, s.timedOut) i := by
  have hturn := drain_card_of_due (again_later server.find now i) htop hdue rfl
  rw [sweepShard_eq, sweepShard_eq, hturn]
  simp only [takeOff, Function.update_self, Function.update_idem, List.append_assoc]
  cases hexpired : expired server.find now i event with
  | none => rw [List.filterMap_cons_none hexpired, Option.toList_none, List.nil_append]
  | some c =>
    rw [List.filterMap_cons_some hexpired, Option.toList_some, List.singleton_append]

theorem sweepShard_of_beyond
    (hbeyond : ∀ event, H.top (s.heaps i) = some event → now < event.expiresAt) :
    server.sweepShard now (s.heaps, s.timedOut) i = (s.heaps, s.timedOut) := by
  rw [sweepShard_eq, drain_of_beyond hbeyond, Function.update_eq_self, List.filterMap_nil,
    List.append_nil]

/-- A turn leaves what the loops come to in the end as it is. -/
theorem outcome_step (hmoves : Moves server.find now s t) :
    outcome server now t = outcome server now s := by
  cases hmoves with
  | @take i left event hplace htop hdue =>
    have hsame : (takeOff server.find now s i event).place = .sweeping (i :: left) := hplace
    unfold outcome
    rw [hsame, hplace]
    exact congrArg (left.foldl (server.sweepShard now)) (sweepShard_takeOff htop hdue)
  | leave hplace hbeyond =>
    unfold outcome
    rw [hplace]
    exact (congrArg (List.foldl _ · _) (sweepShard_of_beyond hbeyond)).symm
  | swept hplace =>
    unfold outcome
    rw [hplace]
    rfl
  | close hplace =>
    unfold outcome
    rw [hplace]
    rfl
  | finish hplace =>
    unfold outcome
    rw [hplace]
    rfl

/-- The turns compute what checkTimeouts says of the server. -/
theorem checkTimeouts_of_returned {allowed : Sweep H → Unit → Prop}
    (hs : Reachable (machine server.find now server.heaps) allowed s)
    (hplace : s.place = .returned) :
    server.checkTimeouts now =
      s.timedOut.foldl Server.closeConn { server with clock := now, heaps := s.heaps } := by
  have houtcome : outcome server now s = outcome server now (.start server.heaps) :=
    hs.invariant (P := fun t => outcome server now t = outcome server now (.start server.heaps))
      rfl fun _ a _ h _ hnext => (outcome_step (next_moves a hnext)).trans h
  have hend : outcome server now s = (s.heaps, s.timedOut) := by
    unfold outcome
    rw [hplace]
    rfl
  have hswept : (List.finRange numShards).foldl (server.sweepShard now) (server.heaps, []) =
      (s.heaps, s.timedOut) := houtcome.symm.trans hend
  unfold Server.checkTimeouts
  rw [hswept]

end Outcome

end ChatServer.SweepTermination
