import Mathlib.Data.List.Sort
import Mathlib.Data.Multiset.Filter

/-!
Priority queues that yield an item of least rank first, and the loop that takes
the items off a queue up to a bound. The items of a queue are a multiset: in
which order items of the same rank are yielded is left open. The loop may put
an item back with a rank beyond the bound.
-/
namespace ChatServer.Lib.PriorityQueue

variable {α κ : Type*} [LinearOrder κ]

/-- An implementation of queues of items, ordered by `rank`. -/
structure Implementation (α : Type*) {κ : Type*} [LinearOrder κ] (rank : α → κ) where
  Queue : Type
  empty : Queue
  push : α → Queue → Queue
  top : Queue → Option α
  pop : Queue → Queue
  items : Queue → Multiset α
  items_empty : items empty = 0
  items_push : ∀ a q, items (push a q) = a ::ₘ items q
  top_none : ∀ q, top q = none → items q = 0
  top_le : ∀ q a, top q = some a → ∀ b ∈ items q, rank a ≤ rank b
  items_pop : ∀ q a, top q = some a → items q = a ::ₘ items (pop q)

section Drain

variable {rank : α → κ} (I : Implementation α rank)

/-- Take off the items up to the bound, in at most `fuel` turns; an item `a` is
put back as `again a`. -/
def drain (bound : κ) (again : α → Option α) : ℕ → I.Queue → List α × I.Queue
  | 0, q => ([], q)
  | fuel + 1, q =>
      match I.top q with
      | none => ([], q)
      | some a =>
          if bound < rank a then ([], q)
          else
            let rest := drain bound again fuel ((again a).elim (I.pop q) fun b =>
              I.push b (I.pop q))
            (a :: rest.1, rest.2)

variable {I} {bound : κ} {again : α → Option α}

theorem items_again (q : I.Queue) (b : Option α) :
    I.items (b.elim q fun b => I.push b q) = (b.elim 0 fun b => {b}) + I.items q := by
  cases b with
  | none => simp
  | some b => simp [I.items_push]

/-- A turn of the loop takes one item up to the bound. -/
theorem due_next (hagain : ∀ a b, again a = some b → bound < rank b) {q : I.Queue} {a : α}
    (htop : I.top q = some a) (hdue : rank a ≤ bound) :
    (I.items q).filter (rank · ≤ bound) =
      a ::ₘ (I.items ((again a).elim (I.pop q) fun b => I.push b (I.pop q))).filter
        (rank · ≤ bound) := by
  have hback : ((again a).elim 0 fun b => ({b} : Multiset α)).filter (rank · ≤ bound) = 0 := by
    cases hb : again a with
    | none => simp
    | some b => simp [hagain a b hb]
  rw [items_again, Multiset.filter_add, hback, Multiset.zero_add, I.items_pop q a htop]
  exact Multiset.filter_cons_of_pos _ hdue

/-- What a turn of the loop leaves for later. -/
theorem later_next (hagain : ∀ a b, again a = some b → bound < rank b) {q : I.Queue} {a : α}
    (htop : I.top q = some a) (hdue : rank a ≤ bound) :
    (I.items ((again a).elim (I.pop q) fun b => I.push b (I.pop q))).filter (bound < rank ·) =
      ((again a).elim 0 fun b => {b}) + (I.items q).filter (bound < rank ·) := by
  have hback : ((again a).elim 0 fun b => ({b} : Multiset α)).filter (bound < rank ·) =
      (again a).elim 0 fun b => {b} := by
    cases hb : again a with
    | none => simp
    | some b => simp [hagain a b hb]
  have hlater : (a ::ₘ I.items (I.pop q)).filter (bound < rank ·) =
      (I.items (I.pop q)).filter (bound < rank ·) :=
    Multiset.filter_cons_of_neg _ (not_lt.mpr hdue)
  rw [items_again, Multiset.filter_add, hback, I.items_pop q a htop, hlater]

/-- When the loop has come to an item beyond the bound, all items are beyond it. -/
theorem filter_of_beyond {q : I.Queue} (h : ∀ a, I.top q = some a → bound < rank a) :
    (I.items q).filter (rank · ≤ bound) = 0 ∧ (I.items q).filter (bound < rank ·) = I.items q := by
  have hbeyond : ∀ a ∈ I.items q, bound < rank a := by
    intro a ha
    cases htop : I.top q with
    | none =>
      rw [I.top_none q htop] at ha
      exact absurd ha (Multiset.notMem_zero a)
    | some b => exact lt_of_lt_of_le (h b htop) (I.top_le q b htop a ha)
  exact ⟨Multiset.filter_eq_nil.mpr fun a ha => not_le.mpr (hbeyond a ha),
    Multiset.filter_eq_self.mpr hbeyond⟩

/-- The loop stops where it is when no item is due. -/
theorem drain_of_beyond {q : I.Queue} (h : ∀ a, I.top q = some a → bound < rank a) (fuel : ℕ) :
    drain I bound again fuel q = ([], q) := by
  cases fuel with
  | zero => rfl
  | succ fuel =>
    unfold drain
    cases htop : I.top q with
    | none => rfl
    | some a => exact if_pos (h a htop)

theorem drain_of_due {q : I.Queue} {a : α} (htop : I.top q = some a) (hdue : rank a ≤ bound)
    (fuel : ℕ) :
    drain I bound again (fuel + 1) q =
      (a :: (drain I bound again fuel ((again a).elim (I.pop q) fun b => I.push b (I.pop q))).1,
        (drain I bound again fuel ((again a).elim (I.pop q) fun b => I.push b (I.pop q))).2) := by
  rw [drain, htop]
  exact if_neg (not_lt.mpr hdue)

theorem beyond_or_due (q : I.Queue) (bound : κ) :
    (∀ a, I.top q = some a → bound < rank a) ∨ ∃ a, I.top q = some a ∧ rank a ≤ bound := by
  by_cases h : ∃ a, I.top q = some a ∧ rank a ≤ bound
  · exact Or.inr h
  · exact Or.inl fun a ha => not_le.mp fun hle => h ⟨a, ha, hle⟩

/-- With no fuel left the loop has ended. -/
theorem beyond_of_card {q : I.Queue} (h : ((I.items q).filter (rank · ≤ bound)).card ≤ 0) :
    ∀ a, I.top q = some a → bound < rank a := by
  intro a ha
  have hnone := Multiset.card_eq_zero.mp (Nat.le_zero.mp h)
  refine not_le.mp (Multiset.filter_eq_nil.mp hnone a ?_)
  rw [I.items_pop q a ha]
  exact Multiset.mem_cons_self a _

/-- The loop takes each item up to the bound once, and nothing else: it leaves
the items beyond the bound and those that were put back. -/
theorem drain_spec (hagain : ∀ a b, again a = some b → bound < rank b) {fuel : ℕ} {q : I.Queue}
    (hfuel : ((I.items q).filter (rank · ≤ bound)).card ≤ fuel) :
    ((drain I bound again fuel q).1 : Multiset α) = (I.items q).filter (rank · ≤ bound) ∧
      I.items (drain I bound again fuel q).2 =
        (I.items q).filter (bound < rank ·) +
          ((I.items q).filter (rank · ≤ bound)).filterMap again := by
  induction fuel generalizing q with
  | zero =>
    obtain ⟨hdue, hlater⟩ := filter_of_beyond (beyond_of_card hfuel)
    simp [drain, hdue, hlater]
  | succ fuel ih =>
    rcases beyond_or_due q bound with hbeyond | ⟨a, htop, hdue⟩
    · obtain ⟨hnone, hlater⟩ := filter_of_beyond hbeyond
      simp [drain_of_beyond hbeyond, hnone, hlater]
    · rw [due_next hagain htop hdue, Multiset.card_cons] at hfuel
      obtain ⟨htaken, hleft⟩ := ih (Nat.le_of_succ_le_succ hfuel)
      rw [drain_of_due htop hdue, due_next hagain htop hdue, ← Multiset.cons_coe, htaken, hleft,
        later_next hagain htop hdue]
      refine ⟨rfl, ?_⟩
      cases hb : again a with
      | none => simp [Multiset.filterMap_cons_none _ _ hb]
      | some b =>
        rw [Multiset.filterMap_cons_some _ _ _ hb]
        simp [Multiset.singleton_add]

/-- More fuel makes no difference. -/
theorem drain_of_le (hagain : ∀ a b, again a = some b → bound < rank b) {fuel fuel' : ℕ}
    {q : I.Queue} (hfuel : ((I.items q).filter (rank · ≤ bound)).card ≤ fuel)
    (hfuel' : fuel ≤ fuel') : drain I bound again fuel' q = drain I bound again fuel q := by
  induction fuel generalizing q fuel' with
  | zero =>
    have hbeyond := beyond_of_card hfuel
    rw [drain_of_beyond hbeyond, drain_of_beyond hbeyond]
  | succ fuel ih =>
    rcases beyond_or_due q bound with hbeyond | ⟨a, htop, hdue⟩
    · rw [drain_of_beyond hbeyond, drain_of_beyond hbeyond]
    · obtain ⟨more, rfl⟩ := Nat.exists_eq_add_of_le hfuel'
      rw [due_next hagain htop hdue, Multiset.card_cons] at hfuel
      rw [Nat.add_right_comm, drain_of_due htop hdue, drain_of_due htop hdue,
        ih (Nat.le_of_succ_le_succ hfuel) (Nat.le_add_right fuel more)]

theorem card_due_le {fuel : ℕ} {q : I.Queue} (hfuel : (I.items q).card ≤ fuel) :
    ((I.items q).filter (rank · ≤ bound)).card ≤ fuel :=
  (Multiset.card_le_card (Multiset.filter_le _ _)).trans hfuel

/-- A turn of the loop that runs until no item is due. -/
theorem drain_card_of_due (hagain : ∀ a b, again a = some b → bound < rank b) {q q' : I.Queue}
    {a : α} (htop : I.top q = some a) (hdue : rank a ≤ bound)
    (hq' : q' = (again a).elim (I.pop q) fun b => I.push b (I.pop q)) :
    drain I bound again (I.items q).card q =
      (a :: (drain I bound again (I.items q').card q').1,
        (drain I bound again (I.items q').card q').2) := by
  have hone := congrArg Multiset.card (due_next hagain htop hdue)
  rw [Multiset.card_cons, ← hq'] at hone
  have hcard : ((I.items q).filter (rank · ≤ bound)).card ≤ (I.items q).card :=
    card_due_le (le_refl _)
  have hcard' : ((I.items q').filter (rank · ≤ bound)).card ≤ (I.items q').card :=
    card_due_le (le_refl _)
  rw [drain_of_le hagain (le_refl _) hcard, drain_of_le hagain (le_refl _) hcard', hone,
    drain_of_due htop hdue, ← hq']

/-- What is left in the queue. -/
theorem mem_drain (hagain : ∀ a b, again a = some b → bound < rank b) {fuel : ℕ} {q : I.Queue}
    (hfuel : (I.items q).card ≤ fuel) {b : α} :
    b ∈ I.items (drain I bound again fuel q).2 ↔
      (b ∈ I.items q ∧ bound < rank b) ∨
        ∃ a, (a ∈ I.items q ∧ rank a ≤ bound) ∧ again a = some b := by
  rw [(drain_spec hagain (card_due_le hfuel)).2]
  simp only [Multiset.mem_add, Multiset.mem_filter, Multiset.mem_filterMap]

/-- What was taken off the queue. -/
theorem mem_drained (hagain : ∀ a b, again a = some b → bound < rank b) {fuel : ℕ} {q : I.Queue}
    (hfuel : (I.items q).card ≤ fuel) {a : α} :
    a ∈ (drain I bound again fuel q).1 ↔ a ∈ I.items q ∧ rank a ≤ bound := by
  rw [← Multiset.mem_coe, (drain_spec hagain (card_due_le hfuel)).1, Multiset.mem_filter]

end Drain

section Sorted

/-- Queues as sorted lists. -/
def sorted {α : Type} (rank : α → κ) : Implementation α rank where
  Queue := { l : List α // l.Pairwise (Order.Preimage rank (· ≤ ·)) }
  empty := ⟨[], .nil⟩
  push a q := ⟨q.1.orderedInsert (Order.Preimage rank (· ≤ ·)) a, q.2.orderedInsert a _⟩
  top q := q.1.head?
  pop q := ⟨q.1.tail, q.2.tail⟩
  items q := q.1
  items_empty := rfl
  items_push a q := Multiset.coe_eq_coe.mpr (List.perm_orderedInsert _ a q.1)
  top_none q h := by
    rw [List.head?_eq_none_iff.mp h]
    rfl
  top_le q a h b hb := by
    obtain ⟨l, hl⟩ := List.head?_eq_some_iff.mp h
    have hsorted := q.2
    rw [Multiset.mem_coe, hl] at hb
    rw [hl] at hsorted
    rcases List.mem_cons.mp hb with rfl | hb
    · exact le_refl _
    · exact List.rel_of_pairwise_cons hsorted hb
  items_pop q a h := by
    obtain ⟨l, hl⟩ := List.head?_eq_some_iff.mp h
    change (q.1 : Multiset α) = a ::ₘ (q.1.tail : Multiset α)
    rw [hl]
    rfl

end Sorted

end ChatServer.Lib.PriorityQueue
