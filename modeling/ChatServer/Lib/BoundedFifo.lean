import Mathlib.Data.List.Basic

/-!
A queue of bounded length. A block that does not fit is cut, so a queue never
exceeds its bound, and what is asked for beyond the items is not there.
-/
namespace ChatServer.Lib

structure BoundedFifo (α : Type*) (bound : ℕ) where
  items : List α
  length_le : items.length ≤ bound

namespace BoundedFifo

variable {α : Type*} {bound : ℕ}

def empty : BoundedFifo α bound := ⟨[], Nat.zero_le _⟩

def free (q : BoundedFifo α bound) : ℕ := bound - q.items.length

/-- The items of the block that fit are put at the end. -/
def push (q : BoundedFifo α bound) (block : List α) : BoundedFifo α bound where
  items := q.items ++ block.take q.free
  length_le := by
    have hle := q.length_le
    rw [List.length_append, List.length_take, free]
    omega

/-- Items are taken off the front. -/
def pop (q : BoundedFifo α bound) (n : ℕ) : BoundedFifo α bound where
  items := q.items.drop n
  length_le := by
    rw [List.length_drop]
    exact Nat.le_trans (Nat.sub_le _ _) q.length_le

theorem items_push (q : BoundedFifo α bound) (block : List α) :
    (q.push block).items = q.items ++ block.take q.free := rfl

theorem items_push_of_fits {q : BoundedFifo α bound} {block : List α}
    (h : block.length ≤ q.free) : (q.push block).items = q.items ++ block := by
  rw [items_push, List.take_of_length_le h]

end BoundedFifo

end ChatServer.Lib
