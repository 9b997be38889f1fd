import Mathlib.Logic.Function.Basic

/-!
Who holds a mutex. Each thread is at a place where it holds the mutex or not, and the
mutex has the name of its holder; other threads, of which nothing is known, may hold it
as well. There are a lemma for a thread that takes the mutex, one for a thread that
releases it, and one for the steps that do neither.
-/
namespace ChatServer.Lib.Mutex

variable {ι Θ : Type*} {name : ι → Θ} {holds holds' : ι → Bool} {mutex mutex' : Option Θ}
  {i j : ι}

/-- The threads are where they hold the mutex exactly when it has their name. -/
def Exclusive (name : ι → Θ) (holds : ι → Bool) (mutex : Option Θ) : Prop :=
  ∀ i, holds i = true ↔ mutex = some (name i)

namespace Exclusive

theorem congr (h : Exclusive name holds mutex) (hsame : ∀ i, holds' i = holds i) :
    Exclusive name holds' mutex := by
  intro i
  rw [hsame i]
  exact h i

theorem acquire (h : Exclusive name holds mutex) (hname : Function.Injective name)
    (hfree : mutex = none) (hself : holds' i = true)
    (hothers : ∀ j, j ≠ i → holds' j = holds j) : Exclusive name holds' (some (name i)) := by
  intro j
  by_cases hj : j = i
  · subst hj
    exact iff_of_true hself rfl
  · refine iff_of_false ?_ ?_
    · rw [hothers j hj]
      intro hheld
      cases hfree.symm.trans ((h j).mp hheld)
    · intro heq
      exact hj (hname (Option.some.inj heq)).symm

theorem release (h : Exclusive name holds mutex) (hname : Function.Injective name)
    (hheld : holds i = true) (hself : holds' i = false)
    (hothers : ∀ j, j ≠ i → holds' j = holds j) : Exclusive name holds' none := by
  intro j
  refine iff_of_false ?_ nofun
  by_cases hj : j = i
  · subst hj
    rw [hself]
    exact Bool.false_ne_true
  · rw [hothers j hj]
    intro hheld'
    exact hj (hname (Option.some.inj (((h i).mp hheld).symm.trans ((h j).mp hheld')))).symm

/-- A thread that has no name here takes the mutex or releases it. -/
theorem other (h : Exclusive name holds mutex) (hmutex : ∀ i, mutex ≠ some (name i))
    (hmutex' : ∀ i, mutex' ≠ some (name i)) : Exclusive name holds mutex' := by
  intro i
  exact iff_of_false (fun hheld => hmutex i ((h i).mp hheld)) (hmutex' i)

theorem unique (h : Exclusive name holds mutex) (hname : Function.Injective name)
    (hi : holds i = true) (hj : holds j = true) : i = j :=
  hname (Option.some.inj (((h i).mp hi).symm.trans ((h j).mp hj)))

end Exclusive

end ChatServer.Lib.Mutex
