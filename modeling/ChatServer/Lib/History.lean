import Mathlib.Data.List.Induction

/-!
Histories. A history is a list of entries, oldest first, to which a system
only appends. It is justified if each entry stands in a given relation to the
entries before it, which is a statement about the order of entries that can be
proved one entry at a time.
-/
namespace ChatServer.Lib.History

variable {ε : Type*}

/-- Every entry is related to what came before it. -/
def Justified (P : List ε → ε → Prop) (log : List ε) : Prop :=
  ∀ before e after, log = before ++ e :: after → P before e

namespace Justified

variable {P : List ε → ε → Prop} {log : List ε}

theorem nil : Justified P [] := by
  intro before e after h
  simp at h

theorem snoc {e : ε} (h : Justified P log) (he : P log e) : Justified P (log ++ [e]) := by
  intro before e' after hsplit
  rcases List.eq_nil_or_concat after with rfl | ⟨after', last, rfl⟩
  · obtain ⟨rfl, hlast⟩ := List.append_inj' hsplit rfl
    cases hlast
    exact he
  · rw [List.concat_eq_append, ← List.cons_append, ← List.append_assoc] at hsplit
    obtain ⟨hlog, _⟩ := List.append_inj' hsplit rfl
    exact h before e' after' hlog

end Justified

end ChatServer.Lib.History
