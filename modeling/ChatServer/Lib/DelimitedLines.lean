import Mathlib.Data.List.Basic

/-!
Streams of lines with a delimiter behind each. The complete lines of a list
and its unfinished last line are what the list is split into at the delimiter;
a reader that takes lines off the front and appends what arrives at the end
sees the lines of the whole stream, wherever it was cut.
-/
namespace ChatServer.Lib.DelimitedLines

variable {α : Type*}

/-- The lines, each with the delimiter behind it. -/
def unlines (d : α) (ls : List (List α)) : List α := ls.flatMap (· ++ [d])

@[simp]
theorem unlines_nil (d : α) : unlines d [] = [] := rfl

@[simp]
theorem unlines_cons (d : α) (l : List α) (ls : List (List α)) :
    unlines d (l :: ls) = l ++ d :: unlines d ls := by
  rw [unlines, List.flatMap_cons, List.append_assoc]
  rfl

theorem unlines_append (d : α) (ls ms : List (List α)) :
    unlines d (ls ++ ms) = unlines d ls ++ unlines d ms :=
  List.flatMap_append

theorem unlines_concat (d : α) (ls : List (List α)) (l : List α) :
    unlines d (ls ++ [l]) = unlines d ls ++ (l ++ [d]) := by
  rw [unlines_append, unlines_cons, unlines_nil]

section Split

variable [DecidableEq α] {d : α}

/-- What stands in front of the last delimiter, cut at the delimiters. -/
def lines (d : α) (s : List α) : List (List α) := (s.splitOn d).dropLast

def unfinished (d : α) (s : List α) : List α := (s.splitOn d).getLastD []

theorem lines_of_not_mem {s : List α} (h : d ∉ s) : lines d s = [] := by
  rw [lines, List.splitOn_eq_singleton h]
  rfl

theorem unfinished_of_not_mem {s : List α} (h : d ∉ s) : unfinished d s = s := by
  rw [unfinished, List.splitOn_eq_singleton h]
  rfl

theorem lines_line {l : List α} (h : d ∉ l) (r : List α) :
    lines d (l ++ d :: r) = l :: lines d r := by
  rw [lines, List.splitOn_append_cons_self_of_not_mem h,
    List.dropLast_cons_of_ne_nil (List.splitOn_ne_nil d r), lines]

theorem unfinished_line {l : List α} (h : d ∉ l) (r : List α) :
    unfinished d (l ++ d :: r) = unfinished d r := by
  rw [unfinished, List.splitOn_append_cons_self_of_not_mem h, unfinished]
  cases hr : r.splitOn d with
  | nil => exact absurd hr (List.splitOn_ne_nil d r)
  | cons m ms => rfl

/-- Lines taken off the front are those of the stream. -/
theorem lines_unlines_append {ls : List (List α)} (h : ∀ l ∈ ls, d ∉ l) (r : List α) :
    lines d (unlines d ls ++ r) = ls ++ lines d r := by
  induction ls with
  | nil => rfl
  | cons l ls ih =>
    rw [unlines_cons, List.append_assoc, List.cons_append, lines_line (h l List.mem_cons_self),
      ih fun m hm => h m (List.mem_cons_of_mem _ hm), List.cons_append]

theorem unfinished_unlines_append {ls : List (List α)} (h : ∀ l ∈ ls, d ∉ l) (r : List α) :
    unfinished d (unlines d ls ++ r) = unfinished d r := by
  induction ls with
  | nil => rfl
  | cons l ls ih =>
    rw [unlines_cons, List.append_assoc, List.cons_append,
      unfinished_line (h l List.mem_cons_self), ih fun m hm => h m (List.mem_cons_of_mem _ hm)]

/-- The lines of the front of a stream are the first of its lines. -/
theorem prefix_of_unlines {ls ms : List (List α)} (hls : ∀ l ∈ ls, d ∉ l) (hms : ∀ m ∈ ms, d ∉ m)
    {r : List α} (h : unlines d ls ++ r <+: unlines d ms) : ls <+: ms := by
  obtain ⟨rest, hrest⟩ := h
  have hlines : lines d (unlines d ms ++ []) = ms ++ lines d [] := lines_unlines_append hms []
  rw [List.append_nil, lines_of_not_mem List.not_mem_nil, List.append_nil, ← hrest,
    List.append_assoc, lines_unlines_append hls] at hlines
  exact ⟨_, hlines⟩

/-- The first delimiter, as a search from the front finds it. -/
theorem findIdx?_eq_some {s : List α} {i : ℕ} (h : s.findIdx? (· == d) = some i) :
    s = s.take i ++ d :: s.drop (i + 1) ∧ d ∉ s.take i := by
  obtain ⟨hi, hd, hbefore⟩ := List.findIdx?_eq_some_iff_getElem.mp h
  constructor
  · conv_lhs => rw [← List.take_append_drop i s, List.drop_eq_getElem_cons hi]
    rw [beq_iff_eq.mp hd]
  · intro hmem
    obtain ⟨j, hj, heq⟩ := List.mem_take_iff_getElem.mp hmem
    have hlt : j < i := by omega
    exact hbefore j hlt (beq_iff_eq.mpr heq)

theorem findIdx?_eq_none {s : List α} : s.findIdx? (· == d) = none ↔ d ∉ s := by
  rw [List.findIdx?_eq_none_iff]
  constructor
  · intro h hd
    exact absurd rfl (beq_eq_false_iff_ne.mp (h d hd))
  · rintro h x hx
    rw [beq_eq_false_iff_ne]
    rintro rfl
    exact h hx

end Split

end ChatServer.Lib.DelimitedLines
