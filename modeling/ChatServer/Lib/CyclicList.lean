import Mathlib.Data.List.Rotate

/-!
Overwriting a block of a fixed-length list, and how that looks to a reader
that walks the list cyclically from some start. A cyclic reader at `p` sees
`l.rotate p`; a block written at the physical index `p + k`, wrapped once
around the end, lands at the logical index `k`.
-/
namespace ChatServer.Lib.CyclicList

variable {α : Type*}

/-- Replace the block of `l` that starts at `i` by `src`. -/
def overwrite (l : List α) (i : ℕ) (src : List α) : List α :=
  l.take i ++ src ++ l.drop (i + src.length)

@[simp]
theorem overwrite_nil (l : List α) (i : ℕ) : overwrite l i [] = l := by
  simp [overwrite]

theorem overwrite_length (l : List α) (i : ℕ) (src : List α)
    (h : i + src.length ≤ l.length) : (overwrite l i src).length = l.length := by
  simp only [overwrite, List.length_append, List.length_take, List.length_drop]
  omega

theorem overwrite_append_left (a b : List α) (i : ℕ) (src : List α)
    (h : i + src.length ≤ a.length) :
    overwrite (a ++ b) i src = overwrite a i src ++ b := by
  simp only [overwrite]
  rw [List.take_append_of_le_length (by omega), List.drop_append_of_le_length h]
  simp only [List.append_assoc]

theorem overwrite_append_right (a b : List α) (i : ℕ) (src : List α)
    (h : a.length ≤ i) :
    overwrite (a ++ b) i src = a ++ overwrite b (i - a.length) src := by
  have hsub : i + src.length - a.length = i - a.length + src.length := by omega
  simp only [overwrite]
  rw [List.take_append, List.drop_append, List.take_of_length_le h,
    List.drop_of_length_le (by omega), hsub]
  simp only [List.nil_append, List.append_assoc]

theorem overwrite_all (l src : List α) (h : src.length = l.length) :
    overwrite l 0 src = src := by
  rw [overwrite, List.take_zero, List.nil_append, List.drop_of_length_le (by omega),
    List.append_nil]

/-- Two adjacent blocks written one after the other are one block. -/
theorem overwrite_adjacent (l : List α) (i : ℕ) (a b : List α) (h : i ≤ l.length) :
    overwrite (overwrite l i a) (i + a.length) b = overwrite l i (a ++ b) := by
  have htake : (l.take i).length = i := List.length_take_of_le h
  have hhead : (l.take i ++ a).length = i + a.length := by
    rw [List.length_append, htake]
  have hsplit : overwrite l i a = (l.take i ++ a) ++ l.drop (i + a.length) := rfl
  rw [hsplit, ← hhead, overwrite_append_right _ _ _ _ (Nat.le_refl _)]
  simp only [overwrite, Nat.sub_self, List.take_zero, List.nil_append, Nat.zero_add,
    List.drop_drop, List.length_append, List.append_assoc, Nat.add_assoc, htake]

/-- A reader of the list up to the end of the block sees the old head and
then the block. -/
theorem take_overwrite (l : List α) (i : ℕ) (src : List α) (h : i ≤ l.length) :
    (overwrite l i src).take (i + src.length) = l.take i ++ src := by
  have hhead : (l.take i ++ src).length = i + src.length := by
    simp only [List.length_append, List.length_take]
    omega
  exact List.take_left' hhead

/-- A block that does not reach the end keeps its distance from the reader. -/
theorem rotate_overwrite_ahead (l : List α) (p k : ℕ) (src : List α)
    (hp : p ≤ l.length) (h : p + k + src.length ≤ l.length) :
    (overwrite l (p + k) src).rotate p = overwrite (l.rotate p) k src := by
  have htake : (l.take p).length = p := List.length_take_of_le hp
  have hdrop : k + src.length ≤ (l.drop p).length := by
    rw [List.length_drop]
    omega
  have hleft : overwrite l (p + k) src = l.take p ++ overwrite (l.drop p) k src := by
    conv_lhs => rw [← List.take_append_drop p l]
    rw [overwrite_append_right _ _ _ _ (by omega), htake]
    congr 2
    omega
  have hrotate : (l.take p ++ overwrite (l.drop p) k src).rotate p =
      overwrite (l.drop p) k src ++ l.take p := by
    have hturn := List.rotate_append_length_eq (l.take p) (overwrite (l.drop p) k src)
    rwa [htake] at hturn
  rw [hleft, hrotate, List.rotate_eq_drop_append_take hp,
    overwrite_append_left _ _ _ _ hdrop]

/-- A block written behind the reader lies past the end of the unwrapped part. -/
theorem rotate_overwrite_behind (l : List α) (p i : ℕ) (src : List α)
    (hp : p ≤ l.length) (h : i + src.length ≤ p) :
    (overwrite l i src).rotate p = overwrite (l.rotate p) (l.length - p + i) src := by
  have htake : (l.take p).length = p := List.length_take_of_le hp
  have hwritten : (overwrite (l.take p) i src).length = p := by
    rw [overwrite_length _ _ _ (by omega), htake]
  have hleft : overwrite l i src = overwrite (l.take p) i src ++ l.drop p := by
    conv_lhs => rw [← List.take_append_drop p l]
    exact overwrite_append_left _ _ _ _ (by omega)
  have hrotate : (overwrite (l.take p) i src ++ l.drop p).rotate p =
      l.drop p ++ overwrite (l.take p) i src := by
    have hturn := List.rotate_append_length_eq (overwrite (l.take p) i src) (l.drop p)
    rwa [hwritten] at hturn
  rw [hleft, hrotate, List.rotate_eq_drop_append_take hp,
    overwrite_append_right _ _ _ _ (by rw [List.length_drop]; omega), List.length_drop]
  congr 2
  omega

/-- The cyclic view is read off in at most two pieces. -/
theorem take_rotate (l : List α) (p n : ℕ) (hp : p ≤ l.length) (hn : n ≤ l.length) :
    (l.rotate p).take n =
      (l.drop p).take (min n (l.length - p)) ++ l.take (n - min n (l.length - p)) := by
  rw [List.rotate_eq_drop_append_take hp, List.take_append, List.length_drop,
    List.take_take]
  congr 1
  · rcases Nat.le_total n (l.length - p) with h | h
    · rw [Nat.min_eq_left h]
    · rw [Nat.min_eq_right h, List.take_of_length_le (by rw [List.length_drop]; exact h),
        List.take_of_length_le (by rw [List.length_drop])]
  · congr 1
    omega

/-- Moving the reader forward by `k` drops the first `k` elements it sees. -/
theorem take_rotate_advance (l : List α) (p k n : ℕ) (hk : k + n ≤ l.length) :
    (l.rotate ((p + k) % l.length)).take n = ((l.rotate p).take (k + n)).drop k := by
  have hlen : k ≤ (l.rotate p).length := by
    rw [List.length_rotate]
    omega
  rw [List.rotate_mod, ← List.rotate_rotate, List.rotate_eq_drop_append_take hlen,
    List.take_append_of_le_length (by rw [List.length_drop, List.length_rotate]; omega),
    List.drop_take, Nat.add_sub_cancel_left]

end ChatServer.Lib.CyclicList
