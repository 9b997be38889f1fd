import Mathlib.Algebra.Order.Ring.Cast
import Mathlib.Algebra.Order.Ring.Defs
import Mathlib.Data.Finset.Max
import Mathlib.Order.Interval.Finset.Nat
import Mathlib.Tactic.Linarith
import Mathlib.Tactic.Ring

/-!
Token buckets. A bucket is filled with one token for each unit of time, up to
its capacity, and each request takes a token. What a bucket holds is the least
balance over the windows that end at present, so a full bucket refuses a request
as soon as some window has more requests than the capacity and its length.
-/
namespace ChatServer.Lib.TokenBucket

structure Bucket (K : Type*) where
  tokens : K
  lastRefill : K
deriving DecidableEq

variable {K : Type*} [CommRing K] [LinearOrder K]

namespace Bucket

def refill (capacity now : K) (b : Bucket K) : Bucket K :=
  ⟨min capacity (b.tokens + (now - b.lastRefill)), now⟩

def take (b : Bucket K) : Bucket K := { b with tokens := b.tokens - 1 }

end Bucket

variable {capacity start : K} {t : ℕ → K} {n : ℕ}

/-- The bucket after `n` requests, which came at the times `t`. -/
def after (capacity start : K) (t : ℕ → K) : ℕ → Bucket K
  | 0 => ⟨capacity, start⟩
  | n + 1 => ((after capacity start t n).refill capacity (t n)).take

/-- What a request finds in the bucket. -/
def level (capacity start : K) (t : ℕ → K) (n : ℕ) : K :=
  ((after capacity start t n).refill capacity (t n)).tokens

/-- Some window that ends with the request `j` has more requests than the
capacity and its length. -/
def Exceeds (capacity : K) (t : ℕ → K) (j : ℕ) : Prop :=
  ∃ i ≤ j, capacity + (t j - t i) < (j - i + 1 : ℕ)

theorem level_succ : level capacity start t (n + 1) =
    min capacity (level capacity start t n - 1 + (t (n + 1) - t n)) := rfl

theorem level_le_capacity : level capacity start t n ≤ capacity := min_le_left _ _

/-- The bucket depends on the requests so far only. -/
theorem after_congr {t' : ℕ → K} (h : ∀ k < n, t k = t' k) :
    after capacity start t n = after capacity start t' n := by
  induction n with
  | zero => rfl
  | succ n ih =>
    rw [after, after, ih fun k hk => h k (Nat.lt_succ_of_lt hk), h n (Nat.lt_succ_self n)]

section Windows

variable [IsStrictOrderedRing K]

theorem level_zero (hstart : start ≤ t 0) : level capacity start t 0 = capacity := by
  have hle : capacity ≤ capacity + (t 0 - start) := by linarith
  exact min_eq_left hle

/-- The bucket holds no more than the balance of a window. -/
theorem level_le {i : ℕ} (hi : i ≤ n) :
    level capacity start t n ≤ capacity + (t n - t i) - (n - i : ℕ) := by
  induction n, hi using Nat.le_induction with
  | base =>
    have hle : level capacity start t i ≤ capacity := level_le_capacity
    simpa using hle
  | succ n hi ih =>
    have hle : level capacity start t (n + 1) ≤
        level capacity start t n - 1 + (t (n + 1) - t n) := min_le_right _ _
    rw [Nat.succ_sub hi, Nat.cast_succ]
    linarith

/-- It holds the balance of some window. -/
theorem exists_level (capacity : K) (hstart : start ≤ t 0) (n : ℕ) :
    ∃ i ≤ n, level capacity start t n = capacity + (t n - t i) - (n - i : ℕ) := by
  induction n with
  | zero => exact ⟨0, le_refl 0, by simp [level_zero hstart]⟩
  | succ n ih =>
    obtain ⟨i, hi, hlevel⟩ := ih
    rcases min_choice capacity (level capacity start t n - 1 + (t (n + 1) - t n)) with h | h
    · exact ⟨n + 1, le_refl _, by simp [level_succ, h]⟩
    · refine ⟨i, hi.trans (Nat.le_succ n), ?_⟩
      rw [level_succ, h, hlevel, Nat.succ_sub hi, Nat.cast_succ]
      ring

theorem level_lt_one (hstart : start ≤ t 0) (j : ℕ) :
    level capacity start t j < 1 ↔ Exceeds capacity t j := by
  constructor
  · intro hlow
    obtain ⟨i, hi, hlevel⟩ := exists_level capacity hstart j
    refine ⟨i, hi, ?_⟩
    rw [Nat.cast_add_one]
    linarith
  · intro ⟨i, hi, hmore⟩
    have hle : level capacity start t j ≤ _ := level_le hi
    rw [Nat.cast_add_one] at hmore
    linarith

/-- While no request exceeds, the bucket is never overdrawn. -/
theorem after_tokens (hcapacity : 0 ≤ capacity) (hstart : n = 0 ∨ start ≤ t 0)
    (h : ∀ j < n, ¬ Exceeds capacity t j) :
    0 ≤ (after capacity start t n).tokens ∧ (after capacity start t n).tokens ≤ capacity := by
  cases n with
  | zero => exact ⟨hcapacity, le_refl _⟩
  | succ n =>
    change 0 ≤ level capacity start t n - 1 ∧ level capacity start t n - 1 ≤ capacity
    have hstart : start ≤ t 0 := hstart.resolve_left (Nat.succ_ne_zero n)
    have hfound := h n (Nat.lt_succ_self n)
    rw [← level_lt_one hstart, not_lt] at hfound
    have hle : level capacity start t n ≤ capacity := level_le_capacity
    constructor
    · linarith
    · linarith

/-- Of requests that do not exceed, few enough are in each window of time. -/
theorem card_window_le (hcapacity : 0 ≤ capacity) {requests : Finset ℕ} {a T : K} (hT : 0 ≤ T)
    (hwindow : ∀ k ∈ requests, a ≤ t k ∧ t k ≤ a + T)
    (hwithin : ∀ j ∈ requests, ¬ Exceeds capacity t j) :
    (requests.card : K) ≤ capacity + T := by
  rcases requests.eq_empty_or_nonempty with hempty | hnonempty
  · rw [hempty, Finset.card_empty, Nat.cast_zero]
    linarith
  · set i := requests.min' hnonempty with hi
    set j := requests.max' hnonempty with hj
    have hij : i ≤ j := requests.min'_le j (requests.max'_mem hnonempty)
    have hfrom := (hwindow i (requests.min'_mem hnonempty)).1
    have hto := (hwindow j (requests.max'_mem hnonempty)).2
    have hsubset : requests ⊆ Finset.Icc i j := by
      intro k hk
      exact Finset.mem_Icc.mpr ⟨requests.min'_le k hk, requests.le_max' k hk⟩
    have hcard : requests.card ≤ j - i + 1 := by
      have hle := Finset.card_le_card hsubset
      rw [Nat.card_Icc] at hle
      omega
    have hlimit : ((j - i + 1 : ℕ) : K) ≤ capacity + (t j - t i) := by
      by_contra hmore
      exact hwithin j (requests.max'_mem hnonempty) ⟨i, hij, not_le.mp hmore⟩
    calc
      (requests.card : K) ≤ (j - i + 1 : ℕ) := Nat.cast_le.mpr hcard
      _ ≤ capacity + (t j - t i) := hlimit
      _ ≤ capacity + T := by linarith

end Windows

end ChatServer.Lib.TokenBucket
