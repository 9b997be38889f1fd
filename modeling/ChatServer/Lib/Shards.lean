import Mathlib.Algebra.BigOperators.Group.Finset.Basic
import Mathlib.Data.Fintype.Basic
import Mathlib.Data.List.AList

/-!
Maps that are split into shards. The index of a key tells the shard in which
it is kept, so a map is a family of association lists with no key outside of
its own shard. Its size is the sum of the sizes of the shards.
-/
namespace ChatServer.Lib.Shards

variable {κ ι β : Type*} [DecidableEq κ]

structure ShardedMap (index : κ → ι) (β : Type*) where
  shards : ι → AList fun _ : κ => β
  home : ∀ i, ∀ k ∈ shards i, index k = i

namespace ShardedMap

variable {index : κ → ι} {k k' : κ} {v : β}

def empty : ShardedMap index β := ⟨fun _ => ∅, fun _ _ h => absurd h (AList.notMem_empty _)⟩

def lookup (m : ShardedMap index β) (k : κ) : Option β := (m.shards (index k)).lookup k

@[simp]
theorem lookup_empty (k : κ) : (empty : ShardedMap index β).lookup k = none :=
  AList.lookup_empty k

/-- Each shard finds only the keys of its own. -/
theorem index_of_lookup (m : ShardedMap index β) {i : ι} (h : (m.shards i).lookup k = some v) :
    index k = i ∧ m.lookup k = some v := by
  have hmem : k ∈ m.shards i := by
    rw [← AList.lookup_isSome, h]
    rfl
  have hi := m.home i k hmem
  refine ⟨hi, ?_⟩
  rw [lookup, hi]
  exact h

/-- The map has the value under some key. -/
def Has (m : ShardedMap index β) (v : β) : Prop := ∃ i, ∃ e ∈ (m.shards i).entries, e.2 = v

instance [Fintype ι] [DecidableEq β] (m : ShardedMap index β) (v : β) : Decidable (m.Has v) :=
  inferInstanceAs (Decidable (∃ i, ∃ e ∈ (m.shards i).entries, e.2 = v))

theorem has_iff (m : ShardedMap index β) : m.Has v ↔ ∃ k, m.lookup k = some v := by
  constructor
  · rintro ⟨i, ⟨k, v⟩, he, rfl⟩
    exact ⟨k, (m.index_of_lookup (AList.mem_lookup_iff.mpr he)).2⟩
  · intro ⟨k, hk⟩
    exact ⟨index k, ⟨k, v⟩, AList.mem_lookup_iff.mp hk, rfl⟩

section Update

variable [DecidableEq ι]

theorem insert_home (m : ShardedMap index β) (k : κ) (v : β) (i : ι) :
    ∀ k' ∈ Function.update m.shards (index k) ((m.shards (index k)).insert k v) i,
      index k' = i := by
  intro k' hk'
  rw [Function.update_apply] at hk'
  split at hk'
  · rename_i hi
    rcases (AList.mem_insert _).mp hk' with rfl | hk'
    · exact hi.symm
    · exact (m.home _ k' hk').trans hi.symm
  · exact m.home i k' hk'

def insert (m : ShardedMap index β) (k : κ) (v : β) : ShardedMap index β :=
  ⟨Function.update m.shards (index k) ((m.shards (index k)).insert k v), m.insert_home k v⟩

theorem erase_home (m : ShardedMap index β) (k : κ) (i : ι) :
    ∀ k' ∈ Function.update m.shards (index k) ((m.shards (index k)).erase k) i, index k' = i := by
  intro k' hk'
  rw [Function.update_apply] at hk'
  split at hk'
  · rename_i hi
    exact (m.home _ k' (AList.mem_erase.mp hk').2).trans hi.symm
  · exact m.home i k' hk'

def erase (m : ShardedMap index β) (k : κ) : ShardedMap index β :=
  ⟨Function.update m.shards (index k) ((m.shards (index k)).erase k), m.erase_home k⟩

variable (m : ShardedMap index β)

theorem lookup_insert (k : κ) (v : β) : (m.insert k v).lookup k = some v := by
  simp [lookup, insert, AList.lookup_insert]

theorem lookup_insert_ne (v : β) (h : k ≠ k') : (m.insert k' v).lookup k = m.lookup k := by
  unfold lookup insert
  dsimp only
  rw [Function.update_apply]
  split
  · rename_i hi
    rw [AList.lookup_insert_ne h, hi]
  · rfl

theorem lookup_erase (k : κ) : (m.erase k).lookup k = none := by
  simp [lookup, erase, AList.lookup_erase]

theorem lookup_erase_ne (h : k ≠ k') : (m.erase k').lookup k = m.lookup k := by
  unfold lookup erase
  dsimp only
  rw [Function.update_apply]
  split
  · rename_i hi
    rw [AList.lookup_erase_ne h, hi]
  · rfl

theorem lookup_of_erase {m : ShardedMap index β} (h : (m.erase k').lookup k = some v) :
    m.lookup k = some v := by
  by_cases hk : k = k'
  · rw [hk, lookup_erase] at h
    cases h
  · rwa [lookup_erase_ne m hk] at h

theorem has_of_insert {m : ShardedMap index β} {v' : β} (h : (m.insert k v).Has v') :
    v' = v ∨ m.Has v' := by
  obtain ⟨k', hk'⟩ := (has_iff _).mp h
  by_cases hk : k' = k
  · rw [hk, lookup_insert] at hk'
    exact Or.inl (Option.some.inj hk').symm
  · rw [lookup_insert_ne m v hk] at hk'
    exact Or.inr (m.has_iff.mpr ⟨k', hk'⟩)

theorem has_of_erase {m : ShardedMap index β} (h : (m.erase k).Has v) : m.Has v := by
  obtain ⟨k', hk'⟩ := (has_iff _).mp h
  exact m.has_iff.mpr ⟨k', lookup_of_erase hk'⟩

end Update

section Size

variable [Fintype ι] (m : ShardedMap index β)

def size : ℕ := ∑ i, (m.shards i).keys.length

omit [DecidableEq κ] in
theorem size_empty : (empty : ShardedMap index β).size = 0 := by
  simp [size, empty]

/-- The keys of all shards. -/
def keys : Finset κ := Finset.univ.biUnion fun i => (m.shards i).keys.toFinset

theorem mem_keys : k ∈ m.keys ↔ ∃ v, m.lookup k = some v := by
  rw [← Option.isSome_iff_exists, lookup, AList.lookup_isSome, keys]
  simp only [Finset.mem_biUnion, Finset.mem_univ, true_and, List.mem_toFinset]
  constructor
  · intro ⟨i, hk⟩
    rw [m.home i k hk]
    exact hk
  · exact fun hk => ⟨index k, hk⟩

theorem size_eq_card : m.size = m.keys.card := by
  have hdisjoint : ((Finset.univ : Finset ι) : Set ι).PairwiseDisjoint
      fun i => (m.shards i).keys.toFinset := by
    intro i _ j _ hij
    refine Finset.disjoint_left.mpr ?_
    intro k hi hj
    rw [List.mem_toFinset] at hi hj
    exact hij ((m.home i k hi).symm.trans (m.home j k hj))
  rw [keys, Finset.card_biUnion hdisjoint, size]
  refine Finset.sum_congr rfl ?_
  intro i _
  rw [List.toFinset_card_of_nodup (m.shards i).keys_nodup]

variable [DecidableEq ι]

theorem keys_insert (k : κ) (v : β) : (m.insert k v).keys = Insert.insert k m.keys := by
  ext k'
  rw [Finset.mem_insert, mem_keys, mem_keys]
  by_cases hk : k' = k
  · simp [hk, lookup_insert]
  · simp [hk, lookup_insert_ne]

theorem keys_erase (k : κ) : (m.erase k).keys = m.keys.erase k := by
  ext k'
  rw [Finset.mem_erase, mem_keys, mem_keys]
  by_cases hk : k' = k
  · simp [hk, lookup_erase]
  · simp [hk, lookup_erase_ne]

theorem size_insert (h : m.lookup k = none) (v : β) : (m.insert k v).size = m.size + 1 := by
  have hnot : k ∉ m.keys := by simp [mem_keys, h]
  rw [size_eq_card, size_eq_card, keys_insert, Finset.card_insert_of_notMem hnot]

theorem size_erase (h : m.lookup k = some v) : (m.erase k).size + 1 = m.size := by
  have hmem : k ∈ m.keys := m.mem_keys.mpr ⟨v, h⟩
  rw [size_eq_card, size_eq_card, keys_erase, Finset.card_erase_add_one hmem]

end Size

end ShardedMap

end ChatServer.Lib.Shards
