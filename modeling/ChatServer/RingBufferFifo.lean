import ChatServer.RingBuffer
import ChatServer.Lib.BoundedFifo
import ChatServer.Lib.Runs

/-!
The ring buffer as a bounded queue of bytes. Here are the operations that the
decoder does not use: the copying write, and the pointer to the bytes that can
be read in one piece. The cells of the storage are counted from `read_pos_`:
first those of the stored bytes, then those that the segments for a scatter
read offer. Every run of operations on a new buffer is a run of the queue.
-/
namespace ChatServer.RingBuffer

open Lib Lib.CyclicList Lib.Runs

section Operations

/-- The bytes that fit are copied to `write_pos_`, and what is left to the front. -/
def write (r : RingBuffer) (data : Bytes) : ℕ × RingBuffer :=
  let freeSpace := r.capacity - r.count
  let bytesToWrite := min data.length freeSpace
  let firstChunk := min bytesToWrite (r.capacity - r.writePos)
  let secondChunk := bytesToWrite - firstChunk
  let first := overwrite r.buf r.writePos (data.take firstChunk)
  (bytesToWrite,
    { r with
      buf := if 0 < secondChunk then overwrite first 0 ((data.drop firstChunk).take secondChunk)
        else first
      writePos := (r.writePos + bytesToWrite) % r.capacity
      count := r.count + bytesToWrite })

/-- The pointer, by its offset from `buf_[0]`. -/
def getReadPtr (r : RingBuffer) : ℕ := r.readPos

def getContiguousReadSize (r : RingBuffer) : ℕ :=
  if r.count = 0 then 0
  else if r.readPos < r.writePos then r.writePos - r.readPos
  else r.capacity - r.readPos

/-- The bytes that a caller finds behind the pointer. -/
def contiguous (r : RingBuffer) : Bytes :=
  (r.buf.drop r.getReadPtr).take r.getContiguousReadSize

inductive Op
  | write (data : Bytes)
  /-- A readv into the writeable segments that returned these bytes. -/
  | scatter (bytes : Bytes)
  | peek (len : ℕ)
  | consume (len : ℕ)
deriving DecidableEq

/-- readv returns no more bytes than it was offered. -/
def next (r : RingBuffer) : Op → Option RingBuffer
  | .write data => some (r.write data).2
  | .scatter bytes =>
      if bytes.length ≤ (r.getWriteableIovecs.map Iovec.iovLen).sum then some (r.receive bytes)
      else none
  | .peek _ => some r
  | .consume len => some (r.consume len)

def machine (capacity : ℕ) : Machine RingBuffer Op := ⟨new capacity, next⟩

/-- The same operations on a queue. -/
def fifoNext {capacity : ℕ} (q : BoundedFifo UInt8 capacity) :
    Op → Option (BoundedFifo UInt8 capacity)
  | .write data => some (q.push data)
  | .scatter bytes => if bytes.length ≤ q.free then some (q.push bytes) else none
  | .peek _ => some q
  | .consume len => some (q.pop len)

def fifo (capacity : ℕ) : Machine (BoundedFifo UInt8 capacity) Op := ⟨.empty, fifoNext⟩

end Operations

section Cells

/-- Where the stored bytes are, in queue order. -/
def storedCells (r : RingBuffer) : List ℕ :=
  (List.range r.count).map fun k => (r.readPos + k) % r.capacity

/-- The cells of the writeable segments, in the order in which they are filled. -/
def writeableCells (r : RingBuffer) : List ℕ :=
  r.getWriteableIovecs.flatMap fun iov => List.range' iov.iovBase iov.iovLen

variable {r : RingBuffer}

theorem storedCells_eq (h : r.WellFormed) :
    r.storedCells = ((List.range r.capacity).rotate r.readPos).take r.count := by
  have hcount := h.count_le
  apply List.ext_getElem
  · simp only [storedCells, List.length_map, List.length_range, List.length_take,
      List.length_rotate, Nat.min_eq_left hcount]
  · intro k hk _
    rw [List.getElem_take, List.getElem_rotate]
    simp only [storedCells, List.getElem_map, List.getElem_range, List.length_range]
    rw [Nat.add_comm]

/-- The contents are read off the cells of the stored bytes. -/
theorem contents_getElem? (h : r.WellFormed) {k : ℕ} (hk : k < r.count) :
    r.contents[k]? = r.buf[(r.readPos + k) % r.capacity]? := by
  have hlt : k < r.buf.length := Nat.lt_of_lt_of_le hk h.count_le
  rw [contents, List.getElem?_take_of_lt hk, List.getElem?_rotate hlt, Nat.add_comm]

theorem take_drop_range {i len n : ℕ} (h : i + len ≤ n) :
    ((List.range n).drop i).take len = List.range' i len := by
  rw [List.range_eq_range', List.drop_range', List.take_range'_of_length_ge (by omega),
    Nat.zero_add, Nat.mul_one]

/-- Counted from `read_pos_`, the writeable cells are those behind the stored bytes. -/
theorem writeableCells_eq (h : r.WellFormed) :
    r.writeableCells = ((List.range r.capacity).rotate r.readPos).drop r.count := by
  have hcount := h.count_le
  have hwrite : r.writePos < r.capacity := by
    rw [h.writePos_eq]
    exact Nat.mod_lt _ h.capacity_pos
  have hlen : (List.range r.capacity).length = r.capacity := List.length_range
  have hbehind : ((List.range r.capacity).rotate r.readPos).drop r.count =
      ((List.range r.capacity).rotate r.writePos).take (r.capacity - r.count) := by
    have hturn := take_rotate_advance (List.range r.capacity) r.readPos r.count
      (r.capacity - r.count) (by rw [hlen]; omega)
    have hall : ((List.range r.capacity).rotate r.readPos).take r.capacity =
        (List.range r.capacity).rotate r.readPos :=
      List.take_of_length_le (by rw [List.length_rotate, hlen])
    rwa [hlen, ← h.writePos_eq, Nat.add_sub_cancel' hcount, hall, eq_comm] at hturn
  rw [hbehind, take_rotate _ _ _ (by rw [hlen]; omega) (by rw [hlen]; omega), hlen,
    take_drop_range (by omega)]
  have hfront : (List.range r.capacity).take (r.capacity - r.count -
      min (r.capacity - r.count) (r.capacity - r.writePos)) =
      List.range' 0 (r.capacity - r.count -
        min (r.capacity - r.count) (r.capacity - r.writePos)) := by
    rw [← take_drop_range (n := r.capacity) (by omega), List.drop_zero]
  rw [hfront]
  unfold writeableCells getWriteableIovecs
  by_cases hfree : r.capacity - r.count = 0
  · simp [hfree]
  · simp only [hfree, if_false]
    split
    · simp
    · rename_i hone
      have hmin : r.capacity - r.count -
          min (r.capacity - r.count) (r.capacity - r.writePos) = 0 := by omega
      simp [hmin]

/-- The stored cells and the writeable ones are all cells, each of them once. -/
theorem cells_perm (h : r.WellFormed) :
    (r.storedCells ++ r.writeableCells).Perm (List.range r.capacity) := by
  rw [storedCells_eq h, writeableCells_eq h, List.take_append_drop]
  exact List.rotate_perm _ _

end Cells

section Results

variable {r : RingBuffer}

/-- The copying write is a scatter read of the bytes that fit. -/
theorem write_eq_receive (h : r.WellFormed) (data : Bytes) :
    r.write data = (min data.length r.freeSpace, r.receive (data.take r.freeSpace)) := by
  have hlen : (data.take r.freeSpace).length = min data.length r.freeSpace := by
    rw [List.length_take, Nat.min_comm]
  have hcap : (r.receive (data.take r.freeSpace)).capacity = r.capacity :=
    receive_capacity h _ (by rw [hlen]; exact Nat.min_le_right _ _)
  have hbuf : (r.write data).2.buf = (r.receive (data.take r.freeSpace)).buf := by
    simp only [write, receive, commitWrite, getWriteableIovecs, freeSpace]
    by_cases hfree : r.capacity - r.count = 0
    · simp [hfree, scatter]
    simp only [hfree, if_false]
    split
    · rename_i hsecond
      have hfirst : min (min data.length (r.capacity - r.count)) (r.capacity - r.writePos) =
          r.capacity - r.writePos := by omega
      have hone : min (r.capacity - r.count) (r.capacity - r.writePos) =
          r.capacity - r.writePos := by omega
      have htwo : r.capacity - r.writePos < r.capacity - r.count := by omega
      simp only [hfirst, hone, htwo, if_true, scatter, List.take_take, List.drop_take]
      refine congrArg₂ (overwrite · 0 ·) (congrArg _ ?_) ?_
      · rw [List.take_eq_take_iff]
        omega
      · rw [List.take_eq_take_iff, List.length_drop]
        omega
    · rename_i hsecond
      by_cases htwo : min (r.capacity - r.count) (r.capacity - r.writePos) < r.capacity - r.count
      · have hnil : (data.take (r.capacity - r.count)).drop
            (min (r.capacity - r.count) (r.capacity - r.writePos)) = [] := by
          rw [List.drop_eq_nil_iff, List.length_take]
          omega
        simp only [htwo, if_true, scatter, hnil, List.take_nil, overwrite_nil, List.take_take]
        congr 1
        rw [List.take_eq_take_iff]
        omega
      · simp only [htwo, if_false, scatter, List.take_take]
        congr 1
        rw [List.take_eq_take_iff]
        omega
  have hwritten : (r.write data).2 = r.receive (data.take r.freeSpace) := by
    simp only [write, receive, commitWrite, freeSpace, capacity, RingBuffer.mk.injEq,
      true_and] at hbuf hcap hlen ⊢
    rw [hcap, hlen]
    exact ⟨hbuf, rfl, rfl⟩
  exact Prod.ext rfl hwritten

theorem write_contents (h : r.WellFormed) (data : Bytes) :
    (r.write data).2.contents = r.contents ++ data.take r.freeSpace := by
  rw [write_eq_receive h, receive_contents h]
  rw [List.length_take]
  exact Nat.min_le_left _ _

theorem getContiguousReadSize_eq (h : r.WellFormed) :
    r.getContiguousReadSize = min r.count (r.capacity - r.readPos) := by
  have hread := h.readPos_lt
  have hcount := h.count_le
  unfold getContiguousReadSize
  rw [h.writePos_eq]
  by_cases hwrap : r.readPos + r.count < r.capacity
  · rw [Nat.mod_eq_of_lt hwrap]
    split
    · omega
    · rw [if_pos (by omega)]
      omega
  · rw [Nat.mod_eq_sub_mod (by omega), Nat.mod_eq_of_lt (by omega)]
    rw [if_neg (by omega), if_neg (by omega)]
    omega

/-- What can be read in one piece is the front of the queue. -/
theorem contiguous_eq (h : r.WellFormed) :
    r.contiguous = r.contents.take r.getContiguousReadSize := by
  have hread := h.readPos_lt
  have hcount := h.count_le
  simp only [capacity] at hread hcount
  rw [contents, take_rotate _ _ _ (by omega) hcount, getContiguousReadSize_eq h,
    List.take_append_of_le_length]
  · rw [List.take_take, Nat.min_self]
    rw [contiguous, getContiguousReadSize_eq h]
    rfl
  · rw [List.length_take, List.length_drop]
    simp only [capacity]
    omega

/-- A block put behind the stored bytes leaves their cells as they are. -/
theorem kept_of_append {t : RingBuffer} {block : Bytes} (h : r.WellFormed) (ht : t.WellFormed)
    (hcap : t.capacity = r.capacity) (hread : t.readPos = r.readPos)
    (hcontents : t.contents = r.contents ++ block) {k : ℕ} (hk : k < r.count) :
    t.buf[(r.readPos + k) % r.capacity]? = r.buf[(r.readPos + k) % r.capacity]? := by
  have hlen := congrArg List.length hcontents
  rw [contents_length ht, List.length_append, contents_length h] at hlen
  rw [← contents_getElem? h hk, ← hread, ← hcap, ← contents_getElem? ht (by omega), hcontents,
    List.getElem?_append_left (by rw [contents_length h]; exact hk)]

/-- What the operations do to a buffer of this capacity. -/
structure ServesAsFifo (capacity : ℕ) (r : RingBuffer) : Prop where
  readPos_lt : r.readPos < capacity
  writePos_lt : r.writePos < capacity
  count_le : r.count ≤ capacity
  writePos_eq : r.writePos = (r.readPos + r.count) % capacity
  contents_length : r.contents.length = r.count
  contents_stored : ∀ k < r.count, r.contents[k]? = r.buf[(r.readPos + k) % capacity]?
  write_returns : ∀ data, (r.write data).1 = min data.length (capacity - r.count)
  write_appends : ∀ data, (r.write data).2.contents =
    r.contents ++ data.take (min data.length (capacity - r.count))
  write_keeps : ∀ data, ∀ k < r.count, (r.write data).2.buf[(r.readPos + k) % capacity]? =
    r.buf[(r.readPos + k) % capacity]?
  scatter_appends : ∀ bytes, bytes.length ≤ (r.getWriteableIovecs.map Iovec.iovLen).sum →
    (r.receive bytes).contents = r.contents ++ bytes
  scatter_keeps : ∀ bytes, bytes.length ≤ (r.getWriteableIovecs.map Iovec.iovLen).sum →
    ∀ k < r.count, (r.receive bytes).buf[(r.readPos + k) % capacity]? =
      r.buf[(r.readPos + k) % capacity]?
  cells : (r.storedCells ++ r.writeableCells).Perm (List.range capacity)
  total : (r.getWriteableIovecs.map Iovec.iovLen).sum = capacity - r.count
  peek_reads : ∀ len, r.peek len = r.contents.take (min len r.count)
  consume_removes : ∀ len, (r.consume len).contents = r.contents.drop (min len r.count)
  contiguous_length : r.contiguous.length = r.getContiguousReadSize
  contiguous_prefix : r.contiguous <+: r.contents
  contiguous_ne_nil : 0 < r.count → r.contiguous ≠ []

theorem WellFormed.servesAsFifo (h : r.WellFormed) : ServesAsFifo r.capacity r := by
  have hlen := RingBuffer.contents_length h
  have hmin : ∀ len, r.contents.take (min len r.count) = r.contents.take len := fun len => by
    rw [← hlen, List.take_eq_take_iff]
    omega
  have hfits : ∀ data : Bytes, (data.take r.freeSpace).length ≤ r.freeSpace := fun data => by
    rw [List.length_take]
    exact Nat.min_le_left _ _
  have hread : r.contiguous.length = r.getContiguousReadSize := by
    rw [contiguous_eq h, List.length_take, hlen, getContiguousReadSize_eq h]
    omega
  constructor
  case readPos_lt => exact h.readPos_lt
  case writePos_lt =>
    rw [h.writePos_eq]
    exact Nat.mod_lt _ h.capacity_pos
  case count_le => exact h.count_le
  case writePos_eq => exact h.writePos_eq
  case contents_length => exact hlen
  case contents_stored => exact fun k hk => contents_getElem? h hk
  case write_returns => exact fun data => rfl
  case write_appends =>
    intro data
    rw [write_contents h]
    congr 1
    rw [List.take_eq_take_iff, freeSpace]
    omega
  case write_keeps =>
    intro data k hk
    rw [write_eq_receive h]
    exact kept_of_append h (receive_wellFormed h _ (hfits data)) (receive_capacity h _ (hfits data))
      rfl (receive_contents h _ (hfits data)) hk
  case scatter_appends =>
    intro bytes hbytes
    rw [getWriteableIovecs_total] at hbytes
    exact receive_contents h bytes hbytes
  case scatter_keeps =>
    intro bytes hbytes k hk
    rw [getWriteableIovecs_total] at hbytes
    exact kept_of_append h (receive_wellFormed h _ hbytes) (receive_capacity h _ hbytes) rfl
      (receive_contents h _ hbytes) hk
  case cells => exact cells_perm h
  case total => exact getWriteableIovecs_total r
  case peek_reads =>
    intro len
    rw [peek_eq_take h, hmin]
  case consume_removes =>
    intro len
    rw [consume_contents h]
    rcases Nat.le_total len r.count with hle | hle
    · rw [Nat.min_eq_left hle]
    · rw [Nat.min_eq_right hle, List.drop_of_length_le (by omega),
        List.drop_of_length_le (by omega)]
  case contiguous_length => exact hread
  case contiguous_prefix =>
    rw [contiguous_eq h]
    exact List.take_prefix _ _
  case contiguous_ne_nil =>
    intro hpos hnil
    have hpiece := getContiguousReadSize_eq h
    have hlt := h.readPos_lt
    rw [hnil, List.length_nil] at hread
    omega

/-- The buffer holds the items of the queue. -/
structure Represents {capacity : ℕ} (r : RingBuffer) (q : BoundedFifo UInt8 capacity) : Prop where
  wellFormed : r.WellFormed
  capacity_eq : r.capacity = capacity
  items_eq : q.items = r.contents

theorem Represents.free {capacity : ℕ} {q : BoundedFifo UInt8 capacity} (h : Represents r q) :
    q.free = r.freeSpace := by
  rw [BoundedFifo.free, h.items_eq, freeSpace_eq h.wellFormed, h.capacity_eq]

/-- One operation on a buffer is the same operation on the queue. -/
theorem Represents.next {capacity : ℕ} {q : BoundedFifo UInt8 capacity} (h : Represents r q)
    (op : Op) : Option.Rel Represents (r.next op) (fifoNext q op) := by
  have hfree := h.free
  cases op with
  | write data =>
    have hfits : (data.take r.freeSpace).length ≤ r.freeSpace := by
      rw [List.length_take]
      exact Nat.min_le_left _ _
    refine .some ⟨?_, ?_, ?_⟩
    · rw [write_eq_receive h.wellFormed]
      exact receive_wellFormed h.wellFormed _ hfits
    · rw [write_eq_receive h.wellFormed]
      exact (receive_capacity h.wellFormed _ hfits).trans h.capacity_eq
    · rw [write_contents h.wellFormed, BoundedFifo.items_push, h.items_eq, hfree]
  | scatter bytes =>
    simp only [RingBuffer.next, fifoNext, getWriteableIovecs_total, hfree]
    split
    · rename_i hfits
      refine .some ⟨receive_wellFormed h.wellFormed _ hfits,
        (receive_capacity h.wellFormed _ hfits).trans h.capacity_eq, ?_⟩
      rw [receive_contents h.wellFormed _ hfits, BoundedFifo.items_push_of_fits (hfree ▸ hfits),
        h.items_eq]
    · exact .none
  | peek len => exact .some h
  | consume len =>
    refine .some ⟨consume_wellFormed h.wellFormed _, h.capacity_eq, ?_⟩
    rw [consume_contents h.wellFormed, ← h.items_eq]
    rfl

theorem new_represents {capacity : ℕ} (h : 0 < capacity) :
    Represents (new capacity) (.empty : BoundedFifo UInt8 capacity) :=
  ⟨new_wellFormed _ h, new_capacity _, (new_contents _).symm⟩

/-- Operations on a new buffer do what they do to a bounded queue, and in every
state that they reach the next operation does as well. -/
theorem ring_refines_fifo (capacity : ℕ) (hpos : 0 < capacity) (ops : List Op) :
    Option.Rel Represents (run (machine capacity) AnyStep (new capacity) ops)
      (run (fifo capacity) AnyStep .empty ops) ∧
    ∀ r, run (machine capacity) AnyStep (new capacity) ops = some r →
      ServesAsFifo capacity r := by
  have hrun : Option.Rel Represents (run (machine capacity) AnyStep (new capacity) ops)
      (run (fifo capacity) AnyStep .empty ops) :=
    run_related (fun _ _ op h => h.next op) (new_represents hpos) ops
  refine ⟨hrun, ?_⟩
  intro r hr
  rw [hr] at hrun
  generalize run (fifo capacity) AnyStep .empty ops = t at hrun
  cases hrun with
  | some hrep => exact hrep.capacity_eq ▸ hrep.wellFormed.servesAsFifo

/-- A buffer of four bytes that has been filled across its end. -/
theorem ring_refines_fifo_wrapped :
    ServesAsFifo 4 ((((new 4).write [1, 2, 3]).2.consume 2).receive [4, 5, 6]) :=
  (ring_refines_fifo 4 (by decide) [.write [1, 2, 3], .consume 2, .scatter [4, 5, 6]]).2 _ rfl

end Results

end ChatServer.RingBuffer
