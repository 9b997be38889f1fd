import Mathlib.Algebra.Ring.Nat
import ChatServer.Lib.CyclicList

/-!
The byte ring buffer of a connection. The definitions follow ringbuffer.h
statement by statement; `contents` is the queue of bytes that they implement.
Each operation has one lemma that says what it does to the contents, and the
decoder is verified from these lemmas alone.
-/
namespace ChatServer

open Lib.CyclicList

abbrev Bytes := List UInt8

/-- `'\n'` -/
def newline : UInt8 := 10

/-- A segment of the underlying storage, by its offset from `buf_[0]`. -/
structure Iovec where
  iovBase : ℕ
  iovLen : ℕ
deriving DecidableEq, Repr

structure RingBuffer where
  buf : Bytes
  readPos : ℕ
  writePos : ℕ
  count : ℕ
deriving DecidableEq, Repr

namespace RingBuffer

def new (capacity : ℕ) : RingBuffer := ⟨List.replicate capacity 0, 0, 0, 0⟩

abbrev size (r : RingBuffer) : ℕ := r.count

abbrev capacity (r : RingBuffer) : ℕ := r.buf.length

def full (r : RingBuffer) : Bool := r.count == r.buf.length

/-- The free space as at most two segments, the second one after the wrap. -/
def getWriteableIovecs (r : RingBuffer) : List Iovec :=
  let freeSpace := r.capacity - r.count
  if freeSpace = 0 then []
  else
    let contiguousToEnd := r.capacity - r.writePos
    let len1 := min freeSpace contiguousToEnd
    if len1 < freeSpace then [⟨r.writePos, len1⟩, ⟨0, freeSpace - len1⟩]
    else [⟨r.writePos, len1⟩]

def commitWrite (r : RingBuffer) (len : ℕ) : RingBuffer :=
  { r with writePos := (r.writePos + len) % r.capacity, count := r.count + len }

/-- The first `min len count_` stored bytes; the length of the result is the
returned count. -/
def peek (r : RingBuffer) (len : ℕ) : Bytes :=
  let bytesToRead := min len r.count
  let firstChunk := min bytesToRead (r.capacity - r.readPos)
  let secondChunk := bytesToRead - firstChunk
  (r.buf.drop r.readPos).take firstChunk ++
    if 0 < secondChunk then r.buf.take secondChunk else []

def consume (r : RingBuffer) (len : ℕ) : RingBuffer :=
  let toRemove := min len r.count
  { r with readPos := (r.readPos + toRemove) % r.capacity, count := r.count - toRemove }

/-- What readv does to the storage: the segments are filled in order. -/
def scatter (buf : Bytes) : List Iovec → Bytes → Bytes
  | [], _ => buf
  | iov :: rest, bytes =>
      scatter (overwrite buf iov.iovBase (bytes.take iov.iovLen)) rest (bytes.drop iov.iovLen)

/-- A readv into the writeable segments that returned these bytes, committed. -/
def receive (r : RingBuffer) (bytes : Bytes) : RingBuffer :=
  commitWrite { r with buf := scatter r.buf r.getWriteableIovecs bytes } bytes.length

/-- The stored bytes in queue order: `count_` bytes from `read_pos_`, cyclically. -/
def contents (r : RingBuffer) : Bytes := (r.buf.rotate r.readPos).take r.count

def freeSpace (r : RingBuffer) : ℕ := r.capacity - r.count

structure WellFormed (r : RingBuffer) : Prop where
  capacity_pos : 0 < r.capacity
  readPos_lt : r.readPos < r.capacity
  count_le : r.count ≤ r.capacity
  writePos_eq : r.writePos = (r.readPos + r.count) % r.capacity

theorem new_wellFormed (capacity : ℕ) (h : 0 < capacity) : (new capacity).WellFormed := by
  constructor <;> simp [new, RingBuffer.capacity, h]

@[simp]
theorem new_capacity (capacity : ℕ) : (new capacity).capacity = capacity := by
  simp [new, RingBuffer.capacity]

@[simp]
theorem new_contents (capacity : ℕ) : (new capacity).contents = [] := by
  simp [new, contents]

theorem contents_length {r : RingBuffer} (h : r.WellFormed) :
    r.contents.length = r.count := by
  have hcount := h.count_le
  simp only [capacity] at hcount
  simp only [contents, List.length_take, List.length_rotate, Nat.min_eq_left hcount]

theorem contents_length_le {r : RingBuffer} (h : r.WellFormed) :
    r.contents.length ≤ r.capacity := by
  rw [contents_length h]
  exact h.count_le

theorem freeSpace_eq {r : RingBuffer} (h : r.WellFormed) :
    r.freeSpace = r.capacity - r.contents.length := by
  rw [freeSpace, contents_length h]

theorem full_iff {r : RingBuffer} : r.full = true ↔ r.count = r.capacity := by
  simp [full, capacity]

theorem getWriteableIovecs_eq_nil_iff {r : RingBuffer} :
    r.getWriteableIovecs = [] ↔ r.freeSpace = 0 := by
  unfold getWriteableIovecs freeSpace
  by_cases hfree : r.capacity - r.count = 0
  · simp [hfree]
  · simp only [hfree, if_false, iff_false]
    split <;> simp

/-- No segment is offered exactly when the buffer is full. -/
theorem getWriteableIovecs_isEmpty_iff {r : RingBuffer} (h : r.WellFormed) :
    r.getWriteableIovecs.isEmpty = true ↔ r.contents.length = r.capacity := by
  have hle := contents_length_le h
  rw [List.isEmpty_iff, getWriteableIovecs_eq_nil_iff, freeSpace_eq h]
  omega

/-- The segments offered to readv total exactly the free space. -/
theorem getWriteableIovecs_total (r : RingBuffer) :
    (r.getWriteableIovecs.map Iovec.iovLen).sum = r.freeSpace := by
  unfold getWriteableIovecs freeSpace
  by_cases hfree : r.capacity - r.count = 0
  · simp [hfree]
  · simp only [hfree, if_false]
    split
    · simp only [List.map_cons, List.map_nil, List.sum_cons, List.sum_nil]
      omega
    · simp only [List.map_cons, List.map_nil, List.sum_cons, List.sum_nil]
      omega

/-- Filling the segments appends a block at the end of the stored bytes. -/
theorem rotate_scatter {r : RingBuffer} (h : r.WellFormed) (bytes : Bytes)
    (hfit : bytes.length ≤ r.freeSpace) :
    (scatter r.buf r.getWriteableIovecs bytes).rotate r.readPos =
      overwrite (r.buf.rotate r.readPos) r.count bytes := by
  obtain ⟨hcap, hread, hcount, hwrite⟩ := h
  simp only [freeSpace, capacity] at *
  by_cases hfree : r.buf.length - r.count = 0
  · have hnil : bytes = [] := List.length_eq_zero_iff.mp (by omega)
    simp [getWriteableIovecs, capacity, hfree, scatter, hnil]
  · by_cases hwrap : r.readPos + r.count < r.buf.length
    · have hpos : r.writePos = r.readPos + r.count := by
        rw [hwrite, Nat.mod_eq_of_lt hwrap]
      have hlen : min (r.buf.length - r.count) (r.buf.length - r.writePos) =
          r.buf.length - r.writePos := by omega
      have hfirst : (overwrite r.buf (r.readPos + r.count)
          (bytes.take (r.buf.length - r.writePos))).rotate r.readPos =
          overwrite (r.buf.rotate r.readPos) r.count
            (bytes.take (r.buf.length - r.writePos)) := by
        apply rotate_overwrite_ahead _ _ _ _ (by omega)
        rw [List.length_take]
        omega
      by_cases hone : r.buf.length - r.writePos < r.buf.length - r.count
      · have hrest : (bytes.drop (r.buf.length - r.writePos)).take
            (r.buf.length - r.count - (r.buf.length - r.writePos)) =
            bytes.drop (r.buf.length - r.writePos) := by
          apply List.take_of_length_le
          rw [List.length_drop]
          omega
        simp only [getWriteableIovecs, capacity, hfree, if_false, hlen, hone, if_true,
          scatter, hrest]
        rw [hpos] at *
        by_cases hshort : bytes.length ≤ r.buf.length - (r.readPos + r.count)
        · rw [List.drop_of_length_le hshort, overwrite_nil, hfirst,
            List.take_of_length_le hshort]
        · have hblock : (bytes.take (r.buf.length - (r.readPos + r.count))).length =
              r.buf.length - (r.readPos + r.count) := List.length_take_of_le (by omega)
          have hwritten : (overwrite r.buf (r.readPos + r.count)
              (bytes.take (r.buf.length - (r.readPos + r.count)))).length = r.buf.length :=
            overwrite_length _ _ _ (by omega)
          have hend : r.buf.length - r.readPos + 0 = r.count +
              (bytes.take (r.buf.length - (r.readPos + r.count))).length := by omega
          rw [rotate_overwrite_behind _ _ _ _ (by omega)
            (by rw [List.length_drop]; omega), hwritten, hfirst, hend,
            overwrite_adjacent _ _ _ _ (by rw [List.length_rotate]; exact hcount),
            List.take_append_drop]
      · have hall : bytes.take (r.buf.length - r.writePos) = bytes :=
          List.take_of_length_le (by omega)
        simp only [getWriteableIovecs, capacity, hfree, if_false, hlen, hone, scatter]
        rw [hall] at hfirst ⊢
        rw [hpos, hfirst]
    · have hpos : r.writePos = r.readPos + r.count - r.buf.length := by
        rw [hwrite, Nat.mod_eq_sub_mod (by omega), Nat.mod_eq_of_lt (by omega)]
      have hlen : min (r.buf.length - r.count) (r.buf.length - r.writePos) =
          r.buf.length - r.count := by omega
      have hend : r.buf.length - r.readPos + r.writePos = r.count := by omega
      simp only [getWriteableIovecs, capacity, hfree, if_false, hlen, Nat.lt_irrefl, scatter]
      rw [List.take_of_length_le hfit, rotate_overwrite_behind _ _ _ _ (by omega) (by omega),
        hend]

theorem scatter_length {r : RingBuffer} (h : r.WellFormed) (bytes : Bytes)
    (hfit : bytes.length ≤ r.freeSpace) :
    (scatter r.buf r.getWriteableIovecs bytes).length = r.capacity := by
  have hcount := h.count_le
  have hrotate := congrArg List.length (rotate_scatter h bytes hfit)
  simp only [freeSpace, capacity] at *
  rw [List.length_rotate, overwrite_length _ _ _ (by rw [List.length_rotate]; omega),
    List.length_rotate] at hrotate
  exact hrotate

theorem receive_capacity {r : RingBuffer} (h : r.WellFormed) (bytes : Bytes)
    (hfit : bytes.length ≤ r.freeSpace) : (r.receive bytes).capacity = r.capacity :=
  scatter_length h bytes hfit

theorem receive_wellFormed {r : RingBuffer} (h : r.WellFormed) (bytes : Bytes)
    (hfit : bytes.length ≤ r.freeSpace) : (r.receive bytes).WellFormed := by
  have hcap := receive_capacity h bytes hfit
  have hcount := h.count_le
  refine ⟨?_, ?_, ?_, ?_⟩
  · rw [hcap]
    exact h.capacity_pos
  · rw [hcap]
    exact h.readPos_lt
  · rw [hcap]
    simp only [receive, commitWrite, freeSpace] at *
    omega
  · have hscatter := scatter_length h bytes hfit
    rw [hcap]
    simp only [receive, commitWrite, capacity] at *
    rw [hscatter, h.writePos_eq]
    simp only [capacity]
    rw [Nat.mod_add_mod, Nat.add_assoc]

/-- The scatter read appends exactly the bytes that readv returned. -/
theorem receive_contents {r : RingBuffer} (h : r.WellFormed) (bytes : Bytes)
    (hfit : bytes.length ≤ r.freeSpace) :
    (r.receive bytes).contents = r.contents ++ bytes := by
  have hcount := h.count_le
  simp only [contents, receive, commitWrite]
  rw [rotate_scatter h bytes hfit, take_overwrite _ _ _ (by rw [List.length_rotate]; exact hcount)]

theorem peek_eq_take {r : RingBuffer} (h : r.WellFormed) (len : ℕ) :
    r.peek len = r.contents.take len := by
  have hcount := h.count_le
  have hread := h.readPos_lt
  simp only [capacity] at hcount hread
  simp only [peek, contents, capacity, List.take_take]
  rw [take_rotate _ _ _ (by omega) (by omega)]
  congr 1
  rw [ite_eq_left_iff]
  intro hzero
  rw [Nat.eq_zero_of_not_pos hzero, List.take_zero]

theorem consume_wellFormed {r : RingBuffer} (h : r.WellFormed) (len : ℕ) :
    (r.consume len).WellFormed := by
  have hcount := h.count_le
  refine ⟨h.capacity_pos, Nat.mod_lt _ h.capacity_pos, ?_, ?_⟩
  · simp only [consume, capacity] at *
    omega
  · simp only [consume]
    rw [h.writePos_eq]
    change (r.readPos + r.count) % r.capacity =
      ((r.readPos + min len r.count) % r.capacity + (r.count - min len r.count)) % r.capacity
    rw [Nat.mod_add_mod]
    congr 1
    omega

theorem consume_contents {r : RingBuffer} (h : r.WellFormed) (len : ℕ) :
    (r.consume len).contents = r.contents.drop len := by
  have hcount := h.count_le
  simp only [capacity] at hcount
  have hsplit : min len r.count + (r.count - min len r.count) = r.count := by omega
  simp only [consume, contents, capacity]
  rw [take_rotate_advance _ _ _ _ (by omega), hsplit]
  rcases Nat.le_total len r.count with hle | hle
  · rw [Nat.min_eq_left hle]
  · rw [Nat.min_eq_right hle, List.drop_of_length_le, List.drop_of_length_le]
    · simp only [List.length_take, List.length_rotate]
      omega
    · simp only [List.length_take, List.length_rotate]
      omega

end RingBuffer

end ChatServer
