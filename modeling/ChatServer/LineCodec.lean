import ChatServer.RingBufferFifo
import ChatServer.Lib.DelimitedLines

/-!
`LineBasedCodec`, the second protocol of the third version: a message is a line
and ends with a newline. The decoder copies the buffer, looks for the first
newline and consumes up to it. Chunks are appended and lines decoded in any order.
-/
namespace ChatServer.LineCodec

open Lib.CyclicList Lib.DelimitedLines Lib.Runs

def encode (msg : Bytes) : Bytes := msg ++ [newline]

def decode (buf : RingBuffer) : Option Bytes × RingBuffer :=
  let temp := overwrite (List.replicate buf.size 0) 0 (buf.peek buf.size)
  match temp.findIdx? (· == newline) with
  | some i => (some (temp.take i), buf.consume (i + 1))
  | none => (none, buf)

/-- A buffer in use, with what was appended to it and what decode has returned. -/
structure Session where
  buf : RingBuffer
  appended : Bytes
  returned : List Bytes

inductive Call
  | write (chunk : Bytes)
  | scatter (chunk : Bytes)
  | decode
deriving DecidableEq

/-- Only chunks that fit are appended. -/
def Session.next (s : Session) : Call → Option Session
  | .write chunk =>
      if chunk.length ≤ s.buf.freeSpace then
        some { s with buf := (s.buf.write chunk).2, appended := s.appended ++ chunk }
      else none
  | .scatter chunk =>
      if chunk.length ≤ s.buf.freeSpace then
        some { s with buf := s.buf.receive chunk, appended := s.appended ++ chunk }
      else none
  | .decode =>
      some { s with
        buf := (LineCodec.decode s.buf).2
        returned := s.returned ++ (LineCodec.decode s.buf).1.toList }

def machine (buf : RingBuffer) : Machine Session Call := ⟨⟨buf, [], []⟩, Session.next⟩

section Decode

variable {buf : RingBuffer}

/-- The decoder scans the stored bytes. -/
theorem decode_eq (h : buf.WellFormed) : decode buf =
    match buf.contents.findIdx? (· == newline) with
    | some i => (some (buf.contents.take i), buf.consume (i + 1))
    | none => (none, buf) := by
  have hlen := RingBuffer.contents_length h
  have htemp : overwrite (List.replicate buf.size 0) 0 (buf.peek buf.size) = buf.contents := by
    have hall : buf.peek buf.size = buf.contents := by
      rw [RingBuffer.peek_eq_take h, RingBuffer.size, ← hlen, List.take_length]
    rw [hall, overwrite_all]
    rw [List.length_replicate, hlen]
  rw [decode, htemp]

theorem decode_of_not_mem (h : buf.WellFormed) (hnone : newline ∉ buf.contents) :
    decode buf = (none, buf) := by
  rw [decode_eq h, findIdx?_eq_none.mpr hnone]

theorem decode_of_line (h : buf.WellFormed) {l rest : Bytes} (hl : newline ∉ l)
    (hbuf : buf.contents = l ++ newline :: rest) :
    decode buf = (some l, buf.consume (l.length + 1)) := by
  have hfind : buf.contents.findIdx? (· == newline) = some l.length := by
    rw [hbuf, List.findIdx?_append, findIdx?_eq_none.mpr hl, List.findIdx?_cons]
    simp
  rw [decode_eq h, hfind, hbuf]
  simp

/-- Either there is no newline and nothing happens, or the first line is taken off. -/
theorem decode_cases (h : buf.WellFormed) :
    (newline ∉ buf.contents ∧ decode buf = (none, buf)) ∨
    ∃ l t, decode buf = (some l, t) ∧ t.WellFormed ∧ newline ∉ l ∧
      buf.contents = l ++ newline :: t.contents := by
  by_cases hmem : newline ∈ buf.contents
  · obtain ⟨l, rest, hsplit, hl⟩ := List.eq_append_cons_of_mem hmem
    refine .inr ⟨l, buf.consume (l.length + 1), decode_of_line h hl hsplit,
      RingBuffer.consume_wellFormed h _, hl, ?_⟩
    rw [RingBuffer.consume_contents h, hsplit, ← List.drop_drop, List.drop_left]
    rfl
  · exact .inl ⟨hmem, decode_of_not_mem h hmem⟩

theorem decode_eq_none_iff (h : buf.WellFormed) :
    (decode buf).1 = none ↔ newline ∉ buf.contents := by
  rcases decode_cases h with ⟨hnone, hdecode⟩ | ⟨l, t, hdecode, _, _, hsplit⟩
  · rw [hdecode]
    exact iff_of_true rfl hnone
  · rw [hdecode, hsplit]
    simp

/-- A message that was appended to an empty buffer comes out as it went in, unless
it has a newline. -/
theorem decode_encode_iff (h : buf.WellFormed) {msg : Bytes} (hbuf : buf.contents = encode msg) :
    ((decode buf).1 = some msg ∧ (decode buf).2.contents = []) ↔ newline ∉ msg := by
  constructor
  · rintro ⟨hmsg, _⟩
    rcases decode_cases h with ⟨_, hdecode⟩ | ⟨l, t, hdecode, _, hl, _⟩
    · rw [hdecode] at hmsg
      cases hmsg
    · rw [hdecode] at hmsg
      exact Option.some.inj hmsg ▸ hl
  · intro hmsg
    rw [decode_of_line h hmsg hbuf]
    refine ⟨rfl, ?_⟩
    rw [RingBuffer.consume_contents h, hbuf, encode]
    simp

end Decode

/-- The lines returned and the bytes in the buffer are what was appended. -/
structure Session.Sound (start : RingBuffer) (s : Session) : Prop where
  wellFormed : s.buf.WellFormed
  stream : unlines newline s.returned ++ s.buf.contents = start.contents ++ s.appended
  whole : ∀ l ∈ s.returned, newline ∉ l

theorem Session.Sound.append {start : RingBuffer} {s : Session} (h : s.Sound start)
    {chunk : Bytes} (hfits : chunk.length ≤ s.buf.freeSpace) :
    Session.Sound start
      { s with buf := s.buf.receive chunk, appended := s.appended ++ chunk } where
  wellFormed := RingBuffer.receive_wellFormed h.wellFormed _ hfits
  stream := by
    rw [RingBuffer.receive_contents h.wellFormed _ hfits, ← List.append_assoc, h.stream,
      List.append_assoc]
  whole := h.whole

theorem Session.Sound.next {start : RingBuffer} {s t : Session} {call : Call}
    (h : s.Sound start) (hnext : s.next call = some t) : t.Sound start := by
  cases call with
  | write chunk =>
    obtain ⟨hfits, ht⟩ := Option.ite_none_right_eq_some.mp hnext
    cases ht
    rw [RingBuffer.write_eq_receive h.wellFormed, List.take_of_length_le hfits]
    exact h.append hfits
  | scatter chunk =>
    obtain ⟨hfits, ht⟩ := Option.ite_none_right_eq_some.mp hnext
    cases ht
    exact h.append hfits
  | decode =>
    cases hnext
    rcases decode_cases h.wellFormed with ⟨_, hdecode⟩ | ⟨l, u, hdecode, hu, hl, hsplit⟩
    · rw [hdecode]
      refine ⟨h.wellFormed, ?_, ?_⟩
      · simpa using h.stream
      · simpa using h.whole
    · rw [hdecode]
      refine ⟨hu, ?_, ?_⟩
      · rw [← h.stream, hsplit]
        simp [unlines_append]
      · intro m hm
        rcases List.mem_append.mp hm with hm | hm
        · exact h.whole m hm
        · rw [List.mem_singleton.mp hm]
          exact hl

/-- The decoder takes exactly the lines that end with a newline off the stream, and
waits when there is none; encode and decode are inverse on the messages that
contain no newline. -/
theorem lines_accepted {start : RingBuffer} (hstart : start.WellFormed) {s : Session}
    (hs : Reachable (machine start) AnyStep s) :
    (unlines newline s.returned ++ s.buf.contents = start.contents ++ s.appended ∧
      (∀ l ∈ s.returned, newline ∉ l) ∧
      ((decode s.buf).1 = none ↔ newline ∉ s.buf.contents) ∧
      ((decode s.buf).1 = none → (decode s.buf).2 = s.buf)) ∧
    ∀ msg, s.buf.contents = [] → (encode msg).length ≤ s.buf.freeSpace →
      (((decode (s.buf.write (encode msg)).2).1 = some msg ∧
        (decode (s.buf.write (encode msg)).2).2.contents = []) ↔ newline ∉ msg) := by
  have hsound : s.Sound start := hs.invariant
    ⟨hstart, (List.append_nil _).symm, fun l hl => absurd hl List.not_mem_nil⟩
    fun _ _ _ h _ hnext => h.next hnext
  refine ⟨⟨hsound.stream, hsound.whole, decode_eq_none_iff hsound.wellFormed, ?_⟩, ?_⟩
  · intro hnone
    rw [decode_of_not_mem hsound.wellFormed ((decode_eq_none_iff hsound.wellFormed).mp hnone)]
  · intro msg hempty hfits
    rw [RingBuffer.write_eq_receive hsound.wellFormed, List.take_of_length_le hfits]
    apply decode_encode_iff (RingBuffer.receive_wellFormed hsound.wellFormed _ hfits)
    rw [RingBuffer.receive_contents hsound.wellFormed _ hfits, hempty, List.nil_append]

/-- A line that was cut between two chunks. -/
theorem lines_accepted_sample : ∃ s : Session, unlines newline s.returned ++ s.buf.contents =
    (RingBuffer.new 8).contents ++ s.appended ∧ s.returned = [[104, 105]] := by
  have hrun : (run (machine (.new 8)) AnyStep (machine (.new 8)).init
      [.write [104], .scatter [105, 10, 111], .decode]).any
        (fun s => s.returned = [[104, 105]]) = true := by
    decide
  obtain ⟨s, hs, hreturned⟩ := exists_reachable hrun
  exact ⟨s, (lines_accepted (RingBuffer.new_wellFormed 8 (by decide)) hs).1.1, hreturned⟩

end ChatServer.LineCodec
