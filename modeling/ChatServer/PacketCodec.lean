import ChatServer.RingBuffer
import ChatServer.Lib.StreamDecoder

/-!
The length-prefixed packet format: `PacketCodec::decode` on a ring buffer and
the packet that `ProtobufCodec::encode` builds around a serialised message.
`decodeBytes` is the same decoder on the bytes that the ring buffer holds; the
two are related once, by a simulation, and everything about streams is proved
on byte lists.
-/
namespace ChatServer.PacketCodec

open Lib.CyclicList Lib.StreamDecoder

/-- The 10mb limit on a declared length. -/
def maxPayload : ℕ := 10 * 1024 * 1024

/-- The header copied into a `uint32_t` and passed through ntohl: the four
bytes read in network order. -/
def ntohl (header : Bytes) : ℕ :=
  header.foldl (fun acc b => acc * 256 + b.toNat) 0

/-- The four bytes of `htonl(static_cast<uint32_t>(n))` in memory order. -/
def htonl (n : ℕ) : Bytes :=
  [UInt8.ofNat (n / 2 ^ 24), UInt8.ofNat (n / 2 ^ 16), UInt8.ofNat (n / 2 ^ 8), UInt8.ofNat n]

def decode (buf : RingBuffer) : Option Bytes × RingBuffer :=
  if buf.size < 4 then (none, buf)
  else
    let len := ntohl (buf.peek 4)
    if maxPayload < len then (none, buf.consume buf.size)
    -- `4 + len` is computed in 32 bits
    else if buf.size < (4 + len) % 2 ^ 32 then (none, buf)
    else
      let body := buf.consume 4
      (some (overwrite (List.replicate len 0) 0 (body.peek len)), body.consume len)

/-- The packet around an already serialised message. -/
def frame (payload : Bytes) : Bytes := htonl payload.length ++ payload

/-- `ProtobufCodec::encode`, over the generated serialiser of the message type. -/
def encode {Msg : Type*} (serializeToString : Msg → Bytes) (msg : Msg) : Bytes :=
  frame (serializeToString msg)

def frames (payloads : List Bytes) : Bytes := payloads.flatMap frame

/-- The length declared by the first four bytes. -/
def declared (s : Bytes) : ℕ := ntohl (s.take 4)

def decodeBytes (s : Bytes) : Option Bytes × Bytes :=
  if s.length < 4 then (none, s)
  else if maxPayload < declared s then (none, [])
  else if s.length < 4 + declared s then (none, s)
  else (some ((s.drop 4).take (declared s)), s.drop (4 + declared s))

theorem htonl_length (n : ℕ) : (htonl n).length = 4 := rfl

@[simp]
theorem frame_length (p : Bytes) : (frame p).length = 4 + p.length := by
  simp [frame, htonl_length]

@[simp]
theorem frames_nil : frames [] = [] := rfl

@[simp]
theorem frames_cons (p : Bytes) (ps : List Bytes) : frames (p :: ps) = frame p ++ frames ps := rfl

theorem frames_append (ps qs : List Bytes) : frames (ps ++ qs) = frames ps ++ frames qs :=
  List.flatMap_append

theorem ntohl_htonl (n : ℕ) (h : n < 2 ^ 32) : ntohl (htonl n) = n := by
  simp only [ntohl, htonl, List.foldl_cons, List.foldl_nil, UInt8.toNat_ofNat']
  omega

private theorem ntohl_four (b₀ b₁ b₂ b₃ : UInt8) :
    ntohl [b₀, b₁, b₂, b₃] =
      ((b₀.toNat * 256 + b₁.toNat) * 256 + b₂.toNat) * 256 + b₃.toNat := by
  simp [ntohl]

private theorem exists_four {header : Bytes} (h : header.length = 4) :
    ∃ b₀ b₁ b₂ b₃, header = [b₀, b₁, b₂, b₃] := by
  match header, h with
  | [b₀, b₁, b₂, b₃], _ => exact ⟨b₀, b₁, b₂, b₃, rfl⟩

theorem htonl_ntohl {header : Bytes} (h : header.length = 4) : htonl (ntohl header) = header := by
  obtain ⟨b₀, b₁, b₂, b₃, rfl⟩ := exists_four h
  have h₀ := b₀.toNat_lt
  have h₁ := b₁.toNat_lt
  have h₂ := b₂.toNat_lt
  have h₃ := b₃.toNat_lt
  rw [ntohl_four]
  simp only [htonl, List.cons.injEq, and_true]
  refine ⟨?_, ?_, ?_, ?_⟩ <;>
    apply UInt8.toNat_inj.mp <;>
    rw [UInt8.toNat_ofNat'] <;>
    omega

theorem declared_append {s : Bytes} (h : 4 ≤ s.length) (t : Bytes) :
    declared (s ++ t) = declared s := by
  rw [declared, List.take_append_of_le_length h, declared]

theorem declared_frame_append_of_lt {p : Bytes} (h : p.length < 2 ^ 32) (r : Bytes) :
    declared (frame p ++ r) = p.length := by
  rw [declared_append (by simp)]
  exact ntohl_htonl _ h

theorem declared_frame_append {p : Bytes} (h : p.length ≤ maxPayload) (r : Bytes) :
    declared (frame p ++ r) = p.length :=
  declared_frame_append_of_lt (lt_of_le_of_lt h (by decide)) r

theorem decodeBytes_frame_append {p : Bytes} (h : p.length ≤ maxPayload) (r : Bytes) :
    decodeBytes (frame p ++ r) = (some p, r) := by
  have hdeclared := declared_frame_append h r
  have hlen : (frame p ++ r).length = 4 + p.length + r.length := by simp
  have hbody : (frame p ++ r).drop 4 = p ++ r := rfl
  rw [decodeBytes, hdeclared, if_neg (by omega), if_neg (by omega), if_neg (by omega),
    ← List.drop_drop, hbody, List.take_left, List.drop_left]

/-- A call returns a payload exactly when the buffer starts with its packet. -/
theorem decodeBytes_eq_some_iff {s p r : Bytes} :
    decodeBytes s = (some p, r) ↔ s = frame p ++ r ∧ p.length ≤ maxPayload := by
  constructor
  · intro h
    unfold decodeBytes at h
    split at h
    · cases h
    · split at h
      · cases h
      · split at h
        · cases h
        · rename_i hfour hlimit hshort
          simp only [Prod.mk.injEq, Option.some.injEq] at h
          obtain ⟨hp, hr⟩ := h
          have hlen : p.length = declared s := by
            rw [← hp, List.length_take, List.length_drop]
            omega
          have hhead : htonl p.length = s.take 4 := by
            rw [hlen]
            exact htonl_ntohl (List.length_take_of_le (by omega))
          refine ⟨?_, by omega⟩
          rw [frame, hhead, ← hp, ← hr, List.append_assoc, ← List.drop_drop,
            List.take_append_drop, List.take_append_drop]
  · rintro ⟨rfl, h⟩
    exact decodeBytes_frame_append h r

def byteDecoder : Decoder Bytes Bytes where
  decode := decodeBytes
  size := List.length
  shrinks s p r h := by
    obtain ⟨rfl, _⟩ := decodeBytes_eq_some_iff.mp h
    simp only [List.length_append, frame_length]
    omega

theorem decode_shrinks (r : RingBuffer) (p : Bytes) (t : RingBuffer)
    (h : decode r = (some p, t)) : t.count < r.count := by
  unfold decode at h
  dsimp only at h
  split at h
  · cases h
  · split at h
    · cases h
    · split at h
      · cases h
      · rename_i hfour _ _
        have hcount : 4 ≤ r.count := Nat.le_of_not_lt hfour
        have ht : (r.consume 4).consume (ntohl (r.peek 4)) = t := congrArg Prod.snd h
        rw [← ht]
        simp only [RingBuffer.consume, Nat.min_eq_left hcount]
        omega

def decoder : Decoder RingBuffer Bytes where
  decode := decode
  size := RingBuffer.count
  shrinks := decode_shrinks

/-- On a well-formed buffer the decoder acts on the stored bytes alone. -/
theorem decode_contents {r : RingBuffer} (h : r.WellFormed) :
    decodeBytes r.contents = ((decode r).1, (decode r).2.contents) := by
  have hlen := RingBuffer.contents_length h
  have hheader : ntohl (r.peek 4) = declared r.contents := by
    rw [RingBuffer.peek_eq_take h, declared]
  unfold decode decodeBytes
  simp only [hheader, RingBuffer.size, ← hlen]
  by_cases hfour : r.contents.length < 4
  · simp only [hfour, if_true]
  by_cases hlimit : maxPayload < declared r.contents
  · simp only [hfour, hlimit, if_true, if_false]
    rw [RingBuffer.consume_contents h, List.drop_length]
  have hmod : (4 + declared r.contents) % 2 ^ 32 = 4 + declared r.contents := by
    apply Nat.mod_eq_of_lt
    have : maxPayload + 4 < 2 ^ 32 := by decide
    omega
  by_cases hshort : r.contents.length < 4 + declared r.contents
  · simp only [hfour, hlimit, hmod, hshort, if_true, if_false]
  · have hbody := RingBuffer.consume_wellFormed h 4
    have hpayload : ((r.contents.drop 4).take (declared r.contents)).length =
        (List.replicate (declared r.contents) (0 : UInt8)).length := by
      rw [List.length_take, List.length_drop, List.length_replicate]
      omega
    simp only [hfour, hlimit, hmod, hshort, if_false]
    rw [RingBuffer.peek_eq_take hbody, RingBuffer.consume_contents hbody,
      RingBuffer.consume_contents h, List.drop_drop, overwrite_all _ _ hpayload]

theorem decode_wellFormed {r : RingBuffer} (h : r.WellFormed) :
    (decode r).2.WellFormed ∧ (decode r).2.capacity = r.capacity := by
  unfold decode
  dsimp only
  split
  · exact ⟨h, rfl⟩
  · split
    · exact ⟨RingBuffer.consume_wellFormed h _, rfl⟩
    · split
      · exact ⟨h, rfl⟩
      · exact ⟨RingBuffer.consume_wellFormed (RingBuffer.consume_wellFormed h 4) _, rfl⟩

/-- The decoder of ring buffers is simulated by the decoder of byte lists. -/
theorem decoder_simulates (n : ℕ) :
    Decoder.Simulates decoder byteDecoder RingBuffer.contents
      (fun r => r.WellFormed ∧ r.capacity = n) where
  decode_eq _ h := decode_contents h.1
  preserves _ h := ⟨(decode_wellFormed h.1).1, (decode_wellFormed h.1).2.trans h.2⟩

end ChatServer.PacketCodec
