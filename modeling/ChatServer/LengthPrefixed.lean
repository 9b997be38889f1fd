import ChatServer.PacketCodec

/-!
The protocol of the third version. The server has two encoders, one that builds
a packet for a single connection and one that fills a buffer for a broadcast;
the client has a decoder of its own, which works on a string. `frame` is the
packet that all three agree on.
-/
namespace ChatServer.LengthPrefixed

open PacketCodec Lib.CyclicList Lib.StreamDecoder

section Server

/-- The overload that returns the packet. -/
def encode (msg : Bytes) : Bytes :=
  let packet := List.replicate (4 + msg.length) 0
  overwrite (overwrite packet 0 (htonl msg.length)) 4 msg

/-- The overload that writes into `out`, which is cleared first. -/
def encodeInto (msg _out : Bytes) : Bytes :=
  let cleared : Bytes := []
  let headed := cleared ++ htonl msg.length
  headed ++ msg

theorem encode_eq (msg : Bytes) : encode msg = frame msg := by
  have hpacket : List.replicate (4 + msg.length) (0 : UInt8) =
      List.replicate 4 0 ++ List.replicate msg.length 0 := List.replicate_add ..
  have hheader : overwrite (List.replicate 4 (0 : UInt8)) 0 (htonl msg.length) =
      htonl msg.length := overwrite_all _ _ rfl
  have hbody : overwrite (List.replicate msg.length (0 : UInt8)) 0 msg = msg :=
    overwrite_all _ _ List.length_replicate.symm
  rw [encode, hpacket, overwrite_append_left _ _ _ _ (Nat.le_refl 4), hheader,
    overwrite_append_right _ _ _ _ (Nat.le_refl 4), frame]
  exact congrArg _ hbody

theorem encodeInto_eq (msg out : Bytes) : encodeInto msg out = frame msg := rfl

end Server

section Client

/-- The message without a newline at its end. -/
def trimmed (msg : Bytes) : Bytes :=
  if msg.getLast? = some newline then msg.dropLast else msg

/-- One turn of the loop in process_buffer: what it pushes, and the rest of `in_buf_`. -/
def takeMessage (inBuf : Bytes) : Option Bytes × Bytes :=
  if inBuf.length < 4 then (none, inBuf)
  else
    let payloadLen := ntohl (inBuf.take 4)
    if inBuf.length < 4 + payloadLen then (none, inBuf)
    else
      let msg := (inBuf.drop 4).take payloadLen
      (some (trimmed msg), inBuf.drop (4 + payloadLen))

def stringDecoder : Decoder Bytes Bytes where
  decode := takeMessage
  size := List.length
  shrinks s a t h := by
    unfold takeMessage at h
    split at h
    · cases h
    · dsimp only at h
      split at h
      · cases h
      · have ht := congrArg Prod.snd h
        dsimp only at ht
        rw [← ht, List.length_drop]
        omega

/-- The messages that are pushed, and what is left in `in_buf_`. -/
def processBuffer (inBuf : Bytes) : List Bytes × Bytes := stringDecoder.drain inBuf

/-- The loop that appends what recv returns and calls process_buffer. -/
def receiveChunks (inBuf : Bytes) (chunks : List Bytes) : List Bytes × Bytes :=
  stringDecoder.feed inBuf chunks

/-- The buffer holds a part of the first packet of these messages. -/
def Incomplete (inBuf : Bytes) : List Bytes → Prop
  | [] => inBuf = []
  | msg :: _ => inBuf <+: encode msg ∧ inBuf ≠ encode msg

end Client

section Stream

variable {msg : Bytes} {msgs : List Bytes}

theorem takeMessage_frame (h : msg.length < 2 ^ 32) (rest : Bytes) :
    takeMessage (frame msg ++ rest) = (some (trimmed msg), rest) := by
  have hdeclared : ntohl ((frame msg ++ rest).take 4) = msg.length :=
    declared_frame_append_of_lt h rest
  have hlen : (frame msg ++ rest).length = 4 + msg.length + rest.length := by simp
  have hbody : (frame msg ++ rest).drop 4 = msg ++ rest := rfl
  rw [takeMessage, hdeclared, if_neg (by omega), if_neg (by omega), ← List.drop_drop, hbody,
    List.take_left, List.drop_left]

/-- A part of a packet is kept. -/
theorem takeMessage_part (h : msg.length < 2 ^ 32) {part : Bytes} (hpart : part <+: frame msg)
    (hne : part ≠ frame msg) : takeMessage part = (none, part) := by
  obtain ⟨tail, htail⟩ := hpart
  have hshort : part.length < 4 + msg.length := by
    have hlen := congrArg List.length htail
    have htailPos : 0 < tail.length := by
      refine List.length_pos_iff.mpr fun hnil => hne ?_
      rw [← htail, hnil, List.append_nil]
    rw [List.length_append, frame_length] at hlen
    omega
  unfold takeMessage
  split
  · rfl
  · rename_i hfour
    have hdeclared : ntohl (part.take 4) = msg.length := by
      have hwhole := declared_frame_append_of_lt h []
      rw [List.append_nil, ← htail] at hwhole
      exact (declared_append (Nat.le_of_not_lt hfour) tail).symm.trans hwhole
    rw [hdeclared]
    exact if_pos hshort

theorem stringDecoder_stable : stringDecoder.Stable where
  waits s t h := by
    simp only [stringDecoder, takeMessage] at h
    split at h
    · exact (congrArg Prod.snd h).symm
    · split at h
      · exact (congrArg Prod.snd h).symm
      · cases h
  stays s a t u h := by
    simp only [stringDecoder, takeMessage] at h
    split at h
    · cases h
    · split at h
      · cases h
      · rename_i hfour hlong
        obtain ⟨ha, ht⟩ := Prod.mk.inj h
        have hdeclared : ntohl ((s ++ u).take 4) = ntohl (s.take 4) :=
          declared_append (Nat.le_of_not_lt hfour) u
        simp only [stringDecoder, takeMessage, hdeclared, List.length_append]
        rw [if_neg (by omega), if_neg (by omega), ← ha, ← ht,
          List.drop_append_of_le_length (by omega), List.take_append_of_le_length,
          List.drop_append_of_le_length (by omega)]
        rw [List.length_drop]
        omega

/-- Packets and a part of the next one are read as the messages, and the part is left. -/
theorem processBuffer_frames (hmsgs : ∀ m ∈ msgs, m.length < 2 ^ 32) {part : Bytes}
    (hpart : takeMessage part = (none, part)) :
    processBuffer (frames msgs ++ part) = (msgs.map trimmed, part) := by
  induction msgs with
  | nil => exact stringDecoder.drain_of_none hpart
  | cons msg msgs ih =>
    have hmsg : stringDecoder.decode (frame msg ++ (frames msgs ++ part)) =
        (some (trimmed msg), frames msgs ++ part) :=
      takeMessage_frame (hmsgs msg List.mem_cons_self) _
    have hrest : stringDecoder.drain (frames msgs ++ part) = (msgs.map trimmed, part) :=
      ih fun m hm => hmsgs m (List.mem_cons_of_mem _ hm)
    rw [processBuffer, frames_cons, List.append_assoc, stringDecoder.drain_of_some hmsg, hrest,
      List.map_cons]

/-- A stream of packets can be cut into whole packets and a part of the next one. -/
theorem exists_position {s : Bytes} (hs : s <+: frames msgs) :
    ∃ sent todo part, msgs = sent ++ todo ∧ s = frames sent ++ part ∧ Incomplete part todo := by
  induction msgs generalizing s with
  | nil =>
    rw [frames_nil, List.prefix_nil] at hs
    exact ⟨[], [], s, rfl, rfl, hs⟩
  | cons msg msgs ih =>
    by_cases hlong : (frame msg).length ≤ s.length
    · obtain ⟨rest, rfl⟩ := List.prefix_of_prefix_length_le (List.prefix_append _ _) hs hlong
      rw [frames_cons, List.prefix_append_right_inj] at hs
      obtain ⟨sent, todo, part, rfl, rfl, hpart⟩ := ih hs
      exact ⟨msg :: sent, todo, part, rfl, by rw [frames_cons, List.append_assoc], hpart⟩
    · have hfront : s <+: frame msg :=
        List.prefix_of_prefix_length_le hs (List.prefix_append _ _) (by omega)
      refine ⟨[], msg :: msgs, s, rfl, rfl, ?_, ?_⟩
      · rwa [encode_eq]
      · rw [encode_eq]
        rintro rfl
        exact hlong (Nat.le_refl _)

theorem takeMessage_incomplete (hmsgs : ∀ m ∈ msgs, m.length < 2 ^ 32) {part : Bytes}
    (h : Incomplete part msgs) : takeMessage part = (none, part) := by
  cases msgs with
  | nil =>
    have hnil : part = [] := h
    rw [hnil]
    rfl
  | cons msg msgs =>
    obtain ⟨hpart, hne⟩ := h
    rw [encode_eq] at hpart hne
    exact takeMessage_part (hmsgs msg List.mem_cons_self) hpart hne

/-- The packets of either encoder. -/
theorem flatten_packets {packets : List Bytes}
    (h : List.Forall₂ (fun msg packet => packet = encode msg ∨ ∃ out, packet = encodeInto msg out)
      msgs packets) : packets.flatten = frames msgs := by
  induction h with
  | nil => rfl
  | @cons msg packet msgs packets hpacket _ ih =>
    have heq : packet = frame msg := by
      rcases hpacket with rfl | ⟨out, rfl⟩
      · exact encode_eq msg
      · exact encodeInto_eq msg out
    rw [List.flatten_cons, ih, heq, frames_cons]

/-- The overloads of encode agree. However the packets of messages are cut into
chunks, the client pushes exactly the messages, each without its last newline, and
after each chunk it holds exactly the bytes of the packet that is not complete. -/
theorem framing_round_trip {msgs packets : List Bytes} (hmsgs : ∀ m ∈ msgs, m.length < 2 ^ 32)
    (hpackets : List.Forall₂
      (fun msg packet => packet = encode msg ∨ ∃ out, packet = encodeInto msg out) msgs packets)
    {chunks : List Bytes} (hchunks : chunks.flatten = packets.flatten) :
    (∀ msg out, encodeInto msg out = encode msg) ∧
    receiveChunks [] chunks = (msgs.map trimmed, []) ∧
    ∀ done, done <+: chunks → ∃ sent todo, msgs = sent ++ todo ∧
      (receiveChunks [] done).1 = sent.map trimmed ∧
      done.flatten = sent.flatMap encode ++ (receiveChunks [] done).2 ∧
      Incomplete (receiveChunks [] done).2 todo := by
  have hempty : stringDecoder.drain [] = ([], []) := stringDecoder.drain_of_none rfl
  have hfed : ∀ done, receiveChunks [] done = processBuffer done.flatten := fun done =>
    stringDecoder_stable.feed_eq hempty done
  have hstream : chunks.flatten = frames msgs := hchunks.trans (flatten_packets hpackets)
  refine ⟨fun msg out => (encodeInto_eq msg out).trans (encode_eq msg).symm, ?_, ?_⟩
  · rw [hfed, hstream]
    have hnil : takeMessage [] = (none, []) := rfl
    have hall := processBuffer_frames hmsgs hnil
    rwa [List.append_nil] at hall
  · intro done hdone
    have hprefix : done.flatten <+: frames msgs := by
      obtain ⟨later, rfl⟩ := hdone
      rw [← hstream, List.flatten_append]
      exact List.prefix_append _ _
    obtain ⟨sent, todo, part, rfl, hsplit, hpart⟩ := exists_position hprefix
    have hread : receiveChunks [] done = (sent.map trimmed, part) := by
      rw [hfed, hsplit]
      exact processBuffer_frames (fun m hm => hmsgs m (List.mem_append_left _ hm))
        (takeMessage_incomplete (fun m hm => hmsgs m (List.mem_append_right _ hm)) hpart)
    have hframes : sent.flatMap encode = frames sent := List.flatMap_congr fun m _ => encode_eq m
    rw [hread]
    exact ⟨sent, todo, rfl, rfl, hsplit.trans (congrArg (· ++ part) hframes.symm), hpart⟩

/-- A message from each encoder, with a cut inside the second header. -/
theorem framing_round_trip_cut :
    receiveChunks [] [[0, 0, 0, 2, 104, 10, 0, 0], [0, 1, 105]] = ([[104], [105]], []) := by
  have hpackets : List.Forall₂
      (fun msg packet => packet = encode msg ∨ ∃ out, packet = encodeInto msg out)
      [[104, 10], [105]] [encode [104, 10], encodeInto [105] [7]] :=
    .cons (.inl rfl) (.cons (.inr ⟨[7], rfl⟩) .nil)
  have hchunks : [[0, 0, 0, 2, 104, 10, 0, 0], [0, 1, 105]].flatten =
      [encode [104, 10], encodeInto [105] [7]].flatten := rfl
  exact (framing_round_trip (by decide) hpackets hchunks).2.1

end Stream

end ChatServer.LengthPrefixed
