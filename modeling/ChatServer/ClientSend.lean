import ChatServer.ChatProto
import ChatServer.ClientInput
import ChatServer.Lib.Runs
import ChatServer.PacketCodec

/-!
What input_loop hands to the kernel. The socket does not block, so a send may
take only a part of the packet, or nothing; the loop does not look at what it
returns. As long as nothing is owed this does no harm. But the next packet is
sent as if the one before were complete, and a command that changes the room
has done so whether its packet went out or not.
-/
namespace ChatServer.ClientSend

open ClientInput PacketCodec Lib.Runs Lib.StreamDecoder

structure Sender where
  client : Client
  /-- The messages of the valid lines. -/
  messages : List ClientMessage
  /-- The bytes that the kernel has taken. -/
  handed : Bytes

/-- What the kernel takes of a packet: a number of bytes, or none and EAGAIN. -/
def taken (packet : Bytes) : Option ℕ → Bytes
  | some n => packet.take n
  | none => []

/-- A message that changes `current_room_`. -/
def isJoin : ClientMessage → Bool
  | .joinRoom _ => true
  | _ => false

section Sending

variable (serialize : ClientMessage → Bytes)

/-- A turn of the loop that reads the character; the second component is the
result of its send, if it comes to one. -/
def Sender.turn (s : Sender) (a : Char × Option ℕ) : Sender :=
  if s.client.running then
    let (client, msg) := s.client.key a.1
    match msg with
    | some m => ⟨client, s.messages ++ [m], s.handed ++ taken (encode serialize m) a.2⟩
    | none => { s with client := client }
  else s

/-- The client when login has returned. -/
def Sender.new : Sender := ⟨.new, [], []⟩

/-- The frames of all messages. -/
def Sender.stream (s : Sender) : Bytes := frames (s.messages.map serialize)

/-- The part of the frames that the kernel has not taken. -/
def Sender.owed (s : Sender) : Bytes := (s.stream serialize).drop s.handed.length

/-- The kernel has a prefix of the frames, and all of those that changed the room. -/
structure Framed (s : Sender) : Prop where
  stream : s.handed <+: s.stream serialize
  joined : ∀ before m, before ++ [m] <+: s.messages → isJoin m = true →
    frames ((before ++ [m]).map serialize) <+: s.handed

/-- What is sent of the message goes on where the kernel is in the frames. -/
def GoesOn (s : Sender) (m : ClientMessage) (result : Option ℕ) : Prop :=
  taken (encode serialize m) result <+: s.owed serialize ++ encode serialize m

/-- It does, and a message that changes the room is sent whole, with nothing owed. -/
def Fits (s : Sender) (m : ClientMessage) (result : Option ℕ) : Prop :=
  GoesOn serialize s m result ∧
    (isJoin m = true → s.owed serialize = [] ∧
      taken (encode serialize m) result = encode serialize m)

/-- The same for a turn of the loop. -/
def TurnFits (s : Sender) (a : Char × Option ℕ) : Prop :=
  s.client.running = true → ∀ m ∈ (s.client.key a.1).2, Fits serialize s m a.2

def TurnGoesOn (s : Sender) (a : Char × Option ℕ) : Prop :=
  s.client.running = true → ∀ m ∈ (s.client.key a.1).2, GoesOn serialize s m a.2

end Sending

section Turns

variable {serialize : ClientMessage → Bytes} {s : Sender}

theorem taken_le (packet : Bytes) (result : Option ℕ) : taken packet result <+: packet := by
  cases result with
  | none => exact List.nil_prefix
  | some n => exact List.take_prefix n packet

theorem handed_append_owed (h : s.handed <+: s.stream serialize) :
    s.handed ++ s.owed serialize = s.stream serialize := by
  obtain ⟨rest, hrest⟩ := h
  rw [Sender.owed, ← hrest, List.drop_left]

/-- The frames are those of the messages before and the packet. -/
theorem stream_snoc (client : Client) (m : ClientMessage) (handed : Bytes) :
    Sender.stream serialize ⟨client, s.messages ++ [m], handed⟩ =
      s.stream serialize ++ encode serialize m := by
  simp only [Sender.stream, List.map_append, List.map_cons, List.map_nil, frames_append,
    frames_cons, frames_nil, List.append_nil, encode]

/-- The kernel has a prefix of the frames after the send exactly if it goes on in them. -/
theorem handed_send {client : Client} {m : ClientMessage} {result : Option ℕ}
    (h : s.handed <+: s.stream serialize) :
    s.handed ++ taken (encode serialize m) result <+:
        Sender.stream serialize
          ⟨client, s.messages ++ [m], s.handed ++ taken (encode serialize m) result⟩ ↔
      GoesOn serialize s m result := by
  rw [stream_snoc, ← handed_append_owed h, List.append_assoc, List.prefix_append_right_inj,
    GoesOn]

theorem handed_turn (h : s.handed <+: s.stream serialize) {a : Char × Option ℕ}
    (ha : TurnGoesOn serialize s a) :
    (s.turn serialize a).handed <+: (s.turn serialize a).stream serialize := by
  unfold Sender.turn
  split
  · rename_i hrunning
    dsimp only
    split
    · rename_i m hmsg
      exact (handed_send h).mpr (ha hrunning m hmsg)
    · exact h
  · exact h

/-- A client that sends nothing stays as it was. -/
theorem framed_silent {client : Client} :
    Framed serialize { s with client := client } ↔ Framed serialize s :=
  ⟨fun h => ⟨h.stream, h.joined⟩, fun h => ⟨h.stream, h.joined⟩⟩

/-- All that is owed and the packet are taken only when nothing is owed. -/
theorem owed_nil_of_eq {owed packet : Bytes} {result : Option ℕ}
    (h : taken packet result = owed ++ packet) : owed = [] ∧ taken packet result = packet := by
  have hle := (taken_le packet result).length_le
  rw [h, List.length_append] at hle
  have hnil : owed = [] := List.length_eq_zero_iff.mp (by omega)
  refine ⟨hnil, ?_⟩
  rw [h, hnil, List.nil_append]

theorem framed_send {client : Client} {m : ClientMessage} {result : Option ℕ}
    (h : Framed serialize s) :
    Framed serialize
        ⟨client, s.messages ++ [m], s.handed ++ taken (encode serialize m) result⟩ ↔
      Fits serialize s m result := by
  constructor
  · intro hafter
    have hahead := (handed_send h.stream).mp hafter.stream
    refine ⟨hahead, ?_⟩
    intro hjoin
    have hwhole := hafter.joined s.messages m (List.prefix_refl _) hjoin
    change Sender.stream serialize
      ⟨client, s.messages ++ [m], s.handed ++ taken (encode serialize m) result⟩ <+: _ at hwhole
    rw [stream_snoc, ← handed_append_owed h.stream, List.append_assoc,
      List.prefix_append_right_inj] at hwhole
    exact owed_nil_of_eq (hahead.eq_of_length_le hwhole.length_le)
  · intro ⟨hahead, hjoin⟩
    refine ⟨(handed_send h.stream).mpr hahead, ?_⟩
    intro before m' hbefore hjoins
    rcases List.prefix_concat_iff.mp hbefore with heq | hold
    · obtain ⟨hnil, hwhole⟩ := hjoin (by
        obtain ⟨_, hm⟩ := List.append_inj' heq rfl
        cases hm
        exact hjoins)
      rw [heq, hwhole]
      change Sender.stream serialize ⟨client, s.messages ++ [m], s.handed⟩ <+: _
      rw [stream_snoc, ← handed_append_owed h.stream, hnil, List.append_nil]
    · exact (h.joined before m' hold hjoins).trans (List.prefix_append _ _)

/-- A turn keeps the frames in order exactly if what it sends fits. -/
theorem framed_turn (h : Framed serialize s) (a : Char × Option ℕ) :
    Framed serialize (s.turn serialize a) ↔ TurnFits serialize s a := by
  unfold Sender.turn TurnFits
  split
  · rename_i hrunning
    dsimp only
    split
    · rename_i m hmsg
      rw [framed_send h]
      constructor
      · intro hfits _ m' hm'
        cases hmsg.symm.trans hm'
        exact hfits
      · intro hfits
        exact hfits hrunning m hmsg
    · rename_i hnone
      rw [framed_silent]
      refine iff_of_true h fun _ m hm => ?_
      rw [hnone] at hm
      cases hm
  · rename_i hstopped
    exact iff_of_true h fun hrunning => absurd hrunning hstopped

/-- What is left of a packet is not taken for another one. -/
theorem decodeBytes_of_lt {p s rest : Bytes} (hsize : p.length ≤ maxPayload)
    (hs : s <+: frame p ++ rest) (hlt : s.length < (frame p).length) :
    decodeBytes s = (none, s) := by
  rw [frame_length] at hlt
  unfold decodeBytes
  split
  · rfl
  · rename_i hfour
    have hdeclared : declared s = p.length := by
      obtain ⟨more, hmore⟩ := hs
      rw [← declared_append (by omega) more, hmore]
      exact declared_frame_append hsize rest
    rw [hdeclared, if_neg (by omega), if_pos hlt]

/-- A server that decodes a prefix of the frames finds the messages in order. -/
theorem drain_of_frames {ps : List Bytes} (hsize : ∀ p ∈ ps, p.length ≤ maxPayload) {s : Bytes}
    (hs : s <+: frames ps) : (byteDecoder.drain s).1 <+: ps := by
  induction ps generalizing s with
  | nil =>
    have hnil : s = [] := List.prefix_nil.mp hs
    rw [hnil, Decoder.drain_of_none byteDecoder rfl]
  | cons p ps ih =>
    have hp := hsize p (by simp)
    rw [frames_cons] at hs
    by_cases hlt : s.length < (frame p).length
    · have hnone : byteDecoder.decode s = (none, s) := decodeBytes_of_lt hp hs hlt
      rw [Decoder.drain_of_none byteDecoder hnone]
      exact List.nil_prefix
    · obtain ⟨rest, hrest⟩ := List.prefix_of_prefix_length_le (List.prefix_append _ _) hs
        (by omega)
      rw [← hrest, List.prefix_append_right_inj] at hs
      have hsome : byteDecoder.decode s = (some p, rest) := by
        rw [← hrest]
        exact decodeBytes_frame_append hp rest
      rw [Decoder.drain_of_some byteDecoder hsome]
      exact List.cons_prefix_cons.mpr ⟨rfl, ih (fun q hq => hsize q (by simp [hq])) hs⟩

/-- Without a message that changes it the room stays. -/
theorem roomAfter_of_not_join {room : String} {m : ClientMessage} (h : isJoin m = false) :
    roomAfter room m = room := by
  cases m with
  | joinRoom req => cases h
  | _ => rfl

/-- The room after the messages is the one after those that the kernel has whole. -/
theorem room_of_joined {handed : Bytes} (room : String) (messages : List ClientMessage)
    (h : ∀ before m, before ++ [m] <+: messages → isJoin m = true →
      frames ((before ++ [m]).map serialize) <+: handed) :
    ∃ sent, sent <+: messages ∧ frames (sent.map serialize) <+: handed ∧
      messages.foldl roomAfter room = sent.foldl roomAfter room := by
  induction messages using List.reverseRecOn with
  | nil => exact ⟨[], List.nil_prefix, List.nil_prefix, rfl⟩
  | append_singleton messages m ih =>
    cases hjoin : isJoin m with
    | true =>
      have hwhole := h messages m (List.prefix_refl _) hjoin
      exact ⟨messages ++ [m], List.prefix_refl _, hwhole, rfl⟩
    | false =>
      obtain ⟨sent, hsent, hhanded, hroom⟩ := ih fun before m' hbefore hm' =>
        h before m' (hbefore.trans (List.prefix_append _ _)) hm'
      refine ⟨sent, hsent.trans (List.prefix_append _ _), hhanded, ?_⟩
      rw [List.foldl_append, List.foldl_cons, List.foldl_nil, roomAfter_of_not_join hjoin, hroom]

/-- The sends do not change what the client does. -/
theorem turns_typing (serialize : ClientMessage → Bytes) (turns : List (Char × Option ℕ)) :
    ((turns.foldl (Sender.turn serialize) .new).client,
        (turns.foldl (Sender.turn serialize) .new).messages) =
      typing (turns.map Prod.fst) := by
  induction turns using List.reverseRecOn with
  | nil => rfl
  | append_singleton turns a ih =>
    rw [typing, List.map_append, List.foldl_append, List.map_cons, List.map_nil, List.foldl_cons,
      List.foldl_nil, List.foldl_append, List.foldl_cons, List.foldl_nil]
    change _ = Client.turn (typing (turns.map Prod.fst)) a.1
    rw [← ih]
    generalize turns.foldl (Sender.turn serialize) .new = s
    unfold Sender.turn Client.turn
    dsimp only
    split
    · split
      · rename_i m hmsg
        simp [hmsg]
      · rename_i hnone
        simp [hnone]
    · rfl

/-- Where the frames are in order, the server decodes messages in the order of
the lines, and the client's room is the one after messages that went out. -/
theorem Framed.meaning {turns : List (Char × Option ℕ)}
    (h : Framed serialize (turns.foldl (Sender.turn serialize) .new))
    (hsize : ∀ m, (serialize m).length ≤ maxPayload) :
    (byteDecoder.drain (turns.foldl (Sender.turn serialize) .new).handed).1 <+:
        (turns.foldl (Sender.turn serialize) .new).messages.map serialize ∧
      ∃ sent, sent <+: (turns.foldl (Sender.turn serialize) .new).messages ∧
        frames (sent.map serialize) <+: (turns.foldl (Sender.turn serialize) .new).handed ∧
        (turns.foldl (Sender.turn serialize) .new).client.currentRoom =
          sent.foldl roomAfter "" := by
  refine ⟨drain_of_frames ?_ h.stream, ?_⟩
  · intro p hp
    obtain ⟨m, _, rfl⟩ := List.mem_map.mp hp
    exact hsize m
  · obtain ⟨hclient, hmessages⟩ := Prod.mk.inj (turns_typing serialize turns)
    obtain ⟨sent, hsent, hhanded, hroom⟩ := room_of_joined "" _ h.joined
    refine ⟨sent, hsent, hhanded, ?_⟩
    rw [← hroom, hclient, hmessages]
    exact typing_room _

end Turns

/-- At all times the kernel has a prefix of the frames of the valid lines, with
all commands that changed the room, exactly if every packet fits when it is sent. -/
theorem output_framed_iff (serialize : ClientMessage → Bytes) (turns : List (Char × Option ℕ)) :
    (∀ done, done <+: turns → Framed serialize (done.foldl (Sender.turn serialize) .new)) ↔
      ∀ done a, done ++ [a] <+: turns →
        TurnFits serialize (done.foldl (Sender.turn serialize) .new) a := by
  refine throughout_iff (K := fun _ => True) (I := fun _ => True) (P := Framed serialize)
    (fun _ _ _ _ => trivial) (fun s a _ _ h => framed_turn h a) trivial ?_ fun _ _ => trivial
  exact ⟨List.prefix_refl _, fun before m hbefore _ => by simp [Sender.new] at hbefore⟩

section Samples

/-- Keys whose sends, if there are any, return this. -/
def typed (line : String) (result : Option ℕ) : List (Char × Option ℕ) :=
  line.toList.map fun k => (k, result)

/-- The packet of a command does not go out and the one of the next line does.
The client is in the room, and the kernel has none of the join's bytes. -/
theorem join_unsent :
    let s := (typed "/join r\n" none ++ typed "hi\n" (some 100)).foldl
      (Sender.turn ChatProto.serializeClient) .new
    s.client.currentRoom = "r" ∧
      s.handed = encode ChatProto.serializeClient (.roomChat ⟨"r", "hi"⟩) ∧
      ¬ Framed ChatProto.serializeClient s := by
  intro s
  have hstate : s.client.currentRoom = "r" ∧
      s.handed = encode ChatProto.serializeClient (.roomChat ⟨"r", "hi"⟩) ∧
      ¬ s.handed <+: s.stream ChatProto.serializeClient := by
    decide +kernel
  obtain ⟨hroom, hhanded, hnot⟩ := hstate
  exact ⟨hroom, hhanded, fun h => hnot h.stream⟩

end Samples

end ChatServer.ClientSend
