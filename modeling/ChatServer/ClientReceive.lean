import ChatServer.ChatProto
import ChatServer.LogicThread
import ChatServer.ReceivePath

/-!
The receive loop of the client. It reads into a ring buffer of 8192 bytes and
handles the messages that it can decode; when the buffer is full it throws the
contents away. A packet that does not fit the buffer is lost in this way, and
the loop goes on inside of it. The answer to a request has the text of the
request with names and a few words around it, so it may not fit although the
packet of the request did.
-/
namespace ChatServer.ClientReceive

open PacketCodec ReceivePath Lib.StreamDecoder

/-- The size of `in_buf_`. -/
def inBufSize : ℕ := 8192

/-- `codec_->decode<chat::ServerMessage>` on a buffer. -/
def messageDecoder (parse : Bytes → Option ServerMessage) : Decoder RingBuffer ServerMessage :=
  decoder.andThen parse

/-- A turn that finds the buffer full discards it and does not read. -/
def makeRoom (buf : RingBuffer) : RingBuffer :=
  if buf.getWriteableIovecs.isEmpty then buf.consume buf.size else buf

/-- A turn that reads, with the decode loop; it returns what handle_server_message
is called with. -/
def readTurn (parse : Bytes → Option ServerMessage) (buf : RingBuffer) (chunk : Bytes) :
    List ServerMessage × RingBuffer :=
  (messageDecoder parse).drain (buf.receive chunk)

/-- The loop over the results of readv. -/
def receiveLoop (parse : Bytes → Option ServerMessage) (buf : RingBuffer) :
    List Bytes → List ServerMessage × RingBuffer
  | [] => ([], buf)
  | chunk :: rest =>
      let (handled, decoded) := readTurn parse (makeRoom buf) chunk
      let (later, last) := receiveLoop parse decoded rest
      (handled ++ later, last)

/-- Each readv returns at least a byte, and no more than the space it was offered. -/
def Offered (parse : Bytes → Option ServerMessage) (buf : RingBuffer) : List Bytes → Prop
  | [] => True
  | chunk :: rest =>
      0 < chunk.length ∧
        chunk.length ≤ ((makeRoom buf).getWriteableIovecs.map Iovec.iovLen).sum ∧
        Offered parse (readTurn parse (makeRoom buf) chunk).2 rest

def Good (buf : RingBuffer) : Prop := buf.WellFormed ∧ buf.capacity = inBufSize

variable {parse : Bytes → Option ServerMessage} {buf : RingBuffer} {chunk : Bytes}
  {chunks : List Bytes}

section Turns

theorem new_good : Good (.new inBufSize) :=
  ⟨RingBuffer.new_wellFormed _ (by decide), RingBuffer.new_capacity _⟩

theorem Good.freeSpace (h : Good buf) :
    (buf.getWriteableIovecs.map Iovec.iovLen).sum = inBufSize - buf.contents.length := by
  rw [RingBuffer.getWriteableIovecs_total, RingBuffer.freeSpace_eq h.1, h.2]

theorem Good.contents_le (h : Good buf) : buf.contents.length ≤ inBufSize := by
  rw [← h.2]
  exact RingBuffer.contents_length_le h.1

theorem Good.full_iff (h : Good buf) :
    buf.getWriteableIovecs.isEmpty = true ↔ buf.contents.length = inBufSize := by
  rw [RingBuffer.getWriteableIovecs_isEmpty_iff h.1, h.2]

theorem Good.makeRoom (h : Good buf) :
    Good (makeRoom buf) ∧ (ClientReceive.makeRoom buf).contents.length < inBufSize := by
  unfold ClientReceive.makeRoom
  split
  · refine ⟨⟨RingBuffer.consume_wellFormed h.1 _, h.2⟩, ?_⟩
    rw [RingBuffer.consume_contents h.1, List.length_drop, RingBuffer.contents_length h.1]
    have hsize : buf.size = buf.count := rfl
    have hpos : 0 < inBufSize := by decide
    omega
  · rename_i hroom
    rw [h.full_iff] at hroom
    have hle := h.contents_le
    exact ⟨h, by omega⟩

theorem makeRoom_of_lt (h : Good buf) (hlt : buf.contents.length < inBufSize) :
    makeRoom buf = buf := by
  refine if_neg ?_
  rw [h.full_iff]
  omega

/-- A turn on the bytes that the buffer holds. -/
theorem Good.readTurn (h : Good buf) (parse : Bytes → Option ServerMessage)
    (hle : buf.contents.length + chunk.length ≤ inBufSize) :
    (byteDecoder.andThen parse).drain (buf.contents ++ chunk) =
        ((readTurn parse buf chunk).1, (ClientReceive.readTurn parse buf chunk).2.contents) ∧
      Good (ClientReceive.readTurn parse buf chunk).2 := by
  have hfree : chunk.length ≤ buf.freeSpace := by
    rw [RingBuffer.freeSpace_eq h.1, h.2]
    omega
  have hreceived : Good (buf.receive chunk) :=
    ⟨RingBuffer.receive_wellFormed h.1 chunk hfree,
      (RingBuffer.receive_capacity h.1 chunk hfree).trans h.2⟩
  have hdrain := ((decoder_simulates inBufSize).andThen parse).drain_eq hreceived
  rw [RingBuffer.receive_contents h.1 chunk hfree] at hdrain
  exact hdrain

end Turns

section Fits

/-- What is decoded off a buffer was read from a packet in it. -/
theorem packet_of_mem {s : Bytes} {m : ServerMessage}
    (h : m ∈ ((byteDecoder.andThen parse).drain s).1) :
    ∃ p, parse p = some m ∧ (frame p).length ≤ s.length := by
  refine Decoder.mem_drain (P := fun s m => ∃ p, parse p = some m ∧ (frame p).length ≤ s.length)
    ?_ ?_ h
  · intro s m t hdecode
    obtain ⟨hread, _⟩ := Prod.mk.inj hdecode
    obtain ⟨p, hp, hparse⟩ := Option.bind_eq_some_iff.mp hread
    have hsome : decodeBytes s = (some p, (decodeBytes s).2) := Prod.ext hp rfl
    refine ⟨p, hparse, ?_⟩
    rw [(decodeBytes_eq_some_iff.mp hsome).1, List.length_append]
    exact Nat.le_add_right _ _
  · rintro s _ t hdecode m ⟨p, hparse, hlen⟩
    exact ⟨p, hparse, hlen.trans (Nat.le_of_lt ((byteDecoder.andThen parse).shrinks s _ t hdecode))⟩

/-- What the loop handles comes in packets that fit the buffer. -/
theorem packet_of_handled (h : Good buf) (hoffered : Offered parse buf chunks) {m : ServerMessage}
    (hm : m ∈ (receiveLoop parse buf chunks).1) :
    ∃ p, parse p = some m ∧ (frame p).length ≤ inBufSize := by
  induction chunks generalizing buf with
  | nil => exact absurd hm List.not_mem_nil
  | cons chunk rest ih =>
    obtain ⟨hroom, _⟩ := h.makeRoom
    obtain ⟨_, hle, hlater⟩ := hoffered
    have hcontents := hroom.contents_le
    rw [hroom.freeSpace] at hle
    have hfit : (makeRoom buf).contents.length + chunk.length ≤ inBufSize := by omega
    obtain ⟨hdrain, hgood⟩ := hroom.readTurn parse hfit
    rcases List.mem_append.mp hm with hm | hm
    · have hfirst : m ∈ ((byteDecoder.andThen parse).drain
          ((makeRoom buf).contents ++ chunk)).1 := by
        rw [hdrain]
        exact hm
      obtain ⟨p, hparse, hlen⟩ := packet_of_mem hfirst
      rw [List.length_append] at hlen
      exact ⟨p, hparse, hlen.trans hfit⟩
    · exact ih hgood hlater hm

end Fits

section Delivery

variable {serialize : ServerMessage → Bytes} {ms : List ServerMessage}

/-- The packets of messages. -/
theorem flatMap_encode (serialize : ServerMessage → Bytes) (ms : List ServerMessage) :
    ms.flatMap (encode serialize) = frames (ms.map serialize) := by
  unfold frames encode
  rw [List.flatMap_map]

theorem filterMap_parse (hparse : ∀ m ∈ ms, parse (serialize m) = some m) :
    (ms.map serialize).filterMap parse = ms := by
  induction ms with
  | nil => rfl
  | cons m ms ih =>
    rw [List.map_cons, List.filterMap_cons_some (hparse m List.mem_cons_self),
      ih fun m hm => hparse m (List.mem_cons_of_mem _ hm)]

/-- One turn inside of a stream of packets handles those that are complete. -/
theorem turn_delivers (h : Good buf) (hfit : buf.contents.length + chunk.length ≤ inBufSize)
    (hparse : ∀ m ∈ ms, parse (serialize m) = some m)
    (hpayload : ∀ m ∈ ms, (serialize m).length ≤ maxPayload)
    (hstream : buf.contents ++ chunk <+: frames (ms.map serialize)) :
    ∃ done todo, ms = done ++ todo ∧ (readTurn parse buf chunk).1 = done ∧
      buf.contents ++ chunk =
        frames (done.map serialize) ++ (readTurn parse buf chunk).2.contents ∧
      decodeBytes (readTurn parse buf chunk).2.contents =
        (none, (readTurn parse buf chunk).2.contents) := by
  obtain ⟨hdrain, _⟩ := h.readTurn parse hfit
  obtain ⟨as, last, hrun⟩ := byteDecoder.exists_decodes (buf.contents ++ chunk)
  obtain ⟨hsplit, has⟩ := decodes_frames hrun
  have hpayloads : ∀ p ∈ ms.map serialize, p.length ≤ maxPayload := by
    intro p hp
    obtain ⟨m, hm, rfl⟩ := List.mem_map.mp hp
    exact hpayload m hm
  rw [hsplit] at hstream
  obtain ⟨ps, hps, hlast⟩ := frames_unique has hpayloads hstream
  obtain ⟨done, todo, rfl, rfl, rfl⟩ := List.map_eq_append_iff.mp hps
  have hwaits : decodeBytes last = (none, last) := by
    refine decodeBytes_waits (fun p hp => hpayloads p ?_) hlast (Prod.ext hrun.last_none rfl)
    rw [List.map_append]
    exact List.mem_append_right _ hp
  have hdone : ∀ m ∈ done, parse (serialize m) = some m := fun m hm =>
    hparse m (List.mem_append_left _ hm)
  have hkept : (byteDecoder.decode last).2 = last := congrArg Prod.snd hwaits
  have hdrained := hrun.drain_eq
  rw [hkept] at hdrained
  have hread : ∀ p ∈ (byteDecoder.drain (buf.contents ++ chunk)).1, (parse p).isSome := by
    rw [hdrained]
    intro p hp
    obtain ⟨m, hm, rfl⟩ := List.mem_map.mp hp
    rw [hdone m hm]
    rfl
  rw [Decoder.drain_andThen hread, hdrained, filterMap_parse hdone] at hdrain
  obtain ⟨hhandled, hcontents⟩ := Prod.mk.inj hdrain
  rw [← hcontents]
  exact ⟨done, todo, rfl, hhandled.symm, hsplit, hwaits⟩

/-- A buffer that waits for the rest of a packet that fits is not full. -/
theorem length_lt_of_fits (hpayload : ∀ m ∈ ms, (serialize m).length ≤ maxPayload)
    (hfits : ∀ m ∈ ms, (frame (serialize m)).length ≤ inBufSize)
    (hwaits : decodeBytes buf.contents = (none, buf.contents))
    (hstart : buf.contents <+: frames (ms.map serialize)) : buf.contents.length < inBufSize := by
  cases ms with
  | nil =>
    rw [List.map_nil, frames_nil, List.prefix_nil] at hstart
    rw [hstart]
    decide
  | cons m ms =>
    have hshort := length_lt_of_waits (hpayload m List.mem_cons_self) hstart hwaits
    have hfit := hfits m List.mem_cons_self
    rw [frame_length] at hfit
    omega

/-- The loop handles all messages of a stream of packets that fit the buffer. -/
theorem loop_delivers (h : Good buf) (hoffered : Offered parse buf chunks)
    (hparse : ∀ m ∈ ms, parse (serialize m) = some m)
    (hfits : ∀ m ∈ ms, (frame (serialize m)).length ≤ inBufSize)
    (hwaits : decodeBytes buf.contents = (none, buf.contents))
    (hstream : buf.contents ++ chunks.flatten = frames (ms.map serialize)) :
    (receiveLoop parse buf chunks).1 = ms ∧ (receiveLoop parse buf chunks).2.contents = [] ∧
      Good (receiveLoop parse buf chunks).2 := by
  have hpayload : ∀ m ∈ ms, (serialize m).length ≤ maxPayload := by
    intro m hm
    have hle := hfits m hm
    rw [frame_length] at hle
    unfold inBufSize at hle
    unfold maxPayload
    omega
  induction chunks generalizing buf ms with
  | nil =>
    rw [List.flatten_nil, List.append_nil] at hstream
    cases ms with
    | nil => exact ⟨rfl, hstream, h⟩
    | cons m ms =>
      rw [hstream, List.map_cons, frames_cons,
        decodeBytes_frame_append (hpayload m List.mem_cons_self)] at hwaits
      cases hwaits
  | cons chunk rest ih =>
    obtain ⟨hpos, hle, hlater⟩ := hoffered
    rw [List.flatten_cons, ← List.append_assoc] at hstream
    have hprefix : buf.contents ++ chunk <+: frames (ms.map serialize) := by
      rw [← hstream]
      exact List.prefix_append _ _
    have hlt := length_lt_of_fits hpayload hfits hwaits ((List.prefix_append _ _).trans hprefix)
    have hroom := makeRoom_of_lt h hlt
    rw [hroom, h.freeSpace] at hle
    have hfit : buf.contents.length + chunk.length ≤ inBufSize := by omega
    obtain ⟨done, todo, rfl, hdone, hsplit, hwaits'⟩ :=
      turn_delivers h hfit hparse hpayload hprefix
    rw [hsplit, List.append_assoc, List.map_append, frames_append] at hstream
    rw [hroom] at hlater
    obtain ⟨hhandled, hcontents, hgood⟩ := ih (h.readTurn parse hfit).2 hlater
      (fun m hm => hparse m (List.mem_append_right _ hm))
      (fun m hm => hfits m (List.mem_append_right _ hm)) hwaits'
      (List.append_cancel_left hstream)
      fun m hm => hpayload m (List.mem_append_right _ hm)
    have hloop : receiveLoop parse buf (chunk :: rest) =
        (done ++ (receiveLoop parse (readTurn parse buf chunk).2 rest).1,
          (receiveLoop parse (readTurn parse buf chunk).2 rest).2) := by
      rw [← hdone]
      simp only [receiveLoop, hroom]
    rw [hloop, hhandled]
    exact ⟨rfl, hcontents, hgood⟩

/-- However the packets are cut into results of readv, the loop handles exactly
their messages, in order, and leaves an empty buffer, if and only if each packet
fits the buffer. The serialiser makes no packet longer than one that is read as
the same message. -/
theorem client_receives_iff (serialize : ServerMessage → Bytes)
    (parse : Bytes → Option ServerMessage) (ms : List ServerMessage)
    (hparse : ∀ m ∈ ms, parse (serialize m) = some m)
    (hshortest : ∀ m ∈ ms, ∀ p, parse p = some m → (serialize m).length ≤ p.length)
    (chunks : List Bytes) (hchunks : chunks.flatten = ms.flatMap (encode serialize))
    (hoffered : Offered parse (.new inBufSize) chunks) :
    ((receiveLoop parse (.new inBufSize) chunks).1 = ms ∧
      (receiveLoop parse (.new inBufSize) chunks).2.size = 0) ↔
    ∀ m ∈ ms, (encode serialize m).length ≤ inBufSize := by
  constructor
  · rintro ⟨hhandled, _⟩ m hm
    rw [← hhandled] at hm
    obtain ⟨p, hp, hlen⟩ := packet_of_handled new_good hoffered hm
    rw [hhandled] at hm
    have hle := hshortest m hm p hp
    rw [frame_length] at hlen
    rw [encode, frame_length]
    omega
  · intro hfits
    have hempty : (RingBuffer.new inBufSize).contents = [] := RingBuffer.new_contents _
    obtain ⟨hhandled, hcontents, hgood⟩ := loop_delivers new_good hoffered hparse hfits
      (by rw [hempty]; rfl) (by rw [hempty, List.nil_append, hchunks, flatMap_encode])
    refine ⟨hhandled, ?_⟩
    rw [RingBuffer.size, ← RingBuffer.contents_length hgood.1, hcontents]
    rfl

end Delivery

section Samples

open ChatProto LogicThread Lib.WireFormat

/-- Results of a byte each are always possible. -/
theorem offered_bytes (h : Good buf) (s : Bytes) : Offered parse buf (s.map fun b => [b]) := by
  induction s generalizing buf with
  | nil => trivial
  | cons b s ih =>
    obtain ⟨hroom, hlt⟩ := h.makeRoom
    refine ⟨Nat.one_pos, ?_, ih (hroom.readTurn parse ?_).2⟩
    · rw [hroom.freeSpace, List.length_singleton]
      omega
    · rw [List.length_singleton]
      omega

theorem flatten_bytes (s : Bytes) : (s.map fun b => [b]).flatten = s := by
  induction s with
  | nil => rfl
  | cons b s ih => rw [List.map_cons, List.flatten_cons, ih, List.singleton_append]

/-- The answer to a login, read a byte at a time. -/
theorem client_receives_login :
    (receiveLoop parseServer (.new inBufSize)
      ((encode serializeServer (.loginResponse ⟨true, "Login successful."⟩)).map fun b => [b])).1 =
        [.loginResponse ⟨true, "Login successful."⟩] := by
  refine ((client_receives_iff serializeServer parseServer
    [.loginResponse ⟨true, "Login successful."⟩] ?_ ?_ _ ?_ ?_).mpr ?_).1
  · exact fun m _ => parse_serializeServer m
  · intro m _ p hp
    rw [serialize_parseServer hp]
  · rw [flatten_bytes, List.flatMap_cons, List.flatMap_nil, List.append_nil]
  · exact offered_bytes new_good _
  · decide +kernel

def longText (n : ℕ) : String := String.ofList (List.replicate n 'x')

theorem longText_size (n : ℕ) : (longText n).utf8ByteSize = n := by
  rw [longText, String.utf8ByteSize_ofList]
  induction n with
  | zero => rfl
  | succ n ih =>
    rw [List.replicate_succ, String.utf8Len_cons, ih]
    rfl

/-- The packet of a request with a long text. -/
theorem request_length {n : ℕ} (hn : n < 16000) :
    (encode serializeClient (.privateChat ⟨"b", longText n⟩)).length ≤ 14 + n := by
  have hsize := longText_size n
  have htarget : (encodeFields (stringField 1 "b")).length ≤ 4 := by decide +kernel
  have htext : (encodeFields (stringField 2 (longText n))).length ≤ 3 + (longText n).utf8ByteSize :=
    stringField_length_le _ (by omega) (by omega)
  have hinner := congrArg List.length
    (encodeFields_append (stringField 1 "b") (stringField 2 (longText n)))
  rw [List.length_append] at hinner
  have houter : (encodeFields [⟨3, .bytes (encodeFields (stringField 1 "b" ++
      stringField 2 (longText n)))⟩]).length ≤
      3 + (encodeFields (stringField 1 "b" ++ stringField 2 (longText n))).length :=
    encode_bytes_length_le (by omega) (by omega)
  rw [encode, frame_length]
  dsimp only [serializeClient, clientFields]
  omega

/-- The confirmation of HandlePrivateChat. -/
def confirmation (target text : String) : ServerMessage :=
  .chatBroadcast { sender := "Server", text := "Message sent to [" ++ target ++ "]: " ++ text }

/-- The packet of the confirmation has the text and more. -/
theorem confirmation_length (n : ℕ) :
    n + 25 ≤ (encode serializeServer (confirmation "b" (longText n))).length := by
  have hsize : ("Message sent to [" ++ "b" ++ "]: " ++ longText n).utf8ByteSize = 21 + n := by
    rw [String.utf8ByteSize_append, longText_size]
    rfl
  have htext := length_le_stringField 2 ("Message sent to [" ++ "b" ++ "]: " ++ longText n)
  have houter := length_le_encode_bytes 2 (encodeFields (stringField 1 "Server" ++
    (stringField 2 ("Message sent to [" ++ "b" ++ "]: " ++ longText n) ++
      (stringField 3 "" ++ uintField 4 0))))
  have hinner := congrArg List.length (encodeFields_append (stringField 1 "Server")
    (stringField 2 ("Message sent to [" ++ "b" ++ "]: " ++ longText n) ++
      (stringField 3 "" ++ uintField 4 0)))
  rw [encodeFields_append (stringField 2 _), List.length_append, List.length_append] at hinner
  rw [encode, frame_length]
  dsimp only [serializeServer, confirmation, serverFields]
  omega

/-- A request that is parsed as what was serialised. -/
theorem handleMessage_serialized (app : ChatApp) (env : Env) (conn : ConnId)
    (msg : ClientMessage) :
    app.handleMessage parseClient env conn (serializeClient msg) =
      app.handleMessage (fun _ => some msg) env conn [] := by
  unfold ChatApp.handleMessage
  rw [parse_serializeClient]

/-- The application after connection 0 has logged in as a and connection 1 as b. -/
def sampleApp : ChatApp :=
  let connected := (ChatApp.new.handleConnect sampleEnv 0).handleConnect sampleEnv 1
  let first := (connected.handleMessage parseClient sampleEnv 0 (serializeClient (.login ⟨"a"⟩))).1
  (first.handleMessage parseClient sampleEnv 1 (serializeClient (.login ⟨"b"⟩))).1

theorem sampleApp_session : ∃ s, sampleApp.userData 0 = some s ∧ s.isLoggedIn = true ∧
    ¬ (s.refill sampleEnv.now).tokens < 1 ∧ sampleApp.onlineUsers "b" = some 1 := by
  have happ : sampleApp = ((((ChatApp.new.handleConnect sampleEnv 0).handleConnect
      sampleEnv 1).handleMessage (fun _ => some (.login ⟨"a"⟩)) sampleEnv 0 []).1.handleMessage
        (fun _ => some (.login ⟨"b"⟩)) sampleEnv 1 []).1 := by
    unfold sampleApp
    dsimp only
    rw [handleMessage_serialized, handleMessage_serialized]
  obtain ⟨s, hs, hsession⟩ : ∃ s, sampleApp.userData 0 = some s ∧
      decide (s.isLoggedIn = true ∧ ¬ (s.refill sampleEnv.now).tokens < 1) = true := by
    rw [happ]
    refine (Option.any_eq_true _ _).mp ?_
    decide +kernel
  have hsession := of_decide_eq_true hsession
  refine ⟨s, hs, hsession.1, hsession.2, ?_⟩
  rw [happ]
  decide +kernel

/-- The sender of a private message gets a confirmation. -/
theorem confirmation_sent (text : String) :
    Output.sendProto 0 (confirmation "b" text) ∈ (sampleApp.handleMessage parseClient sampleEnv 0
      (serializeClient (.privateChat ⟨"b", text⟩))).2 := by
  obtain ⟨s, hs, hin, hpaid, htarget⟩ := sampleApp_session
  rw [handleMessage_serialized]
  unfold ChatApp.handleMessage
  rw [hs]
  dsimp only
  have hcharged : (s.refill sampleEnv.now).charge.isLoggedIn = true := hin
  have htarget' : (sampleApp.setSession 0 (s.refill sampleEnv.now).charge).onlineUsers "b" =
    some 1 := htarget
  rw [if_neg hpaid]
  simp [ChatApp.dispatch, ChatApp.handlePrivateChat, hcharged, htarget', confirmation]

/-- The packet of a request fits the buffer of the server, and the packet of the
answer is lost in the buffer of the client. -/
theorem confirmation_lost :
    (encode serializeClient (.privateChat ⟨"b", longText 8170⟩)).length ≤ inBufCapacity ∧
    Output.sendProto 0 (confirmation "b" (longText 8170)) ∈ (sampleApp.handleMessage parseClient
      sampleEnv 0 (serializeClient (.privateChat ⟨"b", longText 8170⟩))).2 ∧
    ∃ chunks : List Bytes,
      chunks.flatten = [confirmation "b" (longText 8170)].flatMap (encode serializeServer) ∧
      Offered parseServer (.new inBufSize) chunks ∧
      ¬ ((receiveLoop parseServer (.new inBufSize) chunks).1 =
          [confirmation "b" (longText 8170)] ∧
        (receiveLoop parseServer (.new inBufSize) chunks).2.size = 0) := by
  have hrequest := request_length (by omega : 8170 < 16000)
  have hanswer := confirmation_length 8170
  refine ⟨hrequest.trans (by decide), confirmation_sent _,
    (encode serializeServer (confirmation "b" (longText 8170))).map fun b => [b], ?_,
    offered_bytes new_good _, ?_⟩
  · rw [flatten_bytes, List.flatMap_cons, List.flatMap_nil, List.append_nil]
  · rintro ⟨hhandled, _⟩
    obtain ⟨p, hp, hlen⟩ := packet_of_handled new_good (offered_bytes new_good _)
      (hhandled.symm ▸ List.mem_singleton_self _)
    rw [encode, serialize_parseServer hp] at hanswer
    have hsize : inBufSize = 8192 := rfl
    omega

end Samples

end ChatServer.ClientReceive
