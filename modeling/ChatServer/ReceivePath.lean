import ChatServer.ConnectionOps

/-!
The receive path. `handle_read` is a loop of readv and decode on the ring
buffer; here it is followed on the bytes that the ring buffer holds. The
delivery theorem is about streams of packets within the 10mb limit: however
the stream is cut into readv results and calls, what is pushed is exactly the
packets that have been read completely.
-/
namespace ChatServer.ReceivePath

open PacketCodec Lib.StreamDecoder

/-- The longest payload whose packet fits the input buffer. -/
def maxBuffered : ℕ := inBufCapacity - 4

structure InBufGood (conn : Connection) : Prop where
  wellFormed : conn.inBuf.WellFormed
  capacity : conn.inBuf.capacity = inBufCapacity

namespace InBufGood

variable {conn : Connection}

theorem contents_le (h : InBufGood conn) : conn.inBuf.contents.length ≤ inBufCapacity := by
  rw [← h.capacity]
  exact RingBuffer.contents_length_le h.wellFormed

theorem freeSpace_eq (h : InBufGood conn) :
    conn.inBuf.freeSpace = inBufCapacity - conn.inBuf.contents.length := by
  rw [RingBuffer.freeSpace_eq h.wellFormed, h.capacity]

theorem full_iff (h : InBufGood conn) :
    conn.inBuf.full = true ↔ conn.inBuf.contents.length = inBufCapacity := by
  rw [RingBuffer.full_iff, h.capacity, RingBuffer.contents_length h.wellFormed]

/-- handle_read offers no segment exactly when the buffer is full. -/
theorem iovecs_isEmpty (h : InBufGood conn) :
    conn.inBuf.getWriteableIovecs.isEmpty = true ↔
      conn.inBuf.contents.length = inBufCapacity := by
  rw [RingBuffer.getWriteableIovecs_isEmpty_iff h.wellFormed, h.capacity]

end InBufGood

theorem new_inBufGood (fd now : ℕ) : InBufGood (Connection.new fd now) :=
  ⟨RingBuffer.new_wellFormed _ (by decide), RingBuffer.new_capacity _⟩

theorem new_inBuf_contents (fd now : ℕ) : (Connection.new fd now).inBuf.contents = [] :=
  RingBuffer.new_contents _

theorem new_not_full (fd now : ℕ) : ¬ (Connection.new fd now).inBuf.full = true := by
  intro hfull
  have hlen := (new_inBufGood fd now).full_iff.mp hfull
  rw [new_inBuf_contents] at hlen
  simp [inBufCapacity] at hlen

/-- A successful readv and the decode loop after it, on the stored bytes. -/
theorem decodeMessages_afterReadv {conn : Connection} (h : InBufGood conn) (bytes : Bytes)
    (hle : bytes.length ≤ conn.inBuf.freeSpace) (now : ℕ) :
    byteDecoder.drain (conn.inBuf.contents ++ bytes) =
        ((decodeMessages (afterReadv conn bytes now)).1,
          (decodeMessages (afterReadv conn bytes now)).2.inBuf.contents) ∧
      InBufGood (decodeMessages (afterReadv conn bytes now)).2 := by
  have hreceived : (conn.inBuf.receive bytes).WellFormed ∧
      (conn.inBuf.receive bytes).capacity = inBufCapacity :=
    ⟨RingBuffer.receive_wellFormed h.wellFormed bytes hle,
      (RingBuffer.receive_capacity h.wellFormed bytes hle).trans h.capacity⟩
  obtain ⟨hdrain, hgood⟩ := (decoder_simulates inBufCapacity).drain_eq hreceived
  rw [RingBuffer.receive_contents h.wellFormed bytes hle] at hdrain
  exact ⟨hdrain, hgood.1, hgood.2⟩

/-- The answer that delivers this chunk, if it fits the space offered. -/
def deliver (bytes : Bytes) : ReadvAnswer := fun offered =>
  if h : 0 < bytes.length ∧ bytes.length ≤ offered then .data bytes h.1 h.2 0 else .eagain

theorem handleRead_deliver {conn : Connection} (h : InBufGood conn) {bytes : Bytes}
    (hpos : 0 < bytes.length)
    (hfit : conn.inBuf.contents.length + bytes.length ≤ inBufCapacity)
    (rest : List ReadvAnswer) :
    handleRead conn (deliver bytes :: rest) =
      let decoded := decodeMessages (afterReadv conn bytes 0)
      let outcome := handleRead decoded.2 rest
      { outcome with messages := decoded.1 ++ outcome.messages } := by
  have hroom : ¬ conn.inBuf.getWriteableIovecs.isEmpty = true := by
    rw [h.iovecs_isEmpty]
    omega
  have hoffered : bytes.length ≤ (conn.inBuf.getWriteableIovecs.map Iovec.iovLen).sum := by
    rw [RingBuffer.getWriteableIovecs_total, h.freeSpace_eq]
    omega
  conv_lhs => unfold handleRead
  dsimp only
  rw [if_neg hroom, deliver, dif_pos ⟨hpos, hoffered⟩]

theorem handleRead_received (conn : Connection) (answers : List ReadvAnswer) :
    conn.received <+: (handleRead conn answers).conn.received := by
  induction answers generalizing conn with
  | nil => exact List.prefix_refl _
  | cons answer rest ih =>
    unfold handleRead
    dsimp only
    split
    · exact List.prefix_refl _
    · split
      · rename_i bytes _ _ now _
        have hstep : conn.received <+:
            (decodeMessages (afterReadv conn bytes now)).2.received := List.prefix_append _ _
        exact hstep.trans (ih _)
      · exact List.prefix_refl _
      · exact List.prefix_refl _
      · exact List.prefix_refl _

/-- Everything decoded off a buffer stood at its front. -/
theorem decodes_frames {s last : Bytes} {as : List Bytes}
    (h : byteDecoder.Decodes s as last) :
    s = frames as ++ last ∧ ∀ p ∈ as, p.length ≤ maxPayload := by
  induction h with
  | stop h => simp
  | @next s t last p ps h hrest ih =>
    obtain ⟨hs, hp⟩ := decodeBytes_eq_some_iff.mp h
    obtain ⟨ht, hps⟩ := ih
    constructor
    · rw [hs, ht, frames_cons, List.append_assoc]
    · intro q hq
      rcases List.mem_cons.mp hq with rfl | hmem
      · exact hp
      · exact hps q hmem

/-- Packets that were in the buffer together fit it. -/
theorem frames_fit {t last : Bytes} {as : List Bytes} (hsplit : t = frames as ++ last)
    (ht : t.length ≤ inBufCapacity) : ∀ p ∈ as, p.length ≤ maxBuffered := by
  intro p hp
  obtain ⟨before, after, rfl⟩ := List.append_of_mem hp
  have hlen := congrArg List.length hsplit
  simp only [frames_append, frames_cons, List.length_append, frame_length] at hlen
  simp only [maxBuffered, inBufCapacity] at *
  omega

/-- A stream of packets can be read as packets in one way only. -/
theorem frames_unique {qs ps : List Bytes} {last : Bytes}
    (hqs : ∀ q ∈ qs, q.length ≤ maxPayload) (hps : ∀ p ∈ ps, p.length ≤ maxPayload)
    (h : frames qs ++ last <+: frames ps) : ∃ ps', ps = qs ++ ps' ∧ last <+: frames ps' := by
  induction qs generalizing ps with
  | nil => exact ⟨ps, rfl, h⟩
  | cons q qs ih =>
    have hq : q.length ≤ maxPayload := hqs q (List.mem_cons_self ..)
    obtain ⟨tail, htail⟩ := h
    rw [frames_cons, List.append_assoc, List.append_assoc] at htail
    have hdecode := decodeBytes_frame_append hq (frames qs ++ (last ++ tail))
    rw [htail] at hdecode
    cases ps with
    | nil =>
      rw [frames_nil] at hdecode
      cases hdecode
    | cons p ps =>
      have hp : p.length ≤ maxPayload := hps p (List.mem_cons_self ..)
      rw [frames_cons, decodeBytes_frame_append hp] at hdecode
      simp only [Prod.mk.injEq, Option.some.injEq] at hdecode
      obtain ⟨rfl, hrest⟩ := hdecode
      have hprefix : frames qs ++ last <+: frames ps :=
        ⟨tail, by rw [hrest, List.append_assoc]⟩
      obtain ⟨ps', rfl, hlast⟩ := ih (fun q' hq' => hqs q' (List.mem_cons_of_mem _ hq'))
        (fun p' hp' => hps p' (List.mem_cons_of_mem _ hp')) hprefix
      exact ⟨ps', rfl, hlast⟩

/-- Inside a stream of packets an empty-handed call waits: it keeps the buffer. -/
theorem decodeBytes_waits {last t : Bytes} {ps : List Bytes}
    (hps : ∀ p ∈ ps, p.length ≤ maxPayload) (hlast : last <+: frames ps)
    (h : decodeBytes last = (none, t)) : decodeBytes last = (none, last) := by
  by_cases hfour : last.length < 4
  · simp only [decodeBytes, hfour, if_true]
  · have hlimit : declared last ≤ maxPayload := by
      obtain ⟨tail, htail⟩ := hlast
      have hdeclared := declared_append (Nat.le_of_not_lt hfour) tail
      cases ps with
      | nil =>
        have hlen := congrArg List.length htail
        simp only [frames_nil, List.length_append, List.length_nil] at hlen
        omega
      | cons p ps =>
        have hp : p.length ≤ maxPayload := hps p (List.mem_cons_self ..)
        rw [htail, frames_cons, declared_frame_append hp] at hdeclared
        omega
    by_cases hshort : last.length < 4 + declared last
    · simp only [decodeBytes, hfour, Nat.not_lt.mpr hlimit, hshort, if_true, if_false]
    · simp only [decodeBytes, hfour, Nat.not_lt.mpr hlimit, hshort, if_false,
        Prod.mk.injEq] at h
      cases h.1

/-- The packets decoded so far and the bytes in the buffer are the bytes read. -/
structure Receiving (conn : Connection) (messages : List Bytes) : Prop where
  inBuf : InBufGood conn
  received : conn.received = frames messages ++ conn.inBuf.contents
  fits : ∀ p ∈ messages, p.length ≤ maxBuffered
  waits : decodeBytes conn.inBuf.contents = (none, conn.inBuf.contents)

theorem fits_maxPayload {messages : List Bytes} (h : ∀ p ∈ messages, p.length ≤ maxBuffered) :
    ∀ p ∈ messages, p.length ≤ maxPayload :=
  fun p hp => (h p hp).trans (by decide)

theorem new_receiving (fd now : ℕ) : Receiving (Connection.new fd now) [] :=
  ⟨new_inBufGood fd now, rfl, by simp, rfl⟩

/-- One readv and decode loop, inside a stream of packets. -/
theorem Receiving.readv {conn : Connection} {messages ps : List Bytes}
    (h : Receiving conn messages) (hps : ∀ p ∈ ps, p.length ≤ maxPayload) (bytes : Bytes)
    (hle : bytes.length ≤ conn.inBuf.freeSpace) (now : ℕ)
    (hstream : conn.received ++ bytes <+: frames ps) :
    Receiving (decodeMessages (afterReadv conn bytes now)).2
      (messages ++ (decodeMessages (afterReadv conn bytes now)).1) := by
  obtain ⟨hdrain, hgood⟩ := decodeMessages_afterReadv h.inBuf bytes hle now
  obtain ⟨as, last, hrun⟩ := byteDecoder.exists_decodes (conn.inBuf.contents ++ bytes)
  obtain ⟨hsplit, has⟩ := decodes_frames hrun
  have hfree := h.inBuf.freeSpace_eq
  have hcontents := h.inBuf.contents_le
  have hfits : ∀ p ∈ as, p.length ≤ maxBuffered := by
    apply frames_fit hsplit
    rw [List.length_append]
    omega
  have hmessages : ∀ p ∈ messages ++ as, p.length ≤ maxBuffered := by
    intro p hp
    rcases List.mem_append.mp hp with hp | hp
    · exact h.fits p hp
    · exact hfits p hp
  have hread : conn.received ++ bytes = frames (messages ++ as) ++ last := by
    rw [h.received, List.append_assoc, hsplit, frames_append, List.append_assoc]
  have hwaits : decodeBytes last = (none, last) := by
    rw [hread] at hstream
    obtain ⟨ps', rfl, hlast⟩ :=
      frames_unique (fits_maxPayload hmessages) hps hstream
    have hnone := hrun.last_none
    exact decodeBytes_waits (fun p hp => hps p (List.mem_append_right _ hp)) hlast
      (Prod.ext hnone rfl)
  have hdone := hrun.drain_eq
  rw [hdrain, Prod.mk.injEq] at hdone
  obtain ⟨hout, hleft⟩ := hdone
  have hkept : (byteDecoder.decode last).2 = last := congrArg Prod.snd hwaits
  rw [hkept] at hleft
  rw [hout]
  exact ⟨hgood, by rw [hleft]; exact hread, hmessages, by rw [hleft]; exact hwaits⟩

/-- A whole call of handle_read. It asks for the close if it left a full buffer. -/
theorem Receiving.handleRead {conn : Connection} {messages ps : List Bytes}
    (h : Receiving conn messages) (hps : ∀ p ∈ ps, p.length ≤ maxPayload)
    (answers : List ReadvAnswer)
    (hstream : (handleRead conn answers).conn.received <+: frames ps) :
    Receiving (handleRead conn answers).conn (messages ++ (handleRead conn answers).messages) ∧
      ((handleRead conn answers).conn.inBuf.full = true →
        (handleRead conn answers).shouldClose = true) := by
  induction answers generalizing conn messages with
  | nil =>
    have hempty := h.inBuf.iovecs_isEmpty.trans h.inBuf.full_iff.symm
    exact ⟨by simpa only [ChatServer.handleRead, List.append_nil] using h, hempty.mpr⟩
  | cons answer rest ih =>
    have hempty := h.inBuf.iovecs_isEmpty.trans h.inBuf.full_iff.symm
    unfold ChatServer.handleRead at hstream ⊢
    dsimp only at hstream ⊢
    split
    · exact ⟨by simpa only [List.append_nil] using h, fun _ => rfl⟩
    · rename_i hroom
      have hnotFull : ¬ conn.inBuf.full = true := fun hfull => hroom (hempty.mpr hfull)
      rw [if_neg hroom] at hstream
      split
      · rename_i bytes hpos hle now hanswer
        rw [hanswer] at hstream
        rw [RingBuffer.getWriteableIovecs_total] at hle
        have hnext := h.readv hps bytes hle now
          ((handleRead_received _ rest).trans hstream)
        have hrest := ih hnext hstream
        rw [List.append_assoc] at hrest
        exact hrest
      · exact ⟨by simpa only [List.append_nil] using h, fun hfull => absurd hfull hnotFull⟩
      · exact ⟨by simpa only [List.append_nil] using h, fun hfull => absurd hfull hnotFull⟩
      · exact ⟨by simpa only [List.append_nil] using h, fun hfull => absurd hfull hnotFull⟩

/-- Any number of calls of handle_read. A call that asks for it closes the
connection, and a closed connection is not read again. -/
def handleReads (conn : Connection) : List (List ReadvAnswer) → List Bytes × Connection
  | [] => ([], conn)
  | answers :: rest =>
      let outcome := ChatServer.handleRead conn answers
      if outcome.shouldClose then (outcome.messages, outcome.conn.close)
      else
        let (messages, last) := handleReads outcome.conn rest
        (outcome.messages ++ messages, last)

theorem close_received (conn : Connection) : conn.close.received = conn.received := by
  unfold Connection.close
  split <;> rfl

theorem close_inBuf (conn : Connection) : conn.close.inBuf = conn.inBuf := by
  unfold Connection.close
  split <;> rfl

theorem close_closed (conn : Connection) : conn.close.closed = true := by
  unfold Connection.close
  split
  · rename_i h
    exact h
  · rfl

theorem Receiving.close {conn : Connection} {messages : List Bytes}
    (h : Receiving conn messages) : Receiving conn.close messages := by
  have hbuf := close_inBuf conn
  refine ⟨⟨?_, ?_⟩, ?_, h.fits, ?_⟩
  · rw [hbuf]
    exact h.inBuf.wellFormed
  · rw [hbuf]
    exact h.inBuf.capacity
  · rw [hbuf, close_received]
    exact h.received
  · rw [hbuf]
    exact h.waits

theorem handleReads_received (conn : Connection) (calls : List (List ReadvAnswer)) :
    conn.received <+: (handleReads conn calls).2.received := by
  induction calls generalizing conn with
  | nil => exact List.prefix_refl _
  | cons answers rest ih =>
    have hcall := handleRead_received conn answers
    unfold handleReads
    dsimp only
    split
    · rw [close_received]
      exact hcall
    · exact hcall.trans (ih _)

/-- A run of calls inside a stream of packets. If a full buffer is left at
its end, then the connection is closed. -/
theorem Receiving.handleReads {conn : Connection} {messages ps : List Bytes}
    (h : Receiving conn messages) (hfull : conn.inBuf.full = true → conn.closed = true)
    (hps : ∀ p ∈ ps, p.length ≤ maxPayload) (calls : List (List ReadvAnswer))
    (hstream : (handleReads conn calls).2.received <+: frames ps) :
    Receiving (handleReads conn calls).2 (messages ++ (handleReads conn calls).1) ∧
      ((handleReads conn calls).2.inBuf.full = true →
        (handleReads conn calls).2.closed = true) := by
  induction calls generalizing conn messages with
  | nil => exact ⟨by simpa only [ReceivePath.handleReads, List.append_nil] using h, hfull⟩
  | cons answers rest ih =>
    unfold ReceivePath.handleReads at hstream ⊢
    dsimp only at hstream ⊢
    split
    · rename_i hclose
      rw [if_pos hclose, close_received] at hstream
      obtain ⟨hcall, _⟩ := h.handleRead hps answers hstream
      exact ⟨hcall.close, fun _ => close_closed _⟩
    · rename_i hopen
      rw [if_neg hopen] at hstream
      obtain ⟨hcall, hasks⟩ := h.handleRead hps answers
        ((handleReads_received _ rest).trans hstream)
      have hrest := ih hcall (fun hbuf => absurd (hasks hbuf) hopen) hstream
      rw [List.append_assoc] at hrest
      exact hrest

/-- The packets of a stream that are wholly contained in its first `n` bytes. -/
def whollyRead : List Bytes → ℕ → List Bytes
  | [], _ => []
  | p :: ps, n => if 4 + p.length ≤ n then p :: whollyRead ps (n - (4 + p.length)) else []

theorem whollyRead_append (qs ps : List Bytes) (n : ℕ) :
    whollyRead (qs ++ ps) ((frames qs).length + n) = qs ++ whollyRead ps n := by
  induction qs with
  | nil => simp
  | cons q qs ih =>
    have hsub : (frames (q :: qs)).length + n - (4 + q.length) = (frames qs).length + n := by
      simp only [frames_cons, List.length_append, frame_length]
      omega
    have hle : 4 + q.length ≤ (frames (q :: qs)).length + n := by
      simp only [frames_cons, List.length_append, frame_length]
      omega
    simp only [List.cons_append, whollyRead, hle, if_true, hsub, ih]

/-- While the decoder waits, the packet at the front is incomplete. -/
theorem length_lt_of_waits {s t p : Bytes} {ps : List Bytes} (hp : p.length ≤ maxPayload)
    (hs : s <+: frames (p :: ps)) (hwaits : decodeBytes s = (none, t)) :
    s.length < 4 + p.length := by
  by_contra hlong
  have hframe : frame p <+: s := by
    have hfront : frame p <+: frames (p :: ps) := List.prefix_append _ _
    have hlen : (frame p).length ≤ s.length := by
      rw [frame_length]
      omega
    exact List.prefix_of_prefix_length_le hfront hs hlen
  obtain ⟨rest, rfl⟩ := hframe
  rw [decodeBytes_frame_append hp] at hwaits
  cases hwaits

/-- Where a receiving connection stands in the stream of packets `ps`. -/
theorem Receiving.position {conn : Connection} {messages ps : List Bytes}
    (h : Receiving conn messages) (hps : ∀ p ∈ ps, p.length ≤ maxPayload)
    (hstream : conn.received <+: frames ps) :
    ∃ ps', ps = messages ++ ps' ∧ conn.inBuf.contents <+: frames ps' ∧
      ∀ p rest, ps' = p :: rest → conn.inBuf.contents.length < 4 + p.length := by
  rw [h.received] at hstream
  obtain ⟨ps', rfl, hcontents⟩ :=
    frames_unique (fits_maxPayload h.fits) hps hstream
  refine ⟨ps', rfl, hcontents, ?_⟩
  rintro p rest rfl
  have hp : p.length ≤ maxPayload :=
    hps p (List.mem_append_right _ (List.mem_cons_self ..))
  exact length_lt_of_waits hp hcontents h.waits

theorem Receiving.messages_eq {conn : Connection} {messages ps : List Bytes}
    (h : Receiving conn messages) (hps : ∀ p ∈ ps, p.length ≤ maxPayload)
    (hstream : conn.received <+: frames ps) :
    messages = whollyRead ps conn.received.length := by
  obtain ⟨ps', rfl, hcontents, hshort⟩ := h.position hps hstream
  have hnone : whollyRead ps' conn.inBuf.contents.length = [] := by
    cases ps' with
    | nil => rfl
    | cons p rest =>
      have hlt := hshort p rest rfl
      simp only [whollyRead, if_neg (Nat.not_le.mpr hlt)]
  rw [h.received, List.length_append, whollyRead_append, hnone, List.append_nil]

/-- 8192 bytes of the packet number `k`, which does not fit the buffer, were read. -/
def ReadsOversized (ps : List Bytes) (n k : ℕ) : Prop :=
  ∃ p, ps[k]? = some p ∧ maxBuffered < p.length ∧
    (frames (ps.take k)).length + inBufCapacity ≤ n

/-- The connection is at the oversized packet: everything before it is delivered. -/
theorem Receiving.at_oversized {conn : Connection} {messages ps : List Bytes} {k : ℕ}
    (h : Receiving conn messages) (hps : ∀ p ∈ ps, p.length ≤ maxPayload)
    (hstream : conn.received <+: frames ps)
    (hover : ReadsOversized ps conn.received.length k) :
    messages = ps.take k ∧ conn.inBuf.full = true := by
  obtain ⟨p, hp, hlong, hread⟩ := hover
  obtain ⟨ps', rfl, _, hshort⟩ := h.position hps hstream
  have hlen := congrArg List.length h.received
  rw [List.length_append] at hlen
  have hcontents := h.inBuf.contents_le
  rcases lt_trichotomy k messages.length with hk | hk | hk
  · rw [List.getElem?_append_left hk] at hp
    have hfits := h.fits p (List.mem_of_getElem? hp)
    omega
  · subst hk
    rw [List.take_left] at hread
    refine ⟨List.take_left.symm, h.inBuf.full_iff.mpr ?_⟩
    omega
  · rw [List.take_append, List.take_of_length_le hk.le, frames_append, List.length_append]
      at hread
    obtain ⟨j, hj⟩ : ∃ j, k - messages.length = j + 1 := ⟨k - messages.length - 1, by omega⟩
    cases ps' with
    | nil =>
      rw [List.append_nil, List.getElem?_eq_none hk.le] at hp
      cases hp
    | cons q rest =>
      have hlt := hshort q rest rfl
      rw [hj, List.take_succ_cons, frames_cons, List.length_append, frame_length] at hread
      omega

/-- Exact delivery. `S` is a stream of packets, cut off anywhere, and the
calls have read a part of it. What was pushed is the packets wholly read. The
connection was closed for a full buffer exactly when 8192 bytes of a packet
that does not fit were read, and then nothing of that packet was pushed;
otherwise the buffer holds the incomplete packet and has room. -/
theorem receive_delivers (fd now : ℕ) (ps : List Bytes)
    (hps : ∀ p ∈ ps, p.length ≤ maxPayload) (S : Bytes) (hS : S <+: frames ps)
    (calls : List (List ReadvAnswer)) (messages : List Bytes) (conn : Connection)
    (hrun : handleReads (Connection.new fd now) calls = (messages, conn))
    (hread : conn.received <+: S) :
    messages = whollyRead ps conn.received.length ∧
    (conn.closed = true ∧ conn.inBuf.full = true ↔
      ∃ k, ReadsOversized ps conn.received.length k) ∧
    (∀ k, ReadsOversized ps conn.received.length k → messages = ps.take k) ∧
    (¬ (conn.closed = true ∧ conn.inBuf.full = true) →
      conn.inBuf.contents = conn.received.drop (frames messages).length ∧
      (decodeBytes conn.inBuf.contents).1 = none ∧ conn.inBuf.full = false) := by
  have hstream : conn.received <+: frames ps := hread.trans hS
  have hend := (new_receiving fd now).handleReads
    (fun hfull => absurd hfull (new_not_full fd now)) hps calls (by rw [hrun]; exact hstream)
  rw [hrun] at hend
  obtain ⟨hreceiving, hclosed⟩ := hend
  simp only [List.nil_append] at hreceiving
  refine ⟨hreceiving.messages_eq hps hstream, ⟨?_, ?_⟩, ?_, ?_⟩
  · intro ⟨_, hfull⟩
    have hlen := hreceiving.inBuf.full_iff.mp hfull
    obtain ⟨ps', rfl, hcontents, hshort⟩ := hreceiving.position hps hstream
    cases ps' with
    | nil =>
      have hnil := hcontents.length_le
      simp only [frames_nil, List.length_nil, inBufCapacity] at hnil hlen
      omega
    | cons p rest =>
      have hlt := hshort p rest rfl
      refine ⟨messages.length, p, by simp, ?_, ?_⟩
      · simp only [maxBuffered, inBufCapacity] at *
        omega
      · rw [List.take_left, hreceiving.received, List.length_append, hlen]
  · intro ⟨k, hover⟩
    obtain ⟨_, hfull⟩ := hreceiving.at_oversized hps hstream hover
    exact ⟨hclosed hfull, hfull⟩
  · intro k hover
    exact (hreceiving.at_oversized hps hstream hover).1
  · intro hopen
    refine ⟨?_, ?_, ?_⟩
    · rw [hreceiving.received, List.drop_left]
    · rw [hreceiving.waits]
    · by_contra hfull
      have hbuf : conn.inBuf.full = true := by simpa using hfull
      exact hopen ⟨hclosed hbuf, hbuf⟩

/-- Two packets in one readv, of which the second is cut off. -/
theorem receive_delivers_one_readv :
    (handleReads (Connection.new 7 0) [[deliver (frame [1, 2] ++ [0, 0])]]).1 = [[1, 2]] := by
  have hfit : (Connection.new 7 0).inBuf.contents.length + (frame [1, 2] ++ [0, 0]).length ≤
      inBufCapacity := by
    rw [new_inBuf_contents]
    decide
  have hread : (handleReads (Connection.new 7 0)
      [[deliver (frame [1, 2] ++ [0, 0])]]).2.received = frame [1, 2] ++ [0, 0] := by
    rw [handleReads]
    dsimp only
    rw [handleRead_deliver (new_inBufGood 7 0) (by decide) hfit]
    split
    · exact close_received _
    · rfl
  have hmessages := (receive_delivers 7 0 [[1, 2], [3]] (by decide)
    (frame [1, 2] ++ [0, 0]) (by decide) [[deliver (frame [1, 2] ++ [0, 0])]] _ _
    (Prod.eta _).symm
    (by rw [hread])).1
  rw [hread] at hmessages
  exact hmessages

end ChatServer.ReceivePath
