import ChatServer.ClientReceive

/-!
Where the decode loop of the client stops. The typed decode returns nothing for
a frame that is not complete, for an oversized header and for a complete frame
that the parser rejects; the loop stops at each of them. After a rejected frame
the frames behind it stay in the buffer until a later readv starts the loop again.
-/
namespace ChatServer.ClientDecode

open ClientReceive PacketCodec Lib.StreamDecoder

/-- The buffer holds fewer bytes than a header, or than the header declares. -/
def NoCompleteFrame (buf : RingBuffer) : Prop :=
  buf.size < 4 ∨ buf.size < 4 + ntohl (buf.peek 4)

/-- No frame with a complete frame behind it is rejected. -/
def OnlyLastRejected (parse : Bytes → Option ServerMessage) (s : Bytes) : Prop :=
  ∀ before p q after, s = frames before ++ (frame p ++ (frame q ++ after)) → (parse p).isSome

/-- The buffers at the start of the decode loop, one for each readv. -/
def starts (parse : Bytes → Option ServerMessage) (buf : RingBuffer) :
    List Bytes → List RingBuffer
  | [] => []
  | chunk :: rest =>
      (makeRoom buf).receive chunk :: starts parse (readTurn parse (makeRoom buf) chunk).2 rest

/-- The buffers that the decode loop leaves. -/
def stops (parse : Bytes → Option ServerMessage) (buf : RingBuffer) :
    List Bytes → List RingBuffer
  | [] => []
  | chunk :: rest =>
      (readTurn parse (makeRoom buf) chunk).2 ::
        stops parse (readTurn parse (makeRoom buf) chunk).2 rest

variable {parse : Bytes → Option ServerMessage}

section Frames

/-- The first frame of a list of bytes that is not long. -/
theorem frame_append_inj {p q r t : Bytes} (hlen : (frame p ++ r).length ≤ inBufSize)
    (h : frame p ++ r = frame q ++ t) : p = q ∧ r = t := by
  have hlimit : inBufSize ≤ maxPayload := by decide
  have hp : p.length ≤ maxPayload := by
    rw [List.length_append, frame_length] at hlen
    omega
  have hq : q.length ≤ maxPayload := by
    rw [h, List.length_append, frame_length] at hlen
    omega
  have hdecode := decodeBytes_frame_append hp r
  rw [h, decodeBytes_frame_append hq] at hdecode
  simp only [Prod.mk.injEq, Option.some.injEq] at hdecode
  exact ⟨hdecode.1.symm, hdecode.2.symm⟩

theorem exists_frame_iff {s : Bytes} (hlen : s.length ≤ inBufSize) :
    (∃ q after, s = frame q ++ after) ↔ ¬ (s.length < 4 ∨ s.length < 4 + declared s) := by
  have hlimit : inBufSize + 4 < 2 ^ 32 := by decide
  constructor
  · rintro ⟨q, after, rfl⟩
    rw [List.length_append, frame_length] at hlen
    rw [declared_frame_append_of_lt (by omega), List.length_append, frame_length]
    omega
  · intro hcomplete
    have hmax : inBufSize ≤ maxPayload := by decide
    refine ⟨(s.drop 4).take (declared s), s.drop (4 + declared s), ?_⟩
    refine (decodeBytes_eq_some_iff.mp ?_).1
    rw [decodeBytes, if_neg (by omega), if_neg (by omega), if_neg (by omega)]

/-- An empty-handed call sees no frame in front, and keeps or drops all bytes. -/
theorem decodeBytes_none {s t : Bytes} (hlen : s.length ≤ inBufSize)
    (h : decodeBytes s = (none, t)) : (¬ ∃ q after, s = frame q ++ after) ∧ (t = s ∨ t = []) := by
  constructor
  · rintro ⟨q, after, rfl⟩
    have hlimit : inBufSize ≤ maxPayload := by decide
    rw [List.length_append, frame_length] at hlen
    rw [decodeBytes_frame_append (by omega)] at h
    cases h
  · unfold decodeBytes at h
    split at h
    · exact .inl (congrArg Prod.snd h).symm
    · split at h
      · exact .inr (congrArg Prod.snd h).symm
      · split at h
        · exact .inl (congrArg Prod.snd h).symm
        · cases h

/-- Where no frame is in front there is none to reject. -/
theorem onlyLastRejected_of_no_frame {s : Bytes} (h : ¬ ∃ q after, s = frame q ++ after) :
    OnlyLastRejected parse s := by
  intro before p q after hs
  cases before with
  | nil => exact absurd ⟨p, _, hs⟩ h
  | cons b before =>
    rw [frames_cons, List.append_assoc] at hs
    exact absurd ⟨b, _, hs⟩ h

/-- The buffer after a frame that has been taken off. -/
theorem onlyLastRejected_frame {p t : Bytes} (hlen : (frame p ++ t).length ≤ inBufSize)
    (hp : (parse p).isSome) : OnlyLastRejected parse (frame p ++ t) ↔ OnlyLastRejected parse t := by
  constructor
  · intro h before q r after ht
    refine h (p :: before) q r after ?_
    rw [ht, frames_cons, List.append_assoc]
  · intro h before q r after ht
    cases before with
    | nil => exact (frame_append_inj hlen ht).1 ▸ hp
    | cons b before =>
      rw [frames_cons, List.append_assoc] at ht
      exact h before q r after (frame_append_inj hlen ht).2

/-- A rejected frame at the front is the last one. -/
theorem onlyLastRejected_rejected {p t : Bytes} (hlen : (frame p ++ t).length ≤ inBufSize)
    (hp : parse p = none) :
    OnlyLastRejected parse (frame p ++ t) ↔ ¬ ∃ q after, t = frame q ++ after := by
  constructor
  · rintro h ⟨q, after, rfl⟩
    have hread := h [] p q after rfl
    rw [hp] at hread
    cases hread
  · intro h before q r after ht
    cases before with
    | nil => exact absurd ⟨r, after, (frame_append_inj hlen ht).2⟩ h
    | cons b before =>
      rw [frames_cons, List.append_assoc] at ht
      have hrest := (frame_append_inj hlen ht).2
      cases before with
      | nil => exact absurd ⟨q, frame r ++ after, hrest⟩ h
      | cons c before =>
        rw [frames_cons, List.append_assoc] at hrest
        exact absurd ⟨c, _, hrest⟩ h

end Frames

section Loop

/-- The loop leaves no complete frame exactly if it is not stopped in front of one. -/
theorem drain_no_frame_iff {s : Bytes} (hlen : s.length ≤ inBufSize) :
    (¬ ∃ q after, ((byteDecoder.andThen parse).drain s).2 = frame q ++ after) ↔
      OnlyLastRejected parse s := by
  obtain ⟨ms, last, hrun⟩ := (byteDecoder.andThen parse).exists_decodes s
  induction hrun with
  | @next s t last m ms h hrest ih =>
    obtain ⟨hread, hrem⟩ := Prod.mk.inj h
    obtain ⟨p, hp, hparse⟩ := Option.bind_eq_some_iff.mp hread
    obtain ⟨rfl, _⟩ := decodeBytes_eq_some_iff.mp (Prod.ext hp hrem : decodeBytes s = (some p, t))
    have hshort : t.length ≤ inBufSize := by
      rw [List.length_append] at hlen
      omega
    rw [(byteDecoder.andThen parse).drain_of_some h, ih hshort,
      onlyLastRejected_frame hlen (by rw [hparse]; rfl)]
  | @stop s t h =>
    obtain ⟨hread, hrem⟩ := Prod.mk.inj h
    rw [(byteDecoder.andThen parse).drain_of_none h]
    cases hp : (decodeBytes s).1 with
    | some p =>
      obtain ⟨rfl, _⟩ := decodeBytes_eq_some_iff.mp
        (Prod.ext hp hrem : decodeBytes s = (some p, t))
      have hreject : parse p = none := by
        have hbind : (byteDecoder.decode (frame p ++ t)).1 = some p := hp
        rw [hbind] at hread
        exact hread
      exact (onlyLastRejected_rejected hlen hreject).symm
    | none =>
      obtain ⟨hfront, hkept⟩ := decodeBytes_none hlen (Prod.ext hp hrem)
      refine iff_of_true ?_ (onlyLastRejected_of_no_frame hfront)
      rcases hkept with rfl | rfl
      · exact hfront
      · rintro ⟨q, after, heq⟩
        have hcontra := congrArg List.length heq
        rw [List.length_append, frame_length, List.length_nil] at hcontra
        omega

theorem noCompleteFrame_iff {buf : RingBuffer} (h : Good buf) :
    NoCompleteFrame buf ↔ ¬ ∃ q after, buf.contents = frame q ++ after := by
  rw [exists_frame_iff h.contents_le, not_not, NoCompleteFrame, RingBuffer.size,
    RingBuffer.peek_eq_take h.1, RingBuffer.contents_length h.1]
  rfl

/-- One turn of the receive loop. -/
theorem readTurn_no_frame_iff {buf : RingBuffer} {chunk : Bytes} (h : Good buf)
    (hfit : buf.contents.length + chunk.length ≤ inBufSize) :
    NoCompleteFrame (readTurn parse buf chunk).2 ↔
      OnlyLastRejected parse (buf.receive chunk).contents := by
  have hfree : chunk.length ≤ buf.freeSpace := by
    rw [RingBuffer.freeSpace_eq h.1, h.2]
    omega
  obtain ⟨hdrain, hgood⟩ := h.readTurn parse hfit
  rw [noCompleteFrame_iff hgood, RingBuffer.receive_contents h.1 chunk hfree,
    ← drain_no_frame_iff (by rwa [List.length_append]), hdrain]

theorem stops_iff {buf : RingBuffer} {chunks : List Bytes} (h : Good buf)
    (hoffered : Offered parse buf chunks) :
    (∀ t ∈ stops parse buf chunks, NoCompleteFrame t) ↔
      ∀ t ∈ starts parse buf chunks, OnlyLastRejected parse t.contents := by
  induction chunks generalizing buf with
  | nil =>
    rw [stops, starts]
    exact iff_of_true (List.forall_mem_nil _) (List.forall_mem_nil _)
  | cons chunk rest ih =>
    obtain ⟨_, hle, hlater⟩ := hoffered
    obtain ⟨hroom, _⟩ := h.makeRoom
    have hcontents := hroom.contents_le
    rw [hroom.freeSpace] at hle
    have hfit : (makeRoom buf).contents.length + chunk.length ≤ inBufSize := by omega
    rw [stops, starts, List.forall_mem_cons, List.forall_mem_cons,
      readTurn_no_frame_iff hroom hfit, ih (hroom.readTurn parse hfit).2 hlater]

end Loop

/-- Whatever the parser rejects and however the stream is cut, the decode loop leaves
no complete frame behind at any stop if and only if it finds no rejected frame with a
complete frame behind it at any start. -/
theorem decode_loop_iff (parse : Bytes → Option ServerMessage) {chunks : List Bytes}
    (hoffered : Offered parse (.new inBufSize) chunks) :
    (∀ buf ∈ stops parse (.new inBufSize) chunks, NoCompleteFrame buf) ↔
      ∀ buf ∈ starts parse (.new inBufSize) chunks, OnlyLastRejected parse buf.contents :=
  stops_iff new_good hoffered

section Samples

/-- A parser that reads only the empty payload. -/
def parseEmpty (payload : Bytes) : Option ServerMessage :=
  if payload = [] then some (.error ⟨""⟩) else none

/-- A readv that starts with an empty buffer. -/
theorem starts_single (parse : Bytes → Option ServerMessage) {chunk : Bytes}
    (hchunk : chunk.length ≤ inBufSize) :
    starts parse (.new inBufSize) [chunk] = [(RingBuffer.new inBufSize).receive chunk] ∧
      ((RingBuffer.new inBufSize).receive chunk).contents = chunk := by
  have hempty : (RingBuffer.new inBufSize).contents = [] := RingBuffer.new_contents _
  have hroom : makeRoom (.new inBufSize) = .new inBufSize :=
    makeRoom_of_lt new_good (by rw [hempty]; decide)
  have hfree : chunk.length ≤ (RingBuffer.new inBufSize).freeSpace := by
    rw [RingBuffer.freeSpace_eq new_good.1, hempty, new_good.2]
    exact hchunk
  refine ⟨by rw [starts, starts, hroom], ?_⟩
  rw [RingBuffer.receive_contents new_good.1 _ hfree, hempty, List.nil_append]

theorem offered_single {chunk : Bytes} (hpos : 0 < chunk.length) (hle : chunk.length ≤ inBufSize) :
    Offered parse (.new inBufSize) [chunk] := by
  have hempty : (RingBuffer.new inBufSize).contents = [] := RingBuffer.new_contents _
  have hroom : makeRoom (.new inBufSize) = .new inBufSize :=
    makeRoom_of_lt new_good (by rw [hempty]; decide)
  refine ⟨hpos, ?_, trivial⟩
  rw [hroom, new_good.freeSpace, hempty]
  exact hle

/-- A single frame, which is rejected. -/
theorem decode_loop_iff_sample : Offered parseEmpty (.new inBufSize) [frame [1]] ∧
    ∀ buf ∈ stops parseEmpty (.new inBufSize) [frame [1]], NoCompleteFrame buf := by
  have hoffered : Offered parseEmpty (.new inBufSize) [frame [1]] :=
    offered_single (by decide) (by decide)
  refine ⟨hoffered, (decode_loop_iff parseEmpty hoffered).mpr ?_⟩
  have hshort : (frame [1]).length ≤ inBufSize := by decide
  obtain ⟨hstarts, hcontents⟩ := starts_single parseEmpty hshort
  rw [hstarts]
  intro buf hbuf
  rw [List.mem_singleton.mp hbuf, hcontents]
  refine (onlyLastRejected_rejected (p := [1]) (t := []) hshort rfl).mpr ?_
  rintro ⟨q, after, heq⟩
  have hcontra := congrArg List.length heq
  rw [List.length_append, frame_length, List.length_nil] at hcontra
  omega

/-- Behind the rejected frame of one byte an empty frame is left in the buffer. -/
theorem frame_left_behind : Offered parseEmpty (.new inBufSize) [frame [1] ++ frame []] ∧
    ¬ ∀ buf ∈ stops parseEmpty (.new inBufSize) [frame [1] ++ frame []], NoCompleteFrame buf := by
  have hshort : (frame [1] ++ frame []).length ≤ inBufSize := by decide
  have hoffered : Offered parseEmpty (.new inBufSize) [frame [1] ++ frame []] :=
    offered_single (by decide) hshort
  refine ⟨hoffered, ?_⟩
  obtain ⟨hstarts, hcontents⟩ := starts_single parseEmpty hshort
  rw [stops_iff new_good hoffered, hstarts]
  intro h
  have hread := h _ List.mem_cons_self [] [1] [] [] hcontents
  cases hread

end Samples

end ChatServer.ClientDecode
