import ChatServer.ChatNetwork.Requests

/-!
From the handlers to the clients. The queue of a connection is a list of letters,
direct ones and broadcasts, and while each of them fits its buffer the client
receives the letters from the first on: one in login, the others in receive_loop.
-/
namespace ChatServer.ChatNetwork

open Lib.Runs ServerSystem PacketCodec ReceivePath ChatProto
open ClientSend (Sender taken)
open Downlink (Receiver Letter Posted Announced Tidy announces)

section Receiving

/-- login reads the first packet, past the buffer. -/
theorem loginRecv_eq_some {c d : Client} {ms : List ServerMessage} {available : Bytes}
    (hfits : Downlink.Fits ms) (hcomes : available <+: frames (ms.map serializeServer))
    (h : c.loginRecv available = some d) :
    ∃ m rest, ms = m :: rest ∧ d.receiver = c.receiver.take (frame (serializeServer m)) m := by
  unfold Client.loginRecv at h
  obtain ⟨hlong, h⟩ := Option.ite_none_left_eq_some.mp h
  rw [not_or, Nat.not_lt, Nat.not_lt] at hlong
  obtain ⟨hfour, hwhole⟩ := hlong
  cases ms with
  | nil =>
    rw [List.prefix_nil.mp hcomes] at hfour
    cases hfour
  | cons m rest =>
    have hm := hfits.maxPayload m List.mem_cons_self
    rw [List.map_cons, frames_cons] at hcomes
    have hdeclared : declared available = (serializeServer m).length := by
      obtain ⟨more, hmore⟩ := hcomes
      rw [← declared_append hfour more, hmore]
      exact declared_frame_append hm _
    rw [hdeclared] at hwhole h
    obtain ⟨later, hlater⟩ := List.prefix_of_prefix_length_le (List.prefix_append _ _) hcomes
      (by rw [frame_length]; exact hwhole)
    have hpacket : available.take (4 + (serializeServer m).length) = frame (serializeServer m) := by
      rw [← hlater]
      exact List.take_left' (frame_length _)
    have hparsed : parseServer ((frame (serializeServer m)).drop 4) = some m :=
      parse_serializeServer m
    refine ⟨m, rest, rfl, ?_⟩
    simp only [hpacket, hparsed, Option.some.injEq] at h
    rw [← h]

variable {n : ℕ} {kernel : ConnId → Kernel} {s t : Network n} {a : Action n} {id : ConnId}
  {letters : List Letter} {allowed : Network n → Action n → Prop}

/-- The letters are what the server has for the client, and the client has received the
first of them. -/
structure Delivering (s : Network n) (id : ConnId) (letters : List Letter) : Prop where
  posted : Posted s.server s.announced id letters
  tidy : Downlink.Fits (letters.map Letter.msg) →
    Tidy (s.clients id).receiver (letters.map Letter.msg)
  early : (s.clients id).stage.inLogin = true → (s.clients id).receiver.read = []

/-- What the kernel has sent is the beginning of the letters. -/
theorem sent_letters (hintact : Downlink.Intact s.server.net)
    (h : Posted s.server s.announced id letters) :
    Downlink.sent s.server.net id <+: frames ((letters.map Letter.msg).map serializeServer) := by
  have hsent := Downlink.sent_prefix hintact id
  rw [h.appended, Downlink.packets_bytes] at hsent
  exact hsent

theorem Delivering.serves (h : Delivering s id letters)
    (hannounced : Announced s.server s.announced) {b : ServerSystem.Action n}
    (hnext : s.server.next (setup kernel) b = some t.server)
    (hlater : t.announced = s.announced ++ announces s.server b)
    (hclients : t.clients = s.clients) : ∃ letters, Delivering t id letters := by
  obtain ⟨more, hposted⟩ := h.posted.step hannounced hnext
  refine ⟨letters ++ more, hlater ▸ hposted, ?_, ?_⟩
  · intro hfits
    rw [List.map_append] at hfits ⊢
    rw [hclients]
    exact (h.tidy fun m hm => hfits m (List.mem_append_left _ hm)).extend _
  · rw [hclients]
    exact h.early

/-- A step of a client alone. -/
theorem Delivering.setClient (h : Delivering s id letters) {other : ConnId} {c : Client}
    (htidy : id = other → Downlink.Fits (letters.map Letter.msg) →
      Tidy c.receiver (letters.map Letter.msg))
    (hearly : id = other → c.stage.inLogin = true → c.receiver.read = []) :
    Delivering (s.setClient other c) id letters := by
  by_cases hid : id = other
  · have hclient : (s.setClient other c).clients id = c := by
      rw [hid]
      exact Function.update_self (β := fun _ => Client) other c s.clients
    exact ⟨h.posted, by rw [hclient]; exact htidy hid, by rw [hclient]; exact hearly hid⟩
  · have hclient : (s.setClient other c).clients id = s.clients id :=
      Function.update_of_ne hid _ _
    exact ⟨h.posted, by rw [hclient]; exact h.tidy, by rw [hclient]; exact h.early⟩

theorem Delivering.step (h : Delivering s id letters) (hannounced : Announced s.server s.announced)
    (hintact : Downlink.Intact s.server.net) (hnext : s.next (setup kernel) a = some t) :
    ∃ letters, Delivering t id letters := by
  cases next_moves hnext with
  | server ha hserver => exact h.serves hannounced hserver rfl rfl
  | handleRead hidle hcomes hserver => exact h.serves hannounced hserver rfl rfl
  | push hreading hserver => exact h.serves hannounced hserver rfl rfl
  | pushed hreading => exact ⟨letters, h.posted, h.tidy, h.early⟩
  | @enterName other name result hstage =>
    refine ⟨letters, h.setClient ?_ ?_⟩
    · rintro rfl
      unfold Client.enterName
      split <;> exact h.tidy
    · rintro rfl _
      unfold Client.enterName
      split <;> exact h.early (by rw [hstage]; rfl)
  | @loginRecv other c hstage hrecv =>
    refine ⟨letters, h.setClient ?_ ?_⟩
    · rintro rfl hfits
      have hread := h.early (by rw [hstage]; rfl)
      rw [Network.unread, hread, List.length_nil, List.drop_zero] at hrecv
      obtain ⟨m, rest, hms, hreceiver⟩ :=
        loginRecv_eq_some hfits (sent_letters hintact h.posted) hrecv
      have htidy := h.tidy hfits
      rw [hms] at htidy ⊢
      rw [hreceiver]
      exact htidy.take hread
    · intro _ hstage'
      rw [(loginRecv_ends hrecv).1] at hstage'
      cases hstage'
  | @key other k result hstage =>
    refine ⟨letters, h.setClient ?_ ?_⟩
    · rintro rfl
      exact h.tidy
    · rintro rfl
      exact h.early
  | @readv other chunk hstage hle hcomes =>
    refine ⟨letters, h.setClient ?_ ?_⟩
    · rintro rfl hfits
      exact (h.tidy hfits).turn hfits hle (hcomes.trans (sent_letters hintact h.posted))
    · rintro rfl hstage'
      change (s.clients id).stage.inLogin = true at hstage'
      rw [hstage] at hstage'
      cases hstage'
  | @leave other =>
    refine ⟨letters, h.setClient ?_ ?_⟩
    · rintro rfl
      exact h.tidy
    · intro _ hstage'
      cases hstage'

theorem delivering (hs : Reachable (machine kernel n) allowed s) :
    Announced s.server s.announced ∧ ∀ id, ∃ letters, Delivering s id letters := by
  refine hs.invariant_of_reachable
    (P := fun s => Announced s.server s.announced ∧ ∀ id, ∃ letters, Delivering s id letters)
    ⟨.init, fun id => ⟨[], ⟨rfl, rfl, fun _ hnone => absurd hnone List.not_mem_nil⟩,
      fun _ => .new _, fun _ => rfl⟩⟩ ?_
  intro s a t hs ⟨hannounced, hall⟩ _ hnext
  constructor
  · cases (next_moves hnext).serves with
    | served b hserver hlater hclients => exact hlater ▸ hannounced.step hserver
    | still hserver hlater =>
      rw [hserver, hlater]
      exact hannounced
  · intro id
    obtain ⟨letters, h⟩ := hall id
    exact h.step hannounced (intact hs) hnext

end Receiving

end ChatServer.ChatNetwork
