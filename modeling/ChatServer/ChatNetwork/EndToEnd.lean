import ChatServer.ChatNetwork.Conversation
import ChatServer.ChatNetwork.Genuine

/-!
The network from end to end: the requests of a client at the handlers, the messages
of the handlers at the client, and who has said what a client receives. In each
case the user of connection 0 logs in, writes to himself and then to everybody.
-/
namespace ChatServer.ChatNetwork

open Lib.Runs PacketCodec ReceivePath ChatProto
open Downlink (Letter Posted)

variable {n : ℕ} {kernel : ConnId → Kernel} {s : Network n}

/-- What the server has read of a client is the beginning of its frames. The requests are
the messages that are wholly in it, in order, and the handler is called for some of them
in this order: for each at most once. -/
theorem requests_exact (hs : Reachable (machine kernel n) Fitting s) (id : ConnId)
    (hsize : Sendable (s.clients id).sender.messages) :
    (connOf s.server.net id).received <+: (s.clients id).sender.stream serializeClient ∧
      payloads s.server.log id ++ s.unpushed id =
        whollyRead ((s.clients id).sender.messages.map serializeClient)
          (connOf s.server.net id).received.length ∧
      (handled s.server.log id).Sublist (payloads s.server.log id) := by
  have h := asking hs id
  exact ⟨h.received.trans h.handed, decoded_exact hs id hsize,
    handled_sublist (server_reachable hs) id⟩

theorem served_sendable : ∀ c, Sendable (only served c).sender.messages := by
  intro c
  by_cases hc : c = 0
  · rw [hc]
    decide +kernel
  · rw [only, Function.update_of_ne hc]
    exact fun m hm => absurd hm List.not_mem_nil

theorem requests_exact_conversation : ∃ s : Network 1,
    Reachable (machine (fun _ => eager) 1) Fitting s ∧
      payloads s.server.log 0 = requests.map serializeClient ∧
      (connOf s.server.net 0).received <+: (s.clients 0).sender.stream serializeClient ∧
      payloads s.server.log 0 ++ s.unpushed 0 =
        whollyRead ((s.clients 0).sender.messages.map serializeClient)
          (connOf s.server.net 0).received.length ∧
      (handled s.server.log 0).Sublist (payloads s.server.log 0) := by
  obtain ⟨s, hs, hclients, hpushed, -⟩ := conversation
  exact ⟨s, hs, hpushed, requests_exact hs 0 (hclients ▸ served_sendable 0)⟩

/-- What a client has received is the beginning of what the server has for it, in this order:
the answers of the handlers, all of them, and among these broadcasts, each at most once. When
it has read everything, then it has received everything. -/
theorem received_exact {allowed : Network n → Action n → Prop}
    (hs : Reachable (machine kernel n) allowed s) (id : ConnId)
    (hfits : ∀ packet ∈ AppendedPackets.appended s.server.net id,
      packet.bytes.length ≤ ClientReceive.inBufSize) :
    ∃ letters, Posted s.server s.announced id letters ∧
      (letters.filterMap Letter.origin).Nodup ∧
      (s.clients id).receiver.received <+: letters.map Letter.msg ∧
      ((s.clients id).receiver.read =
          (AppendedPackets.appended s.server.net id).flatMap SharedPayload.bytes →
        (s.clients id).receiver.received = letters.map Letter.msg) := by
  obtain ⟨letters, h⟩ := (delivering hs).2 id
  have happended := h.posted.appended
  have hall := h.posted.fits hfits
  refine ⟨letters, h.posted, ?_, (h.tidy hall).received, fun hread => ?_⟩
  · have horigins : (AppendedPackets.appended s.server.net id).filterMap SharedPayload.origin =
        letters.filterMap Letter.origin := by
      rw [happended, List.filterMap_map]
      rfl
    rw [← horigins]
    exact Downlink.origins_nodup (ServerSystem.net_reachable (server_reachable hs)) id
  · rw [happended, Downlink.packets_bytes] at hread
    exact ((h.tidy hall).all hall hread).1

/-- A packet tells which letter it is. -/
theorem letters_of_packets {posted : List Letter}
    (h : posted.map Letter.packet = letters.map Letter.packet) : posted = letters := by
  refine List.map_injective_iff.mpr ?_ h
  intro l l' hpacket
  obtain ⟨hbytes, horigin⟩ := SharedPayload.mk.inj hpacket
  cases l
  cases l'
  cases Provenance.encode_injective hbytes
  cases horigin
  rfl

/-- The packets of the conversation fit, and the client has read them all. -/
theorem letters_read {packets : List SharedPayload} (h : packets = letters.map Letter.packet) :
    (∀ packet ∈ packets, packet.bytes.length ≤ ClientReceive.inBufSize) ∧
      (only served 0).receiver.read = packets.flatMap SharedPayload.bytes := by
  rw [h]
  exact ⟨by decide +kernel, (Downlink.packets_bytes letters).symm⟩

theorem received_exact_conversation : ∃ s : Network 1,
    Reachable (machine (fun _ => eager) 1) Fitting s ∧
      ∃ posted, Posted s.server s.announced 0 posted ∧
        posted = letters ∧
        (posted.filterMap Letter.origin).Nodup ∧
        (s.clients 0).receiver.received <+: posted.map Letter.msg ∧
        (s.clients 0).receiver.received = posted.map Letter.msg := by
  obtain ⟨s, hs, hclients, -, happended⟩ := conversation
  obtain ⟨hfits, hread⟩ := letters_read happended
  obtain ⟨posted, hposted, honce, hfirst, hall⟩ := received_exact hs 0 hfits
  exact ⟨s, hs, posted, hposted, letters_of_packets (hposted.appended.symm.trans happended), honce,
    hfirst, hall (by rw [hclients]; exact hread)⟩

/-- Whatever a client receives is genuine. -/
theorem received_genuine (hs : Reachable (machine kernel n) Fitting s)
    (hsize : ∀ c, Sendable (s.clients c).sender.messages) (id : ConnId)
    (hfits : ∀ packet ∈ AppendedPackets.appended s.server.net id,
      packet.bytes.length ≤ ClientReceive.inBufSize) :
    ∀ msg ∈ (s.clients id).receiver.received, Genuine s id msg := by
  obtain ⟨letters, h⟩ := (delivering hs).2 id
  intro msg hmsg
  obtain ⟨letter, hletter, rfl⟩ :=
    List.mem_map.mp ((h.tidy (h.posted.fits hfits)).received.subset hmsg)
  have hpacket : letter.packet ∈ AppendedPackets.appended s.server.net id := by
    rw [h.posted.appended]
    exact List.mem_map_of_mem hletter
  exact genuine_of_queued hs hsize hpacket rfl

theorem conversation_received {s : Network 1}
    (hs : Reachable (machine (fun _ => eager) 1) Fitting s) (hclients : s.clients = only served)
    (happended : AppendedPackets.appended s.server.net 0 = letters.map Letter.packet) :
    (s.clients 0).receiver.received = letters.map Letter.msg := by
  obtain ⟨hfits, hread⟩ := letters_read happended
  obtain ⟨posted, h⟩ := (delivering hs).2 0
  obtain rfl := letters_of_packets (h.posted.appended.symm.trans happended)
  rw [happended, Downlink.packets_bytes] at hread
  have hall := h.posted.fits hfits
  exact ((h.tidy hall).all hall (by rw [hclients]; exact hread)).1

theorem received_genuine_conversation : ∃ s : Network 1,
    Reachable (machine (fun _ => eager) 1) Fitting s ∧
      (s.clients 0).receiver.received = letters.map Letter.msg ∧
      ∀ msg ∈ letters.map Letter.msg, Genuine s 0 msg := by
  obtain ⟨s, hs, hclients, -, happended⟩ := conversation
  have hreceived := conversation_received hs hclients happended
  refine ⟨s, hs, hreceived, ?_⟩
  rw [← hreceived]
  exact received_genuine hs (hclients ▸ served_sendable) 0 (letters_read happended).1

end ChatServer.ChatNetwork
