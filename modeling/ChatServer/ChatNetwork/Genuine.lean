import ChatServer.ChatNetwork.Delivery
import ChatServer.RoomPrivacy

/-!
Who has said what a client receives. The two ways of the network together: what
arrives under a name was typed by a user that logged in with this name, what is
private was meant for the user who receives it, and so was what is said in a room.
-/
namespace ChatServer.ChatNetwork

open Lib.Runs ServerSystem PacketCodec ReceivePath ChatProto
open ClientSend (Sender taken)
open Downlink (Receiver Letter announces)

section Genuine

open Provenance (Asked Says)

variable {n : ℕ} {kernel : ConnId → Kernel} {s t : Network n} {a : Action n} {id : ConnId}
  {allowed : Network n → Action n → Prop}

/-- The client has asked for the name, and has read that the server gives it this name. -/
def LoggedIn (c : Client) (name : String) : Prop :=
  c.username = name ∧ .login ⟨name⟩ ∈ c.sender.messages ∧
    ∃ resp ∈ c.receiver.received, Client.accepts resp = true

/-- The user that is logged in under the name has said this. -/
def Said (s : Network n) (b : ChatBroadcast) : Prop :=
  ∃ c, LoggedIn (s.clients c) b.sender ∧
    (.globalChat ⟨b.text⟩ ∈ (s.clients c).sender.messages ∧ b.originRoom = "" ∨
      .roomChat ⟨b.originRoom, b.text⟩ ∈ (s.clients c).sender.messages)

/-- A message to a client is what some user sent, to the name of this client if it is
private, or it is from the server: a notice, or the answer to a request of the client. If it
names a room, then the user of the client has asked to join this room. -/
def Genuine (s : Network n) (d : ConnId) : ServerMessage → Prop
  | .loginResponse _ => .login ⟨(s.clients d).username⟩ ∈ (s.clients d).sender.messages
  | .error _ => (s.clients d).sender.messages ≠ []
  | .privateChat pm => ∃ c, LoggedIn (s.clients c) pm.sender ∧
      .privateChat ⟨(s.clients d).username, pm.text⟩ ∈ (s.clients c).sender.messages
  | .chatBroadcast b => (b.sender = "Server" ∨ Said s b) ∧
      (b.originRoom ≠ "" → .joinRoom ⟨b.originRoom⟩ ∈ (s.clients d).sender.messages)

/-- A client logs in once, under its name, and says something only when it is logged in. -/
structure Signed (c : Client) : Prop where
  named : ∀ req, .login req ∈ c.sender.messages → req.username = c.username
  admitted : (c.stage = .running ∨ ∃ m ∈ c.sender.messages, ∀ req, m ≠ .login req) →
    ∃ resp ∈ c.receiver.received, Client.accepts resp = true

namespace Signed

theorem new : Signed .new where
  named := fun _ hnone => absurd hnone List.not_mem_nil
  admitted := by
    rintro (hrunning | ⟨m, hnone, -⟩)
    · cases hrunning
    · exact absurd hnone List.not_mem_nil

theorem loggedIn {c : Client} (h : Signed c) {name : String} {m : ClientMessage}
    (hlogin : .login ⟨name⟩ ∈ c.sender.messages) (hm : m ∈ c.sender.messages)
    (hother : ∀ req, m ≠ .login req) : LoggedIn c name :=
  ⟨(h.named _ hlogin).symm, hlogin, h.admitted (Or.inr ⟨m, hm, hother⟩)⟩

/-- What input_loop sends are no logins. -/
theorem key {c : Client} (h : Signed c) (hrunning : c.stage = .running) (k : Char)
    (result : Option ℕ) : Signed (c.key k result) := by
  refine ⟨?_, fun _ => h.admitted (Or.inl hrunning)⟩
  intro req hlogin
  change _ ∈ (c.sender.turn serializeClient (k, result)).messages at hlogin
  unfold ClientSend.Sender.turn at hlogin
  split at hlogin
  · dsimp only at hlogin
    split at hlogin
    · rename_i m hm
      obtain hold | hnew := List.mem_append.mp hlogin
      · exact h.named req hold
      · have hsent := (ClientInput.key_follows (c := c.sender.client) k).sent m hm
        rw [← List.mem_singleton.mp hnew] at hsent
        cases hsent
    · exact h.named req hlogin
  · exact h.named req hlogin

theorem enterName {c : Client} (hnew : c.sender = .new) (name : String)
    (result : Option ℕ) : Signed (c.enterName name result) := by
  have hnone : c.sender.messages = [] := congrArg Sender.messages hnew
  unfold Client.enterName
  split
  · refine ⟨fun req hlogin => ?_, ?_⟩
    · rw [show c.sender.messages = [] from hnone] at hlogin
      cases hlogin
    · rintro (hrunning | ⟨m, hm, -⟩)
      · cases hrunning
      · rw [show c.sender.messages = [] from hnone] at hm
        cases hm
  · have honly : ∀ m ∈ c.sender.messages ++ [ClientMessage.login ⟨name⟩], m = .login ⟨name⟩ := by
      rw [hnone]
      exact fun m hm => List.mem_singleton.mp hm
    refine ⟨fun req hlogin => ?_, ?_⟩
    · cases honly _ hlogin
      rfl
    · rintro (hrunning | ⟨m, hm, hother⟩)
      · change (if result.isSome then Stage.awaiting else Stage.over) = .running at hrunning
        split at hrunning <;> cases hrunning
      · exact absurd (honly m hm) (hother _)

theorem loginRecv {c d : Client} (h : Signed c) {available : Bytes}
    (hrecv : c.loginRecv available = some d) : Signed d := by
  obtain ⟨-, hsender, hname⟩ := loginRecv_ends hrecv
  refine ⟨by rw [hsender, hname]; exact h.named, ?_⟩
  obtain ⟨hkept, hrunning⟩ := loginRecv_admits hrecv
  rintro (hstage | hsaid)
  · exact hrunning hstage
  · rw [hsender] at hsaid
    obtain ⟨resp, hresp, haccepts⟩ := h.admitted (Or.inr hsaid)
    exact ⟨resp, hkept.subset hresp, haccepts⟩

theorem readv {c : Client} (h : Signed c) (chunk : Bytes) : Signed (c.readv chunk) := by
  refine ⟨h.named, fun hsaid => ?_⟩
  obtain ⟨resp, hresp, haccepts⟩ := h.admitted hsaid
  exact ⟨resp, List.mem_append_left _ hresp, haccepts⟩

theorem leave {c : Client} (h : Signed c) : Signed c.leave := by
  refine ⟨h.named, ?_⟩
  rintro (hrunning | hsaid)
  · cases hrunning
  · exact h.admitted (Or.inr hsaid)

end Signed

theorem signed (hs : Reachable (machine kernel n) Fitting s) (id : ConnId) :
    Signed (s.clients id) := by
  refine hs.invariant_of_reachable (P := fun s => Signed (s.clients id))
    .new ?_
  intro s a t hs h _ hnext
  have hset : ∀ {other : ConnId} {c : Client}, (id = other → Signed c) →
      Signed ((s.setClient other c).clients id) := by
    intro other c hc
    by_cases hid : id = other
    · rw [show (s.setClient other c).clients id = c from
        hid ▸ Function.update_self (β := fun _ => Client) other c s.clients]
      exact hc hid
    · rw [show (s.setClient other c).clients id = s.clients id from
        Function.update_of_ne hid _ _]
      exact h
  cases next_moves hnext with
  | server ha hserver => exact h
  | handleRead hidle hcomes hserver => exact h
  | push hreading hserver => exact h
  | pushed hreading => exact h
  | @enterName other name result hstage =>
    refine hset fun hid => ?_
    exact Signed.enterName ((asking hs other).fresh hstage) name result
  | @loginRecv other c hstage hrecv =>
    refine hset ?_
    rintro rfl
    exact h.loginRecv hrecv
  | @key other k result hstage =>
    refine hset ?_
    rintro rfl
    exact h.key hstage k result
  | @readv other chunk hstage hle hcomes =>
    refine hset ?_
    rintro rfl
    exact h.readv chunk
  | @leave other =>
    refine hset ?_
    rintro rfl
    exact h.leave

theorem whollyRead_sublist (ps : List Bytes) (n : ℕ) : (whollyRead ps n).Sublist ps := by
  induction ps generalizing n with
  | nil => exact List.Sublist.refl _
  | cons p ps ih =>
    unfold whollyRead
    split
    · exact (ih _).cons_cons p
    · exact List.nil_sublist _

/-- What the handler was called for was entered at the client. -/
theorem entered_of_asked (hs : Reachable (machine kernel n) Fitting s) {c : ConnId}
    (hsize : Sendable (s.clients c).sender.messages) {req : ClientMessage}
    (h : Asked parseClient s.server.log c req) : req ∈ (s.clients c).sender.messages := by
  obtain ⟨evt, hevt, hconn, htype, hrequest⟩ := h
  obtain ⟨payload, hpayload, hparse⟩ := Option.bind_eq_some_iff.mp hrequest
  have hhandled : payload ∈ handled s.server.log c := by
    refine List.mem_filterMap.mpr ⟨evt, hevt, ?_⟩
    rw [requestOf, if_pos ⟨htype, hconn⟩, hpayload]
  have hpushed : payload ∈ payloads s.server.log c ++ s.unpushed c :=
    List.mem_append_left _ ((handled_sublist (server_reachable hs) c).subset hhandled)
  rw [decoded_exact hs c hsize] at hpushed
  obtain ⟨m, hm, rfl⟩ := List.mem_map.mp ((whollyRead_sublist _ _).subset hpushed)
  rw [parse_serializeClient] at hparse
  cases hparse
  exact hm

theorem said_of_asked (hs : Reachable (machine kernel n) Fitting s)
    (hsize : ∀ c, Sendable (s.clients c).sender.messages) {b : ChatBroadcast}
    (h : Says (Asked parseClient s.server.log) b) : Said s b := by
  obtain ⟨c, hlogin, htext⟩ := h
  have hlogged := entered_of_asked hs (hsize c) hlogin
  obtain ⟨hglobal, hroom⟩ | hroom := htext
  · have hentered := entered_of_asked hs (hsize c) hglobal
    exact ⟨c, (signed hs c).loggedIn hlogged hentered (by simp), Or.inl ⟨hentered, hroom⟩⟩
  · have hentered := entered_of_asked hs (hsize c) hroom
    exact ⟨c, (signed hs c).loggedIn hlogged hentered (by simp), Or.inr hentered⟩

/-- What is in the queue of a client is genuine. -/
theorem genuine_of_queued (hs : Reachable (machine kernel n) Fitting s)
    (hsize : ∀ c, Sendable (s.clients c).sender.messages) {packet : SharedPayload}
    {msg : ServerMessage} (hpacket : packet ∈ AppendedPackets.appended s.server.net id)
    (hbytes : packet.bytes = encode serializeServer msg) : Genuine s id msg := by
  have hlogged : ∀ {c : ConnId} {req : LoginRequest},
      Asked parseClient s.server.log c (.login req) →
        .login req ∈ (s.clients c).sender.messages ∧
          req.username = (s.clients c).username := by
    intro c req hasked
    have hentered := entered_of_asked hs (hsize c) hasked
    exact ⟨hentered, (signed hs c).named req hentered⟩
  have hserver := server_reachable hs
  have hvouched := Provenance.vouched_of_queued hserver hpacket hbytes
  cases msg with
  | loginResponse resp =>
    obtain ⟨⟨name⟩, hasked⟩ := hvouched.resolve_right fun hnone => hnone
    obtain ⟨hentered, rfl⟩ := hlogged hasked
    exact hentered
  | error e =>
    obtain ⟨req, hasked⟩ := hvouched.resolve_right fun hnone => hnone
    exact List.ne_nil_of_mem (entered_of_asked hs (hsize id) hasked)
  | privateChat pm =>
    obtain ⟨c, target, hsender, hasked, htarget⟩ := hvouched.resolve_right fun hnone => hnone
    obtain ⟨-, rfl⟩ := hlogged htarget
    have hentered := entered_of_asked hs (hsize c) hasked
    exact ⟨c, (signed hs c).loggedIn (hlogged hsender).1 hentered (by simp), hentered⟩
  | chatBroadcast b =>
    constructor
    · obtain hsent | hbroadcast := hvouched
      · exact hsent.imp_right (said_of_asked hs hsize)
      · exact Or.inr (said_of_asked hs hsize hbroadcast)
    · intro hroom
      exact entered_of_asked hs (hsize id)
        (RoomPrivacy.asked_of_queued hserver hpacket hbytes hroom)

end Genuine

end ChatServer.ChatNetwork
