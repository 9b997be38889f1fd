import ChatServer.ChatNetwork

/-!
From the keyboard of a client to the handler. As long as each send of the client
goes on where the kernel is in its frames, the server has read the beginning of
these frames, and what it decodes are the messages that are wholly in there.
-/
namespace ChatServer.ChatNetwork

open Lib.Runs ServerSystem PacketCodec ReceivePath ChatProto
open ClientSend (Sender taken)
open Downlink (Receiver announces)

section Requests

variable {n : ℕ} {kernel : ConnId → Kernel} {s t : Network n} {a : Action n} {id : ConnId}

/-- What handle_read has decoded and is yet to push. -/
def Network.unpushed (s : Network n) (id : ConnId) : List Bytes :=
  match s.reading with
  | some (c, rest) => if c = id then rest else []
  | none => []

/-- Each message fits the limit of the codec. -/
def Sendable (messages : List ClientMessage) : Prop :=
  ∀ m ∈ messages, (serializeClient m).length ≤ maxPayload

instance (messages : List ClientMessage) : Decidable (Sendable messages) :=
  inferInstanceAs (Decidable (∀ m ∈ messages, _))

/-- The server has read the beginning of the frames of a client, and has decoded the messages
of these frames. -/
structure Asking (s : Network n) (id : ConnId) : Prop where
  fresh : (s.clients id).stage = .naming → (s.clients id).sender = .new
  handed : (s.clients id).sender.handed <+: (s.clients id).sender.stream serializeClient
  received : (connOf s.server.net id).received <+: (s.clients id).sender.handed
  decoded : Sendable (s.clients id).sender.messages →
    Receiving (connOf s.server.net id) (payloads s.server.log id ++ s.unpushed id)

theorem receiving_congr {conn conn' : Connection} {messages : List Bytes}
    (h : Receiving conn messages) (hsame : intake conn' = intake conn) :
    Receiving conn' messages := by
  obtain ⟨hbuf, hreceived⟩ := Prod.mk.inj hsame
  refine ⟨⟨?_, ?_⟩, ?_, h.fits, ?_⟩
  · rw [hbuf]
    exact h.inBuf.wellFormed
  · rw [hbuf]
    exact h.inBuf.capacity
  · rw [hbuf, hreceived]
    exact h.received
  · rw [hbuf]
    exact h.waits

/-- The server has taken nothing in, and what it has decoded is what it had. -/
theorem Asking.same (h : Asking s id) (hclients : t.clients = s.clients)
    (hintake : intake (connOf t.server.net id) = intake (connOf s.server.net id))
    (hdecoded : payloads t.server.log id ++ t.unpushed id =
      payloads s.server.log id ++ s.unpushed id) : Asking t id := by
  refine ⟨?_, ?_, ?_, ?_⟩
  · rw [hclients]
    exact h.fresh
  · rw [hclients]
    exact h.handed
  · rw [hclients, show (connOf t.server.net id).received = _ from congrArg Prod.snd hintake]
    exact h.received
  · rw [hclients, hdecoded]
    exact fun hsize => receiving_congr (h.decoded hsize) hintake

/-- A step of a client alone, after login has begun. -/
theorem Asking.setClient (h : Asking s id) {other : ConnId} {c : Client}
    (hstage : c.stage ≠ .naming)
    (hclient : id = other → c.sender.handed <+: c.sender.stream serializeClient ∧
      (s.clients id).sender.messages <+: c.sender.messages ∧
      (s.clients id).sender.handed <+: c.sender.handed) :
    Asking (s.setClient other c) id := by
  by_cases hid : id = other
  · obtain ⟨hstream, hmessages, hhanded⟩ := hclient hid
    have hself : (s.setClient other c).clients id = c := by
      rw [hid]
      exact Function.update_self (β := fun _ => Client) other c s.clients
    refine ⟨?_, ?_, ?_, ?_⟩
    · rw [hself]
      exact fun hnaming => absurd hnaming hstage
    · rw [hself]
      exact hstream
    · rw [hself]
      exact h.received.trans hhanded
    · rw [hself]
      exact fun hsize => h.decoded fun m hm => hsize m (hmessages.subset hm)
  · have hother : (s.setClient other c).clients id = s.clients id :=
      Function.update_of_ne hid _ _
    refine ⟨?_, ?_, ?_, ?_⟩
    · rw [hother]
      exact h.fresh
    · rw [hother]
      exact h.handed
    · rw [hother]
      exact h.received
    · rw [hother]
      exact h.decoded

/-- The client sends nothing. -/
theorem Asking.silent (h : Asking s id) {other : ConnId} {c : Client} (hstage : c.stage ≠ .naming)
    (hsender : c.sender = (s.clients other).sender) : Asking (s.setClient other c) id := by
  refine h.setClient hstage ?_
  intro hid
  rw [hsender, ← hid]
  exact ⟨h.handed, List.prefix_rfl, List.prefix_rfl⟩

theorem turn_grows (serialize : ClientMessage → Bytes) (c : Sender) (k : Char × Option ℕ) :
    c.messages <+: (c.turn serialize k).messages ∧ c.handed <+: (c.turn serialize k).handed := by
  unfold ClientSend.Sender.turn
  split
  · dsimp only
    split
    · exact ⟨List.prefix_append _ _, List.prefix_append _ _⟩
    · exact ⟨List.prefix_rfl, List.prefix_rfl⟩
  · exact ⟨List.prefix_rfl, List.prefix_rfl⟩

/-- The request of login is the first packet. -/
theorem handed_login (name : String) (result : Option ℕ) :
    taken (encode serializeClient (.login ⟨name⟩)) result <+:
      frames ([ClientMessage.login ⟨name⟩].map serializeClient) := by
  rw [List.map_cons, List.map_nil, frames_cons, frames_nil, List.append_nil]
  exact ClientSend.taken_le _ result

theorem Asking.taking (h : Asking s id) {other : ConnId} {answers : List ReadvAnswer}
    {server : System n} (hidle : s.reading = none)
    (hcomes : (handleRead (connOf s.server.net other) answers).conn.received <+:
      (s.clients other).sender.handed)
    (hnext : s.server.next (setup kernel) (.net (.connOp other (.handleRead answers))) =
      some server) :
    Asking { s.serve (.net (.connOp other (.handleRead answers))) server with
      reading := some (other, (handleRead (connOf s.server.net other) answers).messages) } id := by
  obtain ⟨hnet, hlog⟩ := serve_handleRead hnext
  have hnothing : s.unpushed id = [] := by
    rw [Network.unpushed, hidle]
  by_cases hid : other = id
  · subst hid
    have hself : connOf server.net other =
        (handleRead (connOf s.server.net other) answers).conn := by
      rw [hnet]
      exact connOf_setConn_self _ _ _
    refine ⟨h.fresh, h.handed, ?_, ?_⟩
    · show (connOf server.net other).received <+: _
      rw [hself]
      exact hcomes
    · intro hsize
      show Receiving (connOf server.net other) (payloads server.log other ++
        if other = other then _ else [])
      have hbefore := h.decoded hsize
      rw [hnothing, List.append_nil] at hbefore
      rw [hself, hlog, if_pos rfl]
      refine (hbefore.handleRead ?_ answers (hcomes.trans h.handed)).1
      intro p hp
      obtain ⟨m, hm, rfl⟩ := List.mem_map.mp hp
      exact hsize m hm
  · refine h.same rfl ?_ ?_
    · show intake (connOf server.net id) = _
      rw [hnet, connOf_setConn_of_ne _ (Ne.symm hid)]
    · show payloads server.log id ++ (if other = id then _ else []) = _
      rw [hlog, if_neg hid, hnothing]

theorem Asking.step (h : Asking s id) (hfitting : Fitting s a)
    (hnext : s.next (setup kernel) a = some t) : Asking t id := by
  cases next_moves hnext with
  | server ha hserver =>
    obtain ⟨hintake, hpayloads⟩ := serve_idle hserver ha id
    exact h.same rfl hintake (congrArg (· ++ s.unpushed id) hpayloads)
  | @handleRead other answers server hidle hcomes hserver => exact h.taking hidle hcomes hserver
  | @push other payload rest server hreading hserver =>
    obtain ⟨hnet, hpayloads⟩ := serve_message hserver id
    refine h.same rfl (by rw [← hnet]; rfl) ?_
    show payloads server.log id ++ (if other = id then rest else []) = _
    rw [hpayloads, Network.unpushed, hreading, List.append_assoc]
    dsimp only
    split <;> rfl
  | @pushed other hreading =>
    refine h.same rfl rfl ?_
    simp [Network.unpushed, hreading]
  | @enterName other name result hstage =>
    refine h.setClient ?_ ?_
    · unfold Client.enterName
      dsimp only
      repeat' split
      all_goals simp
    · rintro rfl
      have hnew := h.fresh hstage
      unfold Client.enterName
      split
      · exact ⟨h.handed, List.prefix_rfl, List.prefix_rfl⟩
      · refine ⟨?_, List.prefix_append _ _, List.prefix_append _ _⟩
        rw [hnew]
        exact handed_login name result
  | @loginRecv other c hstage hrecv =>
    obtain ⟨hends, hsender, -⟩ := loginRecv_ends hrecv
    refine h.silent ?_ hsender
    intro hnaming
    rw [hnaming] at hends
    cases hends
  | @key other k result hstage =>
    refine h.setClient (by show (s.clients other).stage ≠ _; rw [hstage]; simp) ?_
    rintro rfl
    obtain ⟨hmessages, hhanded⟩ := turn_grows serializeClient (s.clients id).sender (k, result)
    exact ⟨ClientSend.handed_turn h.handed hfitting, hmessages, hhanded⟩
  | @readv other chunk hstage hle hcomes =>
    exact h.silent (by show (s.clients other).stage ≠ _; rw [hstage]; simp) rfl
  | @leave other => exact h.silent (by simp [Client.leave]) rfl

theorem asking (hs : Reachable (machine kernel n) Fitting s) (id : ConnId) : Asking s id := by
  refine hs.invariant (P := fun s => Asking s id) ?_ fun _ _ _ h ha hnext => h.step ha hnext
  exact ⟨fun _ => rfl, List.prefix_rfl, List.prefix_rfl, fun _ => new_receiving 0 0⟩

/-- The messages that are wholly in what was read have been decoded. -/
theorem decoded_exact (hs : Reachable (machine kernel n) Fitting s) (id : ConnId)
    (hsize : Sendable (s.clients id).sender.messages) :
    payloads s.server.log id ++ s.unpushed id =
      whollyRead ((s.clients id).sender.messages.map serializeClient)
        (connOf s.server.net id).received.length := by
  have h := asking hs id
  refine (h.decoded hsize).messages_eq ?_ (h.received.trans h.handed)
  intro p hp
  obtain ⟨m, hm, rfl⟩ := List.mem_map.mp hp
  exact hsize m hm

end Requests

end ChatServer.ChatNetwork
