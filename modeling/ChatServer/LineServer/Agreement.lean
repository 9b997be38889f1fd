import ChatServer.LineServer.LineClient

/-!
The client of the second version and the server agree on the login when each reply
comes in one piece. What the client has read then tells how many names were answered, as
the acceptance and the refusal differ, and the answer that ends the login of the client
is the one with which the server has made the connection active.
-/
namespace ChatServer.LineServer.LineClient

open Lib.DelimitedLines Lib.Runs MessageTasks EventLoop

section Messages

/-- What a client has read that was asked for a name so many times. -/
def asked : ℕ → Bytes
  | 0 => []
  | n + 1 => welcomeMessage ++ (List.replicate n errorMessage).flatten

theorem asked_add {n : ℕ} (hn : 0 < n) (k : ℕ) :
    asked (n + k) = asked n ++ (List.replicate k errorMessage).flatten := by
  obtain ⟨m, rfl⟩ := Nat.exists_eq_add_of_lt hn
  rw [Nat.zero_add, Nat.add_right_comm]
  simp only [asked, List.replicate_add, List.flatten_append, List.append_assoc]

theorem asked_length_lt {n m : ℕ} (h : n < m) : (asked n).length < (asked m).length := by
  obtain ⟨k, rfl⟩ := Nat.exists_eq_add_of_lt h
  rcases Nat.eq_zero_or_pos n with rfl | hn
  · simp only [asked, Nat.zero_add, List.length_append, List.length_nil]
    have hwelcome : 0 < welcomeMessage.length := by decide +kernel
    omega
  · rw [Nat.add_assoc, asked_add hn, List.length_append, List.replicate_succ, List.flatten_cons,
      List.length_append]
    have herror : 0 < errorMessage.length := by decide +kernel
    omega

theorem not_valid_prefix_error (rest : Bytes) : ¬ validMessage <+: errorMessage ++ rest := by
  intro h
  have hshort : validMessage <+: errorMessage :=
    List.prefix_of_prefix_length_le h (List.prefix_append _ _) (by decide +kernel)
  revert hshort
  decide +kernel

theorem not_error_prefix_valid (rest : Bytes) : ¬ errorMessage <+: validMessage ++ rest := by
  intro h
  have hshort : validMessage <+: errorMessage :=
    List.prefix_of_prefix_length_le (List.prefix_append _ _) h (by decide +kernel)
  exact not_valid_prefix_error [] (by rwa [List.append_nil])

/-- The question for a name after so many names. -/
def question : ℕ → Text
  | 0 => welcomeMessage
  | _ + 1 => errorMessage

theorem asked_succ (n : ℕ) : asked (n + 1) = asked n ++ question n := by
  cases n with
  | zero => exact List.append_nil _
  | succ n =>
    rw [asked_add n.succ_pos 1]
    exact congrArg (asked (n + 1) ++ ·) (List.append_nil _)

theorem lt_of_asked_prefix {n m : ℕ} {chunk : Bytes} (hsome : 0 < chunk.length)
    (h : asked n ++ chunk <+: asked m) : n < m := by
  by_contra hle
  have hlength := h.length_le
  rw [List.length_append] at hlength
  rcases Nat.eq_or_lt_of_le (Nat.le_of_not_lt hle) with heq | hlt
  · rw [heq] at hlength
    omega
  · have hless := asked_length_lt hlt
    omega

/-- Nobody who was let in was asked again. -/
theorem le_of_asked_prefix {n m : ℕ} (hm : 0 < m) {rest : Bytes}
    (h : asked n <+: asked m ++ (validMessage ++ rest)) : n ≤ m := by
  by_contra hlt
  obtain ⟨k, rfl⟩ := Nat.exists_eq_add_of_lt (Nat.lt_of_not_le hlt)
  rw [Nat.add_assoc, asked_add hm, List.prefix_append_right_inj, List.replicate_succ,
    List.flatten_cons] at h
  exact not_error_prefix_valid rest ((List.prefix_append _ _).trans h)

theorem not_asked_accepted {n m : ℕ} (hn : 0 < n) (h : asked n ++ validMessage <+: asked m) :
    False := by
  have hle : n ≤ m := by
    by_contra hlt
    have hlength := h.length_le
    have hless := asked_length_lt (Nat.lt_of_not_le hlt)
    rw [List.length_append] at hlength
    omega
  obtain ⟨k, rfl⟩ := Nat.exists_eq_add_of_le hle
  rw [asked_add hn, List.prefix_append_right_inj] at h
  cases k with
  | zero =>
    have hlength := h.length_le
    revert hlength
    decide +kernel
  | succ k =>
    rw [List.replicate_succ, List.flatten_cons] at h
    exact not_valid_prefix_error _ h

/-- The acceptance tells how many names were answered. -/
theorem eq_of_accepted_prefix {n m : ℕ} (hn : 0 < n) (hm : 0 < m) {rest : Bytes}
    (h : asked n ++ validMessage <+: asked m ++ (validMessage ++ rest)) : n = m := by
  have hle := le_of_asked_prefix hm ((List.prefix_append _ _).trans h)
  obtain ⟨k, rfl⟩ := Nat.exists_eq_add_of_le hle
  cases k with
  | zero => rfl
  | succ k =>
    rw [asked_add hn, List.append_assoc, List.prefix_append_right_inj, List.replicate_succ,
      List.flatten_cons, List.append_assoc] at h
    exact absurd h (not_valid_prefix_error _)

theorem accepted_of_valid (rest : Bytes) :
    accepted <:+: (validMessage ++ rest).takeWhile (· ≠ 0) := by
  have hvalid : ∀ b ∈ validMessage, decide (b ≠ 0) = true := by decide +kernel
  rw [List.takeWhile_append_of_pos hvalid]
  have hinfix : accepted <:+: validMessage := by decide +kernel
  exact hinfix.trans (List.prefix_append _ _).isInfix

theorem not_accepted_question (n : ℕ) : ¬ accepted <:+: (question n).takeWhile (· ≠ 0) := by
  cases n with
  | zero =>
    show ¬ accepted <:+: welcomeMessage.takeWhile (· ≠ 0)
    decide +kernel
  | succ n =>
    show ¬ accepted <:+: errorMessage.takeWhile (· ≠ 0)
    decide +kernel

theorem question_length (n : ℕ) : (question n).length ≤ bufferSize - 1 := by
  cases n with
  | zero =>
    show welcomeMessage.length ≤ bufferSize - 1
    decide +kernel
  | succ n =>
    show errorMessage.length ≤ bufferSize - 1
    decide +kernel

end Messages

section Server

variable {W : Type*} {s t : Server W} {c : ConnId}

/-- The username of a connection is the last name that was entered. -/
def Titled (conn : Connection) : Prop :=
  conn.state = .active → conn.entered.getLast? = some conn.username

def loginView (conn : Connection) : ConnState × List Text × Text :=
  (conn.state, conn.entered, conn.username)

theorem Titled.of_view {conn conn' : Connection} (h : Titled conn)
    (hview : loginView conn' = loginView conn) : Titled conn' := by
  obtain ⟨hstate, hentered, hname⟩ : conn'.state = conn.state ∧ conn'.entered = conn.entered ∧
      conn'.username = conn.username := by
    simpa [loginView] using hview
  unfold Titled
  rw [hstate, hentered, hname]
  exact h

theorem titled_step [DecidableEq W] {fds : ServerFds} (h : ∀ c, Titled (s.conns c))
    (htabled : Tabled s) (hmoves : Moves fds s t) : ∀ c, Titled (t.conns c) := by
  have hset : ∀ {d : ConnId} {conn : Connection}, Titled conn →
      ∀ c, Titled ((s.setConn d conn).conns c) := fun hconn =>
    s.setConn_forall (P := fun _ conn => Titled conn) hconn fun c _ => h c
  cases hmoves with
  | turn _ | drain _ | leave _ _ | leaveNameless _ _ | release _ | shutdown _ | closeClient _
  | clear _ | closeServer _ | workerTurn _ | take _ | push _ | otherOpens _ | otherCloses _ =>
    exact h
  | @deliver messages _ =>
    intro c
    rw [htabled.deliver_conns messages c]
    split
    · exact (h c).of_view rfl
    · exact h c
  | @accept fd _ _ =>
    intro c
    by_cases hc : c = s.accepted
    · subst hc
      show Titled (Function.update s.conns s.accepted (.new fd) s.accepted)
      rw [Function.update_self]
      intro hactive
      cases hactive
    · show Titled (Function.update s.conns s.accepted (.new fd) c)
      rw [Function.update_of_ne hc]
      exact h c
  | @login d _ name _ _ _ _ _ _ _ =>
    exact hset fun _ => List.getLast?_concat
  | @refused d _ _ _ _ hstate _ _ =>
    refine hset fun hactive => ?_
    rw [hstate] at hactive
    cases hactive
  | data _ _ | chat _ _ _ _ | sent _ _ | exchange _ _ => exact hset ((h _).of_view rfl)

theorem titled [Fintype W] [DecidableEq W] {fds : ServerFds}
    {allowed : Server W → LineServer.Action W → Prop}
    (hs : Reachable (LineServer.machine fds) allowed s) (c : ConnId) : Titled (s.conns c) :=
  hs.invariant_of_reachable (P := fun s => ∀ c, Titled (s.conns c))
    (fun _ hactive => by cases hactive)
    (fun _ _ _ hreach h _ hnext => titled_step h (tabled hreach) (moves_of_next hnext)) c

end Server

section Wire

variable {W : Type*} {fds : ServerFds} {l m k : Loop W} {c : ConnId} {taken : ℕ}

/-- What has come to the bytes of a connection and to its replies. -/
structure Adds (taken : ℕ) (c : ConnId) (l m : Loop W) : Prop where
  wire : l.wire c <+: m.wire c
  replies : ∀ r ∈ m.replies c, r ∈ l.replies c ∨ r.1 ∈ replyMessages ∧ r.2 = taken

theorem Adds.same (hwire : m.wire = l.wire) (hreplies : m.replies = l.replies) :
    Adds taken c l m where
  wire := by rw [hwire]
  replies r hr := by
    rw [hreplies] at hr
    exact Or.inl hr

theorem Adds.reply {d : ConnId} (msg : Text) (hmsg : msg ∈ replyMessages)
    (hwire : m.wire = (l.reply d msg taken).wire)
    (hreplies : m.replies = (l.reply d msg taken).replies) : Adds taken c l m := by
  constructor
  · rw [hwire]
    show l.wire c <+: Function.update l.wire d _ c
    by_cases hc : c = d
    · rw [hc, Function.update_self]
      exact List.prefix_append _ _
    · rw [Function.update_of_ne hc]
  · rw [hreplies]
    show ∀ r ∈ Function.update l.replies d _ c, _
    intro r hr
    by_cases hc : c = d
    · rw [hc, Function.update_self, List.mem_append, List.mem_singleton] at hr
      rcases hr with hold | rfl
      · exact Or.inl (hc ▸ hold)
      · exact Or.inr ⟨hmsg, rfl⟩
    · rw [Function.update_of_ne hc] at hr
      exact Or.inl hr

theorem Adds.transmit {d : ConnId} (bytes : Bytes) : Adds taken c l (l.transmit d bytes) := by
  constructor
  · show l.wire c <+: Function.update l.wire d _ c
    by_cases hc : c = d
    · rw [hc, Function.update_self]
      exact List.prefix_append _ _
    · rw [Function.update_of_ne hc]
  · exact fun _ hr => Or.inl hr

theorem adds_answer {d : ConnId} : Adds taken c l (l.answer fds d taken) := by
  unfold Loop.answer
  split
  · dsimp only
    split
    · exact .reply validMessage (by decide +kernel) (Loop.wire_writeNotify ..)
        (Loop.replies_writeNotify ..)
    · exact .reply errorMessage (by decide +kernel) rfl rfl
  · exact .same rfl rfl

theorem adds_calls [DecidableEq W] (a : LineServer.Action W) :
    Adds taken c l (l.calls fds taken a) := by
  cases a with
  | epollEvent _ _ _ _ | epollFails | acceptFails | recv _ | destroy | otherOpens _
  | otherCloses _ =>
    exact .same rfl rfl
  | accept fd =>
    refine .reply (d := l.server.accepted) welcomeMessage (by decide +kernel) ?_ ?_
    · show (Loop.reply (l.epollAdd fd) _ _ _).wire = _
      unfold Loop.reply
      rw [Loop.wire_epollAdd]
    · show (Loop.reply (l.epollAdd fd) _ _ _).replies = _
      unfold Loop.reply
      rw [Loop.replies_epollAdd]
  | send result =>
    simp only [Loop.calls]
    split
    · exact .transmit _
    · exact .same (Loop.wire_epollMod ..) (Loop.replies_epollMod ..)
    · exact .same rfl rfl
  | reactor =>
    simp only [Loop.calls]
    split
    · exact .same (Loop.rearm_same Loop.wire (fun _ _ => Loop.wire_epollMod ..) ..)
        (Loop.rearm_same Loop.replies (fun _ _ => Loop.replies_epollMod ..) ..)
    · exact adds_answer
    · exact .same (Loop.wire_epollMod ..) (Loop.replies_epollMod ..)
    · split
      · exact .same rfl rfl
      · exact .same (Loop.wire_writeNotify ..) (Loop.replies_writeNotify ..)
    all_goals exact .same rfl rfl
  | work w =>
    simp only [Loop.calls]
    split <;> exact .same rfl rfl

/-- The kernel has taken each reply whole. -/
def Taken (c : ConnId) (l : Loop W) : Prop := ∀ r ∈ l.replies c, r.1.length ≤ r.2

theorem Adds.whole (h : Adds taken c l m) (htaken : ∀ msg ∈ replyMessages, msg.length ≤ taken)
    (hl : Taken c l) : Taken c m := by
  intro r hr
  rcases h.replies r hr with hold | ⟨hmsg, heq⟩
  · exact hl r hold
  · rw [heq]
    exact htaken r.1 hmsg

theorem grows_next [Fintype W] [DecidableEq W] {a : EventLoop.Action W}
    (hnext : l.next fds a = some m)
    (htaken : ∀ b taken, a = .server b taken → ∀ msg ∈ replyMessages, msg.length ≤ taken)
    (hl : Taken c l) : l.wire c <+: m.wire c ∧ Taken c m := by
  have hsame : m.wire = l.wire → m.replies = l.replies → l.wire c <+: m.wire c ∧ Taken c m := by
    intro hwire hreplies
    unfold Taken
    rw [hwire, hreplies]
    exact ⟨List.prefix_refl _, hl⟩
  cases a with
  | server b taken =>
    obtain ⟨-, hnext⟩ := Option.ite_none_right_eq_some.mp hnext
    obtain ⟨s, -, hm⟩ := Option.map_eq_some_iff.mp hnext
    have hadds : Adds taken c l m := by
      have h : Adds taken c l (l.calls fds taken b) := adds_calls b
      rw [← hm]
      exact ⟨h.wire, h.replies⟩
    exact ⟨hadds.wire, hadds.whole (htaken b taken rfl) hl⟩
  | wait events | readNotify | forget fd =>
    obtain ⟨-, heq⟩ := Option.ite_none_right_eq_some.mp hnext
    cases heq
    exact hsame rfl rfl
  | notify w =>
    obtain ⟨-, heq⟩ := Option.ite_none_right_eq_some.mp hnext
    cases heq
    exact hsame (Loop.wire_writeNotify ..) (Loop.replies_writeNotify ..)
  | wake fd =>
    cases hnext
    exact hsame (Loop.wire_wake ..) (Loop.replies_wake ..)
  | drained fd =>
    simp only [Loop.next] at hnext
    split at hnext
    · cases hnext
      exact hsame (Loop.wire_wake ..) (Loop.replies_wake ..)
    · cases hnext
      exact hsame rfl rfl
  | filled fd =>
    cases hnext
    exact hsame rfl rfl

end Wire

section Shape

variable {W : Type*} [Fintype W] [DecidableEq W] {fds : ServerFds} {l : Loop W} {c : ConnId}

theorem direct_taken {replies : List (Text × ℕ)} (h : ∀ r ∈ replies, r.1.length ≤ r.2) :
    direct replies = (replies.map Prod.fst).flatten := by
  unfold direct
  rw [List.flatMap_def]
  refine congrArg List.flatten (List.map_congr_left fun r hr => ?_)
  exact List.take_of_length_le (h r hr)

/-- The bytes for a connection tell how far its login is. -/
theorem wire_shape (hl : Reachable (EventLoop.machine fds) AnyStep l) (htaken : Taken c l) :
    l.wire c = [] ∨
    ((l.server.conns c).state = .awaitingUsername ∧
      l.wire c = asked ((l.server.conns c).entered.length + 1)) ∨
    ((l.server.conns c).state = .active ∧ 0 < (l.server.conns c).entered.length ∧
      l.wire c = asked (l.server.conns c).entered.length ++
        (validMessage ++ (l.server.conns c).sent)) := by
  have hstreamed := streamed hl
  by_cases hmade : c < l.server.accepted
  · right
    have hreplies := hstreamed.answers c hmade
    have hwire := hstreamed.wire c
    rw [direct_taken htaken, hreplies] at hwire
    cases hstate : (l.server.conns c).state with
    | awaitingUsername =>
      left
      refine ⟨rfl, ?_⟩
      have hsilent := hstreamed.sent_of_awaiting (TotalOrder.ordered (server_reachable hl)) hstate
      rw [hwire, hsilent.1, List.append_nil]
      unfold answersTo
      rw [hstate]
      rfl
    | active =>
      right
      have hlast := titled (server_reachable hl) c hstate
      obtain ⟨before, hentered⟩ := List.getLast?_eq_some_iff.mp hlast
      have hlength : (l.server.conns c).entered.length = before.length + 1 := by
        rw [hentered, List.length_append, List.length_singleton]
      refine ⟨rfl, by omega, ?_⟩
      rw [hwire]
      unfold answersTo
      rw [hstate]
      simp [hlength, asked]
  · exact Or.inl (hstreamed.fresh c (Nat.le_of_not_lt hmade)).1

end Shape

section Client

variable {client : Client}

theorem loginRecv_same (client : Client) (buffer : Bytes) :
    (client.loginRecv buffer).sent = client.sent ∧
    (client.loginRecv buffer).received = client.received ++ buffer := by
  unfold Client.loginRecv
  split <;> exact ⟨rfl, rfl⟩

/-- The client reads nothing and takes back nothing that was sent. -/
def Keeps (client client' : Client) : Prop :=
  client.sent <+: client'.sent ∧ client'.received = client.received

theorem keeps_enterName (result : Option ℕ) : Keeps client (client.enterName result) := by
  cases result with
  | none => exact ⟨List.prefix_refl _, rfl⟩
  | some taken => exact ⟨List.prefix_append _ _, rfl⟩

theorem keeps_nameKey (key : UInt8) (result : Option ℕ) :
    Keeps client (client.nameKey key result) := by
  unfold Client.nameKey
  split
  · exact keeps_enterName result
  · split
    · exact ⟨List.prefix_refl _, rfl⟩
    · split <;> exact ⟨List.prefix_refl _, rfl⟩

/-- Only whether the client goes on, and with which event, has changed. -/
def Turned (client client' : Client) : Prop :=
  ∃ running batch, client' = { client with running := running, batch := batch }

theorem turned_stop : Turned client client.stop := ⟨_, _, rfl⟩

theorem turned_endEvent : Turned client client.endEvent := ⟨_, _, rfl⟩

theorem turned_stop_endEvent : Turned client client.stop.endEvent := ⟨_, _, rfl⟩

theorem Turned.keeps {client' : Client} (h : Turned client client') : Keeps client client' := by
  obtain ⟨_, _, rfl⟩ := h
  exact ⟨List.prefix_refl _, rfl⟩

theorem keeps_enterLine (result : Option ℕ) : Keeps client (client.enterLine result) := by
  unfold Client.enterLine
  split
  · exact ⟨List.prefix_refl _, rfl⟩
  · split
    · exact ⟨List.prefix_refl _, rfl⟩
    · cases result with
      | none => exact ⟨List.prefix_refl _, rfl⟩
      | some taken => exact ⟨List.prefix_append _ _, rfl⟩

theorem keeps_lineKey (key : UInt8) (result : Option ℕ) :
    Keeps client (client.lineKey key result) := by
  unfold Client.lineKey
  split
  · exact keeps_enterLine result
  · split
    · exact ⟨List.prefix_refl _, rfl⟩
    · split <;> exact ⟨List.prefix_refl _, rfl⟩

/-- What a client has sent are its lines, and what it has read are the answers to the
names among them. -/
structure Spoken (client : Client) : Prop where
  sent : client.sent = unlines newline (client.names ++ client.chats)
  plain : ∀ l ∈ client.names ++ client.chats, newline ∉ l
  username : newline ∉ client.username
  currentLine : newline ∉ client.currentLine
  silent : client.place ≠ .chatting → client.chats = []
  receiving : client.place = .receiving → client.received = asked client.names.length ∧
    (client.names = [] ∨ client.names.getLast? = some client.username)
  naming : client.place = .naming → client.received = asked (client.names.length + 1)
  chatting : client.place = .chatting → client.names.getLast? = some client.username ∧
    asked client.names.length ++ validMessage <+: client.received

namespace Spoken

theorem new : Spoken .new where
  sent := rfl
  plain _ hl := by cases hl
  username hmem := by cases hmem
  currentLine hmem := by cases hmem
  silent _ := rfl
  receiving _ := ⟨rfl, Or.inl rfl⟩
  naming h := by cases h
  chatting h := by cases h

theorem turned {client' : Client} (h : Spoken client) (hturned : Turned client client') :
    Spoken client' := by
  obtain ⟨_, _, rfl⟩ := hturned
  exact ⟨h.sent, h.plain, h.username, h.currentLine, h.silent, h.receiving, h.naming, h.chatting⟩

/-- login is asked for a name. -/
theorem loginAsked (h : Spoken client) (hplace : client.place = .receiving) :
    Spoken (client.loginRecv (question client.names.length)) := by
  unfold Client.loginRecv
  rw [if_neg (not_accepted_question _)]
  constructor
  case receiving => exact fun hreceiving => by cases hreceiving
  case chatting => exact fun hchatting => by cases hchatting
  · exact h.sent
  · exact h.plain
  · exact fun hmem => by cases hmem
  · exact h.currentLine
  · exact fun _ => h.silent (by rw [hplace]; exact Place.noConfusion)
  · intro _
    show client.received ++ question client.names.length = asked (client.names.length + 1)
    rw [asked_succ, (h.receiving hplace).1]

/-- login has the acceptance, maybe with more behind it. -/
theorem loginAccepted (h : Spoken client) (hplace : client.place = .receiving)
    (hsome : client.names ≠ []) (rest : Bytes) :
    Spoken (client.loginRecv (validMessage ++ rest)) := by
  obtain ⟨hreceived, hlast⟩ := h.receiving hplace
  unfold Client.loginRecv
  rw [if_pos (accepted_of_valid rest)]
  constructor
  case receiving => exact fun hreceiving => by cases hreceiving
  case naming => exact fun hnaming => by cases hnaming
  · exact h.sent
  · exact h.plain
  · exact h.username
  · exact h.currentLine
  · exact fun hother => absurd rfl hother
  · intro _
    refine ⟨hlast.resolve_left hsome, ?_⟩
    show _ <+: client.received ++ (validMessage ++ rest)
    rw [hreceived, ← List.append_assoc]
    exact List.prefix_append _ _

theorem newline_not_mem_append {line : Text} {key : UInt8} (h : newline ∉ line)
    (hkey : isPrint key = true) : newline ∉ line ++ [key] := by
  intro hmem
  rcases List.mem_append.mp hmem with hold | hnew
  · exact h hold
  · rw [List.mem_singleton] at hnew
    rw [← hnew] at hkey
    revert hkey
    decide

theorem newline_not_mem_dropLast {line : Text} (h : newline ∉ line) : newline ∉ line.dropLast :=
  fun hmem => h (List.mem_of_mem_dropLast hmem)

theorem enterName (h : Spoken client) (hplace : client.place = .naming) (result : Option ℕ) :
    Spoken (client.enterName result) := by
  cases result with
  | none => exact h.turned turned_stop
  | some taken =>
    have hchats : client.chats = [] := h.silent (by rw [hplace]; exact Place.noConfusion)
    have hsent := h.sent
    have hplain := h.plain
    rw [hchats, List.append_nil] at hsent hplain
    constructor
    · show client.sent ++ (client.username ++ [newline]) =
        unlines newline (client.names ++ [client.username] ++ client.chats)
      rw [hchats, List.append_nil, unlines_concat, hsent]
    · show ∀ l ∈ client.names ++ [client.username] ++ client.chats, newline ∉ l
      rw [hchats, List.append_nil]
      intro l hl
      rcases List.mem_append.mp hl with hold | hnew
      · exact hplain l hold
      · rw [List.mem_singleton.mp hnew]
        exact h.username
    · exact h.username
    · exact h.currentLine
    · exact fun _ => hchats
    · intro _
      refine ⟨?_, Or.inr List.getLast?_concat⟩
      show client.received = asked (client.names ++ [client.username]).length
      rw [List.length_append, List.length_singleton]
      exact h.naming hplace
    · exact fun hnaming => by cases hnaming
    · exact fun hchatting => by cases hchatting

/-- The name on the screen is changed. -/
theorem editName (h : Spoken client) (hplace : client.place = .naming) {name : Text}
    (hname : newline ∉ name) : Spoken { client with username := name } := by
  constructor
  case receiving =>
    intro hreceiving
    rw [hplace] at hreceiving
    cases hreceiving
  case chatting =>
    intro hchatting
    rw [hplace] at hchatting
    cases hchatting
  · exact h.sent
  · exact h.plain
  · exact hname
  · exact h.currentLine
  · exact h.silent
  · exact h.naming

theorem nameKey (h : Spoken client) (hplace : client.place = .naming) (key : UInt8)
    (result : Option ℕ) : Spoken (client.nameKey key result) := by
  unfold Client.nameKey
  split
  · exact h.enterName hplace result
  · split
    · rename_i hkey
      exact h.editName hplace (newline_not_mem_append h.username hkey)
    · split
      · exact h.editName hplace (newline_not_mem_dropLast h.username)
      · exact h

/-- The line on the screen is changed. -/
theorem editLine (h : Spoken client) {line : Text} (hline : newline ∉ line) :
    Spoken { client with currentLine := line } :=
  ⟨h.sent, h.plain, h.username, hline, h.silent, h.receiving, h.naming, h.chatting⟩

theorem enterLine (h : Spoken client) (hplace : client.place = .chatting) {result : Option ℕ}
    (hwhole : ∀ taken, result = some taken → client.currentLine.length < taken) :
    Spoken (client.enterLine result) := by
  unfold Client.enterLine
  split
  · exact h.turned turned_stop_endEvent
  · split
    · exact h
    · cases result with
      | none => exact h.turned turned_stop_endEvent
      | some taken =>
        have hall : (client.currentLine ++ [newline]).take taken =
            client.currentLine ++ [newline] := by
          refine List.take_of_length_le ?_
          rw [List.length_append, List.length_singleton]
          exact hwhole taken rfl
        constructor
        · show client.sent ++ (client.currentLine ++ [newline]).take taken =
            unlines newline (client.names ++ (client.chats ++ [client.currentLine]))
          rw [hall, ← List.append_assoc client.names, unlines_concat, h.sent]
        · show ∀ l ∈ client.names ++ (client.chats ++ [client.currentLine]), newline ∉ l
          rw [← List.append_assoc]
          intro l hl
          rcases List.mem_append.mp hl with hold | hnew
          · exact h.plain l hold
          · rw [List.mem_singleton.mp hnew]
            exact h.currentLine
        · exact h.username
        · exact fun hmem => by cases hmem
        · exact fun hother => absurd hplace hother
        · exact h.receiving
        · exact h.naming
        · exact h.chatting

theorem lineKey (h : Spoken client) (hplace : client.place = .chatting) {key : UInt8}
    {result : Option ℕ}
    (hwhole : ∀ taken, result = some taken → client.currentLine.length < taken) :
    Spoken (client.lineKey key result) := by
  unfold Client.lineKey
  split
  · exact h.enterLine hplace hwhole
  · split
    · exact h.editLine (newline_not_mem_dropLast h.currentLine)
    · split
      · rename_i hkey
        exact h.editLine (newline_not_mem_append h.currentLine hkey)
      · exact h

/-- What comes when the user is logged in. -/
theorem chatRecv (h : Spoken client) (hplace : client.place = .chatting) (chunk : Bytes) :
    Spoken { client with received := client.received ++ chunk } := by
  constructor
  case receiving =>
    intro hreceiving
    rw [hplace] at hreceiving
    cases hreceiving
  case naming =>
    intro hnaming
    rw [hplace] at hnaming
    cases hnaming
  · exact h.sent
  · exact h.plain
  · exact h.username
  · exact h.currentLine
  · exact h.silent
  · intro _
    exact ⟨(h.chatting hplace).1, (h.chatting hplace).2.trans (List.prefix_append _ _)⟩

end Spoken

end Client

section Chat

variable {W : Type*} [Fintype W] [DecidableEq W] {fds : ServerFds} {c : ConnId} {s t : Chat W}

structure Agrees (fds : ServerFds) (c : ConnId) (s : Chat W) : Prop where
  reachable : Reachable (EventLoop.machine fds) AnyStep s.loop
  taken : Taken c s.loop
  delivered : (s.loop.server.conns c).received <+: s.client.sent
  heard : s.client.received <+: s.loop.wire c
  spoken : Spoken s.client

namespace Agrees

theorem init : Agrees fds c (machine (W := W) fds c).init where
  reachable := .init
  taken _ hr := by cases hr
  delivered := List.prefix_refl _
  heard := List.prefix_refl _
  spoken := .new

/-- The lines that the server has taken off the stream are the first that were sent. -/
theorem lines_prefix (h : Agrees fds c s) :
    (s.loop.server.conns c).entered ++ (s.loop.server.conns c).chatted <+:
      s.client.names ++ s.client.chats := by
  have hlined := (ChatLines.kept (server_reachable h.reachable)).lined c
  have hdelivered := h.delivered
  rw [hlined.stream, h.spoken.sent] at hdelivered
  exact prefix_of_unlines hlined.plain h.spoken.plain hdelivered

/-- The answer to the last name, that comes whole. -/
theorem loginRecv (h : Agrees fds c s) (hplace : s.client.place = .receiving) {chunk : Bytes}
    (hsome : 0 < chunk.length) (hcomes : s.client.received ++ chunk <+: s.loop.wire c)
    (hwhole : chunk =
      ((s.loop.wire c).drop s.client.received.length).take (bufferSize - 1)) :
    Spoken (s.client.loginRecv chunk) := by
  obtain ⟨hreceived, hlast⟩ := h.spoken.receiving hplace
  have hchats : s.client.chats = [] := h.spoken.silent (by rw [hplace]; exact Place.noConfusion)
  have hlines := h.lines_prefix
  rw [hchats, List.append_nil] at hlines
  have hanswered := ((List.prefix_append _ _).trans hlines).length_le
  rw [hreceived] at hcomes hwhole
  rcases wire_shape h.reachable h.taken with hnone | ⟨-, hwire⟩ | ⟨-, hentered, hwire⟩
  · have hlength := hcomes.length_le
    rw [hnone, List.length_append, List.length_nil] at hlength
    omega
  · -- The last name was refused, or it is the first question.
    rw [hwire] at hcomes hwhole
    have hless := lt_of_asked_prefix hsome hcomes
    have hsame : (s.loop.server.conns c).entered.length = s.client.names.length := by omega
    rw [hsame, asked_succ, List.drop_left,
      List.take_of_length_le (question_length _)] at hwhole
    rw [hwhole]
    exact h.spoken.loginAsked hplace
  · rw [hwire] at hcomes hwhole
    have hle := le_of_asked_prefix hentered ((List.prefix_append _ _).trans hcomes)
    have hsame : (s.loop.server.conns c).entered.length = s.client.names.length := by omega
    have hvalid : validMessage.length ≤ bufferSize - 1 := by decide +kernel
    rw [hsame, List.drop_left, List.take_append, List.take_of_length_le hvalid] at hwhole
    rw [hwhole]
    exact h.spoken.loginAccepted hplace (List.ne_nil_of_length_pos (by omega)) _

/-- A step of the client in which it reads nothing. -/
theorem ofKeeps (h : Agrees fds c s) {client : Client} (hspoken : Spoken client)
    (hkeeps : Keeps s.client client) : Agrees fds c { s with client := client } where
  reachable := h.reachable
  taken := h.taken
  delivered := h.delivered.trans hkeeps.1
  heard := by
    rw [hkeeps.2]
    exact h.heard
  spoken := hspoken

theorem turned (h : Agrees fds c s) {client : Client} (hturned : Turned s.client client) :
    Agrees fds c { s with client := client } :=
  h.ofKeeps (h.spoken.turned hturned) hturned.keeps

theorem recv (h : Agrees fds c s) {chunk : Bytes} {client : Client}
    (hwhole : s.client.place = .receiving → chunk =
      ((s.loop.wire c).drop s.client.received.length).take (bufferSize - 1))
    (hnext : s.recv c chunk = some client) : Agrees fds c { s with client := client } := by
  obtain ⟨⟨hsome, -, hcomes⟩, hnext⟩ := Option.ite_none_right_eq_some.mp hnext
  cases hplace : s.client.place with
  | receiving =>
    rw [hplace] at hnext
    cases hnext
    obtain ⟨hsent, hreceived⟩ := loginRecv_same s.client chunk
    refine ⟨h.reachable, h.taken, ?_, ?_, h.loginRecv hplace hsome hcomes (hwhole hplace)⟩
    · rw [hsent]
      exact h.delivered
    · rw [hreceived]
      exact hcomes
  | chatting =>
    rw [hplace] at hnext
    obtain ⟨-, hclient⟩ := Option.ite_none_right_eq_some.mp hnext
    cases hclient
    exact ⟨h.reachable, h.taken, h.delivered, hcomes, h.spoken.chatRecv hplace chunk⟩
  | naming =>
    rw [hplace] at hnext
    cases hnext

theorem clientStep (h : Agrees fds c s) {a : Action W} (hallowed : Whole c s a) {client : Client}
    (hnext : s.clientNext c a = some client) : Agrees fds c { s with client := client } := by
  cases a with
  | loop a => cases hnext
  | wait batch =>
    obtain ⟨-, hclient⟩ := Option.ite_none_right_eq_some.mp hnext
    cases hclient
    exact h.turned ⟨_, _, rfl⟩
  | waitFails =>
    obtain ⟨-, hclient⟩ := Option.ite_none_right_eq_some.mp hnext
    cases hclient
    exact h.turned turned_stop
  | key key result =>
    simp only [Chat.clientNext] at hnext
    split at hnext
    · cases hnext
    · rename_i hplace
      cases hnext
      exact h.ofKeeps (h.spoken.nameKey hplace key result) (keeps_nameKey key result)
    · rename_i hplace
      obtain ⟨-, hclient⟩ := Option.ite_none_right_eq_some.mp hnext
      cases hclient
      refine h.ofKeeps (h.spoken.lineKey hplace ?_) (keeps_lineKey key result)
      intro taken hresult
      subst hresult
      exact hallowed hplace
  | inputEnds result =>
    simp only [Chat.clientNext] at hnext
    split at hnext
    · rename_i hplace
      cases hnext
      exact h.ofKeeps (h.spoken.enterName hplace result) (keeps_enterName result)
    · cases hnext
  | recv chunk => exact h.recv hallowed hnext
  | lost noticed =>
    simp only [Chat.clientNext] at hnext
    split at hnext
    · cases hnext
      exact h.turned turned_stop
    · obtain ⟨-, hclient⟩ := Option.ite_none_right_eq_some.mp hnext
      cases hclient
      split
      · exact h.turned turned_stop_endEvent
      · exact h.turned turned_endEvent
    · cases hnext
  | signal whole =>
    obtain ⟨-, hclient⟩ := Option.ite_none_right_eq_some.mp hnext
    cases hclient
    split
    · exact h.turned turned_stop_endEvent
    · exact h.turned ⟨_, _, rfl⟩
  | done =>
    obtain ⟨-, hclient⟩ := Option.ite_none_right_eq_some.mp hnext
    cases hclient
    exact h.turned turned_endEvent

theorem step (h : Agrees fds c s) {a : Action W} (hallowed : Whole c s a)
    (hnext : s.next fds c a = some t) : Agrees fds c t := by
  by_cases hloop : ∃ b, a = .loop b
  · obtain ⟨b, rfl⟩ := hloop
    obtain ⟨l, hl, hguard⟩ := Option.bind_eq_some_iff.mp hnext
    obtain ⟨hdelivered, ht⟩ := Option.ite_none_right_eq_some.mp hguard
    cases ht
    have hgrows := grows_next hl (fun _ taken hb => by subst hb; exact hallowed) h.taken
    exact ⟨h.reachable.step trivial hl, hgrows.2, hdelivered, h.heard.trans hgrows.1, h.spoken⟩
  · have hclient : (if s.client.running ∨ s.client.batch ≠ [] then
        (s.clientNext c a).map fun client => { s with client := client } else none) = some t := by
      cases a with
      | loop b => exact absurd ⟨b, rfl⟩ hloop
      | wait | waitFails | key | inputEnds | recv | lost | signal | done => exact hnext
    obtain ⟨-, hmap⟩ := Option.ite_none_right_eq_some.mp hclient
    obtain ⟨client, hstep, ht⟩ := Option.map_eq_some_iff.mp hmap
    rw [← ht]
    exact h.clientStep hallowed hstep

theorem of_reachable (hs : Reachable (machine fds c) (Whole c) s) : Agrees fds c s :=
  hs.invariant init fun _ _ _ h hallowed hnext => h.step hallowed hnext

/-- A client that has seen the acceptance is let in. -/
theorem loggedIn (h : Agrees fds c s) (hplace : s.client.place = .chatting) :
    (s.loop.server.conns c).state = .active ∧
      (s.loop.server.conns c).username = s.client.username ∧
      (s.loop.server.conns c).entered = s.client.names := by
  obtain ⟨hlast, hread⟩ := h.spoken.chatting hplace
  have hcomes := hread.trans h.heard
  have hnames : 0 < s.client.names.length := by
    refine List.length_pos_of_ne_nil fun hnone => ?_
    rw [hnone] at hlast
    cases hlast
  rcases wire_shape h.reachable h.taken with hnone | ⟨-, hwire⟩ | ⟨hstate, hentered, hwire⟩
  · have hlength := hcomes.length_le
    have hvalid : 0 < validMessage.length := by decide +kernel
    rw [hnone, List.length_append, List.length_nil] at hlength
    omega
  · rw [hwire] at hcomes
    exact (not_asked_accepted hnames hcomes).elim
  · rw [hwire] at hcomes
    have hlength := eq_of_accepted_prefix hnames hentered hcomes
    have hall : (s.loop.server.conns c).entered = s.client.names := by
      refine List.IsPrefix.eq_of_length ?_ hlength.symm
      refine List.prefix_of_prefix_length_le ?_ (List.prefix_append _ s.client.chats) (by omega)
      exact (List.prefix_append _ _).trans h.lines_prefix
    have htitled := titled (server_reachable h.reachable) c hstate
    rw [hall, hlast] at htitled
    exact ⟨hstate, (Option.some.inj htitled).symm, hall⟩

/-- Until then the server has taken nothing of it for a chat line. -/
theorem not_chatted (h : Agrees fds c s) (hplace : s.client.place ≠ .chatting) :
    (s.loop.server.conns c).chatted = [] ∧
      ((s.loop.server.conns c).state = .active → s.client.place ≠ .naming) := by
  have hlines := h.lines_prefix
  rw [h.spoken.silent hplace, List.append_nil] at hlines
  have hlength := hlines.length_le
  rw [List.length_append] at hlength
  have hheard := h.heard
  have hread : ∃ n, s.client.received = asked n ∧ s.client.names.length ≤ n ∧
      (s.client.place = .naming → n = s.client.names.length + 1) := by
    cases hwhere : s.client.place with
    | receiving =>
      refine ⟨_, (h.spoken.receiving hwhere).1, le_refl _, fun hnaming => ?_⟩
      cases hnaming
    | naming => exact ⟨_, h.spoken.naming hwhere, Nat.le_succ _, fun _ => rfl⟩
    | chatting => exact absurd hwhere hplace
  obtain ⟨n, hreceived, hle, hnaming⟩ := hread
  rw [hreceived] at hheard
  rcases wire_shape h.reachable h.taken with hnone | ⟨hstate, -⟩ | ⟨hstate, hentered, hwire⟩
  · have hnothing : n = 0 := by
      by_contra hpos
      have hless := asked_length_lt (Nat.pos_of_ne_zero hpos)
      have hshort := hheard.length_le
      rw [hnone, List.length_nil] at hshort
      omega
    refine ⟨List.length_eq_zero_iff.mp (by omega), fun _ hplace => ?_⟩
    have hn := hnaming hplace
    omega
  · have hlined := (ChatLines.kept (server_reachable h.reachable)).lined c
    refine ⟨hlined.awaiting hstate, fun hactive => ?_⟩
    rw [hstate] at hactive
    cases hactive
  · rw [hwire] at hheard
    have hmost := le_of_asked_prefix hentered hheard
    refine ⟨List.length_eq_zero_iff.mp (by omega), fun _ hplace => ?_⟩
    have hn := hnaming hplace
    omega

/-- No name is a chat line for the server, and no chat line a name. -/
theorem lines_agree (h : Agrees fds c s) :
    (s.loop.server.conns c).entered <+: s.client.names ∧
      (s.loop.server.conns c).chatted <+: s.client.chats := by
  have hlines := h.lines_prefix
  by_cases hplace : s.client.place = .chatting
  · have hall := (h.loggedIn hplace).2.2
    rw [hall, List.prefix_append_right_inj] at hlines
    rw [hall]
    exact ⟨List.prefix_refl _, hlines⟩
  · have hnone := (h.not_chatted hplace).1
    rw [hnone, h.spoken.silent hplace, List.append_nil, List.append_nil] at hlines
    rw [hnone]
    exact ⟨hlines, List.nil_prefix⟩

end Agrees

/-- When replies and chat lines are sent whole, and login reads each reply in one piece, a
client that is past its login has the username that the server knows, a user who was let
in is not asked again, and the names and the chat lines that the server has taken off
the stream are the first that the user has entered. -/
theorem login_agrees (hs : Reachable (machine fds c) (Whole c) s) :
    (s.client.place = .chatting → (s.loop.server.conns c).state = .active ∧
      (s.loop.server.conns c).username = s.client.username) ∧
    ((s.loop.server.conns c).state = .active → s.client.place ≠ .naming) ∧
    (s.loop.server.conns c).entered <+: s.client.names ∧
    (s.loop.server.conns c).chatted <+: s.client.chats := by
  have h := Agrees.of_reachable hs
  refine ⟨fun hplace => ?_, fun hactive hplace => ?_, h.lines_agree⟩
  · exact ⟨(h.loggedIn hplace).1, (h.loggedIn hplace).2.1⟩
  · have hother : s.client.place ≠ .chatting := by
      rw [hplace]
      exact Place.noConfusion
    exact (h.not_chatted hother).2 hactive hplace

/-- What is broadcast as a chat line of the connection, the user has entered as one, under
the name that the client shows. -/
theorem chats_faithful (hs : Reachable (machine fds c) (Whole c) s) {b : Broadcast}
    (hb : b ∈ s.loop.server.queued) {line : Text} (horigin : b.origin = some (c, line)) :
    line ∈ s.client.chats ∧
      b.msg = ChatLines.chatLine s.client.username line ++ [newline] := by
  have h := Agrees.of_reachable hs
  obtain ⟨⟨-, hchatted⟩, hmsg⟩ :=
    (ChatLines.kept (server_reachable h.reachable)).chats b hb c line horigin
  have hline := h.lines_agree.2.subset hchatted
  have hplace : s.client.place = .chatting := by
    by_contra hother
    rw [h.spoken.silent hother] at hline
    cases hline
  refine ⟨hline, ?_⟩
  rw [hmsg, (h.loggedIn hplace).2.1, ChatLines.chatMessage_eq]

end Chat

section Sample

/-- The user logs in as `a` and says `h`, for which run has an event behind that of a
signal; a worker broadcasts it. -/
def talk : List (Action Unit) :=
  [.loop (.wake 4), .loop (.wait [⟨4, false, true, false⟩]),
    .loop (.server (.epollEvent 4 false true false) 100), .loop (.server (.accept 7) 100),
    .loop (.server .acceptFails 100), .recv welcomeMessage, .key 97 none, .key 10 (some 2),
    .loop (.wake 7), .loop (.wait [⟨7, false, true, false⟩]),
    .loop (.server (.epollEvent 7 false true false) 100),
    .loop (.server (.recv (.bytes [97, 10])) 100), .loop (.server .reactor 100),
    .loop (.server .reactor 100), .loop (.server (.recv .wouldBlock) 100), .recv validMessage,
    .wait [.signals, .keyboard], .signal true, .key 104 none, .key 10 (some 2), .done,
    .loop (.wake 7), .loop (.wait [⟨7, false, true, false⟩]),
    .loop (.server (.epollEvent 7 false true false) 100),
    .loop (.server (.recv (.bytes [104, 10])) 100), .loop (.server .reactor 100),
    .loop (.server (.work ()) 100), .loop (.server (.work ()) 100),
    .loop (.server (.work ()) 100), .loop (.server (.work ()) 100)]

theorem login_agrees_a : ∃ s : Chat Unit, Reachable (machine sampleFds 0) (Whole 0) s ∧
    (s.client.place = .chatting ∧ s.client.username = [97] ∧ s.client.chats = [[104]] ∧
      (s.loop.server.conns 0).chatted = [[104]]) ∧
    ((s.client.place = .chatting → (s.loop.server.conns 0).state = .active ∧
        (s.loop.server.conns 0).username = s.client.username) ∧
      ((s.loop.server.conns 0).state = .active → s.client.place ≠ .naming) ∧
      (s.loop.server.conns 0).entered <+: s.client.names ∧
      (s.loop.server.conns 0).chatted <+: s.client.chats) := by
  have hrun : (run (machine sampleFds 0) (Whole 0) (machine sampleFds 0).init talk).any (fun s =>
      s.client.place = .chatting ∧ s.client.username = [97] ∧ s.client.chats = [[104]] ∧
        (s.loop.server.conns 0).chatted = [[104]]) = true := by
    decide +kernel
  obtain ⟨s, hs, h⟩ := exists_reachable hrun
  exact ⟨s, hs, h, login_agrees hs⟩

theorem chats_faithful_a : ∃ s : Chat Unit, Reachable (machine sampleFds 0) (Whole 0) s ∧
    ∃ b ∈ s.loop.server.queued, b.origin = some (0, [104]) ∧ [104] ∈ s.client.chats ∧
      b.msg = ChatLines.chatLine s.client.username [104] ++ [newline] := by
  have hrun : (run (machine sampleFds 0) (Whole 0) (machine sampleFds 0).init talk).any (fun s =>
      ∃ b ∈ s.loop.server.queued, b.origin = some (0, [104])) = true := by
    decide +kernel
  obtain ⟨s, hs, b, hb, horigin⟩ := exists_reachable hrun
  exact ⟨s, hs, b, hb, horigin, chats_faithful hs hb horigin⟩

/-- A login that has only the first bytes of the acceptance asks for a name again. -/
theorem split_reply_misleads : ∃ s : Chat Unit, Reachable (machine sampleFds 0) AnyStep s ∧
    (s.loop.server.conns 0).state = .active ∧ s.client.place = .naming := by
  have hrun : (run (machine sampleFds 0) AnyStep (machine sampleFds 0).init
      (talk.take 15 ++ [.recv (validMessage.take 8)])).any (fun s =>
        (s.loop.server.conns 0).state = .active ∧ s.client.place = .naming) = true := by
    decide +kernel
  exact exists_reachable hrun

end Sample

end ChatServer.LineServer.LineClient
