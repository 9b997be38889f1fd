import ChatServer.ChatApp

/-!
The input loop of the client, key by key. A line is a command or a text. The
commands that change the room send a JoinRoomRequest and take effect at once on
the client's own copy of the room, and a text goes to the room of this copy.
-/
namespace ChatServer.ClientInput

section Words

/-- `isspace` -/
def isSpace (c : Char) : Bool := c.toNat = 32 || (9 ≤ c.toNat && c.toNat ≤ 13)

/-- `isprint` -/
def isPrint (c : Char) : Bool := 32 ≤ c.toNat && c.toNat ≤ 126

/-- `ss >> word`: the next word and what is left of the stream. -/
def extract (ss : List Char) : List Char × List Char :=
  let rest := ss.dropWhile isSpace
  (rest.takeWhile (!isSpace ·), rest.dropWhile (!isSpace ·))

/-- `std::getline` -/
def getline (ss : List Char) : List Char := ss.takeWhile (·.toNat ≠ 10)

end Words

structure Client where
  currentRoom : String
  currentLine : List Char
  running : Bool

namespace Client

/-- The client when login has returned. -/
def new : Client := ⟨"", [], true⟩

/-- `stop()` -/
def stop (c : Client) : Client := { c with running := false }

/-- A line that begins with a slash. -/
def command (c : Client) (line : List Char) : Client × Option ClientMessage :=
  let (cmd, ss) := extract line
  if cmd = "/join".toList then
    let room := (extract ss).1
    if room ≠ [] then
      ({ c with currentRoom := String.ofList room }, some (.joinRoom ⟨String.ofList room⟩))
    else (c, none)
  else if cmd = "/leave".toList then ({ c with currentRoom := "" }, some (.joinRoom ⟨""⟩))
  else if cmd = "/msg".toList then
    let (target, ss) := extract ss
    let text := getline ss
    if target ≠ [] ∧ 1 < text.length then
      (c, some (.privateChat ⟨String.ofList target, String.ofList (text.drop 1)⟩))
    else (c, none)
  else if cmd = "/exit".toList ∨ cmd = "/quit".toList then (c.stop, none)
  else (c, none)

/-- Any other line. -/
def say (c : Client) (line : List Char) : ClientMessage :=
  if c.currentRoom = "" then .globalChat ⟨String.ofList line⟩
  else .roomChat ⟨c.currentRoom, String.ofList line⟩

/-- The end of a line: what becomes of the client and the message that is sent. -/
def enter (c : Client) : Client × Option ClientMessage :=
  if c.currentLine = "exit".toList then (c.stop, none)
  else
    match c.currentLine with
    | [] => (c, none)
    | first :: rest =>
        let (after, msg) :=
          if first = '/' then c.command (first :: rest) else (c, some (c.say (first :: rest)))
        (if after.running then { after with currentLine := [] } else after, msg)

/-- A turn of the loop that reads the character. -/
def key (c : Client) (k : Char) : Client × Option ClientMessage :=
  if k.toNat = 10 ∨ k.toNat = 13 then c.enter
  else if k.toNat = 127 ∨ k.toNat = 8 then
    ({ c with currentLine := c.currentLine.dropLast }, none)
  else if isPrint k then ({ c with currentLine := c.currentLine ++ [k] }, none)
  else (c, none)

/-- A turn of the loop, with the messages that were sent before. -/
def turn (c : Client × List ClientMessage) (k : Char) : Client × List ClientMessage :=
  if c.1.running then ((c.1.key k).1, c.2 ++ (c.1.key k).2.toList) else c

end Client

/-- The client after it has read these characters, and the messages it has sent. -/
def typing (keys : List Char) : Client × List ClientMessage := keys.foldl Client.turn (.new, [])

/-- The room of the user after the message. -/
def roomAfter (room : String) : ClientMessage → String
  | .joinRoom req => req.roomName
  | _ => room

/-- A message that the input loop sends from a client in this room. -/
inductive SentFrom (room : String) : ClientMessage → Prop
  | globalChat (req : ChatRequest) : SentFrom room (.globalChat req)
  | privateChat (req : PrivateChatRequest) : SentFrom room (.privateChat req)
  | joinRoom (req : JoinRoomRequest) : SentFrom room (.joinRoom req)
  | roomChat (req : RoomChatRequest) (hroom : req.roomName = room) (hinside : room ≠ "") :
      SentFrom room (.roomChat req)

/-- What a turn of the loop does: it sends nothing and stays in the room, or it
sends a message and its room is the one after this message. -/
structure Follows (c after : Client) (msg : Option ClientMessage) : Prop where
  sent : ∀ m ∈ msg, SentFrom c.currentRoom m
  room : after.currentRoom = msg.toList.foldl roomAfter c.currentRoom

section Turns

variable {c : Client}

theorem follows_silent {after : Client} (h : after.currentRoom = c.currentRoom) :
    Follows c after none := ⟨nofun, h⟩

theorem follows_sent {after : Client} {m : ClientMessage} (hsent : SentFrom c.currentRoom m)
    (hroom : after.currentRoom = roomAfter c.currentRoom m) : Follows c after (some m) :=
  ⟨by simpa using hsent, hroom⟩

theorem command_follows (line : List Char) : Follows c (c.command line).1 (c.command line).2 := by
  simp only [Client.command]
  split
  · split
    · exact follows_sent (.joinRoom _) rfl
    · exact follows_silent rfl
  · split
    · exact follows_sent (.joinRoom _) rfl
    · split
      · split
        · exact follows_sent (.privateChat _) rfl
        · exact follows_silent rfl
      · split
        · exact follows_silent rfl
        · exact follows_silent rfl

theorem say_follows (line : List Char) : Follows c c (some (c.say line)) := by
  unfold Client.say
  split
  · exact follows_sent (.globalChat _) rfl
  · rename_i hinside
    exact follows_sent (.roomChat _ rfl hinside) rfl

theorem enter_follows : Follows c c.enter.1 c.enter.2 := by
  have hcleared : ∀ {after : Client} {msg : Option ClientMessage}, Follows c after msg →
      Follows c (if after.running then { after with currentLine := [] } else after) msg := by
    intro after msg h
    refine ⟨h.sent, ?_⟩
    split
    · exact h.room
    · exact h.room
  unfold Client.enter
  split
  · exact follows_silent rfl
  · split
    · exact follows_silent rfl
    · dsimp only
      split
      · exact hcleared (command_follows _)
      · exact hcleared (say_follows _)

theorem key_follows (k : Char) : Follows c (c.key k).1 (c.key k).2 := by
  unfold Client.key
  split
  · exact enter_follows
  · split
    · exact follows_silent rfl
    · split
      · exact follows_silent rfl
      · exact follows_silent rfl

end Turns

section Runs

variable {keys done : List Char} {k : Char}

theorem typing_snoc (keys : List Char) (k : Char) :
    ∃ msg, (typing (keys ++ [k])).2 = (typing keys).2 ++ msg.toList ∧
      Follows (typing keys).1 (typing (keys ++ [k])).1 msg := by
  have hturn : typing (keys ++ [k]) = Client.turn (typing keys) k := by
    simp only [typing, List.foldl_append, List.foldl_cons, List.foldl_nil]
  rw [hturn]
  unfold Client.turn
  split
  · exact ⟨_, rfl, key_follows k⟩
  · exact ⟨none, (List.append_nil _).symm, follows_silent rfl⟩

/-- The client's room is the one after all its messages. -/
theorem typing_room (keys : List Char) :
    (typing keys).1.currentRoom = (typing keys).2.foldl roomAfter "" := by
  induction keys using List.reverseRecOn with
  | nil => rfl
  | append_singleton keys k ih =>
    obtain ⟨msg, hsent, hfollows⟩ := typing_snoc keys k
    rw [hsent, List.foldl_append, ← ih]
    exact hfollows.room

theorem typing_mono (h : done <+: keys) : (typing done).2 <+: (typing keys).2 := by
  obtain ⟨more, rfl⟩ := h
  induction more using List.reverseRecOn with
  | nil =>
    rw [List.append_nil]
  | append_singleton more k ih =>
    obtain ⟨msg, hsent, _⟩ := typing_snoc (done ++ more) k
    rw [← List.append_assoc, hsent]
    exact ih.trans (List.prefix_append _ _)

/-- Every number of messages was reached at some key. -/
theorem typing_reaches {n : ℕ} (h : n ≤ (typing keys).2.length) :
    ∃ done, done <+: keys ∧ (typing done).2.length = n := by
  induction keys using List.reverseRecOn with
  | nil => exact ⟨[], List.nil_prefix, by simpa [typing, eq_comm] using h⟩
  | append_singleton keys k ih =>
    by_cases hbefore : n ≤ (typing keys).2.length
    · obtain ⟨done, hdone, hlen⟩ := ih hbefore
      exact ⟨done, hdone.trans (List.prefix_append _ _), hlen⟩
    · obtain ⟨msg, hsent, _⟩ := typing_snoc keys k
      refine ⟨keys ++ [k], List.prefix_refl _, ?_⟩
      have hone : msg.toList.length ≤ 1 := by
        cases msg <;> simp
      rw [hsent, List.length_append] at h ⊢
      omega

/-- After a prefix of the keys the client's room is the one after the messages
sent until then. -/
theorem room_before (h : done <+: keys) :
    (typing done).1.currentRoom =
      ((typing keys).2.take (typing done).2.length).foldl roomAfter "" := by
  rw [typing_room, ← List.prefix_iff_eq_take.mp (typing_mono h)]

/-- Each message is sent from the room after the messages before it. -/
theorem typing_sentFrom {before : List ClientMessage} {m : ClientMessage}
    (h : before ++ [m] <+: (typing keys).2) : SentFrom (before.foldl roomAfter "") m := by
  induction keys using List.reverseRecOn with
  | nil =>
    have hnil : before ++ [m] = [] := List.prefix_nil.mp h
    simp at hnil
  | append_singleton keys k ih =>
    obtain ⟨msg, hsent, hfollows⟩ := typing_snoc keys k
    rw [hsent] at h
    cases msg with
    | none =>
      rw [Option.toList_none, List.append_nil] at h
      exact ih h
    | some m' =>
      rcases List.prefix_concat_iff.mp h with heq | hbefore
      · obtain ⟨rfl, hm⟩ := List.append_inj' heq rfl
        cases hm
        rw [← typing_room]
        exact hfollows.sent m rfl
      · exact ih hbefore

end Runs

end ChatServer.ClientInput
