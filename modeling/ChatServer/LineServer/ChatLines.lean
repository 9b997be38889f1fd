import ChatServer.LineServer.Connections

/-!
The chat lines of the second version. The loop over the lines takes the newline off
and push_task is given the line with it and with another one; the worker replaces the
last character by a newline. So the lines are those of the byte stream, and each is
queued with two newlines behind it.
-/
namespace ChatServer.LineServer.ChatLines

open Lib.DelimitedLines Lib.Runs MessageTasks

variable {W : Type*} {s t : Server W} {c d : ConnId}

/-- What a line is meant to be for the others. -/
def chatLine (username line : Text) : Text :=
  text "[" ++ username ++ text "]: " ++ line ++ [newline]

/-- Each line that a worker has processed was queued as the chat line. -/
def Exact (s : Server W) : Prop :=
  ∀ b ∈ s.queued, ∀ c l, b.origin = some (c, l) → b.msg = chatLine (s.conns c).username l

/-- `in_buf` is what follows the lines that were taken off the stream. -/
structure Lined (conn : Connection) : Prop where
  stream : conn.received = unlines newline (conn.entered ++ conn.chatted) ++ conn.inBuf
  plain : ∀ l ∈ conn.entered ++ conn.chatted, newline ∉ l
  awaiting : conn.state = .awaitingUsername → conn.chatted = []
  username : newline ∉ conn.username

/-- The connection is in the loop over its lines. -/
def splitter? : Stage → Option ConnId
  | .splitting c _ => some c
  | _ => none

/-- The tasks that are queued or in the hands of a worker. -/
def Pending (s : Server W) (task : Task) : Prop :=
  task ∈ s.taskQueue ∨ ∃ w, s.worker w = .holding task ∨ s.worker w = .sending task

/-- The connection has logged in and sent the line. -/
def Sends (conn : Connection) (line : Text) : Prop := conn.state = .active ∧ line ∈ conn.chatted

structure Kept (s : Server W) : Prop where
  lined : ∀ c, Lined (s.conns c)
  split : ∀ c, splitter? s.stage ≠ some c → newline ∉ (s.conns c).inBuf
  tasks : ∀ task, Pending s task → Sends (s.conns task.conn) task.line ∧
    task.message = task.line ++ [newline] ++ [newline]
  chats : ∀ b ∈ s.queued, ∀ c l, b.origin = some (c, l) → Sends (s.conns c) l ∧
    b.msg = chatMessage (s.conns c).username (l ++ [newline] ++ [newline])

/-- A connection that is active stays so under its name, and its lines stay. -/
structure Grows (conn conn' : Connection) : Prop where
  active : conn.state = .active → conn'.state = .active ∧ conn'.username = conn.username
  chatted : conn.chatted <+: conn'.chatted

theorem Grows.refl (conn : Connection) : Grows conn conn := ⟨fun h => ⟨h, rfl⟩, List.prefix_rfl⟩

theorem Grows.sends {conn conn' : Connection} (h : Grows conn conn') {line : Text}
    (hsends : Sends conn line) : Sends conn' line :=
  ⟨(h.active hsends.1).1, h.chatted.subset hsends.2⟩

theorem Lined.new (fd : ℕ) : Lined (.new fd) where
  stream := rfl
  plain _ hl := nomatch hl
  awaiting _ := rfl
  username := nofun

/-- A step in which no line is taken off and nothing arrives. -/
theorem Lined.keep {conn conn' : Connection} (h : Lined conn)
    (hreceived : conn'.received = conn.received) (hentered : conn'.entered = conn.entered)
    (hchatted : conn'.chatted = conn.chatted) (hinBuf : conn'.inBuf = conn.inBuf)
    (hstate : conn'.state = conn.state) (hname : conn'.username = conn.username) : Lined conn' where
  stream := by
    rw [hreceived, hentered, hchatted, hinBuf]
    exact h.stream
  plain := by
    rw [hentered, hchatted]
    exact h.plain
  awaiting hawaiting := hchatted.trans (h.awaiting (hstate ▸ hawaiting))
  username := by
    rw [hname]
    exact h.username

/-- A line is taken off. -/
theorem Lined.takeLine {conn conn' : Connection} {line : Text} (h : Lined conn)
    (hline : conn.inBuf = line ++ newline :: conn'.inBuf) (hplain : newline ∉ line)
    (hreceived : conn'.received = conn.received)
    (hlines : conn'.entered ++ conn'.chatted = conn.entered ++ conn.chatted ++ [line])
    (hawaiting : conn'.state = .awaitingUsername → conn'.chatted = [])
    (hname : newline ∉ conn'.username) : Lined conn' where
  stream := by
    rw [hreceived, h.stream, hline, hlines,
      unlines_append newline (conn.entered ++ conn.chatted) [line], List.append_assoc]
    simp
  plain l hl := by
    rw [hlines, List.mem_append] at hl
    rcases hl with hl | hl
    · exact h.plain l hl
    · rw [List.mem_singleton.mp hl]
      exact hplain
  awaiting := hawaiting
  username := hname

namespace Kept

/-- A step of the connections that makes no task and queues no chat line. -/
theorem grow (h : Kept s) (hlined : ∀ c, Lined (t.conns c))
    (hsplit : ∀ c, splitter? t.stage ≠ some c → newline ∉ (t.conns c).inBuf)
    (hgrows : ∀ c, Grows (s.conns c) (t.conns c)) (htasks : ∀ task, Pending t task → Pending s task)
    (hqueued : ∀ b ∈ t.queued, b ∈ s.queued ∨ b.origin = none) : Kept t where
  lined := hlined
  split := hsplit
  tasks task hpending := by
    obtain ⟨hsends, hmessage⟩ := h.tasks task (htasks task hpending)
    exact ⟨(hgrows _).sends hsends, hmessage⟩
  chats b hb c l horigin := by
    rcases hqueued b hb with hb | hnone
    · obtain ⟨hsends, hmsg⟩ := h.chats b hb c l horigin
      rw [((hgrows c).active hsends.1).2]
      exact ⟨(hgrows c).sends hsends, hmsg⟩
    · rw [hnone] at horigin
      cases horigin

/-- A step on one connection, with nothing else. -/
theorem setConn (h : Kept s) {conn : Connection} (hlined : Lined conn)
    (hsplit : splitter? s.stage = some c ∨ newline ∉ conn.inBuf)
    (hgrows : Grows (s.conns c) conn) : Kept (s.setConn c conn) := by
  refine h.grow ?_ ?_ ?_ (fun _ htask => htask) fun _ hb => Or.inl hb
  · exact s.setConn_forall (P := fun _ conn => Lined conn) hlined fun d _ => h.lined d
  · exact s.setConn_forall (P := fun d conn => splitter? s.stage ≠ some d → newline ∉ conn.inBuf)
      hsplit.resolve_left fun d _ => h.split d
  · exact s.setConn_forall (P := fun d => Grows (s.conns d)) hgrows fun _ _ => .refl _

theorem goto (h : Kept s) {stage : Stage}
    (hsplit : ∀ c, splitter? stage ≠ some c → newline ∉ (s.conns c).inBuf) :
    Kept (s.goto stage) :=
  h.grow h.lined hsplit (fun _ => .refl _) (fun _ htask => htask) fun _ hb => Or.inl hb

/-- A step that touches no connection and no task. -/
theorem frame (h : Kept s) (hconns : t.conns = s.conns)
    (hstage : splitter? t.stage = splitter? s.stage)
    (htasks : ∀ task, Pending t task → Pending s task)
    (hqueued : ∀ b ∈ t.queued, b ∈ s.queued ∨ b.origin = none) : Kept t := by
  refine h.grow ?_ ?_ ?_ htasks hqueued
  · rw [hconns]
    exact h.lined
  · rw [hconns, hstage]
    exact h.split
  · rw [hconns]
    exact fun _ => .refl _

/-- Between reads `in_buf` holds no complete line. -/
theorem plain (h : Kept s) {stage : Stage} (hstage : s.stage = stage)
    (hnone : splitter? stage = none) (c : ConnId) : newline ∉ (s.conns c).inBuf := by
  refine h.split c ?_
  rw [hstage, hnone]
  exact nofun

theorem turn (h : Kept s) {stage : Stage} (hturn : Turns s stage) : Kept (s.goto stage) := by
  cases hturn with
  | @unfinished d write hstage hnone =>
    refine h.goto fun c _ => ?_
    by_cases hc : c = d
    · rw [hc]
      exact hnone
    · refine h.split c ?_
      rw [hstage]
      exact fun heq => hc (Option.some.inj heq).symm
  | _ hstage => exact h.goto fun c _ => h.plain hstage rfl c

theorem queueBroadcastMessage (h : Kept s) {msg : Text} {senderFd : Option ℕ}
    {origin : Option (ConnId × Text)}
    (horigin : ∀ c l, origin = some (c, l) → Sends (s.conns c) l ∧
      msg = chatMessage (s.conns c).username (l ++ [newline] ++ [newline])) :
    Kept (s.queueBroadcastMessage msg senderFd origin) where
  lined := h.lined
  split := h.split
  tasks := h.tasks
  chats b hb c l hfrom := by
    rcases List.mem_append.mp hb with hb | hb
    · exact h.chats b hb c l hfrom
    · rw [List.mem_singleton.mp hb] at hfrom ⊢
      exact horigin c l hfrom

theorem pushTask (h : Kept s) {task : Task} (hsends : Sends (s.conns task.conn) task.line)
    (hmessage : task.message = task.line ++ [newline] ++ [newline]) :
    Kept { s with taskQueue := s.taskQueue ++ [task] } where
  lined := h.lined
  split := h.split
  chats := h.chats
  tasks task' hpending := by
    rcases hpending with hqueued | hworker
    · rcases List.mem_append.mp hqueued with hqueued | hnew
      · exact h.tasks task' (Or.inl hqueued)
      · rw [List.mem_singleton.mp hnew]
        exact ⟨hsends, hmessage⟩
    · exact h.tasks task' (Or.inr hworker)

/-- A worker has its task from the queue. -/
theorem setWorker [DecidableEq W] (h : Kept s) {w : W} {stage : Worker}
    (hstage : ∀ task, stage = .holding task ∨ stage = .sending task → Pending s task) :
    Kept (s.setWorker w stage) := by
  refine h.frame rfl rfl ?_ fun _ hb => Or.inl hb
  rintro task (hqueued | ⟨v, hworker⟩)
  · exact Or.inl hqueued
  · change Function.update s.worker w stage v = _ ∨
      Function.update s.worker w stage v = _ at hworker
    by_cases hv : v = w
    · rw [hv, Function.update_self] at hworker
      exact hstage task hworker
    · rw [Function.update_of_ne hv] at hworker
      exact Or.inr ⟨v, hworker⟩

theorem workerTurn [DecidableEq W] (h : Kept s) {w : W} {stage : Worker}
    (hturn : WorkerTurns s w stage) : Kept (s.setWorker w stage) := by
  refine h.setWorker ?_
  cases hturn with
  | finds hworker hopen hname =>
    rintro _ (heq | heq)
    · cases heq
    · cases heq
      exact Or.inr ⟨w, Or.inl hworker⟩
  | _ =>
    rintro _ (heq | heq)
    · cases heq
    · cases heq

theorem take [DecidableEq W] (h : Kept s) {w : W} {task : Task} {rest : List Task}
    (hqueue : s.taskQueue = task :: rest) :
    Kept ({ s with taskQueue := rest }.setWorker w (.holding task)) := by
  refine h.frame rfl rfl ?_ fun _ hb => Or.inl hb
  rintro task' (hqueued | ⟨v, hworker⟩)
  · refine Or.inl ?_
    rw [hqueue]
    exact List.mem_cons_of_mem task hqueued
  · change Function.update s.worker w _ v = _ ∨ Function.update s.worker w _ v = _ at hworker
    by_cases hv : v = w
    · rw [hv, Function.update_self] at hworker
      refine Or.inl ?_
      rcases hworker with heq | heq
      · cases heq
        rw [hqueue]
        exact List.mem_cons_self
      · cases heq
    · rw [Function.update_of_ne hv] at hworker
      exact Or.inr ⟨v, hworker⟩

/-- The message that is queued is that of the task. -/
theorem push [DecidableEq W] (h : Kept s) {w : W} {task : Task}
    (hworker : s.worker w = .sending task) :
    Kept ((s.queueBroadcastMessage (chatMessage (s.conns task.conn).username task.message)
      (some (s.conns task.conn).fd) (some (task.conn, task.line))).setWorker w .looping) := by
  obtain ⟨hsends, hmessage⟩ := h.tasks task (Or.inr ⟨w, Or.inr hworker⟩)
  refine Kept.setWorker ?_ ?_
  · refine h.queueBroadcastMessage ?_
    rintro _ _ ⟨⟩
    rw [hmessage]
    exact ⟨hsends, rfl⟩
  · rintro _ (heq | heq)
    · cases heq
    · cases heq

section Lines

variable {write : Bool} {line rest : Bytes}

theorem data (h : Kept s) (chunk : Bytes) (hstage : s.stage = .reading c write) :
    Kept ((s.setConn c { s.conns c with
      inBuf := (s.conns c).inBuf ++ chunk
      received := (s.conns c).received ++ chunk }).goto (.splitting c write)) := by
  refine h.grow ?_ ?_ ?_ (fun _ htask => htask) fun _ hb => Or.inl hb
  · refine s.setConn_forall (P := fun _ conn => Lined conn) ?_ fun d _ => h.lined d
    refine ⟨?_, (h.lined c).plain, (h.lined c).awaiting, (h.lined c).username⟩
    show (s.conns c).received ++ chunk = _
    rw [(h.lined c).stream, List.append_assoc]
  · refine s.setConn_forall
      (P := fun d conn => splitter? (.splitting c write) ≠ some d → newline ∉ conn.inBuf) ?_ ?_
    · exact fun hne => absurd rfl hne
    · exact fun d _ _ => h.plain hstage rfl d
  · exact s.setConn_forall (P := fun d => Grows (s.conns d))
      ⟨fun hactive => ⟨hactive, rfl⟩, List.prefix_rfl⟩ fun _ _ => .refl _

theorem login (h : Kept s) (hstage : s.stage = .splitting c write)
    (hstate : (s.conns c).state = .awaitingUsername)
    (hline : (s.conns c).inBuf = line ++ newline :: rest) (hplain : newline ∉ line) :
    Kept (({ s with usernames := insert line s.usernames }.setConn c { s.conns c with
      inBuf := rest
      entered := (s.conns c).entered ++ [line]
      username := line
      state := .active }).queueBroadcastMessage (joinMessage line) none none) := by
  have hchatted := (h.lined c).awaiting hstate
  have hnames : Kept { s with usernames := insert line s.usernames } :=
    h.frame rfl rfl (fun _ htask => htask) fun _ hb => Or.inl hb
  refine Kept.queueBroadcastMessage ?_ nofun
  refine hnames.setConn ?_ (Or.inl (by rw [hstage]; rfl)) ⟨?_, List.prefix_rfl⟩
  · refine (h.lined c).takeLine hline hplain rfl ?_ nofun hplain
    show _ ++ [line] ++ (s.conns c).chatted = _
    rw [hchatted, List.append_nil, List.append_nil]
  · intro hactive
    rw [hstate] at hactive
    cases hactive

theorem refused (h : Kept s) (hstage : s.stage = .splitting c write)
    (hstate : (s.conns c).state = .awaitingUsername)
    (hline : (s.conns c).inBuf = line ++ newline :: rest) (hplain : newline ∉ line) :
    Kept (s.setConn c { s.conns c with
      inBuf := rest
      entered := (s.conns c).entered ++ [line] }) := by
  have hchatted := (h.lined c).awaiting hstate
  refine h.setConn ?_ (Or.inl (by rw [hstage]; rfl))
    ⟨fun hactive => ⟨hactive, rfl⟩, List.prefix_rfl⟩
  refine (h.lined c).takeLine hline hplain rfl ?_ (fun _ => hchatted) (h.lined c).username
  show _ ++ [line] ++ (s.conns c).chatted = _
  rw [hchatted, List.append_nil, List.append_nil]

theorem chat (h : Kept s) (hstage : s.stage = .splitting c write)
    (hstate : (s.conns c).state = .active)
    (hline : (s.conns c).inBuf = line ++ newline :: rest) (hplain : newline ∉ line) :
    Kept { s.setConn c { s.conns c with
        inBuf := rest
        chatted := (s.conns c).chatted ++ [line] } with
      taskQueue := s.taskQueue ++ [⟨c, line ++ [newline] ++ [newline], line⟩] } := by
  have hconn : Kept (s.setConn c { s.conns c with
      inBuf := rest
      chatted := (s.conns c).chatted ++ [line] }) := by
    refine h.setConn ?_ (Or.inl (by rw [hstage]; rfl))
      ⟨fun hactive => ⟨hactive, rfl⟩, List.prefix_append _ _⟩
    refine (h.lined c).takeLine hline hplain rfl (List.append_assoc _ _ _).symm ?_
      (h.lined c).username
    intro hawaiting
    rw [show (s.conns c).state = .awaitingUsername from hawaiting] at hstate
    cases hstate
  refine hconn.pushTask ⟨?_, ?_⟩ rfl
  · rw [s.setConn_self]
    exact hstate
  · rw [s.setConn_self]
    exact List.mem_append_right _ List.mem_cons_self

end Lines

theorem deliver (h : Kept s) (htabled : Tabled s) {messages : List Broadcast}
    (hstage : s.stage = .broadcasting messages) : Kept (s.deliver messages) := by
  have hconn := htabled.deliver_conns messages
  refine h.grow ?_ ?_ ?_ (fun _ htask => htask) fun _ hb => Or.inl hb
  · intro c
    rw [hconn]
    split
    · exact (h.lined c).keep rfl rfl rfl rfl rfl rfl
    · exact h.lined c
  · intro c _
    have hplain := h.plain hstage rfl c
    rw [hconn]
    split
    · exact hplain
    · exact hplain
  · intro c
    rw [hconn]
    split
    · exact ⟨fun hactive => ⟨hactive, rfl⟩, List.prefix_rfl⟩
    · exact .refl _

theorem accept (h : Kept s) (htabled : Tabled s) {fd : ℕ} (hstage : s.stage = .accepting) :
    Kept (s.accept fd) := by
  have hself : (s.accept fd).conns s.accepted = .new fd := Function.update_self _ _ _
  have hother : ∀ d, d ≠ s.accepted → (s.accept fd).conns d = s.conns d :=
    fun d hd => Function.update_of_ne hd _ _
  refine h.grow ?_ ?_ ?_ (fun _ htask => htask) fun _ hb => Or.inl hb
  · intro d
    by_cases hd : d = s.accepted
    · rw [hd, hself]
      exact .new fd
    · rw [hother d hd]
      exact h.lined d
  · intro d _
    by_cases hd : d = s.accepted
    · rw [hd, hself]
      exact nofun
    · rw [hother d hd]
      exact h.plain hstage rfl d
  · intro d
    by_cases hd : d = s.accepted
    · rw [hd, hself, htabled.fresh _ (le_refl _)]
      exact ⟨nofun, List.prefix_rfl⟩
    · rw [hother d hd]
      exact .refl _

theorem init (fds : ServerFds) : Kept (.init fds : Server W) where
  lined _ := .new 0
  split _ _ := nofun
  tasks task hpending := by
    rcases hpending with hqueued | ⟨w, heq | heq⟩
    · cases hqueued
    · cases heq
    · cases heq
  chats _ hb := nomatch hb

theorem moves [DecidableEq W] {fds : ServerFds} (h : Kept s) (htabled : Tabled s)
    (hmoves : Moves fds s t) : Kept t := by
  cases hmoves with
  | turn hturn => exact h.turn hturn
  | drain hstage =>
    exact h.frame rfl (congrArg splitter? hstage).symm (fun _ htask => htask) fun _ hb => Or.inl hb
  | deliver hstage => exact h.deliver htabled hstage
  | accept hstage hfree => exact h.accept htabled hstage
  | data chunk hstage => exact h.data chunk hstage
  | login hstage hstate hline hname => exact h.login hstage hstate hline hname
  | refused hstage hstate hline hname => exact h.refused hstage hstate hline hname
  | chat hstage hstate hline hnewline => exact h.chat hstage hstate hline hnewline
  | @sent c count hstage =>
    refine h.setConn ?_ (Or.inr (h.plain hstage rfl c))
      ⟨fun hactive => ⟨hactive, rfl⟩, List.prefix_rfl⟩
    exact (h.lined c).keep rfl rfl rfl rfl rfl rfl
  | @exchange c write hstage hopen =>
    have hconn : Kept (s.setConn c { s.conns c with closed := true }) := by
      refine h.setConn ?_ (Or.inr (h.plain hstage rfl c))
        ⟨fun hactive => ⟨hactive, rfl⟩, List.prefix_rfl⟩
      exact (h.lined c).keep rfl rfl rfl rfl rfl rfl
    exact hconn.goto fun d _ => hconn.plain hstage rfl d
  | @leave c write hstage hname =>
    refine Kept.goto ?_ ?_
    · refine Kept.queueBroadcastMessage ?_ nofun
      exact h.frame rfl rfl (fun _ htask => htask) fun _ hb => Or.inl hb
    · exact fun d _ => h.plain hstage rfl d
  | leaveNameless hstage hname => exact h.goto fun d _ => h.plain hstage rfl d
  | @release c write hstage =>
    exact h.grow h.lined (fun d _ => h.plain hstage rfl d) (fun _ => .refl _)
      (fun _ htask => htask) fun _ hb => Or.inl hb
  | shutdown hstage | closeClient hstage | clear hstage | closeServer hstage =>
    exact h.grow h.lined (fun d _ => h.plain hstage rfl d) (fun _ => .refl _)
      (fun _ htask => htask) fun _ hb => Or.inl hb
  | workerTurn hturn => exact h.workerTurn hturn
  | take hqueue => exact h.take hqueue
  | otherOpens | otherCloses => exact h.frame rfl rfl (fun _ htask => htask) fun _ hb => Or.inl hb
  | push hworker => exact h.push hworker

end Kept

section Messages

variable {username line : Text}

theorem chatMessage_eq :
    chatMessage username (line ++ [newline] ++ [newline]) =
      chatLine username line ++ [newline] := by
  have htake : (line ++ [newline] ++ [newline]).take
      ((line ++ [newline] ++ [newline]).length - 1) = line ++ [newline] :=
    List.take_left' (by simp)
  rw [chatMessage, htake, chatLine]
  simp only [List.append_assoc]

theorem chatLine_append_ne : chatLine username line ++ [newline] ≠ chatLine username line := by
  intro h
  have hlen := congrArg List.length h
  rw [List.length_append, List.length_singleton] at hlen
  omega

/-- Whoever reads lines finds an empty one behind the chat line. -/
theorem lines_chatLine_append (hname : newline ∉ username) (hline : newline ∉ line) :
    lines newline (chatLine username line ++ [newline]) =
      [text "[" ++ username ++ text "]: " ++ line, []] := by
  have hplain : newline ∉ text "[" ++ username ++ text "]: " ++ line := by
    have hopen : newline ∉ text "[" := by decide +kernel
    have hclose : newline ∉ text "]: " := by decide +kernel
    simp [hopen, hclose, hname, hline]
  have hempty : lines newline [newline] = [[]] := by
    rw [← List.nil_append [newline], lines_line List.not_mem_nil,
      lines_of_not_mem List.not_mem_nil]
  rw [chatLine, List.append_assoc, List.cons_append, List.nil_append, lines_line hplain, hempty]

end Messages

/-- The lines are those of the stream, and one that a worker has processed is queued
with a second newline. -/
structure Doubled (s : Server W) : Prop where
  /-- Outside the loop over the lines of a connection, its lines are all taken off. -/
  extracted : ∀ c, splitter? s.stage ≠ some c →
    (s.conns c).entered ++ (s.conns c).chatted = lines newline (s.conns c).received ∧
      (s.conns c).inBuf = unfinished newline (s.conns c).received
  queued : ∀ b ∈ s.queued, ∀ c l, b.origin = some (c, l) →
    ((s.conns c).state = .active ∧ l ∈ (s.conns c).chatted) ∧
      b.msg = chatLine (s.conns c).username l ++ [newline]
  never : ∀ b ∈ s.queued, ∀ c l, b.origin = some (c, l) →
    b.msg ≠ chatLine (s.conns c).username l
  twoLines : ∀ b ∈ s.queued, ∀ c l, b.origin = some (c, l) →
    lines newline b.msg = [text "[" ++ (s.conns c).username ++ text "]: " ++ l, []]

section Reachable

variable [Fintype W] [DecidableEq W] {fds : ServerFds} {allowed : Server W → Action W → Prop}

theorem kept (hs : Reachable (machine fds) allowed s) : Kept s :=
  hs.invariant_of_reachable (.init fds) fun _ _ _ hreach h _ hnext =>
    h.moves (tabled hreach) (moves_of_next hnext)

/-- The lines depend on the stream alone, but no line that a worker has processed is
queued as the chat line that it is meant to be. -/
theorem lines_doubled (hs : Reachable (machine fds) AnyStep s) : Doubled s := by
  have h := kept hs
  have hqueued : ∀ b ∈ s.queued, ∀ c l, b.origin = some (c, l) → Sends (s.conns c) l ∧
      b.msg = chatLine (s.conns c).username l ++ [newline] := by
    intro b hb c l horigin
    obtain ⟨hsends, hmsg⟩ := h.chats b hb c l horigin
    exact ⟨hsends, hmsg.trans chatMessage_eq⟩
  refine ⟨?_, hqueued, ?_, ?_⟩
  · intro c hstage
    have hlined := h.lined c
    have hplain := h.split c hstage
    rw [hlined.stream, lines_unlines_append hlined.plain, unfinished_unlines_append hlined.plain,
      lines_of_not_mem hplain, unfinished_of_not_mem hplain, List.append_nil]
    exact ⟨rfl, rfl⟩
  · intro b hb c l horigin
    rw [(hqueued b hb c l horigin).2]
    exact chatLine_append_ne
  · intro b hb c l horigin
    obtain ⟨hsends, hmsg⟩ := hqueued b hb c l horigin
    rw [hmsg]
    exact lines_chatLine_append (h.lined c).username
      ((h.lined c).plain l (List.mem_append_right _ hsends.2))

end Reachable

section Samples

/-- bob logs in and sends one line, which a worker processes. -/
def sampleRun : List (Action Unit) :=
  [.work (), .epollEvent 4 false true false, .accept 7, .acceptFails,
    .epollEvent 7 false true false, .recv (.bytes (text "bob\nh")), .reactor, .reactor,
    .recv (.bytes (text "i\n")), .reactor, .reactor, .recv .wouldBlock, .work (), .work (),
    .work ()]

/-- The others get the line and an empty line. -/
theorem line_doubled :
    ¬ ∀ s : Server Unit, Reachable (machine sampleFds) AnyStep s → Exact s := by
  have hrun : (run (machine sampleFds) AnyStep (machine sampleFds).init sampleRun).any
      (fun s => ∃ b ∈ s.queued, b.origin = some (0, text "hi") ∧
        b.msg ≠ chatLine (s.conns 0).username (text "hi")) = true := by
    decide +kernel
  obtain ⟨s, hs, b, hb, horigin, hmsg⟩ := exists_reachable hrun
  intro hall
  exact hmsg (hall s hs b hb 0 _ horigin)

theorem lines_doubled_hi : ∃ s : Server Unit,
    (∃ b ∈ s.queued, b.origin = some (0, text "hi") ∧ b.msg = text "[bob]: hi\n\n") ∧
      Doubled s := by
  have hrun : (run (machine sampleFds) AnyStep (machine sampleFds).init sampleRun).any
      (fun s => ∃ b ∈ s.queued, b.origin = some (0, text "hi") ∧
        b.msg = text "[bob]: hi\n\n") = true := by
    decide +kernel
  obtain ⟨s, hs, h⟩ := exists_reachable hrun
  exact ⟨s, h, lines_doubled hs⟩

end Samples

end ChatServer.LineServer.ChatLines
