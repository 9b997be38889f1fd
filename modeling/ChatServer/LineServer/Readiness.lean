import ChatServer.LineServer.ClientStream

/-!
What the epoll instance of the second version is told. The registrations are
edge-triggered, so bytes in `out_buf` that nobody watches would stay there for ever.
While run waits, EPOLLOUT is set exactly for the connections with something in
`out_buf`, and a socket with room for it is on the ready list or still in the batch.
The eventfd is read before the queue is drained, so a message that comes later has
a write of its own behind it.
-/
namespace ChatServer.LineServer.EventLoop

open Lib.Runs MessageTasks TotalOrder

variable {W : Type*} {fds : ServerFds} {l m : Loop W} {c : ConnId}

/-- run has not left its loop. -/
def Polls : Stage → Prop
  | .stopping _ | .joining _ | .closingClients _ _ | .closingServer _ _ | .returned
  | .destroyed => False
  | _ => True

/-- The connection that handle_write is going to be called for, or close_conn. -/
def busy? : Stage → Option ConnId
  | .reading c true | .splitting c true | .writing c | .closing c _ | .leaving c _
  | .releasing c _ => some c
  | _ => none

/-- The descriptors that the constructor registers. -/
def watchedFds (fds : ServerFds) : List ℕ := [fds.fd .listen, fds.fd .signal, fds.fd .notify]

/-- EPOLLOUT is set if there is something to send, and then the room for it will be seen. -/
def Covered (l : Loop W) (fd : ℕ) (outBuf : Bytes) : Prop :=
  l.interest fd = some (!outBuf.isEmpty) ∧
    (outBuf ≠ [] → l.writable fd = true →
      l.ready fd = true ∨ ∃ e ∈ l.batch, e.fd = fd ∧ e.output = true)

structure Watched (fds : ServerFds) (l : Loop W) : Prop where
  registered : Polls l.server.stage → ∀ fd, (l.interest fd).isSome = true ↔
    fd ∈ watchedFds fds ∨ (l.server.connections.lookup fd).isSome = true
  plain : Polls l.server.stage → ∀ fd ∈ watchedFds fds, l.interest fd = some false
  covered : Polls l.server.stage → ∀ fd c, l.server.connections.lookup fd = some c →
    busy? l.server.stage ≠ some c → Covered l fd (l.server.conns c).outBuf
  /-- No other connection has the descriptor of the one that the main thread works on. -/
  own : ∀ c d, l.server.stage.conn? = some c →
    l.server.connections.lookup (l.server.conns c).fd = some d → d = c
  apart : ∀ c, c < l.server.accepted → (l.server.conns c).fd ∉ watchedFds fds

section Stages

theorem serving_of_polls {stage : Stage} (h : Polls stage) : stage.Serving := by
  cases stage <;> trivial

theorem polls_of_conn? {stage : Stage} (h : stage.conn? = some c) : Polls stage := by
  cases stage <;> trivial

theorem polls_of_eq {stage stage' : Stage} (heq : stage' = stage) (h : Polls stage) :
    Polls stage' := by
  rw [heq]
  exact h

end Stages

section Owners

variable {s : Server W}

theorem server_owner (hclosing : DescriptorClosing.ServerClosing fds s) (hpolls : Polls s.stage)
    {fd : ℕ} (hfd : fd ∈ watchedFds fds) : ∃ h, s.owner fd = some (.server h) := by
  have hall : ∀ h, s.owner (fds.fd h) = some (.server h) := by
    intro h
    refine (hclosing.left h ?_).2
    have hfirst : DescriptorClosing.firstLeft s.stage = serverFds := by
      cases hstage : s.stage with
      | stopping again | joining again | closingClients again rest | closingServer again rest
      | returned | destroyed =>
        rw [hstage] at hpolls
        cases hpolls
      | _ => rfl
    rw [hfirst]
    exact DescriptorClosing.mem_serverFds h
  simp only [watchedFds, List.mem_cons, List.not_mem_nil, or_false] at hfd
  rcases hfd with rfl | rfl | rfl
  · exact ⟨_, hall .listen⟩
  · exact ⟨_, hall .signal⟩
  · exact ⟨_, hall .notify⟩

/-- No connection in the table has a descriptor of the server. -/
theorem not_watched (htabled : Tabled s) (hclosing : DescriptorClosing.ServerClosing fds s)
    (hpolls : Polls s.stage) {fd : ℕ} (hlookup : s.connections.lookup fd = some c) :
    fd ∉ watchedFds fds := by
  intro hfd
  obtain ⟨h, hown⟩ := server_owner hclosing hpolls hfd
  rw [htabled.owned (serving_of_polls hpolls) fd c hlookup] at hown
  cases hown

end Owners

section Dispatch

variable {s : Server W} {e : Event}

theorem dispatch_of_client (hfd : e.fd ∉ watchedFds fds)
    (hlookup : s.connections.lookup e.fd = some c) :
    s.dispatch fds e.fd e.error e.input e.output =
      if e.error then s.goto (.closing c false)
      else if e.input then s.goto (.reading c e.output)
      else s.goto (.after c e.output) := by
  simp only [watchedFds, List.mem_cons, List.not_mem_nil, or_false, not_or] at hfd
  unfold Server.dispatch
  rw [if_neg hfd.1, if_neg hfd.2.1, if_neg hfd.2.2, hlookup]

/-- After an event with EPOLLOUT the connection is written to, or closed. -/
theorem busy?_dispatch (hfd : e.fd ∉ watchedFds fds)
    (hlookup : s.connections.lookup e.fd = some c) (hout : e.output = true) :
    busy? (s.dispatch fds e.fd e.error e.input e.output).stage = some c := by
  rw [dispatch_of_client hfd hlookup, hout]
  split
  · rfl
  · split <;> rfl

theorem conn?_dispatch (hstage : s.stage = .polling)
    (h : (s.dispatch fds e.fd e.error e.input e.output).stage.conn? = some c) :
    s.connections.lookup e.fd = some c := by
  by_cases hfd : e.fd ∈ watchedFds fds
  · exfalso
    simp only [watchedFds, List.mem_cons, List.not_mem_nil, or_false] at hfd
    unfold Server.dispatch at h
    split at h
    · cases h
    · rename_i hlisten
      split at h
      · cases h
      · rename_i hsignal
        rw [if_pos ((hfd.resolve_left hlisten).resolve_left hsignal)] at h
        unfold Server.drain at h
        split at h
        · rw [hstage] at h
          cases h
        · cases h
  · cases hlookup : s.connections.lookup e.fd with
    | none =>
      simp only [watchedFds, List.mem_cons, List.not_mem_nil, or_false, not_or] at hfd
      unfold Server.dispatch at h
      rw [if_neg hfd.1, if_neg hfd.2.1, if_neg hfd.2.2, hlookup] at h
      change s.stage.conn? = some c at h
      rw [hstage] at h
      cases h
    | some d =>
      rw [dispatch_of_client hfd hlookup] at h
      split at h
      · exact h
      · split at h
        · exact h
        · rw [Stage.conn?_after h]

theorem dispatch_connections : (s.dispatch fds e.fd e.error e.input e.output).connections =
    s.connections := by
  unfold Server.dispatch Server.drain
  split
  · rfl
  · split
    · rfl
    · split
      · split <;> rfl
      · split
        · rfl
        · split
          · rfl
          · split <;> rfl

theorem not_signal_of_polls (hsignal : e.fd = fds.fd .signal) :
    ¬ Polls (s.dispatch fds e.fd e.error e.input e.output).stage := by
  have hlisten : e.fd ≠ fds.fd .listen := by
    rw [hsignal]
    intro heq
    cases fds.injective heq
  unfold Server.dispatch
  rw [if_neg hlisten, if_pos hsignal]
  exact id

theorem drained_dispatch (hnotify : e.fd = fds.fd .notify) :
    (s.dispatch fds e.fd e.error e.input e.output).broadcastQueue = [] := by
  have hlisten : e.fd ≠ fds.fd .listen := by
    rw [hnotify]
    intro heq
    cases fds.injective heq
  have hsignal : e.fd ≠ fds.fd .signal := by
    rw [hnotify]
    intro heq
    cases fds.injective heq
  unfold Server.dispatch
  rw [if_neg hlisten, if_neg hsignal, if_pos hnotify]
  unfold Server.drain
  split
  · assumption
  · rfl

theorem queue_dispatch (hnotify : e.fd ≠ fds.fd .notify) :
    (s.dispatch fds e.fd e.error e.input e.output).broadcastQueue = s.broadcastQueue := by
  unfold Server.dispatch
  rw [if_neg hnotify]
  split
  · rfl
  · split
    · rfl
    · split
      · rfl
      · split
        · rfl
        · split <;> rfl

end Dispatch

section Kernel

variable {fd fd' : ℕ} {output : Bool}

theorem epollMod_of_ne (h : fd' ≠ fd) :
    (l.epollMod fd output).interest fd' = l.interest fd' ∧
      (l.epollMod fd output).ready fd' = l.ready fd' := by
  unfold Loop.epollMod
  split
  · exact ⟨rfl, rfl⟩
  · exact ⟨Function.update_of_ne h _ _, Function.update_of_ne h _ _⟩

theorem epollMod_self (output : Bool) (h : (l.interest fd).isSome = true) :
    (l.epollMod fd output).interest fd = some output ∧
      (l.epollMod fd output).ready fd = (l.ready fd || output && l.writable fd) := by
  obtain ⟨before, hbefore⟩ := Option.isSome_iff_exists.mp h
  simp only [Loop.epollMod, hbefore]
  exact ⟨Function.update_self .., Function.update_self ..⟩

theorem epollMod_unregistered (h : l.interest fd = none) : l.epollMod fd output = l := by
  simp only [Loop.epollMod, h]

theorem epollMod_same : (l.epollMod fd output).writable = l.writable ∧
    (l.epollMod fd output).batch = l.batch := by
  unfold Loop.epollMod
  split <;> exact ⟨rfl, rfl⟩

/-- The fields for the eventfd and its writers. -/
theorem epollMod_notify : (l.epollMod fd output).notified = l.notified ∧
    (l.epollMod fd output).counter = l.counter ∧
    (l.epollMod fd output).notifying = l.notifying := by
  unfold Loop.epollMod
  split <;> exact ⟨rfl, rfl, rfl⟩

theorem ready_epollMod (h : l.ready fd' = true) : (l.epollMod fd output).ready fd' = true := by
  by_cases hfd : fd' = fd
  · subst hfd
    unfold Loop.epollMod
    split
    · exact h
    · refine (Function.update_self ..).trans ?_
      rw [h]
      rfl
  · rw [(epollMod_of_ne hfd).2]
    exact h

theorem isSome_epollMod :
    ((l.epollMod fd output).interest fd').isSome = (l.interest fd').isSome := by
  by_cases hfd : fd' = fd
  · subst hfd
    cases hinterest : l.interest fd' with
    | none => rw [epollMod_unregistered hinterest, hinterest]
    | some before => rw [(epollMod_self _ (by rw [hinterest]; rfl)).1]; rfl
  · rw [(epollMod_of_ne hfd).1]

theorem wake_same (l : Loop W) (fd : ℕ) : (l.wake fd).interest = l.interest ∧
    (l.wake fd).writable = l.writable ∧ (l.wake fd).batch = l.batch := by
  unfold Loop.wake
  split <;> exact ⟨rfl, rfl, rfl⟩

theorem wake_notify (l : Loop W) (fd : ℕ) : (l.wake fd).notified = l.notified ∧
    (l.wake fd).counter = l.counter ∧ (l.wake fd).notifying = l.notifying := by
  unfold Loop.wake
  split <;> exact ⟨rfl, rfl, rfl⟩

theorem ready_wake (h : l.ready fd' = true) : (l.wake fd).ready fd' = true := by
  unfold Loop.wake
  split
  · by_cases hfd : fd' = fd
    · rw [hfd]
      exact Function.update_self ..
    · exact (Function.update_of_ne hfd _ _).trans h
  · exact h

theorem ready_wake_self (h : (l.interest fd).isSome = true) : (l.wake fd).ready fd = true := by
  unfold Loop.wake
  rw [if_pos h]
  exact Function.update_self ..

theorem writeNotify_same (fds : ServerFds) (l : Loop W) :
    (l.writeNotify fds).interest = l.interest ∧ (l.writeNotify fds).writable = l.writable ∧
      (l.writeNotify fds).batch = l.batch := by
  unfold Loop.writeNotify
  split
  · exact wake_same ..
  · exact ⟨rfl, rfl, rfl⟩

theorem writeNotify_notified (fds : ServerFds) (l : Loop W) :
    (l.writeNotify fds).notified = l.notified := by
  unfold Loop.writeNotify
  split
  · exact (wake_notify ..).1
  · rfl

theorem reply_writeNotify (c : ConnId) (msg : Text) (taken : ℕ) :
    (l.reply c msg taken).writeNotify fds = (l.writeNotify fds).reply c msg taken := by
  have hwake : ∀ (l : Loop W) fd,
      (l.reply c msg taken).wake fd = (l.wake fd).reply c msg taken := by
    intro l fd
    by_cases hfd : (l.interest fd).isSome = true
    · have hwoken : l.wake fd = { l with ready := Function.update l.ready fd true } := if_pos hfd
      rw [hwoken]
      exact if_pos hfd
    · have hsame : l.wake fd = l := if_neg hfd
      rw [hsame]
      exact if_neg hfd
  by_cases hroom : l.counter < eventfdMax
  · have hwritten : l.writeNotify fds = { l with counter := l.counter + 1 }.wake (fds.fd .notify) :=
      if_pos hroom
    rw [hwritten, ← hwake]
    exact if_pos hroom
  · have hfull : l.writeNotify fds = l := if_neg hroom
    rw [hfull]
    exact if_neg hroom

theorem ready_writeNotify (h : l.ready fd' = true) : (l.writeNotify fds).ready fd' = true := by
  unfold Loop.writeNotify
  split
  · exact ready_wake h
  · exact h

/-- After some modifications that set EPOLLOUT. -/
theorem foldl_epollMod (modified : List ℕ) (l : Loop W)
    (h : (l.interest fd).isSome = true) :
    (modified.foldl (fun m fd => m.epollMod fd true) l).interest fd =
        (if fd ∈ modified then some true else l.interest fd) ∧
      (modified.foldl (fun m fd => m.epollMod fd true) l).ready fd =
        (l.ready fd || decide (fd ∈ modified) && l.writable fd) := by
  induction modified generalizing l with
  | nil => simp
  | cons next rest ih =>
    obtain ⟨hinterest, hready⟩ := ih (l.epollMod next true) (by rw [isSome_epollMod]; exact h)
    rw [List.foldl_cons, hinterest, hready, epollMod_same.1]
    by_cases hfd : fd = next
    · subst hfd
      rw [(epollMod_self _ h).1, (epollMod_self _ h).2]
      refine ⟨by simp, ?_⟩
      cases l.ready fd <;> cases l.writable fd <;> simp
    · rw [(epollMod_of_ne hfd).1, (epollMod_of_ne hfd).2]
      simp [hfd]

/-- The descriptors that handle_broadcasts modifies are those of the connections that get
something. -/
theorem rearm_of_lookup (htabled : Tabled l.server) (messages : List Broadcast) {fd : ℕ}
    (hsome : (l.interest fd).isSome = true) (hlookup : l.server.connections.lookup fd = some c) :
    (l.rearm messages).interest fd =
        (if Loop.Gets l.server messages c then some true else l.interest fd) ∧
      (l.rearm messages).ready fd =
        (l.ready fd || decide (Loop.Gets l.server messages c) && l.writable fd) := by
  have hset := foldl_epollMod ((l.server.activeConns.filter fun c =>
    Loop.Gets l.server messages c).map fun c => (l.server.conns c).fd) l hsome
  have hmem : fd ∈ ((l.server.activeConns.filter fun c =>
      Loop.Gets l.server messages c).map fun c => (l.server.conns c).fd) ↔
      Loop.Gets l.server messages c := by
    simp only [List.mem_map, List.mem_filter, decide_eq_true_eq]
    constructor
    · rintro ⟨d, ⟨hactive, hgets⟩, rfl⟩
      have hfound := htabled.mem_activeConns_iff.mp hactive
      rw [hlookup] at hfound
      exact Option.some.inj hfound ▸ hgets
    · intro hgets
      exact ⟨c, ⟨mem_activeConns.mpr ⟨fd, hlookup⟩, hgets⟩, (htabled.key fd c hlookup).2⟩
  simp only [hmem] at hset
  rw [List.foldl_map] at hset
  exact hset

theorem rearm_of_none (htabled : Tabled l.server) (messages : List Broadcast) {fd : ℕ}
    (hsome : (l.interest fd).isSome = true) (hnone : l.server.connections.lookup fd = none) :
    (l.rearm messages).interest fd = l.interest fd := by
  have hset := (foldl_epollMod ((l.server.activeConns.filter fun c =>
    Loop.Gets l.server messages c).map fun c => (l.server.conns c).fd) l hsome).1
  rw [if_neg ?_, List.foldl_map] at hset
  · exact hset
  · simp only [List.mem_map, List.mem_filter, not_exists, not_and]
    rintro c ⟨hactive, _⟩ rfl
    rw [htabled.mem_activeConns_iff.mp hactive] at hnone
    cases hnone

/-- What handle_broadcasts appends. -/
theorem outBuf_deliver (htabled : Tabled l.server) (messages : List Broadcast) {fd : ℕ}
    (hlookup : l.server.connections.lookup fd = some c) :
    ((l.server.deliver messages).conns c).outBuf = (l.server.conns c).outBuf ++
      if Loop.Gets l.server messages c then Loop.bufferFor (l.server.conns c) messages
      else [] := by
  have hactive : c ∈ l.server.activeConns := mem_activeConns.mpr ⟨fd, hlookup⟩
  rw [htabled.deliver_conns messages]
  by_cases hlistens : (l.server.conns c).Listens
  · rw [if_pos ⟨hactive, hlistens⟩]
    show (l.server.conns c).outBuf ++ Loop.bufferFor (l.server.conns c) messages = _
    split
    · rfl
    · rename_i hgets
      rw [not_not.mp fun hsome => hgets ⟨hlistens, hsome⟩]
  · rw [if_neg fun hcon => hlistens hcon.2, if_neg fun hgets => hlistens hgets.1, List.append_nil]

end Kernel

namespace Covered

variable {fd fd' : ℕ} {outBuf : Bytes}

/-- The kernel knows at least as much about the descriptor. -/
theorem keep (h : Covered l fd outBuf) (hinterest : m.interest fd = l.interest fd)
    (hwritable : m.writable fd = l.writable fd) (hready : l.ready fd = true → m.ready fd = true)
    (hbatch : ∀ e ∈ l.batch, e.fd = fd → e.output = true → e ∈ m.batch) : Covered m fd outBuf := by
  refine ⟨hinterest.trans h.1, fun hleft hroom => ?_⟩
  rcases h.2 hleft (hwritable.symm.trans hroom) with hlisted | ⟨e, he, hefd, hout⟩
  · exact Or.inl (hready hlisted)
  · exact Or.inr ⟨e, hbatch e he hefd hout, hefd, hout⟩

/-- A modification looks at the descriptor, so it covers it. -/
theorem modified (h : (l.interest fd).isSome = true)
    (hinterest : m.interest = (l.epollMod fd (!outBuf.isEmpty)).interest)
    (hready : m.ready = (l.epollMod fd (!outBuf.isEmpty)).ready)
    (hwritable : m.writable = l.writable) : Covered m fd outBuf := by
  obtain ⟨hset, hlooked⟩ := epollMod_self (!outBuf.isEmpty) h
  refine ⟨by rw [hinterest, hset], fun hleft hroom => Or.inl ?_⟩
  rw [hwritable] at hroom
  rw [hready, hlooked, hroom, List.isEmpty_eq_false_iff.mpr hleft]
  simp

/-- epoll_wait takes off the ready list what it reports. -/
theorem wait (h : Covered l fd outBuf) {events : List Event} (hbatch : l.batch = [])
    (hreports : l.Reports events) :
    Covered { l with
      batch := events
      ready := fun fd => l.ready fd && !(events.map Event.fd).contains fd } fd outBuf := by
  refine ⟨h.1, fun hleft hroom => ?_⟩
  have hlisted : l.ready fd = true := by
    rcases h.2 hleft hroom with hlisted | ⟨e, he, _⟩
    · exact hlisted
    · rw [hbatch] at he
      cases he
  by_cases hin : fd ∈ events.map Event.fd
  · obtain ⟨e, he, rfl⟩ := List.mem_map.mp hin
    refine Or.inr ⟨e, he, rfl, ?_⟩
    change l.writable e.fd = true at hroom
    rw [(hreports.2.2 e he).2.2, h.1, hroom, List.isEmpty_eq_false_iff.mpr hleft]
    rfl
  · refine Or.inl ?_
    show (l.ready fd && !(events.map Event.fd).contains fd) = true
    rw [hlisted, List.contains_eq_mem, decide_eq_false hin]
    rfl

/-- A descriptor that can be written to is not forgotten while there is something to send. -/
theorem forget (h : Covered l fd outBuf)
    (hnothing : ((l.interest fd').getD false && l.writable fd') = false) :
    Covered { l with ready := Function.update l.ready fd' false } fd outBuf := by
  refine ⟨h.1, fun hleft hroom => ?_⟩
  have hfd : fd ≠ fd' := by
    rintro rfl
    change l.writable fd = true at hroom
    rw [h.1, hroom, List.isEmpty_eq_false_iff.mpr hleft] at hnothing
    cases hnothing
  rcases h.2 hleft hroom with hlisted | hpending
  · exact Or.inl ((Function.update_of_ne hfd _ _).trans hlisted)
  · exact Or.inr hpending

/-- The room in a socket is seen where EPOLLOUT is set. -/
theorem drained (h : Covered l fd outBuf) (hset : l.interest fd' = some true) :
    Covered ({ l with writable := Function.update l.writable fd' true }.wake fd') fd outBuf := by
  obtain ⟨hinterest, hwritable, hbatch⟩ :=
    wake_same { l with writable := Function.update l.writable fd' true } fd'
  refine ⟨(congrFun hinterest fd).trans h.1, fun hleft hroom => ?_⟩
  by_cases hfd : fd = fd'
  · rw [hfd]
    refine Or.inl (ready_wake_self ?_)
    show (l.interest fd').isSome = true
    rw [hset]
    rfl
  · rw [hwritable] at hroom
    change Function.update l.writable fd' true fd = true at hroom
    rw [Function.update_of_ne hfd] at hroom
    rcases h.2 hleft hroom with hlisted | hpending
    · exact Or.inl (ready_wake hlisted)
    · rw [hbatch]
      exact Or.inr hpending

theorem drainedUnwatched (h : Covered l fd outBuf) (hunset : l.interest fd' ≠ some true) :
    Covered { l with writable := Function.update l.writable fd' true } fd outBuf := by
  refine ⟨h.1, fun hleft hroom => ?_⟩
  have hfd : fd ≠ fd' := by
    rintro rfl
    rw [h.1, List.isEmpty_eq_false_iff.mpr hleft] at hunset
    exact hunset rfl
  change Function.update l.writable fd' true fd = true at hroom
  rw [Function.update_of_ne hfd] at hroom
  exact h.2 hleft hroom

theorem filled (h : Covered l fd outBuf) :
    Covered { l with writable := Function.update l.writable fd' false } fd outBuf := by
  refine ⟨h.1, fun hleft hroom => ?_⟩
  change Function.update l.writable fd' false fd = true at hroom
  have hfd : fd ≠ fd' := by
    rintro rfl
    rw [Function.update_self] at hroom
    cases hroom
  rw [Function.update_of_ne hfd] at hroom
  exact h.2 hleft hroom

theorem deliver (h : Covered l fd (l.server.conns c).outBuf) (htabled : Tabled l.server)
    (messages : List Broadcast) (hsome : (l.interest fd).isSome = true)
    (hlookup : l.server.connections.lookup fd = some c) :
    Covered { l.rearm messages with server := l.server.deliver messages } fd
      ((l.server.deliver messages).conns c).outBuf := by
  obtain ⟨hset, hlooked⟩ := rearm_of_lookup htabled messages hsome hlookup
  have hwritable : (l.rearm messages).writable = l.writable :=
    Loop.rearm_same Loop.writable (fun m fd => epollMod_same.1) l messages
  have hbatch : (l.rearm messages).batch = l.batch :=
    Loop.rearm_same Loop.batch (fun m fd => epollMod_same.2) l messages
  rw [outBuf_deliver htabled messages hlookup]
  by_cases hgets : Loop.Gets l.server messages c
  · rw [if_pos hgets] at hset ⊢
    have hleft : ((l.server.conns c).outBuf ++
        Loop.bufferFor (l.server.conns c) messages).isEmpty = false :=
      List.isEmpty_eq_false_iff.mpr (List.append_ne_nil_of_right_ne_nil _ hgets.2)
    refine ⟨hset.trans (by rw [hleft]; rfl), fun _ hroom => Or.inl ?_⟩
    change (l.rearm messages).writable fd = true at hroom
    rw [hwritable] at hroom
    show (l.rearm messages).ready fd = true
    rw [hlooked, hroom, decide_eq_true hgets, Bool.true_and, Bool.or_true]
  · rw [if_neg hgets] at hset ⊢
    rw [List.append_nil]
    refine h.keep hset (congrFun hwritable fd) ?_ ?_
    · intro hlisted
      show (l.rearm messages).ready fd = true
      rw [hlooked, hlisted]
      rfl
    · intro e he _ _
      show e ∈ (l.rearm messages).batch
      rw [hbatch]
      exact he

end Covered

namespace Watched

/-- A step of the server that leaves the table alone, with what it does to the kernel. -/
theorem frame (h : Watched fds l) (hpolls : Polls m.server.stage → Polls l.server.stage)
    (hinterest : m.interest = l.interest)
    (hcovered : Polls m.server.stage → ∀ fd c, l.server.connections.lookup fd = some c →
      busy? m.server.stage ≠ some c → Covered l fd (l.server.conns c).outBuf →
      Covered m fd (m.server.conns c).outBuf)
    (hconnections : m.server.connections = l.server.connections)
    (haccepted : m.server.accepted = l.server.accepted)
    (hfd : ∀ c, (m.server.conns c).fd = (l.server.conns c).fd)
    (hbusy : ∀ fd c, l.server.connections.lookup fd = some c → busy? l.server.stage = some c →
      busy? m.server.stage = some c)
    (hown : ∀ c d, m.server.stage.conn? = some c →
      l.server.connections.lookup (l.server.conns c).fd = some d → d = c) : Watched fds m where
  registered hpolls' fd := by
    rw [hinterest, hconnections]
    exact h.registered (hpolls hpolls') fd
  plain hpolls' fd hfd := by
    rw [hinterest]
    exact h.plain (hpolls hpolls') fd hfd
  covered hpolls' fd c hlookup hidle := by
    rw [hconnections] at hlookup
    exact hcovered hpolls' fd c hlookup hidle
      (h.covered (hpolls hpolls') fd c hlookup fun hbefore => hidle (hbusy fd c hlookup hbefore))
  own c d hc hlookup := by
    rw [hconnections, hfd] at hlookup
    exact hown c d hc hlookup
  apart c hc := by
    rw [haccepted] at hc
    rw [hfd]
    exact h.apart c hc

/-- A step that does not lead the main thread away from its connection. -/
theorem stay (h : Watched fds l) (hinterest : m.interest = l.interest)
    (hwritable : m.writable = l.writable) (hready : ∀ fd, l.ready fd = true → m.ready fd = true)
    (hbatch : m.batch = l.batch) (hconnections : m.server.connections = l.server.connections)
    (haccepted : m.server.accepted = l.server.accepted)
    (hfd : ∀ c, (m.server.conns c).fd = (l.server.conns c).fd)
    (hout : ∀ c, busy? m.server.stage ≠ some c →
      (m.server.conns c).outBuf = (l.server.conns c).outBuf)
    (hpolls : Polls m.server.stage → Polls l.server.stage)
    (hbusy : ∀ fd c, l.server.connections.lookup fd = some c → busy? l.server.stage = some c →
      busy? m.server.stage = some c)
    (hconn : ∀ c, m.server.stage.conn? = some c → l.server.stage.conn? = some c) :
    Watched fds m := by
  refine h.frame hpolls hinterest ?_ hconnections haccepted hfd hbusy fun c d hc =>
    h.own c d (hconn c hc)
  intro _ fd c _ hidle hcov
  rw [hout c hidle]
  refine hcov.keep (by rw [hinterest]) (by rw [hwritable]) (hready fd) ?_
  intro e he _ _
  rw [hbatch]
  exact he

/-- The stages that follow each other in the work on a connection. -/
theorem goes (h : Watched fds l) (stage : Stage) (hinterest : m.interest = l.interest)
    (hwritable : m.writable = l.writable) (hready : ∀ fd, l.ready fd = true → m.ready fd = true)
    (hbatch : m.batch = l.batch) (hconnections : m.server.connections = l.server.connections)
    (haccepted : m.server.accepted = l.server.accepted)
    (hfd : ∀ c, (m.server.conns c).fd = (l.server.conns c).fd)
    (hout : ∀ c, busy? stage ≠ some c → (m.server.conns c).outBuf = (l.server.conns c).outBuf)
    (hstage : m.server.stage = stage) (hfrom : l.server.stage.conn? = some c)
    (hto : stage.conn? = some c) (hbusy : busy? l.server.stage = busy? stage) :
    Watched fds m := by
  have hpolls := polls_of_conn? hfrom
  subst hstage
  refine h.stay hinterest hwritable hready hbatch hconnections haccepted hfd hout
    (fun _ => hpolls) (fun _ _ _ hb => hbusy ▸ hb) fun d hd => ?_
  rw [hto] at hd
  rw [hfrom, ← Option.some.inj hd]

/-- run has left its loop. -/
theorem stopped (h : Watched fds l) (hpolls : ¬ Polls m.server.stage)
    (hconns : m.server.conns = l.server.conns) (haccepted : m.server.accepted = l.server.accepted) :
    Watched fds m where
  registered hpolls' := absurd hpolls' hpolls
  plain hpolls' := absurd hpolls' hpolls
  covered hpolls' := absurd hpolls' hpolls
  own c d hc := absurd (polls_of_conn? hc) hpolls
  apart := by
    rw [haccepted, hconns]
    exact h.apart

/-- The modification after handle_write, which tells whether bytes are left. -/
theorem modify (h : Watched fds l) (htabled : Tabled l.server)
    (hstage : l.server.stage = .writing c) (hserver : m.server = l.server.goto .polling)
    (hinterest : m.interest =
      (l.epollMod (l.server.conns c).fd (!(l.server.conns c).outBuf.isEmpty)).interest)
    (hready : m.ready =
      (l.epollMod (l.server.conns c).fd (!(l.server.conns c).outBuf.isEmpty)).ready)
    (hwritable : m.writable = l.writable) (hbatch : m.batch = l.batch) : Watched fds m := by
  have hpolls : Polls l.server.stage := polls_of_eq hstage trivial
  have hconn : l.server.stage.conn? = some c := by
    rw [hstage]
    rfl
  refine ⟨?_, ?_, ?_, ?_, ?_⟩
  · intro _ fd
    rw [hinterest, isSome_epollMod, hserver]
    exact h.registered hpolls fd
  · intro _ fd hfd
    have hne : fd ≠ (l.server.conns c).fd := fun heq => h.apart c (htabled.made c hconn) (heq ▸ hfd)
    rw [hinterest, (epollMod_of_ne hne).1]
    exact h.plain hpolls fd hfd
  · intro _ fd d hlookup _
    rw [hserver] at hlookup ⊢
    change l.server.connections.lookup fd = some d at hlookup
    show Covered m fd (l.server.conns d).outBuf
    by_cases hfd : fd = (l.server.conns c).fd
    · subst hfd
      have hdc : d = c := h.own c d hconn hlookup
      subst hdc
      refine Covered.modified ?_ hinterest hready hwritable
      exact (h.registered hpolls _).mpr (Or.inr (by rw [hlookup]; rfl))
    · have hidle : busy? l.server.stage ≠ some d := by
        rw [hstage]
        intro hbusy
        cases hbusy
        exact hfd (htabled.key fd c hlookup).2.symm
      refine (h.covered hpolls fd d hlookup hidle).keep ?_ (by rw [hwritable]) ?_ ?_
      · rw [hinterest, (epollMod_of_ne hfd).1]
      · rw [hready, (epollMod_of_ne hfd).2]
        exact id
      · intro e he _ _
        rw [hbatch]
        exact he
  · intro d _ hd
    rw [hserver] at hd
    cases hd
  · rw [hserver]
    exact h.apart

/-- handle_broadcasts sets EPOLLOUT wherever it appends. -/
theorem deliver (h : Watched fds l) (htabled : Tabled l.server) {messages : List Broadcast}
    (hstage : l.server.stage = .broadcasting messages)
    (hclosing : DescriptorClosing.ServerClosing fds l.server) :
    Watched fds { l.rearm messages with server := l.server.deliver messages } := by
  have hpolls : Polls l.server.stage := polls_of_eq hstage trivial
  refine ⟨?_, ?_, ?_, ?_, ?_⟩
  · intro _ fd
    show ((l.rearm messages).interest fd).isSome = true ↔ _
    rw [Loop.rearm_same (fun m => (m.interest fd).isSome) (fun m fd' => isSome_epollMod)]
    exact h.registered hpolls fd
  · intro _ fd hwatched
    have hnone : l.server.connections.lookup fd = none := by
      rw [Option.eq_none_iff_forall_ne_some]
      intro c hlookup
      exact not_watched htabled hclosing hpolls hlookup hwatched
    have hsome : (l.interest fd).isSome = true := by
      rw [h.plain hpolls fd hwatched]
      rfl
    exact (rearm_of_none htabled messages hsome hnone).trans (h.plain hpolls fd hwatched)
  · intro _ fd c hlookup _
    have hbefore := h.covered hpolls fd c hlookup (by rw [hstage]; exact nofun)
    have hsome : (l.interest fd).isSome = true :=
      (h.registered hpolls fd).mpr (Or.inr (Option.isSome_iff_exists.mpr ⟨c, hlookup⟩))
    exact hbefore.deliver htabled messages hsome hlookup
  · intro c d hc
    cases hc
  · intro c hc
    have hfd : ((l.server.deliver messages).conns c).fd = (l.server.conns c).fd := by
      rw [htabled.deliver_conns messages]
      split <;> rfl
    show ((l.server.deliver messages).conns c).fd ∉ _
    rw [hfd]
    exact h.apart c hc

/-- A new connection is registered, with nothing to send yet. -/
theorem accept (h : Watched fds l) (htabled : Tabled l.server)
    (hclosing : DescriptorClosing.ServerClosing fds l.server) {fd : ℕ} (taken : ℕ)
    (hstage : l.server.stage = .accepting) (hfree : l.server.owner fd = none) :
    Watched fds { (l.epollAdd fd).reply l.server.accepted welcomeMessage taken with
      server := l.server.accept fd } := by
  have hpolls : Polls l.server.stage := polls_of_eq hstage trivial
  have hserving := serving_of_polls hpolls
  have hlookup := htabled.lookup_accept hserving hfree
  have hnotwatched : fd ∉ watchedFds fds := by
    intro hin
    obtain ⟨k, hown⟩ := server_owner hclosing hpolls hin
    rw [hfree] at hown
    cases hown
  have hnone : l.interest fd = none := by
    rw [← Option.not_isSome_iff_eq_none, h.registered hpolls fd]
    rintro (hin | hin)
    · exact hnotwatched hin
    · obtain ⟨c, hc⟩ := Option.isSome_iff_exists.mp hin
      exact htabled.lookup_of_free hserving hfree c hc
  have hadd : l.epollAdd fd =
      { l with interest := Function.update l.interest fd (some false) } := by
    simp only [Loop.epollAdd, hnone]
  have hold : ∀ c, c ≠ l.server.accepted → (l.server.accept fd).conns c = l.server.conns c :=
    fun c hc => Function.update_of_ne hc _ _
  have hnew : (l.server.accept fd).conns l.server.accepted = .new fd := Function.update_self ..
  rw [hadd]
  refine ⟨?_, ?_, ?_, ?_, ?_⟩
  · intro _ fd'
    show (Function.update l.interest fd (some false) fd').isSome = true ↔
      _ ∨ ((l.server.accept fd).connections.lookup fd').isSome = true
    by_cases hfd : fd' = fd
    · subst hfd
      rw [(hlookup fd' l.server.accepted).mpr (Or.inl ⟨rfl, rfl⟩), Function.update_self]
      simp
    · have hsame : (l.server.accept fd).connections.lookup fd' =
          l.server.connections.lookup fd' := AList.lookup_insert_ne hfd
      rw [Function.update_of_ne hfd, hsame]
      exact h.registered hpolls fd'
  · intro _ fd' hin
    show Function.update l.interest fd (some false) fd' = some false
    by_cases hfd : fd' = fd
    · rw [hfd, Function.update_self]
    · rw [Function.update_of_ne hfd]
      exact h.plain hpolls fd' hin
  · intro _ fd' c hin _
    rcases (hlookup fd' c).mp hin with ⟨rfl, rfl⟩ | hbefore
    · show Covered _ fd' ((l.server.accept fd').conns l.server.accepted).outBuf
      rw [hnew]
      exact ⟨Function.update_self .., fun hleft => absurd rfl hleft⟩
    · have hfd : fd' ≠ fd := by
        rintro rfl
        exact htabled.lookup_of_free hserving hfree c hbefore
      show Covered _ fd' ((l.server.accept fd).conns c).outBuf
      rw [hold c (htabled.key fd' c hbefore).1.ne]
      refine (h.covered hpolls fd' c hbefore (by rw [hstage]; exact nofun)).keep ?_ rfl id
        fun e he _ _ => he
      exact Function.update_of_ne hfd _ _
  · intro c d hc
    change l.server.stage.conn? = some c at hc
    rw [hstage] at hc
    cases hc
  · intro c hc
    show ((l.server.accept fd).conns c).fd ∉ _
    rcases Nat.lt_succ_iff_lt_or_eq.mp hc with hc | rfl
    · rw [hold c hc.ne]
      exact h.apart c hc
    · rw [hnew]
      exact hnotwatched

/-- close_conn takes the descriptor off the interest list and off the table. -/
theorem release (h : Watched fds l) (htabled : Tabled l.server)
    (hclosing : DescriptorClosing.ServerClosing fds l.server) {write : Bool}
    (hstage : l.server.stage = .releasing c write) :
    Watched fds { l.epollDel (l.server.conns c).fd with
      server := (l.server.release c).goto (.after c write) } := by
  have hpolls : Polls l.server.stage := polls_of_eq hstage trivial
  have hserving := serving_of_polls hpolls
  have hmade : c < l.server.accepted := htabled.made c (by rw [hstage]; rfl)
  have hmine := htabled.lookup_leaver hserving hmade (by rw [hstage]; rfl)
  have hnotwatched := not_watched htabled hclosing hpolls hmine
  refine ⟨?_, ?_, ?_, ?_, ?_⟩
  · intro _ fd
    show (Function.update l.interest (l.server.conns c).fd none fd).isSome = true ↔
      _ ∨ ((l.server.connections.erase (l.server.conns c).fd).lookup fd).isSome = true
    by_cases hfd : fd = (l.server.conns c).fd
    · rw [hfd, Function.update_self, AList.lookup_erase]
      simp [hnotwatched]
    · rw [Function.update_of_ne hfd, AList.lookup_erase_ne hfd]
      exact h.registered hpolls fd
  · intro _ fd hin
    have hfd : fd ≠ (l.server.conns c).fd := fun heq => hnotwatched (heq ▸ hin)
    exact (Function.update_of_ne hfd _ _).trans (h.plain hpolls fd hin)
  · intro _ fd d hin _
    obtain ⟨hfd, hbefore⟩ := Tabled.lookup_release.mp hin
    have hidle : busy? l.server.stage ≠ some d := by
      rw [hstage]
      intro hbusy
      cases hbusy
      exact hfd (htabled.key fd c hbefore).2.symm
    refine (h.covered hpolls fd d hbefore hidle).keep ?_ rfl ?_ fun e he _ _ => he
    · exact Function.update_of_ne hfd _ _
    · exact fun hlisted => (Function.update_of_ne hfd _ _).trans hlisted
  · intro d d' hd hin
    rw [Stage.conn?_after hd] at hin
    exact absurd rfl (Tabled.lookup_release.mp hin).1
  · exact h.apart

/-- run takes an event off the batch. -/
theorem dispatch (h : Watched fds l) (htabled : Tabled l.server)
    (hclosing : DescriptorClosing.ServerClosing fds l.server) {e : Event} {rest : List Event}
    (hstage : l.server.stage = .polling) (hbatch : l.batch = e :: rest) :
    Watched fds { l with
      server := l.server.dispatch fds e.fd e.error e.input e.output
      batch := if e.fd = fds.fd .signal then [] else rest
      notified := false } := by
  have hpolls : Polls l.server.stage := polls_of_eq hstage trivial
  obtain ⟨hconns, haccepted⟩ := dispatch_conns fds l.server e
  refine h.frame (fun _ => hpolls) rfl ?_ dispatch_connections haccepted (fun c => by rw [hconns])
    ?_ ?_
  · intro hstill fd c hlookup hidle hcov
    show Covered _ fd ((l.server.dispatch fds e.fd e.error e.input e.output).conns c).outBuf
    rw [hconns]
    refine hcov.keep rfl rfl id fun e' he' hfd hout => ?_
    have hsignal : e.fd ≠ fds.fd .signal := fun heq => not_signal_of_polls heq hstill
    show e' ∈ if e.fd = fds.fd .signal then [] else rest
    rw [if_neg hsignal]
    rw [hbatch] at he'
    rcases List.mem_cons.mp he' with rfl | hin
    · subst hfd
      exact absurd (busy?_dispatch (not_watched htabled hclosing hpolls hlookup) hlookup hout) hidle
    · exact hin
  · intro fd c _ hbusy
    rw [hstage] at hbusy
    cases hbusy
  · intro c d hc hlookup
    have hfound := conn?_dispatch hstage hc
    rw [(htabled.key _ _ hfound).2, hfound] at hlookup
    exact (Option.some.inj hlookup).symm

theorem turn (h : Watched fds l) (htabled : Tabled l.server) {stage : Stage}
    (hturn : QuietTurn l.server stage) : Watched fds { l with server := l.server.goto stage } := by
  cases hturn with
  | acceptFails hstage =>
    refine h.stay rfl rfl (fun _ => id) rfl rfl rfl (fun _ => rfl) (fun _ _ => rfl)
      (fun _ => polls_of_eq hstage trivial) ?_ nofun
    intro fd c _ hbusy
    rw [hstage] at hbusy
    cases hbusy
  | @wouldBlock c write hstage =>
    refine h.stay rfl rfl (fun _ => id) rfl rfl rfl (fun _ => rfl) (fun _ _ => rfl)
      (fun _ => polls_of_eq hstage trivial) ?_ ?_
    · intro fd d _ hbusy
      rw [hstage] at hbusy
      show busy? (.after c write) = some d
      cases write with
      | true => exact hbusy
      | false => cases hbusy
    · intro d hd
      rw [hstage, Stage.conn?_after hd]
      rfl
  | @ended c write hstage =>
    refine h.stay rfl rfl (fun _ => id) rfl rfl rfl (fun _ => rfl) (fun _ _ => rfl)
      (fun _ => polls_of_eq hstage trivial) ?_ ?_
    · intro fd d _ hbusy
      rw [hstage] at hbusy
      show some c = some d
      cases write with
      | true => exact hbusy
      | false => cases hbusy
    · intro d hd
      rw [hstage]
      exact hd
  | @unfinished c write hstage =>
    refine h.goes (.reading c write) rfl rfl (fun _ => id) rfl rfl rfl (fun _ => rfl)
      (fun _ _ => rfl) rfl (by rw [hstage]; rfl) rfl ?_
    rw [hstage]
    cases write <;> rfl
  | @failed c hstage =>
    exact h.goes (.closing c false) rfl rfl (fun _ => id) rfl rfl rfl (fun _ => rfl)
      (fun _ _ => rfl) rfl (by rw [hstage]; rfl) rfl (by rw [hstage]; rfl)
  | @closed c write hstage hclosed =>
    have hpolls : Polls l.server.stage := polls_of_eq hstage trivial
    have hmade : c < l.server.accepted := htabled.made c (by rw [hstage]; rfl)
    refine h.stay rfl rfl (fun _ => id) rfl rfl rfl (fun _ => rfl) (fun _ _ => rfl)
      (fun _ => hpolls) ?_ ?_
    · -- A connection that is closed already is not in the table.
      intro fd d hlookup hbusy
      rw [hstage] at hbusy
      cases hbusy
      have hopen := (htabled.mapped (serving_of_polls hpolls) c hmade).mp
        (htabled.lookup_self hlookup)
      rw [hclosed, hstage] at hopen
      rcases hopen with hopen | hopen <;> cases hopen
    · intro d hd
      rw [hstage, Stage.conn?_after hd]
      rfl
  | fails hstage => exact h.stopped id rfl rfl
  | stops hserving =>
    exact h.stopped (fun hpolls => hserving (serving_of_polls hpolls)) rfl rfl

theorem init : Watched fds (Loop.init fds : Loop W) where
  registered _ fd := by
    show (if _ then some false else none).isSome = true ↔ _ ∨ (none : Option ConnId).isSome = true
    simp [watchedFds]
  plain _ fd hfd := by
    simp only [watchedFds, List.mem_cons, List.not_mem_nil, or_false] at hfd
    exact if_pos hfd
  covered _ _ _ hlookup := nomatch hlookup
  own _ _ hc := nomatch hc
  apart _ hc := absurd hc (Nat.not_lt_zero _)

/-- What the kernel does by itself. -/
theorem kernel (h : Watched fds l) (hserver : m.server = l.server)
    (hinterest : m.interest = l.interest)
    (hcov : ∀ fd outBuf, Covered l fd outBuf → Covered m fd outBuf) : Watched fds m := by
  refine h.frame ?_ hinterest ?_ ?_ ?_ ?_ ?_ ?_
  · rw [hserver]
    exact id
  · intro _ fd c _ _ hbefore
    rw [hserver]
    exact hcov fd _ hbefore
  · rw [hserver]
  · rw [hserver]
  · rw [hserver]
    exact fun _ => rfl
  · rw [hserver]
    exact fun _ _ _ => id
  · rw [hserver]
    exact h.own

/-- What the threads do beside the connection that the main thread works on. -/
theorem beside (h : Watched fds l) (hstage : m.server.stage = l.server.stage)
    (hinterest : m.interest = l.interest) (hwritable : m.writable = l.writable)
    (hready : ∀ fd, l.ready fd = true → m.ready fd = true) (hbatch : m.batch = l.batch)
    (hconnections : m.server.connections = l.server.connections)
    (haccepted : m.server.accepted = l.server.accepted)
    (hfd : ∀ c, (m.server.conns c).fd = (l.server.conns c).fd)
    (hout : ∀ c, (m.server.conns c).outBuf = (l.server.conns c).outBuf) : Watched fds m := by
  refine h.stay hinterest hwritable hready hbatch hconnections haccepted hfd (fun c _ => hout c)
    ?_ ?_ ?_
  · rw [hstage]
    exact id
  · rw [hstage]
    exact fun _ _ _ => id
  · rw [hstage]
    exact fun _ => id

theorem data (h : Watched fds l) {write : Bool} (chunk : Bytes)
    (hstage : l.server.stage = .reading c write) :
    Watched fds { l with server := (l.server.setConn c { l.server.conns c with
      inBuf := (l.server.conns c).inBuf ++ chunk
      received := (l.server.conns c).received ++ chunk }).goto (.splitting c write) } := by
  refine h.goes (.splitting c write) rfl rfl (fun _ => id) rfl rfl rfl
    (l.server.setConn_same Connection.fd rfl) (fun d _ => ?_) rfl (by rw [hstage]; rfl) rfl ?_
  · refine l.server.setConn_same Connection.outBuf ?_ d
    rfl
  · rw [hstage]
    cases write <;> rfl

theorem login (h : Watched fds l) (name rest : Bytes) (taken : ℕ) :
    Watched fds { (l.reply c validMessage taken).writeNotify fds with
      server := ({ l.server with usernames := insert name l.server.usernames }.setConn c
        { l.server.conns c with
          inBuf := rest
          entered := (l.server.conns c).entered ++ [name]
          username := name
          state := .active }).queueBroadcastMessage (joinMessage name) none none } := by
  obtain ⟨hinterest, hwritable, hbatch⟩ := writeNotify_same fds (l.reply c validMessage taken)
  have hready : ∀ fd, l.ready fd = true →
      ((l.reply c validMessage taken).writeNotify fds).ready fd = true :=
    fun fd hlisted => ready_writeNotify (l := l.reply c validMessage taken) hlisted
  exact h.beside rfl hinterest hwritable hready hbatch rfl rfl
    (l.server.setConn_same Connection.fd rfl) (l.server.setConn_same Connection.outBuf rfl)

/-- EPOLLOUT stays set exactly if handle_write has left something. -/
theorem written (h : Watched fds l) (htabled : Tabled l.server)
    (hstage : l.server.stage = .writing c) {output : Bool}
    (houtput : output = !(l.server.conns c).outBuf.isEmpty) :
    Watched fds { l.epollMod (l.server.conns c).fd output with
      server := l.server.goto .polling } := by
  subst houtput
  exact h.modify htabled hstage rfl rfl rfl epollMod_same.1 epollMod_same.2

theorem sent (h : Watched fds l) (count : ℕ) (hstage : l.server.stage = .writing c) :
    Watched fds { l.transmit c ((l.server.conns c).outBuf.take count) with
      server := l.server.setConn c { l.server.conns c with
        outBuf := (l.server.conns c).outBuf.drop count
        sent := (l.server.conns c).sent ++ (l.server.conns c).outBuf.take count } } := by
  refine h.goes (.writing c) rfl rfl (fun _ => id) rfl rfl rfl
    (l.server.setConn_same Connection.fd rfl) (fun d hd => ?_) hstage (by rw [hstage]; rfl) rfl
    (by rw [hstage])
  have hne : d ≠ c := by
    rintro rfl
    exact hd rfl
  exact congrArg Connection.outBuf (l.server.setConn_of_ne hne _)

theorem exchange (h : Watched fds l) {write : Bool} (hstage : l.server.stage = .closing c write) :
    Watched fds { l with
      server := (l.server.setConn c
        { l.server.conns c with closed := true }).goto (.leaving c write) } := by
  refine h.goes (.leaving c write) rfl rfl (fun _ => id) rfl rfl rfl
    (l.server.setConn_same Connection.fd rfl) (fun d _ => ?_) rfl (by rw [hstage]; rfl) rfl
    (by rw [hstage]; rfl)
  refine l.server.setConn_same Connection.outBuf ?_ d
  rfl

theorem leave (h : Watched fds l) {write : Bool} (hstage : l.server.stage = .leaving c write) :
    Watched fds { l.writeNotify fds with
      server := (l.server.leave c).goto (.releasing c write) } := by
  obtain ⟨hinterest, hwritable, hbatch⟩ := writeNotify_same fds l
  obtain ⟨hconns, haccepted⟩ := leave_conns l.server c
  have hconnections : (l.server.leave c).connections = l.server.connections := by
    unfold Server.leave
    split <;> rfl
  refine h.goes (.releasing c write) hinterest hwritable (fun _ => ready_writeNotify)
    hbatch hconnections haccepted (fun d => ?_) (fun d _ => ?_) rfl (by rw [hstage]; rfl) rfl
    (by rw [hstage]; rfl)
  · exact congrArg (fun conns => (conns d).fd) hconns
  · exact congrArg (fun conns => (conns d).outBuf) hconns

theorem step [DecidableEq W] (h : Watched fds l) (htabled : Tabled l.server)
    (hclosing : DescriptorClosing.ServerClosing fds l.server) (hsteps : Steps fds l m) :
    Watched fds m := by
  cases hsteps with
  | dispatch hstage hbatch _ => exact h.dispatch htabled hclosing hstage hbatch
  | turn hturn => exact h.turn htabled hturn
  | deliver hstage => exact h.deliver htabled hstage hclosing
  | accept taken hstage hfree => exact h.accept htabled hclosing taken hstage hfree
  | data chunk hstage => exact h.data chunk hstage
  | login name rest taken _ _ => exact h.login name rest taken
  | refused name rest taken _ _ | chat line rest task _ _ =>
    exact h.beside rfl rfl rfl (fun _ => id) rfl rfl rfl (l.server.setConn_same Connection.fd rfl)
      (l.server.setConn_same Connection.outBuf rfl)
  | written hstage hempty =>
    exact h.written htabled hstage (by rw [hempty]; rfl)
  | wouldBlock hstage hleft =>
    exact h.written htabled hstage (by rw [List.isEmpty_eq_false_iff.mpr hleft]; rfl)
  | sent count hstage => exact h.sent count hstage
  | exchange hstage => exact h.exchange hstage
  | leave hstage => exact h.leave hstage
  | @leaveNameless c write hstage =>
    exact h.goes (.releasing c write) rfl rfl (fun _ => id) rfl rfl rfl (fun _ => rfl)
      (fun _ _ => rfl) rfl (by rw [hstage]; rfl) rfl (by rw [hstage]; rfl)
  | release hstage => exact h.release htabled hclosing hstage
  | stop hserving hconns haccepted _ _ =>
    exact h.stopped (fun hpolls => hserving (serving_of_polls hpolls)) hconns haccepted
  | shutdown _ => exact h.stopped id rfl rfl
  | workerTurn _ | take _ | push _ _ | otherOpens _ | otherCloses _ =>
    exact h.beside rfl rfl rfl (fun _ => id) rfl rfl rfl (fun _ => rfl) fun _ => rfl
  | wait _ hbatch hreports => exact h.kernel rfl rfl fun _ _ hcov => hcov.wait hbatch hreports
  | readNotify _ _ => exact h.kernel rfl rfl fun _ _ hcov => hcov
  | notify _ =>
    obtain ⟨hinterest, hwritable, hbatch⟩ := writeNotify_same fds l
    refine h.kernel (Loop.server_writeNotify ..) hinterest fun fd outBuf hcov => ?_
    refine hcov.keep (congrFun hinterest fd) (congrFun hwritable fd) ready_writeNotify ?_
    exact fun e he _ _ => hbatch ▸ he
  | wake =>
    obtain ⟨hinterest, hwritable, hbatch⟩ := wake_same l _
    refine h.kernel (Loop.server_wake ..) hinterest fun fd outBuf hcov => ?_
    refine hcov.keep (congrFun hinterest fd) (congrFun hwritable fd) ready_wake ?_
    exact fun e he _ _ => hbatch ▸ he
  | forget hnothing _ => exact h.kernel rfl rfl fun _ _ hcov => hcov.forget hnothing
  | @drained fd' hset =>
    have hinterest := (wake_same { l with writable := Function.update l.writable fd' true } fd').1
    exact h.kernel (Loop.server_wake ..) hinterest fun _ _ hcov => hcov.drained hset
  | drainedUnwatched hunset => exact h.kernel rfl rfl fun _ _ hcov => hcov.drainedUnwatched hunset
  | filled => exact h.kernel rfl rfl fun _ _ hcov => hcov.filled

end Watched

/-- Every write to the eventfd will be seen, and every message has one behind it. -/
structure Awake (fds : ServerFds) (l : Loop W) : Prop where
  counted : Polls l.server.stage → 0 < l.counter → l.ready (fds.fd .notify) = true ∨
    (l.notified = false ∧ ∃ e ∈ l.batch, e.fd = fds.fd .notify)
  reading : Polls l.server.stage → l.notified = true →
    ∃ e rest, l.batch = e :: rest ∧ e.fd = fds.fd .notify
  queued : Polls l.server.stage → l.server.broadcastQueue ≠ [] →
    0 < l.counter ∨ l.notified = true ∨ ∃ w, l.notifying w = true

namespace Awake

theorem frame (h : Awake fds l) (hpolls : Polls m.server.stage → Polls l.server.stage)
    (hready : l.ready (fds.fd .notify) = true → m.ready (fds.fd .notify) = true)
    (hbatch : m.batch = l.batch) (hnotified : m.notified = l.notified)
    (hcounter : m.counter = l.counter) (hnotifying : m.notifying = l.notifying)
    (hqueue : m.server.broadcastQueue = l.server.broadcastQueue) : Awake fds m where
  counted hpolls' hcount := by
    rw [hcounter] at hcount
    rw [hnotified, hbatch]
    exact (h.counted (hpolls hpolls') hcount).imp_left hready
  reading hpolls' := by
    rw [hnotified, hbatch]
    exact h.reading (hpolls hpolls')
  queued hpolls' := by
    rw [hqueue, hcounter, hnotified, hnotifying]
    exact h.queued (hpolls hpolls')

theorem stopped (hpolls : ¬ Polls m.server.stage) : Awake fds m :=
  ⟨fun hpolls' => absurd hpolls' hpolls, fun hpolls' => absurd hpolls' hpolls,
    fun hpolls' => absurd hpolls' hpolls⟩

theorem wake (h : Awake fds l) (fd : ℕ) : Awake fds (l.wake fd) := by
  obtain ⟨hnotified, hcounter, hnotifying⟩ := wake_notify l fd
  have hserver := l.server_wake fd
  exact h.frame (by rw [hserver]; exact id) ready_wake (wake_same l fd).2.2 hnotified hcounter
    hnotifying (by rw [hserver])

/-- The write fails only if the counter is at its limit, and then there was a write before. -/
theorem writeNotify (h : Awake fds l) (hwatched : Watched fds l) (hpolls : Polls l.server.stage)
    (hready : m.ready = (l.writeNotify fds).ready) (hbatch : m.batch = l.batch)
    (hnotified : m.notified = l.notified) (hcounter : m.counter = (l.writeNotify fds).counter) :
    Awake fds m := by
  have hfd : (l.interest (fds.fd .notify)).isSome = true := by
    rw [hwatched.plain hpolls (fds.fd .notify) (by simp [watchedFds])]
    rfl
  have hwritten : 0 < m.counter ∧ (m.ready (fds.fd .notify) = true ∨
      (l.notified = false ∧ ∃ e ∈ l.batch, e.fd = fds.fd .notify)) := by
    rw [hcounter, hready]
    unfold Loop.writeNotify
    split
    · refine ⟨?_, Or.inl (ready_wake_self hfd)⟩
      unfold Loop.wake
      split <;> exact Nat.succ_pos _
    · rename_i hfull
      have hcount : 0 < l.counter := by
        have hmax : 0 < eventfdMax := by decide
        omega
      exact ⟨hcount, h.counted hpolls hcount⟩
  refine ⟨fun _ _ => ?_, fun _ => ?_, fun _ _ => Or.inl hwritten.1⟩
  · rw [hnotified, hbatch]
    exact hwritten.2
  · rw [hnotified, hbatch]
    exact h.reading hpolls

theorem dispatch (h : Awake fds l) {e : Event} {rest : List Event}
    (hstage : l.server.stage = .polling) (hbatch : l.batch = e :: rest)
    (hread : e.fd = fds.fd .notify → l.notified = true) :
    Awake fds { l with
      server := l.server.dispatch fds e.fd e.error e.input e.output
      batch := if e.fd = fds.fd .signal then [] else rest
      notified := false } := by
  have hpolls : Polls l.server.stage := polls_of_eq hstage trivial
  by_cases hsignal : e.fd = fds.fd .signal
  · exact stopped (not_signal_of_polls hsignal)
  · rw [if_neg hsignal]
    refine ⟨fun _ hcount => ?_, nofun, fun _ hqueue => ?_⟩
    · rcases h.counted hpolls hcount with hlisted | ⟨hunread, e', he', hfd⟩
      · exact Or.inl hlisted
      · refine Or.inr ⟨rfl, e', ?_, hfd⟩
        rw [hbatch] at he'
        rcases List.mem_cons.mp he' with rfl | hin
        · rw [hread hfd] at hunread
          cases hunread
        · exact hin
    · have hnotify : e.fd ≠ fds.fd .notify := fun heq => hqueue (drained_dispatch heq)
      change (l.server.dispatch fds e.fd e.error e.input e.output).broadcastQueue ≠ [] at hqueue
      rw [queue_dispatch hnotify] at hqueue
      rcases h.queued hpolls hqueue with hcount | hnotified | hwriting
      · exact Or.inl hcount
      · obtain ⟨e', rest', hhead, hfd⟩ := h.reading hpolls hnotified
        rw [hbatch] at hhead
        cases hhead
        exact absurd hfd hnotify
      · exact Or.inr (Or.inr hwriting)

theorem turn (h : Awake fds l) {stage : Stage} (hturn : QuietTurn l.server stage) :
    Awake fds { l with server := l.server.goto stage } := by
  have hpolls : Polls stage → Polls l.server.stage := by
    intro hstill
    cases hturn with
    | fails _ => cases hstill
    | stops hserving => exact absurd (serving_of_polls hstill) hserving
    | acceptFails hstage | wouldBlock hstage | ended hstage | unfinished hstage | failed hstage
    | closed hstage _ => exact polls_of_eq hstage trivial
  exact h.frame hpolls id rfl rfl rfl rfl rfl

theorem init : Awake fds (Loop.init fds : Loop W) where
  counted _ hcount := absurd hcount (Nat.lt_irrefl 0)
  reading _ := nofun
  queued _ hqueue := absurd rfl hqueue

theorem beside (h : Awake fds l) (hstage : m.server.stage = l.server.stage)
    (hready : m.ready = l.ready) (hbatch : m.batch = l.batch) (hnotified : m.notified = l.notified)
    (hcounter : m.counter = l.counter) (hnotifying : m.notifying = l.notifying)
    (hqueue : m.server.broadcastQueue = l.server.broadcastQueue) : Awake fds m := by
  refine h.frame ?_ ?_ hbatch hnotified hcounter hnotifying hqueue
  · rw [hstage]
    exact id
  · rw [hready]
    exact id

theorem deliver (h : Awake fds l) {messages : List Broadcast}
    (hstage : l.server.stage = .broadcasting messages) :
    Awake fds { l.rearm messages with server := l.server.deliver messages } := by
  refine h.frame (fun _ => polls_of_eq hstage trivial) ?_ ?_ ?_ ?_ ?_ rfl
  · exact fun hlisted => Loop.rearm_keeps (P := fun m => m.ready (fds.fd .notify) = true)
      (fun _ _ => ready_epollMod) hlisted messages
  · exact Loop.rearm_same Loop.batch (fun _ _ => epollMod_same.2) l messages
  · exact Loop.rearm_same Loop.notified (fun _ _ => epollMod_notify.1) l messages
  · exact Loop.rearm_same Loop.counter (fun _ _ => epollMod_notify.2.1) l messages
  · exact Loop.rearm_same Loop.notifying (fun _ _ => epollMod_notify.2.2) l messages

theorem accept (h : Awake fds l) (fd taken : ℕ) :
    Awake fds { (l.epollAdd fd).reply l.server.accepted welcomeMessage taken with
      server := l.server.accept fd } := by
  have hadd : (l.epollAdd fd).ready = l.ready ∧ (l.epollAdd fd).batch = l.batch ∧
      (l.epollAdd fd).notified = l.notified ∧ (l.epollAdd fd).counter = l.counter ∧
      (l.epollAdd fd).notifying = l.notifying := by
    unfold Loop.epollAdd
    split <;> exact ⟨rfl, rfl, rfl, rfl, rfl⟩
  obtain ⟨hready, hbatch, hnotified, hcounter, hnotifying⟩ := hadd
  exact h.beside rfl hready hbatch hnotified hcounter hnotifying rfl

/-- The eventfd stays where it is when a connection is taken off. -/
theorem release (h : Awake fds l) (hwatched : Watched fds l) (htabled : Tabled l.server)
    {write : Bool} (hstage : l.server.stage = .releasing c write) :
    Awake fds { l.epollDel (l.server.conns c).fd with
      server := (l.server.release c).goto (.after c write) } := by
  have hmade : c < l.server.accepted := htabled.made c (by rw [hstage]; rfl)
  have hne : fds.fd .notify ≠ (l.server.conns c).fd := by
    intro heq
    refine hwatched.apart c hmade ?_
    rw [← heq]
    simp [watchedFds]
  refine h.frame (fun _ => polls_of_eq hstage trivial) ?_ rfl rfl rfl rfl rfl
  exact fun hlisted => (Function.update_of_ne hne _ _).trans hlisted

/-- What epoll_wait takes off the ready list is in the batch. -/
theorem wait (h : Awake fds l) {events : List Event} (hstage : l.server.stage = .polling)
    (hbatch : l.batch = []) :
    Awake fds { l with
      batch := events
      ready := fun fd => l.ready fd && !(events.map Event.fd).contains fd } := by
  have hpolls : Polls l.server.stage := polls_of_eq hstage trivial
  have hunread : l.notified = false := by
    rw [← Bool.not_eq_true]
    intro hread
    obtain ⟨e, rest, hhead, _⟩ := h.reading hpolls hread
    rw [hbatch] at hhead
    cases hhead
  refine ⟨fun _ hcount => ?_, fun _ hread => ?_, h.queued⟩
  · have hlisted : l.ready (fds.fd .notify) = true := by
      rcases h.counted hpolls hcount with hlisted | ⟨_, e, he, _⟩
      · exact hlisted
      · rw [hbatch] at he
        cases he
    by_cases hin : fds.fd .notify ∈ events.map Event.fd
    · obtain ⟨e, he, hfd⟩ := List.mem_map.mp hin
      exact Or.inr ⟨hunread, e, he, hfd⟩
    · refine Or.inl ?_
      show (l.ready _ && !(events.map Event.fd).contains _) = true
      rw [hlisted, List.contains_eq_mem, decide_eq_false hin]
      rfl
  · change l.notified = true at hread
    rw [hunread] at hread
    cases hread

/-- handle_broadcasts reads the counter before it takes the queue. -/
theorem readNotify (hbatch : l.batch.head?.map Event.fd = some (fds.fd .notify)) :
    Awake fds { l with notified := true, counter := 0 } := by
  refine ⟨fun _ hcount => absurd hcount (Nat.lt_irrefl 0), fun _ _ => ?_, fun _ _ =>
    Or.inr (Or.inl rfl)⟩
  obtain ⟨e, hhead, hfd⟩ := Option.map_eq_some_iff.mp hbatch
  obtain ⟨rest, hrest⟩ := List.head?_eq_some_iff.mp hhead
  exact ⟨e, rest, hrest, hfd⟩

theorem notify [DecidableEq W] (h : Awake fds l) (hwatched : Watched fds l) (w : W) :
    Awake fds { l.writeNotify fds with notifying := Function.update l.notifying w false } := by
  by_cases hpolls : Polls l.server.stage
  · exact h.writeNotify hwatched hpolls rfl (writeNotify_same fds l).2.2
      (writeNotify_notified fds l) rfl
  · refine stopped ?_
    show ¬ Polls (l.writeNotify fds).server.stage
    rw [Loop.server_writeNotify]
    exact hpolls

/-- The eventfd is not forgotten while its counter is positive. -/
theorem forget (h : Awake fds l) {fd : ℕ} (hcounter : fd = fds.fd .notify → l.counter = 0) :
    Awake fds { l with ready := Function.update l.ready fd false } := by
  refine ⟨fun hpolls hcount => ?_, h.reading, h.queued⟩
  change 0 < l.counter at hcount
  by_cases hfd : fds.fd .notify = fd
  · rw [hcounter hfd.symm] at hcount
    exact absurd hcount (Nat.lt_irrefl 0)
  · refine (h.counted hpolls hcount).imp_left fun hlisted => ?_
    exact (Function.update_of_ne hfd _ _).trans hlisted

theorem step [DecidableEq W] (h : Awake fds l) (hwatched : Watched fds l)
    (htabled : Tabled l.server) (hsteps : Steps fds l m) : Awake fds m := by
  cases hsteps with
  | dispatch hstage hbatch hread => exact h.dispatch hstage hbatch hread
  | turn hturn => exact h.turn hturn
  | deliver hstage => exact h.deliver hstage
  | accept taken _ _ => exact h.accept _ taken
  | data chunk hstage =>
    exact h.frame (fun _ => polls_of_eq hstage trivial) id rfl rfl rfl rfl rfl
  | @login c write name rest taken hstage hstate =>
    rw [reply_writeNotify]
    exact h.writeNotify hwatched (polls_of_eq hstage trivial) rfl (writeNotify_same fds l).2.2
      (writeNotify_notified fds l) rfl
  | refused name rest taken _ _ | chat line rest task _ _ | sent count _ =>
    exact h.beside rfl rfl rfl rfl rfl rfl rfl
  | written hstage _ | wouldBlock hstage _ =>
    exact h.frame (fun _ => polls_of_eq hstage trivial) ready_epollMod epollMod_same.2
      epollMod_notify.1 epollMod_notify.2.1 epollMod_notify.2.2 rfl
  | exchange hstage | leaveNameless hstage =>
    exact h.frame (fun _ => polls_of_eq hstage trivial) id rfl rfl rfl rfl rfl
  | leave hstage =>
    exact h.writeNotify hwatched (polls_of_eq hstage trivial) rfl (writeNotify_same fds l).2.2
      (writeNotify_notified fds l) rfl
  | release hstage => exact h.release hwatched htabled hstage
  | stop hserving _ _ _ _ =>
    exact stopped fun hpolls => hserving (serving_of_polls hpolls)
  | shutdown _ => exact stopped id
  | workerTurn _ | take _ | otherOpens _ | otherCloses _ =>
    exact h.beside rfl rfl rfl rfl rfl rfl rfl
  | @push w task _ _ =>
    refine ⟨h.counted, h.reading, fun _ _ => Or.inr (Or.inr ⟨w, ?_⟩)⟩
    exact Function.update_self ..
  | wait hstage hbatch _ => exact h.wait hstage hbatch
  | readNotify _ hbatch => exact readNotify hbatch
  | @notify w _ => exact h.notify hwatched w
  | @wake fd => exact h.wake fd
  | forget _ hcounter => exact h.forget hcounter
  | @drained fd _ =>
    have hroom : Awake fds { l with writable := Function.update l.writable fd true } :=
      h.beside rfl rfl rfl rfl rfl rfl rfl
    exact hroom.wake fd
  | drainedUnwatched _ | filled => exact h.beside rfl rfl rfl rfl rfl rfl rfl

end Awake

section Reachable

variable [Fintype W] [DecidableEq W] {allowed : Loop W → Action W → Prop}

theorem watched (hl : Reachable (machine fds) allowed l) : Watched fds l :=
  hl.invariant_of_reachable (P := Watched fds) .init fun _ _ _ hreach h _ hnext =>
    h.step (tabled (server_reachable hreach))
      (DescriptorClosing.serverClosing (server_reachable hreach)) (next_steps hnext)

theorem awake (hl : Reachable (machine fds) allowed l) : Awake fds l :=
  hl.invariant_of_reachable (P := Awake fds) .init fun _ _ _ hreach h _ hnext =>
    h.step (watched hreach) (tabled (server_reachable hreach)) (next_steps hnext)

/-- While run waits for events, the epoll instance watches the descriptors of the server
and of the connections in the table and no others, with EPOLLOUT set exactly for the
connections that have something in `out_buf`. -/
theorem interest_exact (hl : Reachable (machine fds) allowed l)
    (hstage : l.server.stage = .polling) (fd : ℕ) :
    l.interest fd = if fd ∈ watchedFds fds then some false
      else (l.server.connections.lookup fd).map fun c => !(l.server.conns c).outBuf.isEmpty := by
  have hpolls : Polls l.server.stage := polls_of_eq hstage trivial
  have h := watched hl
  split
  · rename_i hfd
    exact h.plain hpolls fd hfd
  · rename_i hfd
    cases hlookup : l.server.connections.lookup fd with
    | none =>
      refine Option.not_isSome_iff_eq_none.mp fun hsome => ?_
      have hknown := (h.registered hpolls fd).mp hsome
      rw [hlookup] at hknown
      rcases hknown with hin | hin
      · exact hfd hin
      · cases hin
    | some c => exact (h.covered hpolls fd c hlookup (by rw [hstage]; exact nofun)).1

/-- When run waits with nothing left of its batch, bytes in `out_buf` wait for room in the
socket or for an event that is on the ready list, and when also the eventfd is quiet
and no worker is about to write to it, everything queued has been passed on. -/
theorem waiting_settled (hl : Reachable (machine fds) allowed l)
    (hstage : l.server.stage = .polling) (hbatch : l.batch = []) :
    (∀ fd c, l.server.connections.lookup fd = some c → (l.server.conns c).outBuf ≠ [] →
      l.writable fd = true → l.ready fd = true) ∧
    (l.ready (fds.fd .notify) = false → (∀ w, l.notifying w = false) →
      l.server.drains.flatMap Drain.messages = l.server.queued) := by
  have hpolls : Polls l.server.stage := polls_of_eq hstage trivial
  constructor
  · intro fd c hlookup hleft hroom
    have hcov := (watched hl).covered hpolls fd c hlookup (by rw [hstage]; exact nofun)
    rcases hcov.2 hleft hroom with hlisted | ⟨e, he, _⟩
    · exact hlisted
    · rw [hbatch] at he
      cases he
  · intro hquiet hnobody
    have h := awake hl
    have hempty : l.server.broadcastQueue = [] := by
      by_contra hqueue
      rcases h.queued hpolls hqueue with hcount | hread | ⟨w, hw⟩
      · rcases h.counted hpolls hcount with hlisted | ⟨_, e, he, _⟩
        · rw [hquiet] at hlisted
          cases hlisted
        · rw [hbatch] at he
          cases he
      · obtain ⟨e, rest, hhead, _⟩ := h.reading hpolls hread
        rw [hbatch] at hhead
        cases hhead
      · rw [hnobody w] at hw
        cases hw
    have hqueued := (ordered (server_reachable hl)).queued
    rw [hstage, hempty] at hqueued
    simpa [inProgress] using hqueued

end Reachable

section Sample

/-- The socket of amy is full, so handle_write leaves the rest for later. -/
def blockedRun : List (Action Unit) :=
  streamRun ++ [.filled 7, .server (.send .wouldBlock) 0]

theorem interest_exact_amy : ∃ l : Loop Unit, Reachable (machine sampleFds) AnyStep l ∧
    (l.server.stage = .polling ∧ l.server.connections.lookup 7 = some 0) ∧
    ∀ fd, l.interest fd = if fd ∈ watchedFds sampleFds then some false
      else (l.server.connections.lookup fd).map fun c => !(l.server.conns c).outBuf.isEmpty := by
  have hrun : (run (machine sampleFds) AnyStep (machine sampleFds).init blockedRun).any (fun l =>
      l.server.stage = .polling ∧ l.server.connections.lookup 7 = some 0) = true := by
    decide +kernel
  obtain ⟨l, hl, h⟩ := exists_reachable hrun
  exact ⟨l, hl, h, interest_exact hl h.1⟩

theorem waiting_settled_amy : ∃ l : Loop Unit, Reachable (machine sampleFds) AnyStep l ∧
    (l.server.stage = .polling ∧ l.batch = [] ∧ (l.server.conns 0).outBuf ≠ [] ∧
      l.ready 6 = false) ∧
    (∀ fd c, l.server.connections.lookup fd = some c → (l.server.conns c).outBuf ≠ [] →
      l.writable fd = true → l.ready fd = true) ∧
    (l.ready (sampleFds.fd .notify) = false → (∀ w, l.notifying w = false) →
      l.server.drains.flatMap Drain.messages = l.server.queued) := by
  have hrun : (run (machine sampleFds) AnyStep (machine sampleFds).init blockedRun).any (fun l =>
      l.server.stage = .polling ∧ l.batch = [] ∧ (l.server.conns 0).outBuf ≠ [] ∧
        l.ready 6 = false) = true := by
    decide +kernel
  obtain ⟨l, hl, h⟩ := exists_reachable hrun
  exact ⟨l, hl, h, waiting_settled hl h.1 h.2.1⟩

end Sample

end ChatServer.LineServer.EventLoop
