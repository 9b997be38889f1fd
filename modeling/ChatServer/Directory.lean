import ChatServer.LogicThread

/-!
The directory of online users. Everyone who is logged in is listed under the
current name, so names are unique; this holds in every run. The converse, that
every entry is somebody's current name, needs that nobody logs in twice: the
second LoginRequest of a session overwrites its name and leaves the entry of
the first one behind, and a later HandleDisconnect only erases the second.
-/
namespace ChatServer.Directory

open LogicThread Lib.Seating Lib.Runs

variable {parse : Parser} {allowed : World → Action → Prop} {w : World}

/-- No LoginRequest is accepted on a session that is logged in. -/
def LoginOnce (parse : Parser) (w : World) (a : Action) : Prop :=
  ∀ login ∈ acceptedLogin parse w a, login.2.1.isLoggedIn = false

instance (w : World) (a : Action) : Decidable (LoginOnce parse w a) :=
  inferInstanceAs (Decidable (∀ login ∈ acceptedLogin parse w a, login.2.1.isLoggedIn = false))

theorem listed (hw : Reachable (machine parse) allowed w) :
    Listed w.tables.dir w.tables.seats := by
  refine hw.invariant_of_reachable (P := fun w => Listed w.tables.dir w.tables.seats) ?_ ?_
  · intro conn n ⟨room, hseat⟩
    cases hseat
  · intro w a w' hw h _ hnext
    cases next_effect (Orderly.reachable hw) hnext with
    | same htables =>
      rw [htables]
      exact h
    | login conn s name haccepts htables =>
      rw [htables]
      exact h.enter (acceptedLogin_spec haccepts).2.2 _
    | join conn name old new hseat htables =>
      rw [htables]
      exact h.move ⟨old, hseat⟩ new
    | leave conn name old hseat htables =>
      rw [htables]
      exact h.leave ⟨old, hseat⟩

theorem current (hw : Reachable (machine parse) (LoginOnce parse) w) :
    Current w.tables.dir w.tables.seats := by
  refine hw.invariant_of_reachable (P := fun w => Current w.tables.dir w.tables.seats) ?_ ?_
  · intro conn n hdir
    cases hdir
  · intro w a w' hw h honce hnext
    have horderly := Orderly.reachable hw
    cases next_effect horderly hnext with
    | same htables =>
      rw [htables]
      exact h
    | login conn s name haccepts htables =>
      have habsent : w.present conn = none := by
        obtain ⟨hopen, hsession, _⟩ := acceptedLogin_spec haccepts
        have hgone := horderly.not_gone_of_open hopen
        have hseat : s.seat = none := ChatSession.seat_of_not_loggedIn (honce _ haccepts)
        rw [World.present_of_not_gone hgone, ChatApp.seats_of_session hsession, hseat]
      rw [htables]
      exact h.enter habsent _
    | join conn name old new hseat htables =>
      rw [htables]
      exact h.move ⟨old, hseat⟩ new
    | leave conn name old hseat htables =>
      rw [htables]
      exact h.leave ⟨old, hseat⟩

/-- In every run a logged-in session is listed under its name; hence names are
unique, and a disconnect erases the entry of nobody else. -/
theorem usernames_unique (parse : Parser) (w : World)
    (hw : Reachable (machine parse) AnyStep w) :
    (∀ c s, LiveSession w c s → w.app.onlineUsers s.username = some c) ∧
    (∀ c d s t, LiveSession w c s → LiveSession w d t → s.username = t.username → c = d) ∧
    ∀ env evt rest, w.eventQueue = evt :: rest → evt.type = .disconnect →
      ∀ d t, d ≠ evt.conn → LiveSession w d t →
        (w.app.handleDisconnect env evt.conn).1.onlineUsers t.username = some d := by
  have hlisted := listed hw
  have hregistered : ∀ c s, LiveSession w c s → w.app.onlineUsers s.username = some c :=
    fun c s hs => hlisted c s.username ⟨_, hs.present⟩
  refine ⟨hregistered, ?_, ?_⟩
  · intro c d s t hs ht hname
    have hd : Holds w.present d s.username := holds_present_iff.mpr ⟨t, ht, hname.symm⟩
    exact hlisted.unique ⟨_, hs.present⟩ hd
  · intro env evt rest hqueue htype d t hd ht
    have hnot := (Orderly.reachable hw).not_gone_of_disconnect hqueue htype
    rcases ChatApp.handleDisconnect_tables w.app env evt.conn with
      ⟨n, room, hseat, htables⟩ | ⟨_, hsame⟩
    · have hdir : (w.app.handleDisconnect env evt.conn).1.onlineUsers =
          Function.update w.app.onlineUsers n none := congrArg ChatApp.Tables.dir htables
      have hne : t.username ≠ n := by
        intro hname
        have hholds : Holds w.present evt.conn t.username := by
          refine ⟨room, ?_⟩
          rw [World.present_of_not_gone hnot, hseat, hname]
        exact hd (hlisted.unique ⟨_, ht.present⟩ hholds)
      rw [hdir, Function.update_of_ne hne]
      exact hregistered d t ht
    · rw [hsame]
      exact hregistered d t ht

/-- A logged-in connection, and the DISCONNECT event of another one. -/
theorem usernames_unique_sample :
    ∃ w, Reachable (machine sampleParser) AnyStep w ∧ w.app.onlineUsers "a" = some 0 ∧
      (w.app.handleDisconnect sampleEnv 1).1.onlineUsers "a" = some 0 := by
  have hrun : (run (machine sampleParser) AnyStep World.init
      (requests 0 [[0x0A, 3, 0x0A, 1, 0x61]] ++ requests 1 [] ++
        [.reactorClose 1, .reactorPush])).any (fun w =>
      w.eventQueue = [⟨.disconnect, 1, none⟩] ∧ w.gone 0 = false ∧
        (w.app.userData 0).map (fun s => (s.isLoggedIn, s.username)) = some (true, "a")) := by
    decide +kernel
  obtain ⟨w, hw, hqueue, hgone, hv⟩ := exists_reachable hrun
  simp only [Prod.mk.injEq, Option.map_eq_some_iff] at hv
  obtain ⟨s, hs, hin, hname⟩ := hv
  have hlive : LiveSession w 0 s := ⟨hs, hin, hgone⟩
  obtain ⟨hregistered, _, hothers⟩ := usernames_unique sampleParser w hw
  have hdir := hregistered 0 s hlive
  have hkept := hothers sampleEnv _ _ hqueue rfl 0 s (by decide) hlive
  rw [hname] at hdir hkept
  exact ⟨w, hw, hdir, hkept⟩

/-- In a run without second logins every entry of the directory is the current
name of a live session. So no entry refers to a connection whose DISCONNECT
event was processed, and a name that no live session has can be claimed. -/
theorem directory_current (parse : Parser) (w : World)
    (hw : Reachable (machine parse) (LoginOnce parse) w) :
    (∀ n c, w.app.onlineUsers n = some c → ∃ s, LiveSession w c s ∧ s.username = n) ∧
    (∀ n c, w.gone c = true → w.app.onlineUsers n ≠ some c) ∧
    ∀ n, n ≠ "" → (∀ c s, LiveSession w c s → s.username ≠ n) →
      ∀ d t, (w.app.handleLogin d t ⟨n⟩).1.onlineUsers n = some d := by
  have hentry : ∀ n c, w.app.onlineUsers n = some c → ∃ s, LiveSession w c s ∧ s.username = n :=
    fun n c hdir => holds_present_iff.mp (current hw c n hdir)
  refine ⟨hentry, ?_, ?_⟩
  · intro n c hgone hdir
    obtain ⟨s, hs, _⟩ := hentry n c hdir
    have hnot := hs.notGone
    rw [hgone] at hnot
    cases hnot
  · intro n hn hfree d t
    have hnone : w.app.onlineUsers n = none := by
      cases hdir : w.app.onlineUsers n with
      | none => rfl
      | some c =>
        obtain ⟨s, hs, hname⟩ := hentry n c hdir
        exact absurd hname (hfree c s hs)
    simp [ChatApp.handleLogin, hnone, hn]

/-- One login on a connection that is then closed: the name can be claimed again. -/
theorem directory_current_sample :
    ∃ w, Reachable (machine sampleParser) (LoginOnce sampleParser) w ∧ w.gone 0 = true ∧
      w.app.onlineUsers "a" ≠ some 0 := by
  have hrun : (run (machine sampleParser) (LoginOnce sampleParser) World.init
      (requests 0 [[0x0A, 3, 0x0A, 1, 0x61]] ++
        [.reactorClose 0, .reactorPush, .process sampleEnv])).any
      (fun w => w.gone 0 = true) := by
    decide +kernel
  obtain ⟨w, hw, hgone⟩ := exists_reachable hrun
  exact ⟨w, hw, hgone, (directory_current sampleParser w hw).2.1 "a" 0 hgone⟩

/-- Two logins on one connection, which is then closed: the first name stays
listed and cannot be claimed any more. -/
theorem directory_stale :
    ∃ w, Reachable (machine sampleParser) AnyStep w ∧
      w.gone 0 = true ∧ w.app.onlineUsers "a" = some 0 := by
  have hrun : (run (machine sampleParser) AnyStep World.init
      (requests 0 [[0x0A, 3, 0x0A, 1, 0x61], [0x0A, 3, 0x0A, 1, 0x62]] ++
        [.reactorClose 0, .reactorPush, .process sampleEnv])).any
      (fun w => w.gone 0 = true ∧ w.app.onlineUsers "a" = some 0) := by
    decide +kernel
  exact exists_reachable hrun

end ChatServer.Directory
