import ChatServer.MessageTasks

/-!
The release of usernames in the third version. A login tests `closed` with the
connection's mutex and inserts the name with `app_mtx_`; OnClientDisconnect
takes only `app_mtx_`, so it may come between the test and the insertion, or
between the insertion and the assignment of the username. In both cases it
finds no username, and the name stays in the set for good.
-/
namespace ChatServer.MessageTasks.UsernameRelease

open Lib.Runs

section Stages

variable {C : Type*}

/-- A hook is running. A thread that is only at the test of close_conn is not counted. -/
def inHook : Stage C → Bool
  | .idle => false
  | .reading _ => false
  | .calling [.close _] => false
  | _ => true

/-- The message whose name is to be inserted next. -/
def inserts : Stage C → Option (Message C)
  | .login m => some m
  | _ => none

/-- The name is in the set and not yet the username of the connection. -/
def inserted : Stage C → Bool
  | .accepted _ => true
  | _ => false

/-- The connection for which OnClientDisconnect is at its region. -/
def leaves : Stage C → Option C
  | .leaving c => some c
  | _ => none

theorem not_accepted_of_logsIn {stage : Stage C} (h : stage.logsIn = none) (m : Message C) :
    stage ≠ .accepted m := by
  rintro rfl
  cases h

end Stages

variable {C W : Type*}

/-- Every username in the set belongs to a connection for which OnClientDisconnect
has not run, and a name whose connections are all gone is free again. -/
structure Released (s : Server C W) : Prop where
  held : (∀ t, inHook (s.stage t) = false) →
    ∀ name ∈ s.usernames, ∃ c, (s.conns c).username = name ∧ (s.conns c).disconnected = false
  again : (∀ t, inHook (s.stage t) = false) → ∀ name, name ≠ [] →
    (∀ c, (s.conns c).username = name → (s.conns c).disconnected = true) → s.Free name

/-- No name is inserted for a connection that OnClientDisconnect has left, and
OnClientDisconnect does not look at the username of a connection between the
insertion and the assignment of its name. -/
def Undisturbed (s : Server C W) : Action C W → Prop
  | .insert w => ∀ m ∈ inserts (s.stage (.worker w)), s.Free m.raw →
      (s.conns m.conn).disconnected = false
  | .disconnect t => ∀ c ∈ leaves (s.stage t), ∀ u ∈ s.mtx c, inserted (s.stage u) = false
  | _ => True

instance (s : Server C W) : ∀ a, Decidable (Undisturbed s a)
  | .insert w => inferInstanceAs (Decidable (∀ m ∈ inserts (s.stage (.worker w)), s.Free m.raw →
      (s.conns m.conn).disconnected = false))
  | .disconnect t => inferInstanceAs (Decidable (∀ c ∈ leaves (s.stage t), ∀ u ∈ s.mtx c,
      inserted (s.stage u) = false))
  | .tick _ | .read _ | .decode _ | .readDone _ | .hangUp _ | .take _ | .lock _ | .assign _
  | .call _ => isTrue trivial

/-- The threads that are in a region of a connection's mutex hold it. -/
def Locked (s : Server C W) : Prop := ∀ t c, (s.stage t).holds = some c → s.mtx c = some t

section Mutex

variable [DecidableEq C] [DecidableEq W] {s : Server C W} {t : Thread W} {c : C} {stage : Stage C}

theorem Locked.acquire (h : Locked s) (hfree : s.mtx c = none) (hstage : stage.holds = some c) :
    Locked ((s.setMtx c (some t)).goto t stage) := by
  intro v d hv
  change (Function.update s.stage t stage v).holds = some d at hv
  change Function.update s.mtx c (some t) d = some v
  rw [Function.update_apply] at hv ⊢
  split at hv
  · rename_i heq
    have hd : d = c := Option.some.inj (hv.symm.trans hstage)
    rw [if_pos hd, heq]
  · have hd : d ≠ c := by
      rintro rfl
      cases hfree.symm.trans (h v d hv)
    rw [if_neg hd]
    exact h v d hv

theorem Locked.release (h : Locked s) (hheld : (s.stage t).holds = some c)
    (hstage : stage.holds = none) : Locked ((s.setMtx c none).goto t stage) := by
  intro v d hv
  change (Function.update s.stage t stage v).holds = some d at hv
  change Function.update s.mtx c none d = some v
  rw [Function.update_apply] at hv ⊢
  split at hv
  · cases hv.symm.trans hstage
  · rename_i hne
    have hd : d ≠ c := by
      rintro rfl
      exact hne (Option.some.inj ((h v d hv).symm.trans (h t d hheld)))
    rw [if_neg hd]
    exact h v d hv

omit [DecidableEq C] in
/-- A thread goes on without a lock or an unlock. -/
theorem Locked.goto (h : Locked s) (hstage : stage.holds = none ∨ stage.holds = (s.stage t).holds) :
    Locked (s.goto t stage) := by
  intro v d hv
  change (Function.update s.stage t stage v).holds = some d at hv
  rw [Function.update_apply] at hv
  split at hv
  · rename_i heq
    rcases hstage with hnone | hsame
    · cases hv.symm.trans hnone
    · exact heq ▸ h t d (hsame ▸ hv)
  · exact h v d hv

/-- A thread that did not hold the mutex takes it and gives it back. -/
theorem Locked.visit (h : Locked s) (hfree : s.mtx c = none) (hstage : stage.holds = none) :
    Locked ((s.setMtx c none).goto t stage) := by
  have hsame : s.setMtx c none = s := by
    unfold Server.setMtx
    rw [← hfree, Function.update_eq_self]
  rw [hsame]
  exact h.goto (Or.inl hstage)

end Mutex

/-- A name in the set is the username of a connection that has not been left, or it
is about to be. -/
def Held (s : Server C W) (name : Text) : Prop :=
  ∃ c, (s.conns c).disconnected = false ∧
    ((s.conns c).username = name ∨ ∃ t m, s.stage t = .accepted m ∧ m.conn = c ∧ m.raw = name)

structure Tracked (s : Server C W) : Prop where
  locked : Locked s
  unnamed : ∀ c, (s.conns c).state = .awaitingUsername → (s.conns c).username = []
  waiting : ∀ t c, (s.stage t).logsIn = some c → (s.conns c).state = .awaitingUsername
  nonempty : [] ∉ s.usernames
  held : ∀ name ∈ s.usernames, Held s name

/-- What the results here are about. -/
def identity (conn : Connection) : Text × ConnState × Bool :=
  (conn.username, conn.state, conn.disconnected)

theorem identity_received {conn : Connection} {now : ℚ} {m : Message C}
    {r : Connection × Stage C} (h : Received conn now m r) : identity r.1 = identity conn := by
  cases h <;> rfl

theorem identity_enqueue (conn : Connection) (msg : Text) :
    identity (conn.enqueue msg) = identity conn := by
  unfold Connection.enqueue
  split <;> rfl

/-- OnMessageRecv keeps the mutex only for a login. -/
theorem stage_received {conn : Connection} {now : ℚ} {m : Message C} {r : Connection × Stage C}
    (h : Received conn now m r) : (r.2.holds = none ∧ r.2.logsIn = none) ∨
      (r.2 = .login m ∧ conn.state = .awaitingUsername) := by
  cases h with
  | closed _ => exact Or.inl ⟨rfl, rfl⟩
  | spam _ _ => exact Or.inl ⟨rfl, rfl⟩
  | username _ _ hstate => exact Or.inr ⟨rfl, hstate⟩
  | chat _ _ _ => exact Or.inl ⟨rfl, rfl⟩

namespace Tracked

variable [DecidableEq C] [DecidableEq W] {s u : Server C W} {t : Thread W} {w : W}
  {m : Message C} {c : C} {stage : Stage C}

omit [DecidableEq C] [DecidableEq W] in
theorem init (fd : C → ℕ) : Tracked (Server.init fd : Server C W) :=
  ⟨nofun, fun _ _ => rfl, nofun, Finset.notMem_empty [],
    fun _ hname => absurd hname (Finset.notMem_empty _)⟩

omit [DecidableEq C] in
/-- A thread goes on that has no name inserted, and the usernames stay. -/
theorem move (h : Tracked s) (hids : ∀ c, identity (u.conns c) = identity (s.conns c))
    (hnames : u.usernames = s.usernames) (hstage : u.stage = Function.update s.stage t stage)
    (hout : ∀ m, s.stage t ≠ .accepted m)
    (hlogin : ∀ c, stage.logsIn = some c → (s.conns c).state = .awaitingUsername)
    (hlocked : Locked u) : Tracked u := by
  have hname : ∀ c, (u.conns c).username = (s.conns c).username :=
    fun c => congrArg Prod.fst (hids c)
  have hstate : ∀ c, (u.conns c).state = (s.conns c).state :=
    fun c => congrArg (fun i => i.2.1) (hids c)
  have hleft : ∀ c, (u.conns c).disconnected = (s.conns c).disconnected :=
    fun c => congrArg (fun i => i.2.2) (hids c)
  refine ⟨hlocked, ?_, ?_, hnames ▸ h.nonempty, ?_⟩
  · intro c hc
    rw [hname]
    exact h.unnamed c (hstate c ▸ hc)
  · intro v c hv
    rw [hstage, Function.update_apply] at hv
    rw [hstate]
    split at hv
    · exact hlogin c hv
    · exact h.waiting v c hv
  · intro name hmem
    obtain ⟨c, hc, hwhose⟩ := h.held name (hnames ▸ hmem)
    refine ⟨c, (hleft c).trans hc, hwhose.imp (hname c).trans ?_⟩
    rintro ⟨v, m, hv, hm⟩
    have hne : v ≠ t := by
      rintro rfl
      exact hout m hv
    refine ⟨v, m, ?_, hm⟩
    rw [hstage, Function.update_of_ne hne]
    exact hv

omit [DecidableEq C] in
/-- The same, for a thread that is not in a login. -/
theorem goOn (h : Tracked s) (hids : ∀ c, identity (u.conns c) = identity (s.conns c))
    (hnames : u.usernames = s.usernames) (hstage : u.stage = Function.update s.stage t stage)
    (hbefore : (s.stage t).logsIn = none) (hafter : stage.logsIn = none)
    (hlocked : Locked u) : Tracked u :=
  h.move hids hnames hstage (not_accepted_of_logsIn hbefore)
    (fun _ hc => nomatch hafter.symm.trans hc) hlocked

theorem receive (h : Tracked s) (htaken : s.stage (.worker w) = .taken m)
    (hfree : s.mtx m.conn = none) : Tracked (s.receive w m) := by
  have hids := Server.apply_setConn identity (s := s) (c := m.conn)
    (identity_received (received (s.conns m.conn) s.now m))
  have hlocked : Locked (s.setConn m.conn (onMessageRecv (s.conns m.conn) s.now m).1) := h.locked
  have hstage : (s.receive w m).stage =
      Function.update s.stage (.worker w) (onMessageRecv (s.conns m.conn) s.now m).2 := rfl
  have hout : ∀ k, s.stage (.worker w) ≠ .accepted k :=
    fun k hk => nomatch htaken.symm.trans hk
  rcases stage_received (received (s.conns m.conn) s.now m) with ⟨hnone, hafter⟩ | ⟨hlogin, hstate⟩
  · refine h.move hids rfl hstage hout (fun _ hc => nomatch hafter.symm.trans hc) ?_
    unfold Server.receive
    dsimp only
    rw [hnone, if_neg nofun]
    exact hlocked.visit hfree hnone
  · refine h.move hids rfl hstage hout ?_ ?_
    · intro c hc
      rw [hlogin] at hc
      exact Option.some.inj hc ▸ hstate
    · unfold Server.receive
      dsimp only
      rw [hlogin]
      have hself : (Stage.login m).holds = some m.conn := rfl
      rw [if_pos hself]
      exact hlocked.acquire hfree hself

/-- The name that is inserted is that of a connection that has not been left. -/
theorem insert (h : Tracked s) (hlogin : s.stage (.worker w) = .login m)
    (hhere : s.Free m.raw → (s.conns m.conn).disconnected = false) :
    Tracked (s.tryInsert w m) := by
  have hheld : (s.stage (.worker w)).holds = some m.conn := congrArg Stage.holds hlogin
  have hwaiting := h.waiting (.worker w) m.conn (congrArg Stage.logsIn hlogin)
  have hout : ∀ k, s.stage (.worker w) ≠ .accepted k := by
    intro k hk
    cases hlogin.symm.trans hk
  unfold Server.tryInsert
  split
  · rename_i hfree
    have hgone : Tracked (s.goto (.worker w) (.accepted m)) := by
      refine h.move (t := .worker w) (fun _ => rfl) rfl rfl hout ?_
        (h.locked.goto (Or.inr hheld.symm))
      intro c hc
      exact Option.some.inj hc ▸ hwaiting
    refine ⟨hgone.locked, hgone.unnamed, hgone.waiting, ?_, ?_⟩
    · intro hmem
      rcases Finset.mem_insert.mp hmem with heq | hmem
      · exact hfree.2 heq.symm
      · exact h.nonempty hmem
    · intro name hmem
      rcases Finset.mem_insert.mp hmem with rfl | hmem
      · refine ⟨m.conn, hhere hfree, Or.inr ⟨.worker w, m, ?_, rfl, rfl⟩⟩
        exact Function.update_self _ _ _
      · exact hgone.held name hmem
  · exact h.move (t := .worker w) (fun _ => rfl) rfl rfl hout nofun (h.locked.release hheld rfl)

theorem assign (h : Tracked s) (haccepted : s.stage (.worker w) = .accepted m) :
    Tracked (s.finishLogin w m) := by
  have hheld : (s.stage (.worker w)).holds = some m.conn := congrArg Stage.holds haccepted
  have hunnamed := h.unnamed m.conn (h.waiting (.worker w) m.conn (congrArg Stage.logsIn haccepted))
  have hconns : (s.finishLogin w m).conns =
      Function.update s.conns m.conn ((s.conns m.conn).activate m.raw) := rfl
  have hstage : ∀ v ≠ .worker w, (s.finishLogin w m).stage v = s.stage v :=
    fun v hv => Function.update_of_ne hv _ _
  refine ⟨h.locked.release hheld rfl, ?_, ?_, h.nonempty, ?_⟩
  · intro c hc
    rw [hconns, Function.update_apply] at hc ⊢
    split at hc
    · cases hc
    · rename_i hne
      rw [if_neg hne]
      exact h.unnamed c hc
  · intro v c hv
    by_cases hw : v = .worker w
    · rw [hw, Server.finishLogin, Server.goto] at hv
      dsimp only at hv
      rw [Function.update_self] at hv
      cases hv
    · rw [hstage v hw] at hv
      -- Only one thread is in a region of the connection's mutex.
      have hc : c ≠ m.conn := by
        rintro rfl
        have hmtx := h.locked v m.conn (Stage.holds_of_logsIn hv)
        exact hw (Option.some.inj (hmtx.symm.trans (h.locked _ _ hheld)))
      rw [hconns, Function.update_of_ne hc]
      exact h.waiting v c hv
  · intro name hmem
    obtain ⟨c, hc, hwhose⟩ := h.held name hmem
    by_cases hself : c = m.conn
    · subst hself
      refine ⟨m.conn, by rwa [hconns, Function.update_self], Or.inl ?_⟩
      rw [hconns, Function.update_self]
      rcases hwhose with heq | ⟨v, k, hv, hk, rfl⟩
      · exact absurd (hunnamed ▸ heq ▸ hmem) h.nonempty
      · have hmtx := h.locked v m.conn (by rw [hv, ← hk]; rfl)
        cases Option.some.inj (hmtx.symm.trans (h.locked _ _ hheld))
        cases haccepted.symm.trans hv
        rfl
    · refine ⟨c, by rwa [hconns, Function.update_of_ne hself], hwhose.imp ?_ ?_⟩
      · intro heq
        rwa [hconns, Function.update_of_ne hself]
      · rintro ⟨v, k, hv, hk, hraw⟩
        have hw : v ≠ .worker w := by
          rintro rfl
          cases haccepted.symm.trans hv
          exact hself hk.symm
        exact ⟨v, k, (hstage v hw).trans hv, hk, hraw⟩

/-- The connection is left, with its name not among those that remain. -/
theorem leave {names : Finset Text} (h : Tracked s) (hleaving : s.stage t = .leaving c)
    (hout : ∀ u, s.mtx c = some u → inserted (s.stage u) = false)
    (hnames : ∀ name ∈ names, name ∈ s.usernames ∧ name ≠ (s.conns c).username)
    (hholds : stage.holds = none) (hlogs : stage.logsIn = none) :
    Tracked { (s.setConn c { s.conns c with disconnected := true }).goto t stage with
      usernames := names } := by
  have hname : ∀ d, (Function.update s.conns c
      { s.conns c with disconnected := true } d).username = (s.conns d).username :=
    Server.apply_setConn Connection.username rfl
  have hstate : ∀ d, (Function.update s.conns c
      { s.conns c with disconnected := true } d).state = (s.conns d).state :=
    Server.apply_setConn Connection.state rfl
  refine ⟨h.locked.goto (Or.inl hholds), ?_, ?_, fun hmem => h.nonempty (hnames _ hmem).1, ?_⟩
  · intro d hd
    exact (hname d).trans (h.unnamed d ((hstate d).symm.trans hd))
  · intro v d hv
    change (Function.update s.stage t stage v).logsIn = _ at hv
    rw [Function.update_apply] at hv
    split at hv
    · cases hlogs.symm.trans hv
    · exact (hstate d).trans (h.waiting v d hv)
  · intro name hmem
    obtain ⟨hbefore, hdiff⟩ := hnames name hmem
    obtain ⟨d, hd, hwhose⟩ := h.held name hbefore
    have hne : d ≠ c := by
      rintro rfl
      rcases hwhose with heq | ⟨v, m, hv, hm, _⟩
      · exact hdiff heq.symm
      · have hmtx := h.locked v d (by rw [hv, ← hm]; rfl)
        have hnot := hout v hmtx
        rw [hv] at hnot
        cases hnot
    refine ⟨d, ?_, hwhose.imp (hname d).trans ?_⟩
    · change (Function.update s.conns c _ d).disconnected = false
      rwa [Function.update_of_ne hne]
    · rintro ⟨v, m, hv, hm⟩
      have hw : v ≠ t := by
        rintro rfl
        cases hleaving.symm.trans hv
      exact ⟨v, m, (Function.update_of_ne hw _ _).trans hv, hm⟩

theorem disconnect (h : Tracked s) (hleaving : s.stage t = .leaving c)
    (hout : ∀ u, s.mtx c = some u → inserted (s.stage u) = false) :
    Tracked (s.onClientDisconnect t c) := by
  unfold Server.onClientDisconnect
  dsimp only
  split
  · rename_i hname
    have hkept : ∀ name ∈ s.usernames, name ∈ s.usernames ∧ name ≠ (s.conns c).username := by
      intro name hmem
      refine ⟨hmem, ?_⟩
      rw [hname]
      rintro rfl
      exact h.nonempty hmem
    show Tracked { (s.setConn c { s.conns c with disconnected := true }).goto t .idle with
      usernames := s.usernames }
    exact h.leave hleaving hout hkept rfl rfl
  · refine h.leave hleaving hout (fun name hmem => ?_) rfl rfl
    exact ⟨Finset.mem_of_mem_erase hmem, Finset.ne_of_mem_erase hmem⟩

theorem step {a : Action C W} (h : Tracked s) (ha : Undisturbed s a) (hnext : s.next a = some u) :
    Tracked u := by
  cases step_of_next hnext with
  | tick _ => exact ⟨h.locked, h.unnamed, h.waiting, h.nonempty, h.held⟩
  | read hidle hfree =>
    have hbefore : (s.stage .reactor).logsIn = none := congrArg Stage.logsIn hidle
    exact h.goOn (fun _ => rfl) rfl rfl hbefore rfl (h.locked.acquire hfree rfl)
  | @decode c raw hreading =>
    have hids : ∀ d, identity ((s.pushTask c raw).conns d) = identity (s.conns d) :=
      Server.apply_setConn identity rfl
    have hbefore : (s.stage .reactor).logsIn = none := congrArg Stage.logsIn hreading
    exact h.goOn hids rfl (Function.update_eq_self _ _).symm hbefore hbefore h.locked
  | @readDone c shouldClose hreading =>
    have hbefore : (s.stage .reactor).logsIn = none := congrArg Stage.logsIn hreading
    have hheld : (s.stage .reactor).holds = some c := congrArg Stage.holds hreading
    refine h.goOn (fun _ => rfl) rfl rfl hbefore ?_ (h.locked.release hheld ?_)
    · cases shouldClose <;> rfl
    · cases shouldClose <;> rfl
  | hangUp hidle =>
    have hbefore : (s.stage .reactor).logsIn = none := congrArg Stage.logsIn hidle
    exact h.goOn (fun _ => rfl) rfl rfl hbefore rfl (h.locked.goto (Or.inl rfl))
  | @take w m rest hidle hqueue =>
    have hbefore : (s.stage (.worker w)).logsIn = none := congrArg Stage.logsIn hidle
    exact h.goOn (fun _ => rfl) rfl rfl hbefore rfl (h.locked.goto (Or.inl rfl))
  | lock htaken hfree => exact h.receive htaken hfree
  | @insert w m hlogin => exact h.insert hlogin (ha m (by rw [hlogin]; rfl))
  | assign haccepted => exact h.assign haccepted
  | @sendFast t c msg calls hcalling hfree =>
    have hids := Server.apply_setConn identity (s := s) (c := c) (identity_enqueue (s.conns c) msg)
    have hbefore : (s.stage t).logsIn = none := congrArg Stage.logsIn hcalling
    exact h.goOn hids rfl rfl hbefore (Stage.logsIn_after calls)
      (h.locked.goto (Or.inl (Stage.holds_after calls)))
  | @broadcast t evt calls hcalling =>
    have hbefore : (s.stage t).logsIn = none := congrArg Stage.logsIn hcalling
    exact h.goOn (fun _ => rfl) rfl rfl hbefore (Stage.logsIn_after calls)
      (h.locked.goto (Or.inl (Stage.holds_after calls)))
  | @closeAgain t c calls hcalling hclosed =>
    have hbefore : (s.stage t).logsIn = none := congrArg Stage.logsIn hcalling
    exact h.goOn (fun _ => rfl) rfl rfl hbefore (Stage.logsIn_after calls)
      (h.locked.goto (Or.inl (Stage.holds_after calls)))
  | @close t c calls hcalling hopen =>
    have hids : ∀ d, identity ((s.setConn c { s.conns c with closed := true }).conns d) =
        identity (s.conns d) := Server.apply_setConn identity rfl
    have hbefore : (s.stage t).logsIn = none := congrArg Stage.logsIn hcalling
    exact h.goOn hids rfl rfl hbefore rfl (h.locked.goto (Or.inl rfl))
  | @disconnect t c hleaving =>
    exact h.disconnect hleaving (ha c (by rw [hleaving]; rfl))

theorem of_reachable {fd : C → ℕ} (hs : Reachable (machine fd) Undisturbed s) : Tracked s :=
  hs.invariant (init fd) fun _ _ _ h ha hnext => h.step ha hnext

omit [DecidableEq C] [DecidableEq W] in
/-- When no hook is running, no name is in between. -/
theorem released (h : Tracked s) : Released s := by
  have hheld : (∀ t, inHook (s.stage t) = false) → ∀ name ∈ s.usernames,
      ∃ c, (s.conns c).username = name ∧ (s.conns c).disconnected = false := by
    intro hquiet name hmem
    obtain ⟨c, hc, heq | ⟨t, m, ht, _⟩⟩ := h.held name hmem
    · exact ⟨c, heq, hc⟩
    · have hrunning := hquiet t
      rw [ht] at hrunning
      cases hrunning
  refine ⟨hheld, fun hquiet name hname hgone => ⟨?_, hname⟩⟩
  intro hmem
  obtain ⟨c, heq, hc⟩ := hheld hquiet name hmem
  cases hc.symm.trans (hgone c heq)

end Tracked

section Guarded

/-- The connection at whose `closed` a thread is in close_conn. -/
def closes : Stage C → Option C
  | .calling (.close c :: _) => some c
  | _ => none

/-- close_conn takes its steps while nobody is in a region of the connection's mutex. -/
def Guarded (s : Server C W) : Action C W → Prop
  | .call t => ∀ c ∈ closes (s.stage t), s.mtx c = none
  | .disconnect t => ∀ c ∈ leaves (s.stage t), s.mtx c = none
  | _ => True

/-- A connection is closed before it is left, and not in a login. -/
structure Closing (s : Server C W) : Prop where
  login : ∀ t m, s.stage t = .login m → (s.conns m.conn).closed = false
  leaving : ∀ t c, s.stage t = .leaving c → (s.conns c).closed = true
  left : ∀ c, (s.conns c).disconnected = true → (s.conns c).closed = true

def flags (conn : Connection) : Bool × Bool := (conn.closed, conn.disconnected)

theorem flags_received {conn : Connection} {now : ℚ} {m : Message C} {r : Connection × Stage C}
    (h : Received conn now m r) : flags r.1 = flags conn := by
  cases h <;> rfl

theorem flags_enqueue (conn : Connection) (msg : Text) :
    flags (conn.enqueue msg) = flags conn := by
  unfold Connection.enqueue
  split <;> rfl

theorem open_of_login {conn : Connection} {now : ℚ} {m k : Message C} {r : Connection × Stage C}
    (h : Received conn now m r) (hlogin : r.2 = .login k) : k = m ∧ conn.closed = false := by
  cases h with
  | username hopen _ _ =>
    cases hlogin
    exact ⟨rfl, hopen⟩
  | _ => cases hlogin

theorem not_leaving_received {conn : Connection} {now : ℚ} {m : Message C}
    {r : Connection × Stage C} (h : Received conn now m r) (c : C) : r.2 ≠ .leaving c := by
  cases h <;> nofun

variable [DecidableEq C] [DecidableEq W] {s u : Server C W} {t : Thread W} {c : C}
  {stage : Stage C}

namespace Closing

omit [DecidableEq C] in
/-- A thread goes on, and no connection is closed or left. -/
theorem goOn (h : Closing s) (hflags : ∀ c, flags (u.conns c) = flags (s.conns c))
    (hstage : u.stage = Function.update s.stage t stage)
    (hlogin : ∀ m, stage = .login m → (s.conns m.conn).closed = false)
    (hleaving : ∀ c, stage = .leaving c → (s.conns c).closed = true) : Closing u := by
  have hclosed : ∀ c, (u.conns c).closed = (s.conns c).closed :=
    fun c => congrArg Prod.fst (hflags c)
  have hleft : ∀ c, (u.conns c).disconnected = (s.conns c).disconnected :=
    fun c => congrArg Prod.snd (hflags c)
  refine ⟨fun v m hv => ?_, fun v c hv => ?_, fun c hc => ?_⟩
  · rw [hstage, Function.update_apply] at hv
    rw [hclosed]
    split at hv
    · exact hlogin m hv
    · exact h.login v m hv
  · rw [hstage, Function.update_apply] at hv
    rw [hclosed]
    split at hv
    · exact hleaving c hv
    · exact h.leaving v c hv
  · rw [hclosed]
    exact h.left c (hleft c ▸ hc)

/-- The thread that finds the connection open closes it while no login is under way. -/
theorem close (h : Closing s) (hlocked : Locked s) (hfree : s.mtx c = none) :
    Closing ((s.setConn c { s.conns c with closed := true }).goto t (.leaving c)) := by
  have hother : ∀ d, d ≠ c → Function.update s.conns c { s.conns c with closed := true } d =
      s.conns d := fun d hd => Function.update_of_ne hd _ _
  have hkept : ∀ d, (s.conns d).closed = true →
      (Function.update s.conns c { s.conns c with closed := true } d).closed = true := by
    intro d hd
    by_cases heq : d = c
    · rw [heq, Function.update_self]
    · rwa [hother d heq]
  refine ⟨fun v m hv => ?_, fun v d hv => ?_, fun d hd => ?_⟩
  · change Function.update s.stage t (.leaving c) v = _ at hv
    change (Function.update s.conns c _ m.conn).closed = false
    rw [Function.update_apply] at hv
    split at hv
    · cases hv
    · have hne : m.conn ≠ c := by
        rintro rfl
        have hmtx := hlocked v m.conn (by rw [hv]; rfl)
        cases hfree.symm.trans hmtx
      rw [hother m.conn hne]
      exact h.login v m hv
  · change Function.update s.stage t (.leaving c) v = _ at hv
    change (Function.update s.conns c _ d).closed = true
    rw [Function.update_apply] at hv
    split at hv
    · cases hv
      rw [Function.update_self]
    · exact hkept d (h.leaving v d hv)
  · change (Function.update s.conns c _ d).disconnected = true at hd
    change (Function.update s.conns c _ d).closed = true
    refine hkept d (h.left d ?_)
    by_cases heq : d = c
    · subst heq
      rwa [Function.update_self] at hd
    · rwa [hother d heq] at hd

theorem disconnect {names : Finset Text} (h : Closing s) (hleaving : s.stage t = .leaving c)
    (hlogin : ∀ m, stage ≠ .login m) (hout : ∀ d, stage ≠ .leaving d) :
    Closing { (s.setConn c { s.conns c with disconnected := true }).goto t stage with
      usernames := names } := by
  have hclosed : ∀ d, (Function.update s.conns c
      { s.conns c with disconnected := true } d).closed = (s.conns d).closed :=
    Server.apply_setConn Connection.closed rfl
  refine ⟨fun v m hv => ?_, fun v d hv => ?_, fun d hd => ?_⟩
  · change Function.update s.stage t stage v = _ at hv
    rw [Function.update_apply] at hv
    split at hv
    · exact absurd hv (hlogin m)
    · exact (hclosed m.conn).trans (h.login v m hv)
  · change Function.update s.stage t stage v = _ at hv
    rw [Function.update_apply] at hv
    split at hv
    · exact absurd hv (hout d)
    · exact (hclosed d).trans (h.leaving v d hv)
  · change (Function.update s.conns c _ d).disconnected = true at hd
    refine (hclosed d).trans ?_
    by_cases heq : d = c
    · rw [heq]
      exact h.leaving t c hleaving
    · rw [Function.update_of_ne heq] at hd
      exact h.left d hd

theorem step {a : Action C W} (h : Closing s) (hlocked : Locked s) (ha : Guarded s a)
    (hnext : s.next a = some u) : Closing u := by
  have hafter : ∀ (calls : List (Call C)), (∀ m, Stage.after calls ≠ .login m) ∧
      ∀ d, Stage.after calls ≠ .leaving d := by
    intro calls
    cases calls <;> exact ⟨nofun, nofun⟩
  cases step_of_next hnext with
  | tick _ => exact ⟨h.login, h.leaving, h.left⟩
  | read _ _ => exact h.goOn (fun _ => rfl) rfl nofun nofun
  | @decode c raw hreading =>
    have hflags : ∀ d, flags ((s.pushTask c raw).conns d) = flags (s.conns d) :=
      Server.apply_setConn flags rfl
    exact h.goOn hflags (Function.update_eq_self _ _).symm (h.login .reactor) (h.leaving .reactor)
  | @readDone c shouldClose _ =>
    refine h.goOn (fun _ => rfl) rfl ?_ ?_
    · cases shouldClose <;> nofun
    · cases shouldClose <;> nofun
  | hangUp _ => exact h.goOn (fun _ => rfl) rfl nofun nofun
  | @take w m rest _ _ => exact h.goOn (t := .worker w) (fun _ => rfl) rfl nofun nofun
  | @lock w m _ _ =>
    have hflags := Server.apply_setConn flags (s := s) (c := m.conn)
      (flags_received (received (s.conns m.conn) s.now m))
    have hstage : (s.receive w m).stage =
        Function.update s.stage (.worker w) (onMessageRecv (s.conns m.conn) s.now m).2 := rfl
    refine h.goOn hflags hstage (fun k hk => ?_) fun d hd => ?_
    · obtain ⟨rfl, hopen⟩ := open_of_login (received _ _ _) hk
      exact hopen
    · exact absurd hd (not_leaving_received (received _ _ _) d)
  | @insert w m _ =>
    unfold Server.tryInsert
    split
    · exact h.goOn (t := .worker w) (fun _ => rfl) rfl nofun nofun
    · exact h.goOn (t := .worker w) (fun _ => rfl) rfl nofun nofun
  | @assign w m _ =>
    have hflags : ∀ d, flags ((s.finishLogin w m).conns d) = flags (s.conns d) :=
      Server.apply_setConn flags rfl
    exact h.goOn (t := .worker w) hflags rfl nofun nofun
  | @sendFast t c msg calls _ _ =>
    have hflags := Server.apply_setConn flags (s := s) (c := c) (flags_enqueue (s.conns c) msg)
    obtain ⟨hlogin, hleaving⟩ := hafter calls
    exact h.goOn hflags rfl (fun m hm => absurd hm (hlogin m)) fun d hd => absurd hd (hleaving d)
  | @broadcast t evt calls _ =>
    obtain ⟨hlogin, hleaving⟩ := hafter calls
    exact h.goOn (t := t) (fun _ => rfl) rfl (fun m hm => absurd hm (hlogin m))
      fun d hd => absurd hd (hleaving d)
  | @closeAgain t c calls _ _ =>
    obtain ⟨hlogin, hleaving⟩ := hafter calls
    exact h.goOn (t := t) (fun _ => rfl) rfl (fun m hm => absurd hm (hlogin m))
      fun d hd => absurd hd (hleaving d)
  | @close t c calls hcalling _ => exact h.close hlocked (ha c (by rw [hcalling]; rfl))
  | @disconnect t c hleaving =>
    unfold Server.onClientDisconnect
    dsimp only
    split
    · show Closing { (s.setConn c { s.conns c with disconnected := true }).goto t .idle with
        usernames := s.usernames }
      exact h.disconnect hleaving nofun nofun
    · exact h.disconnect hleaving nofun nofun

omit [DecidableEq C] [DecidableEq W] in
theorem undisturbed {a : Action C W} (h : Closing s) (ha : Guarded s a) : Undisturbed s a := by
  cases a with
  | insert w =>
    intro m hm _
    cases hstage : s.stage (.worker w) with
    | login k =>
      rw [hstage] at hm
      cases hm
      have hopen := h.login (.worker w) m hstage
      rw [Bool.eq_false_iff]
      intro hleft
      cases hopen.symm.trans (h.left m.conn hleft)
    | _ =>
      rw [hstage] at hm
      cases hm
  | disconnect t =>
    intro c hc u hu
    rw [ha c hc] at hu
    cases hu
  | _ => trivial

end Closing

/-- If close_conn waited for the connection's mutex, no login would be disturbed. -/
theorem undisturbed_of_guarded {fd : C → ℕ} (hs : Reachable (machine fd) Guarded s) :
    Closing s ∧ Reachable (machine fd) Undisturbed s := by
  induction hs with
  | init => exact ⟨⟨nofun, nofun, nofun⟩, .init⟩
  | step _ ha hnext ih =>
    obtain ⟨hclosing, hreach⟩ := ih
    have hlocked := (Tracked.of_reachable hreach).locked
    exact ⟨hclosing.step hlocked ha hnext, .step hreach (hclosing.undisturbed ha) hnext⟩

/-- So the names would be released if each region of the mutex were a single step for
close_conn. -/
theorem released_of_guarded {fd : C → ℕ} (hs : Reachable (machine fd) Guarded s) : Released s :=
  (Tracked.of_reachable (undisturbed_of_guarded hs).2).released

end Guarded

/-- Whatever the threads do, the names of connections that are gone are released, if
no login is disturbed by OnClientDisconnect. -/
theorem usernames_released [DecidableEq C] [DecidableEq W] {fd : C → ℕ} {s : Server C W}
    (hs : Reachable (machine fd) Undisturbed s) : Released s :=
  (Tracked.of_reachable hs).released

def descriptors (c : Fin 2) : ℕ := 5 + c

/-- The message of a client that logs in with `name`, up to the test of `closed`. -/
def loginSteps (c : Fin 2) (name : Text) : List (Action (Fin 2) Unit) :=
  [.read c, .decode name, .readDone false, .take (), .lock ()]

/-- The reactor closes the connection. -/
def closeSteps (c : Fin 2) : List (Action (Fin 2) Unit) :=
  [.hangUp c, .call .reactor, .disconnect .reactor]

/-- A client takes the name of one that has left. -/
theorem usernames_released_sample : ∃ s : Server (Fin 2) Unit,
    Reachable (machine descriptors) Undisturbed s ∧
      ((s.conns 0).username = [97] ∧ (s.conns 0).disconnected = true ∧
        (s.conns 1).username = [97] ∧ [97] ∈ s.usernames) ∧ Released s := by
  have hrun : (run (machine descriptors) Undisturbed (machine descriptors).init
      (loginSteps 0 [97] ++ [.insert (), .assign (), .call (.worker ()), .call (.worker ())] ++
        closeSteps 0 ++ [.call .reactor] ++
        loginSteps 1 [97] ++ [.insert (), .assign ()])).any (fun s =>
      (s.conns 0).username = [97] ∧ (s.conns 0).disconnected = true ∧
        (s.conns 1).username = [97] ∧ [97] ∈ s.usernames) = true := by
    decide +kernel
  obtain ⟨s, hs, hafter⟩ := exists_reachable hrun
  exact ⟨s, hs, hafter, usernames_released hs⟩

/-- The connection is closed between the test of `closed` and the insertion, and the
next client cannot have the name. -/
theorem name_leaked : ∃ s : Server (Fin 2) Unit,
    Reachable (machine descriptors) AnyStep s ∧
      (s.conns 1).outgoingQueue = [usernameRefused] ∧ ¬ Released s := by
  have hrun : (run (machine descriptors) AnyStep (machine descriptors).init
      (loginSteps 0 [97] ++ closeSteps 0 ++
        [.insert (), .assign (), .call (.worker ()), .call (.worker ())] ++
        loginSteps 1 [97] ++ [.insert (), .call (.worker ())])).any (fun s =>
      (s.conns 1).outgoingQueue = [usernameRefused] ∧ s.stage .reactor = .idle ∧
        s.stage (.worker ()) = .idle ∧ [97] ∈ s.usernames ∧
        ∀ c, (s.conns c).username = [97] → (s.conns c).disconnected = true) = true := by
    decide +kernel
  obtain ⟨s, hs, hrefused, hreactor, hworker, hmem, hgone⟩ := exists_reachable hrun
  refine ⟨s, hs, hrefused, fun h => ?_⟩
  have hquiet : ∀ t, inHook (s.stage t) = false := by
    intro t
    cases t with
    | reactor => rw [hreactor]; rfl
    | worker w =>
      cases w
      rw [hworker]
      rfl
  exact (h.again hquiet [97] (List.cons_ne_nil _ _) hgone).1 hmem

end ChatServer.MessageTasks.UsernameRelease
