import ChatServer.MessageTasks.UsernameRelease

/-!
Who has which username in the third version. A name may stay in the set for nobody, but
it is never there for two: a login is for a name that is not in the set, and only
the connection that has the name takes it out, once. This holds whatever the threads
do, also where a connection is closed in the middle of its login.
-/
namespace ChatServer.MessageTasks.Sessions

open Lib.Runs UsernameRelease

variable {C W : Type*}

/-- The connection has the name, or its login has inserted it, and has not given it back. -/
def Claims (s : Server C W) (c : C) (name : Text) : Prop :=
  ((s.conns c).username = name ∧ name ≠ [] ∧ (s.conns c).disconnected = false) ∨
    ∃ t m, s.stage t = .accepted m ∧ m.conn = c ∧ m.raw = name

structure Named (s : Server C W) : Prop where
  locked : Locked s
  unnamed : ∀ c, (s.conns c).state = .awaitingUsername → (s.conns c).username = []
  waiting : ∀ t c, (s.stage t).logsIn = some c → (s.conns c).state = .awaitingUsername
  left : ∀ c, (s.conns c).disconnected = true → (s.conns c).closed = true
  leaving : ∀ t c, s.stage t = .leaving c →
    (s.conns c).closed = true ∧ (s.conns c).disconnected = false
  alone : ∀ t v c, s.stage t = .leaving c → s.stage v = .leaving c → t = v
  listed : ∀ c name, Claims s c name → name ∈ s.usernames
  unique : ∀ c d name, Claims s c name → Claims s d name → c = d

/-- What the names depend on. -/
def session (conn : Connection) : Text × ConnState × Bool × Bool :=
  (conn.username, conn.state, conn.disconnected, conn.closed)

theorem session_received {conn : Connection} {now : ℚ} {m : Message C}
    {r : Connection × Stage C} (h : Received conn now m r) : session r.1 = session conn := by
  cases h <;> rfl

theorem not_accepted_received {conn : Connection} {now : ℚ} {m : Message C}
    {r : Connection × Stage C} (h : Received conn now m r) (k : Message C) :
    r.2 ≠ .accepted k := by
  cases h <;> nofun

theorem session_enqueue (conn : Connection) (msg : Text) :
    session (conn.enqueue msg) = session conn := by
  unfold Connection.enqueue
  split <;> rfl

namespace Named

theorem init (fd : C → ℕ) : Named (Server.init fd : Server C W) where
  locked := nofun
  unnamed _ _ := rfl
  waiting := nofun
  left _ hc := nomatch hc
  leaving := nofun
  alone := nofun
  listed c name h := by
    rcases h with ⟨hname, hne, _⟩ | ⟨_, _, ht, _⟩
    · exact absurd hname.symm hne
    · cases ht
  unique c d name h := by
    rcases h with ⟨hname, hne, _⟩ | ⟨_, _, ht, _⟩
    · exact absurd hname.symm hne
    · cases ht

variable [DecidableEq C] [DecidableEq W] {s u : Server C W} {t : Thread W} {w : W} {c : C}
  {m : Message C} {stage : Stage C}

omit [DecidableEq C] in
/-- A thread goes on without a new name, and no connection is closed or left. -/
theorem goOn (h : Named s) (hsession : ∀ c, session (u.conns c) = session (s.conns c))
    (hnames : u.usernames = s.usernames) (hstage : u.stage = Function.update s.stage t stage)
    (hlogin : ∀ c, stage.logsIn = some c → (s.conns c).state = .awaitingUsername)
    (haccepted : ∀ m, stage ≠ .accepted m) (hleaving : ∀ c, stage ≠ .leaving c)
    (hlocked : Locked u) : Named u := by
  have hfields : ∀ c, (u.conns c).username = (s.conns c).username ∧
      (u.conns c).state = (s.conns c).state ∧
      (u.conns c).disconnected = (s.conns c).disconnected ∧
      (u.conns c).closed = (s.conns c).closed := by
    intro c
    simpa [session] using hsession c
  have hbefore : ∀ v, u.stage v = stage ∨ u.stage v = s.stage v := by
    intro v
    rw [hstage, Function.update_apply]
    split
    · exact Or.inl rfl
    · exact Or.inr rfl
  have hleft : ∀ v c, u.stage v = .leaving c → s.stage v = .leaving c := by
    intro v c hv
    rcases hbefore v with heq | heq
    · exact absurd (heq ▸ hv) (hleaving c)
    · exact heq ▸ hv
  have hclaims : ∀ c name, Claims u c name → Claims s c name := by
    rintro c name (⟨hname, hne, hthere⟩ | ⟨v, m, hv, hm⟩)
    · rw [(hfields c).1] at hname
      rw [(hfields c).2.2.1] at hthere
      exact Or.inl ⟨hname, hne, hthere⟩
    · rcases hbefore v with heq | heq
      · exact absurd (heq ▸ hv) (haccepted m)
      · exact Or.inr ⟨v, m, heq ▸ hv, hm⟩
  refine ⟨hlocked, ?_, ?_, ?_, ?_, ?_, ?_, ?_⟩
  · intro c hc
    rw [(hfields c).1]
    exact h.unnamed c ((hfields c).2.1 ▸ hc)
  · intro v c hv
    rw [(hfields c).2.1]
    rcases hbefore v with heq | heq
    · exact hlogin c (heq ▸ hv)
    · exact h.waiting v c (heq ▸ hv)
  · intro c hc
    rw [(hfields c).2.2.2]
    exact h.left c ((hfields c).2.2.1 ▸ hc)
  · intro v c hv
    rw [(hfields c).2.2.1, (hfields c).2.2.2]
    exact h.leaving v c (hleft v c hv)
  · intro v x c hv hx
    exact h.alone v x c (hleft v c hv) (hleft x c hx)
  · intro c name hc
    rw [hnames]
    exact h.listed c name (hclaims c name hc)
  · intro c d name hc hd
    exact h.unique c d name (hclaims c name hc) (hclaims d name hd)

theorem receive (h : Named s) (w : W) (hfree : s.mtx m.conn = none) :
    Named (s.receive w m) := by
  have hsession := Server.apply_setConn session (s := s) (c := m.conn)
    (session_received (received (s.conns m.conn) s.now m))
  have hlocked : Locked (s.setConn m.conn (onMessageRecv (s.conns m.conn) s.now m).1) := h.locked
  have hstage : (s.receive w m).stage =
      Function.update s.stage (.worker w) (onMessageRecv (s.conns m.conn) s.now m).2 := rfl
  have haccepted := not_accepted_received (received (s.conns m.conn) s.now m)
  have hleaving := not_leaving_received (received (s.conns m.conn) s.now m)
  rcases stage_received (received (s.conns m.conn) s.now m) with ⟨hnone, hafter⟩ | ⟨hlogin, hstate⟩
  · refine h.goOn hsession rfl hstage (fun _ hc => nomatch hafter.symm.trans hc) haccepted
      hleaving ?_
    unfold Server.receive
    dsimp only
    rw [hnone, if_neg nofun]
    exact hlocked.visit hfree hnone
  · refine h.goOn hsession rfl hstage ?_ haccepted hleaving ?_
    · intro c hc
      rw [hlogin] at hc
      exact Option.some.inj hc ▸ hstate
    · unfold Server.receive
      dsimp only
      rw [hlogin]
      have hself : (Stage.login m).holds = some m.conn := rfl
      rw [if_pos hself]
      exact hlocked.acquire hfree hself

/-- A name that is inserted was nobody's. -/
theorem tryInsert (h : Named s) (hlogin : s.stage (.worker w) = .login m) :
    Named (s.tryInsert w m) := by
  have hheld : (s.stage (.worker w)).holds = some m.conn := congrArg Stage.holds hlogin
  have hwaiting := h.waiting (.worker w) m.conn (congrArg Stage.logsIn hlogin)
  unfold Server.tryInsert
  split
  · rename_i hfree
    have hnobody : ∀ d, ¬ Claims s d m.raw := fun d hd => hfree.1 (h.listed d m.raw hd)
    have hclaims : ∀ c name, Claims { s.goto (.worker w) (.accepted m) with
        usernames := insert m.raw s.usernames } c name →
        Claims s c name ∨ (c = m.conn ∧ name = m.raw) := by
      rintro c name (hnamed | ⟨v, k, hv, hk, hraw⟩)
      · exact Or.inl (Or.inl hnamed)
      · change Function.update s.stage (.worker w) (.accepted m) v = .accepted k at hv
        rw [Function.update_apply] at hv
        split at hv
        · cases hv
          exact Or.inr ⟨hk.symm, hraw.symm⟩
        · exact Or.inl (Or.inr ⟨v, k, hv, hk, hraw⟩)
    have hstages : ∀ v d, Function.update s.stage (.worker w) (.accepted m) v = .leaving d →
        s.stage v = .leaving d := by
      intro v d hv
      rw [Function.update_apply] at hv
      split at hv
      · cases hv
      · exact hv
    refine ⟨h.locked.goto (Or.inr hheld.symm), h.unnamed, ?_, h.left, ?_, ?_, ?_, ?_⟩
    · intro v c hv
      change (Function.update s.stage (.worker w) (.accepted m) v).logsIn = some c at hv
      rw [Function.update_apply] at hv
      split at hv
      · exact Option.some.inj hv ▸ hwaiting
      · exact h.waiting v c hv
    · exact fun v d hv => h.leaving v d (hstages v d hv)
    · exact fun v x d hv hx => h.alone v x d (hstages v d hv) (hstages x d hx)
    · intro c name hc
      rcases hclaims c name hc with hbefore | ⟨-, rfl⟩
      · exact Finset.mem_insert_of_mem (h.listed c name hbefore)
      · exact Finset.mem_insert_self _ _
    · intro c d name hc hd
      rcases hclaims c name hc with hbefore | ⟨rfl, rfl⟩
      · rcases hclaims d name hd with hbefore' | ⟨-, rfl⟩
        · exact h.unique c d name hbefore hbefore'
        · exact absurd hbefore (hnobody c)
      · rcases hclaims d m.raw hd with hbefore' | ⟨rfl, -⟩
        · exact absurd hbefore' (hnobody d)
        · rfl
  · exact h.goOn (t := .worker w) (fun _ => rfl) rfl rfl nofun nofun nofun
      (h.locked.release hheld rfl)

theorem assign (h : Named s) (haccepted : s.stage (.worker w) = .accepted m) :
    Named (s.finishLogin w m) := by
  have hheld : (s.stage (.worker w)).holds = some m.conn := congrArg Stage.holds haccepted
  have hconns : (s.finishLogin w m).conns =
      Function.update s.conns m.conn ((s.conns m.conn).activate m.raw) := rfl
  have hflags : ∀ d, flags ((s.finishLogin w m).conns d) = flags (s.conns d) :=
    Server.apply_setConn flags rfl
  have hclosed : ∀ d, ((s.finishLogin w m).conns d).closed = (s.conns d).closed :=
    fun d => congrArg Prod.fst (hflags d)
  have hleft : ∀ d, ((s.finishLogin w m).conns d).disconnected = (s.conns d).disconnected :=
    fun d => congrArg Prod.snd (hflags d)
  have hstages : ∀ v stage, (s.finishLogin w m).stage v = stage →
      (∀ calls, stage ≠ .calling calls) → v ≠ .worker w ∧ s.stage v = stage := by
    intro v stage hv hnot
    change Function.update s.stage (.worker w) _ v = stage at hv
    rw [Function.update_apply] at hv
    split at hv
    · exact absurd hv.symm (hnot _)
    · rename_i hne
      exact ⟨hne, hv⟩
  have hclaims : ∀ c name, Claims (s.finishLogin w m) c name → Claims s c name := by
    rintro c name (⟨hname, hne, hthere⟩ | ⟨v, k, hv, hk⟩)
    · rw [hleft] at hthere
      by_cases hc : c = m.conn
      · subst hc
        rw [hconns, Function.update_self] at hname
        exact Or.inr ⟨.worker w, m, haccepted, rfl, hname⟩
      · rw [hconns, Function.update_of_ne hc] at hname
        exact Or.inl ⟨hname, hne, hthere⟩
    · exact Or.inr ⟨v, k, (hstages v _ hv nofun).2, hk⟩
  refine ⟨h.locked.release hheld rfl, ?_, ?_, ?_, ?_, ?_, ?_, ?_⟩
  · intro c hc
    rw [hconns, Function.update_apply] at hc ⊢
    split at hc
    · cases hc
    · rename_i hne
      rw [if_neg hne]
      exact h.unnamed c hc
  · intro v c hv
    obtain ⟨hw, hbefore⟩ := hstages v _ rfl fun calls hcalls => by
      rw [hcalls] at hv
      cases hv
    rw [← hbefore] at hv
    -- Only one thread is in a region of the connection's mutex.
    have hc : c ≠ m.conn := by
      rintro rfl
      have hmtx := h.locked v m.conn (Stage.holds_of_logsIn hv)
      exact hw (Option.some.inj (hmtx.symm.trans (h.locked _ _ hheld)))
    rw [hconns, Function.update_of_ne hc]
    exact h.waiting v c hv
  · intro c hc
    rw [hclosed]
    exact h.left c (hleft c ▸ hc)
  · intro v c hv
    rw [hclosed, hleft]
    exact h.leaving v c (hstages v _ hv nofun).2
  · intro v x c hv hx
    exact h.alone v x c (hstages v _ hv nofun).2 (hstages x _ hx nofun).2
  · exact fun c name hc => h.listed c name (hclaims c name hc)
  · exact fun c d name hc hd => h.unique c d name (hclaims c name hc) (hclaims d name hd)

/-- A thread that finds the connection open is the only one to leave it. -/
theorem close {calls : List (Call C)} (h : Named s)
    (hcalling : s.stage t = .calling (.close c :: calls)) (hopen : ¬ (s.conns c).closed = true) :
    Named ((s.setConn c { s.conns c with closed := true }).goto t (.leaving c)) := by
  have hids : ∀ d, identity ((s.setConn c { s.conns c with closed := true }).conns d) =
      identity (s.conns d) := Server.apply_setConn identity rfl
  have hname : ∀ d, (Function.update s.conns c
      { s.conns c with closed := true } d).username = (s.conns d).username :=
    fun d => congrArg Prod.fst (hids d)
  have hstate : ∀ d, (Function.update s.conns c
      { s.conns c with closed := true } d).state = (s.conns d).state :=
    fun d => congrArg (fun i => i.2.1) (hids d)
  have hleft : ∀ d, (Function.update s.conns c
      { s.conns c with closed := true } d).disconnected = (s.conns d).disconnected :=
    fun d => congrArg (fun i => i.2.2) (hids d)
  have hclosed : ∀ d, (s.conns d).closed = true →
      (Function.update s.conns c { s.conns c with closed := true } d).closed = true := by
    intro d hd
    rw [Function.update_apply]
    split
    · rfl
    · exact hd
  have hnobody : ∀ v, s.stage v ≠ .leaving c := fun v hv => hopen (h.leaving v c hv).1
  have hstages : ∀ v d, Function.update s.stage t (.leaving c) v = .leaving d →
      (v = t ∧ d = c) ∨ s.stage v = .leaving d := by
    intro v d hv
    rw [Function.update_apply] at hv
    split at hv
    · rename_i heq
      cases hv
      exact Or.inl ⟨heq, rfl⟩
    · exact Or.inr hv
  have hclaims : ∀ d name, Claims ((s.setConn c { s.conns c with closed := true }).goto t
      (.leaving c)) d name → Claims s d name := by
    rintro d name (⟨heq, hne, hthere⟩ | ⟨v, m, hv, hm⟩)
    · exact Or.inl ⟨(hname d).symm.trans heq, hne, (hleft d).symm.trans hthere⟩
    · change Function.update s.stage t (.leaving c) v = .accepted m at hv
      rw [Function.update_apply] at hv
      split at hv
      · cases hv
      · exact Or.inr ⟨v, m, hv, hm⟩
  refine ⟨h.locked.goto (Or.inl rfl), ?_, ?_, ?_, ?_, ?_, ?_, ?_⟩
  · exact fun d hd => (hname d).trans (h.unnamed d ((hstate d).symm.trans hd))
  · intro v d hv
    change (Function.update s.stage t (.leaving c) v).logsIn = some d at hv
    rw [Function.update_apply] at hv
    split at hv
    · cases hv
    · exact (hstate d).trans (h.waiting v d hv)
  · exact fun d hd => hclosed d (h.left d ((hleft d).symm.trans hd))
  · intro v d hv
    rcases hstages v d hv with ⟨-, rfl⟩ | hbefore
    · refine ⟨?_, (hleft d).trans ?_⟩
      · exact congrArg Connection.closed (Function.update_self d _ s.conns)
      · exact Bool.eq_false_iff.mpr fun hd => hopen (h.left d hd)
    · obtain ⟨hd, hthere⟩ := h.leaving v d hbefore
      exact ⟨hclosed d hd, (hleft d).trans hthere⟩
  · intro v x d hv hx
    rcases hstages v d hv with ⟨rfl, rfl⟩ | hbefore
    · rcases hstages x d hx with ⟨rfl, -⟩ | hbefore'
      · rfl
      · exact absurd hbefore' (hnobody x)
    · rcases hstages x d hx with ⟨-, rfl⟩ | hbefore'
      · exact absurd hbefore (hnobody v)
      · exact h.alone v x d hbefore hbefore'
  · exact fun d name hd => h.listed d name (hclaims d name hd)
  · exact fun d d' name hd hd' => h.unique d d' name (hclaims d name hd) (hclaims d' name hd')

/-- The connection gives back its own name, which nobody else has. -/
theorem leave {names : Finset Text} (h : Named s) (hleaving : s.stage t = .leaving c)
    (hnames : ∀ name ∈ s.usernames, name ≠ (s.conns c).username ∨ name = [] → name ∈ names)
    (hholds : stage.holds = none) (hlogs : stage.logsIn = none)
    (hgone : ∀ d, stage ≠ .leaving d) :
    Named { (s.setConn c { s.conns c with disconnected := true }).goto t stage with
      usernames := names } := by
  have hname : ∀ d, (Function.update s.conns c
      { s.conns c with disconnected := true } d).username = (s.conns d).username :=
    Server.apply_setConn Connection.username rfl
  have hstate : ∀ d, (Function.update s.conns c
      { s.conns c with disconnected := true } d).state = (s.conns d).state :=
    Server.apply_setConn Connection.state rfl
  have hclosed : ∀ d, (Function.update s.conns c
      { s.conns c with disconnected := true } d).closed = (s.conns d).closed :=
    Server.apply_setConn Connection.closed rfl
  have hother : ∀ d, d ≠ c → Function.update s.conns c
      { s.conns c with disconnected := true } d = s.conns d :=
    fun d hd => Function.update_of_ne hd _ _
  have hstages : ∀ v d, Function.update s.stage t stage v = .leaving d →
      d ≠ c ∧ s.stage v = .leaving d := by
    intro v d hv
    rw [Function.update_apply] at hv
    split at hv
    · exact absurd hv (hgone d)
    · rename_i hne
      refine ⟨?_, hv⟩
      rintro rfl
      exact hne (h.alone v t d hv hleaving)
  have hclaims : ∀ d name, Claims { (s.setConn c
      { s.conns c with disconnected := true }).goto t stage with usernames := names } d name →
      Claims s d name ∧ (d = c → (s.conns c).username = []) := by
    rintro d name (⟨heq, hne, hthere⟩ | ⟨v, m, hv, hm⟩)
    · change (Function.update s.conns c _ d).disconnected = false at hthere
      have hd : d ≠ c := by
        rintro rfl
        rw [Function.update_self] at hthere
        cases hthere
      rw [hother d hd] at hthere
      exact ⟨Or.inl ⟨(hname d).symm.trans heq, hne, hthere⟩, fun hc => absurd hc hd⟩
    · change Function.update s.stage t stage v = .accepted m at hv
      rw [Function.update_apply] at hv
      split at hv
      · rw [hv] at hlogs
        cases hlogs
      · refine ⟨Or.inr ⟨v, m, hv, hm⟩, ?_⟩
        rintro rfl
        refine h.unnamed d (h.waiting v d ?_)
        rw [hv, ← hm.1]
        rfl
  refine ⟨h.locked.goto (Or.inl hholds), ?_, ?_, ?_, ?_, ?_, ?_, ?_⟩
  · exact fun d hd => (hname d).trans (h.unnamed d ((hstate d).symm.trans hd))
  · intro v d hv
    change (Function.update s.stage t stage v).logsIn = some d at hv
    rw [Function.update_apply] at hv
    split at hv
    · cases hlogs.symm.trans hv
    · exact (hstate d).trans (h.waiting v d hv)
  · intro d hd
    refine (hclosed d).trans ?_
    by_cases hdc : d = c
    · rw [hdc]
      exact (h.leaving t c hleaving).1
    · change (Function.update s.conns c _ d).disconnected = true at hd
      rw [hother d hdc] at hd
      exact h.left d hd
  · intro v d hv
    obtain ⟨hd, hbefore⟩ := hstages v d hv
    change (Function.update s.conns c _ d).closed = true ∧
      (Function.update s.conns c _ d).disconnected = false
    rw [hother d hd]
    exact h.leaving v d hbefore
  · exact fun v x d hv hx => h.alone v x d (hstages v d hv).2 (hstages x d hx).2
  · intro d name hd
    obtain ⟨hbefore, hself⟩ := hclaims d name hd
    refine hnames name (h.listed d name hbefore) ?_
    by_cases hmine : name = (s.conns c).username
    · by_cases hne : name = []
      · exact Or.inr hne
      · exfalso
        have hclaim : Claims s c name :=
          Or.inl ⟨hmine.symm, hne, (h.leaving t c hleaving).2⟩
        have hdc := h.unique d c name hbefore hclaim
        exact hne (hmine.trans (hself hdc))
    · exact Or.inl hmine
  · exact fun d d' name hd hd' => h.unique d d' name (hclaims d name hd).1 (hclaims d' name hd').1

theorem disconnect (h : Named s) (hleaving : s.stage t = .leaving c) :
    Named (s.onClientDisconnect t c) := by
  unfold Server.onClientDisconnect
  dsimp only
  split
  · show Named { (s.setConn c { s.conns c with disconnected := true }).goto t .idle with
      usernames := s.usernames }
    exact h.leave hleaving (fun name hmem _ => hmem) rfl rfl nofun
  · rename_i hname
    refine h.leave hleaving (fun name hmem hkept => ?_) rfl rfl nofun
    refine Finset.mem_erase.mpr ⟨?_, hmem⟩
    rcases hkept with hdiff | rfl
    · exact hdiff
    · exact fun heq => hname heq.symm

theorem step {a : Action C W} (h : Named s) (hnext : s.next a = some u) : Named u := by
  have hafter : ∀ calls : List (Call C), (∀ m, Stage.after calls ≠ .accepted m) ∧
      ∀ d, Stage.after calls ≠ .leaving d := by
    intro calls
    cases calls <;> exact ⟨nofun, nofun⟩
  have hnone : ∀ {stage : Stage C}, stage.logsIn = none →
      ∀ c, stage.logsIn = some c → (s.conns c).state = .awaitingUsername :=
    fun hlogs _ hc => nomatch hlogs.symm.trans hc
  cases step_of_next hnext with
  | tick _ =>
    exact ⟨h.locked, h.unnamed, h.waiting, h.left, h.leaving, h.alone, h.listed, h.unique⟩
  | read hidle hfree =>
    exact h.goOn (fun _ => rfl) rfl rfl (hnone rfl) nofun nofun (h.locked.acquire hfree rfl)
  | @decode c raw hreading =>
    have hsession : ∀ d, session ((s.pushTask c raw).conns d) = session (s.conns d) :=
      Server.apply_setConn session rfl
    have hbefore : (s.stage .reactor).logsIn = none := congrArg Stage.logsIn hreading
    refine h.goOn hsession rfl (Function.update_eq_self _ _).symm (hnone hbefore) ?_ ?_ h.locked
    · exact fun m hm => nomatch hreading.symm.trans hm
    · exact fun d hd => nomatch hreading.symm.trans hd
  | @readDone c shouldClose hreading =>
    have hheld : (s.stage .reactor).holds = some c := congrArg Stage.holds hreading
    cases shouldClose with
    | true =>
      exact h.goOn (fun _ => rfl) rfl rfl (hnone rfl) nofun nofun (h.locked.release hheld rfl)
    | false =>
      exact h.goOn (fun _ => rfl) rfl rfl (hnone rfl) nofun nofun (h.locked.release hheld rfl)
  | hangUp _ =>
    exact h.goOn (fun _ => rfl) rfl rfl (hnone rfl) nofun nofun (h.locked.goto (Or.inl rfl))
  | @take w m rest _ _ =>
    exact h.goOn (t := .worker w) (fun _ => rfl) rfl rfl (hnone rfl) nofun nofun
      (h.locked.goto (Or.inl rfl))
  | lock _ hfree => exact h.receive _ hfree
  | insert hlogin => exact h.tryInsert hlogin
  | assign haccepted => exact h.assign haccepted
  | @sendFast t c msg calls _ _ =>
    have hsession := Server.apply_setConn session (s := s) (c := c)
      (session_enqueue (s.conns c) msg)
    exact h.goOn hsession rfl rfl (hnone (Stage.logsIn_after calls)) (hafter calls).1
      (hafter calls).2 (h.locked.goto (Or.inl (Stage.holds_after calls)))
  | @broadcast t evt calls _ =>
    exact h.goOn (t := t) (fun _ => rfl) rfl rfl (hnone (Stage.logsIn_after calls))
      (hafter calls).1 (hafter calls).2 (h.locked.goto (Or.inl (Stage.holds_after calls)))
  | @closeAgain t c calls _ _ =>
    exact h.goOn (t := t) (fun _ => rfl) rfl rfl (hnone (Stage.logsIn_after calls))
      (hafter calls).1 (hafter calls).2 (h.locked.goto (Or.inl (Stage.holds_after calls)))
  | close hcalling hopen => exact h.close hcalling hopen
  | disconnect hleaving => exact h.disconnect hleaving

theorem of_reachable {fd : C → ℕ} {allowed : Server C W → Action C W → Prop}
    (hs : Reachable (machine fd) allowed s) : Named s :=
  hs.invariant (init fd) fun _ _ _ h _ hnext => h.step hnext

end Named

/-- A name is not empty from the test of its login on. -/
structure Admitted (s : Server C W) : Prop where
  accepted : ∀ t m, s.stage t = .accepted m → m.raw ≠ []
  active : ∀ c, (s.conns c).state = .active → (s.conns c).username ≠ []

/-- What a login assigns. -/
def naming (conn : Connection) : Text × ConnState := (conn.username, conn.state)

theorem naming_of_session {conn conn' : Connection} (h : session conn' = session conn) :
    naming conn' = naming conn := by
  simp only [session, Prod.mk.injEq] at h
  exact Prod.ext h.1 h.2.1

namespace Admitted

theorem init (fd : C → ℕ) : Admitted (Server.init fd : Server C W) :=
  ⟨nofun, fun _ hc => nomatch hc⟩

variable [DecidableEq C] [DecidableEq W] {s u : Server C W} {t : Thread W} {w : W}
  {m : Message C} {stage : Stage C}

omit [DecidableEq C] in
/-- A thread goes on, but not to a login that has passed its test. -/
theorem goOn (h : Admitted s) (hnames : ∀ c, naming (u.conns c) = naming (s.conns c))
    (hstage : u.stage = Function.update s.stage t stage) (hnone : ∀ m, stage ≠ .accepted m) :
    Admitted u := by
  constructor
  · intro v m hv
    rw [hstage, Function.update_apply] at hv
    split at hv
    · exact absurd hv (hnone m)
    · exact h.accepted v m hv
  · intro c hc
    have hsame := hnames c
    simp only [naming, Prod.mk.injEq] at hsame
    rw [hsame.1]
    exact h.active c (hsame.2 ▸ hc)

theorem tryInsert (h : Admitted s) : Admitted (s.tryInsert w m) := by
  unfold Server.tryInsert
  split
  · rename_i hfree
    refine ⟨?_, h.active⟩
    intro v k hv
    change Function.update s.stage (.worker w) (.accepted m) v = .accepted k at hv
    rw [Function.update_apply] at hv
    split at hv
    · cases hv
      exact hfree.2
    · exact h.accepted v k hv
  · exact h.goOn (t := .worker w) (fun _ => rfl) rfl nofun

theorem assign (h : Admitted s) (haccepted : s.stage (.worker w) = .accepted m) :
    Admitted (s.finishLogin w m) := by
  constructor
  · intro v k hv
    change Function.update s.stage (.worker w) _ v = .accepted k at hv
    rw [Function.update_apply] at hv
    split at hv
    · cases hv
    · exact h.accepted v k hv
  · intro c hc
    change (Function.update s.conns m.conn ((s.conns m.conn).activate m.raw) c).state =
      .active at hc
    change (Function.update s.conns m.conn ((s.conns m.conn).activate m.raw) c).username ≠ []
    rw [Function.update_apply] at hc ⊢
    split
    · exact h.accepted _ m haccepted
    · rename_i hne
      rw [if_neg hne] at hc
      exact h.active c hc

theorem step {a : Action C W} (h : Admitted s) (hnext : s.next a = some u) : Admitted u := by
  have hafter : ∀ (calls : List (Call C)) m, Stage.after calls ≠ .accepted m := by
    intro calls
    cases calls <;> exact nofun
  cases step_of_next hnext with
  | tick _ => exact ⟨h.accepted, h.active⟩
  | read _ _ => exact h.goOn (fun _ => rfl) rfl nofun
  | decode hreading =>
    exact h.goOn (t := .reactor) (Server.apply_setConn naming rfl)
      (Function.update_eq_self _ _).symm (fun m hm => nomatch hreading.symm.trans hm)
  | @readDone c shouldClose _ =>
    refine h.goOn (t := .reactor) (fun _ => rfl) rfl ?_
    cases shouldClose <;> exact nofun
  | hangUp _ => exact h.goOn (fun _ => rfl) rfl nofun
  | @take w m rest _ _ => exact h.goOn (t := .worker w) (fun _ => rfl) rfl nofun
  | @lock w m _ _ =>
    have hreceived := received (s.conns m.conn) s.now m
    exact h.goOn (t := .worker w)
      (Server.apply_setConn naming (naming_of_session (session_received hreceived))) rfl
      (not_accepted_received hreceived)
  | insert _ => exact h.tryInsert
  | assign haccepted => exact h.assign haccepted
  | @sendFast t c msg calls _ _ =>
    have hsession := session_enqueue (s.conns c) msg
    exact h.goOn (Server.apply_setConn naming (naming_of_session hsession)) rfl (hafter calls)
  | @broadcast t evt calls _ => exact h.goOn (t := t) (fun _ => rfl) rfl (hafter calls)
  | @closeAgain t c calls _ _ => exact h.goOn (t := t) (fun _ => rfl) rfl (hafter calls)
  | close _ _ => exact h.goOn (Server.apply_setConn naming rfl) rfl nofun
  | @disconnect t c _ =>
    unfold Server.onClientDisconnect
    dsimp only
    split
    · exact h.goOn (t := t) (Server.apply_setConn naming rfl) rfl nofun
    · exact h.goOn (t := t) (Server.apply_setConn naming rfl) rfl nofun

theorem of_reachable {fd : C → ℕ} {allowed : Server C W → Action C W → Prop}
    (hs : Reachable (machine fd) allowed s) : Admitted s :=
  hs.invariant (init fd) fun _ _ _ h _ hnext => h.step hnext

end Admitted

/-- Whatever the threads do, a user who has logged in and whose connection has not been
left has a name that is not empty, is in the set, and is nobody else's. -/
theorem usernames_distinct [DecidableEq C] [DecidableEq W] {fd : C → ℕ} {s : Server C W}
    {allowed : Server C W → Action C W → Prop} (hs : Reachable (machine fd) allowed s) {c : C}
    (hactive : (s.conns c).state = .active) (hc : (s.conns c).disconnected = false) :
    (s.conns c).username ≠ [] ∧ (s.conns c).username ∈ s.usernames ∧
      ∀ d, (s.conns d).username = (s.conns c).username → (s.conns d).disconnected = false →
        d = c := by
  have h := Named.of_reachable hs
  have hname := (Admitted.of_reachable hs).active c hactive
  have hclaim : Claims s c (s.conns c).username := Or.inl ⟨rfl, hname, hc⟩
  refine ⟨hname, h.listed c _ hclaim, ?_⟩
  intro d hsame hd
  exact h.unique d c _ (Or.inl ⟨hsame, hname, hd⟩) hclaim

/-- The name of a user who is there is refused to the next one, who then logs in
with another one. -/
theorem usernames_distinct_sample : ∃ s : Server (Fin 2) Unit,
    Reachable (machine descriptors) AnyStep s ∧
      ((s.conns 0).username = [97] ∧ (s.conns 0).disconnected = false ∧
        (s.conns 1).username = [98] ∧ (s.conns 1).disconnected = false) ∧
      ((s.conns 0).username ≠ [] ∧ (s.conns 0).username ∈ s.usernames ∧
        ∀ d, (s.conns d).username = (s.conns 0).username → (s.conns d).disconnected = false →
          d = 0) ∧
      ((s.conns 1).username ≠ [] ∧ (s.conns 1).username ∈ s.usernames ∧
        ∀ d, (s.conns d).username = (s.conns 1).username → (s.conns d).disconnected = false →
          d = 1) := by
  have hrun : (run (machine descriptors) AnyStep (machine descriptors).init
      (loginSteps 0 [97] ++ [.insert (), .assign (), .call (.worker ()), .call (.worker ())] ++
        loginSteps 1 [97] ++ [.insert (), .call (.worker ())] ++
        loginSteps 1 [98] ++ [.insert (), .assign ()])).any (fun s =>
      ((s.conns 0).username = [97] ∧ (s.conns 0).disconnected = false ∧
        (s.conns 1).username = [98] ∧ (s.conns 1).disconnected = false) ∧
        (s.conns 0).state = .active ∧ (s.conns 1).state = .active) = true := by
    decide +kernel
  obtain ⟨s, hs, h, hfirst, hsecond⟩ := exists_reachable hrun
  exact ⟨s, hs, h, usernames_distinct hs hfirst h.2.1, usernames_distinct hs hsecond h.2.2.2⟩

end ChatServer.MessageTasks.Sessions
