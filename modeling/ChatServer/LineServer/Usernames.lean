import Mathlib.Data.Set.Function
import ChatServer.LineServer.Connections

/-!
The usernames of the second version. A name is inserted in the loop over the lines
of one read, and erased by close_conn before the connection leaves the table, so
that between two events the set holds the names of the active connections in the
table and nothing else.
-/
namespace ChatServer.LineServer.Usernames

open Lib.Runs MessageTasks

variable {W : Type*} {s t : Server W} {c d : ConnId}

/-- `usernames_` says which names are in use. -/
structure Exact (s : Server W) : Prop where
  usernames : ∀ u, u ∈ s.usernames ↔
    ∃ c ∈ s.activeConns, (s.conns c).state = .active ∧ (s.conns c).username = u
  distinct : ∀ c ∈ s.activeConns, ∀ d ∈ s.activeConns, (s.conns c).state = .active →
    (s.conns d).state = .active → (s.conns c).username = (s.conns d).username → c = d
  nonempty : ∀ c ∈ s.activeConns, (s.conns c).state = .active → (s.conns c).username ≠ []
  awaiting : ∀ c ∈ s.activeConns, (s.conns c).state = .awaitingUsername →
    (s.conns c).username = []

/-- A connection whose name close_conn has given back while it is still in the table. -/
def releaser? : Stage → Option ConnId
  | .releasing c _ => some c
  | _ => none

/-- A connection that handle_read works on, which is open. -/
def reader? : Stage → Option ConnId
  | .reading c _ | .splitting c _ => some c
  | _ => none

/-- The connection is in the table and has a name that was not given back. -/
structure Holds (s : Server W) (c : ConnId) : Prop where
  lookup : s.connections.lookup (s.conns c).fd = some c
  active : (s.conns c).state = .active
  kept : releaser? s.stage ≠ some c

def holders (s : Server W) : Set ConnId := {c | Holds s c}

def nameOf (s : Server W) (c : ConnId) : Text := (s.conns c).username

structure Named (s : Server W) : Prop where
  names : s.stage.Serving → Set.BijOn (nameOf s) (holders s) s.usernames
  active : ∀ c, (s.conns c).state = .active ↔ (s.conns c).username ≠ []
  reads : ∀ c, reader? s.stage = some c → (s.conns c).closed = false

theorem reader?_after {write : Bool} : reader? (.after c write) = none := by
  cases write <;> rfl

theorem releaser?_after {write : Bool} : releaser? (.after c write) = none := by
  cases write <;> rfl

theorem Holds.iff_of_eq (hlookup : t.connections.lookup (t.conns c).fd = some c ↔
      s.connections.lookup (s.conns c).fd = some c)
    (hstate : (t.conns c).state = (s.conns c).state)
    (hkept : releaser? t.stage = some c ↔ releaser? s.stage = some c) :
    Holds t c ↔ Holds s c := by
  constructor
  · intro h
    exact ⟨hlookup.mp h.lookup, hstate ▸ h.active, fun hc => h.kept (hkept.mpr hc)⟩
  · intro h
    exact ⟨hlookup.mpr h.lookup, hstate.trans h.active, fun hc => h.kept (hkept.mp hc)⟩

/-- Nobody logs in. -/
structure SameNames (s t : Server W) : Prop where
  username : ∀ c, (t.conns c).username = (s.conns c).username
  state : ∀ c, (t.conns c).state = (s.conns c).state

theorem SameNames.of_eq (h : t.conns = s.conns) : SameNames s t := by
  constructor
  all_goals
    intro c
    rw [h]

theorem SameNames.setConn {conn : Connection} (hname : conn.username = (s.conns c).username)
    (hstate : conn.state = (s.conns c).state) : SameNames s (s.setConn c conn) :=
  ⟨s.setConn_same Connection.username hname, s.setConn_same Connection.state hstate⟩

namespace Named

/-- A step in which the same connections hold the same names. -/
theorem of_holds (h : Named s) (hsame : SameNames s t) (hnames : t.usernames = s.usernames)
    (hserving : t.stage.Serving → s.stage.Serving)
    (hholds : t.stage.Serving → ∀ c, Holds t c ↔ Holds s c)
    (hreads : ∀ c, reader? t.stage = some c → (t.conns c).closed = false) : Named t where
  names hserves := by
    have hholders : holders t = holders s := Set.ext (hholds hserves)
    have hnameOf : nameOf t = nameOf s := funext hsame.username
    rw [hholders, hnameOf, hnames]
    exact h.names (hserving hserves)
  active c := by
    rw [hsame.state, hsame.username]
    exact h.active c
  reads := hreads

/-- A step in which nobody logs in or leaves the table. -/
theorem keep (h : Named s) (hsame : SameNames s t) (hfd : ∀ c, (t.conns c).fd = (s.conns c).fd)
    (hnames : t.usernames = s.usernames) (hconnections : t.connections = s.connections)
    (hserving : t.stage.Serving → s.stage.Serving)
    (hkept : releaser? t.stage = releaser? s.stage)
    (hreads : ∀ c, reader? t.stage = some c → (t.conns c).closed = false) : Named t := by
  refine h.of_holds hsame hnames hserving ?_ hreads
  intro _ c
  refine Holds.iff_of_eq ?_ (hsame.state c) ?_
  · rw [hconnections, hfd]
  · rw [hkept]

theorem goto (h : Named s) {stage : Stage} (hserving : stage.Serving → s.stage.Serving)
    (hkept : releaser? stage = releaser? s.stage)
    (hreads : ∀ c, reader? stage = some c → (s.conns c).closed = false) : Named (s.goto stage) :=
  h.keep (.of_eq rfl) (fun _ => rfl) rfl rfl hserving hkept hreads

theorem setConn (h : Named s) {conn : Connection} (hfd : conn.fd = (s.conns c).fd)
    (hname : conn.username = (s.conns c).username) (hstate : conn.state = (s.conns c).state)
    (hclosed : conn.closed = (s.conns c).closed) : Named (s.setConn c conn) := by
  refine h.keep (.setConn hname hstate) (s.setConn_same Connection.fd hfd) rfl rfl id rfl ?_
  intro d hd
  rw [s.setConn_same Connection.closed hclosed]
  exact h.reads d hd

/-- A step that touches neither connections nor names. -/
theorem frame (h : Named s) (hconns : t.conns = s.conns) (hnames : t.usernames = s.usernames)
    (hconnections : t.connections = s.connections) (hstage : t.stage = s.stage) : Named t := by
  refine h.keep (.of_eq hconns) (fun _ => by rw [hconns]) hnames hconnections (hstage ▸ id)
    (by rw [hstage]) ?_
  rw [hstage, hconns]
  exact h.reads

theorem stopped (h : Named s) (hconns : t.conns = s.conns) (hserving : ¬ t.stage.Serving)
    (hreads : reader? t.stage = none) : Named t where
  names hserves := absurd hserves hserving
  active := by
    rw [hconns]
    exact h.active
  reads c hc := by
    rw [hreads] at hc
    cases hc

theorem turn (h : Named s) (htabled : Tabled s) {stage : Stage} (hturn : Turns s stage) :
    Named (s.goto stage) := by
  refine h.goto hturn.serving ?_ ?_
  · cases hturn with
    | wouldBlock hstage | closed hstage hclosed =>
      rw [hstage, releaser?_after]
      rfl
    | @finish again hstage =>
      rw [hstage]
      cases again <;> rfl
    | _ hstage => exact (congrArg releaser? hstage).symm
  · intro c hc
    cases hturn with
    | input hstage hlookup =>
      cases hc
      exact htabled.open_of_polling hstage hlookup
    | unfinished hstage hnone =>
      cases hc
      exact h.reads _ (by rw [hstage]; rfl)
    | wouldBlock hstage | closed hstage hclosed =>
      rw [reader?_after] at hc
      cases hc
    | @finish again hstage =>
      cases again <;> cases hc
    | _ => cases hc

/-- A new connection has no name, and nobody loses one. -/
theorem accept (h : Named s) (htabled : Tabled s) {fd : ℕ} (hstage : s.stage = .accepting)
    (hfree : s.owner fd = none) : Named (s.accept fd) := by
  have hserving : s.stage.Serving := Stage.serving_of_eq hstage trivial
  have hself : (s.accept fd).conns s.accepted = .new fd := Function.update_self _ _ _
  have hother : ∀ d, d ≠ s.accepted → (s.accept fd).conns d = s.conns d :=
    fun d hd => Function.update_of_ne hd _ _
  have hsame : SameNames s (s.accept fd) := by
    constructor
    all_goals
      intro d
      by_cases hd : d = s.accepted
      · rw [hd, hself, htabled.fresh _ (le_refl _)]
        rfl
      · rw [hother d hd]
  refine h.of_holds hsame rfl (fun _ => hserving) ?_ ?_
  · intro _ d
    by_cases hd : d = s.accepted
    · have hinactive : (s.conns d).state ≠ .active := by
        rw [hd, htabled.fresh _ (le_refl _)]
        exact nofun
      exact iff_of_false (fun hin => hinactive (hsame.state d ▸ hin.active))
        fun hin => hinactive hin.active
    · have hlookup : (s.accept fd).connections.lookup ((s.accept fd).conns d).fd = some d ↔
          s.connections.lookup (s.conns d).fd = some d := by
        rw [hother d hd, htabled.lookup_accept hserving hfree]
        exact or_iff_right fun hin => hd hin.2
      exact Holds.iff_of_eq hlookup (hsame.state d) Iff.rfl
  · intro d hd
    change reader? s.stage = some d at hd
    rw [hstage] at hd
    cases hd

section Login

variable {name : Text}

/-- The connection joins those that hold a name. -/
theorem holders_insert (hconnections : t.connections = s.connections) (hstage : t.stage = s.stage)
    (hother : ∀ d, d ≠ c → t.conns d = s.conns d) (hin : Holds t c) :
    holders t = insert c (holders s) := by
  ext d
  by_cases hd : d = c
  · rw [hd]
    exact iff_of_true hin (Set.mem_insert _ _)
  · have hiff : Holds t d ↔ Holds s d := by
      refine Holds.iff_of_eq ?_ ?_ ?_
      · rw [hother d hd, hconnections]
      · rw [hother d hd]
      · rw [hstage]
    exact hiff.trans (Set.mem_insert_iff.trans (or_iff_right hd)).symm

/-- The name of a login is new, and the connection is in the table. -/
theorem enter (h : Named s) (hserving : s.stage.Serving) (hnotin : ¬ Holds s c)
    (hin : Holds t c) (hconnections : t.connections = s.connections) (hstage : t.stage = s.stage)
    (hother : ∀ d, d ≠ c → t.conns d = s.conns d) (hname : (t.conns c).username = name)
    (hclosed : (t.conns c).closed = (s.conns c).closed)
    (husernames : t.usernames = insert name s.usernames) (hnew : name ∉ s.usernames)
    (hnonempty : name ≠ []) : Named t := by
  have hsame : Set.EqOn (nameOf s) (nameOf t) (holders s) := by
    intro d hd
    have hne : d ≠ c := by
      rintro rfl
      exact hnotin hd
    rw [nameOf, nameOf, hother d hne]
  have hnameOf : nameOf t c = name := hname
  constructor
  · intro _
    have hcoe : (t.usernames : Set Text) = insert (nameOf t c) ↑s.usernames := by
      rw [hnameOf, husernames]
      exact Finset.coe_insert _ _
    rw [holders_insert hconnections hstage hother hin, hcoe]
    refine ((h.names hserving).congr hsame).insert ?_
    rw [hnameOf]
    exact hnew
  · intro d
    by_cases hd : d = c
    · rw [hd, hname]
      exact iff_of_true hin.active hnonempty
    · rw [hother d hd]
      exact h.active d
  · intro d hd
    rw [hstage] at hd
    by_cases hdc : d = c
    · subst hdc
      rw [hclosed]
      exact h.reads d hd
    · rw [hother d hdc]
      exact h.reads d hd

theorem login (h : Named s) (htabled : Tabled s) {write : Bool} {rest : Bytes}
    (hstage : s.stage = .splitting c write) (hstate : (s.conns c).state = .awaitingUsername)
    (hnew : name ∉ s.usernames) (hnonempty : name ≠ []) :
    Named ({ s with usernames := insert name s.usernames }.setConn c { s.conns c with
      inBuf := rest
      entered := (s.conns c).entered ++ [name]
      username := name
      state := .active }) := by
  have hserving : s.stage.Serving := Stage.serving_of_eq hstage trivial
  have hopen : (s.conns c).closed = false := h.reads c (by rw [hstage]; rfl)
  have hmade : c < s.accepted := htabled.made c (by rw [hstage]; rfl)
  have hmine : s.connections.lookup (s.conns c).fd = some c :=
    (htabled.mapped hserving c hmade).mpr (Or.inl hopen)
  have hnotin : ¬ Holds s c := by
    intro hc
    have hactive := hc.active
    rw [hstate] at hactive
    cases hactive
  refine h.enter hserving hnotin ?_ rfl rfl ?_ ?_ ?_ rfl hnew hnonempty
  · refine ⟨?_, ?_, ?_⟩
    · rw [Server.setConn_self]
      exact hmine
    · rw [Server.setConn_self]
    · show releaser? s.stage ≠ some c
      rw [hstage]
      exact nofun
  · exact fun d hd => Server.setConn_of_ne _ hd _
  · rw [Server.setConn_self]
  · rw [Server.setConn_self]

end Login

/-- close_conn gives back the name of the connection and no other. -/
theorem leave (h : Named s) (htabled : Tabled s) {write : Bool}
    (hstage : s.stage = .leaving c write) (hname : (s.conns c).username ≠ []) :
    Named ({ s with usernames := s.usernames.erase (s.conns c).username }.goto
      (.releasing c write)) := by
  have hserving : s.stage.Serving := Stage.serving_of_eq hstage trivial
  have hmine : s.connections.lookup (s.conns c).fd = some c :=
    htabled.lookup_leaver hserving (htabled.made c (by rw [hstage]; rfl)) (by rw [hstage]; rfl)
  have hin : Holds s c := by
    refine ⟨hmine, (h.active c).mpr hname, ?_⟩
    rw [hstage]
    exact nofun
  generalize ht : { s with usernames := s.usernames.erase (s.conns c).username }.goto
    (.releasing c write) = t
  have hconns : t.conns = s.conns := by
    rw [← ht]
    rfl
  have hholders : holders t = holders s \ {c} := by
    ext d
    by_cases hd : d = c
    · subst hd
      refine iff_of_false (fun hd => hd.kept ?_) fun hd => hd.2 rfl
      rw [← ht]
      rfl
    · have hiff : Holds t d ↔ Holds s d := by
        refine Holds.iff_of_eq ?_ (by rw [hconns]) ?_
        · rw [hconns, ← ht]
          rfl
        · rw [hstage, ← ht]
          exact iff_of_false (fun heq => hd (Option.some.inj heq).symm) nofun
      exact hiff.trans (and_iff_left hd).symm
  constructor
  · intro _
    have hnameOf : nameOf t = nameOf s := by
      funext d
      rw [nameOf, nameOf, hconns]
    have husernames : (t.usernames : Set Text) = ↑s.usernames \ {nameOf s c} := by
      rw [← ht]
      exact Finset.coe_erase _ _
    rw [hholders, hnameOf, husernames]
    exact (h.names hserving).sdiff_singleton hin
  · rw [hconns]
    exact h.active
  · rw [← ht]
    exact nofun

theorem leaveNameless (h : Named s) {write : Bool} (hstage : s.stage = .leaving c write)
    (hname : (s.conns c).username = []) : Named (s.goto (.releasing c write)) := by
  refine h.of_holds (.of_eq rfl) rfl (fun _ => Stage.serving_of_eq hstage trivial) ?_ nofun
  intro _ d
  by_cases hd : d = c
  · have hinactive : (s.conns d).state ≠ .active := by
      rw [hd, Ne, h.active, not_not]
      exact hname
    exact iff_of_false (fun hin => hinactive hin.active) fun hin => hinactive hin.active
  · refine Holds.iff_of_eq Iff.rfl rfl ?_
    rw [hstage]
    exact iff_of_false (fun heq => hd (Option.some.inj heq).symm) nofun

theorem release (h : Named s) (htabled : Tabled s) {write : Bool}
    (hstage : s.stage = .releasing c write) : Named ((s.release c).goto (.after c write)) := by
  have hserving : s.stage.Serving := Stage.serving_of_eq hstage trivial
  have hmine : s.connections.lookup (s.conns c).fd = some c :=
    htabled.lookup_leaver hserving (htabled.made c (by rw [hstage]; rfl)) (by rw [hstage]; rfl)
  refine h.of_holds (.of_eq rfl) rfl (fun _ => hserving) ?_ ?_
  · intro _ d
    by_cases hd : d = c
    · subst hd
      refine iff_of_false (fun hin => ?_) fun hin => hin.kept (by rw [hstage]; rfl)
      exact (Tabled.lookup_release.mp hin.lookup).1 rfl
    · refine Holds.iff_of_eq ?_ rfl ?_
      · refine Tabled.lookup_release.trans (and_iff_right_of_imp fun hin hfd => hd ?_)
        rw [hfd, hmine] at hin
        exact (Option.some.inj hin).symm
      · show releaser? (.after c write) = some d ↔ _
        rw [hstage, releaser?_after]
        exact iff_of_false nofun fun heq => hd (Option.some.inj heq).symm
  · intro d hd
    change reader? (.after c write) = some d at hd
    rw [reader?_after] at hd
    cases hd

theorem queueBroadcastMessage (h : Named s) {msg : Text} {senderFd : Option ℕ}
    {origin : Option (ConnId × Text)} : Named (s.queueBroadcastMessage msg senderFd origin) :=
  h.frame rfl rfl rfl rfl

theorem deliver (h : Named s) (htabled : Tabled s) {messages : List Broadcast}
    (hstage : s.stage = .broadcasting messages) : Named (s.deliver messages) := by
  have hconns := htabled.deliver_conns messages
  refine h.keep ?_ ?_ rfl rfl (fun _ => Stage.serving_of_eq hstage trivial)
    (congrArg releaser? hstage).symm nofun
  · constructor
    all_goals
      intro c
      rw [hconns]
      split <;> rfl
  · intro c
    rw [hconns]
    split <;> rfl

theorem init (fds : ServerFds) : Named (.init fds : Server W) where
  names _ := by
    have hholders : holders (.init fds : Server W) = ∅ :=
      Set.eq_empty_of_forall_notMem fun _ hc => nomatch hc.lookup
    show Set.BijOn _ (holders _) ((∅ : Finset Text) : Set Text)
    rw [hholders, Finset.coe_empty]
    exact Set.bijOn_empty _
  active _ := iff_of_false nofun fun hname => hname rfl
  reads _ hc := nomatch hc

theorem moves [DecidableEq W] {fds : ServerFds} (h : Named s) (htabled : Tabled s)
    (hmoves : Moves fds s t) : Named t := by
  cases hmoves with
  | turn hturn => exact h.turn htabled hturn
  | drain hstage =>
    exact h.keep (.of_eq rfl) (fun _ => rfl) rfl rfl (fun _ => Stage.serving_of_eq hstage trivial)
      (congrArg releaser? hstage).symm nofun
  | deliver hstage => exact h.deliver htabled hstage
  | accept hstage hfree => exact h.accept htabled hstage hfree
  | @data c write chunk hstage =>
    have hopen : (s.conns c).closed = false := h.reads c (by rw [hstage]; rfl)
    have hconn : Named (s.setConn c { s.conns c with
        inBuf := (s.conns c).inBuf ++ chunk
        received := (s.conns c).received ++ chunk }) := h.setConn rfl rfl rfl rfl
    refine hconn.goto ?_ (congrArg releaser? hstage).symm ?_
    · exact fun _ => Stage.serving_of_eq hstage trivial
    · rintro _ ⟨⟩
      rw [s.setConn_self]
      exact hopen
  | login hstage hstate hline hname hnew hnonempty =>
    exact (h.login htabled hstage hstate hnew hnonempty).queueBroadcastMessage
  | refused hstage => exact h.setConn rfl rfl rfl rfl
  | @chat c write line rest hstage =>
    have hconn : Named (s.setConn c { s.conns c with
        inBuf := rest
        chatted := (s.conns c).chatted ++ [line] }) := h.setConn rfl rfl rfl rfl
    exact hconn.frame rfl rfl rfl rfl
  | sent count hstage => exact h.setConn rfl rfl rfl rfl
  | @exchange c write hstage hopen =>
    have hsame : SameNames s (s.setConn c { s.conns c with closed := true }) := .setConn rfl rfl
    refine h.keep ⟨hsame.username, hsame.state⟩ ?_ rfl rfl
      (fun _ => Stage.serving_of_eq hstage trivial) (congrArg releaser? hstage).symm nofun
    exact s.setConn_same Connection.fd rfl
  | leave hstage hname =>
    exact (h.leave htabled hstage hname).queueBroadcastMessage
  | leaveNameless hstage hname => exact h.leaveNameless hstage hname
  | release hstage => exact h.release htabled hstage
  | shutdown hstage =>
    refine h.keep (.of_eq rfl) (fun _ => rfl) rfl rfl ?_ (congrArg releaser? hstage).symm nofun
    intro hserves
    rw [hstage]
    exact hserves
  | closeClient | clear | closeServer => exact h.stopped rfl id rfl
  | workerTurn | take | push | otherOpens | otherCloses => exact h.frame rfl rfl rfl rfl

end Named

section Reachable

variable [Fintype W] [DecidableEq W] {fds : ServerFds} {allowed : Server W → Action W → Prop}

theorem named (hs : Reachable (machine fds) allowed s) : Named s :=
  hs.invariant_of_reachable (.init fds) fun _ _ _ hreach h _ hnext =>
    h.moves (tabled hreach) (moves_of_next hnext)

/-- Between two events `usernames_` is the set of the names of the active connections
in the table, no two of which have the same name. -/
theorem usernames_exact (hs : Reachable (machine fds) AnyStep s) (hstage : s.stage = .polling) :
    Exact s := by
  have h := named hs
  have htabled := tabled hs
  have hserving : s.stage.Serving := Stage.serving_of_eq hstage trivial
  have hholds : ∀ c, Holds s c ↔ c ∈ s.activeConns ∧ (s.conns c).state = .active := by
    intro c
    rw [htabled.mem_activeConns_iff]
    refine ⟨fun hc => ⟨hc.lookup, hc.active⟩, fun hc => ⟨hc.1, hc.2, ?_⟩⟩
    rw [hstage]
    exact nofun
  obtain ⟨hmaps, hinj, hsurj⟩ := h.names hserving
  constructor
  · intro u
    constructor
    · intro hu
      obtain ⟨c, hc, hname⟩ := hsurj hu
      obtain ⟨hin, hactive⟩ := (hholds c).mp hc
      exact ⟨c, hin, hactive, hname⟩
    · rintro ⟨c, hin, hactive, rfl⟩
      exact hmaps ((hholds c).mpr ⟨hin, hactive⟩)
  · intro c hc d hd hcactive hdactive heq
    exact hinj ((hholds c).mpr ⟨hc, hcactive⟩) ((hholds d).mpr ⟨hd, hdactive⟩) heq
  · intro c _ hactive
    exact (h.active c).mp hactive
  · intro c _ hawaiting
    by_contra hname
    have hactive := (h.active c).mpr hname
    rw [hawaiting] at hactive
    cases hactive

end Reachable

section Samples

/-- bob logs in and leaves, and the next connection gets his descriptor and takes his name. -/
theorem usernames_exact_reuse : ∃ s : Server Unit,
    (s.stage = .polling ∧ s.accepted = 2 ∧ s.activeConns = [1] ∧ text "bob" ∈ s.usernames) ∧
      Exact s := by
  have hrun : (run (machine sampleFds) AnyStep (machine sampleFds).init
      ([.epollEvent 4 false true false, .accept 7, .acceptFails, .epollEvent 7 false true false,
        .recv (.bytes (text "bob\n")), .reactor, .reactor, .recv .ended, .reactor, .reactor,
        .reactor, .epollEvent 4 false true false, .accept 7, .acceptFails,
        .epollEvent 7 false true true, .recv (.bytes (text "bo")), .reactor,
        .recv (.bytes (text "b\n")), .reactor, .reactor, .recv .wouldBlock, .reactor] :
        List (Action Unit))).any (fun s => s.stage = .polling ∧ s.accepted = 2 ∧
          s.activeConns = [1] ∧ text "bob" ∈ s.usernames) = true := by
    decide +kernel
  obtain ⟨s, hs, h⟩ := exists_reachable hrun
  exact ⟨s, h, usernames_exact hs h.1⟩

end Samples

end ChatServer.LineServer.Usernames
