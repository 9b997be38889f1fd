import ChatServer.LineServer

/-!
The table of connections of the second version. While the server serves, a connection
object is in `connections_`, under its own descriptor, from accept until close_conn
has released the descriptor, and the descriptor is its own all the time.
-/
namespace ChatServer.LineServer

open Lib.Runs MessageTasks

namespace Stage

/-- The connection that the main thread works on. -/
def conn? : Stage → Option ConnId
  | .reading c _ | .splitting c _ | .writing c | .closing c _ | .leaving c _ | .releasing c _ =>
      some c
  | _ => none

/-- The connection whose flag `closed` is set while it is still in the table. -/
def leaver? : Stage → Option ConnId
  | .leaving c _ | .releasing c _ => some c
  | _ => none

/-- No descriptor has been closed by stop. -/
def Serving : Stage → Prop
  | .stopping again | .joining again => again = false
  | .closingClients _ _ | .closingServer _ _ | .returned | .destroyed => False
  | _ => True

variable {c : ConnId} {write : Bool}

@[simp]
theorem leaver?_after : (Stage.after c write).leaver? = none := by
  cases write <;> rfl

theorem serving_of_eq {stage stage' : Stage} (heq : stage' = stage) (h : stage.Serving) :
    stage'.Serving := by
  rw [heq]
  exact h

theorem serving_after : (Stage.after c write).Serving := by
  cases write <;> trivial

theorem conn?_after {d : ConnId} (h : (Stage.after c write).conn? = some d) : d = c := by
  cases write with
  | true => exact (Option.some.inj h).symm
  | false => cases h

end Stage

variable {W : Type*} {s t : Server W}

/-- What is known of the table. -/
structure Tabled (s : Server W) : Prop where
  fresh : ∀ c, s.accepted ≤ c → s.conns c = .new 0
  key : ∀ fd c, s.connections.lookup fd = some c → c < s.accepted ∧ (s.conns c).fd = fd
  made : ∀ c, s.stage.conn? = some c → c < s.accepted
  closed : ∀ c, s.stage.leaver? = some c → (s.conns c).closed = true
  mapped : s.stage.Serving → ∀ c, c < s.accepted →
    (s.connections.lookup (s.conns c).fd = some c ↔
      (s.conns c).closed = false ∨ s.stage.leaver? = some c)
  owned : s.stage.Serving → ∀ fd c, s.connections.lookup fd = some c →
    s.owner fd = some (.client c)

section Deliver

variable {messages : List Broadcast} {conns : ConnId → Connection} {c : ConnId}

theorem deliverTo_apply (d : ConnId) : deliverTo messages conns d c =
    if c = d ∧ (conns c).Listens then (conns c).append ((conns c).wanted messages)
    else conns c := by
  unfold deliverTo
  by_cases hd : c = d
  · subst hd
    split <;> simp_all
  · split <;> simp [hd]

/-- handle_broadcasts serves each connection of its copy once. -/
theorem foldl_deliverTo {active : List ConnId} (hactive : active.Nodup) :
    active.foldl (deliverTo messages) conns c =
      if c ∈ active ∧ (conns c).Listens then (conns c).append ((conns c).wanted messages)
      else conns c := by
  induction active generalizing conns with
  | nil => simp
  | cons d active ih =>
    obtain ⟨hd, hrest⟩ := List.nodup_cons.mp hactive
    rw [List.foldl_cons, ih hrest, deliverTo_apply]
    by_cases hc : c = d
    · subst hc
      simp [hd]
    · simp [hc]

end Deliver

theorem mem_activeConns {c : ConnId} :
    c ∈ s.activeConns ↔ ∃ fd, s.connections.lookup fd = some c := by
  simp only [Server.activeConns, List.mem_map, ← Option.mem_def, AList.mem_lookup_iff]
  constructor
  · rintro ⟨⟨fd, d⟩, hmem, rfl⟩
    exact ⟨fd, hmem⟩
  · rintro ⟨fd, hmem⟩
    exact ⟨⟨fd, c⟩, hmem, rfl⟩

/-- stop does not go back to serving. -/
theorem Turns.serving {stage : Stage} (h : Turns s stage) (hserves : stage.Serving) :
    s.stage.Serving := by
  cases h with
  | shutDown hstage | joined hstage | destroy hstage => cases hserves
  | @finish again hstage => cases again <;> cases hserves
  | _ hstage =>
    rw [hstage]
    trivial

namespace Tabled

theorem lookup_self (h : Tabled s) {fd : ℕ} {c : ConnId}
    (hlookup : s.connections.lookup fd = some c) :
    s.connections.lookup (s.conns c).fd = some c := by
  rwa [(h.key fd c hlookup).2]

theorem open_of_polling (h : Tabled s) (hstage : s.stage = .polling) {fd : ℕ} {c : ConnId}
    (hlookup : s.connections.lookup fd = some c) : (s.conns c).closed = false := by
  have hserving : s.stage.Serving := Stage.serving_of_eq hstage trivial
  refine ((h.mapped hserving c (h.key fd c hlookup).1).mp (h.lookup_self hlookup)).resolve_right ?_
  rw [hstage]
  exact nofun

/-- close_conn works on a connection that is still in the table. -/
theorem lookup_leaver (h : Tabled s) (hserving : s.stage.Serving) {c : ConnId}
    (hmade : c < s.accepted) (hleaver : s.stage.leaver? = some c) :
    s.connections.lookup (s.conns c).fd = some c :=
  (h.mapped hserving c hmade).mpr (Or.inr hleaver)

theorem mem_activeConns_iff (h : Tabled s) {c : ConnId} :
    c ∈ s.activeConns ↔ s.connections.lookup (s.conns c).fd = some c := by
  rw [mem_activeConns]
  constructor
  · rintro ⟨fd, hlookup⟩
    exact h.lookup_self hlookup
  · exact fun hlookup => ⟨_, hlookup⟩

theorem activeConns_nodup (h : Tabled s) : s.activeConns.Nodup := by
  refine List.Nodup.of_map (fun c => (s.conns c).fd) ?_
  have hkeys : s.activeConns.map (fun c => (s.conns c).fd) = s.connections.keys := by
    rw [Server.activeConns, List.map_map]
    refine List.map_congr_left ?_
    rintro ⟨fd, c⟩ hmem
    exact (h.key fd c (AList.mem_lookup_iff.mpr hmem)).2
  rw [hkeys]
  exact s.connections.keys_nodup

theorem deliver_conns (h : Tabled s) (messages : List Broadcast) (c : ConnId) :
    (s.deliver messages).conns c =
      if c ∈ s.activeConns ∧ (s.conns c).Listens then
        (s.conns c).append ((s.conns c).wanted messages)
      else s.conns c :=
  foldl_deliverTo h.activeConns_nodup

/-- Steps that leave the table and the flags alone. -/
theorem keep (h : Tabled s) (haccepted : t.accepted = s.accepted)
    (hconnections : t.connections = s.connections)
    (howner : ∀ fd c, s.owner fd = some (.client c) → t.owner fd = some (.client c))
    (hfresh : ∀ c, s.accepted ≤ c → t.conns c = s.conns c)
    (hfd : ∀ c, (t.conns c).fd = (s.conns c).fd)
    (hclosed : ∀ c, (t.conns c).closed = (s.conns c).closed)
    (hmade : ∀ c, t.stage.conn? = some c → c < s.accepted)
    (hleaver : t.stage.leaver? = s.stage.leaver?) (hserving : t.stage.Serving → s.stage.Serving) :
    Tabled t where
  fresh c hc := by
    rw [haccepted] at hc
    rw [hfresh c hc, h.fresh c hc]
  key fd c hlookup := by
    rw [hconnections] at hlookup
    rw [haccepted, hfd]
    exact h.key fd c hlookup
  made c hc := haccepted ▸ hmade c hc
  closed c hc := by
    rw [hleaver] at hc
    rw [hclosed]
    exact h.closed c hc
  mapped hserves c hc := by
    rw [haccepted] at hc
    rw [hconnections, hfd, hclosed, hleaver]
    exact h.mapped (hserving hserves) c hc
  owned hserves fd c hlookup := by
    rw [hconnections] at hlookup
    exact howner fd c (h.owned (hserving hserves) fd c hlookup)

/-- A step on a connection object that exists. -/
theorem setConn (h : Tabled s) {c : ConnId} {conn : Connection} (hc : c < s.accepted)
    (hfd : conn.fd = (s.conns c).fd) (hclosed : conn.closed = (s.conns c).closed) :
    Tabled (s.setConn c conn) := by
  refine h.keep rfl rfl (fun _ _ hown => hown) ?_ (s.setConn_same Connection.fd hfd)
    (s.setConn_same Connection.closed hclosed) h.made rfl id
  intro d hd
  exact s.setConn_of_ne (hc.trans_le hd).ne' conn

theorem goto (h : Tabled s) {stage : Stage} (hmade : ∀ c, stage.conn? = some c → c < s.accepted)
    (hleaver : stage.leaver? = s.stage.leaver?) (hserving : stage.Serving → s.stage.Serving) :
    Tabled (s.goto stage) :=
  h.keep rfl rfl (fun _ _ hown => hown) (fun _ _ => rfl) (fun _ => rfl) (fun _ => rfl) hmade hleaver
    hserving

/-- A step that touches neither the connections nor the table. -/
theorem frame (h : Tabled s) (hconns : t.conns = s.conns) (haccepted : t.accepted = s.accepted)
    (hconnections : t.connections = s.connections) (howner : t.owner = s.owner)
    (hstage : t.stage = s.stage) : Tabled t := by
  refine h.keep haccepted hconnections (fun _ _ hown => howner ▸ hown) (fun _ _ => by rw [hconns])
    (fun _ => by rw [hconns]) (fun _ => by rw [hconns]) ?_ (by rw [hstage]) (hstage ▸ id)
  rw [hstage]
  exact h.made

theorem queueBroadcastMessage (h : Tabled s) {msg : Text} {senderFd : Option ℕ}
    {origin : Option (ConnId × Text)} :
    Tabled (s.queueBroadcastMessage msg senderFd origin) :=
  h.frame rfl rfl rfl rfl rfl

/-- The main thread stays with the connection that it works on, or finds one in the table. -/
theorem conn?_of_turns (h : Tabled s) {stage : Stage} (hturn : Turns s stage) {c : ConnId}
    (hc : stage.conn? = some c) : c < s.accepted := by
  have hown : ∀ d, s.stage.conn? = some d → c = d → c < s.accepted :=
    fun d hd heq => heq ▸ h.made d hd
  cases hturn with
  | error hstage hlookup | input hstage hlookup | output hstage hlookup =>
    cases hc
    exact (h.key _ _ hlookup).1
  | @wouldBlock d write hstage => exact hown d (by rw [hstage]; rfl) (Stage.conn?_after hc)
  | @closed d write hstage hclosed => exact hown d (by rw [hstage]; rfl) (Stage.conn?_after hc)
  | @ended d write hstage | @unfinished d write hstage hnone | @failed d hstage =>
    exact hown d (by rw [hstage]; rfl) (Option.some.inj hc).symm
  | @finish again hstage => cases again <;> cases hc
  | _ => cases hc

theorem turn (h : Tabled s) {stage : Stage} (hturn : Turns s stage) : Tabled (s.goto stage) := by
  refine h.goto (fun c hc => h.conn?_of_turns hturn hc) ?_ hturn.serving
  cases hturn with
  | wouldBlock hstage | closed hstage hclosed =>
    rw [hstage, Stage.leaver?_after]
    rfl
  | @finish again hstage =>
    rw [hstage]
    cases again <;> rfl
  | _ hstage => exact (congrArg Stage.leaver? hstage).symm

/-- The kernel gives out a descriptor that no connection in the table has. -/
theorem lookup_of_free (h : Tabled s) (hserving : s.stage.Serving) {fd : ℕ}
    (hfree : s.owner fd = none) (c : ConnId) : s.connections.lookup fd ≠ some c := by
  intro hlookup
  have hown := h.owned hserving fd c hlookup
  rw [hfree] at hown
  cases hown

theorem lookup_accept (h : Tabled s) (hserving : s.stage.Serving) {fd : ℕ}
    (hfree : s.owner fd = none) (fd' : ℕ) (c : ConnId) :
    (s.accept fd).connections.lookup fd' = some c ↔
      (fd' = fd ∧ c = s.accepted) ∨ s.connections.lookup fd' = some c := by
  by_cases hfd : fd' = fd
  · subst hfd
    rw [Server.accept, AList.lookup_insert]
    simp [h.lookup_of_free hserving hfree, eq_comm]
  · rw [Server.accept, AList.lookup_insert_ne hfd]
    simp [hfd]

theorem accept (h : Tabled s) {fd : ℕ} (hstage : s.stage = .accepting) (hfree : s.owner fd = none) :
    Tabled (s.accept fd) := by
  have hserving : s.stage.Serving := Stage.serving_of_eq hstage trivial
  have hnew := h.lookup_of_free hserving hfree
  have hold : ∀ c, c < s.accepted → (s.accept fd).conns c = s.conns c :=
    fun c hc => Function.update_of_ne hc.ne _ _
  have hself : (s.accept fd).conns s.accepted = .new fd := Function.update_self _ _ _
  constructor
  · intro c hc
    have hne : c ≠ s.accepted := (Nat.lt_of_succ_le hc).ne'
    exact (Function.update_of_ne hne _ _).trans (h.fresh c (Nat.le_of_succ_le hc))
  · intro fd' c hin
    rcases (h.lookup_accept hserving hfree fd' c).mp hin with ⟨rfl, rfl⟩ | hin
    · rw [hself]
      exact ⟨Nat.lt_succ_self _, rfl⟩
    · obtain ⟨hc, hfd⟩ := h.key fd' c hin
      rw [hold c hc]
      exact ⟨Nat.lt_succ_of_lt hc, hfd⟩
  · intro c hc
    exact Nat.lt_succ_of_lt (h.made c hc)
  · intro c hc
    change s.stage.leaver? = some c at hc
    rw [hstage] at hc
    cases hc
  · intro _ c hc
    rcases Nat.lt_succ_iff_lt_or_eq.mp hc with hc | rfl
    · rw [hold c hc, h.lookup_accept hserving hfree]
      have hne : ¬((s.conns c).fd = fd ∧ c = s.accepted) := fun heq => hc.ne heq.2
      rw [or_iff_right hne]
      exact h.mapped hserving c hc
    · rw [hself, h.lookup_accept hserving hfree]
      exact iff_of_true (Or.inl ⟨rfl, rfl⟩) (Or.inl rfl)
  · intro _ fd' c hin
    rcases (h.lookup_accept hserving hfree fd' c).mp hin with ⟨rfl, rfl⟩ | hbefore
    · exact Function.update_self _ _ _
    · have hne : fd' ≠ fd := by
        rintro rfl
        exact hnew c hbefore
      exact (Function.update_of_ne hne _ _).trans (h.owned hserving fd' c hbefore)

theorem exchange (h : Tabled s) {c : ConnId} {write : Bool} (hstage : s.stage = .closing c write)
    (hopen : (s.conns c).closed = false) :
    Tabled ((s.setConn c { s.conns c with closed := true }).goto (.leaving c write)) := by
  have hserving : s.stage.Serving := Stage.serving_of_eq hstage trivial
  have hmade : c < s.accepted := h.made c (by rw [hstage]; rfl)
  have hleaver : s.stage.leaver? = none := by
    rw [hstage]
    rfl
  have hother : ∀ d, d ≠ c →
      (s.setConn c { s.conns c with closed := true }).conns d = s.conns d :=
    fun d hd => s.setConn_of_ne hd _
  have hfd : ∀ d, ((s.setConn c { s.conns c with closed := true }).conns d).fd =
      (s.conns d).fd :=
    s.setConn_same Connection.fd rfl
  constructor
  · intro d hd
    exact (hother d (hmade.trans_le hd).ne').trans (h.fresh d hd)
  · intro fd d hin
    obtain ⟨hd, heq⟩ := h.key fd d hin
    exact ⟨hd, (hfd d).trans heq⟩
  · rintro _ ⟨⟩
    exact hmade
  · rintro _ ⟨⟩
    exact congrArg Connection.closed (s.setConn_self c _)
  · intro _ d hd
    show s.connections.lookup ((s.setConn c _).conns d).fd = some d ↔
      ((s.setConn c _).conns d).closed = false ∨ some c = some d
    rw [hfd, h.mapped hserving d hd, hleaver]
    by_cases hdc : d = c
    · subst hdc
      exact iff_of_true (Or.inl hopen) (Or.inr rfl)
    · rw [hother d hdc]
      simp [Ne.symm hdc]
  · intro _ fd d hin
    exact h.owned hserving fd d hin

theorem lookup_release {c d : ConnId} {fd : ℕ} :
    (s.release c).connections.lookup fd = some d ↔
      fd ≠ (s.conns c).fd ∧ s.connections.lookup fd = some d := by
  show (s.connections.erase (s.conns c).fd).lookup fd = some d ↔ _
  by_cases hfd : fd = (s.conns c).fd
  · rw [hfd, AList.lookup_erase]
    simp
  · rw [AList.lookup_erase_ne hfd]
    simp [hfd]

theorem release (h : Tabled s) {c : ConnId} {write : Bool} (hstage : s.stage = .releasing c write) :
    Tabled ((s.release c).goto (.after c write)) := by
  have hserving : s.stage.Serving := Stage.serving_of_eq hstage trivial
  have hleaver : s.stage.leaver? = some c := by
    rw [hstage]
    rfl
  have hmade : c < s.accepted := h.made c (by rw [hstage]; rfl)
  have hmine := h.lookup_leaver hserving hmade hleaver
  constructor
  · exact h.fresh
  · intro fd d hin
    exact h.key fd d (lookup_release.mp hin).2
  · intro d hd
    rw [Stage.conn?_after hd]
    exact hmade
  · intro d hd
    change (Stage.after c write).leaver? = some d at hd
    rw [Stage.leaver?_after] at hd
    cases hd
  · intro _ d hd
    show (s.release c).connections.lookup (s.conns d).fd = some d ↔
      (s.conns d).closed = false ∨ (Stage.after c write).leaver? = some d
    rw [lookup_release, h.mapped hserving d hd, Stage.leaver?_after, hleaver]
    by_cases hdc : d = c
    · subst hdc
      simp [h.closed d hleaver]
    · -- Another connection with this descriptor is not in the table, so it is closed.
      have hdiff : (s.conns d).closed = false → (s.conns d).fd ≠ (s.conns c).fd := by
        intro hopen hfd
        have hyours := (h.mapped hserving d hd).mpr (Or.inl hopen)
        rw [hfd, hmine] at hyours
        exact hdc (Option.some.inj hyours).symm
      simp only [Option.some.injEq, Ne.symm hdc, or_false, reduceCtorEq]
      exact and_iff_right_of_imp hdiff
  · intro _ fd d hin
    obtain ⟨hfd, hin⟩ := lookup_release.mp hin
    exact (Function.update_of_ne hfd _ _).trans (h.owned hserving fd d hin)

theorem stopped (h : Tabled s) (haccepted : t.accepted = s.accepted) (hconns : t.conns = s.conns)
    (hconnections : ∀ fd c, t.connections.lookup fd = some c →
      s.connections.lookup fd = some c)
    (hconn : t.stage.conn? = none) (hleaver : t.stage.leaver? = none)
    (hserving : ¬ t.stage.Serving) : Tabled t where
  fresh := by
    rw [haccepted, hconns]
    exact h.fresh
  key fd c hin := by
    rw [haccepted, hconns]
    exact h.key fd c (hconnections fd c hin)
  made c hc := by
    rw [hconn] at hc
    cases hc
  closed c hc := by
    rw [hleaver] at hc
    cases hc
  mapped hserves := absurd hserves hserving
  owned hserves := absurd hserves hserving

theorem init (fds : ServerFds) : Tabled (.init fds : Server W) where
  fresh _ _ := rfl
  key _ _ hin := nomatch hin
  made _ hc := nomatch hc
  closed _ hc := nomatch hc
  mapped _ _ hc := nomatch hc
  owned _ _ _ hin := nomatch hin

theorem moves [DecidableEq W] {fds : ServerFds} (h : Tabled s) (hmoves : Moves fds s t) :
    Tabled t := by
  have hmade : ∀ {c : ConnId}, s.stage.conn? = some c → c < s.accepted := fun hc => h.made _ hc
  have hstays : ∀ {c : ConnId} {write : Bool}, s.stage = .leaving c write →
      ∀ d, (Stage.releasing c write).conn? = some d → d < s.accepted := by
    intro c write hstage d hd
    exact hmade (by rw [hstage]; exact hd)
  cases hmoves with
  | turn hturn => exact h.turn hturn
  | drain hstage =>
    exact h.keep rfl rfl (fun _ _ hown => hown) (fun _ _ => rfl) (fun _ => rfl) (fun _ => rfl)
      nofun (congrArg Stage.leaver? hstage).symm fun _ => Stage.serving_of_eq hstage trivial
  | @deliver messages hstage =>
    have hconns := h.deliver_conns messages
    refine h.keep rfl rfl (fun _ _ hown => hown) ?_ ?_ ?_ nofun (congrArg Stage.leaver? hstage).symm
      fun _ => Stage.serving_of_eq hstage trivial
    · intro c hc
      have hnot : c ∉ s.activeConns := by
        intro hin
        exact absurd (h.key _ _ (h.mem_activeConns_iff.mp hin)).1 (Nat.not_lt.mpr hc)
      rw [hconns, if_neg fun hin => hnot hin.1]
    · intro c
      rw [hconns]
      split <;> rfl
    · intro c
      rw [hconns]
      split <;> rfl
  | accept hstage hfree => exact h.accept hstage hfree
  | @data c write chunk hstage =>
    have hc : c < s.accepted := hmade (by rw [hstage]; rfl)
    refine (h.setConn hc ?_ ?_).goto ?_ (congrArg Stage.leaver? hstage).symm ?_
    · rfl
    · rfl
    · rintro _ ⟨⟩
      exact hc
    · exact fun _ => Stage.serving_of_eq hstage trivial
  | @login c write name rest hstage =>
    have hnames : Tabled { s with usernames := insert name s.usernames } :=
      h.frame rfl rfl rfl rfl rfl
    refine Tabled.queueBroadcastMessage ?_
    exact hnames.setConn (hmade (by rw [hstage]; rfl)) rfl rfl
  | refused hstage => exact h.setConn (hmade (by rw [hstage]; rfl)) rfl rfl
  | @chat c write line rest hstage =>
    have hconn : Tabled (s.setConn c { s.conns c with
        inBuf := rest
        chatted := (s.conns c).chatted ++ [line] }) :=
      h.setConn (hmade (by rw [hstage]; rfl)) rfl rfl
    exact hconn.frame rfl rfl rfl rfl rfl
  | sent count hstage => exact h.setConn (hmade (by rw [hstage]; rfl)) rfl rfl
  | exchange hstage hopen => exact h.exchange hstage hopen
  | @leave c write hstage hname =>
    have hnames : Tabled { s with usernames := s.usernames.erase (s.conns c).username } :=
      h.frame rfl rfl rfl rfl rfl
    exact hnames.queueBroadcastMessage.goto (hstays hstage) (congrArg Stage.leaver? hstage).symm
      fun _ => Stage.serving_of_eq hstage trivial
  | leaveNameless hstage hname =>
    exact h.goto (hstays hstage) (congrArg Stage.leaver? hstage).symm
      fun _ => Stage.serving_of_eq hstage trivial
  | release hstage => exact h.release hstage
  | @shutdown again hstage =>
    refine h.keep rfl rfl (fun _ _ hown => hown) (fun _ _ => rfl) (fun _ => rfl) (fun _ => rfl)
      nofun (congrArg Stage.leaver? hstage).symm ?_
    intro hserves
    rw [hstage]
    exact hserves
  | closeClient hstage => exact h.stopped rfl rfl (fun _ _ hin => hin) rfl rfl id
  | clear hstage => exact h.stopped rfl rfl nofun rfl rfl id
  | closeServer hstage => exact h.stopped rfl rfl (fun _ _ hin => hin) rfl rfl id
  | workerTurn | take | push => exact h.frame rfl rfl rfl rfl rfl
  | @otherOpens fd hfree =>
    refine h.keep rfl rfl ?_ (fun _ _ => rfl) (fun _ => rfl) (fun _ => rfl) h.made rfl id
    intro fd' c hown
    have hne : fd' ≠ fd := by
      rintro rfl
      rw [hfree] at hown
      cases hown
    exact (Function.update_of_ne hne _ _).trans hown
  | @otherCloses fd hother =>
    refine h.keep rfl rfl ?_ (fun _ _ => rfl) (fun _ => rfl) (fun _ => rfl) h.made rfl id
    intro fd' c hown
    have hne : fd' ≠ fd := by
      rintro rfl
      rw [hother] at hown
      cases hown
    exact (Function.update_of_ne hne _ _).trans hown

end Tabled

theorem tabled [Fintype W] [DecidableEq W] {fds : ServerFds} {allowed : Server W → Action W → Prop}
    (hs : Reachable (machine fds) allowed s) : Tabled s :=
  hs.invariant (.init fds) fun _ _ _ h _ hnext => h.moves (moves_of_next hnext)

end ChatServer.LineServer
