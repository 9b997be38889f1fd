import ChatServer.LineServer.Connections

/-!
Who closes the descriptors of the second version. A connection's is closed by
close_conn, which takes it out of the table, or by stop, which empties the table.
The descriptors of the server are closed by stop as well, but the members keep their
numbers, and stop is called by run and again by the destructor.
-/
namespace ChatServer.LineServer.DescriptorClosing

open Lib.Runs

variable {W : Type*} {s t : Server W} {c : ConnId}

/-- For each call of `close` that is meant for a descriptor of this owner, whose the
descriptor was. -/
def found (closes : List Close) (o : Owner) : List (Option Owner) :=
  (closes.filter fun call => call.target = o).map Close.found

/-- There was one call for each descriptor, and at that time it was still open. -/
structure ClosedOnce (s : Server W) : Prop where
  clients : ∀ c, c < s.accepted → found s.closes (.client c) = [some (.client c)]
  server : ∀ h, found s.closes (.server h) = [some (.server h)]

/-- The connections whose descriptor is still to be closed. -/
def clientsLeft (active : List ConnId) : Stage → List ConnId
  | .closingClients _ rest => rest.map Prod.snd
  | _ => active

/-- The descriptors of the server that were not yet closed. -/
def firstLeft : Stage → List ServerFd
  | .closingServer false rest => rest
  | .closingServer true _ | .returned | .stopping true | .joining true | .closingClients true _
  | .destroyed => []
  | _ => serverFds

/-- The descriptors of the server that the destructor has still to close. -/
def secondLeft : Stage → List ServerFd
  | .closingServer true rest => rest
  | .destroyed => []
  | _ => serverFds

section Close

variable {fd : ℕ} {o o' : Owner}

theorem found_close_self : found (s.close fd o).closes o = found s.closes o ++ [s.owner fd] := by
  simp [found, Server.close]

theorem found_close_of_ne (h : o ≠ o') : found (s.close fd o).closes o' = found s.closes o' := by
  simp [found, Server.close, h]

theorem owner_close_of_ne {fd' : ℕ} (h : fd' ≠ fd) : (s.close fd o).owner fd' = s.owner fd' :=
  Function.update_of_ne h _ _

end Close

theorem mem_serverFds (h : ServerFd) : h ∈ serverFds := by
  cases h <;> decide

section Clients

/-- stop has emptied `connections_`. -/
def Cleared : Stage → Prop
  | .closingServer _ _ | .returned | .destroyed => True
  | _ => False

/-- What stop goes through is what was in the table, which it then empties. -/
structure Visiting (s : Server W) : Prop where
  fds : ∀ again rest, s.stage = .closingClients again rest → ∀ e ∈ rest,
    e.2 < s.accepted ∧ (s.conns e.2).fd = e.1
  nodup : ∀ again rest, s.stage = .closingClients again rest → (rest.map Prod.snd).Nodup
  cleared : Cleared s.stage → s.connections = ∅

namespace Visiting

theorem of_serving (hserving : s.stage.Serving) : Visiting s := by
  have hnot : ∀ again rest, s.stage ≠ .closingClients again rest := by
    intro again rest hstage
    rw [hstage] at hserving
    exact hserving
  refine ⟨fun again rest hstage => absurd hstage (hnot again rest),
    fun again rest hstage => absurd hstage (hnot again rest), fun hcleared => ?_⟩
  cases hstage : s.stage with
  | closingServer again rest | returned | destroyed =>
    rw [hstage] at hserving
    exact hserving.elim
  | _ =>
    rw [hstage] at hcleared
    exact hcleared.elim

theorem keep (h : Visiting s) (hstage : t.stage = s.stage) (haccepted : t.accepted = s.accepted)
    (hfd : ∀ c, (t.conns c).fd = (s.conns c).fd) (hconnections : t.connections = s.connections) :
    Visiting t where
  fds := by
    rw [hstage, haccepted]
    simp only [hfd]
    exact h.fds
  nodup := by
    rw [hstage]
    exact h.nodup
  cleared := by
    rw [hstage, hconnections]
    exact h.cleared

/-- stop begins with the clients. -/
theorem visit (htabled : Tabled s) (again : Bool) :
    Visiting (s.goto (.closingClients again s.clients)) where
  fds := by
    rintro _ _ ⟨⟩ e hin
    obtain ⟨entry, hentry, rfl⟩ := List.mem_map.mp hin
    exact htabled.key _ _ (AList.mem_lookup_iff.mpr hentry)
  nodup := by
    rintro _ _ ⟨⟩
    rw [Server.clients, List.map_map]
    exact htabled.activeConns_nodup
  cleared := nofun

theorem turn (h : Visiting s) (htabled : Tabled s) {stage : Stage} (hturn : Turns s stage) :
    Visiting (s.goto stage) := by
  cases hturn with
  | shutDown | joined => exact visit htabled _
  | @finish again hstage =>
    have hempty := h.cleared (by rw [hstage]; trivial)
    cases again with
    | false => exact ⟨nofun, nofun, fun _ => hempty⟩
    | true => exact ⟨nofun, nofun, fun _ => hempty⟩
  | destroy => exact ⟨nofun, nofun, nofun⟩
  | wouldBlock | closed => exact of_serving Stage.serving_after
  | stop => exact of_serving rfl
  | _ => exact of_serving trivial

theorem moves [DecidableEq W] {fds : ServerFds} (h : Visiting s) (htabled : Tabled s)
    (hmoves : Moves fds s t) : Visiting t := by
  cases hmoves with
  | turn hturn => exact h.turn htabled hturn
  | drain | deliver | data | exchange | leave | leaveNameless => exact of_serving trivial
  | release => exact of_serving Stage.serving_after
  | accept hstage =>
    exact of_serving (Stage.serving_of_eq hstage trivial)
  | login | refused | chat | sent =>
    refine h.keep rfl rfl ?_ rfl
    exact Server.setConn_same _ Connection.fd rfl
  | shutdown => exact ⟨nofun, nofun, nofun⟩
  | @closeClient again fd c rest hstage =>
    refine ⟨?_, ?_, nofun⟩
    · rintro _ _ ⟨⟩ e hin
      exact h.fds again _ hstage e (List.mem_cons_of_mem _ hin)
    · rintro _ _ ⟨⟩
      exact (List.nodup_cons.mp (h.nodup again _ hstage)).2
  | clear => exact ⟨nofun, nofun, fun _ => rfl⟩
  | closeServer hstage => exact ⟨nofun, nofun, fun _ => h.cleared (by rw [hstage]; trivial)⟩
  | workerTurn | take | push | otherOpens | otherCloses => exact h.keep rfl rfl (fun _ => rfl) rfl

end Visiting

/-- A connection has its descriptor until the one call that closes it. -/
structure ClientClosing (s : Server W) : Prop where
  left : ∀ c ∈ clientsLeft s.activeConns s.stage,
    found s.closes (.client c) = [] ∧ s.owner (s.conns c).fd = some (.client c)
  closed : ∀ c, c < s.accepted → c ∉ clientsLeft s.activeConns s.stage →
    found s.closes (.client c) = [some (.client c)]
  fresh : ∀ c, s.accepted ≤ c → found s.closes (.client c) = []

namespace ClientClosing

theorem keep (h : ClientClosing s)
    (hfound : ∀ c, found t.closes (.client c) = found s.closes (.client c))
    (howner : ∀ fd c, s.owner fd = some (.client c) → t.owner fd = some (.client c))
    (haccepted : t.accepted = s.accepted) (hfd : ∀ c, (t.conns c).fd = (s.conns c).fd)
    (hleft : clientsLeft t.activeConns t.stage = clientsLeft s.activeConns s.stage) :
    ClientClosing t where
  left c hin := by
    rw [hleft] at hin
    rw [hfound, hfd]
    exact ⟨(h.left c hin).1, howner _ _ (h.left c hin).2⟩
  closed c hc hnot := by
    rw [haccepted] at hc
    rw [hleft] at hnot
    rw [hfound]
    exact h.closed c hc hnot
  fresh c hc := by
    rw [haccepted] at hc
    rw [hfound]
    exact h.fresh c hc

theorem frame (h : ClientClosing s) (hcloses : t.closes = s.closes) (howner : t.owner = s.owner)
    (haccepted : t.accepted = s.accepted) (hfd : ∀ c, (t.conns c).fd = (s.conns c).fd)
    (hleft : clientsLeft t.activeConns t.stage = clientsLeft s.activeConns s.stage) :
    ClientClosing t :=
  h.keep (fun _ => by rw [hcloses]) (fun _ _ hown => howner ▸ hown) haccepted hfd hleft

/-- The descriptor of one connection is closed. -/
theorem closeOne (h : ClientClosing s) (hmade : c < s.accepted)
    (hin : c ∈ clientsLeft s.activeConns s.stage)
    (hcloses : t.closes = (s.close (s.conns c).fd (.client c)).closes)
    (howner : t.owner = (s.close (s.conns c).fd (.client c)).owner)
    (haccepted : t.accepted = s.accepted) (hconns : t.conns = s.conns)
    (hleft : ∀ d, d ∈ clientsLeft t.activeConns t.stage ↔
      d ∈ clientsLeft s.activeConns s.stage ∧ d ≠ c) : ClientClosing t := by
  obtain ⟨hnone, hmine⟩ := h.left c hin
  have hfound : ∀ d, d ≠ c → found t.closes (.client d) = found s.closes (.client d) := by
    intro d hd
    rw [hcloses]
    exact found_close_of_ne fun heq => hd (Owner.client.inj heq).symm
  constructor
  · intro d hd
    obtain ⟨hd, hne⟩ := (hleft d).mp hd
    obtain ⟨hfresh, hown⟩ := h.left d hd
    have hfd : (s.conns d).fd ≠ (s.conns c).fd := by
      intro heq
      rw [heq, hmine] at hown
      exact hne (Owner.client.inj (Option.some.inj hown)).symm
    rw [hfound d hne, hconns, howner, owner_close_of_ne hfd]
    exact ⟨hfresh, hown⟩
  · intro d hd hnot
    rw [haccepted] at hd
    by_cases hne : d = c
    · rw [hne, hcloses, found_close_self, hnone, hmine]
      rfl
    · rw [hfound d hne]
      exact h.closed d hd fun hleft' => hnot ((hleft d).mpr ⟨hleft', hne⟩)
  · intro d hd
    rw [haccepted] at hd
    rw [hfound d (hmade.trans_le hd).ne']
    exact h.fresh d hd

theorem turn (h : ClientClosing s) {stage : Stage} (hturn : Turns s stage) :
    ClientClosing (s.goto stage) := by
  refine h.frame rfl rfl rfl (fun _ => rfl) ?_
  show clientsLeft s.activeConns stage = _
  cases hturn with
  | shutDown hstage | joined hstage =>
    rw [hstage]
    exact List.map_map
  | @wouldBlock c write hstage | @closed c write hstage hclosed =>
    rw [hstage]
    cases write <;> rfl
  | @finish again hstage =>
    rw [hstage]
    cases again <;> rfl
  | _ hstage => exact (congrArg (clientsLeft s.activeConns) hstage).symm

theorem accept (h : ClientClosing s) (htabled : Tabled s) {fd : ℕ} (hstage : s.stage = .accepting)
    (hfree : s.owner fd = none) : ClientClosing (s.accept fd) := by
  have hserving : s.stage.Serving := Stage.serving_of_eq hstage trivial
  have hleft : clientsLeft s.activeConns s.stage = s.activeConns := by
    rw [hstage]
    rfl
  have hleft' : clientsLeft (s.accept fd).activeConns (s.accept fd).stage =
      (s.accept fd).activeConns := by
    show clientsLeft _ s.stage = _
    rw [hstage]
    rfl
  have hself : (s.accept fd).conns s.accepted = .new fd := Function.update_self _ _ _
  have hother : ∀ d, d ≠ s.accepted → (s.accept fd).conns d = s.conns d :=
    fun d hd => Function.update_of_ne hd _ _
  have hin : ∀ d, d ∈ (s.accept fd).activeConns ↔ d = s.accepted ∨ d ∈ s.activeConns := by
    intro d
    simp only [mem_activeConns, htabled.lookup_accept hserving hfree, exists_or, exists_eq_left]
  constructor
  · intro d hd
    rw [hleft', hin] at hd
    by_cases hne : d = s.accepted
    · rw [hne, hself]
      exact ⟨h.fresh _ (le_refl _), Function.update_self _ _ _⟩
    · rw [hother d hne]
      obtain ⟨hnone, hown⟩ := h.left d (by rw [hleft]; exact hd.resolve_left hne)
      have hfd : (s.conns d).fd ≠ fd := by
        intro heq
        rw [heq, hfree] at hown
        cases hown
      exact ⟨hnone, (Function.update_of_ne hfd _ _).trans hown⟩
  · intro d hd hnot
    rw [hleft', hin, not_or] at hnot
    refine h.closed d ((Nat.lt_succ_iff_lt_or_eq.mp hd).resolve_right hnot.1) ?_
    rw [hleft]
    exact hnot.2
  · intro d hd
    exact h.fresh d (Nat.le_of_succ_le hd)

theorem release (h : ClientClosing s) (htabled : Tabled s) {write : Bool}
    (hstage : s.stage = .releasing c write) :
    ClientClosing ((s.release c).goto (.after c write)) := by
  have hserving : s.stage.Serving := Stage.serving_of_eq hstage trivial
  have hmade : c < s.accepted := htabled.made c (by rw [hstage]; rfl)
  have hmine := htabled.lookup_leaver hserving hmade (by rw [hstage]; rfl)
  have hleft : clientsLeft s.activeConns s.stage = s.activeConns := by
    rw [hstage]
    rfl
  have hleft' : clientsLeft (s.release c).activeConns (.after c write) =
      (s.release c).activeConns := by
    cases write <;> rfl
  refine h.closeOne hmade ?_ rfl rfl rfl rfl ?_
  · rw [hleft]
    exact mem_activeConns.mpr ⟨_, hmine⟩
  · intro d
    show d ∈ clientsLeft (s.release c).activeConns (.after c write) ↔ _
    rw [hleft', hleft, mem_activeConns, mem_activeConns]
    constructor
    · rintro ⟨fd, hafter⟩
      obtain ⟨hfd, hlookup⟩ := Tabled.lookup_release.mp hafter
      refine ⟨⟨fd, hlookup⟩, ?_⟩
      rintro rfl
      exact hfd (htabled.key fd d hlookup).2.symm
    · rintro ⟨⟨fd, hlookup⟩, hne⟩
      refine ⟨fd, Tabled.lookup_release.mpr ⟨?_, hlookup⟩⟩
      rintro rfl
      rw [hmine] at hlookup
      exact hne (Option.some.inj hlookup).symm

theorem closeClient (h : ClientClosing s) (hvisiting : Visiting s) {again : Bool} {fd : ℕ}
    {rest : List (ℕ × ConnId)} (hstage : s.stage = .closingClients again ((fd, c) :: rest)) :
    ClientClosing ((s.close fd (.client c)).goto (.closingClients again rest)) := by
  obtain ⟨hmade, hfd⟩ := hvisiting.fds again _ hstage (fd, c) List.mem_cons_self
  obtain ⟨hnot, _⟩ := List.nodup_cons.mp (hvisiting.nodup again _ hstage)
  have hleft : clientsLeft s.activeConns s.stage = c :: rest.map Prod.snd := by
    rw [hstage]
    rfl
  refine h.closeOne hmade ?_ ?_ ?_ rfl rfl ?_
  · rw [hleft]
    exact List.mem_cons_self
  · rw [hfd]
    rfl
  · rw [hfd]
    rfl
  · intro d
    show d ∈ rest.map Prod.snd ↔ _
    rw [hleft, List.mem_cons]
    constructor
    · intro hd
      refine ⟨Or.inr hd, ?_⟩
      rintro rfl
      exact hnot hd
    · rintro ⟨hd, hne⟩
      exact hd.resolve_left hne

/-- The descriptors of the server are closed when no client is left. -/
theorem closeServer (h : ClientClosing s) (hvisiting : Visiting s) {again : Bool} {k : ServerFd}
    {rest : List ServerFd} (hstage : s.stage = .closingServer again (k :: rest)) (fd : ℕ) :
    ClientClosing ((s.close fd (.server k)).goto (.closingServer again rest)) := by
  have hempty := hvisiting.cleared (by rw [hstage]; trivial)
  have hnone : s.activeConns = [] := by
    rw [Server.activeConns, hempty]
    rfl
  have hleft : clientsLeft s.activeConns s.stage = [] := by
    rw [hstage]
    exact hnone
  have hfound : ∀ c, found (s.close fd (.server k)).closes (.client c) =
      found s.closes (.client c) := by
    intro c
    have hne : Owner.server k ≠ .client c := by
      intro heq
      cases heq
    exact found_close_of_ne hne
  constructor
  · intro c hc
    change c ∈ s.activeConns at hc
    rw [hnone] at hc
    cases hc
  · intro c hc _
    refine (hfound c).trans (h.closed c hc ?_)
    rw [hleft]
    exact List.not_mem_nil
  · intro c hc
    exact (hfound c).trans (h.fresh c hc)

/-- Descriptors that were nobody's or another owner's. -/
theorem handOver (h : ClientClosing s) {fd : ℕ} {o : Option Owner}
    (hbefore : ∀ c, s.owner fd ≠ some (.client c)) :
    ClientClosing { s with owner := Function.update s.owner fd o } := by
  refine h.keep (fun _ => rfl) ?_ rfl (fun _ => rfl) rfl
  intro fd' c hown
  have hne : fd' ≠ fd := by
    rintro rfl
    exact hbefore c hown
  exact (Function.update_of_ne hne _ _).trans hown

theorem moves [DecidableEq W] {fds : ServerFds} (h : ClientClosing s) (htabled : Tabled s)
    (hvisiting : Visiting s) (hmoves : Moves fds s t) : ClientClosing t := by
  cases hmoves with
  | turn hturn => exact h.turn hturn
  | deliver hstage =>
    refine h.frame rfl rfl rfl (fun c => ?_) (congrArg (clientsLeft s.activeConns) hstage).symm
    rw [htabled.deliver_conns]
    split <;> rfl
  | accept hstage hfree => exact h.accept htabled hstage hfree
  | login | refused | chat | sent =>
    refine h.frame rfl rfl rfl ?_ rfl
    exact Server.setConn_same _ Connection.fd rfl
  | data chunk hstage | exchange hstage =>
    refine h.frame rfl rfl rfl ?_ (congrArg (clientsLeft s.activeConns) hstage).symm
    exact Server.setConn_same _ Connection.fd rfl
  | drain hstage | leave hstage | leaveNameless hstage | shutdown hstage =>
    exact h.frame rfl rfl rfl (fun _ => rfl) (congrArg (clientsLeft s.activeConns) hstage).symm
  | release hstage => exact h.release htabled hstage
  | closeClient hstage => exact h.closeClient hvisiting hstage
  | clear hstage =>
    refine h.frame rfl rfl rfl (fun _ => rfl) ?_
    rw [hstage]
    rfl
  | closeServer hstage => exact h.closeServer hvisiting hstage _
  | workerTurn | take | push => exact h.frame rfl rfl rfl (fun _ => rfl) rfl
  | otherOpens hfree | otherCloses hfree =>
    refine h.handOver fun c => ?_
    rw [hfree]
    exact nofun

theorem init (fds : ServerFds) : ClientClosing (.init fds : Server W) where
  left _ hc := nomatch hc
  closed _ hc := nomatch hc
  fresh _ _ := rfl

end ClientClosing

end Clients

section Server

variable {fds : ServerFds}

/-- The first call for a descriptor of the server finds it open, the second does not. -/
structure ServerClosing (fds : ServerFds) (s : Server W) : Prop where
  left : ∀ h ∈ firstLeft s.stage,
    found s.closes (.server h) = [] ∧ s.owner (fds.fd h) = some (.server h)
  closed : ∀ h ∈ secondLeft s.stage, h ∉ firstLeft s.stage →
    found s.closes (.server h) = [some (.server h)]
  again : ∀ h, h ∉ secondLeft s.stage →
    ∃ o, found s.closes (.server h) = [some (.server h), o] ∧ o ≠ some (.server h)
  placed : ∀ fd h, s.owner fd = some (.server h) → fd = fds.fd h ∧ h ∈ firstLeft s.stage
  first_nodup : (firstLeft s.stage).Nodup
  second_nodup : (secondLeft s.stage).Nodup

namespace ServerClosing

theorem keep (hs : ServerClosing fds s)
    (hfound : ∀ h, found t.closes (.server h) = found s.closes (.server h))
    (howner : ∀ fd h, t.owner fd = some (.server h) ↔ s.owner fd = some (.server h))
    (hfirst : firstLeft t.stage = firstLeft s.stage)
    (hsecond : secondLeft t.stage = secondLeft s.stage) : ServerClosing fds t where
  left h hin := by
    rw [hfirst] at hin
    rw [hfound, howner]
    exact hs.left h hin
  closed h hin hnot := by
    rw [hsecond] at hin
    rw [hfirst] at hnot
    rw [hfound]
    exact hs.closed h hin hnot
  again h hnot := by
    rw [hsecond] at hnot
    rw [hfound]
    exact hs.again h hnot
  placed fd h hown := by
    rw [hfirst]
    exact hs.placed fd h ((howner fd h).mp hown)
  first_nodup := hfirst ▸ hs.first_nodup
  second_nodup := hsecond ▸ hs.second_nodup

/-- A step that leaves the descriptors alone. -/
theorem frame (hs : ServerClosing fds s) (hcloses : t.closes = s.closes)
    (howner : t.owner = s.owner) (hfirst : firstLeft t.stage = firstLeft s.stage)
    (hsecond : secondLeft t.stage = secondLeft s.stage) : ServerClosing fds t :=
  hs.keep (fun _ => by rw [hcloses]) (fun _ _ => by rw [howner]) hfirst hsecond

theorem turn (hs : ServerClosing fds s) {stage : Stage} (hturn : Turns s stage) :
    ServerClosing fds (s.goto stage) := by
  refine hs.frame rfl rfl ?_ ?_
  · cases hturn with
    | @wouldBlock c write hstage | @closed c write hstage hclosed =>
      rw [hstage]
      cases write <;> rfl
    | @shutDown again hstage | @joined again hstage | @finish again hstage =>
      rw [hstage]
      cases again <;> rfl
    | _ hstage => exact (congrArg firstLeft hstage).symm
  · cases hturn with
    | @wouldBlock c write hstage | @closed c write hstage hclosed =>
      rw [hstage]
      cases write <;> rfl
    | @shutDown again hstage | @joined again hstage | @finish again hstage =>
      rw [hstage]
      cases again <;> rfl
    | _ hstage => exact (congrArg secondLeft hstage).symm

/-- A descriptor that is not the server's changes hands. -/
theorem handOver (hs : ServerClosing fds s) {fd : ℕ} {o : Option Owner}
    (hbefore : ∀ h, s.owner fd ≠ some (.server h)) (hafter : ∀ h, o ≠ some (.server h))
    (howner : t.owner = Function.update s.owner fd o)
    (hfound : ∀ h, found t.closes (.server h) = found s.closes (.server h))
    (hfirst : firstLeft t.stage = firstLeft s.stage)
    (hsecond : secondLeft t.stage = secondLeft s.stage) : ServerClosing fds t := by
  refine hs.keep hfound ?_ hfirst hsecond
  intro fd' h
  rw [howner]
  by_cases hfd : fd' = fd
  · rw [hfd, Function.update_self]
    exact iff_of_false (hafter h) (hbefore h)
  · rw [Function.update_of_ne hfd]

section CloseServer

variable {k : ServerFd} {rest : List ServerFd}

theorem found_close_server {h : ServerFd} (hne : h ≠ k) :
    found (s.close (fds.fd k) (.server k)).closes (.server h) = found s.closes (.server h) :=
  found_close_of_ne fun heq => hne (Owner.server.inj heq).symm

theorem placed_close (hs : ServerClosing fds s) {fd : ℕ} {h : ServerFd}
    (hown : (s.close (fds.fd k) (.server k)).owner fd = some (.server h)) :
    fd = fds.fd h ∧ h ∈ firstLeft s.stage ∧ h ≠ k := by
  have hfd : fd ≠ fds.fd k := by
    rintro rfl
    have hclosed : (s.close (fds.fd k) (.server k)).owner (fds.fd k) = none :=
      Function.update_self _ _ _
    rw [hclosed] at hown
    cases hown
  rw [owner_close_of_ne hfd] at hown
  obtain ⟨heq, hin⟩ := hs.placed fd h hown
  refine ⟨heq, hin, ?_⟩
  rintro rfl
  exact hfd heq

/-- The first stop finds the next of the four descriptors open. -/
theorem closeFirst (hs : ServerClosing fds s)
    (hstage : s.stage = .closingServer false (k :: rest)) :
    ServerClosing fds ((s.close (fds.fd k) (.server k)).goto (.closingServer false rest)) := by
  have hfirst : firstLeft s.stage = k :: rest := congrArg firstLeft hstage
  have hsecond : secondLeft s.stage = serverFds := congrArg secondLeft hstage
  obtain ⟨hk, hrest⟩ := List.nodup_cons.mp (hfirst ▸ hs.first_nodup)
  constructor
  · intro h hin
    change h ∈ rest at hin
    have hne : h ≠ k := fun heq => hk (heq ▸ hin)
    obtain ⟨hnone, hopen⟩ := hs.left h (by rw [hfirst]; exact List.mem_cons_of_mem k hin)
    have howner : (s.close (fds.fd k) (.server k)).owner (fds.fd h) = s.owner (fds.fd h) :=
      owner_close_of_ne fun heq => hne (fds.injective heq)
    exact ⟨(found_close_server hne).trans hnone, howner.trans hopen⟩
  · intro h _ hnot
    change h ∉ rest at hnot
    by_cases hne : h = k
    · obtain ⟨hnone, hopen⟩ := hs.left k (by rw [hfirst]; exact List.mem_cons_self)
      have hcalls : found (s.close (fds.fd k) (.server k)).closes (.server k) =
          [some (.server k)] := by
        rw [found_close_self, hnone, hopen, List.nil_append]
      rw [hne]
      exact hcalls
    · refine (found_close_server hne).trans (hs.closed h ?_ ?_)
      · rw [hsecond]
        exact mem_serverFds h
      · rw [hfirst, List.mem_cons]
        exact not_or.mpr ⟨hne, hnot⟩
  · exact fun h hnot => absurd (mem_serverFds h) hnot
  · intro fd h hown
    obtain ⟨heq, hin, hne⟩ := hs.placed_close hown
    rw [hfirst, List.mem_cons] at hin
    exact ⟨heq, hin.resolve_left hne⟩
  · exact hrest
  · have hall := hs.second_nodup
    rw [hsecond] at hall
    exact hall

/-- The first stop has closed it, so whoever has the number now is another owner. -/
theorem closeSecond (hs : ServerClosing fds s)
    (hstage : s.stage = .closingServer true (k :: rest)) :
    ServerClosing fds ((s.close (fds.fd k) (.server k)).goto (.closingServer true rest)) := by
  have hsecond : secondLeft s.stage = k :: rest := congrArg secondLeft hstage
  have hgone : ∀ h, h ∉ firstLeft s.stage := by
    rw [hstage]
    exact fun h => List.not_mem_nil
  obtain ⟨hk, hrest⟩ := List.nodup_cons.mp (hsecond ▸ hs.second_nodup)
  constructor
  · exact fun h hin => absurd hin List.not_mem_nil
  · intro h hin _
    change h ∈ rest at hin
    have hne : h ≠ k := fun heq => hk (heq ▸ hin)
    refine (found_close_server hne).trans (hs.closed h ?_ (hgone h))
    rw [hsecond]
    exact List.mem_cons_of_mem k hin
  · intro h hnot
    change h ∉ rest at hnot
    by_cases hne : h = k
    · have honce := hs.closed k (by rw [hsecond]; exact List.mem_cons_self) (hgone k)
      have hcalls : found (s.close (fds.fd k) (.server k)).closes (.server k) =
          [some (.server k), s.owner (fds.fd k)] := by
        rw [found_close_self, honce, List.singleton_append]
      rw [hne]
      exact ⟨_, hcalls, fun hown => hgone k (hs.placed _ k hown).2⟩
    · obtain ⟨o, hcalls, ho⟩ := hs.again h (by
        rw [hsecond, List.mem_cons]
        exact not_or.mpr ⟨hne, hnot⟩)
      exact ⟨o, (found_close_server hne).trans hcalls, ho⟩
  · exact fun fd h hown => absurd (hs.placed_close hown).2.1 (hgone h)
  · exact List.nodup_nil
  · exact hrest

theorem closeServer (hs : ServerClosing fds s) {again : Bool}
    (hstage : s.stage = .closingServer again (k :: rest)) :
    ServerClosing fds ((s.close (fds.fd k) (.server k)).goto (.closingServer again rest)) := by
  cases again with
  | false => exact hs.closeFirst hstage
  | true => exact hs.closeSecond hstage

end CloseServer

theorem init (fds : ServerFds) : ServerClosing fds (.init fds : Server W) := by
  have howner : ∀ fd h, (.init fds : Server W).owner fd = some (.server h) ↔ fd = fds.fd h := by
    intro fd h
    show (serverFds.find? fun k => fds.fd k = fd).map Owner.server = some (.server h) ↔ _
    rw [Option.map_eq_some_iff]
    constructor
    · rintro ⟨k, hfind, hk⟩
      cases hk
      have hmatch := List.find?_some hfind
      exact (of_decide_eq_true hmatch).symm
    · rintro rfl
      refine ⟨h, ?_, rfl⟩
      cases h <;> simp [serverFds, fds.injective.eq_iff]
  have hdistinct : serverFds.Nodup := by decide
  constructor
  · exact fun h _ => ⟨rfl, (howner _ h).mpr rfl⟩
  · exact fun h _ hnot => absurd (mem_serverFds h) hnot
  · exact fun h hnot => absurd (mem_serverFds h) hnot
  · exact fun fd h hown => ⟨(howner fd h).mp hown, mem_serverFds h⟩
  · exact hdistinct
  · exact hdistinct

/-- A descriptor that a client has is not the server's. -/
theorem closeClient (hs : ServerClosing fds s) {fd : ℕ}
    (hmine : s.owner fd = some (.client c)) (hcloses : t.closes = (s.close fd (.client c)).closes)
    (howner : t.owner = Function.update s.owner fd none)
    (hfirst : firstLeft t.stage = firstLeft s.stage)
    (hsecond : secondLeft t.stage = secondLeft s.stage) : ServerClosing fds t := by
  refine hs.handOver ?_ ?_ howner ?_ hfirst hsecond
  · intro h
    rw [hmine]
    exact nofun
  · exact fun h => nofun
  · intro h
    have hne : Owner.client c ≠ .server h := nofun
    rw [hcloses]
    exact found_close_of_ne hne

theorem moves [DecidableEq W] (hs : ServerClosing fds s) (htabled : Tabled s)
    (hvisiting : Visiting s) (hclients : ClientClosing s) (hmoves : Moves fds s t) :
    ServerClosing fds t := by
  cases hmoves with
  | turn hturn => exact hs.turn hturn
  | accept hstage hfree =>
    refine hs.handOver ?_ ?_ rfl (fun _ => rfl) rfl rfl
    · rw [hfree]
      exact fun h => nofun
    · exact fun h => nofun
  | @release c write hstage =>
    have hserving : s.stage.Serving := Stage.serving_of_eq hstage trivial
    have hmade : c < s.accepted := htabled.made c (by rw [hstage]; rfl)
    have hmine := htabled.owned hserving _ c
      (htabled.lookup_leaver hserving hmade (by rw [hstage]; rfl))
    refine hs.closeClient hmine rfl rfl ?_ ?_
    · rw [hstage]
      cases write <;> rfl
    · rw [hstage]
      cases write <;> rfl
  | @closeClient again fd c rest hstage =>
    have hfd : (s.conns c).fd = fd :=
      (hvisiting.fds again _ hstage (fd, c) List.mem_cons_self).2
    obtain ⟨_, hmine⟩ := hclients.left c (by rw [hstage]; exact List.mem_cons_self)
    rw [hfd] at hmine
    refine hs.closeClient hmine rfl rfl ?_ ?_
    · rw [hstage]
      cases again <;> rfl
    · rw [hstage]
      cases again <;> rfl
  | @shutdown again hstage | @clear again hstage =>
    refine hs.frame rfl rfl ?_ ?_
    · rw [hstage]
      cases again <;> rfl
    · rw [hstage]
      cases again <;> rfl
  | closeServer hstage => exact hs.closeServer hstage
  | login | refused | chat | sent | workerTurn | take | push => exact hs.frame rfl rfl rfl rfl
  | drain hstage | deliver hstage | data chunk hstage | exchange hstage | leave hstage
  | leaveNameless hstage =>
    exact hs.frame rfl rfl (congrArg firstLeft hstage).symm (congrArg secondLeft hstage).symm
  | otherOpens hfree =>
    refine hs.handOver ?_ ?_ rfl (fun _ => rfl) rfl rfl
    · rw [hfree]
      exact fun h => nofun
    · exact fun h => nofun
  | otherCloses hother =>
    refine hs.handOver ?_ ?_ rfl (fun _ => rfl) rfl rfl
    · rw [hother]
      exact fun h => nofun
    · exact fun h => nofun

end ServerClosing

end Server

section Reachable

variable [Fintype W] [DecidableEq W] {fds : ServerFds} {allowed : Server W → Action W → Prop}

theorem visiting (hs : Reachable (machine fds) allowed s) : Visiting s :=
  hs.invariant_of_reachable (.of_serving trivial) fun _ _ _ hreach h _ hnext =>
    h.moves (tabled hreach) (moves_of_next hnext)

theorem clientClosing (hs : Reachable (machine fds) allowed s) : ClientClosing s :=
  hs.invariant_of_reachable (.init fds) fun _ _ _ hreach h _ hnext =>
    h.moves (tabled hreach) (visiting hreach) (moves_of_next hnext)

theorem serverClosing (hs : Reachable (machine fds) allowed s) : ServerClosing fds s :=
  hs.invariant_of_reachable (.init fds) fun _ _ _ hreach h _ hnext =>
    h.moves (tabled hreach) (visiting hreach) (clientClosing hreach) (moves_of_next hnext)

/-- In every run to its end each connection's descriptor is closed once, by its owner,
and each of the four descriptors of the server is closed twice, the second time when
the number is not its own. -/
theorem closed_twice (hs : Reachable (machine fds) AnyStep s) (hstage : s.stage = .destroyed) :
    (∀ c, c < s.accepted → found s.closes (.client c) = [some (.client c)]) ∧
      (∀ h, ∃ o, found s.closes (.server h) = [some (.server h), o] ∧ o ≠ some (.server h)) ∧
      ¬ ClosedOnce s := by
  have hempty := (visiting hs).cleared (by rw [hstage]; trivial)
  have hnone : clientsLeft s.activeConns s.stage = [] := by
    rw [hstage, Server.activeConns, hempty]
    rfl
  have htwice : ∀ h, ∃ o, found s.closes (.server h) = [some (.server h), o] ∧
      o ≠ some (.server h) := by
    intro h
    refine (serverClosing hs).again h ?_
    rw [hstage]
    exact List.not_mem_nil
  refine ⟨fun c hc => (clientClosing hs).closed c hc ?_, htwice, ?_⟩
  · rw [hnone]
    exact List.not_mem_nil
  · intro honce
    obtain ⟨o, hcalls, _⟩ := htwice .listen
    rw [honce.server .listen] at hcalls
    cases hcalls

end Reachable

section Samples

/-- A client connects, a signal comes and run returns; then other code of the process
opens a file, which gets the number of the listening socket, and the destructor runs. -/
def sampleRun : List (Action Unit) :=
  [.epollEvent 4 false true false, .accept 7, .acceptFails, .epollEvent 3 false true false,
    .reactor, .work (), .reactor, .reactor, .reactor, .reactor, .reactor, .reactor, .reactor,
    .reactor, .otherOpens 4, .destroy, .reactor, .reactor, .reactor, .reactor, .reactor, .reactor,
    .reactor]

/-- The file is closed. -/
theorem file_closed :
    ¬ ∀ s : Server Unit, Reachable (machine sampleFds) AnyStep s → s.stage = .destroyed →
      ClosedOnce s := by
  have hrun : (run (machine sampleFds) AnyStep (machine sampleFds).init sampleRun).any
      (fun s => s.stage = .destroyed ∧
        found s.closes (.server .listen) = [some (.server .listen), some .other]) = true := by
    decide +kernel
  obtain ⟨s, hs, hstage, hcalls⟩ := exists_reachable hrun
  intro hall
  rw [(hall s hs hstage).server] at hcalls
  cases hcalls

theorem closed_twice_sample : ∃ s : Server Unit, (s.stage = .destroyed ∧ s.accepted = 1) ∧
    (∀ c, c < s.accepted → found s.closes (.client c) = [some (.client c)]) ∧
      (∀ h, ∃ o, found s.closes (.server h) = [some (.server h), o] ∧ o ≠ some (.server h)) ∧
      ¬ ClosedOnce s := by
  have hrun : (run (machine sampleFds) AnyStep (machine sampleFds).init sampleRun).any
      (fun s => s.stage = .destroyed ∧ s.accepted = 1) = true := by
    decide +kernel
  obtain ⟨s, hs, h⟩ := exists_reachable hrun
  exact ⟨s, h, closed_twice hs h.1⟩

end Samples

end ChatServer.LineServer.DescriptorClosing
