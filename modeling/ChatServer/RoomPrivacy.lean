import ChatServer.Provenance

/-!
Who gets what is said in a room. A message that names a room goes only to connections
that have asked to join it, and what is broadcast to everybody names none. Nobody comes
by a place in a room in another way: not under a name that was left behind there, and not
by logging in once more.
-/
namespace ChatServer.RoomPrivacy

open ServerSystem LifeCycle Lib.Runs Lib.Seating
open Provenance (Asked Carries Sending calling)
open Downlink (directs)

/-- What a handler sends of a room goes to a connection that has asked to join it. -/
def Confined (asked : ConnId → ClientMessage → Prop) : Output → Prop
  | .sendProto d (.chatBroadcast b) => b.originRoom ≠ "" → asked d (.joinRoom ⟨b.originRoom⟩)
  | .broadcastProto (.chatBroadcast b) => b.originRoom = ""
  | _ => True

/-- The names in the rooms belong to connections that have asked to join, and the name of a
connection is in no room but its own. A connection that is gone keeps its seat, but its name
is not listed. -/
structure Placed (asked : ConnId → ClientMessage → Prop) (gone : ConnId → Prop)
    (tables : ChatApp.Tables) : Prop where
  listed : ∀ c n room, ¬ gone c → tables.seats c = some ⟨n, room⟩ → tables.dir n = some c
  alone : ∀ c n room r, tables.dir n = some c → tables.seats c = some ⟨n, room⟩ →
    n ∈ tables.rooms r → room = some r
  entered : ∀ r n, n ∈ tables.rooms r → ∃ c, tables.dir n = some c ∧ asked c (.joinRoom ⟨r⟩)

section Tables

variable {asked asked' : ConnId → ClientMessage → Prop} {gone gone' : ConnId → Prop}
  {tables : ChatApp.Tables} {c : ConnId} {name : String} {old : Option String}

theorem Placed.mono (h : Placed asked gone tables) (hasked : ∀ c req, asked c req → asked' c req)
    (hgone : ∀ c, gone c → gone' c) : Placed asked' gone' tables := by
  refine ⟨fun c n room hlive => h.listed c n room fun hc => hlive (hgone c hc), h.alone, ?_⟩
  intro r n hn
  obtain ⟨c, hc, hjoin⟩ := h.entered r n hn
  exact ⟨c, hc, hasked _ _ hjoin⟩

/-- A name that is not listed is in no room. -/
theorem Placed.not_mem (h : Placed asked gone tables) (hfree : tables.dir name = none)
    (r : String) : name ∉ tables.rooms r := by
  intro hname
  obtain ⟨d, hd, -⟩ := h.entered r name hname
  rw [hfree] at hd
  cases hd

theorem mem_of_stand {rooms : String → Finset String} {n : String} {place : Option String}
    {r m : String} (h : m ∈ stand rooms n place r) : m ∈ rooms r := by
  cases place with
  | none => exact h
  | some q =>
    change m ∈ Function.update rooms q ((rooms q).erase n) r at h
    by_cases hr : r = q
    · rw [hr, Function.update_self] at h
      rw [hr]
      exact Finset.mem_of_mem_erase h
    · rw [Function.update_of_ne hr] at h
      exact h

theorem mem_of_sit {rooms : String → Finset String} {n : String} {place : Option String}
    {r m : String} (h : m ∈ sit rooms n place r) : m ∈ rooms r ∨ m = n ∧ place = some r := by
  cases place with
  | none => exact Or.inl h
  | some q =>
    change m ∈ Function.update rooms q (insert n (rooms q)) r at h
    by_cases hr : r = q
    · rw [hr, Function.update_self] at h
      rw [hr]
      obtain heq | hold := Finset.mem_insert.mp h
      · exact Or.inr ⟨heq, rfl⟩
      · exact Or.inl hold
    · rw [Function.update_of_ne hr] at h
      exact Or.inl h

/-- Who has left the room is not in it, and was in no other. -/
theorem Placed.not_mem_stand (h : Placed asked gone tables) (hlisted : tables.dir name = some c)
    (hseat : tables.seats c = some ⟨name, old⟩) (r : String) :
    name ∉ stand tables.rooms name old r := by
  intro hname
  obtain rfl := h.alone c name old r hlisted hseat (mem_of_stand hname)
  change name ∈ Function.update tables.rooms r ((tables.rooms r).erase name) r at hname
  rw [Function.update_self] at hname
  exact Finset.notMem_erase name _ hname

/-- A connection that is there has logged in. -/
theorem Placed.login (h : Placed asked gone tables) (hfree : tables.dir name = none)
    (place : Option String) :
    Placed asked gone { tables with
      dir := Function.update tables.dir name (some c)
      seats := Function.update tables.seats c (some ⟨name, place⟩) } := by
  have hother : ∀ {n d}, tables.dir n = some d → Function.update tables.dir name (some c) n =
      some d := by
    intro n d hn
    have hne : n ≠ name := by
      intro heq
      rw [heq, hfree] at hn
      cases hn
    rw [Function.update_of_ne hne, hn]
  refine ⟨?_, ?_, ?_⟩
  · intro d n room hlive hseat
    change Function.update tables.seats c _ d = _ at hseat
    by_cases hd : d = c
    · rw [hd, Function.update_self] at hseat
      cases hseat
      rw [hd]
      exact Function.update_self ..
    · rw [Function.update_of_ne hd] at hseat
      exact hother (h.listed d n room hlive hseat)
  · intro d n room r hn hseat hmem
    have hne : n ≠ name := by
      intro heq
      exact h.not_mem hfree r (heq ▸ hmem)
    change Function.update tables.dir name _ n = _ at hn
    change Function.update tables.seats c _ d = _ at hseat
    rw [Function.update_of_ne hne] at hn
    by_cases hd : d = c
    · rw [hd, Function.update_self] at hseat
      cases hseat
      exact absurd rfl hne
    · rw [Function.update_of_ne hd] at hseat
      exact h.alone d n room r hn hseat hmem
  · intro r n hmem
    obtain ⟨d, hd, hjoin⟩ := h.entered r n hmem
    exact ⟨d, hother hd, hjoin⟩

/-- A connection that is there changes its room, as it has asked. -/
theorem Placed.join (h : Placed asked gone tables) (hlive : ¬ gone c)
    (hseat : tables.seats c = some ⟨name, old⟩) {new : Option String}
    (hasked : ∀ r, new = some r → asked c (.joinRoom ⟨r⟩)) :
    Placed asked gone { tables with
      rooms := sit (stand tables.rooms name old) name new
      seats := Function.update tables.seats c (some ⟨name, new⟩) } := by
  have hlisted := h.listed c name old hlive hseat
  refine ⟨?_, ?_, ?_⟩
  · intro d n room hd hseat'
    change Function.update tables.seats c _ d = _ at hseat'
    by_cases hdc : d = c
    · rw [hdc, Function.update_self] at hseat'
      cases hseat'
      rw [hdc]
      exact hlisted
    · rw [Function.update_of_ne hdc] at hseat'
      exact h.listed d n room hd hseat'
  · intro d n room r hn hseat' hmem
    change Function.update tables.seats c _ d = _ at hseat'
    by_cases hdc : d = c
    · rw [hdc, Function.update_self] at hseat'
      cases hseat'
      obtain hold | ⟨-, hnew⟩ := mem_of_sit hmem
      · exact absurd hold (h.not_mem_stand hlisted hseat r)
      · exact hnew
    · rw [Function.update_of_ne hdc] at hseat'
      obtain hold | ⟨rfl, -⟩ := mem_of_sit hmem
      · exact h.alone d n room r hn hseat' (mem_of_stand hold)
      · exact absurd (Option.some.inj (hn.symm.trans hlisted)) hdc
  · intro r n hmem
    obtain hold | ⟨rfl, hnew⟩ := mem_of_sit hmem
    · exact h.entered r n (mem_of_stand hold)
    · exact ⟨c, hlisted, hasked r hnew⟩

/-- A connection leaves for good. -/
theorem Placed.leave (h : Placed asked gone tables) (hlive : ¬ gone c)
    (hseat : tables.seats c = some ⟨name, old⟩) (hgone : ∀ d, gone d → gone' d) (hc : gone' c) :
    Placed asked gone' { tables with
      dir := Function.update tables.dir name none
      rooms := stand tables.rooms name old } := by
  have hlisted := h.listed c name old hlive hseat
  have hother : ∀ {n d}, Function.update tables.dir name none n = some d →
      n ≠ name ∧ tables.dir n = some d := by
    intro n d hn
    by_cases hname : n = name
    · rw [hname, Function.update_self] at hn
      cases hn
    · rw [Function.update_of_ne hname] at hn
      exact ⟨hname, hn⟩
  refine ⟨?_, ?_, ?_⟩
  · intro d n room hd hseat'
    have hn := h.listed d n room (fun hgd => hd (hgone d hgd)) hseat'
    have hne : n ≠ name := by
      intro heq
      rw [heq, hlisted] at hn
      exact hd (Option.some.inj hn ▸ hc)
    exact (Function.update_of_ne hne ..).trans hn
  · intro d n room r hn hseat' hmem
    exact h.alone d n room r (hother hn).2 hseat' (mem_of_stand hmem)
  · intro r n hmem
    obtain ⟨d, hd, hjoin⟩ := h.entered r n (mem_of_stand hmem)
    have hne : n ≠ name := by
      intro heq
      exact h.not_mem_stand hlisted hseat r (heq ▸ hmem)
    exact ⟨d, (Function.update_of_ne hne ..).trans hd, hjoin⟩

/-- A connection is accepted. -/
theorem Placed.connect (h : Placed asked gone tables) :
    Placed asked gone { tables with seats := Function.update tables.seats c none } := by
  have hother : ∀ {d n room}, Function.update tables.seats c none d = some ⟨n, room⟩ →
      tables.seats d = some ⟨n, room⟩ := by
    intro d n room hseat
    by_cases hd : d = c
    · rw [hd, Function.update_self] at hseat
      cases hseat
    · rw [Function.update_of_ne hd] at hseat
      exact hseat
  exact ⟨fun d n room hlive hseat => h.listed d n room hlive (hother hseat),
    fun d n room r hn hseat => h.alone d n room r hn (hother hseat), h.entered⟩

end Tables

section Handlers

variable {asked : ConnId → ClientMessage → Prop} {gone : ConnId → Prop} {app : ChatApp}
  {env : Env} {conn : ConnId} {s : ChatSession} {o : Output} {parse : Parser}

/-- The call tells somebody who is listed in the room. -/
def Tells (app : ChatApp) (room : String) (o : Output) : Prop :=
  ∃ n d b, n ∈ app.roomAt room ∧ app.onlineUsers n = some d ∧ b.originRoom = room ∧
    o = .sendProto d (.chatBroadcast b)

theorem Tells.confined {room : String} (h : Tells app room o)
    (hplaced : Placed asked gone app.tables) : Confined asked o := by
  obtain ⟨n, d, b, hn, hd, rfl, rfl⟩ := h
  intro _
  obtain ⟨c, hc, hjoin⟩ := hplaced.entered _ n hn
  obtain rfl : d = c := Option.some.inj (hd.symm.trans hc)
  exact hjoin

theorem tells_sendMembers {names : List String} {b : ChatBroadcast}
    (hnames : ∀ n ∈ names, n ∈ app.roomAt b.originRoom)
    (ho : o ∈ app.sendMembers names (.chatBroadcast b)) : Tells app b.originRoom o := by
  obtain ⟨d, hd, rfl⟩ := List.mem_map.mp ho
  obtain ⟨n, hn, hdir⟩ := List.mem_filterMap.mp hd
  exact ⟨n, d, b, hnames n hn, hdir, rfl, rfl⟩

theorem tells_leaveRoom {room username text : String}
    (ho : o ∈ (app.leaveRoom env room username text).2) : Tells app room o := by
  refine tells_sendMembers (b := ⟨"Server", text, room, 0⟩) ?_ ho
  intro n hn
  exact Finset.mem_of_mem_erase ((env.mem_order _ _ n).mp hn)

theorem tells_enterRoom {room username : String}
    (ho : o ∈ (app.enterRoom env room username).2) : Tells app room o := by
  unfold ChatApp.enterRoom at ho
  split at ho
  · refine tells_sendMembers (b := ⟨"Server", _, room, 0⟩) ?_ ho
    intro n hn
    obtain ⟨hmem, hne⟩ := List.mem_filter.mp hn
    obtain heq | hold := Finset.mem_insert.mp ((env.mem_order _ _ n).mp hmem)
    · exact absurd heq (of_decide_eq_true hne)
    · exact hold
  · cases ho

theorem Tells.of_subset {app' : ChatApp} {room : String} (h : Tells app' room o)
    (hdir : app'.onlineUsers = app.onlineUsers)
    (hrooms : ∀ n, n ∈ app'.roomAt room → n ∈ app.roomAt room) : Tells app room o := by
  obtain ⟨n, d, b, hn, hd, hroom, ho⟩ := h
  rw [hdir] at hd
  exact ⟨n, d, b, hrooms n hn, hd, hroom, ho⟩

theorem confined_joinRoom {req : JoinRoomRequest} (hplaced : Placed asked gone app.tables)
    (hreq : asked conn (.joinRoom req)) (ho : o ∈ (app.handleJoinRoom env conn s req).2) :
    Confined asked o := by
  unfold ChatApp.handleJoinRoom at ho
  split at ho
  · simp only [List.mem_append, List.mem_singleton] at ho
    obtain (hleave | henter) | rfl := ho
    · split at hleave
      · exact (tells_leaveRoom hleave).confined hplaced
      · cases hleave
    · have htells := tells_enterRoom henter
      refine (htells.of_subset ?_ ?_ : Tells app req.roomName o).confined hplaced
      · rw [ChatApp.setSession_onlineUsers]
        split
        · exact ChatApp.leaveRoom_onlineUsers
        · rfl
      · intro n hn
        rw [ChatApp.setSession_roomAt] at hn
        split at hn
        · rw [ChatApp.leaveRoom_roomAt] at hn
          exact mem_of_stand hn
        · exact hn
    · unfold ChatApp.joinConfirmation
      split
      · exact fun hroom => absurd rfl hroom
      · exact fun _ => hreq
  · cases ho

theorem confined_disconnect (hplaced : Placed asked gone app.tables)
    (ho : o ∈ (app.handleDisconnect env conn).2) : Confined asked o := by
  unfold ChatApp.handleDisconnect at ho
  split at ho
  · cases ho
  · rename_i session _
    split at ho
    · dsimp only at ho
      split at ho
      · -- The name is out of the directory before the others are told.
        obtain ⟨n, d, b, hn, hd, hroom, rfl⟩ := tells_leaveRoom ho
        change Function.update app.onlineUsers session.username none n = some d at hd
        have hbefore : app.onlineUsers n = some d := by
          by_cases hname : n = session.username
          · rw [hname, Function.update_self] at hd
            cases hd
          · rw [Function.update_of_ne hname] at hd
            exact hd
        have htells : Tells app session.currentRoom (.sendProto d (.chatBroadcast b)) :=
          ⟨n, d, b, hn, hbefore, hroom, rfl⟩
        exact htells.confined hplaced
      · cases ho
    · cases ho

theorem confined_dispatch {req : ClientMessage} (hplaced : Placed asked gone app.tables)
    (hreq : asked conn req) (ho : o ∈ (app.dispatch env conn s req).2) : Confined asked o := by
  cases req with
  | login req =>
    simp only [ChatApp.dispatch, ChatApp.handleLogin] at ho
    split at ho <;> obtain rfl := List.mem_singleton.mp ho <;> trivial
  | globalChat req =>
    simp only [ChatApp.dispatch, ChatApp.handleGlobalChat] at ho
    split at ho
    · obtain rfl := List.mem_singleton.mp ho
      rfl
    · cases ho
  | privateChat req =>
    simp only [ChatApp.dispatch, ChatApp.handlePrivateChat] at ho
    split at ho
    · split at ho
      · simp only [List.mem_cons, List.not_mem_nil, or_false] at ho
        obtain rfl | rfl := ho
        · trivial
        · exact fun hroom => absurd rfl hroom
      · obtain rfl := List.mem_singleton.mp ho
        trivial
    · cases ho
  | joinRoom req => exact confined_joinRoom hplaced hreq ho
  | roomChat req =>
    simp only [ChatApp.dispatch, ChatApp.handleRoomChat] at ho
    split at ho
    · obtain rfl := List.mem_singleton.mp ho
      trivial
    · split at ho
      · cases ho
      · refine (tells_sendMembers (b := ⟨s.username, req.text, s.currentRoom, 0⟩) ?_ ho).confined
          hplaced
        intro n hn
        exact (env.mem_order _ _ n).mp hn
  | payloadNotSet => cases ho

theorem session_tables {s' : ChatSession} (h : app.userData conn = some s)
    (hseat : s'.seat = s.seat) : (app.setSession conn s').tables = app.tables := by
  simp only [ChatApp.tables, ChatApp.setSession_seats_same h hseat]
  rfl

theorem placed_dispatch {req : ClientMessage} (hplaced : Placed asked gone app.tables)
    (hlive : ¬ gone conn) (hsession : app.userData conn = some s) (hreq : asked conn req) :
    Placed asked gone (app.dispatch env conn s req).1.tables := by
  cases req with
  | login req =>
    rcases ChatApp.handleLogin_tables app conn s req with ⟨hfree, -, h⟩ | h
    · rw [show (app.dispatch env conn s (.login req)).1.tables = _ from h]
      exact hplaced.login hfree _
    · rw [show (app.dispatch env conn s (.login req)).1 = _ from h]
      exact hplaced
  | joinRoom req =>
    rcases ChatApp.handleJoinRoom_tables app env conn s req with ⟨hin, h⟩ | h
    · rw [show (app.dispatch env conn s (.joinRoom req)).1.tables = _ from h]
      have hseat : app.seats conn = some ⟨s.username, roomOf s.currentRoom⟩ :=
        (ChatApp.seats_of_session hsession).trans (ChatSession.seat_of_loggedIn hin)
      refine hplaced.join hlive hseat ?_
      intro r hr
      unfold roomOf at hr
      split at hr
      · cases hr
      · cases hr
        exact hreq
    · rw [show (app.dispatch env conn s (.joinRoom req)).1 = _ from h]
      exact hplaced
  | roomChat req =>
    rw [ChatApp.dispatch, ChatApp.handleRoomChat_tables]
    exact hplaced
  | globalChat req => exact hplaced
  | privateChat req => exact hplaced
  | payloadNotSet => exact hplaced

/-- An event of a connection that is there, with its request counted as asked. -/
theorem processEvent_confined {gone' : ConnId → Prop} (env : Env) (evt : NetworkEvent)
    (hplaced : Placed asked gone app.tables) (hlive : ¬ gone evt.conn)
    (hgone : ∀ c, gone c → gone' c) (hend : evt.type = .disconnect → gone' evt.conn)
    (hreq : ∀ payload req, evt = ⟨.message, evt.conn, some payload⟩ → parse payload = some req →
      asked evt.conn req) :
    (∀ o ∈ (app.processEvent parse env false evt).2, Confined asked o) ∧
      Placed asked gone' (app.processEvent parse env false evt).1.tables := by
  refine ChatApp.processEvent_cases
    (P := fun r => (∀ o ∈ r.2, Confined asked o) ∧ Placed asked gone' r.1.tables) ?_ ?_ ?_ ?_
  · exact ⟨fun _ hnone => absurd hnone List.not_mem_nil, hplaced.mono (fun _ _ h => h) hgone⟩
  · intro _
    refine ⟨fun _ hnone => absurd hnone List.not_mem_nil, ?_⟩
    have htables : (app.handleConnect env evt.conn).tables = { app.tables with
        seats := Function.update app.seats evt.conn none } := by
      simp only [ChatApp.tables, ChatApp.handleConnect, ChatApp.setSession_seats]
      rfl
    rw [htables]
    exact hplaced.connect.mono (fun _ _ h => h) hgone
  · intro htype
    refine ⟨fun o ho => confined_disconnect hplaced ho, ?_⟩
    rcases ChatApp.handleDisconnect_tables app env evt.conn with ⟨n, room, hseat, h⟩ | ⟨-, h⟩
    · rw [h]
      exact hplaced.leave hlive hseat hgone (hend htype)
    · rw [h]
      exact hplaced.mono (fun _ _ h => h) hgone
  · intro payload _ hevt
    refine ChatApp.handleMessage_cases
      (P := fun r => (∀ o ∈ r.2, Confined asked o) ∧ Placed asked gone' r.1.tables) ?_ ?_ ?_
    · exact ⟨fun _ hnone => absurd hnone List.not_mem_nil, hplaced.mono (fun _ _ h => h) hgone⟩
    · intro session reason hsession
      refine ⟨fun o ho => ?_, ?_⟩
      · simp only [List.mem_cons, List.not_mem_nil, or_false] at ho
        obtain rfl | rfl := ho <;> trivial
      · have hsame : (app.setSession evt.conn (session.refill env.now)).tables = app.tables :=
          session_tables hsession rfl
        exact (hsame ▸ hplaced).mono (fun _ _ h => h) hgone
    · intro session req hsession hparse _
      have hcharged := session_tables hsession (ChatApp.seat_charge env.now)
      have hplaced' : Placed asked gone
          (app.setSession evt.conn (session.refill env.now).charge).tables := hcharged ▸ hplaced
      have hasked := hreq payload req hevt hparse
      refine ⟨fun o ho => confined_dispatch hplaced' hasked ho, ?_⟩
      exact (placed_dispatch hplaced' hlive ChatApp.setSession_userData_self hasked).mono
        (fun _ _ h => h) hgone

end Handlers

section Runs

variable {n : ℕ} {setup : Setup} {s t : System n} {a : Action n}

/-- HandleDisconnect was called for the connection. -/
def Gone (log : List Entry) (c : ConnId) : Prop :=
  ∃ d ∈ calls log, d.type = .disconnect ∧ d.conn = c

structure Private (setup : Setup) (s : System n) : Prop where
  placed : Placed (Asked setup.parse s.log) (Gone s.log) s.app.tables
  sending : Sending (Confined (Asked setup.parse s.log)) s

theorem Confined.mono {asked asked' : ConnId → ClientMessage → Prop}
    (hmono : ∀ c req, asked c req → asked' c req) {o : Output} (h : Confined asked o) :
    Confined asked' o := by
  cases o with
  | sendProto d msg =>
    cases msg with
    | chatBroadcast b => exact fun hroom => hmono _ _ (h hroom)
    | _ => trivial
  | broadcastProto msg =>
    cases msg with
    | chatBroadcast b => exact h
    | _ => trivial
  | close c => trivial

theorem Gone.later {log : List Entry} {c : ConnId} (h : Gone log c) (e : Entry) :
    Gone (log ++ [e]) c := by
  obtain ⟨d, hd, hgone⟩ := h
  refine ⟨d, ?_, hgone⟩
  rw [calls_snoc]
  exact List.mem_append_left _ hd

theorem Private.carries (h : Private setup s) (hcarries : Carries s t) : Private setup t := by
  have hmono := hcarries.asked setup.parse
  refine ⟨?_, (h.sending.carries hcarries).mono fun o ho => ho.mono hmono⟩
  rw [hcarries.app]
  refine h.placed.mono hmono ?_
  intro c hc
  obtain hsame | ⟨e, hlog, -⟩ := hcarries.log
  · rw [hsame]
    exact hc
  · rw [hlog]
    exact hc.later e

/-- ProcessEvent calls the handler of a connection that is there. -/
theorem Private.call {evt : Queued} {env : Env} (h : Private setup s)
    (hlive : ¬ Gone s.log evt.conn) : Private setup (calling setup s evt env) := by
  have hmono : ∀ c req, Asked setup.parse s.log c req →
      Asked setup.parse (s.log ++ [.call evt]) c req := fun c req hasked => hasked.later _
  have hend : evt.event.type = .disconnect → Gone (s.log ++ [.call evt]) evt.event.conn := by
    intro htype
    refine ⟨evt, ?_, htype, rfl⟩
    rw [calls_snoc]
    exact List.mem_append_right _ (List.mem_singleton_self evt)
  obtain ⟨houtputs, hplaced⟩ := processEvent_confined env evt.event
    (h.placed.mono hmono fun _ hc => hc) hlive (fun _ hc => hc.later (.call evt)) hend
    fun payload req hevt hparse => Provenance.asked_of_call hevt hparse
  exact ⟨hplaced, (h.sending.mono fun o ho => ho.mono hmono).call houtputs⟩

theorem Private.step (h : Private setup s) (hlived : EventOrder.Lived (life s))
    (hnext : s.next setup a = some t) : Private setup t := by
  by_cases hcall : ∃ env, a = .call env
  · obtain ⟨env, rfl⟩ := hcall
    cases System.next_steps hnext with
    | call hstage hclock =>
      refine h.call ?_
      intro ⟨d, hd, htype, hconn⟩
      exact hlived.ordered.alive _ (by rw [life, hstage]; rfl) d hd htype hconn.symm
  · exact h.carries (Provenance.next_carries hnext fun env ha => hcall ⟨env, ha⟩)

theorem isPrivate {allowed : System n → Action n → Prop}
    (hs : Reachable (machine setup n) allowed s) : Private setup s := by
  refine hs.invariant_of_reachable (P := Private setup) ⟨⟨?_, ?_, ?_⟩, .init⟩
    fun s a t hs h _ hnext => h.step (EventOrder.lived hs) hnext
  · intro c n room _ hseat
    cases hseat
  · intro c n room r hlisted
    cases hlisted
  · intro r n hn
    exact absurd hn (Finset.notMem_empty n)

end Runs

section Packets

open PacketCodec ChatProto

variable {n : ℕ} {kernel : ConnId → Kernel} {parse : Parser} {s : System n}
  {allowed : System n → Action n → Prop} {d : ConnId} {packet : SharedPayload} {b : ChatBroadcast}

theorem asked_of_queued (hs : Reachable (machine (Downlink.chatSetup kernel parse) n) allowed s)
    (hpacket : packet ∈ AppendedPackets.appended s.net d)
    (hbytes : packet.bytes = encode serializeServer (.chatBroadcast b))
    (hroom : b.originRoom ≠ "") :
    Asked parse s.log d (.joinRoom ⟨b.originRoom⟩) := by
  have hqueues := Provenance.queues (V := Confined) (fun _ _ hmono _ ho => ho.mono hmono)
    (fun _ ht => (isPrivate ht).sending) hs
  obtain hsent | hbroadcast := hqueues.of_bytes hpacket hbytes
  · exact hsent hroom
  · exact absurd hbroadcast hroom

/-- Whatever the connections send, whichever of them close and however often they log in:
what names a room gets only into the queues of connections that have asked to join it. -/
theorem rooms_confined (hs : Reachable (machine (Downlink.chatSetup kernel parse) n) allowed s)
    (hpacket : packet ∈ AppendedPackets.appended s.net d) (b : ChatBroadcast)
    (hbytes : packet.bytes = encode serializeServer (.chatBroadcast b)) :
    b.originRoom = "" ∨ Asked parse s.log d (.joinRoom ⟨b.originRoom⟩) := by
  by_cases hroom : b.originRoom = ""
  · exact Or.inl hroom
  · exact Or.inr (asked_of_queued hs hpacket hbytes hroom)

end Packets

section Samples

open EventOrder LogicThread PacketCodec ChatProto

def roomSetup : Setup := Downlink.chatSetup (fun _ _ _ => .eagain) sampleParser

/-- Connection 0 has connected and logged in, and its request to join the room is in hand. -/
def joinSteps : List (Action 1) :=
  acceptSteps 0 23 ++ [.message 0 [0x0A, 3, 0x0A, 1, 0x61], .message 0 [0x22, 3, 0x0A, 1, 0x72]] ++
    handleSteps 0 ++ handleSteps 1 ++ [.take]

def joinRequest : Queued := ⟨2, ⟨.message, 0, some [0x22, 3, 0x0A, 1, 0x72]⟩⟩

/-- The logic thread has let the request through. -/
def joining (s : System 1) : System 1 :=
  (s.record (.examine joinRequest false)).setLogic (.entering joinRequest)

def joined : ServerMessage := ChatApp.joinConfirmation "r"

theorem rooms_confined_r :
    ∃ (s : System 1) (packet : SharedPayload), Reachable (machine roomSetup 1) AnyStep s ∧
      packet ∈ AppendedPackets.appended s.net 0 ∧ packet.bytes = encode serializeServer joined ∧
      ("r" = "" ∨ Asked sampleParser s.log 0 (.joinRoom ⟨"r"⟩)) := by
  have hrun : ((run (machine roomSetup 1) AnyStep System.init joinSteps).filter fun s =>
      s.logic = .taken joinRequest ∧ .exchange 0 ∉ s.log).any (fun s =>
        (run (machine roomSetup 1) AnyStep (joining s) [.call sampleEnv]).any fun t =>
          t.logic = .sending joinRequest [.sendProto 0 joined] ∧ .exchange 0 ∉ t.log ∧
            t.known 0 = true) = true := by
    decide +kernel
  obtain ⟨s, hfound, hP⟩ := (Option.any_eq_true _ _).mp hrun
  obtain ⟨hjoin, hguard⟩ := Option.filter_eq_some_iff.mp hfound
  obtain ⟨htaken, hlog⟩ := of_decide_eq_true hguard
  have hjoining : Reachable (machine roomSetup 1) AnyStep (joining s) :=
    entering_reachable (reachable_of_run .init hjoin) trivial htaken hlog
  obtain ⟨t, hcall, hP⟩ := (Option.any_eq_true _ _).mp hP
  obtain ⟨hlogic, hlog, hknown⟩ := of_decide_eq_true hP
  have ht := reachable_of_run hjoining hcall
  obtain ⟨u, hnext, -, hpacket⟩ := Provenance.output_queued hlogic (open_of_log ht hlog) hknown
  have hu : Reachable (machine roomSetup 1) AnyStep u := ht.step (a := .output) trivial hnext
  exact ⟨u, _, hu, hpacket, rfl, rooms_confined hu hpacket ⟨"Server", _, "r", 0⟩ rfl⟩

end Samples

end ChatServer.RoomPrivacy
