import ChatServer.FlowControl

/-!
The registration of a new connection. accept_loop puts the connection into its
shard map before it adds the descriptor to epoll and sets the cached mask, and
it takes no lock for the last two steps. A broadcast task may find the
connection in between. Its own steps are taken under the connection's mutex, so
they are not interrupted by those of another task, but by accept_loop.
-/
namespace ChatServer.Registration

open FlowControl WriteAttempt Lib.Runs

/-- What other threads do with a connection that they find in a shard map. -/
inductive Body
  | shardTask (events : List BroadcastEvent)
  | flush
deriving DecidableEq

section Bodies

variable (writev : Kernel)

/-- The body up to the end of its write attempt; the flag tells that EPOLLOUT is
to be armed if something is left. -/
def Body.write (conn : Connection) : Body → Connection × Bool
  | .shardTask events =>
      if conn.closed then (conn, false)
      else
        let (appended, addedAny) := appendEvents conn.ensureCodec events false
        if addedAny then ((attemptWrite writev appended.checkHighWater).1, true)
        else (appended, false)
  | .flush =>
      if conn.closed || conn.outgoingQueue.isEmpty then (conn, false)
      else ((attemptWrite writev conn).1, true)

/-- The whole body, without an interruption. -/
def Body.run (conn : Connection) : Body → Connection
  | .shardTask events => shardTaskBody writev conn events
  | .flush => flushBody writev conn

theorem Body.run_eq (conn : Connection) (body : Body) :
    body.run writev conn =
      if (body.write writev conn).2 then (body.write writev conn).1.armIfQueued
      else (body.write writev conn).1 := by
  cases body with
  | shardTask events =>
    simp only [Body.run, Body.write, shardTaskBody]
    split
    · rfl
    · split <;> rfl
  | flush =>
    simp only [Body.run, Body.write, flushBody]
    split <;> rfl

theorem checkHighWater_arming (conn : Connection) : arming conn.checkHighWater = arming conn := by
  unfold Connection.checkHighWater
  split <;> rfl

/-- Before the arming the flag and the masks stay as they are, and a body that
does not come to the arming leaves the queue. -/
theorem Body.write_spec (conn : Connection) (body : Body) :
    arming (body.write writev conn).1 = arming conn ∧
      ((body.write writev conn).2 = false →
        (body.write writev conn).1.outgoingQueue = conn.outgoingQueue) := by
  cases body with
  | shardTask events =>
    simp only [Body.write]
    split
    · exact ⟨rfl, fun _ => rfl⟩
    · have happended := (appendEvents_arming conn.ensureCodec events false).1
      split
      · refine ⟨?_, nofun⟩
        rw [attemptWrite_arming, checkHighWater_arming, happended]
        rfl
      · rename_i hadded
        refine ⟨happended, fun _ => ?_⟩
        obtain ⟨_, _, heq⟩ := appendEvents_unadded (by simpa using hadded)
        rw [heq]
        rfl
  | flush =>
    simp only [Body.write]
    split
    · exact ⟨rfl, fun _ => rfl⟩
    · exact ⟨attemptWrite_arming writev conn, nofun⟩

end Bodies

/-- How far accept_loop has come with the connection. -/
inductive Accept
  | created
  | inserted
  | added
  | finished
deriving DecidableEq

/-- Where the body is that holds the connection's mutex, if there is one. The
masks are those that it has computed. -/
inductive Arming
  | idle
  /-- At `conn->current_epoll_events | EPOLLOUT`. -/
  | reading
  /-- In update_epoll_events, at the comparison. -/
  | comparing (events : EpollEvents)
  /-- At the call of epoll_ctl. -/
  | modifying (events : EpollEvents)
  /-- At the assignment of the cached mask. -/
  | storing (events : EpollEvents)
  /-- At the assignment of `is_write_armed`. -/
  | setting
deriving DecidableEq

structure Newcomer where
  conn : Connection
  accept : Accept
  arming : Arming

inductive Action
  | insert
  | add
  | assign
  | start (body : Body)
  | arm
deriving DecidableEq

namespace Newcomer

def init (fd now : ℕ) : Newcomer := ⟨.new fd now, .created, .idle⟩

/-- The next step of a body that holds the mutex. -/
def arm (s : Newcomer) : Option Newcomer :=
  match s.arming with
  | .idle => none
  | .reading =>
      some { s with arming := .comparing { s.conn.currentEpollEvents with epollout := true } }
  | .comparing events =>
      some { s with
        arming := if s.conn.currentEpollEvents = events then .setting else .modifying events }
  | .modifying events => some { s with conn := s.conn.modFdEpoll events, arming := .storing events }
  | .storing events =>
      some { s with conn := { s.conn with currentEpollEvents := events }, arming := .setting }
  | .setting => some { s with conn := { s.conn with isWriteArmed := true }, arming := .idle }

def next (writev : Kernel) (s : Newcomer) : Action → Option Newcomer
  | .insert => if s.accept = .created then some { s with accept := .inserted } else none
  | .add =>
      if s.accept = .inserted then
        some { s with conn := s.conn.addFdToEpoll ⟨true, false⟩, accept := .added }
      else none
  | .assign =>
      if s.accept = .added then
        some { s with
          conn := { s.conn with currentEpollEvents := ⟨true, false⟩ }
          accept := .finished }
      else none
  | .start body =>
      if s.accept ≠ .created ∧ s.arming = .idle then
        let (written, attempted) := body.write writev s.conn
        let arms := attempted && !written.outgoingQueue.isEmpty && !written.isWriteArmed
        some { s with conn := written, arming := if arms then .reading else .idle }
      else none
  | .arm => s.arm

end Newcomer

def machine (writev : Kernel) (fd now : ℕ) : Machine Newcomer Action :=
  ⟨.init fd now, Newcomer.next writev⟩

/-- The masks and the flag agree, and what is queued waits for an edge. -/
structure Agrees (conn : Connection) : Prop where
  interest : conn.interest = some conn.currentEpollEvents
  armed : conn.isWriteArmed = true ↔ conn.currentEpollEvents.epollout = true
  queued : conn.outgoingQueue ≠ [] → conn.currentEpollEvents.epollout = true

/-- At the call of epoll_ctl. -/
def Arming.modifies : Arming → Bool
  | .modifying _ => true
  | _ => false

/-- epoll_ctl MOD is called only when the descriptor is added, and accept_loop
sets a cached mask that nobody else has set. -/
def InOrder (s : Newcomer) : Action → Prop
  | .arm => s.arming.modifies = true → s.accept = .added ∨ s.accept = .finished
  | .assign => s.conn.currentEpollEvents = ⟨false, false⟩
  | _ => True

instance (s : Newcomer) (a : Action) : Decidable (InOrder s a) := by
  cases a <;> unfold InOrder <;> infer_instance

section Uninterrupted

variable (writev : Kernel) (fd now : ℕ) {s : Newcomer}

/-- The last two steps of accept_loop, one after the other, are the registration. -/
theorem add_assign (hinserted : s.accept = .inserted) :
    run (machine writev fd now) AnyStep s [.add, .assign] =
      some { s with conn := s.conn.register, accept := .finished } := by
  simp [run, AnyStep, machine, Newcomer.next, hinserted, Connection.register,
    Connection.addFdToEpoll]

/-- The steps of the arming, one after the other, are the arming of the body. -/
theorem arm_all (hreading : s.arming = .reading)
    (harms : !s.conn.outgoingQueue.isEmpty && !s.conn.isWriteArmed) :
    ∃ n, run (machine writev fd now) AnyStep s (List.replicate n .arm) =
      some { s with conn := s.conn.armIfQueued, arming := .idle } := by
  by_cases hsame : s.conn.currentEpollEvents = { s.conn.currentEpollEvents with epollout := true }
  · refine ⟨3, ?_⟩
    simp only [List.replicate_succ, List.replicate_zero, run, AnyStep, reduceIte, machine,
      Newcomer.next, Newcomer.arm, hreading, Option.bind_some, if_pos hsame,
      Connection.armIfQueued, if_pos harms, Connection.updateEpollEvents]
  · refine ⟨5, ?_⟩
    simp only [List.replicate_succ, List.replicate_zero, run, AnyStep, reduceIte, machine,
      Newcomer.next, Newcomer.arm, hreading, Option.bind_some, if_neg hsame,
      Connection.armIfQueued, if_pos harms, Connection.updateEpollEvents, Connection.modFdEpoll]

/-- The steps of a body, one after the other, are the body. -/
theorem body_all (body : Body) (hfound : s.accept ≠ .created) (hidle : s.arming = .idle) :
    ∃ n, run (machine writev fd now) AnyStep s (.start body :: List.replicate n .arm) =
      some { s with conn := body.run writev s.conn } := by
  have hstart : (machine writev fd now).next s (.start body) = some { s with
      conn := (body.write writev s.conn).1
      arming :=
        if (body.write writev s.conn).2 && !(body.write writev s.conn).1.outgoingQueue.isEmpty &&
          !(body.write writev s.conn).1.isWriteArmed then .reading else .idle } :=
    if_pos ⟨hfound, hidle⟩
  simp only [run, AnyStep, reduceIte, hstart, Option.bind_some, body.run_eq]
  obtain ⟨written, attempted⟩ := body.write writev s.conn
  dsimp only
  by_cases harms : (!written.outgoingQueue.isEmpty && !written.isWriteArmed) = true
  · cases attempted with
    | false => exact ⟨0, by simp [run, ← hidle]⟩
    | true =>
      obtain ⟨n, hn⟩ := arm_all writev fd now
        (s := { s with conn := written, arming := .reading }) rfl harms
      refine ⟨n, ?_⟩
      simpa [Bool.and_assoc, harms, ← hidle] using hn
  · refine ⟨0, ?_⟩
    cases attempted with
    | false => simp [run, ← hidle]
    | true =>
      rw [Bool.true_and, if_neg harms, if_pos rfl, Connection.armIfQueued, if_neg harms]
      simp [run, ← hidle]

end Uninterrupted

/-- The mask that a body has computed. -/
def Arming.mask : Arming → Option EpollEvents
  | .comparing events => some events
  | .modifying events => some events
  | .storing events => some events
  | _ => none

/-- Before the cached mask is assigned. -/
def Arming.before : Arming → Bool
  | .idle => false
  | .setting => false
  | _ => true

/-- The mask in the kernel, but for a body that has set it and not yet stored it. -/
def registered (accept : Accept) (current : EpollEvents) : Option EpollEvents :=
  match accept with
  | .created | .inserted => none
  | .added => if current = ⟨false, false⟩ then some ⟨true, false⟩ else some current
  | .finished => some current

def Newcomer.mask (s : Newcomer) : Option EpollEvents :=
  match s.arming with
  | .storing events => some events
  | _ => registered s.accept s.conn.currentEpollEvents

/-- What holds in a run in which nothing is out of order. -/
structure Tracked (s : Newcomer) : Prop where
  interest : s.conn.interest = s.mask
  fresh : s.accept = .created ∨ s.accept = .inserted →
    s.conn.currentEpollEvents = ⟨false, false⟩ ∧ s.conn.interest = none
  idle : s.arming = .idle → s.conn.isWriteArmed = s.conn.currentEpollEvents.epollout ∧
    (s.conn.outgoingQueue ≠ [] → s.conn.currentEpollEvents.epollout = true)
  unarmed : s.arming.before = true →
    s.conn.isWriteArmed = false ∧ s.conn.currentEpollEvents.epollout = false
  computed : ∀ events ∈ s.arming.mask, events.epollout = true
  setting : s.arming = .setting → s.conn.currentEpollEvents.epollout = true

namespace Tracked

variable {writev : Kernel} {fd now : ℕ} {s t : Newcomer}

theorem init : Tracked (.init fd now) :=
  ⟨rfl, fun _ => ⟨rfl, rfl⟩, fun _ => ⟨rfl, fun h => absurd rfl h⟩, nofun, nofun, nofun⟩

/-- Nobody has computed a mask for a descriptor in vain. -/
theorem not_storing (h : Tracked s) (hfresh : s.accept = .created ∨ s.accept = .inserted)
    (events : EpollEvents) : s.arming ≠ .storing events := by
  intro hstoring
  have hmask := h.interest
  rw [(h.fresh hfresh).2, Newcomer.mask, hstoring] at hmask
  cases hmask

theorem mask_of_not_storing (hnot : ∀ events, s.arming ≠ .storing events) :
    s.mask = registered s.accept s.conn.currentEpollEvents := by
  unfold Newcomer.mask
  split
  · rename_i events hstoring
    exact absurd hstoring (hnot events)
  · rfl

theorem mask_of_storing {events : EpollEvents} (hstoring : s.arming = .storing events) :
    s.mask = some events := by
  rw [Newcomer.mask, hstoring]

theorem insert (h : Tracked s) (hcreated : s.accept = .created) :
    Tracked { s with accept := .inserted } := by
  refine ⟨?_, fun _ => h.fresh (Or.inl hcreated), h.idle, h.unarmed, h.computed, h.setting⟩
  have hmask := mask_of_not_storing (s := { s with accept := .inserted })
    (h.not_storing (Or.inl hcreated))
  rw [hmask]
  exact (h.fresh (Or.inl hcreated)).2

theorem add (h : Tracked s) (hinserted : s.accept = .inserted) :
    Tracked { s with conn := s.conn.addFdToEpoll ⟨true, false⟩, accept := .added } := by
  refine ⟨?_, by simp, h.idle, h.unarmed, h.computed, h.setting⟩
  have hcurrent := (h.fresh (Or.inr hinserted)).1
  have hmask := mask_of_not_storing
    (s := { s with conn := s.conn.addFdToEpoll ⟨true, false⟩, accept := .added })
    (h.not_storing (Or.inr hinserted))
  rw [hmask]
  simp [Connection.addFdToEpoll, registered, hcurrent]

theorem assign (h : Tracked s) (hadded : s.accept = .added)
    (hunset : s.conn.currentEpollEvents = ⟨false, false⟩) :
    Tracked { s with
      conn := { s.conn with currentEpollEvents := ⟨true, false⟩ }
      accept := .finished } := by
  have hout : s.conn.currentEpollEvents.epollout = false := by rw [hunset]
  refine ⟨?_, by simp, ?_, fun hbefore => ⟨(h.unarmed hbefore).1, rfl⟩, h.computed, ?_⟩
  · have hinterest := h.interest
    rw [Newcomer.mask] at hinterest ⊢
    rw [hinterest]
    cases s.arming <;> simp [registered, hadded, hunset]
  · intro hidle
    obtain ⟨harmed, hqueued⟩ := h.idle hidle
    rw [hout] at harmed hqueued
    exact ⟨harmed, hqueued⟩
  · intro hsetting
    have hset := h.setting hsetting
    rw [hout] at hset
    cases hset

theorem start (h : Tracked s) (body : Body) (hidle : s.arming = .idle) :
    Tracked { s with
      conn := (body.write writev s.conn).1
      arming :=
        if (body.write writev s.conn).2 && !(body.write writev s.conn).1.outgoingQueue.isEmpty &&
          !(body.write writev s.conn).1.isWriteArmed then .reading else .idle } := by
  obtain ⟨hsame, hqueue⟩ := body.write_spec writev s.conn
  obtain ⟨harmed, hqueued⟩ := h.idle hidle
  have hinterest := h.interest
  have hfresh := h.fresh
  rw [mask_of_not_storing (by simp [hidle])] at hinterest
  simp only [WriteAttempt.arming, Prod.mk.injEq] at hsame
  obtain ⟨hflag, hevents, hkernel, -, -⟩ := hsame
  generalize body.write writev s.conn = p at hqueue hflag hevents hkernel
  rw [← hevents] at harmed hqueued hinterest hfresh
  rw [← hflag] at harmed
  rw [← hkernel] at hinterest hfresh
  by_cases harms : (p.2 && !p.1.outgoingQueue.isEmpty && !p.1.isWriteArmed) = true
  · rw [if_pos harms]
    have hunarmed : p.1.isWriteArmed = false := by
      simpa using (Bool.and_eq_true_iff.mp harms).2
    refine ⟨hinterest, hfresh, ?_, fun _ => ⟨hunarmed, harmed.symm.trans hunarmed⟩, ?_, ?_⟩
    · intro hnone
      cases hnone
    · intro events hmask
      cases hmask
    · intro hsetting
      cases hsetting
  · rw [if_neg harms]
    refine ⟨hinterest, hfresh, fun _ => ⟨harmed, ?_⟩, ?_, ?_, ?_⟩
    · intro hleft
      cases hattempted : p.2 with
      | false => exact hqueued (hqueue hattempted ▸ hleft)
      | true =>
        rw [← harmed]
        simpa [hattempted, hleft] using harms
    · intro hbefore
      cases hbefore
    · intro events hmask
      cases hmask
    · intro hsetting
      cases hsetting

theorem arm (h : Tracked s)
    (hadded : s.arming.modifies = true → s.accept = .added ∨ s.accept = .finished)
    (hnext : s.arm = some t) : Tracked t := by
  have hinterest := h.interest
  cases harming : s.arming with
  | idle =>
    rw [Newcomer.arm, harming] at hnext
    cases hnext
  | reading =>
    rw [Newcomer.arm, harming] at hnext
    cases hnext
    have hunarmed := h.unarmed (by rw [harming]; rfl)
    rw [mask_of_not_storing (by simp [harming])] at hinterest
    exact ⟨hinterest, h.fresh, nofun, fun _ => hunarmed, by simp [Arming.mask], nofun⟩
  | comparing events =>
    rw [Newcomer.arm, harming] at hnext
    cases hnext
    have hunarmed := h.unarmed (by rw [harming]; rfl)
    have hcomputed := h.computed events (by rw [harming]; rfl)
    have hdiffer : s.conn.currentEpollEvents ≠ events := by
      intro hsame
      rw [← hsame, hunarmed.2] at hcomputed
      cases hcomputed
    rw [mask_of_not_storing (by simp [harming])] at hinterest
    rw [if_neg hdiffer]
    exact ⟨hinterest, h.fresh, nofun, fun _ => hunarmed, by simpa [Arming.mask] using hcomputed,
      nofun⟩
  | modifying events =>
    rw [Newcomer.arm, harming] at hnext
    cases hnext
    have hunarmed := h.unarmed (by rw [harming]; rfl)
    have hcomputed := h.computed events (by rw [harming]; rfl)
    have hthere := hadded (by rw [harming]; rfl)
    rw [mask_of_not_storing (by simp [harming])] at hinterest
    refine ⟨?_, ?_, nofun, fun _ => hunarmed, by simpa [Arming.mask] using hcomputed, nofun⟩
    · show s.conn.interest.map (fun _ => events) = some events
      rw [hinterest]
      rcases hthere with hthere | hthere
      · simp only [hthere, registered]
        split <;> rfl
      · rw [hthere]
        rfl
    · rintro (hcreated | hinserted)
      · rcases hthere with hthere | hthere <;> cases hcreated.symm.trans hthere
      · rcases hthere with hthere | hthere <;> cases hinserted.symm.trans hthere
  | storing events =>
    rw [Newcomer.arm, harming] at hnext
    cases hnext
    have hcomputed := h.computed events (by rw [harming]; rfl)
    rw [mask_of_storing harming] at hinterest
    refine ⟨?_, ?_, nofun, nofun, nofun, fun _ => hcomputed⟩
    · show s.conn.interest = registered s.accept events
      rw [hinterest]
      cases haccept : s.accept with
      | created => exact absurd harming (h.not_storing (Or.inl haccept) events)
      | inserted => exact absurd harming (h.not_storing (Or.inr haccept) events)
      | added =>
        have hset : events ≠ ⟨false, false⟩ := by
          intro hnone
          rw [hnone] at hcomputed
          cases hcomputed
        simp only [registered, if_neg hset]
      | finished => rfl
    · intro hfresh
      exact absurd harming (h.not_storing hfresh events)
  | setting =>
    rw [Newcomer.arm, harming] at hnext
    cases hnext
    have hset := h.setting harming
    rw [mask_of_not_storing (by simp [harming])] at hinterest
    exact ⟨hinterest, h.fresh, fun _ => ⟨hset.symm, fun _ => hset⟩, nofun, nofun, nofun⟩

theorem step {a : Action} (h : Tracked s) (horder : InOrder s a)
    (hnext : s.next writev a = some t) : Tracked t := by
  cases a with
  | insert =>
    simp only [Newcomer.next, Option.ite_none_right_eq_some, Option.some.injEq] at hnext
    obtain ⟨hcreated, rfl⟩ := hnext
    exact h.insert hcreated
  | add =>
    simp only [Newcomer.next, Option.ite_none_right_eq_some, Option.some.injEq] at hnext
    obtain ⟨hinserted, rfl⟩ := hnext
    exact h.add hinserted
  | assign =>
    simp only [Newcomer.next, Option.ite_none_right_eq_some, Option.some.injEq] at hnext
    obtain ⟨hadded, rfl⟩ := hnext
    exact h.assign hadded horder
  | start body =>
    simp only [Newcomer.next, Option.ite_none_right_eq_some, Option.some.injEq] at hnext
    obtain ⟨⟨_, hidle⟩, rfl⟩ := hnext
    exact h.start body hidle
  | arm => exact h.arm horder hnext

theorem reachable (hs : Reachable (machine writev fd now) InOrder s) : Tracked s :=
  hs.invariant init fun _ _ _ h horder hnext => h.step horder hnext

end Tracked

/-- If every epoll_ctl MOD of a body comes after the descriptor is added, and
no body has stored a mask when accept_loop assigns its own, then the masks and
the flag agree once accept_loop is done and no body is under way. -/
theorem registration_agrees (writev : Kernel) (fd now : ℕ) (s : Newcomer)
    (hs : Reachable (machine writev fd now) InOrder s) (hfinished : s.accept = .finished)
    (hidle : s.arming = .idle) : Agrees s.conn := by
  have h := Tracked.reachable hs
  obtain ⟨harmed, hqueued⟩ := h.idle hidle
  refine ⟨?_, by rw [harmed], hqueued⟩
  rw [h.interest, Newcomer.mask, hidle, hfinished]
  rfl

section Samples

/-- The broadcast of one byte. -/
def sampleBody : Body := .shardTask [⟨-1, ⟨[1], none⟩⟩]

/-- The connection when a socket that takes nothing has refused it. -/
def sampleWritten : Connection :=
  ((Connection.new 7 0).ensureCodec.append ⟨[1], none⟩).writevFails

theorem sample_write :
    sampleBody.write takesNothing (Connection.new 7 0) = (sampleWritten, true) := by
  have happend : appendEvents (Connection.new 7 0).ensureCodec [⟨-1, ⟨[1], none⟩⟩] false =
      ((Connection.new 7 0).ensureCodec.append ⟨[1], none⟩, true) := rfl
  have hcheck : ((Connection.new 7 0).ensureCodec.append ⟨[1], none⟩).checkHighWater =
      (Connection.new 7 0).ensureCodec.append ⟨[1], none⟩ := rfl
  have hrefused : attemptWrite takesNothing
      ((Connection.new 7 0).ensureCodec.append ⟨[1], none⟩) = (sampleWritten, false) :=
    attemptWrite_refused (by decide) rfl
  have hopen : (Connection.new 7 0).closed = false := rfl
  rw [sampleBody, Body.write, happend, hopen, if_neg Bool.false_ne_true]
  simp only [if_true, hcheck, hrefused]

/-- The task finds the connection in the shard map and comes to the arming. -/
theorem sample_found {allowed : Newcomer → Action → Prop}
    (hinsert : allowed (.init 7 0) .insert)
    (hstart : allowed ⟨.new 7 0, .inserted, .idle⟩ (.start sampleBody)) :
    Reachable (machine takesNothing 7 0) allowed ⟨sampleWritten, .inserted, .reading⟩ := by
  have hinserted : Reachable (machine takesNothing 7 0) allowed ⟨.new 7 0, .inserted, .idle⟩ :=
    .step .init hinsert rfl
  refine .step hinserted hstart ?_
  show Newcomer.next takesNothing ⟨.new 7 0, .inserted, .idle⟩ (.start sampleBody) = _
  simp only [Newcomer.next, sample_write]
  rfl

/-- accept_loop goes on before the task has read the mask. -/
theorem registration_agrees_sample :
    ∃ s : Newcomer, s.accept = .finished ∧ s.conn.outgoingQueue ≠ [] ∧ Agrees s.conn := by
  have hrun : (run (machine takesNothing 7 0) InOrder ⟨sampleWritten, .inserted, .reading⟩
      [.add, .assign, .arm, .arm, .arm, .arm, .arm]).any (fun s =>
        s.accept = .finished ∧ s.arming = .idle ∧ s.conn.outgoingQueue ≠ []) = true := by
    decide +kernel
  obtain ⟨s, hs, hstate⟩ := (Option.any_eq_true _ _).mp hrun
  obtain ⟨hfinished, hidle, hqueue⟩ := of_decide_eq_true hstate
  have hreach := reachable_of_run (sample_found trivial trivial) hs
  exact ⟨s, hfinished, hqueue, registration_agrees takesNothing 7 0 s hreach hfinished hidle⟩

/-- The task arms EPOLLOUT before the descriptor is added. The kernel is never
told, accept_loop overwrites the mask, and the flag keeps others from arming it. -/
theorem arming_lost :
    ∃ s : Newcomer, Reachable (machine takesNothing 7 0) AnyStep s ∧ s.accept = .finished ∧
      s.arming = .idle ∧ s.conn.outgoingQueue ≠ [] ∧ s.conn.isWriteArmed = true ∧
      s.conn.interest = some ⟨true, false⟩ ∧ ¬ Agrees s.conn := by
  have hrun : (run (machine takesNothing 7 0) AnyStep ⟨sampleWritten, .inserted, .reading⟩
      [.arm, .arm, .arm, .arm, .arm, .add, .assign]).any (fun s =>
        s.accept = .finished ∧ s.arming = .idle ∧ s.conn.outgoingQueue ≠ [] ∧
          s.conn.isWriteArmed = true ∧ s.conn.interest = some ⟨true, false⟩ ∧
          s.conn.currentEpollEvents = ⟨true, false⟩) = true := by
    decide +kernel
  obtain ⟨s, hs, hstate⟩ := (Option.any_eq_true _ _).mp hrun
  obtain ⟨hfinished, hidle, hqueue, harmed, hinterest, hcurrent⟩ := of_decide_eq_true hstate
  have hreach := reachable_of_run (sample_found trivial trivial) hs
  refine ⟨s, hreach, hfinished, hidle, hqueue, harmed, hinterest, ?_⟩
  intro hagrees
  have hout := hagrees.queued hqueue
  rw [hcurrent] at hout
  cases hout

end Samples

end ChatServer.Registration
