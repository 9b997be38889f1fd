import ChatServer.ChatApp
import ChatServer.ObjectPool

/-!
The payloads of MESSAGE events. handle_read moves every message that it has
decoded into a vector of the buffer pool and pushes an event with a shared pointer
to it. The logic thread keeps the event that it has popped in a variable until it
pops the next one. So the last pointer to a vector may be dropped by either thread, and the
deleter runs there. As long as an event is alive nobody else has its vector, and
what the logic thread finds in it is the message that was decoded.
-/
namespace ChatServer.MessagePayloads

open Lib.Runs ObjectPool

/-- A NetworkEvent. Its shared pointer is known by the number of the acquisition. The
message that was decoded is history. -/
structure Event where
  type : EventType
  conn : ConnId
  payload : Option ℕ
  decoded : Option Bytes
deriving DecidableEq

/-- Where handle_read is in the loop over the messages of a buffer. -/
inductive Reader
  | decoding
  /-- With `payload_ptr`, before the message is moved into the vector. -/
  | acquired (conn : ConnId) (n : ℕ) (msg : Bytes)
  /-- Before the event is pushed. -/
  | filled (conn : ConnId) (n : ℕ) (msg : Bytes)
  /-- At the end of the turn, where `payload_ptr` is destroyed. -/
  | pushed (n : ℕ)
deriving DecidableEq

/-- The `payload_ptr` of the turn. -/
def Reader.payload : Reader → Option ℕ
  | .decoding => none
  | .acquired _ n _ => some n
  | .filled _ n _ => some n
  | .pushed n => some n

/-- A `payload_ptr` for which there is no event yet. -/
def Reader.unpushed : Reader → Option ℕ
  | .acquired _ n _ => some n
  | .filled _ n _ => some n
  | _ => none

structure Server where
  /-- `buffer_pool_`, with the acquisitions numbered. -/
  pool : Pool ℕ Bytes
  made : ℕ
  reader : Reader
  eventQueue : List Event
  /-- `evt` in LogicLoop, once an event was popped. -/
  evt : Option Event

inductive Action
  /-- Some thread pushes a CONNECT or a DISCONNECT event. -/
  | notice (type : EventType) (conn : ConnId)
  | acquire (conn : ConnId) (msg : Bytes) (fresh : Address)
  | fill
  | push
  | leave
  | pop
  /-- The deleter, on the thread that has dropped the last pointer. -/
  | clear (n : ℕ)
  | pushBack (n : ℕ)
deriving DecidableEq

namespace Server

def init : Server := ⟨.init, 0, .decoding, [], none⟩

/-- The pointer in `evt` is dropped when the next event is moved into it. -/
def dropPayload (pool : Pool ℕ Bytes) : Option ℕ → Option (Pool ℕ Bytes)
  | none => some pool
  | some n => pool.next (.drop n)

def next (s : Server) : Action → Option Server
  | .notice type conn =>
      match type with
      | .message => none
      | _ => some { s with eventQueue := s.eventQueue ++ [⟨type, conn, none, none⟩] }
  | .acquire conn msg fresh =>
      match s.reader with
      | .decoding => (s.pool.next (.acquireShared s.made fresh)).map fun pool =>
          { s with pool := pool, made := s.made + 1, reader := .acquired conn s.made msg }
      | _ => none
  | .fill =>
      match s.reader with
      | .acquired conn n msg => (s.pool.next (.modify n msg)).map fun pool =>
          { s with pool := pool, reader := .filled conn n msg }
      | _ => none
  | .push =>
      match s.reader with
      | .filled conn n msg => (s.pool.next (.copy n)).map fun pool =>
          { s with
            pool := pool
            reader := .pushed n
            eventQueue := s.eventQueue ++ [⟨.message, conn, some n, some msg⟩] }
      | _ => none
  | .leave =>
      match s.reader with
      | .pushed n => (s.pool.next (.drop n)).map fun pool =>
          { s with pool := pool, reader := .decoding }
      | _ => none
  | .pop =>
      match s.eventQueue with
      | [] => none
      | e :: rest => (dropPayload s.pool (s.evt.bind Event.payload)).map fun pool =>
          { s with pool := pool, eventQueue := rest, evt := some e }
  | .clear n => (s.pool.next (.clear n)).map fun pool => { s with pool := pool }
  | .pushBack n => (s.pool.next (.pushBack n)).map fun pool => { s with pool := pool }

/-- The events that are alive: the one that is processed and those in the queue. -/
def alive (s : Server) : List Event := s.evt.toList ++ s.eventQueue

/-- The shared pointers in events. -/
def payloads (s : Server) : List ℕ := s.alive.filterMap Event.payload

/-- How many shared pointers there are to a vector. -/
def refs (s : Server) (n : ℕ) : ℕ :=
  s.payloads.count n + if s.reader.payload = some n then 1 else 0

/-- The vector behind a shared pointer. -/
def vector (s : Server) (n : ℕ) : Option Address := (s.pool.acquired n).map Acquired.object

def payloadVector (s : Server) (e : Event) : Option Address := e.payload.bind s.vector

/-- What the logic thread reads of an event. -/
def networkEvent (s : Server) (e : Event) : NetworkEvent :=
  ⟨e.type, e.conn, (s.payloadVector e).map s.pool.contents⟩

end Server

def machine : Machine Server Action := ⟨.init, Server.next⟩

variable {s t : Server}

section Moves

/-- What a step can do. -/
inductive Moves (s : Server) : Server → Prop
  | notice {e : Event} (htype : e.type ≠ .message) (hpayload : e.payload = none)
      (hdecoded : e.decoded = none) :
      Moves s { s with eventQueue := s.eventQueue ++ [e] }
  | acquire {conn : ConnId} {msg : Bytes} {fresh : Address} {pool : Pool ℕ Bytes}
      (hreader : s.reader = .decoding)
      (hnext : s.pool.next (.acquireShared s.made fresh) = some pool) :
      Moves s { s with pool := pool, made := s.made + 1, reader := .acquired conn s.made msg }
  | fill {conn : ConnId} {n : ℕ} {msg : Bytes} {pool : Pool ℕ Bytes}
      (hreader : s.reader = .acquired conn n msg)
      (hnext : s.pool.next (.modify n msg) = some pool) :
      Moves s { s with pool := pool, reader := .filled conn n msg }
  | push {conn : ConnId} {n : ℕ} {msg : Bytes} {pool : Pool ℕ Bytes}
      (hreader : s.reader = .filled conn n msg) (hnext : s.pool.next (.copy n) = some pool) :
      Moves s { s with
        pool := pool
        reader := .pushed n
        eventQueue := s.eventQueue ++ [⟨.message, conn, some n, some msg⟩] }
  | leave {n : ℕ} {pool : Pool ℕ Bytes} (hreader : s.reader = .pushed n)
      (hnext : s.pool.next (.drop n) = some pool) :
      Moves s { s with pool := pool, reader := .decoding }
  | replace {e : Event} {rest : List Event} (hqueue : s.eventQueue = e :: rest)
      (hnone : s.evt.bind Event.payload = none) :
      Moves s { s with eventQueue := rest, evt := some e }
  | replaceLast {e : Event} {rest : List Event} {n : ℕ} {pool : Pool ℕ Bytes}
      (hqueue : s.eventQueue = e :: rest) (hpayload : s.evt.bind Event.payload = some n)
      (hnext : s.pool.next (.drop n) = some pool) :
      Moves s { s with pool := pool, eventQueue := rest, evt := some e }
  | clear {n : ℕ} {pool : Pool ℕ Bytes} (hnext : s.pool.next (.clear n) = some pool) :
      Moves s { s with pool := pool }
  | pushBack {n : ℕ} {pool : Pool ℕ Bytes} (hnext : s.pool.next (.pushBack n) = some pool) :
      Moves s { s with pool := pool }

theorem next_moves (a : Action) (h : s.next a = some t) : Moves s t := by
  cases a with
  | notice type conn =>
    cases type with
    | message => cases h
    | connect =>
      cases h
      exact .notice (by simp) rfl rfl
    | disconnect =>
      cases h
      exact .notice (by simp) rfl rfl
  | acquire conn msg fresh =>
    simp only [Server.next] at h
    split at h
    · rename_i hreader
      obtain ⟨pool, hnext, rfl⟩ := Option.map_eq_some_iff.mp h
      exact .acquire hreader hnext
    · cases h
  | fill =>
    simp only [Server.next] at h
    split at h
    · rename_i hreader
      obtain ⟨pool, hnext, rfl⟩ := Option.map_eq_some_iff.mp h
      exact .fill hreader hnext
    · cases h
  | push =>
    simp only [Server.next] at h
    split at h
    · rename_i hreader
      obtain ⟨pool, hnext, rfl⟩ := Option.map_eq_some_iff.mp h
      exact .push hreader hnext
    · cases h
  | leave =>
    simp only [Server.next] at h
    split at h
    · rename_i hreader
      obtain ⟨pool, hnext, rfl⟩ := Option.map_eq_some_iff.mp h
      exact .leave hreader hnext
    · cases h
  | pop =>
    simp only [Server.next] at h
    split at h
    · cases h
    · rename_i e rest hqueue
      obtain ⟨pool, hdrop, rfl⟩ := Option.map_eq_some_iff.mp h
      cases hpayload : s.evt.bind Event.payload with
      | none =>
        rw [hpayload] at hdrop
        cases hdrop
        exact .replace hqueue hpayload
      | some n =>
        rw [hpayload] at hdrop
        exact .replaceLast hqueue hpayload hdrop
  | clear n =>
    obtain ⟨pool, hnext, rfl⟩ := Option.map_eq_some_iff.mp h
    exact .clear hnext
  | pushBack n =>
    obtain ⟨pool, hnext, rfl⟩ := Option.map_eq_some_iff.mp h
    exact .pushBack hnext

/-- Every step uses the pool as its holders may. -/
theorem pool_next (hmoves : Moves s t) : t.pool = s.pool ∨ ∃ a, s.pool.next a = some t.pool := by
  cases hmoves with
  | notice => exact Or.inl rfl
  | replace => exact Or.inl rfl
  | acquire _ hnext => exact Or.inr ⟨_, hnext⟩
  | fill _ hnext => exact Or.inr ⟨_, hnext⟩
  | push _ hnext => exact Or.inr ⟨_, hnext⟩
  | leave _ hnext => exact Or.inr ⟨_, hnext⟩
  | replaceLast _ _ hnext => exact Or.inr ⟨_, hnext⟩
  | clear hnext => exact Or.inr ⟨_, hnext⟩
  | pushBack hnext => exact Or.inr ⟨_, hnext⟩

/-- What happens to the buffer pool is a run of a pool. -/
theorem pool_reachable {allowed : Server → Action → Prop} (hs : Reachable machine allowed s) :
    Reachable (ObjectPool.machine ℕ Bytes) AnyStep s.pool := by
  refine hs.invariant (P := fun s => Reachable (ObjectPool.machine ℕ Bytes) AnyStep s.pool)
    .init ?_
  intro s a t hpool _ hnext
  rcases pool_next (next_moves a hnext) with hsame | ⟨b, hb⟩
  · rw [hsame]
    exact hpool
  · exact .step hpool trivial hb

end Moves

section Payloads

variable {e : Event} {n : ℕ}

/-- What is known of the vectors and of the pointers to them. -/
structure Intact (s : Server) : Prop where
  sound : Sound s.pool
  fresh : ∀ n, s.made ≤ n → s.pool.acquired n = none
  counts : Counts s.pool s.refs
  distinct : (s.reader.unpushed.toList ++ s.payloads).Nodup
  filled : ∀ conn n msg, s.reader = .filled conn n msg →
    (s.vector n).map s.pool.contents = some msg
  decoded : ∀ e ∈ s.alive, s.networkEvent e = ⟨e.type, e.conn, e.decoded⟩
  typed : ∀ e ∈ s.alive, e.type = .message → ∃ n, e.payload = some n

theorem refs_of_mem (h : n ∈ s.payloads) : 0 < s.refs n := by
  have hcount := List.count_pos_iff.mpr h
  unfold Server.refs
  omega

theorem refs_of_reader (h : s.reader.payload = some n) : 0 < s.refs n := by
  unfold Server.refs
  rw [if_pos h]
  omega

theorem mem_payloads (he : e ∈ s.alive) (hn : e.payload = some n) : n ∈ s.payloads :=
  List.mem_filterMap.mpr ⟨e, he, hn⟩

/-- The pointer that is dropped when the next event is popped. -/
theorem payloads_replace {rest : List Event} (pool : Pool ℕ Bytes)
    (hqueue : s.eventQueue = e :: rest) :
    s.payloads = (s.evt.bind Event.payload).toList ++
      ({ s with pool := pool, eventQueue := rest, evt := some e } : Server).payloads := by
  unfold Server.payloads Server.alive
  rw [hqueue]
  cases s.evt with
  | none => rfl
  | some e' => cases hpayload : e'.payload <;> simp [hpayload]

theorem alive_replace {rest : List Event} {pool : Pool ℕ Bytes} (hqueue : s.eventQueue = e :: rest)
    {e' : Event} (he : e' ∈ ({ s with
      pool := pool, eventQueue := rest, evt := some e } : Server).alive) : e' ∈ s.alive := by
  unfold Server.alive
  rw [hqueue]
  exact List.mem_append_right _ he

namespace Intact

theorem init : Intact .init where
  sound := Sound.init
  fresh n _ := rfl
  counts n hn := by simp [Server.refs, Server.payloads, Server.alive, Server.init,
    Reader.payload] at hn
  distinct := .nil
  filled conn n msg h := by cases h
  decoded e he := by cases he
  typed e he := by cases he

/-- A vector to which there are pointers stays as it is when the pool is used for others. -/
theorem kept {a : ObjectPool.Action ℕ Bytes} (h : Intact s) (hnext : s.pool.next a = some t.pool)
    (hrefs : 0 < s.refs n) (hother : ∀ msg, a ≠ .modify n msg) :
    t.vector n = s.vector n ∧
      (t.vector n).map t.pool.contents = (s.vector n).map s.pool.contents := by
  obtain ⟨x, hx, hheld⟩ := h.counts.held hrefs
  obtain ⟨hcontents, y, hy, hsame⟩ :=
    held_kept h.sound (ObjectPool.next_moves hnext) hx hheld hother
  have hvector : t.vector n = s.vector n := by
    unfold Server.vector
    rw [hx, hy, Option.map_some, Option.map_some, hsame]
  refine ⟨hvector, ?_⟩
  rw [hvector]
  unfold Server.vector
  rw [hx, Option.map_some, Option.map_some, Option.map_some, hcontents]

/-- So do the events with these vectors. -/
theorem networkEvent_kept {a : ObjectPool.Action ℕ Bytes} (h : Intact s)
    (hnext : s.pool.next a = some t.pool) (he : e ∈ s.alive)
    (hother : ∀ n msg, n ∈ s.payloads → a ≠ .modify n msg) :
    t.networkEvent e = ⟨e.type, e.conn, e.decoded⟩ := by
  rw [← h.decoded e he]
  unfold Server.networkEvent Server.payloadVector
  cases hpayload : e.payload with
  | none => rfl
  | some n =>
    have hmem := mem_payloads he hpayload
    have hvector := (h.kept hnext (refs_of_mem hmem) fun msg => hother n msg hmem).2
    rw [Option.bind_some, Option.bind_some, hvector]

/-- A step that uses the pool and hands nothing out. -/
theorem use {a : ObjectPool.Action ℕ Bytes} (h : Intact s) (hnext : s.pool.next a = some t.pool)
    (hacquirer : a.acquirer = none) (hother : ∀ n msg, n ∈ s.payloads → a ≠ .modify n msg)
    (hmade : t.made = s.made) (hcounts : Counts t.pool t.refs)
    (hdistinct : (t.reader.unpushed.toList ++ t.payloads).Nodup)
    (hfilled : ∀ conn n msg, t.reader = .filled conn n msg →
      (t.vector n).map t.pool.contents = some msg)
    (halive : ∀ e ∈ t.alive, e ∈ s.alive ∨
      t.networkEvent e = ⟨e.type, e.conn, e.decoded⟩ ∧ ∃ n, e.payload = some n) :
    Intact t := by
  refine ⟨h.sound.step (ObjectPool.next_moves hnext), ?_, hcounts, hdistinct, hfilled, ?_, ?_⟩
  · intro n hn
    refine acquired_none (ObjectPool.next_moves hnext) (h.fresh n (hmade ▸ hn)) ?_
    rw [hacquirer]
    exact nofun
  · intro e he
    rcases halive e he with he | ⟨hdecoded, _⟩
    · exact h.networkEvent_kept hnext he hother
    · exact hdecoded
  · intro e he htype
    rcases halive e he with he | ⟨_, hpayload⟩
    · exact h.typed e he htype
    · exact hpayload

theorem notice (h : Intact s) (htype : e.type ≠ .message) (hpayload : e.payload = none)
    (hdecoded : e.decoded = none) : Intact { s with eventQueue := s.eventQueue ++ [e] } := by
  have halive : ({ s with eventQueue := s.eventQueue ++ [e] } : Server).alive = s.alive ++ [e] :=
    (List.append_assoc ..).symm
  have hpayloads : ({ s with eventQueue := s.eventQueue ++ [e] } : Server).payloads =
      s.payloads := by
    unfold Server.payloads
    rw [halive, List.filterMap_append]
    simp [hpayload]
  refine ⟨h.sound, h.fresh, ?_, ?_, h.filled, ?_, ?_⟩
  · intro n hn
    have hrefs : ({ s with eventQueue := s.eventQueue ++ [e] } : Server).refs n = s.refs n := by
      unfold Server.refs
      rw [hpayloads]
    rw [hrefs] at hn ⊢
    exact h.counts n hn
  · rw [hpayloads]
    exact h.distinct
  · intro e' he'
    rw [halive] at he'
    rcases List.mem_append.mp he' with he' | he'
    · exact h.decoded e' he'
    · rw [List.mem_singleton.mp he']
      simp [Server.networkEvent, Server.payloadVector, hpayload, hdecoded]
  · intro e' he' hmessage
    rw [halive] at he'
    rcases List.mem_append.mp he' with he' | he'
    · exact h.typed e' he' hmessage
    · exact absurd (List.mem_singleton.mp he' ▸ hmessage) htype

/-- Nothing refers to an acquisition that is yet to come. -/
theorem refs_fresh (h : Intact s) (hn : s.made ≤ n) : s.refs n = 0 := by
  by_contra hrefs
  obtain ⟨ptr, hptr⟩ := h.counts n (Nat.pos_of_ne_zero hrefs)
  cases hptr.symm.trans (h.fresh n hn)

theorem acquire {conn : ConnId} {msg : Bytes} {fresh : Address} {pool : Pool ℕ Bytes}
    (h : Intact s) (hreader : s.reader = .decoding)
    (hnext : s.pool.next (.acquireShared s.made fresh) = some pool) :
    Intact { s with pool := pool, made := s.made + 1, reader := .acquired conn s.made msg } := by
  have hnone := h.refs_fresh (le_refl s.made)
  have hcount : s.payloads.count s.made = 0 := by
    unfold Server.refs at hnone
    omega
  have hdistinct := h.distinct
  rw [hreader] at hdistinct
  refine ⟨h.sound.step (ObjectPool.next_moves hnext), ?_, ?_, ?_, nofun, ?_, h.typed⟩
  · intro n hn
    change s.made + 1 ≤ n at hn
    refine acquired_none (ObjectPool.next_moves hnext) (h.fresh n (by omega)) ?_
    intro heq
    have hsame : s.made = n := Option.some.inj heq
    omega
  · refine h.counts.acquireShared hnext ?_ ?_
    · change s.payloads.count s.made + (if some s.made = some s.made then 1 else 0) = 1
      rw [hcount, if_pos rfl]
    · intro n hn
      have hne : some s.made ≠ some n := fun heq => hn (Option.some.inj heq).symm
      change s.payloads.count n + (if some s.made = some n then 1 else 0) = _
      unfold Server.refs
      rw [if_neg hne, hreader, if_neg (by simp [Reader.payload])]
  · exact List.nodup_cons.mpr ⟨List.count_eq_zero.mp hcount, hdistinct⟩
  · intro e he
    exact networkEvent_kept (t := { s with
      pool := pool, made := s.made + 1, reader := .acquired conn s.made msg }) h hnext he nofun

theorem fill {conn : ConnId} {msg : Bytes} {pool : Pool ℕ Bytes} (h : Intact s)
    (hreader : s.reader = .acquired conn n msg)
    (hnext : s.pool.next (.modify n msg) = some pool) :
    Intact { s with pool := pool, reader := .filled conn n msg } := by
  have hdistinct := h.distinct
  rw [hreader] at hdistinct
  have hnot : n ∉ s.payloads := (List.nodup_cons.mp hdistinct).1
  have hrefs : ({ s with pool := pool, reader := .filled conn n msg } : Server).refs = s.refs := by
    funext m
    unfold Server.refs
    rw [hreader]
    rfl
  refine h.use (t := { s with pool := pool, reader := .filled conn n msg }) hnext rfl ?_ rfl ?_
    hdistinct ?_ fun e he => Or.inl he
  · intro m msg' hm heq
    cases heq
    exact hnot hm
  · rw [hrefs]
    exact h.counts.modify hnext
  · intro conn' n' msg' heq
    cases heq
    obtain ⟨x, hx, hheld⟩ := h.counts.held (refs_of_reader (by rw [hreader]; rfl) : 0 < s.refs n)
    simp only [Pool.next, hx, if_pos hheld, Option.some.injEq] at hnext
    subst hnext
    simp [Server.vector, hx]

theorem push {conn : ConnId} {msg : Bytes} {pool : Pool ℕ Bytes} (h : Intact s)
    (hreader : s.reader = .filled conn n msg) (hnext : s.pool.next (.copy n) = some pool) :
    Intact { s with
      pool := pool
      reader := .pushed n
      eventQueue := s.eventQueue ++ [⟨.message, conn, some n, some msg⟩] } := by
  have hdistinct := h.distinct
  rw [hreader] at hdistinct
  have hpos : 0 < s.refs n := refs_of_reader (by rw [hreader]; rfl)
  generalize ht : ({ s with
    pool := pool
    reader := .pushed n
    eventQueue := s.eventQueue ++ [⟨.message, conn, some n, some msg⟩] } : Server) = t
  have hpool : s.pool.next (.copy n) = some t.pool := by rw [← ht]; exact hnext
  have halive : t.alive = s.alive ++ [⟨.message, conn, some n, some msg⟩] := by
    rw [← ht]
    exact (List.append_assoc ..).symm
  have hpayloads : t.payloads = s.payloads ++ [n] := by
    unfold Server.payloads
    rw [halive, List.filterMap_append]
    rfl
  have hreader' : t.reader = .pushed n := by rw [← ht]
  refine h.use hpool rfl (fun _ _ _ => nofun) (by rw [← ht]) ?_ ?_ ?_ ?_
  · refine h.counts.copy hpool hpos ?_ ?_
    · unfold Server.refs
      rw [hpayloads, hreader', hreader, List.count_append, List.count_singleton_self]
      simp only [Reader.payload]
      omega
    · intro m hm
      unfold Server.refs
      rw [hpayloads, hreader', hreader, List.count_append,
        List.count_singleton, if_neg (by simpa using Ne.symm hm)]
      rfl
  · rw [hpayloads, hreader']
    change (s.payloads ++ [n]).Nodup
    exact List.nodup_append_comm.mp hdistinct
  · intro conn' n' msg' heq
    cases hreader'.symm.trans heq
  · intro e he
    rw [halive] at he
    rcases List.mem_append.mp he with he | he
    · exact Or.inl he
    · rw [List.mem_singleton.mp he]
      refine Or.inr ⟨?_, n, rfl⟩
      have hvector := (h.kept hpool hpos nofun).2
      rw [h.filled conn n msg hreader] at hvector
      unfold Server.networkEvent Server.payloadVector
      rw [Option.bind_some, hvector]

theorem leave {pool : Pool ℕ Bytes} (h : Intact s) (hreader : s.reader = .pushed n)
    (hnext : s.pool.next (.drop n) = some pool) :
    Intact { s with pool := pool, reader := .decoding } := by
  have hdistinct := h.distinct
  rw [hreader] at hdistinct
  have hpos : 0 < s.refs n := refs_of_reader (by rw [hreader]; rfl)
  refine h.use (t := { s with pool := pool, reader := .decoding }) hnext rfl (fun _ _ _ => nofun)
    rfl ?_ hdistinct nofun fun e he => Or.inl he
  refine h.counts.drop hnext hpos ?_ ?_
  · unfold Server.refs
    rw [hreader]
    simp [Reader.payload, Server.payloads, Server.alive]
  · intro m hm
    unfold Server.refs
    rw [hreader]
    simp [Reader.payload, Server.payloads, Server.alive, Ne.symm hm]

/-- A vector that handle_read has filled stays so until its event is pushed. -/
theorem filled_kept {a : ObjectPool.Action ℕ Bytes} (h : Intact s)
    (hnext : s.pool.next a = some t.pool) (hreader : t.reader = s.reader)
    (hother : ∀ n msg, a ≠ .modify n msg) (conn : ConnId) (n : ℕ) (msg : Bytes)
    (hfilled : t.reader = .filled conn n msg) : (t.vector n).map t.pool.contents = some msg := by
  rw [hreader] at hfilled
  have hpos : 0 < s.refs n := refs_of_reader (by rw [hfilled]; rfl)
  rw [(h.kept hnext hpos (hother n)).2]
  exact h.filled conn n msg hfilled

theorem replace {rest : List Event} (h : Intact s) (hqueue : s.eventQueue = e :: rest)
    (hnone : s.evt.bind Event.payload = none) :
    Intact { s with eventQueue := rest, evt := some e } := by
  have hpayloads := payloads_replace s.pool hqueue
  rw [hnone, Option.toList_none, List.nil_append] at hpayloads
  have hrefs : ({ s with eventQueue := rest, evt := some e } : Server).refs = s.refs := by
    funext n
    unfold Server.refs
    rw [hpayloads]
  refine ⟨h.sound, h.fresh, ?_, ?_, h.filled, ?_, ?_⟩
  · rw [hrefs]
    exact h.counts
  · have hdistinct := h.distinct
    rw [hpayloads] at hdistinct
    exact hdistinct
  · exact fun e' he' => h.decoded e' (alive_replace hqueue he')
  · exact fun e' he' => h.typed e' (alive_replace hqueue he')

theorem replaceLast {rest : List Event} {pool : Pool ℕ Bytes} (h : Intact s)
    (hqueue : s.eventQueue = e :: rest) (hpayload : s.evt.bind Event.payload = some n)
    (hnext : s.pool.next (.drop n) = some pool) :
    Intact { s with pool := pool, eventQueue := rest, evt := some e } := by
  have hpayloads := payloads_replace pool hqueue
  rw [hpayload, Option.toList_some, List.singleton_append] at hpayloads
  generalize ht : ({ s with pool := pool, eventQueue := rest, evt := some e } : Server) = t
    at hpayloads
  have hpool : s.pool.next (.drop n) = some t.pool := by rw [← ht]; exact hnext
  have hreader : t.reader = s.reader := by rw [← ht]
  have hmem : n ∈ s.payloads := hpayloads ▸ List.mem_cons_self
  have hdistinct := h.distinct
  refine h.use hpool rfl (fun _ _ _ => nofun) (by rw [← ht]) ?_ ?_
    (h.filled_kept hpool hreader fun _ _ => nofun) ?_
  · refine h.counts.drop hpool (refs_of_mem hmem) ?_ ?_
    · unfold Server.refs
      rw [hpayloads, hreader, List.count_cons_self]
      omega
    · intro m hm
      unfold Server.refs
      rw [hpayloads, hreader, List.count_cons_of_ne (Ne.symm hm)]
  · rw [hpayloads] at hdistinct
    rw [hreader]
    refine hdistinct.sublist ?_
    exact List.Sublist.append_left (List.sublist_cons_self n t.payloads) _
  · intro e' he'
    rw [← ht] at he'
    exact Or.inl (alive_replace hqueue he')

theorem step (h : Intact s) (hmoves : Moves s t) : Intact t := by
  cases hmoves with
  | notice htype hpayload hdecoded => exact h.notice htype hpayload hdecoded
  | acquire hreader hnext => exact h.acquire hreader hnext
  | fill hreader hnext => exact h.fill hreader hnext
  | push hreader hnext => exact h.push hreader hnext
  | leave hreader hnext => exact h.leave hreader hnext
  | replace hqueue hnone => exact h.replace hqueue hnone
  | replaceLast hqueue hpayload hnext => exact h.replaceLast hqueue hpayload hnext
  | @clear n pool hnext =>
    exact h.use (t := { s with pool := pool }) hnext rfl (fun _ _ _ => nofun) rfl
      (h.counts.clear hnext) h.distinct (h.filled_kept hnext rfl fun _ _ => nofun)
      fun e he => Or.inl he
  | @pushBack n pool hnext =>
    exact h.use (t := { s with pool := pool }) hnext rfl (fun _ _ _ => nofun) rfl
      (h.counts.pushBack hnext) h.distinct (h.filled_kept hnext rfl fun _ _ => nofun)
      fun e he => Or.inl he

end Intact

theorem intact {allowed : Server → Action → Prop} (hs : Reachable machine allowed s) : Intact s :=
  hs.invariant (P := Intact) Intact.init fun _ a _ h _ hnext => h.step (next_moves a hnext)

/-- The logic thread reads of each event the message that was decoded for it. -/
theorem networkEvent_decoded {allowed : Server → Action → Prop} (hs : Reachable machine allowed s)
    (he : e ∈ s.alive) : s.networkEvent e = ⟨e.type, e.conn, e.decoded⟩ :=
  (intact hs).decoded e he

/-- Whenever handle_read or the logic thread uses or drops a pointer, the vector is there. -/
theorem pointers_valid {allowed : Server → Action → Prop} (hs : Reachable machine allowed s) :
    (∀ conn n msg, s.reader = .acquired conn n msg → (s.next .fill).isSome = true) ∧
    (∀ conn n msg, s.reader = .filled conn n msg → (s.next .push).isSome = true) ∧
    (∀ n, s.reader = .pushed n → (s.next .leave).isSome = true) ∧
    (s.eventQueue ≠ [] → (s.next .pop).isSome = true) := by
  have hcounts := (intact hs).counts
  refine ⟨?_, ?_, ?_, ?_⟩
  · intro conn n msg hreader
    have hpos : 0 < s.refs n := refs_of_reader (by rw [hreader]; rfl)
    simpa [Server.next, hreader] using (hcounts.usable hpos).1 msg
  · intro conn n msg hreader
    have hpos : 0 < s.refs n := refs_of_reader (by rw [hreader]; rfl)
    simpa [Server.next, hreader] using (hcounts.usable hpos).2.1
  · intro n hreader
    have hpos : 0 < s.refs n := refs_of_reader (by rw [hreader]; rfl)
    simpa [Server.next, hreader] using (hcounts.usable hpos).2.2
  · intro hqueue
    obtain ⟨e, rest, hsplit⟩ := List.exists_cons_of_ne_nil hqueue
    cases hpayload : s.evt.bind Event.payload with
    | none => simp [Server.next, hsplit, hpayload, Server.dropPayload]
    | some n =>
      obtain ⟨e', he', hn⟩ := Option.bind_eq_some_iff.mp hpayload
      have halive : e' ∈ s.alive :=
        List.mem_append_left _ (Option.mem_toList.mpr he')
      have hpos := refs_of_mem (mem_payloads halive hn)
      simpa [Server.next, hsplit, hpayload, Server.dropPayload] using (hcounts.usable hpos).2.2

/-- Two shared pointers to different acquisitions lead to different vectors. -/
theorem vector_ne {m : ℕ} (h : Intact s) (hn : 0 < s.refs n) (hm : 0 < s.refs m) (hne : n ≠ m) :
    ∃ ptr ptr', s.vector n = some ptr ∧ s.vector m = some ptr' ∧ ptr ≠ ptr' := by
  obtain ⟨x, hx, _⟩ := h.counts.held hn
  obtain ⟨y, hy, _⟩ := h.counts.held hm
  refine ⟨x.object, y.object, congrArg _ hx, congrArg _ hy, ?_⟩
  intro hsame
  exact hne (h.sound.apart n m x y hx hy hsame)

theorem pairwise_alive (h : Intact s) :
    s.alive.Pairwise fun e e' => e.type = .message → e'.type = .message →
      ∃ ptr ptr', s.payloadVector e = some ptr ∧ s.payloadVector e' = some ptr' ∧ ptr ≠ ptr' := by
  have hnodup : s.payloads.Nodup := h.distinct.of_append_right
  have hpairs := List.pairwise_filterMap.mp hnodup
  refine hpairs.imp_of_mem ?_
  intro e e' he he' hne hmessage hmessage'
  obtain ⟨n, hn⟩ := h.typed e he hmessage
  obtain ⟨m, hm⟩ := h.typed e' he' hmessage'
  have hvectors := vector_ne h (refs_of_mem (mem_payloads he hn))
    (refs_of_mem (mem_payloads he' hm)) (hne n hn m hm)
  unfold Server.payloadVector
  rw [hn, hm]
  exact hvectors

end Payloads

/-- In any run of the operations of a pool, the objects in the pool are distinct and empty
and none of them is with an acquisition, no two acquisitions have the same object,
and what acquire or acquire_shared hands out is empty. In any run of the server, no
two of the MESSAGE events that are alive have the same vector. -/
theorem payloads_apart {H T : Type*} [DecidableEq H] [Poolable T]
    {allowed : Pool H T → ObjectPool.Action H T → Prop} {pool : Pool H T}
    (hpool : Reachable (ObjectPool.machine H T) allowed pool)
    {allowed' : Server → Action → Prop} (hs : Reachable machine allowed' s) :
    (pool.pool.Nodup ∧ (∀ ptr ∈ pool.pool, pool.contents ptr = Poolable.empty) ∧
      (∀ h x, pool.acquired h = some x → x.object ∉ pool.pool) ∧
      ∀ h k x y, pool.acquired h = some x → pool.acquired k = some y → x.object = y.object →
        h = k) ∧
    (∀ h fresh after, pool.next (.acquire h fresh) = some after ∨
        pool.next (.acquireShared h fresh) = some after →
      ∃ x, after.acquired h = some x ∧ x.stage.held = true ∧
        after.contents x.object = Poolable.empty) ∧
    s.alive.Pairwise fun e e' => e.type = .message → e'.type = .message →
      ∃ ptr ptr', s.payloadVector e = some ptr ∧ s.payloadVector e' = some ptr' ∧ ptr ≠ ptr' := by
  have hsound := sound hpool
  refine ⟨⟨hsound.nodup, hsound.clean, hsound.outside, hsound.apart⟩, ?_,
    pairwise_alive (intact hs)⟩
  intro h fresh after hnext
  rcases hnext with hnext | hnext
  · obtain ⟨ptr, hptr, hempty, _⟩ := handOut_empty hsound hnext
    exact ⟨_, hptr, rfl, hempty⟩
  · obtain ⟨ptr, hptr, hempty, _⟩ := handOut_empty hsound hnext
    exact ⟨_, hptr, rfl, hempty⟩

section Sample

/-- The second holder gets the object that the first one has filled and released. -/
def samplePool : List (ObjectPool.Action Bool (List ℕ)) :=
  [.acquire true 5, .modify true [1, 2], .release true, .clear true, .pushBack true,
    .acquireShared false 6, .modify false [3], .copy false, .drop false, .acquire true 7,
    .drop false, .clear false, .pushBack false]

/-- The logic thread drops the last pointer to the first vector, which the third
message gets. -/
def sampleSteps : List Action :=
  [.acquire 1 [10] 3, .fill, .push, .leave, .notice .connect 2, .acquire 2 [20] 4, .fill, .push,
    .pop, .pop, .leave, .clear 0, .pushBack 0, .acquire 1 [11] 8, .fill, .push]

theorem payloads_apart_sample :
    ∃ (pool : Pool Bool (List ℕ)) (s : Server),
      Reachable (ObjectPool.machine Bool (List ℕ)) AnyStep pool ∧ Reachable machine AnyStep s ∧
      pool.pool = [5] ∧ s.alive.map s.payloadVector = [none, some 4, some 3] ∧
      (pool.pool.Nodup ∧ (∀ ptr ∈ pool.pool, pool.contents ptr = []) ∧
        (∀ h x, pool.acquired h = some x → x.object ∉ pool.pool) ∧
        ∀ h k x y, pool.acquired h = some x → pool.acquired k = some y → x.object = y.object →
          h = k) ∧
      (∀ h fresh after, pool.next (.acquire h fresh) = some after ∨
          pool.next (.acquireShared h fresh) = some after →
        ∃ x, after.acquired h = some x ∧ x.stage.held = true ∧ after.contents x.object = []) ∧
      s.alive.Pairwise fun e e' => e.type = .message → e'.type = .message →
        ∃ ptr ptr', s.payloadVector e = some ptr ∧ s.payloadVector e' = some ptr' ∧
          ptr ≠ ptr' := by
  have hpools : (run (ObjectPool.machine Bool (List ℕ)) AnyStep
      (ObjectPool.machine Bool (List ℕ)).init samplePool).any (fun pool => pool.pool = [5]) =
        true := by
    decide +kernel
  have hruns : (run machine AnyStep machine.init sampleSteps).any (fun s =>
      s.alive.map s.payloadVector = [none, some 4, some 3]) = true := by
    decide +kernel
  obtain ⟨pool, hpool, hback⟩ := exists_reachable hpools
  obtain ⟨s, hs, hvectors⟩ := exists_reachable hruns
  exact ⟨pool, s, hpool, hs, hback, hvectors, payloads_apart hpool hs⟩

end Sample

end ChatServer.MessagePayloads
