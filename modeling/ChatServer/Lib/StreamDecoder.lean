import Mathlib.Data.List.Basic

/-!
Decoders that take messages off a buffer one call at a time. A call returns a
message or nothing, and always the buffer it leaves behind; a caller drains
the buffer by calling until nothing is returned. The buffer type is arbitrary,
so that a circular buffer and the byte list it stands for can be compared.
-/
namespace ChatServer.Lib.StreamDecoder

/-- A returned message strictly shrinks the buffer, so draining terminates. -/
structure Decoder (σ α : Type*) where
  decode : σ → Option α × σ
  size : σ → ℕ
  shrinks : ∀ s a t, decode s = (some a, t) → size t < size s

variable {σ τ α : Type*}

namespace Decoder

/-- The decode loop: all messages up to the first empty-handed call. -/
def drain (D : Decoder σ α) (s : σ) : List α × σ :=
  match _h : D.decode s with
  | (some a, t) => (a :: (D.drain t).1, (D.drain t).2)
  | (none, t) => ([], t)
termination_by D.size s
decreasing_by all_goals exact D.shrinks s a t _h

/-- `Decodes s as last`: the calls on `s` return `as`, and the call that
returns nothing is made on `last`. -/
inductive Decodes (D : Decoder σ α) : σ → List α → σ → Prop
  | stop {s t : σ} (h : D.decode s = (none, t)) : Decodes D s [] s
  | next {s t last : σ} {a : α} {as : List α} (h : D.decode s = (some a, t))
      (hrest : Decodes D t as last) : Decodes D s (a :: as) last

theorem drain_of_none (D : Decoder σ α) {s t : σ} (h : D.decode s = (none, t)) :
    D.drain s = ([], t) := by
  rw [drain]
  split
  · rename_i heq
    rw [h] at heq
    cases heq
  · rename_i heq
    rw [h] at heq
    cases heq
    rfl

theorem drain_of_some (D : Decoder σ α) {s t : σ} {a : α} (h : D.decode s = (some a, t)) :
    D.drain s = (a :: (D.drain t).1, (D.drain t).2) := by
  rw [drain]
  split
  · rename_i heq
    rw [h] at heq
    cases heq
    rfl
  · rename_i heq
    rw [h] at heq
    cases heq

theorem exists_decodes (D : Decoder σ α) (s : σ) : ∃ as last, D.Decodes s as last := by
  induction hn : D.size s using Nat.strongRecOn generalizing s with
  | ind n ih =>
    rcases hs : D.decode s with ⟨result, t⟩
    cases result with
    | none => exact ⟨[], s, .stop hs⟩
    | some a =>
      have hlt : D.size t < n := hn ▸ D.shrinks s a t hs
      obtain ⟨as, last, hrest⟩ := ih _ hlt t rfl
      exact ⟨a :: as, last, .next hs hrest⟩

theorem Decodes.drain_eq {D : Decoder σ α} {s last : σ} {as : List α}
    (h : D.Decodes s as last) : D.drain s = (as, (D.decode last).2) := by
  induction h with
  | stop h => rw [D.drain_of_none h, h]
  | next h hrest ih => rw [D.drain_of_some h, ih]

theorem Decodes.last_none {D : Decoder σ α} {s last : σ} {as : List α}
    (h : D.Decodes s as last) : (D.decode last).1 = none := by
  induction h with
  | stop h => rw [h]
  | next h hrest ih => exact ih

/-- One decoder simulates another through `abs` on the states that satisfy
`good`, which its own calls preserve. -/
structure Simulates (D : Decoder σ α) (E : Decoder τ α) (abs : σ → τ) (good : σ → Prop) :
    Prop where
  decode_eq : ∀ s, good s → E.decode (abs s) = ((D.decode s).1, abs (D.decode s).2)
  preserves : ∀ s, good s → good (D.decode s).2

/-- Simulated decoders drain to the same messages and to related buffers. -/
theorem Simulates.drain_eq {D : Decoder σ α} {E : Decoder τ α} {abs : σ → τ}
    {good : σ → Prop} (hsim : Simulates D E abs good) {s : σ} (hs : good s) :
    E.drain (abs s) = ((D.drain s).1, abs (D.drain s).2) ∧ good (D.drain s).2 := by
  obtain ⟨as, last, hrun⟩ := D.exists_decodes s
  induction hrun with
  | @stop s t h =>
    have habs := hsim.decode_eq s hs
    have hgood := hsim.preserves s hs
    rw [h] at habs hgood
    rw [D.drain_of_none h, E.drain_of_none habs]
    exact ⟨rfl, hgood⟩
  | @next s t last a as h hrest ih =>
    have habs := hsim.decode_eq s hs
    have hgood := hsim.preserves s hs
    rw [h] at habs hgood
    obtain ⟨heq, hlast⟩ := ih hgood
    rw [D.drain_of_some h, E.drain_of_some habs, heq]
    exact ⟨rfl, hlast⟩

section AndThen

variable {β : Type*}

/-- Messages are read once more. A message that is not readable is taken off
the buffer, and the call returns nothing. -/
def andThen (D : Decoder σ α) (read : α → Option β) : Decoder σ β where
  decode s := ((D.decode s).1.bind read, (D.decode s).2)
  size := D.size
  shrinks s b t h := by
    obtain ⟨hread, rfl⟩ := Prod.mk.inj h
    obtain ⟨a, ha, _⟩ := Option.bind_eq_some_iff.mp hread
    exact D.shrinks s a _ (Prod.ext ha rfl)

variable {read : α → Option β}

/-- A buffer of readable messages is drained as before. -/
theorem drain_andThen {D : Decoder σ α} {s : σ} (h : ∀ a ∈ (D.drain s).1, (read a).isSome) :
    (D.andThen read).drain s = ((D.drain s).1.filterMap read, (D.drain s).2) := by
  obtain ⟨as, last, hrun⟩ := D.exists_decodes s
  induction hrun with
  | @stop s t hnone =>
    have hstop : (D.andThen read).decode s = (none, t) := by simp [andThen, hnone]
    rw [(D.andThen read).drain_of_none hstop, D.drain_of_none hnone]
    rfl
  | @next s t last a as hsome hrest ih =>
    rw [D.drain_of_some hsome] at h ⊢
    obtain ⟨b, hb⟩ := Option.isSome_iff_exists.mp (h a List.mem_cons_self)
    have hnext : (D.andThen read).decode s = (some b, t) := by simp [andThen, hsome, hb]
    rw [(D.andThen read).drain_of_some hnext, ih fun a ha => h a (List.mem_cons_of_mem _ ha)]
    simp [hb]

theorem Simulates.andThen {D : Decoder σ α} {E : Decoder τ α} {abs : σ → τ} {good : σ → Prop}
    (hsim : Simulates D E abs good) (read : α → Option β) :
    Simulates (D.andThen read) (E.andThen read) abs good where
  decode_eq s hs := by
    have h := hsim.decode_eq s hs
    simp only [Decoder.andThen, h]
  preserves s hs := hsim.preserves s hs

/-- What is drained was read from a message of the first decoder. -/
theorem mem_drain {D : Decoder σ α} {P : σ → α → Prop} {s : σ} {a : α}
    (hdecode : ∀ s a t, D.decode s = (some a, t) → P s a)
    (hlater : ∀ s b t, D.decode s = (some b, t) → ∀ a, P t a → P s a)
    (ha : a ∈ (D.drain s).1) : P s a := by
  obtain ⟨as, last, hrun⟩ := D.exists_decodes s
  induction hrun with
  | stop h =>
    rw [D.drain_of_none h] at ha
    exact absurd ha List.not_mem_nil
  | @next s t last b as h hrest ih =>
    rw [D.drain_of_some h] at ha
    rcases List.mem_cons.mp ha with rfl | ha
    · exact hdecode s a t h
    · exact hlater s b t h a (ih ha)

end AndThen

section Chunks

variable {β : Type*}

/-- A decoder of lists that keeps what it cannot read yet, and does not change
its mind about a message when more arrives behind it. -/
structure Stable (D : Decoder (List β) α) : Prop where
  waits : ∀ s t, D.decode s = (none, t) → t = s
  stays : ∀ s a t u, D.decode s = (some a, t) → D.decode (s ++ u) = (some a, t ++ u)

/-- Each chunk is appended to the buffer, and the buffer is drained. -/
def feed (D : Decoder (List β) α) (s : List β) : List (List β) → List α × List β
  | [] => ([], s)
  | chunk :: rest =>
      ((D.drain (s ++ chunk)).1 ++ (D.feed (D.drain (s ++ chunk)).2 rest).1,
        (D.feed (D.drain (s ++ chunk)).2 rest).2)

/-- What arrives later may as well have been there from the start. -/
theorem Stable.drain_append {D : Decoder (List β) α} (h : D.Stable) (s u : List β) :
    D.drain (s ++ u) = ((D.drain s).1 ++ (D.drain ((D.drain s).2 ++ u)).1,
      (D.drain ((D.drain s).2 ++ u)).2) := by
  obtain ⟨as, last, hrun⟩ := D.exists_decodes s
  induction hrun with
  | @stop s t hnone =>
    rw [D.drain_of_none hnone, h.waits s t hnone, List.nil_append]
  | @next s t last a as hsome hrest ih =>
    rw [D.drain_of_some (h.stays s a t u hsome), D.drain_of_some hsome, ih, List.cons_append]

/-- Feeding a stream in chunks is draining the whole stream. -/
theorem Stable.feed_eq {D : Decoder (List β) α} (h : D.Stable) {s : List β}
    (hs : D.drain s = ([], s)) (chunks : List (List β)) :
    D.feed s chunks = D.drain (s ++ chunks.flatten) := by
  induction chunks generalizing s with
  | nil => rw [feed, List.flatten_nil, List.append_nil, hs]
  | cons chunk rest ih =>
    have hlast : D.drain (D.drain (s ++ chunk)).2 = ([], (D.drain (s ++ chunk)).2) := by
      obtain ⟨as, last, hrun⟩ := D.exists_decodes (s ++ chunk)
      have hstop : D.decode last = (none, last) := by
        have hnone : D.decode last = (none, (D.decode last).2) := Prod.ext hrun.last_none rfl
        rwa [h.waits last _ hnone] at hnone
      rw [hrun.drain_eq, hstop]
      exact D.drain_of_none hstop
    rw [feed, ih hlast, List.flatten_cons, ← List.append_assoc, h.drain_append (s ++ chunk)]

end Chunks

end Decoder

end ChatServer.Lib.StreamDecoder
