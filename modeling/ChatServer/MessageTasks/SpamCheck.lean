import ChatServer.Lib.Amortized
import ChatServer.MessageTasks.MessageOrder

/-!
The spam check of the third version. Any worker may refill and charge the bucket of a
connection, each under its mutex, and the workers read the clock at different
times. What the bucket would hold now is a potential: time adds to it at most what
has passed, and each message that is handed on takes one token from it.
-/
namespace ChatServer.MessageTasks.SpamCheck

open Lib.Runs Lib.Amortized MessageOrder

variable {C W : Type*}

/-- The message goes to the login or is broadcast. -/
def goesOn : Stage C → Bool
  | .login _ => true
  | .calling (.broadcast _ :: _) => true
  | _ => false

/-- How many messages of the connection OnMessageRecv hands on in the step. -/
def handsOn [DecidableEq C] (c : C) (s : Server C W) : Action C W → ℕ
  | .lock w =>
      match s.stage (.worker w) with
      | .taken m =>
          if m.conn = c ∧ goesOn (onMessageRecv (s.conns c) s.now m).2 = true then 1 else 0
      | _ => 0
  | _ => 0

/-- What the bucket of a connection would hold now. -/
def level (c : C) (s : Server C W) : ℚ := ((s.conns c).refill s.now).tokens

/-- The bucket of a connection was filled in the past, and is not overdrawn. -/
structure Filled (c : C) (s : Server C W) : Prop where
  past : (s.conns c).lastRefillTime ≤ s.now
  tokens : 0 ≤ (s.conns c).tokens

theorem level_eq (c : C) (s : Server C W) : level c s =
    min maxTokens ((s.conns c).tokens + (s.now - (s.conns c).lastRefillTime)) := by
  unfold level Connection.refill refillRate
  rw [mul_one, min_def_lt]

theorem level_le (c : C) (s : Server C W) : level c s ≤ maxTokens := by
  rw [level_eq]
  exact min_le_left _ _

theorem Filled.level_nonneg {s : Server C W} {c : C} (h : Filled c s) : 0 ≤ level c s := by
  rw [level_eq]
  have hpast := h.past
  have htokens := h.tokens
  refine le_min (by norm_num [maxTokens]) ?_
  linarith

/-- The bucket of a connection. -/
def bucket (conn : Connection) : ℚ × ℚ := (conn.tokens, conn.lastRefillTime)

theorem bucket_enqueue (conn : Connection) (msg : Text) :
    bucket (conn.enqueue msg) = bucket conn := by
  unfold Connection.enqueue
  split <;> rfl

section Received

variable {conn : Connection} {now : ℚ} {m : Message C} {r : Connection × Stage C}

/-- Under the mutex the bucket is refilled and charged for a message that is handed on. -/
theorem bucket_received (h : Received conn now m r) :
    (r.1 = conn ∧ goesOn r.2 = false) ∨
      (r.1.lastRefillTime = now ∧ r.1.tokens = (conn.refill now).tokens ∧ goesOn r.2 = false) ∨
      (r.1.lastRefillTime = now ∧ r.1.tokens = (conn.refill now).tokens - 1 ∧
        1 ≤ (conn.refill now).tokens) := by
  cases h with
  | closed _ => exact Or.inl ⟨rfl, rfl⟩
  | spam _ _ => exact Or.inr (Or.inl ⟨rfl, rfl, rfl⟩)
  | username _ hpaid _ => exact Or.inr (Or.inr ⟨rfl, rfl, not_lt.mp hpaid⟩)
  | chat _ hpaid _ => exact Or.inr (Or.inr ⟨rfl, rfl, not_lt.mp hpaid⟩)

end Received

section Steps

variable [DecidableEq C] [DecidableEq W] {s u : Server C W} {a : Action C W} {w : W}
  {m : Message C} {c : C}

omit [DecidableEq C] [DecidableEq W] in
/-- A step that leaves the bucket and the clock alone. -/
theorem level_same (hbucket : bucket (u.conns c) = bucket (s.conns c)) (hnow : u.now = s.now)
    (h : Filled c s) : Filled c u ∧ level c u = level c s := by
  obtain ⟨htokens, htime⟩ : (u.conns c).tokens = (s.conns c).tokens ∧
      (u.conns c).lastRefillTime = (s.conns c).lastRefillTime := by
    simpa [bucket] using hbucket
  refine ⟨⟨?_, ?_⟩, ?_⟩
  · rw [htime, hnow]
    exact h.past
  · rw [htokens]
    exact h.tokens
  · rw [level_eq, level_eq, htokens, htime, hnow]

omit [DecidableEq C] [DecidableEq W] in
/-- The clock adds to the bucket no more than the time that passes. -/
theorem level_tick {elapsed : ℚ} (hpast : 0 ≤ elapsed) (h : Filled c s) :
    Filled c { s with now := s.now + elapsed } ∧
      level c { s with now := s.now + elapsed } ≤ level c s + elapsed := by
  have hbefore := h.past
  refine ⟨⟨?_, h.tokens⟩, ?_⟩
  · show (s.conns c).lastRefillTime ≤ s.now + elapsed
    linarith
  · rw [level_eq, level_eq, ← min_add_add_right]
    refine min_le_min (by linarith) ?_
    show (s.conns c).tokens + (s.now + elapsed - (s.conns c).lastRefillTime) ≤
      (s.conns c).tokens + (s.now - (s.conns c).lastRefillTime) + elapsed
    linarith

/-- A turn of OnMessageRecv takes a token for a message that it hands on. -/
theorem level_receive (h : Filled c s) (htaken : s.stage (.worker w) = .taken m) :
    Filled c (s.receive w m) ∧
      (handsOn c s (.lock w) : ℚ) + level c (s.receive w m) ≤ level c s := by
  have hcount : handsOn c s (.lock w) =
      if m.conn = c ∧ goesOn (onMessageRecv (s.conns c) s.now m).2 = true then 1 else 0 := by
    simp only [handsOn, htaken]
  rw [hcount]
  by_cases hc : m.conn = c
  · subst hc
    have hself : (s.receive w m).conns m.conn = (onMessageRecv (s.conns m.conn) s.now m).1 :=
      Function.update_self ..
    have hfull := h.level_nonneg
    have hmost := level_le m.conn s
    have hafter : level m.conn (s.receive w m) = min maxTokens
        ((onMessageRecv (s.conns m.conn) s.now m).1.tokens +
          (s.now - (onMessageRecv (s.conns m.conn) s.now m).1.lastRefillTime)) := by
      rw [level_eq, hself]
      rfl
    have hcase := bucket_received (received (s.conns m.conn) s.now m)
    rw [show ((s.conns m.conn).refill s.now).tokens = level m.conn s from rfl] at hcase
    rcases hcase with ⟨hsame, hstop⟩ | ⟨htime, htokens, hstop⟩ | ⟨htime, htokens, hpaid⟩
    · refine ⟨⟨?_, ?_⟩, ?_⟩
      · rw [hself, hsame]
        exact h.past
      · rw [hself, hsame]
        exact h.tokens
      · rw [hafter, hsame, hstop, ← level_eq]
        simp
    · refine ⟨⟨?_, ?_⟩, ?_⟩
      · rw [hself]
        exact le_of_eq htime
      · rw [hself, htokens]
        exact hfull
      · rw [hafter, htime, htokens, hstop, sub_self, add_zero, min_eq_right hmost]
        simp
    · refine ⟨⟨?_, ?_⟩, ?_⟩
      · rw [hself]
        exact le_of_eq htime
      · rw [hself, htokens]
        linarith
      · have hleft : min maxTokens (level m.conn s - 1) = level m.conn s - 1 :=
          min_eq_right (by linarith)
        rw [hafter, htime, htokens, sub_self, add_zero, hleft]
        split
        · simp
        · rw [Nat.cast_zero]
          linarith
  · have hother : (s.receive w m).conns c = s.conns c :=
      Function.update_of_ne (fun heq => hc heq.symm) _ _
    obtain ⟨hfilled, hlevel⟩ := level_same (congrArg bucket hother) rfl h
    refine ⟨hfilled, ?_⟩
    rw [if_neg fun hboth => hc hboth.1, hlevel]
    simp

theorem step (h : Filled c s) (hnext : s.next a = some u) :
    Filled c u ∧ (handsOn c s a : ℚ) + level c u ≤ level c s + (u.now - s.now) := by
  -- Most steps hand on nothing and take no time.
  have hidle : handsOn c s a = 0 → u.now = s.now →
      (∀ d, bucket (u.conns d) = bucket (s.conns d)) →
      Filled c u ∧ (handsOn c s a : ℚ) + level c u ≤ level c s + (u.now - s.now) := by
    intro hnone hnow hbucket
    obtain ⟨hfilled, hlevel⟩ := level_same (hbucket c) hnow h
    refine ⟨hfilled, ?_⟩
    rw [hnone, hlevel, hnow]
    simp
  cases step_of_next hnext with
  | @tick elapsed hpast =>
    obtain ⟨hfilled, hgrow⟩ := level_tick hpast h
    refine ⟨hfilled, ?_⟩
    show ((0 : ℕ) : ℚ) + level c { s with now := s.now + elapsed } ≤
      level c s + (s.now + elapsed - s.now)
    rw [Nat.cast_zero]
    linarith
  | lock htaken _ =>
    obtain ⟨hfilled, hless⟩ := level_receive h htaken
    refine ⟨hfilled, hless.trans ?_⟩
    show level c s ≤ level c s + (s.now - s.now)
    rw [sub_self, add_zero]
  | read _ _ | readDone _ | hangUp _ | take _ _ | broadcast _ | closeAgain _ _ =>
    exact hidle rfl rfl fun _ => rfl
  | @decode d raw _ => exact hidle rfl rfl (Server.apply_setConn bucket rfl)
  | @insert w m _ =>
    refine hidle rfl ?_ ?_
    · unfold Server.tryInsert
      split <;> rfl
    · unfold Server.tryInsert
      split <;> exact fun _ => rfl
  | @assign w m _ => exact hidle rfl rfl (Server.apply_setConn bucket rfl)
  | @sendFast t d msg calls _ _ =>
    exact hidle rfl rfl (Server.apply_setConn bucket (bucket_enqueue (s.conns d) msg))
  | @close t d calls _ _ => exact hidle rfl rfl (Server.apply_setConn bucket rfl)
  | @disconnect t d _ =>
    refine hidle rfl ?_ ?_
    · unfold Server.onClientDisconnect
      dsimp only
      split <;> rfl
    · unfold Server.onClientDisconnect
      dsimp only
      split <;> exact Server.apply_setConn bucket rfl

variable {fd : C → ℕ} {allowed : Server C W → Action C W → Prop}

theorem filled (hs : Reachable (machine fd) allowed s) : Filled c s := by
  refine hs.invariant (P := Filled c) ⟨le_refl (0 : ℚ), ?_⟩ fun _ _ _ h _ hnext => (step h hnext).1
  show (0 : ℚ) ≤ maxTokens
  norm_num [maxTokens]

end Steps

section Sample

/-- Two chat lines after a login, a second apart. -/
def chatSteps : List (Action (Fin 1) (Fin 2)) :=
  decodeSteps [[97], [104], [105]] ++ [.take 0] ++ loginSteps 0 ++
    [.take 0, .take 1, .tick 1, .lock 0, .lock 1]

end Sample

end ChatServer.MessageTasks.SpamCheck
