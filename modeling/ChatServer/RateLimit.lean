import Mathlib.Data.List.GetD
import ChatServer.LogicThread
import ChatServer.Recipients
import ChatServer.Lib.TokenBucket

/-!
The rate limiter of HandleMessage. Each session has a token bucket, which is
filled by a token a second up to 60, and a message whose payload parses takes a
token. The first message that does not find one is answered by an error and the
connection is closed. A payload that does not parse is dropped before the bucket
is looked at, so the limit covers the messages that parse and no others.
-/
namespace ChatServer.RateLimit

open Lib.TokenBucket

/-- What the logic thread processes after the CONNECT event of a connection: the
MESSAGE events of this connection, and the events of others in between. -/
inductive Handled
  | message (env : Env) (payload : Bytes)
  | other (env : Env) (closed : Bool) (evt : NetworkEvent)

/-- The answer of the rate limiter. -/
def refusal (conn : ConnId) : List Output :=
  [.sendProto conn (.error ⟨"You are sending messages too quickly, upgrade to premium! Bye :)"⟩),
    .close conn]

def bucket (session : ChatSession) : Bucket ℚ := ⟨session.tokens, session.lastRefill⟩

theorem bucket_refill (session : ChatSession) (now : ℚ) :
    bucket (session.refill now) = (bucket session).refill 60 now := by
  unfold bucket Bucket.refill
  rw [min_def_lt]
  rfl

section HandleMessage

variable {app : ChatApp} {env : Env} {conn : ConnId} {s : ChatSession} {parse : Parser}
  {payload : Bytes}

/-- The switch leaves the bucket of the session alone. -/
theorem dispatch_bucket (h : app.userData conn = some s) (msg : ClientMessage) :
    ∃ s', (app.dispatch env conn s msg).1.userData conn = some s' ∧ bucket s' = bucket s := by
  cases msg with
  | login req =>
    rw [ChatApp.dispatch, ChatApp.handleLogin]
    dsimp only
    split
    · rename_i hfree
      exact ⟨s.login req.username hfree.2, ChatApp.setSession_userData_self, rfl⟩
    · exact ⟨s, h, rfl⟩
  | globalChat req => exact ⟨s, h, rfl⟩
  | privateChat req => exact ⟨s, h, rfl⟩
  | joinRoom req =>
    rw [ChatApp.dispatch, ChatApp.handleJoinRoom]
    split
    · rename_i hin
      dsimp only
      rw [ChatApp.enterRoom_userData]
      exact ⟨s.enter req.roomName hin, ChatApp.setSession_userData_self, rfl⟩
    · exact ⟨s, h, rfl⟩
  | roomChat req =>
    rw [ChatApp.dispatch, ChatApp.handleRoomChat]
    split
    · exact ⟨s, h, rfl⟩
    · split
      · exact ⟨s, h, rfl⟩
      · exact ⟨s, h, rfl⟩
  | payloadNotSet => exact ⟨s, h, rfl⟩

theorem not_close_sendMembers (names : List String) (msg : ServerMessage) :
    Output.close conn ∉ app.sendMembers names msg := by
  simp [ChatApp.sendMembers]

/-- No handler of a request closes a connection. -/
theorem not_close_dispatch (msg : ClientMessage) :
    Output.close conn ∉ (app.dispatch env conn s msg).2 := by
  cases msg with
  | login req =>
    rw [ChatApp.dispatch, ChatApp.handleLogin]
    dsimp only
    split <;> simp
  | globalChat req =>
    rw [ChatApp.dispatch, ChatApp.handleGlobalChat]
    split <;> simp
  | privateChat req =>
    rw [ChatApp.dispatch, ChatApp.handlePrivateChat]
    split
    · split <;> simp
    · simp
  | joinRoom req =>
    rw [ChatApp.dispatch, ChatApp.handleJoinRoom]
    split
    · dsimp only
      intro hclose
      rcases List.mem_append.mp hclose with hclose | hclose
      · rcases List.mem_append.mp hclose with hleave | henter
        · split at hleave
          · exact not_close_sendMembers _ _ hleave
          · exact List.not_mem_nil hleave
        · unfold ChatApp.enterRoom at henter
          split at henter
          · exact not_close_sendMembers _ _ henter
          · exact List.not_mem_nil henter
      · simp at hclose
    · simp
  | roomChat req =>
    rw [ChatApp.dispatch, ChatApp.handleRoomChat]
    split
    · simp
    · split
      · simp
      · exact not_close_sendMembers _ _
  | payloadNotSet => simp [ChatApp.dispatch]

/-- A message that parses and does not find a token. -/
theorem handleMessage_refused {msg : ClientMessage} (hs : app.userData conn = some s)
    (hparse : parse payload = some msg)
    (hlow : ((bucket s).refill 60 env.now).tokens < 1) :
    app.handleMessage parse env conn payload =
      (app.setSession conn (s.refill env.now), refusal conn) := by
  rw [← bucket_refill] at hlow
  unfold ChatApp.handleMessage
  rw [hs, hparse]
  exact if_pos hlow

/-- A message that parses and takes a token. -/
theorem handleMessage_charged {msg : ClientMessage} (hs : app.userData conn = some s)
    (hparse : parse payload = some msg)
    (hpaid : ¬ ((bucket s).refill 60 env.now).tokens < 1) :
    Output.close conn ∉ (app.handleMessage parse env conn payload).2 ∧
      ∃ s', (app.handleMessage parse env conn payload).1.userData conn = some s' ∧
        bucket s' = ((bucket s).refill 60 env.now).take := by
  rw [← bucket_refill] at hpaid
  have hcharged : app.handleMessage parse env conn payload =
      (app.setSession conn (s.refill env.now).charge).dispatch env conn
        (s.refill env.now).charge msg := by
    unfold ChatApp.handleMessage
    rw [hs, hparse]
    exact if_neg hpaid
  rw [hcharged, ← bucket_refill]
  exact ⟨not_close_dispatch msg, dispatch_bucket ChatApp.setSession_userData_self msg⟩

theorem handleMessage_unparsed (hparse : parse payload = none) :
    app.handleMessage parse env conn payload = (app, []) := by
  unfold ChatApp.handleMessage
  rw [hparse]
  split <;> rfl

/-- HandleMessage closes the connection only to refuse a message. -/
theorem close_iff_refused :
    Output.close conn ∈ (app.handleMessage parse env conn payload).2 ↔
      (app.handleMessage parse env conn payload).2 = refusal conn := by
  constructor
  · intro hclose
    cases hs : app.userData conn with
    | none => simp [ChatApp.handleMessage, hs] at hclose
    | some s =>
      cases hparse : parse payload with
      | none =>
        rw [handleMessage_unparsed hparse] at hclose
        exact absurd hclose List.not_mem_nil
      | some msg =>
        by_cases hlow : ((bucket s).refill 60 env.now).tokens < 1
        · rw [handleMessage_refused hs hparse hlow]
        · exact absurd hclose (handleMessage_charged hs hparse hlow).1
  · intro hrefused
    rw [hrefused]
    simp [refusal]

end HandleMessage

section Histories

variable (parse : Parser) (conn : ConnId)

def handle (app : ChatApp) : Handled → ChatApp × List Output
  | .message env payload => app.handleMessage parse env conn payload
  | .other env closed evt => app.processEvent parse env closed evt

def final (app : ChatApp) (hs : List Handled) : ChatApp :=
  hs.foldl (fun app h => (handle parse conn app h).1) app

/-- The state after each message, with the calls that HandleMessage made. -/
def replies (app : ChatApp) : List Handled → List (ChatApp × List Output)
  | [] => []
  | .message env payload :: rest =>
      handle parse conn app (.message env payload) ::
        replies (handle parse conn app (.message env payload)).1 rest
  | .other env closed evt :: rest =>
      replies (handle parse conn app (.other env closed evt)).1 rest

def messages (hs : List Handled) : List (Env × Bytes) :=
  hs.filterMap fun
    | .message env payload => some (env, payload)
    | .other .. => none

/-- When the messages were handled. -/
def times (hs : List Handled) : List ℚ := (messages hs).map (·.1.now)

/-- When the messages that take a token were handled. -/
def chargedTimes (hs : List Handled) : List ℚ :=
  ((messages hs).filter fun m => (parse m.2).isSome).map (·.1.now)

/-- The times by their indices. -/
def nth (ts : List ℚ) (k : ℕ) : ℚ := ts.getD k 0

/-- The messages come after the CONNECT event, in the order in which they are
handled, and the other events are those of other connections. -/
structure History (start : Env) (hs : List Handled) : Prop where
  ordered : (start.now :: times hs).Pairwise (· ≤ ·)
  others : ∀ env closed evt, .other env closed evt ∈ hs → evt.conn ≠ conn

/-- The message with the index is refused. -/
def RefusedAt (app : ChatApp) (hs : List Handled) (k : ℕ) : Prop :=
  ∃ reply, (replies parse conn app hs)[k]? = some reply ∧ reply.2 = refusal conn

variable {parse conn} {app : ChatApp} {start : Env} {hs hs' : List Handled} {k n : ℕ}

theorem messages_append : messages (hs ++ hs') = messages hs ++ messages hs' :=
  List.filterMap_append

theorem replies_append : replies parse conn app (hs ++ hs') =
    replies parse conn app hs ++ replies parse conn (final parse conn app hs) hs' := by
  induction hs generalizing app with
  | nil => rfl
  | cons h hs ih =>
    cases h with
    | message env payload => exact congrArg (_ :: ·) ih
    | other env closed evt => exact ih

theorem length_replies : (replies parse conn app hs).length = (messages hs).length := by
  induction hs generalizing app with
  | nil => rfl
  | cons h hs ih =>
    cases h with
    | message env payload => exact congrArg (· + 1) ih
    | other env closed evt => exact ih

theorem final_append : final parse conn app (hs ++ hs') =
    final parse conn (final parse conn app hs) hs' := List.foldl_append

theorem nth_append {ts ts' : List ℚ} (h : k < ts.length) : nth (ts ++ ts') k = nth ts k :=
  List.getD_append _ _ _ _ h

theorem nth_mem {ts : List ℚ} (h : k < ts.length) : nth ts k ∈ ts := by
  unfold nth
  rw [List.getD_eq_getElem _ _ h]
  exact List.getElem_mem h

theorem nth_length (ts : List ℚ) (t : ℚ) (ts' : List ℚ) : nth (ts ++ t :: ts') ts.length = t := by
  simp [nth]

theorem chargedTimes_append :
    chargedTimes parse (hs ++ hs') = chargedTimes parse hs ++ chargedTimes parse hs' := by
  simp [chargedTimes, messages_append]

theorem times_append : times (hs ++ hs') = times hs ++ times hs' := by
  simp [times, messages_append]

theorem chargedTimes_eq (h : ∀ m ∈ messages hs, (parse m.2).isSome) :
    chargedTimes parse hs = times hs := by
  rw [chargedTimes, List.filter_eq_self.mpr h, times]

/-- The message with an index, and what is handled before it. -/
theorem exists_message (hn : n < (messages hs).length) :
    ∃ before env payload rest, hs = before ++ .message env payload :: rest ∧
      (messages before).length = n := by
  induction hs generalizing n with
  | nil => exact absurd hn (Nat.not_lt_zero n)
  | cons h hs ih =>
    cases h with
    | message env payload =>
      cases n with
      | zero => exact ⟨[], env, payload, hs, rfl, rfl⟩
      | succ n =>
        obtain ⟨before, env', payload', rest, rfl, hlen⟩ := ih (Nat.lt_of_succ_lt_succ hn)
        exact ⟨.message env payload :: before, env', payload', rest, rfl, congrArg (· + 1) hlen⟩
    | other env closed evt =>
      obtain ⟨before, env', payload', rest, rfl, hlen⟩ := ih hn
      exact ⟨.other env closed evt :: before, env', payload', rest, rfl, hlen⟩

theorem History.of_append (h : History conn start (hs ++ hs')) : History conn start hs := by
  obtain ⟨hordered, hothers⟩ := h
  rw [times_append, ← List.cons_append] at hordered
  exact ⟨(List.pairwise_append.mp hordered).1, fun env closed evt hevt =>
    hothers env closed evt (List.mem_append_left _ hevt)⟩

theorem chargedTimes_sublist (hs : List Handled) : (chargedTimes parse hs).Sublist (times hs) :=
  List.filter_sublist.map _

theorem History.start_le (h : History conn start hs) {ts : List ℚ} (hts : ts ⊆ times hs)
    (hk : k < ts.length) : start.now ≤ nth ts k :=
  List.rel_of_pairwise_cons h.ordered (hts (nth_mem hk))

/-- While no message is refused, the session has the bucket that the messages
which parse have left. -/
theorem bucket_final (hhistory : History conn start hs)
    (hserved : ∀ reply ∈ replies parse conn (app.handleConnect start conn) hs,
      reply.2 ≠ refusal conn) :
    ∃ s, (final parse conn (app.handleConnect start conn) hs).userData conn = some s ∧
      bucket s = after 60 start.now (nth (chargedTimes parse hs))
        (chargedTimes parse hs).length := by
  induction hs using List.reverseRecOn with
  | nil => exact ⟨ChatSession.new start.now, ChatApp.setSession_userData_self, rfl⟩
  | append_singleton hs h ih =>
    obtain ⟨s, hold, hbucket⟩ := ih hhistory.of_append fun reply hreply =>
      hserved reply (by rw [replies_append]; exact List.mem_append_left _ hreply)
    rw [final_append, chargedTimes_append]
    set before := final parse conn (app.handleConnect start conn) hs with hbefore
    cases h with
    | other env closed evt =>
      have hne := hhistory.others env closed evt (by simp)
      refine ⟨s, ?_, ?_⟩
      · change (before.processEvent parse env closed evt).1.userData conn = some s
        rw [Recipients.processEvent_userData_of_ne hne.symm, hold]
      · simpa [chargedTimes, messages] using hbucket
    | message env payload =>
      change ∃ s, (before.handleMessage parse env conn payload).1.userData conn = some s ∧ _
      cases hparse : parse payload with
      | none =>
        rw [handleMessage_unparsed hparse]
        refine ⟨s, hold, ?_⟩
        simpa [chargedTimes, messages, hparse] using hbucket
      | some msg =>
        have hpaid : ¬ ((bucket s).refill 60 env.now).tokens < 1 := by
          intro hlow
          refine hserved (before.handleMessage parse env conn payload) ?_ ?_
          · rw [replies_append]
            exact List.mem_append_right _ List.mem_cons_self
          · rw [handleMessage_refused hold hparse hlow]
        obtain ⟨_, s', hsession, hcharged⟩ := handleMessage_charged hold hparse hpaid
        refine ⟨s', hsession, ?_⟩
        have hlast : chargedTimes parse [.message env payload] = [env.now] := by
          simp [chargedTimes, messages, hparse]
        rw [hlast, List.length_append, List.length_singleton, after, nth_length,
          after_congr fun k hk => nth_append hk, ← hbucket, hcharged]

section Refusals

variable {before rest : List Handled} {env : Env} {payload : Bytes}

theorem refusedAt_append (h : k < (messages before).length) :
    RefusedAt parse conn app (before ++ rest) k ↔ RefusedAt parse conn app before k := by
  unfold RefusedAt
  rw [replies_append, List.getElem?_append_left (by rwa [length_replies])]

theorem refusedAt_message :
    RefusedAt parse conn app (before ++ .message env payload :: rest) (messages before).length ↔
      ((final parse conn app before).handleMessage parse env conn payload).2 = refusal conn := by
  unfold RefusedAt
  rw [replies_append, List.getElem?_append_right (by rw [length_replies]), length_replies,
    Nat.sub_self]
  constructor
  · rintro ⟨_, heq, hrefused⟩
    cases heq
    exact hrefused
  · exact fun hrefused => ⟨_, rfl, hrefused⟩

theorem not_refused_of_forall
    (h : ∀ k < (messages before).length, ¬ RefusedAt parse conn app before k) :
    ∀ reply ∈ replies parse conn app before, reply.2 ≠ refusal conn := by
  intro reply hreply hrefused
  obtain ⟨k, hk⟩ := List.mem_iff_getElem?.mp hreply
  have hlt := (List.getElem?_eq_some_iff.mp hk).1
  rw [length_replies] at hlt
  exact h k hlt ⟨reply, hk, hrefused⟩

theorem chargedTimes_subset :
    chargedTimes parse before ++ [env.now] ⊆ times (before ++ .message env payload :: rest) := by
  rw [times_append]
  refine ((chargedTimes_sublist before).append ?_).subset
  exact List.singleton_sublist.mpr List.mem_cons_self

/-- The first message that is refused is the first one that parses and exceeds
the limit among those that parse. -/
theorem refused_next (hhistory : History conn start (before ++ .message env payload :: rest))
    (hserved : ∀ k < (messages before).length,
      ¬ RefusedAt parse conn (app.handleConnect start conn) before k) :
    ((final parse conn (app.handleConnect start conn) before).handleMessage
        parse env conn payload).2 = refusal conn ↔
      (parse payload).isSome ∧
        Exceeds 60 (nth (chargedTimes parse before ++ [env.now]))
          (chargedTimes parse before).length := by
  obtain ⟨s, hsession, hbucket⟩ :=
    bucket_final hhistory.of_append (not_refused_of_forall hserved)
  cases hparse : parse payload with
  | none => simp [handleMessage_unparsed hparse, refusal]
  | some msg =>
    have hstart : start.now ≤ nth (chargedTimes parse before ++ [env.now]) 0 :=
      hhistory.start_le chargedTimes_subset (by simp)
    have hlevel : ((bucket s).refill 60 env.now).tokens =
        level 60 start.now (nth (chargedTimes parse before ++ [env.now]))
          (chargedTimes parse before).length := by
      rw [level, nth_length, after_congr fun k hk => nth_append hk, ← hbucket]
    rw [← level_lt_one hstart, ← hlevel, Option.isSome_some, eq_self, true_and]
    constructor
    · intro hrefused
      by_contra hpaid
      have hclose := (handleMessage_charged hsession hparse hpaid).1
      exact hclose (close_iff_refused.mpr hrefused)
    · intro hlow
      rw [handleMessage_refused hsession hparse hlow]

/-- While no message was refused, the next one is refused if it parses and
exceeds the limit among those that parse. -/
theorem refusedAt_iff (hhistory : History conn start (before ++ .message env payload :: rest))
    (hserved : ∀ k < (messages before).length, ¬ RefusedAt parse conn
      (app.handleConnect start conn) (before ++ .message env payload :: rest) k) :
    RefusedAt parse conn (app.handleConnect start conn) (before ++ .message env payload :: rest)
        (messages before).length ↔
      (parse payload).isSome ∧ Exceeds 60 (nth (chargedTimes parse before ++ [env.now]))
        (chargedTimes parse before).length := by
  rw [refusedAt_message]
  refine refused_next hhistory ?_
  intro k hk
  rw [← refusedAt_append hk]
  exact hserved k hk

end Refusals

section FirstRefusal

/-- The least index with a property. -/
def FirstAt (P : ℕ → Prop) (j : ℕ) : Prop := P j ∧ ∀ k < j, ¬ P k

theorem exceeds_congr {t t' : ℕ → ℚ} {j : ℕ} (h : ∀ k ≤ j, t k = t' k) :
    Exceeds 60 t j ↔ Exceeds 60 t' j := by
  unfold Exceeds
  refine exists_congr fun i => and_congr_right fun hi => ?_
  rw [h j (le_refl j), h i hi]

variable {j : ℕ}

theorem refusedAt_iff_exceeds (hhistory : History conn start hs)
    (hparse : ∀ m ∈ messages hs, (parse m.2).isSome) (hj : j < (messages hs).length)
    (hserved : ∀ k < j, ¬ RefusedAt parse conn (app.handleConnect start conn) hs k) :
    RefusedAt parse conn (app.handleConnect start conn) hs j ↔ Exceeds 60 (nth (times hs)) j := by
  obtain ⟨before, env, payload, rest, rfl, rfl⟩ := exists_message hj
  have hbefore : ∀ m ∈ messages before, (parse m.2).isSome := by
    intro m hm
    exact hparse m (by rw [messages_append]; exact List.mem_append_left _ hm)
  have hpayload : (parse payload).isSome :=
    hparse (env, payload) (by
      rw [messages_append]
      exact List.mem_append_right _ List.mem_cons_self)
  have hlen : (times before).length = (messages before).length := List.length_map _
  rw [refusedAt_iff hhistory hserved, chargedTimes_eq hbefore, hlen]
  simp only [hpayload, true_and]
  refine exceeds_congr ?_
  intro k hk
  have htimes : times (before ++ .message env payload :: rest) =
      (times before ++ [env.now]) ++ times rest := by
    rw [times_append, List.append_assoc]
    rfl
  rw [htimes]
  refine (nth_append ?_).symm
  rw [List.length_append, hlen, List.length_singleton]
  omega

theorem firstAt_congr {P Q : ℕ → Prop} (h : ∀ n ≤ j, (∀ k < n, ¬ P k) → (P n ↔ Q n)) :
    FirstAt P j ↔ FirstAt Q j := by
  have hbefore : ∀ n ≤ j, (∀ k < n, ¬ P k) ↔ ∀ k < n, ¬ Q k := by
    intro n hn
    induction n with
    | zero => simp
    | succ n ih =>
      have hle := Nat.le_of_succ_le hn
      simp only [Nat.forall_lt_succ_right]
      refine (and_congr_right fun hP => not_congr (h n hle hP)).trans ?_
      rw [ih hle]
  unfold FirstAt
  rw [and_comm, and_comm (a := Q j), ← hbefore j (le_refl j)]
  exact and_congr_right fun hP => h j (le_refl j) hP

/-- The first message that is refused is the first one that ends a window with
more than 60 messages and one for each second, and until then the balance of the
session is between 0 and 60. -/
theorem rate_limit_exact (hhistory : History conn start hs)
    (hparse : ∀ m ∈ messages hs, (parse m.2).isSome) (hj : j < (messages hs).length) :
    (FirstAt (RefusedAt parse conn (app.handleConnect start conn) hs) j ↔
      FirstAt (Exceeds 60 (nth (times hs))) j) ∧
    ∀ before rest, hs = before ++ rest →
      (∀ k < (messages before).length,
        ¬ RefusedAt parse conn (app.handleConnect start conn) hs k) →
      ∃ session, (final parse conn (app.handleConnect start conn) before).userData conn =
        some session ∧ 0 ≤ session.tokens ∧ session.tokens ≤ 60 := by
  have hnext : ∀ n < (messages hs).length,
      (∀ k < n, ¬ RefusedAt parse conn (app.handleConnect start conn) hs k) →
        (RefusedAt parse conn (app.handleConnect start conn) hs n ↔
          Exceeds 60 (nth (times hs)) n) :=
    fun n hn => refusedAt_iff_exceeds hhistory hparse hn
  refine ⟨firstAt_congr fun n hn => hnext n (hn.trans_lt hj), ?_⟩
  rintro before rest rfl hserved
  have hbefore : ∀ m ∈ messages before, (parse m.2).isSome := by
    intro m hm
    exact hparse m (by rw [messages_append]; exact List.mem_append_left _ hm)
  have hlen : (times before).length = (messages before).length := List.length_map _
  have hkept : ∀ k < (messages before).length,
      ¬ RefusedAt parse conn (app.handleConnect start conn) before k := by
    intro k hk
    rw [← refusedAt_append hk]
    exact hserved k hk
  obtain ⟨s, hsession, hbucket⟩ :=
    bucket_final hhistory.of_append (not_refused_of_forall hkept)
  rw [chargedTimes_eq hbefore] at hbucket
  have htokens := congrArg Bucket.tokens hbucket
  refine ⟨s, hsession, ?_⟩
  change s.tokens = _ at htokens
  rw [htokens]
  refine after_tokens (by norm_num) ?_ ?_
  · rcases Nat.eq_zero_or_pos (times before).length with hzero | hpos
    · exact Or.inl hzero
    · exact Or.inr (hhistory.of_append.start_le (List.Subset.refl _) hpos)
  · intro k hk
    rw [hlen] at hk
    have hlt : k < (messages (before ++ rest)).length := by
      rw [messages_append, List.length_append]
      omega
    have hsame : Exceeds 60 (nth (times before)) k ↔
        Exceeds 60 (nth (times (before ++ rest))) k := by
      refine exceeds_congr ?_
      intro i hi
      rw [times_append, nth_append]
      omega
    rw [hsame, ← hnext k hlt fun i hi => hserved i (hi.trans hk)]
    exact hserved k hk

end FirstRefusal

section Flood

/-- As many messages at one time. -/
def flood (count : ℕ) (payload : Bytes) : List Handled :=
  List.replicate count (.message LogicThread.sampleEnv payload)

theorem times_flood (count : ℕ) (payload : Bytes) :
    times (flood count payload) = List.replicate count 0 := by
  induction count with
  | zero => rfl
  | succ count ih => exact congrArg (0 :: ·) ih

theorem messages_flood (count : ℕ) (payload : Bytes) :
    messages (flood count payload) = List.replicate count (LogicThread.sampleEnv, payload) := by
  induction count with
  | zero => rfl
  | succ count ih => exact congrArg (_ :: ·) ih

theorem history_flood (conn : ConnId) (count : ℕ) (payload : Bytes) :
    History conn LogicThread.sampleEnv (flood count payload) := by
  refine ⟨?_, by simp [flood]⟩
  rw [times_flood]
  change (List.replicate (count + 1) (0 : ℚ)).Pairwise (· ≤ ·)
  exact List.pairwise_replicate.mpr (Or.inr (le_refl 0))

theorem nth_flood (count : ℕ) (payload : Bytes) (k : ℕ) :
    nth (times (flood count payload)) k = 0 := by
  rw [times_flood, nth, List.getD_eq_getElem?_getD, List.getElem?_replicate]
  split <;> rfl

/-- Of 61 requests at one time the last one is refused. -/
theorem rate_limit_exact_flood :
    FirstAt (RefusedAt LogicThread.sampleParser 0
      (ChatApp.new.handleConnect LogicThread.sampleEnv 0) (flood 61 [0x22, 0])) 60 := by
  refine (rate_limit_exact (history_flood 0 61 [0x22, 0]) ?_ ?_).1.mpr ⟨?_, ?_⟩
  · rw [messages_flood]
    intro m hm
    rw [List.eq_of_mem_replicate hm]
    rfl
  · rw [messages_flood, List.length_replicate]
    decide
  · refine ⟨0, Nat.zero_le _, ?_⟩
    rw [nth_flood, nth_flood]
    norm_num
  · rintro k hk ⟨i, _, hmore⟩
    rw [nth_flood, nth_flood, sub_self, add_zero] at hmore
    have hle : (60 : ℚ) < (60 : ℕ) := hmore.trans_le (Nat.cast_le.mpr (by omega))
    norm_num at hle

end Flood

end Histories

end ChatServer.RateLimit
