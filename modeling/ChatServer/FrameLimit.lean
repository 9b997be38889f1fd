import ChatServer.RateLimit

/-!
Which MESSAGE events get past HandleMessage. Until the rate limiter closes the
connection every event does, also one whose payload does not parse, and such an
event takes no token. The limit of the bucket is therefore a limit on the events
only when all payloads parse.
-/
namespace ChatServer.FrameLimit

open Lib.TokenBucket RateLimit

/-- For each MESSAGE event, whether it was handled and the connection is still
open after it; the flag is the `closed` of the connection. -/
def passes (parse : Parser) (conn : ConnId) : ChatApp → Bool → List Handled → List Bool
  | _, _, [] => []
  | app, closed, .message env payload :: rest =>
      let (app, outputs) := app.processEvent parse env closed ⟨.message, conn, some payload⟩
      let closed := closed || decide (Output.close conn ∈ outputs)
      (!closed) :: passes parse conn app closed rest
  | app, closed, .other env other evt :: rest =>
      passes parse conn (app.processEvent parse env other evt).1 closed rest

/-- The events that passed between `a` and `a + T`, by their indices. -/
def passedIn (parse : Parser) (conn : ConnId) (app : ChatApp) (hs : List Handled) (a T : ℚ) :
    Finset ℕ :=
  (Finset.range (messages hs).length).filter fun k =>
    (passes parse conn app false hs)[k]? = some true ∧
      a ≤ nth (times hs) k ∧ nth (times hs) k ≤ a + T

def payloads (hs : List Handled) : List Bytes := (messages hs).map Prod.snd

variable {parse : Parser} {conn : ConnId} {app : ChatApp} {start : Env} {hs : List Handled}
  {k : ℕ} {a T : ℚ}

section Passes

theorem passes_closed : (passes parse conn app true hs)[k]? ≠ some true := by
  induction hs generalizing app k with
  | nil => simp [passes]
  | cons h hs ih =>
    cases h with
    | message env payload =>
      cases k with
      | zero => simp [passes]
      | succ k => exact ih
    | other env closed evt => exact ih

/-- An event passes when no message was refused so far. -/
theorem passes_iff : (passes parse conn app false hs)[k]? = some true ↔
    k < (messages hs).length ∧ ∀ j ≤ k, ¬ RefusedAt parse conn app hs j := by
  induction hs generalizing app k with
  | nil => simp [passes, messages]
  | cons h hs ih =>
    cases h with
    | other env closed evt => exact ih
    | message env payload =>
      set reply := app.handleMessage parse env conn payload with hreply
      have hcons : passes parse conn app false (.message env payload :: hs) =
          (!decide (Output.close conn ∈ reply.2)) ::
            passes parse conn reply.1 (decide (Output.close conn ∈ reply.2)) hs := rfl
      have hhead : RefusedAt parse conn app (.message env payload :: hs) 0 ↔
          reply.2 = refusal conn := by
        simp [RefusedAt, replies, handle, hreply]
      have htail : ∀ j, RefusedAt parse conn app (.message env payload :: hs) (j + 1) ↔
          RefusedAt parse conn reply.1 hs j := fun j => Iff.rfl
      rw [hcons]
      by_cases hrefused : reply.2 = refusal conn
      · have hclose := close_iff_refused.mpr hrefused
        have hnot : ¬ ∀ j ≤ k, ¬ RefusedAt parse conn app (.message env payload :: hs) j :=
          fun hall => hall 0 (Nat.zero_le k) (hhead.mpr hrefused)
        refine iff_of_false ?_ fun hall => hnot hall.2
        rw [decide_eq_true hclose]
        cases k with
        | zero => simp
        | succ k => exact passes_closed
      · have hopen : Output.close conn ∉ reply.2 := fun hclose =>
          hrefused (close_iff_refused.mp hclose)
        rw [decide_eq_false hopen]
        cases k with
        | zero => simpa [messages, hhead] using hrefused
        | succ k =>
          have hlen : (messages (.message env payload :: hs)).length = (messages hs).length + 1 :=
            rfl
          rw [List.getElem?_cons_succ, ih, hlen, Nat.succ_lt_succ_iff]
          refine and_congr_right fun _ => ?_
          constructor
          · intro hall j hj
            cases j with
            | zero => exact fun h => hrefused (hhead.mp h)
            | succ j => exact fun h => hall j (Nat.le_of_succ_le_succ hj) ((htail j).mp h)
          · intro hall j hj h
            exact hall (j + 1) (Nat.succ_le_succ hj) ((htail j).mpr h)

end Passes

section Parsed

/-- When all payloads parse, the events that pass are within the limit. -/
theorem card_of_parsed (hhistory : History conn start hs)
    (hparse : ∀ m ∈ messages hs, (parse m.2).isSome) (hT : 0 ≤ T) :
    ((passedIn parse conn (app.handleConnect start conn) hs a T).card : ℚ) ≤ 60 + T := by
  refine card_window_le (t := nth (times hs)) (a := a) (by norm_num) hT ?_ ?_
  · intro k hk
    exact (Finset.mem_filter.mp hk).2.2
  · intro j hj
    obtain ⟨hlt, hserved⟩ := passes_iff.mp (Finset.mem_filter.mp hj).2.1
    rw [← refusedAt_iff_exceeds hhistory hparse hlt fun k hk => hserved k (Nat.le_of_lt hk)]
    exact hserved j (le_refl j)

theorem card_of_few (hfew : (messages hs).length ≤ 60) (hT : 0 ≤ T) :
    ((passedIn parse conn app hs a T).card : ℚ) ≤ 60 + T := by
  have hle : (passedIn parse conn app hs a T).card ≤ 60 := by
    refine (Finset.card_filter_le _ _).trans ?_
    rwa [Finset.card_range]
  have hcast : ((passedIn parse conn app hs a T).card : ℚ) ≤ 60 := by exact_mod_cast hle
  linarith

end Parsed

section Burst

/-- The payloads arrive a minute apart, so that the bucket is full again, up to
an index from which on all of them arrive at once. -/
def arrival (start : Env) (quiet k : ℕ) : ℚ := start.now + (60 * min k quiet : ℕ)

def burst (start : Env) (quiet : ℕ) (ps : List Bytes) : List Handled :=
  (ps.mapIdx fun k payload => ({ start with now := arrival start quiet k }, payload)).map
    fun m => .message m.1 m.2

variable {quiet : ℕ} {ps : List Bytes}

theorem messages_burst : messages (burst start quiet ps) =
    ps.mapIdx fun k payload => ({ start with now := arrival start quiet k }, payload) := by
  unfold messages burst
  rw [List.filterMap_map]
  exact List.filterMap_some

theorem payloads_burst : payloads (burst start quiet ps) = ps := by
  refine List.ext_getElem? ?_
  intro k
  cases hk : ps[k]? <;> simp [payloads, messages_burst, hk]

theorem times_burst :
    times (burst start quiet ps) = (List.range ps.length).map (arrival start quiet) := by
  refine List.ext_getElem? ?_
  intro k
  by_cases hk : k < ps.length
  · simp [times, messages_burst, hk]
  · simp [times, messages_burst, hk]

theorem nth_burst (hk : k < ps.length) :
    nth (times (burst start quiet ps)) k = arrival start quiet k := by
  simp [nth, times_burst, hk]

theorem arrival_le {j : ℕ} (hjk : j ≤ k) : arrival start quiet j ≤ arrival start quiet k := by
  have hmin : 60 * min j quiet ≤ 60 * min k quiet := by omega
  have hcast : ((60 * min j quiet : ℕ) : ℚ) ≤ (60 * min k quiet : ℕ) := Nat.cast_le.mpr hmin
  unfold arrival
  linarith

theorem history_burst : History conn start (burst start quiet ps) := by
  refine ⟨?_, by simp [burst]⟩
  rw [times_burst, List.pairwise_cons]
  constructor
  · intro t ht
    obtain ⟨k, _, rfl⟩ := List.mem_map.mp ht
    unfold arrival
    have hpos : (0 : ℚ) ≤ (60 * min k quiet : ℕ) := Nat.cast_nonneg _
    linarith
  · exact List.pairwise_map.mpr (List.pairwise_lt_range.imp fun h => arrival_le (Nat.le_of_lt h))

section Unparsed

variable {before rest : List Handled} {env : Env} {payload bad : Bytes} {good later : List Bytes}

theorem payloads_split (heq : burst start quiet ps = before ++ .message env payload :: rest) :
    ps = payloads before ++ payload :: payloads rest := by
  have h := congrArg payloads heq
  rw [payloads_burst] at h
  rw [h]
  unfold payloads
  rw [messages_append]
  simp [messages]

theorem nth_split (heq : burst start quiet ps = before ++ .message env payload :: rest)
    (hk : k ≤ (times before).length) :
    nth (times before ++ [env.now]) k = arrival start quiet k := by
  have htimes : times (burst start quiet ps) = (times before ++ [env.now]) ++ times rest := by
    rw [heq, times_append, List.append_assoc]
    rfl
  have hlt : k < (times before ++ [env.now]).length := by
    rw [List.length_append, List.length_singleton]
    omega
  have hlen : k < ps.length := by
    have h := congrArg List.length htimes
    rw [times_burst, List.length_map, List.length_range, List.length_append] at h
    omega
  rw [← nth_burst hlen, htimes, nth_append hlt]

/-- Before the first payload that does not parse, the bucket is full or has a
token left. -/
theorem not_exceeds_arrival {i g : ℕ} (hi : i ≤ k) (hk : k < g) :
    ¬ 60 + (arrival start (g - 60) k - arrival start (g - 60) i) < (k - i + 1 : ℕ) := by
  have hnat : k - i + 1 + 60 * min i (g - 60) ≤ 60 + 60 * min k (g - 60) := by omega
  have hcast : ((k - i + 1 + 60 * min i (g - 60) : ℕ) : ℚ) ≤
      (60 + 60 * min k (g - 60) : ℕ) := Nat.cast_le.mpr hnat
  rw [Nat.cast_add, Nat.cast_add] at hcast
  unfold arrival
  rw [not_lt]
  push_cast at hcast ⊢
  linarith

/-- A payload that does not parse takes no token. -/
theorem length_chargedTimes_lt (hbad : parse bad = none) (hmem : bad ∈ payloads before) :
    (chargedTimes parse before).length < (messages before).length := by
  obtain ⟨m, hm, rfl⟩ := List.mem_map.mp hmem
  rw [chargedTimes, List.length_map]
  exact List.length_filter_lt_length_iff_exists.mpr ⟨m, hm, by simp [hbad]⟩

/-- When all payloads arrive at once, up to 60 of them find a token. -/
theorem not_exceeds_moment {ts : List ℚ} {t : ℚ} {n i : ℕ} (hmoment : ∀ s ∈ ts, s = t)
    (hn : n < ts.length) (hi : i ≤ n) (hfew : n < 60) :
    ¬ 60 + (nth ts n - nth ts i) < (n - i + 1 : ℕ) := by
  rw [hmoment _ (nth_mem hn), hmoment _ (nth_mem (hi.trans_lt hn)), sub_self, add_zero, not_lt]
  have hle : n - i + 1 ≤ 60 := by omega
  exact_mod_cast hle

/-- None of the events is refused up to the burst of 61 events. -/
theorem not_refused_burst (hps : ps = good ++ bad :: later)
    (hgood : ∀ p ∈ good, (parse p).isSome) (hbad : parse bad = none)
    (hlen : k < ps.length) (hk : k ≤ good.length - 60 + 60) :
    ¬ RefusedAt parse conn (app.handleConnect start conn)
      (burst start (good.length - 60) ps) k := by
  induction k using Nat.strong_induction_on with
  | _ k ih =>
    have hmessages : k < (messages (burst start (good.length - 60) ps)).length := by
      rwa [messages_burst, List.length_mapIdx]
    obtain ⟨before, env, payload, rest, heq, hbefore⟩ := exists_message hmessages
    have hserved : ∀ j < (messages before).length, ¬ RefusedAt parse conn
        (app.handleConnect start conn) (burst start (good.length - 60) ps) j := by
      intro j hj
      exact ih j (by omega) (by omega) (by omega)
    have hpayloads := payloads_split heq
    have htimes : (times before).length = k := by rw [← hbefore, times, List.length_map]
    have hpaid : (payloads before).length = k := by rw [← hbefore, payloads, List.length_map]
    have hhistory : History conn start (burst start (good.length - 60) ps) := history_burst
    have hnth : ∀ i ≤ k, nth (times before ++ [env.now]) i =
        arrival start (good.length - 60) i := fun i hi => nth_split heq (by omega)
    rw [heq] at hserved hhistory ⊢
    rw [← hbefore, refusedAt_iff hhistory hserved]
    rintro ⟨hparsed, i, hi, hmore⟩
    have hprefix : payloads before <+: good ++ bad :: later := by
      rw [← hps, hpayloads]
      exact List.prefix_append _ _
    rcases Nat.lt_trichotomy k good.length with hlt | heqg | hgt
    · have hparse : ∀ m ∈ messages before, (parse m.2).isSome := by
        intro m hm
        have hsub : payloads before <+: good :=
          List.prefix_of_prefix_length_le hprefix (List.prefix_append _ _) (by omega)
        exact hgood m.2 (hsub.subset (List.mem_map_of_mem hm))
      rw [chargedTimes_eq hparse, htimes] at hi hmore
      rw [hnth k (le_refl k), hnth i hi] at hmore
      exact not_exceeds_arrival hi hlt hmore
    · have hsame : payloads before = good ∧ payload :: payloads rest = bad :: later := by
        refine List.append_inj ?_ (by omega)
        rw [← hpayloads, hps]
      cases hsame.2
      rw [hbad] at hparsed
      cases hparsed
    · -- All of them come at once, and one of the payloads did not take a token.
      have hquiet : good.length - 60 = 0 := by omega
      have hmoment : ∀ t ∈ times (before ++ .message env payload :: rest), t = start.now := by
        rw [← heq, times_burst, hquiet]
        intro t ht
        obtain ⟨j, _, rfl⟩ := List.mem_map.mp ht
        simp [arrival]
      have hsub : good ++ [bad] <+: payloads before := by
        refine List.prefix_of_prefix_length_le ?_ hprefix (by simp; omega)
        exact ⟨later, by simp⟩
      have hfew : (chargedTimes parse before).length < (messages before).length :=
        length_chargedTimes_lt hbad (hsub.subset (by simp))
      refine not_exceeds_moment (t := start.now) ?_ (by simp) hi (by omega) hmore
      exact fun t ht => hmoment t (chargedTimes_subset ht)

/-- When 61 payloads arrive at once and one of them does not parse, all pass. -/
theorem card_burst (conn : ConnId) (app : ChatApp) (start : Env)
    (hps : ps = good ++ bad :: later) (hgood : ∀ p ∈ good, (parse p).isSome)
    (hbad : parse bad = none) (hmany : 60 < ps.length) :
    ∃ a, 60 < (passedIn parse conn (app.handleConnect start conn)
      (burst start (good.length - 60) ps) a 0).card := by
  refine ⟨arrival start (good.length - 60) (good.length - 60), ?_⟩
  have hlen : good.length < ps.length := by
    rw [hps, List.length_append, List.length_cons]
    omega
  have hsubset : Finset.Icc (good.length - 60) (good.length - 60 + 60) ⊆
      passedIn parse conn (app.handleConnect start conn) (burst start (good.length - 60) ps)
        (arrival start (good.length - 60) (good.length - 60)) 0 := by
    intro k hk
    obtain ⟨hfrom, hto⟩ := Finset.mem_Icc.mp hk
    have hlt : k < ps.length := by omega
    have hmessages : k < (messages (burst start (good.length - 60) ps)).length := by
      rwa [messages_burst, List.length_mapIdx]
    refine Finset.mem_filter.mpr ⟨Finset.mem_range.mpr hmessages, ?_, ?_⟩
    · refine passes_iff.mpr ⟨hmessages, ?_⟩
      intro j hj
      exact not_refused_burst hps hgood hbad (by omega) (by omega)
    · rw [nth_burst hlt, add_zero]
      unfold arrival
      rw [min_eq_right hfrom, min_self]
      exact ⟨le_refl _, le_refl _⟩
  have hcard := Finset.card_le_card hsubset
  rw [Nat.card_Icc] at hcard
  omega

end Unparsed

end Burst

/-- Whatever the times of their arrival, the events that pass are within the limit
exactly when all payloads parse or there are no more than 60. -/
theorem frame_limit_iff (parse : Parser) (app : ChatApp) (start : Env) (conn : ConnId)
    (ps : List Bytes) :
    (∀ hs, History conn start hs → payloads hs = ps → ∀ a T, 0 ≤ T →
      ((passedIn parse conn (app.handleConnect start conn) hs a T).card : ℚ) ≤ 60 + T) ↔
    (∀ p ∈ ps, (parse p).isSome) ∨ ps.length ≤ 60 := by
  constructor
  · intro hlimit
    by_contra hnot
    obtain ⟨hunparsed, hmany⟩ := not_or.mp hnot
    have hfind : (ps.find? fun p => (parse p).isNone).isSome := by
      rw [List.find?_isSome]
      by_contra hall
      refine hunparsed fun p hp => ?_
      by_contra hp'
      exact hall ⟨p, hp, by simpa using hp'⟩
    obtain ⟨bad, hbad⟩ := Option.isSome_iff_exists.mp hfind
    obtain ⟨hbad, good, later, hps, hgood⟩ := List.find?_eq_some_iff_append.mp hbad
    have hgood : ∀ p ∈ good, (parse p).isSome := fun p hp => by simpa using hgood p hp
    obtain ⟨a, hmore⟩ := card_burst conn app start hps hgood
      (Option.isNone_iff_eq_none.mp hbad) (not_le.mp hmany)
    have hle := hlimit (burst start (good.length - 60) ps) history_burst payloads_burst a 0
      (le_refl 0)
    rw [add_zero] at hle
    exact absurd hmore (not_lt.mpr (by exact_mod_cast hle))
  · rintro hcond hs hhistory rfl a T hT
    rcases hcond with hparse | hfew
    · exact card_of_parsed hhistory (fun m hm => hparse m.2 (List.mem_map_of_mem hm)) hT
    · refine card_of_few ?_ hT
      simpa [payloads] using hfew

/-- Of 61 payloads that do not parse all pass at once. -/
theorem unparsed_flood_passes :
    ∃ hs, History 0 LogicThread.sampleEnv hs ∧ payloads hs = List.replicate 61 [0xFF] ∧
      ¬ ((passedIn LogicThread.sampleParser 0
        (ChatApp.new.handleConnect LogicThread.sampleEnv 0) hs 0 0).card : ℚ) ≤ 60 + 0 := by
  refine ⟨flood 61 [0xFF], history_flood 0 61 [0xFF], ?_, ?_⟩
  · rw [payloads, messages_flood]
    rfl
  · have hcard : (passedIn LogicThread.sampleParser 0
        (ChatApp.new.handleConnect LogicThread.sampleEnv 0) (flood 61 [0xFF]) 0 0).card = 61 := by
      decide +kernel
    rw [hcard]
    norm_num

end ChatServer.FrameLimit
