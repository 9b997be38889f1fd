import Mathlib.Data.Nat.Find
import ChatServer.ReceivePath

/-!
Two readings of one stream. A rejected header throws away whatever the input
buffer holds, so what the decoder sees next depends on where the readv was
cut. Here the readings of a stream are collected in a relation on the bytes
alone, and the streams on which all readings agree are characterised.
-/
namespace ChatServer.Segmentation

open PacketCodec ReceivePath Lib.StreamDecoder

/-- A readv that reports neither the end of the stream nor an error. -/
def NeverEnds (answer : ReadvAnswer) : Prop :=
  ∀ offered, answer offered ≠ .eof ∧ answer offered ≠ .error

/-- The calls read the stream `S`, to its end or until the connection is closed. -/
def Splits (fd now : ℕ) (S : Bytes) (calls : List (List ReadvAnswer)) : Prop :=
  (∀ answers ∈ calls, ∀ answer ∈ answers, NeverEnds answer) ∧
  ((handleReads (Connection.new fd now) calls).2.received = S ∨
    (handleReads (Connection.new fd now) calls).2.closed = true ∧
      (handleReads (Connection.new fd now) calls).2.received <+: S)

/-- What the calls push, and whether they close the connection. -/
def outcome (fd now : ℕ) (calls : List (List ReadvAnswer)) : List Bytes × Bool :=
  ((handleReads (Connection.new fd now) calls).1,
    (handleReads (Connection.new fd now) calls).2.closed)

/-- The decoder rejects the header at the front. -/
def Rejected (t : Bytes) : Prop := 4 ≤ t.length ∧ maxPayload < declared t

/-- The front is a whole packet, or fills the input buffer without being one. -/
def Acts (t : Bytes) : Prop :=
  4 ≤ t.length ∧ declared t ≤ maxPayload ∧ min (4 + declared t) inBufCapacity ≤ t.length

instance (t : Bytes) : Decidable (Rejected t) := inferInstanceAs (Decidable (_ ∧ _))

instance (t : Bytes) : Decidable (Acts t) := inferInstanceAs (Decidable (_ ∧ _ ∧ _))

/-- If a rejected header follows whole packets, then no bytes behind it act. -/
def QuietAfterReject (S : Bytes) : Prop :=
  ∀ ms rest, S = frames ms ++ rest → (∀ m ∈ ms, m.length ≤ maxBuffered) → Rejected rest →
    ∀ q, 4 ≤ q → ¬ Acts (rest.drop q)

/-- From the buffered bytes `b`, some way of reading the stream `s` pushes
`messages`; the flag is whether it ends with a full buffer. -/
inductive Reads : Bytes → Bytes → List Bytes → Bool → Prop
  | full {b s : Bytes} (hb : b.length = inBufCapacity) : Reads b s [] true
  | done {b : Bytes} (hb : b.length < inBufCapacity) : Reads b [] [] false
  | readv {b s : Bytes} {messages : List Bytes} {closed : Bool} (x : Bytes) (hx : 0 < x.length)
      (hfit : b.length + x.length ≤ inBufCapacity)
      (h : Reads (byteDecoder.drain (b ++ x)).2 s messages closed) :
      Reads b (x ++ s) ((byteDecoder.drain (b ++ x)).1 ++ messages) closed

section Decoding

theorem Rejected.decodeBytes {t : Bytes} (h : Rejected t) : decodeBytes t = (none, []) := by
  simp only [PacketCodec.decodeBytes, Nat.not_lt.mpr h.1, h.2, if_true, if_false]

theorem Rejected.drain {t : Bytes} (h : Rejected t) : byteDecoder.drain t = ([], []) :=
  byteDecoder.drain_of_none h.decodeBytes

/-- The decoder waits when the header or the payload is incomplete. -/
theorem decodeBytes_waits_iff {b : Bytes} :
    decodeBytes b = (none, b) ↔
      b.length < 4 ∨ declared b ≤ maxPayload ∧ b.length < 4 + declared b := by
  by_cases hfour : b.length < 4
  · simp only [decodeBytes, hfour, if_true, true_or]
  by_cases hlimit : maxPayload < declared b
  · have hne : [] ≠ b := by
      intro heq
      subst heq
      exact hfour (by decide)
    simp only [decodeBytes, hfour, hlimit, if_true, if_false, Prod.mk.injEq, true_and, false_or,
      hne, false_iff]
    omega
  by_cases hshort : b.length < 4 + declared b
  · simp only [decodeBytes, hfour, hlimit, hshort, if_true, if_false, and_true, false_or, true_iff]
    omega
  · simp [decodeBytes, hfour, hlimit, hshort]

/-- An empty-handed call waits or throws the buffer away. -/
theorem decodeBytes_none {t u : Bytes} (h : decodeBytes t = (none, u)) :
    u = t ∨ u = [] ∧ Rejected t := by
  unfold decodeBytes at h
  split at h
  · left
    exact (congrArg Prod.snd h).symm
  · split at h
    · rename_i hfour hlimit
      right
      exact ⟨(congrArg Prod.snd h).symm, Nat.le_of_not_lt hfour, hlimit⟩
    · split at h
      · left
        exact (congrArg Prod.snd h).symm
      · cases h

theorem declared_frame {m : Bytes} (hm : m.length ≤ maxBuffered) (r : Bytes) :
    declared (frame m ++ r) = m.length :=
  declared_frame_append (hm.trans (by decide)) r

theorem Rejected.append {t : Bytes} (h : Rejected t) (s : Bytes) : Rejected (t ++ s) := by
  refine ⟨?_, ?_⟩
  · rw [List.length_append]
    exact h.1.trans (Nat.le_add_right _ _)
  · rw [declared_append h.1]
    exact h.2

/-- A packet at the front shows in every header that can be read there. -/
theorem declared_of_frames {b s m rest : Bytes} {ms : List Bytes} (hfour : 4 ≤ b.length)
    (hm : m.length ≤ maxBuffered) (h : b ++ s = frames (m :: ms) ++ rest) :
    declared b = m.length := by
  have hdeclared := declared_append hfour s
  rw [h, frames_cons, List.append_assoc, declared_frame hm] at hdeclared
  exact hdeclared.symm

/-- No packet that fits the buffer stands at the front. -/
def Stuck (t : Bytes) : Prop := ∀ m r, t = frame m ++ r → ¬ m.length ≤ maxBuffered

/-- Every stream is whole packets and a rest with none at its front. -/
theorem exists_stuck (S : Bytes) :
    ∃ ms rest, S = frames ms ++ rest ∧ (∀ m ∈ ms, m.length ≤ maxBuffered) ∧ Stuck rest := by
  induction hn : S.length using Nat.strongRecOn generalizing S with
  | ind n ih =>
    by_cases hstuck : Stuck S
    · exact ⟨[], S, rfl, by simp, hstuck⟩
    · obtain ⟨m, r, rfl, hm⟩ : ∃ m r, S = frame m ++ r ∧ m.length ≤ maxBuffered := by
        simpa only [Stuck, not_forall, not_not, exists_prop] using hstuck
      have hlt : r.length < n := by
        rw [← hn, List.length_append, frame_length]
        omega
      obtain ⟨ms, rest, rfl, hms, hrest⟩ := ih _ hlt r rfl
      refine ⟨m :: ms, rest, by simp, ?_, hrest⟩
      intro p hp
      rcases List.mem_cons.mp hp with rfl | hp
      · exact hm
      · exact hms p hp

/-- Packets read from the front of the stream are its first packets. -/
theorem frames_split {as ms : List Bytes} {l rest : Bytes}
    (has : ∀ a ∈ as, a.length ≤ maxBuffered) (hms : ∀ m ∈ ms, m.length ≤ maxBuffered)
    (hstuck : Stuck rest) (h : frames as ++ l = frames ms ++ rest) :
    ∃ ms', ms = as ++ ms' ∧ l = frames ms' ++ rest := by
  induction as generalizing ms with
  | nil => exact ⟨ms, rfl, h⟩
  | cons a as ih =>
    have ha : a.length ≤ maxBuffered := has a (List.mem_cons_self ..)
    rw [frames_cons, List.append_assoc] at h
    cases ms with
    | nil => exact absurd ha (hstuck a _ h.symm)
    | cons m ms =>
      have hm : m.length ≤ maxBuffered := hms m (List.mem_cons_self ..)
      have hdecode := decodeBytes_frame_append (ha.trans (by decide)) (frames as ++ l)
      rw [h, frames_cons, List.append_assoc,
        decodeBytes_frame_append (hm.trans (by decide))] at hdecode
      simp only [Prod.mk.injEq, Option.some.injEq] at hdecode
      obtain ⟨rfl, hrest⟩ := hdecode
      obtain ⟨ms', rfl, hl⟩ := ih (fun p hp => has p (List.mem_cons_of_mem _ hp))
        (fun p hp => hms p (List.mem_cons_of_mem _ hp)) hrest.symm
      exact ⟨ms', rfl, hl⟩

/-- What a drain of at most a buffer returns: packets that fit it, and then
either the waiting rest or, for a rejected header, nothing. -/
theorem drain_split {t : Bytes} (ht : t.length ≤ inBufCapacity) :
    ∃ as last, t = frames as ++ last ∧ (∀ a ∈ as, a.length ≤ maxBuffered) ∧
      (byteDecoder.drain t).1 = as ∧
      ((byteDecoder.drain t).2 = last ∧ decodeBytes last = (none, last) ∨
        (byteDecoder.drain t).2 = [] ∧ Rejected last) := by
  obtain ⟨as, last, hrun⟩ := byteDecoder.exists_decodes t
  obtain ⟨hsplit, _⟩ := decodes_frames hrun
  have hdrain := hrun.drain_eq
  have hnone : decodeBytes last = (none, (decodeBytes last).2) :=
    Prod.ext hrun.last_none rfl
  refine ⟨as, last, hsplit, frames_fit hsplit ht, congrArg Prod.fst hdrain, ?_⟩
  have hleft : (byteDecoder.drain t).2 = (decodeBytes last).2 := congrArg Prod.snd hdrain
  rcases decodeBytes_none hnone with hkeep | ⟨hdrop, hrejected⟩
  · rw [hkeep] at hnone
    exact Or.inl ⟨hleft.trans hkeep, hnone⟩
  · exact Or.inr ⟨hleft.trans hdrop, hrejected⟩

end Decoding

section Readings

/-- Packets that fit can be read one at a time. -/
theorem Reads.packets {ms : List Bytes} (hms : ∀ m ∈ ms, m.length ≤ maxBuffered) {s : Bytes}
    {messages : List Bytes} {closed : Bool} (h : Reads [] s messages closed) :
    Reads [] (frames ms ++ s) (ms ++ messages) closed := by
  induction ms with
  | nil => exact h
  | cons m ms ih =>
    have hm : m.length ≤ maxBuffered := hms m (List.mem_cons_self ..)
    have hdecode : byteDecoder.decode (frame m) = (some m, []) := by
      have hfront := decodeBytes_frame_append (hm.trans (by decide)) []
      rw [List.append_nil] at hfront
      exact hfront
    have hdrain : byteDecoder.drain (frame m) = ([m], []) := by
      have hnil : byteDecoder.drain [] = ([], []) := byteDecoder.drain_of_none rfl
      rw [byteDecoder.drain_of_some hdecode, hnil]
    have hrest := ih fun p hp => hms p (List.mem_cons_of_mem _ hp)
    have hread : Reads [] (frame m ++ (frames ms ++ s))
        ((byteDecoder.drain ([] ++ frame m)).1 ++ (ms ++ messages)) closed := by
      refine .readv (frame m) ?_ ?_ ?_
      · rw [frame_length]
        omega
      · simp only [List.length_nil, frame_length, maxBuffered, inBufCapacity] at *
        omega
      · rw [List.nil_append, hdrain]
        exact hrest
    rw [List.nil_append, hdrain] at hread
    rw [frames_cons, List.append_assoc]
    exact hread

/-- A rejected header can be thrown away together with any bytes behind it
that fit the buffer. -/
theorem Reads.resync {t : Bytes} (ht : Rejected t) {k : ℕ} (hk : 4 ≤ k) (hfit : k ≤ inBufCapacity)
    (hlen : k ≤ t.length) {messages : List Bytes} {closed : Bool}
    (h : Reads [] (t.drop k) messages closed) : Reads [] t messages closed := by
  have htake : (t.take k).length = k := List.length_take_of_le hlen
  have hrejected : Rejected (t.take k) := by
    refine ⟨by omega, ?_⟩
    rw [declared, List.take_take, Nat.min_eq_left hk]
    exact ht.2
  have hdrain := hrejected.drain
  have hread : Reads [] (t.take k ++ t.drop k)
      ((byteDecoder.drain ([] ++ t.take k)).1 ++ messages) closed := by
    refine .readv (t.take k) (by omega) ?_ ?_
    · rw [List.length_nil, htake, Nat.zero_add]
      exact hfit
    · rw [List.nil_append, hdrain]
      exact h
  rw [List.nil_append, hdrain, List.take_append_drop] at hread
  exact hread

/-- Every stream can be read to its end, byte by byte. -/
theorem exists_reads (s b : Bytes) (hb : b.length ≤ inBufCapacity) :
    ∃ messages closed, Reads b s messages closed := by
  induction s generalizing b with
  | nil =>
    rcases Nat.lt_or_eq_of_le hb with hlt | heq
    · exact ⟨[], false, .done hlt⟩
    · exact ⟨[], true, .full heq⟩
  | cons x s ih =>
    rcases Nat.lt_or_eq_of_le hb with hlt | heq
    · have hfit : (b ++ [x]).length ≤ inBufCapacity := by
        simp only [List.length_append, List.length_singleton]
        omega
      obtain ⟨as, last, hsplit, _, _, hleft⟩ := drain_split hfit
      have hlast : (byteDecoder.drain (b ++ [x])).2.length ≤ inBufCapacity := by
        rw [hsplit, List.length_append] at hfit
        rcases hleft with ⟨hkeep, _⟩ | ⟨hdrop, _⟩
        · rw [hkeep]
          omega
        · rw [hdrop, List.length_nil]
          omega
      obtain ⟨messages, closed, hread⟩ := ih _ hlast
      rw [List.length_append] at hfit
      exact ⟨_, _, .readv [x] Nat.one_pos hfit hread⟩
    · exact ⟨[], true, .full heq⟩

/-- A full buffer that waits holds the start of a packet too long for it. -/
theorem acts_of_full {b s rest : Bytes} {ms : List Bytes} (hfull : b.length = inBufCapacity)
    (hb : decodeBytes b = (none, b)) (hsplit : b ++ s = frames ms ++ rest)
    (hms : ∀ m ∈ ms, m.length ≤ maxBuffered) : ms = [] ∧ ¬ Rejected rest ∧ Acts rest := by
  have hlong : b.length = 8192 := hfull
  rcases decodeBytes_waits_iff.mp hb with hfour | ⟨hlimit, hshort⟩
  · omega
  · have hfour : 4 ≤ b.length := by omega
    cases ms with
    | nil =>
      have hrest : rest = b ++ s := hsplit.symm
      have hdeclared : declared rest = declared b := by rw [hrest, declared_append hfour]
      have hlen : b.length ≤ rest.length := by
        rw [hrest, List.length_append]
        omega
      have hacts : Acts rest := by
        refine ⟨by omega, by omega, ?_⟩
        simp only [inBufCapacity] at *
        omega
      refine ⟨rfl, ?_, hacts⟩
      intro hrejected
      have hover := hrejected.2
      omega
    | cons m ms =>
      have hm : m.length ≤ maxBuffered := hms m (List.mem_cons_self ..)
      have hdeclared := declared_of_frames hfour hm hsplit
      simp only [maxBuffered, inBufCapacity] at *
      omega

/-- A buffer with room that waits holds an incomplete packet. -/
theorem quiet_of_waits {b rest : Bytes} {ms : List Bytes} (hroom : b.length < inBufCapacity)
    (hb : decodeBytes b = (none, b)) (hsplit : b = frames ms ++ rest)
    (hms : ∀ m ∈ ms, m.length ≤ maxBuffered) : ms = [] ∧ ¬ Rejected rest ∧ ¬ Acts rest := by
  cases ms with
  | nil =>
    have hrest : rest = b := hsplit.symm
    rw [hrest]
    have hwaits := decodeBytes_waits_iff.mp hb
    refine ⟨rfl, ?_, ?_⟩
    · intro ⟨hfour, hlimit⟩
      omega
    · intro ⟨hfour, hlimit, hmin⟩
      omega
  | cons m ms =>
    have hm : m.length ≤ maxBuffered := hms m (List.mem_cons_self ..)
    rw [frames_cons, List.append_assoc] at hsplit
    rw [hsplit, decodeBytes_frame_append (hm.trans (by decide))] at hb
    cases hb

/-- The first packets of a stream are pushed in every reading. What follows
them decides the rest: either no header there is rejected, and then only one
ending is possible, or the buffer is thrown away and reading starts afresh at
most a buffer further on. -/
theorem Reads.cases_stuck {b s : Bytes} {messages : List Bytes} {closed : Bool}
    (h : Reads b s messages closed) (hb : decodeBytes b = (none, b)) {ms : List Bytes}
    {rest : Bytes} (hsplit : b ++ s = frames ms ++ rest)
    (hms : ∀ m ∈ ms, m.length ≤ maxBuffered) (hstuck : Stuck rest) :
    ¬ Rejected rest ∧ messages = ms ∧ closed = decide (Acts rest) ∨
    Rejected rest ∧ ∃ k messages', 4 ≤ k ∧ k ≤ rest.length ∧
      Reads [] (rest.drop k) messages' closed ∧ messages = ms ++ messages' := by
  induction h generalizing ms with
  | @full b s hfull =>
    obtain ⟨rfl, hnot, hacts⟩ := acts_of_full hfull hb hsplit hms
    exact Or.inl ⟨hnot, rfl, (decide_eq_true hacts).symm⟩
  | @done b hroom =>
    rw [List.append_nil] at hsplit
    obtain ⟨rfl, hnot, hquiet⟩ := quiet_of_waits hroom hb hsplit hms
    exact Or.inl ⟨hnot, rfl, (decide_eq_false hquiet).symm⟩
  | @readv b s messages closed x hx hfit hrest ih =>
    rw [← List.length_append] at hfit
    obtain ⟨as, last, hlast, has, hpushed, hleft⟩ := drain_split hfit
    rw [← List.append_assoc, hlast, List.append_assoc] at hsplit
    obtain ⟨ms', rfl, hms'⟩ := frames_split has hms hstuck hsplit
    have hfits : ∀ m ∈ ms', m.length ≤ maxBuffered :=
      fun m hm => hms m (List.mem_append_right _ hm)
    rw [hpushed]
    rcases hleft with ⟨hkeep, hwaits⟩ | ⟨hdrop, hrejected⟩
    · rw [hkeep] at hrest ih
      rcases ih hwaits hms' hfits with ⟨hnot, rfl, hclosed⟩ | ⟨hyes, k, messages', hk, hle, hr, rfl⟩
      · exact Or.inl ⟨hnot, rfl, hclosed⟩
      · exact Or.inr ⟨hyes, k, messages', hk, hle, hr, (List.append_assoc ..).symm⟩
    · rw [hdrop] at hrest
      -- the packets read so far are all there are before the rejected header
      have hnil : ms' = [] := by
        cases ms' with
        | nil => rfl
        | cons m ms' =>
          have hdeclared :=
            declared_of_frames hrejected.1 (hfits m (List.mem_cons_self ..)) hms'
          have hm := hfits m (List.mem_cons_self ..)
          have hlimit := hrejected.2
          simp only [maxBuffered, inBufCapacity, maxPayload] at *
          omega
      subst hnil
      rw [frames_nil, List.nil_append] at hms'
      subst hms'
      refine Or.inr ⟨hrejected.append s, last.length, messages, hrejected.1, ?_, ?_, ?_⟩
      · rw [List.length_append]
        omega
      · rw [List.drop_left]
        exact hrest
      · rw [List.append_nil]

/-- A packet that fits the buffer acts wherever it stands. -/
theorem acts_frame {m : Bytes} (hm : m.length ≤ maxBuffered) (r : Bytes) :
    Acts (frame m ++ r) := by
  have hlen : (frame m ++ r).length = 4 + m.length + r.length := by simp
  refine ⟨by omega, ?_, ?_⟩
  · rw [declared_frame hm]
    exact hm.trans (by decide)
  · rw [declared_frame hm]
    omega

theorem Reads.of_acts {t : Bytes} {messages : List Bytes} {closed : Bool}
    (h : Reads [] t messages closed) (hacts : Acts t) : messages ≠ [] ∨ closed = true := by
  obtain ⟨ms, rest, rfl, hms, hstuck⟩ := exists_stuck t
  cases ms with
  | nil =>
    rcases h.cases_stuck rfl rfl hms hstuck with ⟨_, _, hclosed⟩ | ⟨hrejected, _⟩
    · right
      rw [hclosed]
      exact decide_eq_true hacts
    · have hlimit := hacts.2.1
      have hover := hrejected.2
      rw [frames_nil, List.nil_append] at hlimit
      omega
  | cons m ms =>
    left
    rcases h.cases_stuck rfl rfl hms hstuck with ⟨_, rfl, _⟩ | ⟨_, _, _, _, _, _, rfl⟩
    · exact List.cons_ne_nil _ _
    · exact List.cons_ne_nil _ _

/-- Where no bytes act, nothing is pushed and the connection stays open. -/
theorem Reads.of_quiet {t : Bytes} {messages : List Bytes} {closed : Bool}
    (h : Reads [] t messages closed) (hquiet : ∀ q, ¬ Acts (t.drop q)) :
    messages = [] ∧ closed = false := by
  induction hn : t.length using Nat.strongRecOn generalizing t messages with
  | ind n ih =>
    obtain ⟨ms, rest, hsplit, hms, hstuck⟩ := exists_stuck t
    cases ms with
    | nil =>
      rw [frames_nil, List.nil_append] at hsplit
      subst hsplit
      rcases h.cases_stuck rfl rfl hms hstuck with
        ⟨_, hnil, hclosed⟩ | ⟨_, k, messages', hk, hle, hread, rfl⟩
      · refine ⟨hnil, ?_⟩
        rw [hclosed]
        exact decide_eq_false (hquiet 0)
      · have hlt : (t.drop k).length < n := by
          rw [List.length_drop]
          omega
        have htail : ∀ q, ¬ Acts ((t.drop k).drop q) := by
          intro q
          rw [List.drop_drop]
          exact hquiet (k + q)
        exact ih _ hlt hread htail rfl
    | cons m ms =>
      exfalso
      apply hquiet 0
      rw [List.drop_zero, hsplit, frames_cons, List.append_assoc]
      exact acts_frame (hms m (List.mem_cons_self ..)) _

/-- A header within the limit starts with a zero byte. -/
theorem head_zero {t : Bytes} (hlen : 4 ≤ t.length) (h : ¬ Rejected t) :
    t = 0 :: t.drop 1 := by
  match t, hlen with
  | b₀ :: b₁ :: b₂ :: b₃ :: rest, hlen =>
    have hlimit : declared (b₀ :: b₁ :: b₂ :: b₃ :: rest) ≤ maxPayload :=
      Nat.le_of_not_lt fun hover => h ⟨hlen, hover⟩
    simp only [declared, ntohl, List.take_succ_cons, List.take_zero, List.foldl_cons,
      List.foldl_nil, maxPayload] at hlimit
    have hzero : b₀ = 0 := by
      apply UInt8.toNat_inj.mp
      show b₀.toNat = 0
      omega
    rw [hzero]
    rfl

/-- Where bytes act there is a last place where they do. -/
theorem exists_last_acts {t : Bytes} {q : ℕ} (hq : 4 ≤ q) (hacts : Acts (t.drop q)) :
    ∃ l, 4 ≤ l ∧ l + 4 ≤ t.length ∧ Acts (t.drop l) ∧ ∀ r, l < r → ¬ Acts (t.drop r) := by
  have hinside : ∀ r, Acts (t.drop r) → r + 4 ≤ t.length := by
    intro r hr
    have hfour := hr.1
    rw [List.length_drop] at hfour
    omega
  have hle : q ≤ t.length := by
    have hqlen := hinside q hacts
    omega
  have hgreatest := Nat.findGreatest_spec (P := fun r => Acts (t.drop r)) hle hacts
  refine ⟨_, hq.trans (Nat.le_findGreatest hle hacts), hinside _ hgreatest, hgreatest, ?_⟩
  intro r hr hactsr
  have hrlen := hinside r hactsr
  exact Nat.findGreatest_is_greatest hr (by omega) hactsr

/-- In front of the last place where bytes act, the buffer can be thrown away
right before it or one byte later. -/
theorem disagree_at_last {t : Bytes} (ht : Rejected t) {l : ℕ} (hl : 4 ≤ l)
    (hlen : l + 4 ≤ t.length) (hacts : Acts (t.drop l))
    (hlast : ∀ r, l < r → ¬ Acts (t.drop r)) (hreach : l < inBufCapacity) :
    ∃ m₁ c₁ m₂ c₂, Reads [] t m₁ c₁ ∧ Reads [] t m₂ c₂ ∧ ¬ (m₁ = m₂ ∧ c₁ = c₂) := by
  obtain ⟨m₁, c₁, h₁⟩ := exists_reads (t.drop l) [] (Nat.zero_le _)
  obtain ⟨m₂, c₂, h₂⟩ := exists_reads (t.drop (l + 1)) [] (Nat.zero_le _)
  have hfirst := h₁.of_acts hacts
  have hsecond : m₂ = [] ∧ c₂ = false := by
    apply h₂.of_quiet
    intro r
    rw [List.drop_drop]
    exact hlast _ (by omega)
  refine ⟨m₁, c₁, m₂, c₂, .resync ht hl (by omega) (by omega) h₁,
    .resync ht (by omega) (by omega) (by omega) h₂, ?_⟩
  intro ⟨hm, hc⟩
  rcases hfirst with hne | htrue
  · exact hne (hm.trans hsecond.1)
  · rw [hc, hsecond.2] at htrue
    cases htrue

/-- Behind a rejected header stand four bytes none of which starts another
one: they are an empty packet, which can be kept or thrown away. -/
theorem disagree_at_zeros {t : Bytes} (ht : Rejected t) (hlen : 11 ≤ t.length)
    (hnot : ∀ r, 4 ≤ r → r < 8 → ¬ Rejected (t.drop r)) :
    ∃ m₁ c₁ m₂ c₂, Reads [] t m₁ c₁ ∧ Reads [] t m₂ c₂ ∧ ¬ (m₁ = m₂ ∧ c₁ = c₂) := by
  have hzero : ∀ r, 4 ≤ r → r < 8 → t.drop r = 0 :: t.drop (r + 1) := by
    intro r hr hr8
    have hfour : 4 ≤ (t.drop r).length := by
      rw [List.length_drop]
      omega
    have hhead := head_zero hfour (hnot r hr hr8)
    rw [List.drop_drop] at hhead
    exact hhead
  have hempty : t.drop 4 = frames [[]] ++ t.drop 8 := by
    rw [hzero 4 (by omega) (by omega), hzero 5 (by omega) (by omega),
      hzero 6 (by omega) (by omega), hzero 7 (by omega) (by omega)]
    rfl
  obtain ⟨m, c, h⟩ := exists_reads (t.drop 8) [] (Nat.zero_le _)
  have hkept : Reads [] (t.drop 4) ([[]] ++ m) c := by
    rw [hempty]
    exact Reads.packets (by simp) h
  refine ⟨[[]] ++ m, c, m, c, .resync ht (by omega) (by decide) (by omega) hkept,
    .resync ht (by omega) (by decide) (by omega) h, ?_⟩
  intro ⟨hm, _⟩
  have hlength := congrArg List.length hm
  simp at hlength

/-- If bytes behind a rejected header act, then two readings disagree. Either
the last such bytes can be reached and also be thrown away, or they are out of
reach of the first readv; then one of the next headers is rejected again, or
the next four bytes are a packet without payload, to be kept or thrown away. -/
theorem reads_disagree {t : Bytes} (ht : Rejected t) (hacts : ∃ q, 4 ≤ q ∧ Acts (t.drop q)) :
    ∃ m₁ c₁ m₂ c₂, Reads [] t m₁ c₁ ∧ Reads [] t m₂ c₂ ∧ ¬ (m₁ = m₂ ∧ c₁ = c₂) := by
  induction hn : t.length using Nat.strongRecOn generalizing t with
  | ind n ih =>
    obtain ⟨q, hq, hactsq⟩ := hacts
    obtain ⟨l, hl, hlen, hactsl, hlast⟩ := exists_last_acts hq hactsq
    by_cases hreach : l < inBufCapacity
    · exact disagree_at_last ht hl hlen hactsl hlast hreach
    · simp only [inBufCapacity] at hreach
      by_cases hagain : ∃ r, 4 ≤ r ∧ r < 8 ∧ Rejected (t.drop r)
      · obtain ⟨r, hr, hr8, hrejected⟩ := hagain
        have hfit : r ≤ inBufCapacity := by
          simp only [inBufCapacity]
          omega
        have hlt : (t.drop r).length < n := by
          rw [List.length_drop]
          omega
        have hbehind : ∃ q', 4 ≤ q' ∧ Acts ((t.drop r).drop q') := by
          refine ⟨l - r, by omega, ?_⟩
          rw [List.drop_drop, Nat.add_sub_cancel' (by omega)]
          exact hactsl
        obtain ⟨m₁, c₁, m₂, c₂, h₁, h₂, hne⟩ := ih _ hlt hrejected hbehind rfl
        exact ⟨m₁, c₁, m₂, c₂, .resync ht hr hfit (by omega) h₁,
          .resync ht hr hfit (by omega) h₂, hne⟩
      · refine disagree_at_zeros ht (by omega) ?_
        exact fun r hr hr8 hrejected => hagain ⟨r, hr, hr8, hrejected⟩

/-- All readings of a stream agree exactly when nothing acts behind a rejected header. -/
theorem reads_agree_iff (S : Bytes) :
    (∀ m₁ c₁ m₂ c₂, Reads [] S m₁ c₁ → Reads [] S m₂ c₂ → m₁ = m₂ ∧ c₁ = c₂) ↔
      QuietAfterReject S := by
  constructor
  · rintro hagree ms rest rfl hms hrejected q hq hacts
    obtain ⟨m₁, c₁, m₂, c₂, h₁, h₂, hne⟩ := reads_disagree hrejected ⟨q, hq, hacts⟩
    obtain ⟨hm, hc⟩ := hagree _ _ _ _ (h₁.packets hms) (h₂.packets hms)
    exact hne ⟨List.append_cancel_left hm, hc⟩
  · intro hquiet
    obtain ⟨ms, rest, rfl, hms, hstuck⟩ := exists_stuck S
    by_cases hrejected : Rejected rest
    · have hall : ∀ m c, Reads [] (frames ms ++ rest) m c → m = ms ∧ c = false := by
        intro m c h
        rcases h.cases_stuck rfl rfl hms hstuck with
          ⟨hnot, _⟩ | ⟨_, k, messages', hk, _, hread, rfl⟩
        · exact absurd hrejected hnot
        · have hnothing : messages' = [] ∧ c = false := by
            apply hread.of_quiet
            intro q
            rw [List.drop_drop]
            exact hquiet ms rest rfl hms hrejected (k + q) (by omega)
          exact ⟨by rw [hnothing.1, List.append_nil], hnothing.2⟩
      intro m₁ c₁ m₂ c₂ h₁ h₂
      obtain ⟨hm₁, hc₁⟩ := hall m₁ c₁ h₁
      obtain ⟨hm₂, hc₂⟩ := hall m₂ c₂ h₂
      exact ⟨hm₁.trans hm₂.symm, hc₁.trans hc₂.symm⟩
    · have hall : ∀ m c, Reads [] (frames ms ++ rest) m c → m = ms ∧ c = decide (Acts rest) := by
        intro m c h
        rcases h.cases_stuck rfl rfl hms hstuck with ⟨_, hm, hc⟩ | ⟨hyes, _⟩
        · exact ⟨hm, hc⟩
        · exact absurd hyes hrejected
      intro m₁ c₁ m₂ c₂ h₁ h₂
      obtain ⟨hm₁, hc₁⟩ := hall m₁ c₁ h₁
      obtain ⟨hm₂, hc₂⟩ := hall m₂ c₂ h₂
      exact ⟨hm₁.trans hm₂.symm, hc₁.trans hc₂.symm⟩

end Readings

section Calls

/-- What a call of handle_read read is the start of a reading. -/
theorem handleRead_reads {conn : Connection} (h : InBufGood conn) {answers : List ReadvAnswer}
    (hnever : ∀ answer ∈ answers, NeverEnds answer) :
    InBufGood (handleRead conn answers).conn ∧
    (handleRead conn answers).conn.closed = conn.closed ∧
    ((handleRead conn answers).shouldClose = true ↔
      (handleRead conn answers).conn.inBuf.contents.length = inBufCapacity) ∧
    ∃ t, (handleRead conn answers).conn.received = conn.received ++ t ∧
      ∀ s messages closed, Reads (handleRead conn answers).conn.inBuf.contents s messages closed →
        Reads conn.inBuf.contents (t ++ s) ((handleRead conn answers).messages ++ messages)
          closed := by
  induction answers generalizing conn with
  | nil => exact ⟨h, rfl, h.iovecs_isEmpty, [], (List.append_nil _).symm, fun _ _ _ hs => hs⟩
  | cons answer rest ih =>
    have hanswer := hnever answer (List.mem_cons_self ..)
    have hrest : ∀ a ∈ rest, NeverEnds a := fun a ha => hnever a (List.mem_cons_of_mem _ ha)
    unfold handleRead
    dsimp only
    split
    · rename_i hfull
      exact ⟨h, rfl, iff_of_true rfl (h.iovecs_isEmpty.mp hfull), [],
        (List.append_nil _).symm, fun _ _ _ hs => hs⟩
    · rename_i hroom
      rw [h.iovecs_isEmpty] at hroom
      split
      · rename_i bytes hpos hle now _
        rw [RingBuffer.getWriteableIovecs_total] at hle
        obtain ⟨hdrain, hgood⟩ := decodeMessages_afterReadv h bytes hle now
        obtain ⟨hlast, hclosed, hasks, t, hreceived, hreads⟩ := ih hgood hrest
        refine ⟨hlast, hclosed, hasks, bytes ++ t, ?_, ?_⟩
        · rw [hreceived]
          exact List.append_assoc ..
        · intro s messages closed hs
          have hfit : conn.inBuf.contents.length + bytes.length ≤ inBufCapacity := by
            have hcontents := h.contents_le
            rw [h.freeSpace_eq] at hle
            omega
          have hnext := hreads s messages closed hs
          rw [show (decodeMessages (afterReadv conn bytes now)).2.inBuf.contents =
            (byteDecoder.drain (conn.inBuf.contents ++ bytes)).2 by rw [hdrain]] at hnext
          have hstep := Reads.readv bytes hpos hfit hnext
          rw [hdrain] at hstep
          rw [List.append_assoc, List.append_assoc]
          exact hstep
      · rename_i heof
        exact absurd heof (hanswer _).1
      · exact ⟨h, rfl, iff_of_false Bool.false_ne_true hroom, [], (List.append_nil _).symm,
          fun _ _ _ hs => hs⟩
      · rename_i herror
        exact absurd herror (hanswer _).2

/-- A run of calls is a reading of what it read. -/
theorem handleReads_reads {conn : Connection} (h : InBufGood conn) (hopen : conn.closed = false)
    (hroom : conn.inBuf.contents.length < inBufCapacity) {calls : List (List ReadvAnswer)}
    (hnever : ∀ answers ∈ calls, ∀ answer ∈ answers, NeverEnds answer) :
    ∃ t, (handleReads conn calls).2.received = conn.received ++ t ∧
      ((handleReads conn calls).2.closed = true ∧
          (∀ s, Reads conn.inBuf.contents (t ++ s) (handleReads conn calls).1 true) ∨
        (handleReads conn calls).2.closed = false ∧
          Reads conn.inBuf.contents t (handleReads conn calls).1 false) := by
  induction calls generalizing conn with
  | nil => exact ⟨[], (List.append_nil _).symm, Or.inr ⟨hopen, .done hroom⟩⟩
  | cons answers rest ih =>
    obtain ⟨hgood, hclosed, hasks, t, hreceived, hreads⟩ :=
      handleRead_reads h (hnever answers (List.mem_cons_self ..))
    unfold handleReads
    dsimp only
    split
    · rename_i hclose
      refine ⟨t, ?_, Or.inl ⟨close_closed _, ?_⟩⟩
      · rw [close_received, hreceived]
      · intro s
        have hend := hreads s [] true (.full (hasks.mp hclose))
        rw [List.append_nil] at hend
        exact hend
    · rename_i hkeep
      rw [hasks] at hkeep
      have hlt := Nat.lt_of_le_of_ne hgood.contents_le hkeep
      obtain ⟨t', hreceived', hend⟩ := ih hgood (hclosed.trans hopen) hlt
        fun as has => hnever as (List.mem_cons_of_mem _ has)
      refine ⟨t ++ t', ?_, ?_⟩
      · rw [hreceived', hreceived, List.append_assoc]
      · rcases hend with ⟨htrue, hall⟩ | ⟨hfalse, hread⟩
        · refine Or.inl ⟨htrue, fun s => ?_⟩
          rw [List.append_assoc]
          exact hreads _ _ _ (hall s)
        · exact Or.inr ⟨hfalse, hreads _ _ _ hread⟩

theorem deliver_neverEnds (bytes : Bytes) : NeverEnds (deliver bytes) := by
  intro offered
  unfold deliver
  split
  · exact ⟨nofun, nofun⟩
  · exact ⟨nofun, nofun⟩

/-- A chunk that is delivered to handle_read, on the bytes in the buffer. -/
theorem handleRead_chunk {conn : Connection} (h : InBufGood conn) {x : Bytes}
    (hx : 0 < x.length) (hfit : conn.inBuf.contents.length + x.length ≤ inBufCapacity) :
    ∃ next, InBufGood next ∧
      next.inBuf.contents = (byteDecoder.drain (conn.inBuf.contents ++ x)).2 ∧
      next.received = conn.received ++ x ∧ next.closed = conn.closed ∧
      ∀ rest, handleRead conn (deliver x :: rest) =
        { handleRead next rest with
          messages := (byteDecoder.drain (conn.inBuf.contents ++ x)).1 ++
            (handleRead next rest).messages } := by
  have hle : x.length ≤ conn.inBuf.freeSpace := by
    rw [h.freeSpace_eq]
    omega
  obtain ⟨hdrain, hgood⟩ := decodeMessages_afterReadv h x hle 0
  refine ⟨(decodeMessages (afterReadv conn x 0)).2, hgood, ?_, rfl, rfl, ?_⟩
  · rw [hdrain]
  · intro rest
    rw [handleRead_deliver h hx hfit, hdrain]

/-- Every reading is one call of handle_read. -/
theorem Reads.exists_handleRead {b s : Bytes} {messages : List Bytes} {closed : Bool}
    (hread : Reads b s messages closed) {conn : Connection} (h : InBufGood conn)
    (hb : conn.inBuf.contents = b) :
    ∃ answers, (∀ answer ∈ answers, NeverEnds answer) ∧
      (handleRead conn answers).messages = messages ∧
      (handleRead conn answers).shouldClose = closed ∧
      ∃ t, (handleRead conn answers).conn.received = conn.received ++ t ∧
        (t = s ∨ closed = true ∧ t <+: s) := by
  induction hread generalizing conn with
  | @full b s hfull =>
    refine ⟨[], by simp, rfl, ?_, [], (List.append_nil _).symm, Or.inr ⟨rfl, List.nil_prefix⟩⟩
    apply h.iovecs_isEmpty.mpr
    rw [hb]
    exact hfull
  | @done b hroom =>
    refine ⟨[], by simp, rfl, ?_, [], (List.append_nil _).symm, Or.inl rfl⟩
    apply Bool.eq_false_iff.mpr
    intro hasks
    have hlen := h.iovecs_isEmpty.mp hasks
    rw [hb] at hlen
    omega
  | @readv b s messages closed x hx hfit _ ih =>
    rw [← hb] at hfit
    obtain ⟨next, hgood, hcontents, hnext, _, hcall⟩ := handleRead_chunk h hx hfit
    rw [hb] at hcontents hcall
    obtain ⟨answers, hnever, hmessages, hclose, t, hreceived, ht⟩ := ih hgood hcontents
    refine ⟨deliver x :: answers, ?_, ?_⟩
    · intro answer hanswer
      rcases List.mem_cons.mp hanswer with rfl | hmem
      · exact deliver_neverEnds x
      · exact hnever answer hmem
    · rw [hcall]
      refine ⟨by rw [← hmessages], hclose, x ++ t, ?_, ?_⟩
      · rw [← List.append_assoc, ← hnext]
        exact hreceived
      · rcases ht with rfl | ⟨htrue, ht⟩
        · exact Or.inl rfl
        · exact Or.inr ⟨htrue, (List.prefix_append_right_inj x).mpr ht⟩

theorem handleReads_singleton (conn : Connection) (answers : List ReadvAnswer) :
    (handleReads conn [answers]).1 = (handleRead conn answers).messages ∧
    (handleReads conn [answers]).2.received = (handleRead conn answers).conn.received ∧
    (handleReads conn [answers]).2.closed =
      ((handleRead conn answers).shouldClose || (handleRead conn answers).conn.closed) := by
  unfold handleReads
  dsimp only
  split
  · rename_i hclose
    exact ⟨rfl, close_received _, by rw [close_closed, hclose, Bool.true_or]⟩
  · rename_i hkeep
    rw [Bool.not_eq_true] at hkeep
    exact ⟨List.append_nil _, rfl, by rw [hkeep, Bool.false_or]; rfl⟩

/-- One call of handle_read that reads the stream. -/
theorem splits_singleton (fd now : ℕ) {S : Bytes} (answers : List ReadvAnswer)
    (hnever : ∀ answer ∈ answers, NeverEnds answer)
    (hend : (handleRead (Connection.new fd now) answers).conn.received = S ∨
      (handleRead (Connection.new fd now) answers).shouldClose = true ∧
        (handleRead (Connection.new fd now) answers).conn.received <+: S) :
    Splits fd now S [answers] ∧
    outcome fd now [answers] =
      ((handleRead (Connection.new fd now) answers).messages,
        (handleRead (Connection.new fd now) answers).shouldClose) := by
  obtain ⟨_, hopen, _⟩ := handleRead_reads (new_inBufGood fd now) hnever
  obtain ⟨hpushed, hreceived, hclosed⟩ := handleReads_singleton (Connection.new fd now) answers
  rw [hopen, show (Connection.new fd now).closed = false from rfl, Bool.or_false] at hclosed
  have hcalls : ∀ as ∈ [answers], ∀ answer ∈ as, NeverEnds answer := by
    intro as has
    rw [List.mem_singleton.mp has]
    exact hnever
  refine ⟨⟨hcalls, ?_⟩, Prod.ext hpushed hclosed⟩
  rw [hreceived, hclosed]
  exact hend

/-- The calls that read a stream have the outcomes of its readings. -/
theorem exists_splits_iff (fd now : ℕ) (S : Bytes) (messages : List Bytes) (closed : Bool) :
    (∃ calls, Splits fd now S calls ∧ outcome fd now calls = (messages, closed)) ↔
      Reads [] S messages closed := by
  have hgood := new_inBufGood fd now
  have hnil := new_inBuf_contents fd now
  constructor
  · intro ⟨calls, ⟨hnever, hend⟩, hout⟩
    have hroom : (Connection.new fd now).inBuf.contents.length < inBufCapacity := by
      rw [hnil]
      decide
    obtain ⟨t, hreceived, hrun⟩ := handleReads_reads hgood rfl hroom hnever
    rw [hnil] at hrun
    rw [show (Connection.new fd now).received = [] from rfl, List.nil_append] at hreceived
    rw [hreceived] at hend
    simp only [outcome, Prod.mk.injEq] at hout
    obtain ⟨rfl, rfl⟩ := hout
    rcases hrun with ⟨htrue, hall⟩ | ⟨hfalse, hread⟩
    · rw [htrue]
      rcases hend with rfl | ⟨_, s, rfl⟩
      · have hwhole := hall []
        rw [List.append_nil] at hwhole
        exact hwhole
      · exact hall s
    · rw [hfalse]
      rcases hend with rfl | ⟨hclosed, _⟩
      · exact hread
      · rw [hfalse] at hclosed
        cases hclosed
  · intro hread
    obtain ⟨answers, hnever, hmessages, hclose, t, hreceived, ht⟩ :=
      hread.exists_handleRead hgood hnil
    rw [show (Connection.new fd now).received = [] from rfl, List.nil_append] at hreceived
    rw [← hreceived, ← hclose] at ht
    obtain ⟨hsplits, hout⟩ := splits_singleton fd now answers hnever ht
    rw [hmessages, hclose] at hout
    exact ⟨[answers], hsplits, hout⟩

/-- Segmentation independence holds of a stream exactly when nothing acts
behind a rejected header in it. -/
theorem segmentation_independent_iff (fd now : ℕ) (S : Bytes) :
    (∀ calls₁ calls₂, Splits fd now S calls₁ → Splits fd now S calls₂ →
      outcome fd now calls₁ = outcome fd now calls₂) ↔ QuietAfterReject S := by
  rw [← reads_agree_iff]
  constructor
  · intro hagree m₁ c₁ m₂ c₂ h₁ h₂
    obtain ⟨calls₁, hsplits₁, hout₁⟩ := (exists_splits_iff fd now S m₁ c₁).mpr h₁
    obtain ⟨calls₂, hsplits₂, hout₂⟩ := (exists_splits_iff fd now S m₂ c₂).mpr h₂
    have heq := hagree calls₁ calls₂ hsplits₁ hsplits₂
    rw [hout₁, hout₂] at heq
    exact Prod.mk.injEq .. ▸ heq
  · intro hagree calls₁ calls₂ hsplits₁ hsplits₂
    have h₁ := (exists_splits_iff fd now S _ _).mp ⟨calls₁, hsplits₁, rfl⟩
    have h₂ := (exists_splits_iff fd now S _ _).mp ⟨calls₂, hsplits₂, rfl⟩
    obtain ⟨hm, hc⟩ := hagree _ _ _ _ h₁ h₂
    exact Prod.ext hm hc

/-- With an empty input buffer nothing more is read and nothing is asked for. -/
theorem handleRead_nil {conn : Connection} (h : InBufGood conn)
    (hempty : conn.inBuf.contents = []) : handleRead conn [] = ⟨[], conn, false⟩ := by
  have hasks : conn.inBuf.getWriteableIovecs.isEmpty = false := by
    apply Bool.eq_false_iff.mpr
    intro hasks
    have hlen := h.iovecs_isEmpty.mp hasks
    rw [hempty] at hlen
    cases hlen
  rw [handleRead, hasks]

/-- A rejected header and four zero bytes. In one readv all of it is thrown
away; in two, the second one holds a packet without payload. -/
theorem segmentation_depends :
    Splits 7 0 [255, 255, 255, 255, 0, 0, 0, 0] [[deliver [255, 255, 255, 255, 0, 0, 0, 0]]] ∧
    outcome 7 0 [[deliver [255, 255, 255, 255, 0, 0, 0, 0]]] = ([], false) ∧
    Splits 7 0 [255, 255, 255, 255, 0, 0, 0, 0]
      [[deliver [255, 255, 255, 255], deliver [0, 0, 0, 0]]] ∧
    outcome 7 0 [[deliver [255, 255, 255, 255], deliver [0, 0, 0, 0]]] = ([[]], false) := by
  have hgood := new_inBufGood 7 0
  have hnil := new_inBuf_contents 7 0
  have hwhole : byteDecoder.drain [255, 255, 255, 255, 0, 0, 0, 0] = ([], []) :=
    Rejected.drain (by decide)
  have hheader : byteDecoder.drain [255, 255, 255, 255] = ([], []) :=
    Rejected.drain (by decide)
  have hzeros : byteDecoder.drain [0, 0, 0, 0] = ([[]], []) := by
    have hpacket : byteDecoder.decode [0, 0, 0, 0] = (some [], []) := by decide
    have hrest : byteDecoder.drain [] = ([], []) := byteDecoder.drain_of_none rfl
    rw [byteDecoder.drain_of_some hpacket, hrest]
  have hone : ∃ conn, conn.received = [255, 255, 255, 255, 0, 0, 0, 0] ∧
      handleRead (Connection.new 7 0) [deliver [255, 255, 255, 255, 0, 0, 0, 0]] =
        ⟨[], conn, false⟩ := by
    obtain ⟨next, hnext, hcontents, hreceived, _, hcall⟩ :=
      handleRead_chunk hgood (x := [255, 255, 255, 255, 0, 0, 0, 0]) (by decide)
        (by rw [hnil]; decide)
    rw [hnil, List.nil_append, hwhole] at hcontents hcall
    exact ⟨next, hreceived, by rw [hcall, handleRead_nil hnext hcontents]; rfl⟩
  have htwo : ∃ conn, conn.received = [255, 255, 255, 255, 0, 0, 0, 0] ∧
      handleRead (Connection.new 7 0) [deliver [255, 255, 255, 255], deliver [0, 0, 0, 0]] =
        ⟨[[]], conn, false⟩ := by
    obtain ⟨next, hnext, hcontents, hreceived, _, hcall⟩ :=
      handleRead_chunk hgood (x := [255, 255, 255, 255]) (by decide) (by rw [hnil]; decide)
    rw [hnil, List.nil_append, hheader] at hcontents hcall
    obtain ⟨last, hlast, hcontents', hreceived', _, hcall'⟩ :=
      handleRead_chunk hnext (x := [0, 0, 0, 0]) (by decide) (by rw [hcontents]; decide)
    rw [hcontents, List.nil_append, hzeros] at hcontents' hcall'
    refine ⟨last, by rw [hreceived', hreceived]; rfl, ?_⟩
    rw [hcall, hcall', handleRead_nil hlast hcontents']
    rfl
  obtain ⟨conn₁, hreceived₁, hcall₁⟩ := hone
  obtain ⟨conn₂, hreceived₂, hcall₂⟩ := htwo
  obtain ⟨hsplits₁, hout₁⟩ := splits_singleton 7 0 [deliver [255, 255, 255, 255, 0, 0, 0, 0]]
    (by simp [deliver_neverEnds]) (Or.inl (by rw [hcall₁, hreceived₁]))
  obtain ⟨hsplits₂, hout₂⟩ := splits_singleton 7 0
    [deliver [255, 255, 255, 255], deliver [0, 0, 0, 0]]
    (by simp [deliver_neverEnds]) (Or.inl (by rw [hcall₂, hreceived₂]))
  rw [hcall₁] at hout₁
  rw [hcall₂] at hout₂
  exact ⟨hsplits₁, hout₁, hsplits₂, hout₂⟩

end Calls

end ChatServer.Segmentation
