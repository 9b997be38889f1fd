import Mathlib.Data.Finset.Basic
import Mathlib.Data.List.Nodup
import Mathlib.Logic.Function.Basic

/-!
Who is present under which name and in which room. A roster gives each
connection at most one seat: a name and perhaps a room. A server usually keeps
two other tables as well, a directory from names to connections and the names
in each room. The relations below say what these tables have to do with the
roster, and each lemma says how they change together.
-/
namespace ChatServer.Lib.Seating

structure Seat (ν ρ : Type*) where
  name : ν
  room : Option ρ

abbrev Roster (κ ν ρ : Type*) := κ → Option (Seat ν ρ)

variable {κ ν ρ : Type*}

/-- `c` is present under the name `n`. -/
def Holds (R : Roster κ ν ρ) (c : κ) (n : ν) : Prop := ∃ room, R c = some ⟨n, room⟩

/-- `c` is present under the name `n`, in the room `r`. -/
def Sits (R : Roster κ ν ρ) (c : κ) (n : ν) (r : ρ) : Prop := R c = some ⟨n, some r⟩

/-- The directory lists everyone who is present. -/
def Listed (dir : ν → Option κ) (R : Roster κ ν ρ) : Prop := ∀ c n, Holds R c n → dir n = some c

/-- Whoever the directory lists is present under that name. -/
def Current (dir : ν → Option κ) (R : Roster κ ν ρ) : Prop := ∀ c n, dir n = some c → Holds R c n

/-- Whoever sits in a room is listed there under some name, perhaps an old one. -/
def Anchored (dir : ν → Option κ) (rooms : ρ → Finset ν) (R : Roster κ ν ρ) : Prop :=
  ∀ c n r, Sits R c n r → ∃ m ∈ rooms r, dir m = some c

/-- The table of rooms has exactly the names of those who sit in them. -/
def Members (rooms : ρ → Finset ν) (R : Roster κ ν ρ) : Prop :=
  ∀ r n, n ∈ rooms r ↔ ∃ c, Sits R c n r

section Tables

variable [DecidableEq ν] [DecidableEq ρ]

/-- The table of rooms after the name `n` is taken out of a room. -/
def stand (rooms : ρ → Finset ν) (n : ν) : Option ρ → ρ → Finset ν
  | none => rooms
  | some r => Function.update rooms r ((rooms r).erase n)

/-- The table of rooms after the name `n` is put into a room. -/
def sit (rooms : ρ → Finset ν) (n : ν) : Option ρ → ρ → Finset ν
  | none => rooms
  | some r => Function.update rooms r (insert n (rooms r))

theorem mem_stand {rooms : ρ → Finset ν} {n m : ν} {old : Option ρ} {r : ρ} (hm : m ∈ rooms r)
    (hne : m ≠ n) : m ∈ stand rooms n old r := by
  cases old with
  | none => exact hm
  | some q =>
    simp only [stand, Function.update_apply]
    split
    · rename_i heq
      subst heq
      exact Finset.mem_erase.mpr ⟨hne, hm⟩
    · exact hm

theorem mem_sit {rooms : ρ → Finset ν} {n m : ν} {new : Option ρ} {r : ρ} (hm : m ∈ rooms r) :
    m ∈ sit rooms n new r := by
  cases new with
  | none => exact hm
  | some q =>
    simp only [sit, Function.update_apply]
    split
    · rename_i heq
      subst heq
      exact Finset.mem_insert_of_mem hm
    · exact hm

theorem mem_sit_self {rooms : ρ → Finset ν} {n : ν} {r : ρ} : n ∈ sit rooms n (some r) r := by
  simp only [sit, Function.update_self, Finset.mem_insert_self]

end Tables

section Seats

variable {R : Roster κ ν ρ} {c d : κ} {n m : ν} {r : ρ}

theorem Sits.holds (h : Sits R c n r) : Holds R c n := ⟨some r, h⟩

theorem Holds.name_eq (h : Holds R c n) (h' : Holds R c m) : n = m := by
  obtain ⟨room, hroom⟩ := h
  obtain ⟨room', hroom'⟩ := h'
  rw [hroom] at hroom'
  cases hroom'
  rfl

/-- A directory that lists everyone makes names unique. -/
theorem Listed.unique {dir : ν → Option κ} (h : Listed dir R) (hc : Holds R c n)
    (hd : Holds R d n) : c = d := by
  have heq : some c = some d := (h c n hc).symm.trans (h d n hd)
  exact Option.some.inj heq

/-- Looking up the names of a room finds exactly those who sit in it, once each. -/
theorem Listed.lookup_members {dir : ν → Option κ} {rooms : ρ → Finset ν} (h : Listed dir R)
    (hrooms : Members rooms R) {names : List ν} (hnames : ∀ n, n ∈ names ↔ n ∈ rooms r)
    (hnodup : names.Nodup) :
    (names.filterMap dir).Nodup ∧ ∀ c, c ∈ names.filterMap dir ↔ ∃ n, Sits R c n r := by
  have hsits : ∀ n ∈ names, ∃ c, Sits R c n r ∧ dir n = some c := by
    intro n hn
    obtain ⟨c, hc⟩ := (hrooms r n).mp ((hnames n).mp hn)
    exact ⟨c, hc, h c n hc.holds⟩
  constructor
  · rw [List.Nodup, List.pairwise_filterMap]
    refine hnodup.imp_of_mem ?_
    intro n m hn hm hne c hc d hd hcd
    obtain ⟨c', hc', hdir⟩ := hsits n hn
    obtain ⟨d', hd', hdir'⟩ := hsits m hm
    rw [hc] at hdir
    rw [hd, ← hcd] at hdir'
    cases hdir
    cases hdir'
    exact hne (hc'.holds.name_eq hd'.holds)
  · intro c
    rw [List.mem_filterMap]
    constructor
    · intro ⟨n, hn, hdir⟩
      obtain ⟨d, hd, hdir'⟩ := hsits n hn
      rw [hdir'] at hdir
      cases hdir
      exact ⟨n, hd⟩
    · intro ⟨n, hn⟩
      exact ⟨n, (hnames n).mpr ((hrooms r n).mpr ⟨c, hn⟩), h c n hn.holds⟩

end Seats

section Update

variable [DecidableEq κ] {R : Roster κ ν ρ} {c d : κ} {n m : ν} {r : ρ}
  {seat : Option (Seat ν ρ)}

theorem holds_update_of_ne (h : d ≠ c) : Holds (Function.update R c seat) d n ↔ Holds R d n := by
  simp only [Holds, Function.update_of_ne h]

theorem sits_update_of_ne (h : d ≠ c) :
    Sits (Function.update R c seat) d n r ↔ Sits R d n r := by
  simp only [Sits, Function.update_of_ne h]

theorem holds_update_self {room : Option ρ} :
    Holds (Function.update R c (some ⟨n, room⟩)) c m ↔ m = n := by
  simp only [Holds, Function.update_self, Option.some.injEq, Seat.mk.injEq, exists_and_left,
    exists_eq', and_true]
  exact eq_comm

theorem not_holds_update_none : ¬ Holds (Function.update R c none) c n := by
  simp [Holds]

/-- Taking another seat under the same name. -/
theorem holds_move {room : Option ρ} (hc : Holds R c n) :
    Holds (Function.update R c (some ⟨n, room⟩)) d m ↔ Holds R d m := by
  by_cases hdc : d = c
  · subst hdc
    rw [holds_update_self]
    exact ⟨fun h => h ▸ hc, fun h => h.name_eq hc⟩
  · exact holds_update_of_ne hdc

theorem Listed.move {dir : ν → Option κ} (h : Listed dir R) (hc : Holds R c n)
    (room : Option ρ) : Listed dir (Function.update R c (some ⟨n, room⟩)) :=
  fun d m hd => h d m ((holds_move hc).mp hd)

theorem Current.move {dir : ν → Option κ} (h : Current dir R) (hc : Holds R c n)
    (room : Option ρ) : Current dir (Function.update R c (some ⟨n, room⟩)) :=
  fun d m hd => (holds_move hc).mpr (h d m hd)

end Update

section Directory

variable [DecidableEq κ] [DecidableEq ν] {dir : ν → Option κ} {R : Roster κ ν ρ} {c : κ} {n : ν}

/-- Entering, or changing one's name, under a name that is not listed. -/
theorem Listed.enter (h : Listed dir R) (hfree : dir n = none) (room : Option ρ) :
    Listed (Function.update dir n (some c)) (Function.update R c (some ⟨n, room⟩)) := by
  intro d m hd
  by_cases hdc : d = c
  · subst hdc
    rw [holds_update_self] at hd
    rw [hd, Function.update_self]
  · rw [holds_update_of_ne hdc] at hd
    have hlisted := h d m hd
    have hmn : m ≠ n := by
      intro heq
      subst heq
      rw [hfree] at hlisted
      cases hlisted
    rw [Function.update_of_ne hmn, hlisted]

/-- Someone who enters for the first time. -/
theorem Current.enter (h : Current dir R) (habsent : R c = none) (room : Option ρ) :
    Current (Function.update dir n (some c)) (Function.update R c (some ⟨n, room⟩)) := by
  intro d m hd
  by_cases hmn : m = n
  · subst hmn
    rw [Function.update_self] at hd
    cases hd
    exact holds_update_self.mpr rfl
  · rw [Function.update_of_ne hmn] at hd
    have hholds := h d m hd
    have hdc : d ≠ c := by
      intro heq
      subst heq
      obtain ⟨room', hseat⟩ := hholds
      rw [habsent] at hseat
      cases hseat
    exact (holds_update_of_ne hdc).mpr hholds

theorem Listed.leave (h : Listed dir R) (hc : Holds R c n) :
    Listed (Function.update dir n none) (Function.update R c none) := by
  intro d m hd
  by_cases hdc : d = c
  · subst hdc
    exact absurd hd not_holds_update_none
  · rw [holds_update_of_ne hdc] at hd
    have hmn : m ≠ n := by
      intro heq
      subst heq
      exact hdc (h.unique hd hc)
    rw [Function.update_of_ne hmn]
    exact h d m hd

theorem Current.leave (h : Current dir R) (hc : Holds R c n) :
    Current (Function.update dir n none) (Function.update R c none) := by
  intro d m hd
  by_cases hmn : m = n
  · subst hmn
    rw [Function.update_self] at hd
    cases hd
  · rw [Function.update_of_ne hmn] at hd
    have hholds := h d m hd
    have hdc : d ≠ c := by
      intro heq
      subst heq
      exact hmn (hholds.name_eq hc)
    exact (holds_update_of_ne hdc).mpr hholds

end Directory

section Rooms

variable [DecidableEq κ] {rooms : ρ → Finset ν} {R : Roster κ ν ρ} {c : κ} {n : ν}

/-- A seat outside the rooms may be given up or taken. -/
theorem Members.outside (h : Members rooms R) (hc : ∀ n r, ¬ Sits R c n r)
    {seat : Option (Seat ν ρ)} (hseat : ∀ n r, seat ≠ some ⟨n, some r⟩) :
    Members rooms (Function.update R c seat) := by
  have hsame : ∀ d m q, Sits (Function.update R c seat) d m q ↔ Sits R d m q := by
    intro d m q
    by_cases hdc : d = c
    · subst hdc
      rw [Sits, Function.update_self]
      exact iff_of_false (hseat m q) (hc m q)
    · exact sits_update_of_ne hdc
  intro r n
  simp only [hsame]
  exact h r n

variable [DecidableEq ν] [DecidableEq ρ] {r : ρ}

/-- Leaving the room one is in, and perhaps the roster. -/
theorem Members.stand (h : Members rooms R) (hunique : ∀ d, Holds R d n → d = c)
    {old : Option ρ} (hc : R c = some ⟨n, old⟩) {seat : Option (Seat ν ρ)}
    (hseat : ∀ n r, seat ≠ some ⟨n, some r⟩) :
    Members (Seating.stand rooms n old) (Function.update R c seat) := by
  cases old with
  | none =>
    apply h.outside _ hseat
    intro m q hq
    rw [Sits, hc] at hq
    cases hq
  | some r =>
    have hstays : ∀ d m q, Sits (Function.update R c seat) d m q ↔ Sits R d m q ∧ d ≠ c := by
      intro d m q
      by_cases hdc : d = c
      · subst hdc
        rw [Sits, Function.update_self]
        exact iff_of_false (hseat m q) fun hne => hne.2 rfl
      · rw [sits_update_of_ne hdc]
        exact (and_iff_left hdc).symm
    have hsits : Sits R c n r := hc
    intro q m
    simp only [hstays, Seating.stand]
    by_cases hqr : q = r
    · subst hqr
      rw [Function.update_self, Finset.mem_erase, h q m]
      constructor
      · intro ⟨hmn, d, hd⟩
        refine ⟨d, hd, ?_⟩
        intro heq
        subst heq
        exact hmn (hd.holds.name_eq hsits.holds)
      · intro ⟨d, hd, hdc⟩
        refine ⟨?_, d, hd⟩
        intro heq
        subst heq
        exact hdc (hunique d hd.holds)
    · rw [Function.update_of_ne hqr, h q m]
      constructor
      · intro ⟨d, hd⟩
        refine ⟨d, hd, ?_⟩
        intro heq
        subst heq
        rw [Sits, hc] at hd
        cases hd
        exact hqr rfl
      · intro ⟨d, hd, _⟩
        exact ⟨d, hd⟩

/-- Taking a seat, from outside the rooms. -/
theorem Members.sit (h : Members rooms R) (hc : ∀ n r, ¬ Sits R c n r) (new : Option ρ) :
    Members (Seating.sit rooms n new) (Function.update R c (some ⟨n, new⟩)) := by
  cases new with
  | none => exact h.outside hc nofun
  | some r =>
    have hothers : ∀ d m q, Sits (Function.update R c (some ⟨n, some r⟩)) d m q ↔
        Sits R d m q ∨ d = c ∧ m = n ∧ q = r := by
      intro d m q
      by_cases hdc : d = c
      · subst hdc
        rw [Sits, Function.update_self, or_iff_right (hc m q)]
        constructor
        · intro heq
          cases heq
          exact ⟨rfl, rfl, rfl⟩
        · rintro ⟨_, rfl, rfl⟩
          rfl
      · rw [sits_update_of_ne hdc]
        exact (or_iff_left fun hd => hdc hd.1).symm
    intro q m
    simp only [hothers, Seating.sit]
    by_cases hqr : q = r
    · subst hqr
      rw [Function.update_self, Finset.mem_insert, h q m]
      constructor
      · rintro (rfl | ⟨d, hd⟩)
        · exact ⟨c, Or.inr ⟨rfl, rfl, rfl⟩⟩
        · exact ⟨d, Or.inl hd⟩
      · rintro ⟨d, hd | ⟨_, hm, _⟩⟩
        · exact Or.inr ⟨d, hd⟩
        · exact Or.inl hm
    · rw [Function.update_of_ne hqr, h q m]
      constructor
      · intro ⟨d, hd⟩
        exact ⟨d, Or.inl hd⟩
      · rintro ⟨d, hd | ⟨_, _, hq⟩⟩
        · exact ⟨d, hd⟩
        · exact absurd hq hqr

/-- From one seat to another under the same name. -/
theorem Members.move (h : Members rooms R) (hunique : ∀ d, Holds R d n → d = c)
    {old : Option ρ} (hc : R c = some ⟨n, old⟩) (new : Option ρ) :
    Members (Seating.sit (Seating.stand rooms n old) n new)
      (Function.update R c (some ⟨n, new⟩)) := by
  have hstood : Members (Seating.stand rooms n old)
      (Function.update R c (some ⟨n, none⟩)) := h.stand hunique hc nofun
  have hsat := hstood.sit (c := c) (n := n) ?_ new
  · rw [Function.update_idem] at hsat
    exact hsat
  · intro m q hq
    rw [Sits, Function.update_self] at hq
    cases hq

end Rooms

section Anchors

variable [DecidableEq ν] {dir : ν → Option κ} {rooms : ρ → Finset ν} {R : Roster κ ν ρ} {c : κ}
  {n : ν}

/-- Under a new name one keeps the room one is in, if any, and the name left there. -/
theorem Anchored.enter [DecidableEq κ] (h : Anchored dir rooms R) (hfree : dir n = none)
    {room : Option ρ} (hroom : ∀ r, room = some r → ∃ m, Sits R c m r) :
    Anchored (Function.update dir n (some c)) rooms (Function.update R c (some ⟨n, room⟩)) := by
  have hkept : ∀ d m r, Sits R d m r →
      ∃ l ∈ rooms r, Function.update dir n (some c) l = some d := by
    intro d m r hd
    obtain ⟨l, hl, hdir⟩ := h d m r hd
    have hne : l ≠ n := by
      intro heq
      subst heq
      rw [hfree] at hdir
      cases hdir
    exact ⟨l, hl, (Function.update_of_ne hne ..).trans hdir⟩
  intro d m r hd
  by_cases hdc : d = c
  · subst hdc
    rw [Sits, Function.update_self] at hd
    cases hd
    obtain ⟨m', hm'⟩ := hroom r rfl
    exact hkept d m' r hm'
  · exact hkept d m r ((sits_update_of_ne hdc).mp hd)

variable [DecidableEq ρ]

/-- A name that is listed for someone else is not touched. -/
theorem Anchored.others (h : Anchored dir rooms R) (hlisted : Listed dir R) (hc : Holds R c n)
    {d : κ} (hdc : d ≠ c) {m : ν} {r : ρ} (hd : Sits R d m r) (old : Option ρ) :
    ∃ l ∈ Seating.stand rooms n old r, l ≠ n ∧ dir l = some d := by
  obtain ⟨l, hl, hdir⟩ := h d m r hd
  have hne : l ≠ n := by
    intro heq
    subst heq
    rw [hlisted c l hc] at hdir
    exact hdc (Option.some.inj hdir).symm
  exact ⟨l, mem_stand hl hne, hne, hdir⟩

variable [DecidableEq κ]

theorem Anchored.move (h : Anchored dir rooms R) (hlisted : Listed dir R) {old : Option ρ}
    (hc : R c = some ⟨n, old⟩) (new : Option ρ) :
    Anchored dir (Seating.sit (Seating.stand rooms n old) n new)
      (Function.update R c (some ⟨n, new⟩)) := by
  intro d m r hd
  by_cases hdc : d = c
  · subst hdc
    rw [Sits, Function.update_self] at hd
    cases hd
    exact ⟨n, mem_sit_self, hlisted d n ⟨old, hc⟩⟩
  · rw [sits_update_of_ne hdc] at hd
    obtain ⟨l, hl, _, hdir⟩ := h.others hlisted ⟨old, hc⟩ hdc hd old
    exact ⟨l, mem_sit hl, hdir⟩

theorem Anchored.leave (h : Anchored dir rooms R) (hlisted : Listed dir R) {old : Option ρ}
    (hc : R c = some ⟨n, old⟩) :
    Anchored (Function.update dir n none) (Seating.stand rooms n old)
      (Function.update R c none) := by
  intro d m r hd
  by_cases hdc : d = c
  · subst hdc
    rw [Sits, Function.update_self] at hd
    cases hd
  · rw [sits_update_of_ne hdc] at hd
    obtain ⟨l, hl, hne, hdir⟩ := h.others hlisted ⟨old, hc⟩ hdc hd old
    exact ⟨l, hl, (Function.update_of_ne hne ..).trans hdir⟩

end Anchors

end ChatServer.Lib.Seating
