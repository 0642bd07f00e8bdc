import Cprogramming.GameProtocol.Matches

/-!
# What a section does to the record of a player

Every step of a thread changes the record of its own player; the record of another
player changes only when the step matches it.
-/

namespace Cprogramming.GameProtocol.Records

open Server Search Pairs Matches
open Library.Tables

set_option autoImplicit false

def ByMatch (before after : PlayerInfo) (index : Nat) (self : Player) : Prop :=
  ∃ game, before.matchAt self.matchId = none ∧ after.matchAt self.matchId = some game ∧
    (game.p1 = index ∧ self.enemy = some game.p2 ∨ game.p2 = index ∧ self.enemy = some game.p1)

/-- `matches[match_id]` can be read. -/
def Linked (info : PlayerInfo) (self : Player) : Prop := (info.matchAt self.matchId).isSome = true

variable {before after : PlayerInfo}

theorem match_at_none_before {later : List Match}
    (grown : after.matchList = before.matchList ++ later) {id : Int}
    (missing : after.matchAt id = none) : before.matchAt id = none := by
  cases lookup : before.matchAt id with
  | none => rfl
  | some game =>
    rw [match_at_append grown lookup] at missing
    cases missing

theorem by_match_linked {index : Nat} {self : Player} (matched : ByMatch before after index self) :
    self.enemy.isSome = true ∧ Linked after self := by
  obtain ⟨game, _, lookup, ⟨_, enemy⟩ | ⟨_, enemy⟩⟩ := matched
  · exact ⟨by rw [enemy]; rfl, by rw [Linked, lookup]; rfl⟩
  · exact ⟨by rw [enemy]; rfl, by rw [Linked, lookup]; rfl⟩

/-! ## The matches of a search -/

variable {player found : Nat} {info next : PlayerInfo} {self : Player}

structure Rematched (player : Nat) (before after : PlayerInfo) : Prop where
  grown : ∃ later, after.matchList = before.matchList ++ later
  each : ∀ (index : Nat) (self : Player), before.players[index]? = some self →
    ∃ next, after.players[index]? = some next ∧ next.name = self.name ∧
      (next = self ∨ (index = player ∨ self.status = .waiting) ∧ next.status = .playing ∧
        ByMatch before after index next)
  size : after.players.length = before.players.length

theorem rematched_refl (player : Nat) (info : PlayerInfo) : Rematched player info info where
  grown := ⟨[], (List.append_nil _).symm⟩
  each := fun _ self here => ⟨self, here, rfl, Or.inl rfl⟩
  size := rfl

theorem rematched_trans {middle : PlayerInfo} (first : Rematched player before middle)
    (second : Rematched player middle after) : Rematched player before after := by
  obtain ⟨earlier, grownFirst⟩ := first.grown
  obtain ⟨later, grownSecond⟩ := second.grown
  refine ⟨⟨earlier ++ later, ?_⟩, ?_, second.size.trans first.size⟩
  · rw [grownSecond, grownFirst, List.append_assoc]
  · intro index self here
    obtain ⟨between, middleHere, sameName, change⟩ := first.each index self here
    obtain ⟨next, afterHere, sameName', change'⟩ := second.each index between middleHere
    refine ⟨next, afterHere, sameName'.trans sameName, ?_⟩
    rcases change' with rfl | ⟨who, plays, game, missing, lookup, sides⟩
    · rcases change with rfl | ⟨who, plays, game, missing, lookup, sides⟩
      · exact Or.inl rfl
      · exact Or.inr ⟨who, plays, game, missing, match_at_append grownSecond lookup, sides⟩
    · refine Or.inr ⟨?_, plays, game,
        match_at_none_before grownFirst missing, lookup, sides⟩
      rcases change with rfl | ⟨who', _⟩
      · exact who
      · exact who'

theorem pair_up_lookup (paired : pairUp info player found = some next) :
    info.matchAt info.totalMatches = none ∧
      next.matchAt info.totalMatches = some ⟨player, found, .active, info.totalMatches⟩ := by
  have number : (info.totalMatches : Int) = (info.matchList.length : Int) + 1 := by
    simp [PlayerInfo.totalMatches]
  obtain ⟨_, _, recorded⟩ := pair_up_value info next player found paired
  constructor
  · rw [number, match_at_number, List.getElem?_eq_none (Nat.le_refl _)]
  · rw [number, match_at_number, recorded, List.getElem?_concat_length, number]

theorem rematched_pair_up (here : info.players[player]? = some self)
    (waits : waitingOther info player found = true)
    (paired : pairUp info player found = some next) : Rematched player info next := by
  obtain ⟨apart, other, otherHere, otherWaits⟩ := (waiting_other_iff info player found).mp waits
  obtain ⟨first, second, others, size, recorded⟩ :=
    pair_up_spec info next player found self other here otherHere apart paired
  obtain ⟨missing, lookup⟩ := pair_up_lookup paired
  refine ⟨⟨_, recorded⟩, ?_, size⟩
  intro index someone there
  by_cases isPlayer : index = player
  · subst isPlayer
    rw [here] at there
    cases there
    exact ⟨_, first, rfl, Or.inr ⟨Or.inl rfl, rfl, _, missing, lookup, Or.inl ⟨rfl, rfl⟩⟩⟩
  · by_cases isFound : index = found
    · subst isFound
      rw [otherHere] at there
      cases there
      exact ⟨_, second, rfl, Or.inr ⟨Or.inr otherWaits, rfl, _, missing, lookup, Or.inr ⟨rfl, rfl⟩⟩⟩
    · exact ⟨someone, by rw [others index isPlayer isFound]; exact there, rfl, Or.inl rfl⟩

def Opposed (info : PlayerInfo) (player : Nat) : Prop :=
  ∃ self, info.players[player]? = some self ∧ self.enemy.isSome = true ∧ Linked info self

theorem opposed_pair_up (here : info.players[player]? = some self)
    (waits : waitingOther info player found = true)
    (paired : pairUp info player found = some next) : Opposed next player := by
  obtain ⟨apart, other, otherHere, _⟩ := (waiting_other_iff info player found).mp waits
  have first := (pair_up_spec info next player found self other here otherHere apart paired).first
  obtain ⟨_, lookup⟩ := pair_up_lookup paired
  refine ⟨_, first, rfl, ?_⟩
  rw [Linked, Player.engage, lookup]
  rfl

theorem rematched_matches (player : Nat) (indices : List Nat) (distinct : indices.Nodup)
    (state final : PlayerInfo × Option Int) (self : Player)
    (here : state.1.players[player]? = some self)
    (waiting : ∀ index ∈ indices, waitingOther state.1 player index = true)
    (ran : indices.foldlM (matchNext player) state = some final) :
    Rematched player state.1 final.1 ∧
      (final = state ∨ final.2.isSome = true ∧ Opposed final.1 player) := by
  induction indices generalizing state self with
  | nil =>
    have same : state = final := Option.some.inj ran
    subst same
    exact ⟨rematched_refl player state.1, Or.inl rfl⟩
  | cons index rest ih =>
    obtain ⟨fresh, restDistinct⟩ := List.nodup_cons.mp distinct
    rw [List.foldlM_cons] at ran
    obtain ⟨middle, matched, others⟩ := Option.bind_eq_some_iff.mp ran
    obtain ⟨info, paired, rfl⟩ := Option.map_eq_some_iff.mp matched
    have waits := waiting index List.mem_cons_self
    have one := rematched_pair_up here waits paired
    obtain ⟨next, there, _⟩ := one.each player self here
    have opposed := opposed_pair_up here waits paired
    have stillWaiting : ∀ other ∈ rest, waitingOther info player other = true := by
      intro other member
      rw [waiting_other_after state.1 info player index other
        (fun same => fresh (same ▸ member)) paired]
      exact waiting other (List.mem_cons_of_mem _ member)
    obtain ⟨more, ended⟩ := ih restDistinct (info, some (state.1.totalMatches : Int)) next there
      stillWaiting others
    refine ⟨rematched_trans one more, Or.inr ?_⟩
    rcases ended with same | ended
    · rw [same]
      exact ⟨rfl, opposed⟩
    · exact ended

theorem search_rematched {found : Option Int} (here : info.players[player]? = some self)
    (searched : search info player = some (next, found)) : Rematched player info next ∧
      (found.isSome = true ∧ Opposed next player ∨ found = none ∧ next = info) := by
  simp only [search, here] at searched
  cases enemy : self.enemy with
  | some other =>
    simp only [enemy] at searched
    obtain ⟨game, lookup, same⟩ := Option.map_eq_some_iff.mp searched
    cases same
    refine ⟨rematched_refl player info, Or.inl ⟨rfl, self, here, ?_, ?_⟩⟩
    · rw [enemy]
      rfl
    · rw [Linked, lookup]
      rfl
  | none =>
    simp only [enemy] at searched
    split at searched
    · rw [scan_is_matches] at searched
      obtain ⟨rematched, ended⟩ := rematched_matches player (waitingOthers info player)
        (List.nodup_range.filter _) (info, none) (next, found) self here
        (fun index member => (List.mem_filter.mp member).2) searched
      refine ⟨rematched, ?_⟩
      rcases ended with same | ended
      · cases same
        exact Or.inr ⟨rfl, rfl⟩
      · exact Or.inl ended
    · cases searched
      exact ⟨rematched_refl player info, Or.inr ⟨rfl, rfl⟩⟩

/-! ## Registration -/

theorem register_cases (info next : PlayerInfo) (name port : Text) (found : Option Nat)
    (ran : register info name port = some (next, found)) :
    (next = info ∧ found = none ∧
        ∃ self ∈ info.players, self.name = name ∧ self.status ≠ .dead) ∨
      (∃ previous self, info.players[previous]? = some self ∧ self.name = name ∧
        (∀ other ∈ info.players, other.name = name → other.status = .dead) ∧ found = some previous ∧
        next = { info with players := info.players.modify previous fun player =>
          { player with status := .waiting, port := port } }) ∨
      (∀ self ∈ info.players, self.name ≠ name) ∧ found = some info.players.length ∧
        next = registered info name port := by
  by_cases alive : (info.players.any fun player =>
      decide (player.name = name) && decide (player.status ≠ .dead)) = true
  · simp only [register, alive, if_true] at ran
    cases ran
    obtain ⟨self, member, facts⟩ := List.any_eq_true.mp alive
    simp only [Bool.and_eq_true, decide_eq_true_eq] at facts
    exact Or.inl ⟨rfl, rfl, self, member, facts⟩
  · have dead : ∀ other ∈ info.players, other.name = name → other.status = .dead := by
      intro other member named
      by_contra living
      exact alive (List.any_eq_true.mpr ⟨other, member, by simp [named, living]⟩)
    by_cases known : ∃ self ∈ info.players, self.name = name
    · obtain ⟨someone, member, named⟩ := known
      simp only [register, Bool.not_eq_true _ ▸ alive, Bool.false_eq_true, if_false] at ran
      cases last : lastNamed info name with
      | none => exact absurd last (last_named_some member named)
      | some previous =>
        simp only [last] at ran
        cases ran
        obtain ⟨self, here, selfNamed⟩ := last_named_spec last
        exact Or.inr (Or.inl ⟨previous, self, here, selfNamed, dead, rfl, rfl⟩)
    · have unknown : ∀ self ∈ info.players, self.name ≠ name :=
        fun self member named => known ⟨self, member, named⟩
      rw [register_new port unknown] at ran
      split at ran
      · cases ran
        exact Or.inr (Or.inr ⟨unknown, rfl, rfl⟩)
      · cases ran

/-! ## One step -/

variable (world : World) (name : Text)

def served : Phase → Option Nat
  | .connecting | .closed => none
  | .searching player | .playing player _ | .clearing player | .leaving player => some player

/-- The player that a thread of the name serves is in the table under that name. -/
def Serves (info : PlayerInfo) (name : Text) (phase : Phase) : Prop :=
  ∀ player, served phase = some player →
    ∃ self, info.players[player]? = some self ∧ self.name = name

/-- What a step of a thread with the player of that name does to the tables. -/
structure Moves (name : Text) (before after : PlayerInfo) : Prop where
  grown : before.matchList.length ≤ after.matchList.length
  kept : ∀ (index : Nat) (self : Player), before.players[index]? = some self →
    ∃ next, after.players[index]? = some next ∧ next.name = self.name ∧
      (self.name = name ∨ next = self ∨ self.status = .waiting ∧ next.status = .playing ∧
        ByMatch before after index next)
  names : after.players.map Player.name = before.players.map Player.name ∨
    name ∉ before.players.map Player.name ∧
      after.players.map Player.name = before.players.map Player.name ++ [name]

theorem match_at_some_iff (info : PlayerInfo) (id : Int) :
    (info.matchAt id).isSome = true ↔ 1 ≤ id ∧ (id - 1).toNat < info.matchList.length := by
  rw [PlayerInfo.matchAt]
  split
  · next positive => simp [positive]
  · next negative => simp [negative]

theorem moves_linked (before after : PlayerInfo) (moves : Moves name before after) (self : Player)
    (linked : Linked before self) : Linked after self := by
  rw [Linked, match_at_some_iff] at linked ⊢
  exact ⟨linked.1, Nat.lt_of_lt_of_le linked.2 moves.grown⟩

theorem moves_serves (before after : PlayerInfo) (moves : Moves name before after)
    (holder : Text) (phase : Phase) (serves : Serves before holder phase) :
    Serves after holder phase := by
  intro player serving
  obtain ⟨self, here, named⟩ := serves player serving
  obtain ⟨next, there, sameName, _⟩ := moves.kept player self here
  exact ⟨next, there, sameName.trans named⟩

theorem moves_refl (info : PlayerInfo) : Moves name info info where
  grown := Nat.le_refl _
  kept := fun _ self here => ⟨self, here, rfl, Or.inr (Or.inl rfl)⟩
  names := Or.inl rfl

theorem moves_modify (before after : PlayerInfo) (player : Nat) (change : Player → Player)
    (self : Player) (here : before.players[player]? = some self) (own : self.name = name)
    (changed : after.players = before.players.modify player change)
    (keeps : ∀ someone, (change someone).name = someone.name)
    (grown : before.matchList.length ≤ after.matchList.length) : Moves name before after where
  grown := grown
  kept := by
    intro index someone there
    rw [changed]
    by_cases same : index = player
    · subst same
      rw [here] at there
      cases there
      exact ⟨_, modify_same _ index change self here, keeps self, Or.inl own⟩
    · rw [modify_other _ player index change same]
      exact ⟨someone, there, rfl, Or.inr (Or.inl rfl)⟩
  names := by
    rw [changed, map_modify before.players player change Player.name keeps]
    exact Or.inl rfl

theorem moves_registered {name : Text} (port : Text)
    (unknown : ∀ self ∈ info.players, self.name ≠ name) :
    Moves name info (registered info name port) where
  grown := Nat.le_refl _
  kept := fun index self here =>
    ⟨self, registered_kept name port here, rfl, Or.inr (Or.inl rfl)⟩
  names := by
    refine Or.inr ⟨?_, by simp [registered, newPlayer]⟩
    intro listed
    obtain ⟨self, member, named⟩ := List.mem_map.mp listed
    exact unknown self member named

theorem moves_rematched {name : Text} (here : before.players[player]? = some self)
    (own : self.name = name) (rematched : Rematched player before after) :
    Moves name before after where
  grown := by
    obtain ⟨later, grown⟩ := rematched.grown
    rw [grown, List.length_append]
    omega
  kept := by
    intro index someone there
    obtain ⟨next, nextHere, sameName, change⟩ := rematched.each index someone there
    refine ⟨next, nextHere, sameName, ?_⟩
    rcases change with same | ⟨rfl | waits, plays, matched⟩
    · exact Or.inr (Or.inl same)
    · rw [here] at there
      cases there
      exact Or.inl own
    · exact Or.inr (Or.inr ⟨waits, plays, matched⟩)
  names := by
    refine Or.inl (List.ext_getElem? fun index => ?_)
    rw [List.getElem?_map, List.getElem?_map]
    cases there : before.players[index]? with
    | none =>
      have outside : before.players.length ≤ index := List.getElem?_eq_none_iff.mp there
      rw [List.getElem?_eq_none (by rw [rematched.size]; exact outside)]
    | some someone =>
      obtain ⟨next, nextHere, sameName, _⟩ := rematched.each index someone there
      rw [nextHere, Option.map_some, Option.map_some, sameName]

theorem advance_moves (next : World) (action : Action) (thread : Thread)
    (serves : Serves world.info thread.name thread.phase)
    (ran : advance world action thread = some next) : Moves thread.name world.info next.info := by
  obtain ⟨name, port, phase⟩ := thread
  cases phase with
  | connecting =>
    obtain ⟨⟨info, found⟩, registration, rfl⟩ := Option.map_eq_some_iff.mp ran
    obtain ⟨rfl, _⟩ | ⟨previous, self, here, own, _, _, rfl⟩ | ⟨unknown, _, rfl⟩ :=
      register_cases world.info info name port found registration
    · exact moves_refl name world.info
    · exact moves_modify name world.info _ previous _ self here own rfl (fun _ => rfl)
        (Nat.le_refl _)
    · exact moves_registered port unknown
  | searching player =>
    obtain ⟨⟨info, found⟩, searched, rfl⟩ := Option.map_eq_some_iff.mp ran
    obtain ⟨self, here, own⟩ := serves player rfl
    obtain ⟨rematched, _⟩ := search_rematched here searched
    exact moves_rematched here own rematched
  | playing player id =>
    cases ran
    obtain ⟨self, here, own⟩ := serves player rfl
    refine moves_modify name world.info _ player _ self here own rfl (fun _ => rfl) ?_
    simp [World.moved, result]
  | clearing player | leaving player =>
    cases ran
    obtain ⟨self, here, own⟩ := serves player rfl
    exact moves_modify name world.info _ player _ self here own rfl (fun _ => rfl) (Nat.le_refl _)
  | closed =>
    cases ran
    exact moves_refl name world.info

/-! ### One record for each name -/

theorem same_place (info : PlayerInfo) (distinct : (info.players.map Player.name).Nodup)
    (one two : Nat) (self other : Player) (here : info.players[one]? = some self)
    (there : info.players[two]? = some other) (named : self.name = other.name) : one = two := by
  obtain ⟨bound, _⟩ := List.getElem?_eq_some_iff.mp here
  have within : one < (info.players.map Player.name).length := by
    rw [List.length_map]
    exact bound
  refine (List.getElem?_inj within distinct).mp ?_
  rw [List.getElem?_map, List.getElem?_map, here, there, Option.map_some, Option.map_some, named]

theorem moves_distinct (before after : PlayerInfo) (moves : Moves name before after)
    (distinct : (before.players.map Player.name).Nodup) :
    (after.players.map Player.name).Nodup := by
  rcases moves.names with same | ⟨absent, grown⟩
  · rw [same]
    exact distinct
  · rw [grown]
    refine List.nodup_append.mpr ⟨distinct, List.nodup_cons.mpr ⟨List.not_mem_nil, List.nodup_nil⟩,
      ?_⟩
    rintro old member new isNew rfl
    rw [List.mem_singleton.mp isNew] at member
    exact absent member

theorem moves_back (before after : PlayerInfo) (moves : Moves name before after) (index : Nat)
    (next : Player) (there : after.players[index]? = some next) (apart : next.name ≠ name) :
    ∃ self, before.players[index]? = some self ∧ self.name = next.name ∧
      (next = self ∨ self.status = .waiting ∧ next.status = .playing ∧
        ByMatch before after index next) := by
  have listed : (after.players.map Player.name)[index]? = some next.name := by
    rw [List.getElem?_map, there, Option.map_some]
  have old : (before.players.map Player.name)[index]? = some next.name := by
    rcases moves.names with same | ⟨_, grown⟩
    · rw [same] at listed
      exact listed
    · rw [grown, List.getElem?_append] at listed
      split at listed
      · exact listed
      · exact absurd (List.mem_singleton.mp (List.mem_of_getElem? listed)) apart
  rw [List.getElem?_map] at old
  obtain ⟨self, here, named⟩ := Option.map_eq_some_iff.mp old
  obtain ⟨same, sameHere, _, own | change⟩ := moves.kept index self here
  · exact absurd (named.symm.trans own) apart
  · rw [there] at sameHere
    cases sameHere
    exact ⟨self, here, named, change⟩

theorem modified_record (before after : PlayerInfo) (player index : Nat)
    (change : Player → Player) (self next : Player) (here : before.players[player]? = some self)
    (distinct : (before.players.map Player.name).Nodup)
    (changed : after.players = before.players.modify player change)
    (there : after.players[index]? = some next) (named : next.name = self.name) :
    next = change self := by
  rw [changed] at there
  obtain ⟨old, oldHere, ⟨rfl, rfl⟩ | ⟨apart, rfl⟩⟩ := modify_some _ player index change next there
  · rw [here] at oldHere
    cases oldHere
    rfl
  · exact absurd (same_place before distinct index player next self oldHere here named) apart

/-! ### The phases of the threads -/

/-- A thread has moved on to a phase; the other threads are where they were. -/
structure Stepped (world next : World) (index : Nat) (thread : Thread) (phase : Phase) :
    Prop where
  moved : next.threads[index]? = some { thread with phase := phase }
  rest : ∀ position, position ≠ index → next.threads[position]? = world.threads[position]?
  serves : Serves next.info thread.name phase

theorem stepped_moved (index : Nat) (thread : Thread) (info : PlayerInfo) (phase : Phase)
    (here : world.threads[index]? = some thread) (serves : Serves info thread.name phase) :
    Stepped world (world.moved index info phase) index thread phase where
  moved := modify_same world.threads index _ thread here
  rest := fun position apart => modify_other world.threads index position _ apart
  serves := serves

theorem advance_stepped (next : World) (action : Action) (thread : Thread)
    (here : world.threads[action.thread]? = some thread)
    (serves : Serves world.info thread.name thread.phase)
    (ran : advance world action thread = some next) :
    ∃ phase, Stepped world next action.thread thread phase := by
  have moves := advance_moves world next action thread serves ran
  have kept := moves_serves _ _ _ moves thread.name thread.phase serves
  obtain ⟨name, port, phase⟩ := thread
  cases phase with
  | connecting =>
    obtain ⟨⟨info, found⟩, registration, rfl⟩ := Option.map_eq_some_iff.mp ran
    obtain ⟨rfl, rfl, _⟩ | ⟨previous, self, there, own, _, rfl, rfl⟩ | ⟨_, rfl, rfl⟩ :=
      register_cases world.info info name port found registration
    · exact ⟨_, stepped_moved world _ _ _ _ here fun _ impossible => by cases impossible⟩
    · refine ⟨_, stepped_moved world _ _ _ (.searching previous) here ?_⟩
      rintro player ⟨⟩
      exact ⟨_, modify_same _ previous _ self there, own⟩
    · refine ⟨_, stepped_moved world _ _ _ (.searching world.info.players.length) here ?_⟩
      rintro player ⟨⟩
      exact ⟨newPlayer name port, List.getElem?_concat_length, rfl⟩
  | searching player =>
    obtain ⟨⟨info, found⟩, _, rfl⟩ := Option.map_eq_some_iff.mp ran
    cases found with
    | some id => exact ⟨_, stepped_moved world _ _ _ (.playing player id) here kept⟩
    | none => exact ⟨_, stepped_moved world _ _ _ (.searching player) here kept⟩
  | playing player id =>
    cases ran
    exact ⟨_, stepped_moved world _ _ _ (.clearing player) here kept⟩
  | clearing player =>
    cases ran
    exact ⟨_, stepped_moved world _ _ _ (.leaving player) here kept⟩
  | leaving player =>
    cases ran
    exact ⟨_, stepped_moved world _ _ _ .closed here fun _ impossible => by cases impossible⟩
  | closed =>
    cases ran
    exact ⟨.closed, here, fun _ _ => rfl, fun _ impossible => by cases impossible⟩

theorem serves_stepped (next : World) (index : Nat) (thread : Thread) (phase : Phase)
    (moves : Moves thread.name world.info next.info)
    (stepped : Stepped world next index thread phase)
    (serves : ∀ thread ∈ world.threads, Serves world.info thread.name thread.phase) :
    ∀ thread ∈ next.threads, Serves next.info thread.name thread.phase := by
  intro someone member
  obtain ⟨position, there⟩ := List.mem_iff_getElem?.mp member
  by_cases same : position = index
  · rw [same, stepped.moved] at there
    cases there
    exact stepped.serves
  · rw [stepped.rest position same] at there
    exact moves_serves _ _ _ moves someone.name someone.phase
      (serves someone (List.mem_of_getElem? there))

end Cprogramming.GameProtocol.Records
