import Cprogramming.GameProtocol.Search

/-!
# The pairing of the players

The pairing that the tables of the server stand for, an invariant of the tables that
implies it, and that the sections of a thread keep the invariant where every match is
between two players that wait.
-/

namespace Cprogramming.GameProtocol.Pairs

open Server Search
open Library.Tables

set_option autoImplicit false

/-! ## The pairing -/

def HasEnemy (info : PlayerInfo) (player enemy : Nat) : Prop :=
  ∃ self, info.players[player]? = some self ∧ self.enemy = some enemy

def Joins (game : Match) (player : Nat) : Prop := player = game.p1 ∨ player = game.p2

/-- The matches pair the players that play, and `active` counts the others. -/
structure Pairing (info : PlayerInfo) : Prop where
  playing : ∀ (player : Nat) (self : Player), info.players[player]? = some self →
    self.status = .playing → ∃ game, info.matchAt self.matchId = some game ∧ Joins game player
  enemies : ∀ (index : Nat) (game : Match), info.matchList[index]? = some game →
    game.status = .active → HasEnemy info game.p1 game.p2 ∧ HasEnemy info game.p2 game.p1
  single : ∀ (index other : Nat) (game another : Match) (player : Nat),
    info.matchList[index]? = some game → info.matchList[other]? = some another →
    game.status = .active → another.status = .active →
    Joins game player → Joins another player → index = other
  counted : info.active = info.players.countP free

/-! ## The invariant of the tables -/

variable {info : PlayerInfo} {player index : Nat}

def Engaged (info : PlayerInfo) (player : Nat) (id : Int) (enemy : Nat) : Prop :=
  ∃ self, info.players[player]? = some self ∧ self.status = .playing ∧ self.matchId = id ∧
    self.enemy = some enemy

structure Paired (info : PlayerInfo) : Prop where
  matched : ∀ (index : Nat) (game : Match), info.matchList[index]? = some game →
    game.status = .active →
    Engaged info game.p1 (index + 1) game.p2 ∧ Engaged info game.p2 (index + 1) game.p1
  playing : ∀ (player : Nat) (self : Player), info.players[player]? = some self →
    self.status = .playing → self.enemy.isSome ∧
      ∃ game, info.matchAt self.matchId = some game ∧ Joins game player
  waiting : ∀ (player : Nat) (self : Player), info.players[player]? = some self →
    self.status = .waiting → self.enemy = none
  counted : info.active = info.players.countP free

theorem match_at_number (info : PlayerInfo) (index : Nat) :
    info.matchAt ((index : Int) + 1) = info.matchList[index]? := by
  have positive : (1 : Int) ≤ (index : Int) + 1 := by omega
  have same : ((index : Int) + 1 - 1).toNat = index := by omega
  rw [PlayerInfo.matchAt, if_pos positive, same]

theorem match_at_listed {id : Int} {game : Match} (lookup : info.matchAt id = some game) :
    ∃ index : Nat, id = index + 1 ∧ info.matchList[index]? = some game := by
  simp only [PlayerInfo.matchAt] at lookup
  split at lookup
  · exact ⟨(id - 1).toNat, by omega, lookup⟩
  · cases lookup

theorem match_at_append {before after : PlayerInfo} {later : List Match}
    (grown : after.matchList = before.matchList ++ later) {id : Int} {game : Match}
    (lookup : before.matchAt id = some game) : after.matchAt id = some game := by
  obtain ⟨index, rfl, listed⟩ := match_at_listed lookup
  obtain ⟨bound, _⟩ := List.getElem?_eq_some_iff.mp listed
  rw [match_at_number, grown, List.getElem?_append_left bound]
  exact listed

theorem engaged_unique {enemy other : Nat} {id another : Int}
    (first : Engaged info player id enemy) (second : Engaged info player another other) :
    id = another := by
  obtain ⟨self, here, _, rfl, _⟩ := first
  obtain ⟨same, again, _, rfl, _⟩ := second
  rw [here] at again
  cases again
  rfl

theorem engaged_of_joins (invariant : Paired info) {game : Match}
    (here : info.matchList[index]? = some game) (active : game.status = .active)
    (joins : Joins game player) : ∃ enemy, Engaged info player (index + 1) enemy := by
  obtain ⟨one, two⟩ := invariant.matched index game here active
  rcases joins with rfl | rfl
  · exact ⟨game.p2, one⟩
  · exact ⟨game.p1, two⟩

theorem paired_pairing (invariant : Paired info) : Pairing info where
  playing := fun player self here plays => (invariant.playing player self here plays).2
  enemies := by
    intro index game here active
    obtain ⟨⟨one, oneHere, _, _, oneEnemy⟩, ⟨two, twoHere, _, _, twoEnemy⟩⟩ :=
      invariant.matched index game here active
    exact ⟨⟨one, oneHere, oneEnemy⟩, ⟨two, twoHere, twoEnemy⟩⟩
  single := by
    intro index other game another player here there active alsoActive joins alsoJoins
    obtain ⟨enemy, engaged⟩ :=
      engaged_of_joins invariant here active joins
    obtain ⟨enemy', engaged'⟩ :=
      engaged_of_joins invariant there alsoActive alsoJoins
    have sameId := engaged_unique engaged engaged'
    omega
  counted := invariant.counted

/-! ### Registration -/

def registered (info : PlayerInfo) (name port : Text) : PlayerInfo :=
  ⟨info.players ++ [newPlayer name port], info.active + 1, info.matchList⟩

theorem nobody_alive {name : Text} (unknown : ∀ player ∈ info.players, player.name ≠ name) :
    (info.players.any fun player =>
      decide (player.name = name) && decide (player.status ≠ .dead)) = false := by
  rw [List.any_eq_false]
  intro player member
  simp [unknown player member]

theorem last_named_none {name : Text}
    (unknown : ∀ player ∈ info.players, player.name ≠ name) : lastNamed info name = none := by
  rw [lastNamed, List.getLast?_eq_none_iff, List.filter_eq_nil_iff]
  intro index _
  simp only [Option.any_eq_true, decide_eq_true_eq, not_exists, not_and]
  intro player here
  exact unknown player (List.mem_of_getElem? here)

theorem last_named_some {name : Text} {self : Player} (member : self ∈ info.players)
    (named : self.name = name) : lastNamed info name ≠ none := by
  obtain ⟨index, here⟩ := List.mem_iff_getElem?.mp member
  obtain ⟨bound, _⟩ := List.getElem?_eq_some_iff.mp here
  rw [lastNamed, Ne, List.getLast?_eq_none_iff, List.filter_eq_nil_iff]
  intro nobody
  refine nobody index (List.mem_range.mpr bound) ?_
  rw [here]
  simp [named]

theorem last_named_spec {name : Text} {previous : Nat}
    (last : lastNamed info name = some previous) :
    ∃ self, info.players[previous]? = some self ∧ self.name = name := by
  have member := List.mem_of_getLast? last
  simpa [Option.any_eq_true] using (List.mem_filter.mp member).2

theorem register_new {name : Text} (port : Text)
    (unknown : ∀ player ∈ info.players, player.name ≠ name) : register info name port =
      if info.players.length < maxPlayers then
        some (registered info name port, some info.players.length)
      else none := by
  simp only [register, nobody_alive unknown, last_named_none unknown,
    registered, Bool.false_eq_true, if_false]

theorem registered_kept (name port : Text) {self : Player}
    (here : info.players[player]? = some self) :
    (registered info name port).players[player]? = some self := by
  obtain ⟨bound, _⟩ := List.getElem?_eq_some_iff.mp here
  simp only [registered]
  rw [List.getElem?_append_left bound]
  exact here

theorem registered_cases {name port : Text} {self : Player}
    (here : (registered info name port).players[player]? = some self) :
    info.players[player]? = some self ∨ self = newPlayer name port := by
  simp only [registered, List.getElem?_append] at here
  split at here
  · exact Or.inl here
  · exact Or.inr (List.mem_singleton.mp (List.mem_of_getElem? here))

theorem paired_registered (name port : Text) (invariant : Paired info) :
    Paired (registered info name port) where
  matched := by
    have kept : ∀ player id enemy, Engaged info player id enemy →
        Engaged (registered info name port) player id enemy := by
      rintro player id enemy ⟨self, here, facts⟩
      exact ⟨self, registered_kept name port here, facts⟩
    intro index game here active
    obtain ⟨one, two⟩ := invariant.matched index game here active
    exact ⟨kept _ _ _ one, kept _ _ _ two⟩
  playing := by
    intro player self here plays
    rcases registered_cases here with old | rfl
    · exact invariant.playing player self old plays
    · cases plays
  waiting := by
    intro player self here waits
    rcases registered_cases here with old | rfl
    · exact invariant.waiting player self old waits
    · rfl
  counted := by
    have isFree : free (newPlayer name port) = true := rfl
    have counted := invariant.counted
    simp only [registered, List.countP_append, List.countP_singleton, isFree, if_true]
    omega

/-! ### A match -/

theorem pair_up_entry {next : PlayerInfo} {found : Nat} {self other : Player}
    (pair : PairedUp info next player found self other) {someone : Player}
    (here : next.players[index]? = some someone) :
    (someone.status = .playing ∧ someone.matchId = info.totalMatches ∧
        someone.enemy.isSome = true ∧ (index = player ∨ index = found)) ∨
      info.players[index]? = some someone := by
  obtain ⟨first, second, others, _, _⟩ := pair
  by_cases isPlayer : index = player
  · rw [isPlayer, first] at here
    cases here
    exact Or.inl ⟨rfl, rfl, rfl, Or.inl isPlayer⟩
  · by_cases isFound : index = found
    · rw [isFound, second] at here
      cases here
      exact Or.inl ⟨rfl, rfl, rfl, Or.inr isFound⟩
    · rw [others index isPlayer isFound] at here
      exact Or.inr here

theorem pair_up_kept {next : PlayerInfo} {found : Nat} {self other : Player}
    (selfHere : info.players[player]? = some self) (otherHere : info.players[found]? = some other)
    (selfWaits : self.status = .waiting) (otherWaits : other.status = .waiting)
    (pair : PairedUp info next player found self other) {someone : Player}
    (here : info.players[index]? = some someone) (busy : someone.status ≠ .waiting) :
    next.players[index]? = some someone := by
  obtain ⟨_, _, others, _, _⟩ := pair
  rw [others index, here]
  · rintro rfl
    rw [selfHere] at here
    cases here
    exact busy selfWaits
  · rintro rfl
    rw [otherHere] at here
    cases here
    exact busy otherWaits

theorem paired_pair_up {next : PlayerInfo} {found : Nat} {self other : Player}
    (selfHere : info.players[player]? = some self) (otherHere : info.players[found]? = some other)
    (selfWaits : self.status = .waiting) (otherWaits : other.status = .waiting)
    (apart : found ≠ player) (paired : pairUp info player found = some next)
    (invariant : Paired info) : Paired next := by
  have pair := pair_up_spec info next player found self other selfHere otherHere apart paired
  have recorded := pair.recorded
  have number : (info.totalMatches : Int) = (info.matchList.length : Int) + 1 := by
    simp [PlayerInfo.totalMatches]
  constructor
  case matched =>
    have kept : ∀ index id enemy, Engaged info index id enemy → Engaged next index id enemy := by
      rintro index id enemy ⟨someone, here, plays, facts⟩
      refine ⟨someone, pair_up_kept selfHere otherHere selfWaits
        otherWaits pair here ?_, plays, facts⟩
      rw [plays]
      decide
    intro index game here active
    rw [recorded, List.getElem?_append] at here
    split at here
    · obtain ⟨one, two⟩ := invariant.matched index game here active
      exact ⟨kept _ _ _ one, kept _ _ _ two⟩
    · have last : index = info.matchList.length := by
        obtain ⟨bound, _⟩ := List.getElem?_eq_some_iff.mp here
        simp only [List.length_singleton] at bound
        omega
      have isNew := List.mem_singleton.mp (List.mem_of_getElem? here)
      subst last isNew
      exact ⟨⟨_, pair.first, rfl, number, rfl⟩, ⟨_, pair.second, rfl, number, rfl⟩⟩
  case playing =>
    intro index someone here plays
    rcases pair_up_entry pair here with
      ⟨_, id, enemy, joins⟩ | before
    · refine ⟨enemy, ⟨player, found, .active, info.totalMatches⟩, ?_, joins⟩
      rw [id, number, match_at_number, recorded, List.getElem?_concat_length, number]
    · obtain ⟨enemy, game, lookup, joins⟩ := invariant.playing index someone before plays
      exact ⟨enemy, game, match_at_append recorded lookup, joins⟩
  case waiting =>
    intro index someone here waits
    rcases pair_up_entry pair here with
      ⟨plays, _⟩ | before
    · rw [plays] at waits
      cases waits
    · exact invariant.waiting index someone before waits
  case counted =>
    exact pair_up_counts info next player found self other selfHere otherHere apart
      (by simp [free, selfWaits]) (by simp [free, otherWaits]) paired invariant.counted

/-! ### A result -/

theorem paired_result {self : Player} {id : Int} (winName : List UInt8)
    (here : info.players[player]? = some self) (plays : self.status = .playing)
    (number : self.matchId = id) (invariant : Paired info) :
    Paired (result info player id winName) := by
  obtain ⟨_, game, lookup, _⟩ := invariant.playing player self here plays
  obtain ⟨position, idEq, listed⟩ := match_at_listed lookup
  have finished : (id - 1).toNat = position := by omega
  have others : ∀ index, index ≠ player →
      (result info player id winName).players[index]? = info.players[index]? := by
    intro index apart
    exact modify_other _ player index _ apart
  constructor
  case matched =>
    intro index ended listedAfter active
    simp only [result, finished] at listedAfter
    obtain ⟨before, listedBefore, ⟨rfl, rfl⟩ | ⟨apart, rfl⟩⟩ :=
      modify_some _ position index _ ended listedAfter
    · cases active
    · obtain ⟨one, two⟩ := invariant.matched index ended listedBefore active
      -- The player's own match has another number.
      have kept : ∀ someone enemy, Engaged info someone (index + 1) enemy →
          Engaged (result info player id winName) someone (index + 1) enemy := by
        rintro someone enemy ⟨entry, entryHere, facts⟩
        refine ⟨entry, ?_, facts⟩
        rw [others someone, entryHere]
        rintro rfl
        rw [here] at entryHere
        cases entryHere
        omega
      exact ⟨kept _ _ one, kept _ _ two⟩
  case playing =>
    intro index someone hereAfter playsAfter
    obtain ⟨before, hereBefore, ⟨rfl, rfl⟩ | ⟨_, rfl⟩⟩ :=
      modify_some _ player index _ someone hereAfter
    · cases playsAfter
    · obtain ⟨enemy, theirs, lookupBefore, joins⟩ :=
        invariant.playing index someone hereBefore playsAfter
      obtain ⟨place, numberEq, placed⟩ := match_at_listed lookupBefore
      refine ⟨enemy, ?_⟩
      rw [numberEq, match_at_number]
      simp only [result, finished]
      by_cases same : place = position
      · subst same
        exact ⟨_, modify_same _ place _ theirs placed, joins⟩
      · exact ⟨theirs, by rw [modify_other _ position place _ same, placed], joins⟩
  case waiting =>
    intro index someone hereAfter waits
    obtain ⟨before, hereBefore, ⟨rfl, rfl⟩ | ⟨_, rfl⟩⟩ :=
      modify_some _ player index _ someone hereAfter
    · cases waits
    · exact invariant.waiting index someone hereBefore waits
  case counted =>
    have counts := count_modify info.players player
      (fun self => { self with stats := score self winName, status := .dead }) self here free
    have before : free self = false := by simp [free, plays]
    have after : free { self with stats := score self winName, status := .dead } = true := rfl
    rw [before, after] at counts
    simp only [Bool.false_eq_true, if_false, if_true] at counts
    have counted := invariant.counted
    simp only [result]
    omega

/-! ### The assignments of a dead player -/

theorem paired_dead (change : Player → Player) {self : Player}
    (here : info.players[player]? = some self) (dead : self.status = .dead)
    (stays : (change self).status = .dead) (invariant : Paired info) :
    Paired { info with players := info.players.modify player change } := by
  have changed : ∀ (index : Nat) (someone : Player),
      (info.players.modify player change)[index]? = some someone → someone.status ≠ .dead →
      info.players[index]? = some someone := by
    intro index someone hereAfter alive
    obtain ⟨before, hereBefore, ⟨rfl, rfl⟩ | ⟨_, rfl⟩⟩ :=
      modify_some _ player index _ someone hereAfter
    · rw [here] at hereBefore
      cases hereBefore
      exact absurd stays alive
    · exact hereBefore
  constructor
  case matched =>
    have kept : ∀ index id enemy, Engaged info index id enemy →
        Engaged { info with players := info.players.modify player change } index id enemy := by
      rintro index id enemy ⟨entry, entryHere, plays, facts⟩
      refine ⟨entry, ?_, plays, facts⟩
      rw [modify_other _ player index _, entryHere]
      rintro rfl
      rw [here] at entryHere
      cases entryHere
      rw [dead] at plays
      cases plays
    intro index game listed active
    obtain ⟨one, two⟩ := invariant.matched index game listed active
    exact ⟨kept _ _ _ one, kept _ _ _ two⟩
  case playing =>
    intro index someone hereAfter plays
    exact invariant.playing index someone
      (changed index someone hereAfter (by rw [plays]; decide)) plays
  case waiting =>
    intro index someone hereAfter waits
    exact invariant.waiting index someone
      (changed index someone hereAfter (by rw [waits]; decide)) waits
  case counted =>
    have counts := count_modify info.players player change self here free
    have before : free self = true := by simp [free, dead]
    have after : free (change self) = true := by simp [free, stays]
    rw [before, after] at counts
    have counted := invariant.counted
    simp only
    omega

end Cprogramming.GameProtocol.Pairs
