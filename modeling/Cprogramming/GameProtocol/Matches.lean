import Cprogramming.GameProtocol.Pairs
import Cprogramming.Library.Runs

/-!
# Match-making by the threads of the server

The search of a thread matches its player with every other player that waits, so
the matches are a pairing exactly as long as every search finds at most one of them
and no table is full.
-/

namespace Cprogramming.GameProtocol.Matches

open Server Search Pairs
open Library.Tables Library.Runs

set_option autoImplicit false

/-- A run that has left a table is not a pairing. -/
def Sound : Option World → Prop
  | some world => Pairing world.info
  | none => False

/-- The player searches: its thread has not found an enemy and others are about. -/
def Searches (info : PlayerInfo) (player : Nat) : Prop :=
  (∃ self, info.players[player]? = some self ∧ self.enemy = none) ∧ 0 < info.active - 1

/-- What a step of a thread needs: a place in `players` for its registration; at most
one other waiting player for its search, with a place in `matches` for that one. -/
def Orderly (info : PlayerInfo) : Phase → Prop
  | .connecting => info.players.length < maxPlayers
  | .searching player => Searches info player → (waitingOthers info player).length ≤ 1 ∧
      (waitingOthers info player ≠ [] → info.totalMatches < maxMatches)
  | _ => True

def OrderlyStep (world : Option World) (action : Action) : Prop :=
  ∀ before thread, world = some before → before.threads[action.thread]? = some thread →
    Orderly before.info thread.phase

instance (info : PlayerInfo) (player : Nat) : Decidable (Searches info player) :=
  decidable_of_iff
    (((info.players[player]?).any fun self => self.enemy.isNone) = true ∧ 0 < info.active - 1)
    (by simp [Searches, Option.any_eq_true])

instance (info : PlayerInfo) : (phase : Phase) → Decidable (Orderly info phase)
  | .connecting => inferInstanceAs (Decidable (_ < _))
  | .searching _ => inferInstanceAs (Decidable (_ → _))
  | .playing _ _ | .clearing _ | .leaving _ | .closed => .isTrue trivial

instance (world : Option World) (action : Action) : Decidable (OrderlyStep world action) :=
  decidable_of_iff
    (∀ before ∈ world, ∀ thread ∈ before.threads[action.thread]?, Orderly before.info thread.phase)
    ⟨fun orderly before thread same here => orderly before same thread here,
      fun orderly before same thread here => orderly before thread same here⟩

/-! ## Where the threads stand -/

variable {player : Nat} {self : Player} {info next : PlayerInfo} {thread : Thread} {world : World}

def Stands (info : PlayerInfo) (thread : Thread) : Prop :=
  match thread.phase with
  | .connecting => ∀ self ∈ info.players, self.name ≠ thread.name
  | .searching player => ∃ self, info.players[player]? = some self ∧ self.name = thread.name ∧
      self.status ≠ .dead
  | .playing player id => ∃ self, info.players[player]? = some self ∧ self.name = thread.name ∧
      self.status = .playing ∧ self.matchId = id
  | .clearing player | .leaving player => ∃ self, info.players[player]? = some self ∧
      self.name = thread.name ∧ self.status = .dead
  | .closed => True

structure Threaded (world : World) : Prop where
  distinct : (world.threads.map Thread.name).Nodup
  stands : ∀ thread ∈ world.threads, Stands world.info thread

/-- Apart from the player of that name, a section only turns waiting players into
playing ones. -/
structure Touches (name : Text) (before after : PlayerInfo) : Prop where
  kept : ∀ (index : Nat) (self : Player), before.players[index]? = some self →
    ∃ next, after.players[index]? = some next ∧ next.name = self.name ∧
      (self.name = name ∨ self.status = .waiting ∧ next.status = .playing ∨
        next.status = self.status ∧ next.matchId = self.matchId)
  named : ∀ next ∈ after.players, next.name = name ∨ ∃ self ∈ before.players, self.name = next.name

theorem touches_nothing (name : Text) (info : PlayerInfo) : Touches name info info where
  kept := fun _ self here => ⟨self, here, rfl, Or.inr (Or.inr ⟨rfl, rfl⟩)⟩
  named := fun next member => Or.inr ⟨next, member, rfl⟩

theorem touches_registered (info : PlayerInfo) (name port : Text) :
    Touches name info (registered info name port) where
  kept := fun index self here =>
    ⟨self, registered_kept name port here, rfl, Or.inr (Or.inr ⟨rfl, rfl⟩)⟩
  named := by
    intro next member
    rcases List.mem_append.mp member with old | new
    · exact Or.inr ⟨next, old, rfl⟩
    · cases List.mem_singleton.mp new
      exact Or.inl rfl

theorem touches_modify {name : Text} {before after : PlayerInfo} (change : Player → Player)
    (here : before.players[player]? = some self) (own : self.name = name)
    (changed : after.players = before.players.modify player change)
    (keeps : ∀ someone, (change someone).name = someone.name) : Touches name before after where
  kept := by
    intro index someone there
    rw [changed]
    by_cases same : index = player
    · subst same
      rw [here] at there
      cases there
      exact ⟨_, modify_same _ index change self here, keeps self, Or.inl own⟩
    · rw [modify_other _ player index change same]
      exact ⟨someone, there, rfl, Or.inr (Or.inr ⟨rfl, rfl⟩)⟩
  named := by
    intro next member
    rw [changed] at member
    obtain ⟨index, there⟩ := List.mem_iff_getElem?.mp member
    obtain ⟨old, oldHere, ⟨_, rfl⟩ | ⟨_, rfl⟩⟩ := modify_some _ player index change next there
    · exact Or.inr ⟨old, List.mem_of_getElem? oldHere, (keeps old).symm⟩
    · exact Or.inr ⟨next, List.mem_of_getElem? oldHere, rfl⟩

theorem touches_pair_up {found : Nat} {other : Player}
    (selfHere : info.players[player]? = some self) (otherHere : info.players[found]? = some other)
    (otherWaits : other.status = .waiting) (apart : found ≠ player)
    (paired : pairUp info player found = some next) : Touches self.name info next := by
  obtain ⟨first, second, others, _, _⟩ :=
    pair_up_spec info next player found self other selfHere otherHere apart paired
  constructor
  case kept =>
    intro index someone there
    by_cases isPlayer : index = player
    · subst isPlayer
      rw [selfHere] at there
      cases there
      exact ⟨_, first, rfl, Or.inl rfl⟩
    · by_cases isFound : index = found
      · subst isFound
        rw [otherHere] at there
        cases there
        exact ⟨_, second, rfl, Or.inr (Or.inl ⟨otherWaits, rfl⟩)⟩
      · exact ⟨someone, by rw [others index isPlayer isFound, there], rfl,
          Or.inr (Or.inr ⟨rfl, rfl⟩)⟩
  case named =>
    intro someone member
    obtain ⟨index, there⟩ := List.mem_iff_getElem?.mp member
    by_cases isPlayer : index = player
    · subst isPlayer
      rw [first] at there
      cases there
      exact Or.inl rfl
    · by_cases isFound : index = found
      · subst isFound
        rw [second] at there
        cases there
        exact Or.inr ⟨other, List.mem_of_getElem? otherHere, rfl⟩
      · rw [others index isPlayer isFound] at there
        exact Or.inr ⟨someone, List.mem_of_getElem? there, rfl⟩

theorem stands_other {name : Text} {before after : PlayerInfo}
    (touches : Touches name before after) (apart : thread.name ≠ name)
    (stands : Stands before thread) : Stands after thread := by
  have follow : ∀ (index : Nat) (self : Player), before.players[index]? = some self →
      self.name = thread.name → ∃ next, after.players[index]? = some next ∧
        next.name = thread.name ∧ (self.status = .waiting ∧ next.status = .playing ∨
          next.status = self.status ∧ next.matchId = self.matchId) := by
    intro index self here own
    obtain ⟨next, there, sameName, theirs | change⟩ := touches.kept index self here
    · exact absurd (own.symm.trans theirs) apart
    · exact ⟨next, there, sameName.trans own, change⟩
  obtain ⟨threadName, port, phase⟩ := thread
  cases phase with
  | connecting =>
    intro next member same
    rcases touches.named next member with theirs | ⟨self, old, sameName⟩
    · exact apart (same.symm.trans theirs)
    · exact stands self old (sameName.trans same)
  | searching player =>
    obtain ⟨self, here, own, alive⟩ := stands
    obtain ⟨next, there, sameName, ⟨_, plays⟩ | ⟨sameStatus, _⟩⟩ := follow player self here own
    · exact ⟨next, there, sameName, by rw [plays]; decide⟩
    · exact ⟨next, there, sameName, by rw [sameStatus]; exact alive⟩
  | playing player id =>
    obtain ⟨self, here, own, plays, number⟩ := stands
    obtain ⟨next, there, sameName, ⟨waits, _⟩ | ⟨sameStatus, sameNumber⟩⟩ :=
      follow player self here own
    · rw [plays] at waits
      cases waits
    · exact ⟨next, there, sameName, sameStatus.trans plays, sameNumber.trans number⟩
  | clearing player | leaving player =>
    obtain ⟨self, here, own, dead⟩ := stands
    obtain ⟨next, there, sameName, ⟨waits, _⟩ | ⟨sameStatus, _⟩⟩ := follow player self here own
    · rw [dead] at waits
      cases waits
    · exact ⟨next, there, sameName, sameStatus.trans dead⟩
  | closed => trivial

theorem moved_names (world : World) (index : Nat) (info : PlayerInfo) (phase : Phase) :
    (world.moved index info phase).threads.map Thread.name = world.threads.map Thread.name := by
  exact map_modify world.threads index _ Thread.name fun _ => rfl

theorem threaded_moved {index : Nat} {phase : Phase} (here : world.threads[index]? = some thread)
    (touches : Touches thread.name world.info info)
    (stands : Stands info { thread with phase := phase }) (threaded : Threaded world) :
    Threaded (world.moved index info phase) where
  distinct := by
    rw [moved_names]
    exact threaded.distinct
  stands := by
    intro after member
    obtain ⟨position, there⟩ := List.mem_iff_getElem?.mp member
    obtain ⟨before, beforeHere, ⟨rfl, rfl⟩ | ⟨apart, rfl⟩⟩ :=
      modify_some _ index position _ after there
    · rw [here] at beforeHere
      cases beforeHere
      exact stands
    · refine stands_other touches ?_
        (threaded.stands after (List.mem_of_getElem? beforeHere))
      intro sameName
      have namesAgree : (world.threads.map Thread.name)[position]? =
          (world.threads.map Thread.name)[index]? := by
        rw [List.getElem?_map, List.getElem?_map, beforeHere, here, Option.map_some,
          Option.map_some, sameName]
      obtain ⟨bound, _⟩ := List.getElem?_eq_some_iff.mp beforeHere
      have within : position < (world.threads.map Thread.name).length := by
        rw [List.length_map]
        exact bound
      exact apart ((List.getElem?_inj within threaded.distinct).mp namesAgree)

/-! ## One step -/

structure Good (world : World) : Prop where
  paired : Paired world.info
  threaded : Threaded world

def Found (info : PlayerInfo) (player : Nat) (name : Text) : Option Int → Prop
  | some id => ∃ self, info.players[player]? = some self ∧ self.name = name ∧
      self.status = .playing ∧ self.matchId = id
  | none => ∃ self, info.players[player]? = some self ∧ self.name = name ∧ self.status ≠ .dead

theorem waiting_of_alive (invariant : Paired info) (here : info.players[player]? = some self)
    (alive : self.status ≠ .dead) (single : self.enemy = none) : self.status = .waiting := by
  cases status : self.status with
  | waiting => rfl
  | playing =>
    have engaged := (invariant.playing player self here status).1
    rw [single] at engaged
    cases engaged
  | dead => exact absurd status alive

theorem search_matched {enemy : Nat} (invariant : Paired info)
    (here : info.players[player]? = some self) (alive : self.status ≠ .dead)
    (matched : self.enemy = some enemy) :
    search info player = some (info, some self.matchId) ∧ self.status = .playing := by
  have plays : self.status = .playing := by
    cases status : self.status with
    | waiting =>
      have single := invariant.waiting player self here status
      rw [matched] at single
      cases single
    | playing => rfl
    | dead => exact absurd status alive
  obtain ⟨_, game, lookup, _⟩ := invariant.playing player self here plays
  exact ⟨by simp [search, here, matched, lookup], plays⟩

theorem search_alone (here : info.players[player]? = some self) (single : self.enemy = none) :
    search info player = if 0 < info.active - 1 then scan info player else some (info, none) := by
  simp [search, here, single]

theorem waiting_others_member {found : Nat} (member : found ∈ waitingOthers info player) :
    found ≠ player ∧ ∃ other, info.players[found]? = some other ∧ other.status = .waiting :=
  (waiting_other_iff info player found).mp (List.mem_filter.mp member).2

theorem scan_good (invariant : Paired info) (here : info.players[player]? = some self)
    (waits : self.status = .waiting) (few : (waitingOthers info player).length ≤ 1)
    (room : waitingOthers info player ≠ [] → info.totalMatches < maxMatches) :
    ∃ next found, scan info player = some (next, found) ∧ Paired next ∧
      Touches self.name info next ∧ Found next player self.name found := by
  cases opponents : waitingOthers info player with
  | nil =>
    refine ⟨info, none, scan_nobody info player opponents, invariant,
      touches_nothing self.name info, self, here, rfl, ?_⟩
    rw [waits]
    decide
  | cons found rest =>
    have only : rest = [] := by
      rw [opponents, List.length_cons] at few
      exact List.length_eq_zero_iff.mp (by omega)
    subst only
    obtain ⟨apart, other, otherHere, otherWaits⟩ :=
      waiting_others_member (by rw [opponents]; exact List.mem_singleton_self _)
    obtain ⟨next, paired⟩ := Option.isSome_iff_exists.mp
      (pair_up_some info player found (room (by rw [opponents]; exact List.cons_ne_nil _ _)))
    have spec := pair_up_spec info next player found self other here otherHere apart paired
    refine ⟨next, some info.totalMatches, ?_, ?_, ?_, _, spec.first, rfl, rfl, rfl⟩
    · rw [scan_one info player found opponents, paired]
      rfl
    · exact paired_pair_up here otherHere waits otherWaits apart paired invariant
    · exact touches_pair_up here otherHere otherWaits apart paired

theorem search_good (invariant : Paired info) (here : info.players[player]? = some self)
    (alive : self.status ≠ .dead) (orderly : Orderly info (.searching player)) :
    ∃ next found, search info player = some (next, found) ∧ Paired next ∧
      Touches self.name info next ∧ Found next player self.name found := by
  cases enemy : self.enemy with
  | some other =>
    obtain ⟨searched, plays⟩ := search_matched invariant here alive enemy
    exact ⟨info, some self.matchId, searched, invariant, touches_nothing self.name info,
      self, here, rfl, plays, rfl⟩
  | none =>
    rw [search_alone here enemy]
    by_cases about : 0 < info.active - 1
    · rw [if_pos about]
      obtain ⟨few, room⟩ := orderly ⟨⟨self, here, enemy⟩, about⟩
      exact scan_good invariant here (waiting_of_alive invariant here alive enemy) few room
    · rw [if_neg about]
      exact ⟨info, none, rfl, invariant, touches_nothing self.name info, self, here, rfl, alive⟩

theorem advance_good {action : Action} (here : world.threads[action.thread]? = some thread)
    (good : Good world) (orderly : Orderly world.info thread.phase) :
    ∃ next, advance world action thread = some next ∧ Good next := by
  obtain ⟨invariant, threaded⟩ := good
  have stands := threaded.stands thread (List.mem_of_getElem? here)
  obtain ⟨name, port, phase⟩ := thread
  cases phase with
  | connecting =>
    have room : world.info.players.length < maxPlayers := orderly
    simp only [advance, register_new port stands, if_pos room, Option.map_some]
    refine ⟨_, rfl, paired_registered name port invariant,
      threaded_moved here (touches_registered world.info name port) ?_ threaded⟩
    refine ⟨newPlayer name port, List.getElem?_concat_length, rfl, ?_⟩
    rintro ⟨⟩
  | searching player =>
    obtain ⟨self, selfHere, rfl, alive⟩ := stands
    obtain ⟨next, found, searched, paired, touches, left⟩ :=
      search_good invariant selfHere alive orderly
    simp only [advance, searched, Option.map_some]
    refine ⟨_, rfl, paired, threaded_moved here touches ?_ threaded⟩
    cases found with
    | some id => exact left
    | none => exact left
  | playing player id =>
    obtain ⟨self, selfHere, rfl, plays, number⟩ := stands
    refine ⟨_, rfl, paired_result action.winName selfHere plays number
      invariant, threaded_moved here ?_ ?_ threaded⟩
    · exact touches_modify _ selfHere rfl rfl (fun _ => rfl)
    · exact ⟨_, modify_same _ player _ self selfHere, rfl, rfl⟩
  | clearing player =>
    obtain ⟨self, selfHere, rfl, dead⟩ := stands
    refine ⟨_, rfl, paired_dead _ selfHere dead dead invariant, threaded_moved here ?_ ?_ threaded⟩
    · exact touches_modify _ selfHere rfl rfl (fun _ => rfl)
    · exact ⟨_, modify_same _ player _ self selfHere, rfl, dead⟩
  | leaving player =>
    obtain ⟨self, selfHere, rfl, dead⟩ := stands
    refine ⟨_, rfl, paired_dead _ selfHere dead dead invariant,
      threaded_moved here ?_ trivial threaded⟩
    exact touches_modify _ selfHere rfl rfl (fun _ => rfl)
  | closed => exact ⟨world, rfl, invariant, threaded⟩

theorem scan_two_not_pairing {first second : Nat} {rest : List Nat} {last : Option Int}
    (two : waitingOthers info player = first :: second :: rest)
    (ran : scan info player = some (next, last)) : ¬ Pairing next := by
  intro pairing
  obtain ⟨one, other, later, oneJoins, otherJoins, oneActive, otherActive, recorded⟩ :=
    scan_two info next player first second rest last two ran
  have here : next.matchList[info.matchList.length]? = some one := by simp [recorded]
  have there : next.matchList[info.matchList.length + 1]? = some other := by simp [recorded]
  have same := pairing.single _ _ one other player here there oneActive otherActive
    (Or.inl oneJoins.symm) (Or.inl otherJoins.symm)
  omega

theorem search_bad {found : Option Int} (unorderly : ¬ Orderly info (.searching player))
    (searched : search info player = some (next, found)) : ¬ Pairing next := by
  simp only [Orderly, Classical.not_imp] at unorderly
  obtain ⟨⟨⟨self, here, single⟩, about⟩, tooMany⟩ := unorderly
  rw [search_alone here single, if_pos about] at searched
  cases opponents : waitingOthers info player with
  | nil => simp [opponents] at tooMany
  | cons first rest =>
    cases rest with
    | cons second rest =>
      exact scan_two_not_pairing opponents searched
    | nil =>
      have full : ¬ info.totalMatches < maxMatches := by simpa [opponents] using tooMany
      rw [scan_one info player first opponents, pair_up_none info player first full] at searched
      cases searched

theorem advance_bad {next : World} {action : Action} (stands : Stands world.info thread)
    (unorderly : ¬ Orderly world.info thread.phase)
    (ran : advance world action thread = some next) : ¬ Pairing next.info := by
  obtain ⟨name, port, phase⟩ := thread
  cases phase with
  | connecting =>
    have full : ¬ world.info.players.length < maxPlayers := unorderly
    simp only [advance, register_new port stands, if_neg full] at ran
    cases ran
  | searching player =>
    obtain ⟨⟨info, found⟩, searched, rfl⟩ := Option.map_eq_some_iff.mp ran
    exact search_bad unorderly searched
  | playing player id => exact absurd trivial unorderly
  | clearing player => exact absurd trivial unorderly
  | leaving player => exact absurd trivial unorderly
  | closed => exact absurd trivial unorderly

/-! ## Whole runs -/

def GoodState (state : Option World) : Prop := ∃ world, state = some world ∧ Good world

theorem good_state_sound (state : Option World) (good : GoodState state) : Sound state := by
  obtain ⟨world, rfl, good⟩ := good
  exact paired_pairing good.paired

theorem orderly_step_good (state : Option World) (action : Action) (good : GoodState state)
    (orderly : OrderlyStep state action) : GoodState (step state action) := by
  obtain ⟨world, rfl, good⟩ := good
  simp only [step, Option.bind_some]
  cases here : world.threads[action.thread]? with
  | none => exact ⟨world, rfl, good⟩
  | some thread => exact advance_good here good (orderly world thread rfl here)

theorem unorderly_step_unsound (state : Option World) (action : Action) (good : GoodState state)
    (unorderly : ¬ OrderlyStep state action) : ¬ Sound (step state action) := by
  obtain ⟨world, rfl, good⟩ := good
  simp only [OrderlyStep, not_forall] at unorderly
  obtain ⟨before, thread, same, here, violated⟩ := unorderly
  cases same
  have stepped : step (some world) action = advance world action thread := by
    simp only [step, Option.bind_some, here]
  rw [stepped]
  cases ran : advance world action thread with
  | none => exact id
  | some next =>
    exact advance_bad (good.threaded.stands thread (List.mem_of_getElem? here)) violated ran

theorem start_good {connections : List (Text × Text)}
    (distinct : (connections.map Prod.fst).Nodup) : GoodState (some (start connections)) := by
  refine ⟨_, rfl, ⟨?_, ?_, ?_, rfl⟩, ?_, ?_⟩
  · intro index game here
    cases here
  · intro player self here
    cases here
  · intro player self here
    cases here
  · have names : (start connections).threads.map Thread.name = connections.map Prod.fst := by
      simp [start]
    rw [names]
    exact distinct
  · intro thread member
    obtain ⟨connection, _, rfl⟩ := List.mem_map.mp member
    intro self nobody
    cases nobody

/-- Whatever the order of the threads' sections, the matches are a pairing in every
state of a run exactly when every step is orderly. -/
theorem pairing_throughout_iff (connections : List (Text × Text))
    (distinct : (connections.map Prod.fst).Nodup) (actions : List Action) :
    Throughout step Sound (some (start connections)) actions ↔
      EachStep step OrderlyStep (some (start connections)) actions :=
  throughout_iff_of_good_steps step GoodState Sound OrderlyStep good_state_sound orderly_step_good
    unorderly_step_unsound _ (start_good distinct) actions

/-- Connections of the players "a", "b" and "c". -/
def threeConnections : List (Text × Text) :=
  [(letter 97, letter 49), (letter 98, letter 50), (letter 99, letter 51)]

/-- The run of one thread after the other, with a tie where there is a result. -/
def turns (threads : List Nat) : List Action := threads.map fun thread => ⟨thread, tie⟩

/-- Two players register, find each other, play and leave; the third one comes then. -/
theorem two_players_paired :
    Throughout step Sound (some (start threeConnections)) (turns [0, 1, 0, 1, 0, 1, 0, 0, 2]) := by
  exact (pairing_throughout_iff threeConnections (by decide) _).mpr (by decide +kernel)

/-- Three players wait when the first one searches: it is in two unfinished matches. -/
theorem third_player_breaks_pairing :
    ¬ Throughout step Sound (some (start threeConnections)) (turns [0, 1, 2, 0]) := by
  rintro ⟨_, _, _, _, sound⟩
  have same := sound.single 0 1 ⟨0, 1, .active, 1⟩ ⟨0, 2, .active, 2⟩ 0 rfl rfl rfl rfl
    (Or.inl rfl) (Or.inl rfl)
  cases same

end Cprogramming.GameProtocol.Matches
