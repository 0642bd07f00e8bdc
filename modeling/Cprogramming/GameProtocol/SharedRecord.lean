import Cprogramming.GameProtocol.Records

/-!
# A record that two connections share

A thread gives the record of its player free inside the lock and clears `enemy` and
`match_id` behind it. What the phases of two connections of one name say of the record,
and what each step of a thread makes of it.
-/

namespace Cprogramming.GameProtocol.SharedRecord

open Server Search Pairs Matches Records
open Library.Tables

set_option autoImplicit false

/-! ## Phases -/

def live : Phase → Bool
  | .searching _ | .playing _ _ => true
  | .connecting | .clearing _ | .leaving _ | .closed => false

def clears : Phase → Bool
  | .clearing _ | .leaving _ => true
  | .connecting | .searching _ | .playing _ _ | .closed => false

/-- `enemy` and `match_id` have changed by a match or not at all. -/
def Keeps (before after : PlayerInfo) (player : Nat) : Prop :=
  ∀ self, before.players[player]? = some self → ∃ next, after.players[player]? = some next ∧
    (next.enemy = self.enemy ∧ next.matchId = self.matchId ∨ ByMatch before after player next)

/-! ## The record of the two connections -/

variable {info next : PlayerInfo} {own other : Phase} {self : Player}

def ended : Phase → Bool
  | .clearing _ | .leaving _ | .closed => true
  | .connecting | .searching _ | .playing _ _ => false

/-- What the phase of a connection says of the record, beside the phase of the other
connection of the name. -/
def Side (info : PlayerInfo) (own other : Phase) (self : Player) : Prop :=
  match own with
  | .connecting => True
  | .searching _ => live other = false ∧ self.status ≠ .dead ∧
      (self.enemy.isSome = true → Linked info self)
  | .playing _ _ => live other = false ∧ self.status ≠ .dead ∧ self.enemy.isSome = true ∧
      Linked info self
  | .clearing _ => ended other = false → self.enemy.isSome = true ∧ Linked info self
  | .leaving _ => ended other = false → Linked info self ∧ (other = .connecting → self.enemy = none)
  | .closed => other = .connecting → self.enemy = none

structure Consistent (info : PlayerInfo) (own other : Phase) (player : Player) : Prop where
  ownSide : Side info own other player
  otherSide : Side info other own player
  idle : live own = false → live other = false → player.status = .dead

theorem consistent_swap (consistent : Consistent info own other self) :
    Consistent info other own self :=
  ⟨consistent.otherSide, consistent.ownSide, fun first second => consistent.idle second first⟩

theorem side_linked (linked : Linked info self → Linked next self)
    (side : Side info own other self) : Side next own other self := by
  cases own with
  | connecting => trivial
  | searching player => exact ⟨side.1, side.2.1, fun enemy => linked (side.2.2 enemy)⟩
  | playing player id => exact ⟨side.1, side.2.1, side.2.2.1, linked side.2.2.2⟩
  | clearing player => exact fun open' => ⟨(side open').1, linked (side open').2⟩
  | leaving player => exact fun open' => ⟨linked (side open').1, (side open').2⟩
  | closed => exact side

theorem consistent_linked (info next : PlayerInfo) (own other : Phase) (self : Player)
    (linked : Linked info self → Linked next self) (consistent : Consistent info own other self) :
    Consistent next own other self :=
  ⟨side_linked linked consistent.ownSide, side_linked linked consistent.otherSide, consistent.idle⟩

theorem side_matched {after : Player} (held : live own = true ∨ live other = true)
    (plays : after.status = .playing) (enemy : after.enemy.isSome = true)
    (linked : Linked next after) (side : Side info own other self) : Side next own other after := by
  have alive : after.status ≠ .dead := by
    rw [plays]
    decide
  cases own with
  | connecting => trivial
  | searching player => exact ⟨side.1, alive, fun _ => linked⟩
  | playing player id => exact ⟨side.1, alive, enemy, linked⟩
  | clearing player => exact fun _ => ⟨enemy, linked⟩
  | leaving player =>
    refine fun _ => ⟨linked, ?_⟩
    rintro rfl
    rcases held with impossible | impossible <;> cases impossible
  | closed =>
    rintro rfl
    rcases held with impossible | impossible <;> cases impossible

theorem consistent_matched {after : Player} (held : live own = true ∨ live other = true)
    (plays : after.status = .playing) (enemy : after.enemy.isSome = true)
    (linked : Linked next after) (consistent : Consistent info own other self) :
    Consistent next own other after where
  ownSide := side_matched held plays enemy linked consistent.ownSide
  otherSide := side_matched held.symm plays enemy linked consistent.otherSide
  idle := by
    intro first second
    rcases held with contrary | contrary
    · rw [contrary] at first
      cases first
    · rw [contrary] at second
      cases second

/-! ### The steps of one of the two -/

variable {player : Nat}

theorem consistent_refused (taken : live other = true)
    (consistent : Consistent info .connecting other self) : Consistent info .closed other self := by
  have side := consistent.otherSide
  refine ⟨?_, ?_, ?_⟩
  · rintro rfl
    cases taken
  · cases other with
    | searching player => exact side
    | playing player id => exact side
    | connecting | clearing player | leaving player | closed => cases taken
  · intro _ idle
    rw [idle] at taken
    cases taken

theorem consistent_reused (info : PlayerInfo) (other : Phase) (self after : Player) (player : Nat)
    (free : live other = false) (apart : other ≠ .connecting)
    (waits : after.status = .waiting) (sameEnemy : after.enemy = self.enemy)
    (sameMatch : after.matchId = self.matchId)
    (consistent : Consistent info .connecting other self) :
    Consistent info (.searching player) other after := by
  have side := consistent.otherSide
  have alive : after.status ≠ .dead := by
    rw [waits]
    decide
  have same : Linked info after ↔ Linked info self := by
    rw [Linked, Linked, sameMatch]
  refine ⟨⟨free, alive, ?_⟩, ?_, fun busy => by cases busy⟩
  · rw [same, sameEnemy]
    cases other with
    | connecting => exact absurd rfl apart
    | searching _ | playing _ _ => cases free
    | clearing _ => exact fun _ => (side rfl).2
    | leaving _ => exact fun _ => (side rfl).1
    | closed =>
      intro enemy
      rw [side rfl] at enemy
      cases enemy
  · cases other with
    | connecting => exact absurd rfl apart
    | searching _ | playing _ _ => cases free
    | clearing _ =>
      intro _
      rw [same, sameEnemy]
      exact side rfl
    | leaving _ =>
      intro _
      rw [same]
      exact ⟨(side rfl).1, fun impossible => by cases impossible⟩
    | closed =>
      intro impossible
      cases impossible

theorem consistent_new (info : PlayerInfo) (name port : Text) (player : Nat)
    (free : served other = none) :
    Consistent info (.searching player) other (newPlayer name port) := by
  have alive : (newPlayer name port).status ≠ .dead := by
    rintro ⟨⟩
  refine ⟨⟨?_, alive, fun impossible => by cases impossible⟩, ?_, fun busy => by cases busy⟩
  · cases other with
    | connecting | closed => rfl
    | searching _ | playing _ _ | clearing _ | leaving _ => cases free
  · cases other with
    | connecting => trivial
    | closed =>
      intro impossible
      cases impossible
    | searching _ | playing _ _ | clearing _ | leaving _ => cases free

theorem consistent_found (id : Int) (enemy : self.enemy.isSome = true)
    (consistent : Consistent info (.searching player) other self) :
    Consistent info (.playing player id) other self := by
  obtain ⟨free, alive, linked⟩ := consistent.ownSide
  have side := consistent.otherSide
  refine ⟨⟨free, alive, enemy, linked enemy⟩, ?_, fun busy => by cases busy⟩
  cases other with
  | searching _ | playing _ _ => cases free
  | connecting => trivial
  | clearing _ => exact side
  | leaving _ => exact fun _ => ⟨(side rfl).1, fun impossible => by cases impossible⟩
  | closed =>
    intro impossible
    cases impossible

theorem side_of_ended (info : PlayerInfo) (self : Player) (free : live other = false)
    (done : ended own = true) : Side info other own self := by
  cases other with
  | connecting => trivial
  | searching _ | playing _ _ => cases free
  | clearing _ | leaving _ =>
    intro active
    rw [done] at active
    cases active
  | closed =>
    rintro rfl
    cases done

theorem consistent_finished (info next : PlayerInfo) (other : Phase) (self after : Player)
    (player : Nat) (id : Int) (dead : after.status = .dead) (sameEnemy : after.enemy = self.enemy)
    (linked : Linked info self → Linked next after)
    (consistent : Consistent info (.playing player id) other self) :
    Consistent next (.clearing player) other after := by
  obtain ⟨free, _, enemy, valid⟩ := consistent.ownSide
  refine ⟨fun _ => ⟨?_, linked valid⟩, side_of_ended next after free rfl, fun _ _ => dead⟩
  rw [sameEnemy]
  exact enemy

theorem consistent_cleared (info next : PlayerInfo) (other : Phase) (self after : Player)
    (player : Nat) (free : live other = false) (sameStatus : after.status = self.status)
    (noEnemy : after.enemy = none) (linked : Linked info self → Linked next after)
    (consistent : Consistent info (.clearing player) other self) :
    Consistent next (.leaving player) other after := by
  have side := consistent.ownSide
  refine ⟨fun active => ⟨linked (side active).2, fun _ => noEnemy⟩, ?_, ?_⟩
  · exact side_of_ended next after free rfl
  · intro _ _
    rw [sameStatus]
    exact consistent.idle rfl free

theorem consistent_left (info next : PlayerInfo) (other : Phase) (self after : Player)
    (player : Nat) (free : live other = false) (sameStatus : after.status = self.status)
    (sameEnemy : after.enemy = self.enemy)
    (consistent : Consistent info (.leaving player) other self) :
    Consistent next .closed other after := by
  have side := consistent.ownSide
  refine ⟨?_, ?_, ?_⟩
  · rintro rfl
    rw [sameEnemy]
    exact (side rfl).2 rfl
  · exact side_of_ended next after free rfl
  · intro _ _
    rw [sameStatus]
    exact consistent.idle rfl free

/-! ## The two connections among the others -/

/-- Two threads, and no other one, have the name; in the tables every name stands once. -/
structure Two (world : World) (name : Text) (left right : Nat) (own other : Phase) :
    Prop where
  apart : left ≠ right
  first : ∃ port, world.threads[left]? = some ⟨name, port, own⟩
  second : ∃ port, world.threads[right]? = some ⟨name, port, other⟩
  others : ∀ (index : Nat) (thread : Thread), world.threads[index]? = some thread →
    index ≠ left → index ≠ right → thread.name ≠ name
  serves : ∀ thread ∈ world.threads, Serves world.info thread.name thread.phase
  distinct : (world.info.players.map Player.name).Nodup
  unknown : own = .connecting → other = .connecting → ∀ self ∈ world.info.players, self.name ≠ name
  record : ∀ (player : Nat) (self : Player), world.info.players[player]? = some self →
    self.name = name → Consistent world.info own other self

theorem two_swap {world : World} {name : Text} {left right : Nat}
    (two : Two world name left right own other) : Two world name right left other own where
  apart := two.apart.symm
  first := two.second
  second := two.first
  others := fun index thread here notRight notLeft => two.others index thread here notLeft notRight
  serves := two.serves
  distinct := two.distinct
  unknown := fun first second => two.unknown second first
  record := fun player self here named =>
    consistent_swap (two.record player self here named)

theorem two_place {world : World} {name : Text} {left right : Nat}
    (two : Two world name left right own other) {place : Nat}
    (ownServes : served own = some player) (otherServes : served other = some place) :
    player = place := by
  obtain ⟨_, leftHere⟩ := two.first
  obtain ⟨_, rightHere⟩ := two.second
  obtain ⟨self, here, named⟩ := two.serves _ (List.mem_of_getElem? leftHere) player ownServes
  obtain ⟨same, there, alsoNamed⟩ :=
    two.serves _ (List.mem_of_getElem? rightHere) place otherServes
  exact same_place world.info two.distinct player place self same here there
    (named.trans alsoNamed.symm)

/-! ## Steps of threads of other names -/

theorem two_other {world next : World} {name : Text} {left right : Nat} {action : Action}
    {thread : Thread} (two : Two world name left right own other)
    (here : world.threads[action.thread]? = some thread) (notLeft : action.thread ≠ left)
    (notRight : action.thread ≠ right) (ran : advance world action thread = some next) :
    Two next name left right own other := by
  have foreign := two.others action.thread thread here notLeft notRight
  have serving := two.serves thread (List.mem_of_getElem? here)
  have moves := advance_moves world next action thread serving ran
  obtain ⟨phase, stepped⟩ := advance_stepped world next action thread here serving ran
  refine ⟨two.apart, ?_, ?_, ?_, serves_stepped world next _ thread phase moves stepped two.serves,
    moves_distinct _ _ _ moves two.distinct, ?_, ?_⟩
  · rw [stepped.rest left notLeft.symm]
    exact two.first
  · rw [stepped.rest right notRight.symm]
    exact two.second
  · intro index someone there apartLeft apartRight
    by_cases same : index = action.thread
    · rw [same, stepped.moved] at there
      cases there
      exact foreign
    · rw [stepped.rest index same] at there
      exact two.others index someone there apartLeft apartRight
  · intro first second after member named
    obtain ⟨index, there⟩ := List.mem_iff_getElem?.mp member
    obtain ⟨self, before, sameName, _⟩ := moves_back _ _ _ moves index after there
      (by rw [named]; exact foreign.symm)
    exact two.unknown first second self (List.mem_of_getElem? before) (sameName.trans named)
  · intro player after there named
    obtain ⟨self, before, sameName, change⟩ := moves_back _ _ _ moves player after there
      (by rw [named]; exact foreign.symm)
    have consistent := two.record player self before (sameName.trans named)
    rcases change with rfl | ⟨waits, plays, matched⟩
    · exact consistent_linked _ _ own other after (moves_linked _ _ _ moves after) consistent
    · obtain ⟨enemy, linked⟩ := by_match_linked matched
      refine consistent_matched ?_ plays enemy linked consistent
      -- A record that waits is held by one of the two.
      by_contra nobody
      rw [not_or, Bool.not_eq_true, Bool.not_eq_true] at nobody
      rw [consistent.idle nobody.1 nobody.2] at waits
      cases waits

theorem keeps_refl (info : PlayerInfo) (player : Nat) : Keeps info info player :=
  fun self here => ⟨self, here, Or.inl ⟨rfl, rfl⟩⟩

theorem keeps_other (name : Text) (before after : PlayerInfo)
    (moves : Moves name before after) (player : Nat)
    (foreign : ∀ self, before.players[player]? = some self → self.name ≠ name) :
    Keeps before after player := by
  intro self here
  obtain ⟨next, there, _, own | rfl | ⟨_, _, matched⟩⟩ := moves.kept player self here
  · exact absurd own (foreign self here)
  · exact ⟨next, there, Or.inl ⟨rfl, rfl⟩⟩
  · exact ⟨next, there, Or.inr matched⟩

/-! ## Steps of one of the two -/

variable {world : World} {name port : Text} {left right : Nat}

theorem live_serves {phase : Phase} (active : live phase = true) :
    ∃ player, served phase = some player := by
  cases phase with
  | searching player => exact ⟨player, rfl⟩
  | playing player id => exact ⟨player, rfl⟩
  | connecting | clearing _ | leaving _ | closed => cases active

theorem live_alive (active : live other = true) (consistent : Consistent info own other self) :
    self.status ≠ .dead ∧ live own = false := by
  have side := consistent.otherSide
  cases other with
  | searching player => exact ⟨side.2.1, side.1⟩
  | playing player id => exact ⟨side.2.1, side.1⟩
  | connecting | clearing _ | leaving _ | closed => cases active

theorem other_record (two : Two world name left right own other)
    (serving : served other = some player) :
    ∃ self, world.info.players[player]? = some self ∧ self.name = name := by
  obtain ⟨_, here⟩ := two.second
  exact two.serves _ (List.mem_of_getElem? here) player serving

theorem two_stepped {next : World} {phase : Phase} (two : Two world name left right own other)
    (stepped : Stepped world next left ⟨name, port, own⟩ phase)
    (moves : Moves name world.info next.info) (begun : phase ≠ .connecting)
    (record : ∀ (player : Nat) (self : Player), next.info.players[player]? = some self →
      self.name = name → Consistent next.info phase other self) :
    Two next name left right phase other where
  apart := two.apart
  first := ⟨port, stepped.moved⟩
  second := by
    rw [stepped.rest right two.apart.symm]
    exact two.second
  others := by
    intro index thread there notLeft notRight
    rw [stepped.rest index notLeft] at there
    exact two.others index thread there notLeft notRight
  serves := serves_stepped world next left _ phase moves stepped two.serves
  distinct := moves_distinct _ _ _ moves two.distinct
  unknown := fun impossible => absurd impossible begun
  record := record

theorem two_connecting {next : World} {action : Action}
    (two : Two world name left right .connecting other)
    (here : world.threads[left]? = some ⟨name, port, .connecting⟩) (acts : action.thread = left)
    (ran : advance world action ⟨name, port, .connecting⟩ = some next) :
    (∃ phase, Two next name left right phase other) ∧
      (live other = true → next.info = world.info) := by
  have moves := advance_moves world next action _ (fun _ impossible => by cases impossible) ran
  obtain ⟨⟨info, found⟩, registration, rfl⟩ := Option.map_eq_some_iff.mp ran
  rw [acts] at moves ⊢
  obtain ⟨rfl, rfl, alive⟩ | ⟨previous, self, there, named, dead, rfl, rfl⟩ | ⟨unknown, rfl, rfl⟩ :=
    register_cases world.info info name port found registration
  · obtain ⟨self, member, named, living⟩ := alive
    obtain ⟨player, there⟩ := List.mem_iff_getElem?.mp member
    have taken : live other = true := by
      by_contra free
      exact living ((two.record player self there named).idle rfl (Bool.not_eq_true _ ▸ free))
    refine ⟨⟨.closed, two_stepped two
      (stepped_moved world left _ _ _ here fun _ impossible => by cases impossible) moves
      (by rintro ⟨⟩) ?_⟩, fun _ => rfl⟩
    intro place record recordHere recordNamed
    exact consistent_refused taken (two.record place record recordHere recordNamed)
  · have free : live other = false := by
      by_contra active
      obtain ⟨player, serving⟩ := live_serves (Bool.not_eq_false _ ▸ active)
      obtain ⟨record, recordHere, recordNamed⟩ :=
        other_record two serving
      exact (live_alive (Bool.not_eq_false _ ▸ active)
        (two.record player record recordHere recordNamed)).1
        (dead record (List.mem_of_getElem? recordHere) recordNamed)
    have registered : other ≠ .connecting := fun both =>
      two.unknown rfl both self (List.mem_of_getElem? there) named
    refine ⟨⟨.searching previous, two_stepped two
      (stepped_moved world left _ _ _ here ?_) moves (by rintro ⟨⟩) ?_⟩, fun active => ?_⟩
    · rintro player ⟨⟩
      exact ⟨_, modify_same _ previous _ self there, named⟩
    · intro place record recordHere recordNamed
      have same := modified_record world.info _ previous place _ self record there two.distinct rfl
        recordHere (recordNamed.trans named.symm)
      subst same
      exact consistent_linked world.info _ _ other _ id
        (consistent_reused world.info other self _ previous free registered rfl rfl rfl
          (two.record previous self there named))
    · rw [free] at active
      cases active
  · have idle : served other = none := by
      cases serving : served other with
      | none => rfl
      | some player =>
        obtain ⟨record, recordHere, recordNamed⟩ :=
          other_record two serving
        exact absurd recordNamed (unknown record (List.mem_of_getElem? recordHere))
    refine ⟨⟨.searching world.info.players.length, two_stepped
      two (stepped_moved world left _ _ _ here ?_) moves (by rintro ⟨⟩) ?_⟩, fun active => ?_⟩
    · rintro player ⟨⟩
      exact ⟨newPlayer name port, List.getElem?_concat_length, rfl⟩
    · intro place record recordHere recordNamed
      rcases registered_cases recordHere with old | rfl
      · exact absurd recordNamed (unknown record (List.mem_of_getElem? old))
      · exact consistent_new _ name port _ idle
    · obtain ⟨player, serving⟩ := live_serves active
      rw [idle] at serving
      cases serving

theorem two_searching {next : World} {action : Action}
    (two : Two world name left right (.searching player) other)
    (here : world.threads[left]? = some ⟨name, port, .searching player⟩)
    (acts : action.thread = left)
    (ran : advance world action ⟨name, port, .searching player⟩ = some next) :
    (∃ phase, Two next name left right phase other) ∧ Keeps world.info next.info player := by
  have serving := two.serves _ (List.mem_of_getElem? here)
  have moves := advance_moves world next action _ serving ran
  obtain ⟨self, selfHere, named⟩ := serving player rfl
  obtain ⟨⟨info, found⟩, searched, rfl⟩ := Option.map_eq_some_iff.mp ran
  rw [acts] at moves ⊢
  obtain ⟨rematched, ended⟩ := search_rematched selfHere searched
  obtain ⟨after, afterHere, sameName, change⟩ := rematched.each player self selfHere
  have before := two.record player self selfHere named
  have consistent : Consistent info (.searching player) other after := by
    rcases change with rfl | ⟨_, plays, matched⟩
    · exact consistent_linked _ _ _ other after (moves_linked _ _ _ moves after) before
    · obtain ⟨enemy, linked⟩ := by_match_linked matched
      exact consistent_matched (Or.inl rfl) plays enemy linked before
  -- The record of the name is the one of the player.
  have unique : ∀ (place : Nat) (record : Player), info.players[place]? = some record →
      record.name = name → record = after := by
    intro place record recordHere recordNamed
    have same := same_place info (moves_distinct _ _ _ moves two.distinct) place player record after
      recordHere afterHere (recordNamed.trans (sameName.trans named).symm)
    rw [same, afterHere] at recordHere
    cases recordHere
    rfl
  have still : Serves info name (.searching player) :=
    moves_serves _ _ _ moves name (.searching player) serving
  refine ⟨?_, ?_⟩
  · cases found with
    | none =>
      refine ⟨.searching player, two_stepped two
        (stepped_moved world left _ _ _ here still) moves (by rintro ⟨⟩) ?_⟩
      intro place record recordHere recordNamed
      rw [unique place record recordHere recordNamed]
      exact consistent
    | some id =>
      refine ⟨.playing player id, two_stepped two
        (stepped_moved world left _ _ _ here still) moves (by rintro ⟨⟩) ?_⟩
      intro place record recordHere recordNamed
      rw [unique place record recordHere recordNamed]
      obtain ⟨_, opponent, opponentHere, enemy, _⟩ | ⟨impossible, _⟩ := ended
      · rw [afterHere] at opponentHere
        cases opponentHere
        exact consistent_found id enemy consistent
      · cases impossible
  · intro someone there
    rw [selfHere] at there
    cases there
    refine ⟨after, afterHere, ?_⟩
    rcases change with rfl | ⟨_, _, matched⟩
    · exact Or.inl ⟨rfl, rfl⟩
    · exact Or.inr matched

theorem two_modified (world : World) (name : Text) (left right player : Nat)
    (own phase other : Phase) (port : Text) (info : PlayerInfo) (change : Player → Player)
    (two : Two world name left right own other)
    (here : world.threads[left]? = some ⟨name, port, own⟩) (serving : served own = some player)
    (later : served phase = some player ∨ served phase = none) (begun : phase ≠ .connecting)
    (changed : info.players = world.info.players.modify player change)
    (keeps : ∀ someone, (change someone).name = someone.name)
    (grown : world.info.matchList.length ≤ info.matchList.length)
    (record : ∀ self, Consistent world.info own other self →
      Consistent info phase other (change self)) :
    Two (world.moved left info phase) name left right phase other := by
  have held : Serves world.info name own := two.serves _ (List.mem_of_getElem? here)
  obtain ⟨self, selfHere, named⟩ := held player serving
  have moves := moves_modify name world.info info player change self selfHere named changed keeps
    grown
  have still : Serves info name phase := by
    intro place serves
    rcases later with same | idle
    · rw [serves] at same
      cases same
      exact moves_serves _ _ _ moves name own held player serving
    · rw [serves] at idle
      cases idle
  refine two_stepped two (stepped_moved world left _ info phase here still) moves begun ?_
  intro place found recordHere recordNamed
  have same := modified_record world.info info player place change self found selfHere
    two.distinct changed recordHere (recordNamed.trans named.symm)
  rw [same]
  exact record self (two.record player self selfHere named)

theorem two_playing {id : Int} (winName : List UInt8)
    (two : Two world name left right (.playing player id) other)
    (here : world.threads[left]? = some ⟨name, port, .playing player id⟩) :
    Two (world.moved left (result world.info player id winName) (.clearing player)) name left right
        (.clearing player) other ∧
      Keeps world.info (result world.info player id winName) player := by
  have size : (result world.info player id winName).matchList.length =
      world.info.matchList.length := by
    simp [result]
  constructor
  · apply two_modified world name left right player _ _ other port _
      (fun self => { self with stats := score self winName, status := .dead }) two here rfl
      (Or.inl rfl) (by rintro ⟨⟩) rfl (fun _ => rfl) (Nat.le_of_eq size.symm)
    intro self consistent
    refine consistent_finished world.info _ other self _ player id rfl rfl ?_ consistent
    intro linked
    rw [Linked, match_at_some_iff] at linked ⊢
    exact ⟨linked.1, Nat.lt_of_lt_of_le linked.2 (Nat.le_of_eq size.symm)⟩
  · intro self selfHere
    exact ⟨_, modify_same world.info.players player _ self selfHere, Or.inl ⟨rfl, rfl⟩⟩

theorem two_clearing (two : Two world name left right (.clearing player) other)
    (here : world.threads[left]? = some ⟨name, port, .clearing player⟩)
    (free : live other = false) :
    Two (world.moved left (clearEnemy world.info player) (.leaving player)) name left right
      (.leaving player) other := by
  apply two_modified world name left right player _ _ other port (clearEnemy world.info player)
    (fun self => { self with enemy := none }) two here rfl (Or.inl rfl) (by rintro ⟨⟩) rfl
    (fun _ => rfl) (Nat.le_refl _)
  intro self consistent
  exact consistent_cleared world.info _ other self _ player free rfl rfl id consistent

theorem two_leaving (two : Two world name left right (.leaving player) other)
    (here : world.threads[left]? = some ⟨name, port, .leaving player⟩) (free : live other = false) :
    Two (world.moved left (clearMatch world.info player) .closed) name left right .closed
      other := by
  apply two_modified world name left right player _ _ other port (clearMatch world.info player)
    (fun self => { self with matchId := -1, port := noText }) two here rfl (Or.inr rfl)
    (by rintro ⟨⟩) rfl (fun _ => rfl) (Nat.le_refl _)
  intro self consistent
  exact consistent_left world.info _ other self _ player free rfl rfl consistent

theorem two_own (world next : World) (name : Text) (left right : Nat) (own other : Phase)
    (action : Action) (port : Text) (two : Two world name left right own other)
    (here : world.threads[left]? = some ⟨name, port, own⟩) (acts : action.thread = left)
    (alone : clears own = true → live other = false)
    (ran : advance world action ⟨name, port, own⟩ = some next) :
    (∃ phase, Two next name left right phase other) ∧
      ∀ phase player, phase = own ∨ phase = other → live phase = true →
        served phase = some player → Keeps world.info next.info player := by
  have exclusive : live own = true → live other = false := by
    intro active
    obtain ⟨player, serving⟩ := live_serves active
    obtain ⟨self, selfHere, named⟩ := two.serves _ (List.mem_of_getElem? here) player serving
    exact (live_alive active (consistent_swap (two.record player self selfHere named))).2
  cases own with
  | connecting =>
    obtain ⟨kept, same⟩ := two_connecting two here acts ran
    refine ⟨kept, ?_⟩
    rintro phase player (rfl | rfl) active _
    · cases active
    · rw [same active]
      exact keeps_refl world.info player
  | searching place =>
    obtain ⟨kept, keeps⟩ := two_searching two here acts ran
    refine ⟨kept, ?_⟩
    rintro phase player (rfl | rfl) active serving
    · cases serving
      exact keeps
    · rw [exclusive rfl] at active
      cases active
  | playing place id =>
    cases ran
    obtain ⟨kept, keeps⟩ := two_playing action.winName two here
    rw [acts]
    refine ⟨⟨_, kept⟩, ?_⟩
    rintro phase player (rfl | rfl) active serving
    · cases serving
      exact keeps
    · rw [exclusive rfl] at active
      cases active
  | clearing place =>
    cases ran
    rw [acts]
    refine ⟨⟨_, two_clearing two here (alone rfl)⟩, ?_⟩
    rintro phase player (rfl | rfl) active _
    · cases active
    · rw [alone rfl] at active
      cases active
  | leaving place =>
    cases ran
    rw [acts]
    refine ⟨⟨_, two_leaving two here (alone rfl)⟩, ?_⟩
    rintro phase player (rfl | rfl) active _
    · cases active
    · rw [alone rfl] at active
      cases active
  | closed =>
    cases ran
    exact ⟨⟨_, two⟩, fun _ player _ _ _ => keeps_refl world.info player⟩

theorem clears_serves {phase : Phase} (clearing : clears phase = true) :
    ∃ player, served phase = some player := by
  cases phase with
  | clearing player => exact ⟨player, rfl⟩
  | leaving player => exact ⟨player, rfl⟩
  | connecting | searching _ | playing _ _ | closed => cases clearing

/-- A thread that clears a record that the other connection holds changes its `enemy` or
its `match_id`. -/
theorem clearing_loses (action : Action) (two : Two world name left right own other)
    (here : world.threads[left]? = some ⟨name, port, own⟩) (clearing : clears own = true)
    (active : live other = true) (serving : served own = some player) :
    ∃ next, advance world action ⟨name, port, own⟩ = some next ∧
      ¬ Keeps world.info next.info player := by
  obtain ⟨self, selfHere, named⟩ := two.serves _ (List.mem_of_getElem? here) player serving
  have side := (two.record player self selfHere named).ownSide
  have unfinished : ended other = false := by
    cases other with
    | searching _ | playing _ _ => rfl
    | connecting | clearing _ | leaving _ | closed => cases active
  cases own with
  | connecting | searching _ | playing _ _ | closed => cases clearing
  | clearing place =>
    cases serving
    refine ⟨_, rfl, fun keeps => ?_⟩
    obtain ⟨next, there, change⟩ := keeps self selfHere
    have cleared : some next = some { self with enemy := none } :=
      there.symm.trans (modify_same _ player _ self selfHere)
    cases cleared
    rcases change with ⟨sameEnemy, _⟩ | matched
    · have enemy := (side unfinished).1
      rw [← sameEnemy] at enemy
      cases enemy
    · cases (by_match_linked matched).1
  | leaving place =>
    cases serving
    refine ⟨_, rfl, fun keeps => ?_⟩
    obtain ⟨next, there, change⟩ := keeps self selfHere
    have cleared : some next = some { self with matchId := -1, port := noText } :=
      there.symm.trans (modify_same _ player _ self selfHere)
    cases cleared
    rcases change with ⟨_, sameMatch⟩ | matched
    · have linked := (side unfinished).1
      rw [Linked, ← sameMatch] at linked
      cases linked
    · cases (by_match_linked matched).2

end Cprogramming.GameProtocol.SharedRecord
