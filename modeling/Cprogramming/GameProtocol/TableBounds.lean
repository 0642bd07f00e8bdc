import Cprogramming.GameProtocol.Matches

/-!
# The bounds of the tables of the server

Which places of `players` and `matches` the sections of a thread write. A player that
comes back takes its old place, but no place is ever given up: the tables stay within
their bounds exactly as long as every new name and every match finds room.
-/

namespace Cprogramming.GameProtocol.TableBounds

open Server Search Pairs Matches
open Library.Runs Library.Tables

set_option autoImplicit false

/-! ## The places that are written -/

def registerWrites (info : PlayerInfo) (name : Text) : List Nat :=
  if info.players.any fun player =>
      decide (player.name = name) && decide (player.status ≠ .dead) then []
  else
    match lastNamed info name with
    | some _ => []
    | none => [info.players.length]

/-- One turn of the search, with the places of `matches` that are written. -/
def visitWrites (player : Nat) (state : List Nat × Option PlayerInfo) (index : Nat) :
    List Nat × Option PlayerInfo :=
  match state.2 with
  | none => state
  | some info =>
    if waitingOther info player index then
      (state.1 ++ [info.totalMatches], pairUp info player index)
    else state

def scanWrites (info : PlayerInfo) (player : Nat) : List Nat × Option PlayerInfo :=
  (List.range info.players.length).foldl (visitWrites player) ([], some info)

/-- The places of `matches` that the critical section of the search writes. -/
def searchWrites (info : PlayerInfo) (player : Nat) : List Nat :=
  match info.players[player]? with
  | none => []
  | some self =>
    match self.enemy with
    | some _ => []
    | none => if 0 < info.active - 1 then (scanWrites info player).1 else []

structure Writes where
  players : List Nat
  matchList : List Nat

def advanceWrites (info : PlayerInfo) (thread : Thread) : Writes :=
  match thread.phase with
  | .connecting => ⟨registerWrites info thread.name, []⟩
  | .searching player => ⟨[], searchWrites info player⟩
  | .playing _ _ | .clearing _ | .leaving _ | .closed => ⟨[], []⟩

def Writes.InBounds (writes : Writes) : Prop :=
  (∀ index ∈ writes.players, index < maxPlayers) ∧ ∀ index ∈ writes.matchList, index < maxMatches

def InBounds (world : Option World) (action : Action) : Prop :=
  ∀ before thread, world = some before → before.threads[action.thread]? = some thread →
    (advanceWrites before.info thread).InBounds

/-- Room for the name if it is new; room for a match with everyone else who waits. -/
def HasRoom (info : PlayerInfo) (thread : Thread) : Prop :=
  match thread.phase with
  | .connecting => (∃ self ∈ info.players, self.name = thread.name) ∨
      info.players.length < maxPlayers
  | .searching player => Searches info player → waitingOthers info player ≠ [] →
      info.matchList.length + (waitingOthers info player).length < maxMatches
  | .playing _ _ | .clearing _ | .leaving _ | .closed => True

def RoomyStep (world : Option World) (action : Action) : Prop :=
  ∀ before thread, world = some before → before.threads[action.thread]? = some thread →
    HasRoom before.info thread

/-! ## Registration -/

variable (info : PlayerInfo) (player : Nat)

theorem register_writes_known {info : PlayerInfo} {name : Text} {self : Player}
    (member : self ∈ info.players) (named : self.name = name) : registerWrites info name = [] := by
  have listed := last_named_some member named
  rw [registerWrites]
  split
  · rfl
  · cases last : lastNamed info name with
    | none => exact absurd last listed
    | some previous => rfl

theorem register_writes_new {info : PlayerInfo} {name : Text}
    (unknown : ∀ self ∈ info.players, self.name ≠ name) :
    registerWrites info name = [info.players.length] := by
  have absent := last_named_none unknown
  have free := nobody_alive unknown
  rw [registerWrites, free, absent]
  rfl

theorem register_writes_result (name port : Text) :
    (register info name port).isSome ↔ ∀ index ∈ registerWrites info name, index < maxPlayers := by
  simp only [register, registerWrites]
  split
  · simp
  · cases lastNamed info name with
    | some previous => simp
    | none =>
      simp only [List.mem_singleton, forall_eq]
      split <;> simp_all

/-! ## Search -/

theorem pair_up_room_iff (found : Nat) :
    (pairUp info player found).isSome ↔ info.totalMatches < maxMatches := by
  constructor
  · intro paired
    by_contra full
    rw [pair_up_none info player found full] at paired
    cases paired
  · exact pair_up_some info player found

theorem visits_bounded_iff (indices writes : List Nat) (state : PlayerInfo × Option Int) :
    (∀ index ∈ (indices.foldl (visitWrites player) (writes, some state.1)).1, index < maxMatches) ↔
      (∀ index ∈ writes, index < maxMatches) ∧ (indices.foldlM (visit player) state).isSome := by
  induction indices generalizing writes state with
  | nil => simp
  | cons index rest ih =>
    rw [List.foldl_cons, List.foldlM_cons]
    by_cases waits : waitingOther state.1 player index = true
    · have logged : visitWrites player (writes, some state.1) index =
          (writes ++ [state.1.totalMatches], pairUp state.1 player index) := if_pos waits
      have turn : visit player state index = (pairUp state.1 player index).map
          fun next => (next, some (state.1.totalMatches : Int)) := if_pos waits
      have bound := pair_up_room_iff state.1 player index
      rw [logged, turn]
      cases paired : pairUp state.1 player index with
      | none =>
        rw [paired] at bound
        have stuck : ∀ others : List Nat,
            others.foldl (visitWrites player) (writes ++ [state.1.totalMatches], none) =
              (writes ++ [state.1.totalMatches], none) := by
          intro others
          induction others with
          | nil => rfl
          | cons other others same => exact same
        rw [stuck]
        have full : ¬ state.1.totalMatches < maxMatches := fun room => by
          cases bound.mpr room
        simp [Nat.le_of_not_lt full]
      | some next =>
        rw [paired] at bound
        have room : state.1.totalMatches < maxMatches := bound.mp rfl
        rw [Option.map_some, Option.bind_eq_bind, Option.bind_some]
        rw [ih (writes ++ [state.1.totalMatches]) (next, some (state.1.totalMatches : Int))]
        simp [or_imp, forall_and, room]
    · have logged : visitWrites player (writes, some state.1) index = (writes, some state.1) :=
        if_neg waits
      have turn : visit player state index = some state := if_neg waits
      rw [logged, turn, Option.bind_eq_bind, Option.bind_some]
      exact ih writes state

theorem matches_room_iff (indices : List Nat) (state : PlayerInfo × Option Int) :
    (indices.foldlM (matchNext player) state).isSome ↔
      (indices ≠ [] → state.1.matchList.length + indices.length < maxMatches) := by
  induction indices generalizing state with
  | nil => simp
  | cons index rest ih =>
    have bound := pair_up_room_iff state.1 player index
    rw [PlayerInfo.totalMatches] at bound
    rw [List.foldlM_cons, List.length_cons]
    cases matched : matchNext player state index with
    | none =>
      have full : pairUp state.1 player index = none := Option.map_eq_none_iff.mp matched
      rw [full] at bound
      have noRoom : ¬ state.1.matchList.length + 1 < maxMatches := fun room => by
        cases bound.mpr room
      simp only [Option.bind_eq_bind, Option.bind_none, Option.isSome_none,
        Bool.false_eq_true, false_iff]
      intro room
      have enough := room (List.cons_ne_nil _ _)
      omega
    | some next =>
      obtain ⟨after, paired, _⟩ := Option.map_eq_some_iff.mp matched
      rw [paired] at bound
      have room : state.1.matchList.length + 1 < maxMatches := bound.mp rfl
      have grown := congrArg List.length (match_next_records player index state next matched)
      rw [List.length_append, List.length_singleton] at grown
      rw [Option.bind_eq_bind, Option.bind_some, ih next, grown]
      constructor
      · intro later _
        by_cases last : rest = []
        · subst last
          exact room
        · have enough := later last
          omega
      · intro enough _
        have all := enough (List.cons_ne_nil _ _)
        omega

theorem scan_writes_iff : (∀ index ∈ (scanWrites info player).1, index < maxMatches) ↔
      (waitingOthers info player ≠ [] →
        info.matchList.length + (waitingOthers info player).length < maxMatches) := by
  have bounded := visits_bounded_iff player (List.range info.players.length) [] (info, none)
  have result := matches_room_iff player (waitingOthers info player) (info, none)
  rw [← scan_is_matches] at result
  rw [← result]
  simpa [scanWrites, scan] using bounded

/-! ## One step -/

theorem search_writes_iff : (∀ index ∈ searchWrites info player, index < maxMatches) ↔
      (Searches info player → waitingOthers info player ≠ [] →
        info.matchList.length + (waitingOthers info player).length < maxMatches) := by
  rw [searchWrites]
  cases here : info.players[player]? with
  | none => simp [Searches, here]
  | some self =>
    cases enemy : self.enemy with
    | some other => simp [Searches, here, enemy]
    | none =>
      by_cases about : 0 < info.active - 1
      · have searches : Searches info player := ⟨⟨self, here, enemy⟩, about⟩
        simp only [enemy, if_pos about, searches, forall_const]
        exact scan_writes_iff info player
      · have idle : ¬ Searches info player := fun searches => about searches.2
        simp only [enemy, if_neg about, idle, false_implies, List.not_mem_nil, implies_true]

theorem advance_writes_iff (thread : Thread) :
    (advanceWrites info thread).InBounds ↔ HasRoom info thread := by
  obtain ⟨name, port, phase⟩ := thread
  cases phase with
  | connecting =>
    simp only [advanceWrites, Writes.InBounds, HasRoom, List.not_mem_nil, false_implies,
      implies_true, and_true]
    by_cases known : ∃ self ∈ info.players, self.name = name
    · obtain ⟨self, member, named⟩ := known
      rw [register_writes_known member named]
      exact ⟨fun _ => Or.inl ⟨self, member, named⟩, fun _ _ nothing => by cases nothing⟩
    · have unknown : ∀ self ∈ info.players, self.name ≠ name :=
        fun self member named => known ⟨self, member, named⟩
      rw [register_writes_new unknown]
      simp [known]
  | searching player =>
    simp only [advanceWrites, Writes.InBounds, HasRoom, List.not_mem_nil, false_implies,
      implies_true, true_and]
    exact search_writes_iff info player
  | playing player id => simp [advanceWrites, Writes.InBounds, HasRoom]
  | clearing player => simp [advanceWrites, Writes.InBounds, HasRoom]
  | leaving player => simp [advanceWrites, Writes.InBounds, HasRoom]
  | closed => simp [advanceWrites, Writes.InBounds, HasRoom]

theorem in_bounds_iff (world : Option World) (action : Action) :
    InBounds world action ↔ RoomyStep world action := by
  constructor
  · intro bounded before thread same here
    exact (advance_writes_iff before.info thread).mp (bounded before thread same here)
  · intro roomy before thread same here
    exact (advance_writes_iff before.info thread).mpr (roomy before thread same here)

/-! ## Whole runs -/

/-- Whatever connects and in whatever order the threads run, all writes are within the
tables exactly when every step finds room. -/
theorem writes_in_bounds_iff (connections : List (Text × Text))
    (actions : List Action) :
    EachStep step InBounds (some (start connections)) actions ↔
      EachStep step RoomyStep (some (start connections)) actions :=
  each_step_iff step InBounds RoomyStep in_bounds_iff _ actions

/-! ## A thousand and one names -/

def letters (number : Nat) : Text :=
  ⟨[UInt8.ofNat (97 + number / 676), UInt8.ofNat (97 + number / 26 % 26),
    UInt8.ofNat (97 + number % 26)], by simp⟩

theorem letters_injective {one other : Nat} (oneBound : one ≤ 1000) (otherBound : other ≤ 1000)
    (same : letters one = letters other) : one = other := by
  simp only [letters, Subtype.mk.injEq, List.cons.injEq, ← UInt8.toNat_inj, UInt8.toNat_ofNat',
    and_true] at same
  omega

def manyConnections (count : Nat) : List (Text × Text) :=
  (List.range count).map fun number => (letters number, letter 49)

def inTurn (count : Nat) : List Action := (List.range count).map fun number => ⟨number, []⟩

theorem in_turn_succ (count : Nat) : inTurn (count + 1) = inTurn count ++ [⟨count, []⟩] := by
  simp [inTurn, List.range_succ]

/-- The first connections have registered, the others have not run. -/
structure Registering (world : World) (count total : Nat) : Prop where
  names : world.info.players.map Player.name = (List.range count).map letters
  waiting : ∀ index, count ≤ index → index < total →
    world.threads[index]? = some ⟨letters index, letter 49, .connecting⟩

theorem registering_unknown (world : World) (count : Nat) (small : count ≤ 1000)
    (total : Nat) (registering : Registering world count total) :
    ∀ self ∈ world.info.players, self.name ≠ letters count := by
  intro self member named
  have listed : letters count ∈ world.info.players.map Player.name :=
    List.mem_map.mpr ⟨self, member, named⟩
  rw [registering.names] at listed
  obtain ⟨number, earlier, same⟩ := List.mem_map.mp listed
  have before := List.mem_range.mp earlier
  have equal := letters_injective (by omega) small same
  omega

theorem registering_run (total count : Nat) (within : count ≤ total) (small : count ≤ 1000) :
    ∃ world, run step (some (start (manyConnections total))) (inTurn count) = some world ∧
      Registering world count total := by
  induction count with
  | zero =>
    refine ⟨_, rfl, rfl, ?_⟩
    intro index _ bound
    simp [start, manyConnections, bound]
  | succ count ih =>
    obtain ⟨world, ran, registering⟩ := ih (by omega) (by omega)
    have next := registering.waiting count (Nat.le_refl _) (by omega)
    have size : world.info.players.length = count := by
      simpa using congrArg List.length registering.names
    have registered := register_new (letter 49)
      (registering_unknown world count (by omega) total registering)
    rw [if_pos (by rw [size, maxPlayers]; omega)] at registered
    rw [in_turn_succ, run_append, ran]
    have stepped : step (some world) ⟨count, []⟩ = some (world.moved count
        (Pairs.registered world.info (letters count) (letter 49))
        (.searching world.info.players.length)) := by
      simp only [step, Option.bind_some, next, advance, registered, Option.map_some]
    refine ⟨_, stepped, ?_, ?_⟩
    · simp [World.moved, Pairs.registered, registering.names, List.range_succ, newPlayer]
    · intro index after bound
      simp only [World.moved]
      rw [modify_other _ _ _ _ (by omega : index ≠ count)]
      exact registering.waiting index (by omega) bound

/-- With a thousand and one names the last registration writes behind `players`. -/
theorem thousand_and_one_names :
    ¬ EachStep step InBounds (some (start (manyConnections (maxPlayers + 1))))
      (inTurn (maxPlayers + 1)) := by
  obtain ⟨world, ran, registering⟩ :=
    registering_run (maxPlayers + 1) maxPlayers (Nat.le_succ _) (Nat.le_refl _)
  rw [in_turn_succ, each_step_append, ran]
  intro bounded
  have next := registering.waiting maxPlayers (Nat.le_refl _) (Nat.lt_succ_self _)
  have last := (bounded.2.1 world _ rfl next).1
  have size : world.info.players.length = maxPlayers := by
    simpa using congrArg List.length registering.names
  simp only [advanceWrites, register_writes_new
    (registering_unknown world maxPlayers (Nat.le_refl _) _ registering), size] at last
  exact Nat.lt_irrefl _ (last maxPlayers (List.mem_singleton_self _))

end Cprogramming.GameProtocol.TableBounds
