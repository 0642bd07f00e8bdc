import Cprogramming.GameProtocol.SharedRecord

/-!
# A player that connects again

The new connection of a player may take the record of the player while the old one
still clears it: its match is lost exactly when a thread clears a record that the other
connection holds.
-/

namespace Cprogramming.GameProtocol.Reconnect

open Server Matches Records SharedRecord
open Library.Runs

set_option autoImplicit false

/-- The next step keeps the record of every live connection of the name. -/
def KeepsLive (name : Text) (world : Option World) (action : Action) : Prop :=
  ∀ before after, world = some before → step world action = some after →
    ∀ thread ∈ before.threads, thread.name = name → live thread.phase = true →
      ∀ player, served thread.phase = some player → Keeps before.info after.info player

/-- What the thread reads next is there: the match of an enemy, and then the enemy. -/
def Reads (info : PlayerInfo) : Phase → Prop
  | .searching player => ∀ self ∈ info.players[player]?, self.enemy.isSome = true →
      (info.matchAt self.matchId).isSome = true
  | .playing player _ => ∀ self ∈ info.players[player]?, self.enemy.isSome = true
  | .connecting | .clearing _ | .leaving _ | .closed => True

def ReadsLive (name : Text) : Option World → Prop
  | none => True
  | some world => ∀ thread ∈ world.threads, thread.name = name → Reads world.info thread.phase

instance (info : PlayerInfo) : (phase : Phase) → Decidable (Reads info phase)
  | .searching player => inferInstanceAs (Decidable (∀ self ∈ info.players[player]?, _ → _))
  | .playing player _ => inferInstanceAs (Decidable (∀ self ∈ info.players[player]?, _))
  | .connecting | .clearing _ | .leaving _ | .closed => .isTrue trivial

instance (name : Text) : (world : Option World) → Decidable (ReadsLive name world)
  | none => .isTrue trivial
  | some world => inferInstanceAs (Decidable (∀ thread ∈ world.threads, _ → _))

/-- A thread of the name clears its record only if no live thread holds the record. -/
def ClearsAlone (name : Text) (world : Option World) (action : Action) : Prop :=
  ∀ before ∈ world, ∀ thread ∈ before.threads[action.thread]?, thread.name = name →
    clears thread.phase = true → ∀ other ∈ before.threads, live other.phase = true →
      served other.phase ≠ served thread.phase

instance (name : Text) (world : Option World) (action : Action) :
    Decidable (ClearsAlone name world action) :=
  inferInstanceAs (Decidable (∀ before ∈ world, ∀ thread ∈ before.threads[action.thread]?,
    thread.name = name → clears thread.phase = true → ∀ other ∈ before.threads,
      live other.phase = true → served other.phase ≠ served thread.phase))

/-! ## Whole runs -/

variable {world : World} {name : Text} {left right : Nat} {own other : Phase}

def Known (name : Text) (left right : Nat) (state : Option World) : Prop :=
  ∀ world, state = some world → ∃ own other, Two world name left right own other

theorem reads_own (two : Two world name left right own other) : Reads world.info own := by
  obtain ⟨port, here⟩ := two.first
  have serving := two.serves _ (List.mem_of_getElem? here)
  cases own with
  | searching player =>
    intro self selfHere enemy
    obtain ⟨same, there, named⟩ := serving player rfl
    rw [selfHere] at there
    cases there
    exact (two.record player self selfHere named).ownSide.2.2 enemy
  | playing player id =>
    intro self selfHere
    obtain ⟨same, there, named⟩ := serving player rfl
    rw [selfHere] at there
    cases there
    exact (two.record player self selfHere named).ownSide.2.2.1
  | connecting | clearing _ | leaving _ | closed => trivial

theorem two_phase (two : Two world name left right own other) {index : Nat} {thread : Thread}
    (here : world.threads[index]? = some thread) (named : thread.name = name) :
    index = left ∧ thread.phase = own ∨ index = right ∧ thread.phase = other := by
  obtain ⟨_, leftHere⟩ := two.first
  obtain ⟨_, rightHere⟩ := two.second
  by_cases isLeft : index = left
  · rw [isLeft, leftHere] at here
    cases here
    exact Or.inl ⟨isLeft, rfl⟩
  · by_cases isRight : index = right
    · rw [isRight, rightHere] at here
      cases here
      exact Or.inr ⟨isRight, rfl⟩
    · exact absurd named (two.others index thread here isLeft isRight)

theorem known_reads (name : Text) (left right : Nat) (state : Option World)
    (known : Known name left right state) : ReadsLive name state := by
  cases state with
  | none => trivial
  | some world =>
    obtain ⟨own, other, two⟩ := known world rfl
    intro thread member named
    obtain ⟨index, here⟩ := List.mem_iff_getElem?.mp member
    rcases two_phase two here named with
      ⟨_, phase⟩ | ⟨_, phase⟩
    · rw [phase]
      exact reads_own two
    · rw [phase]
      exact reads_own (two_swap two)

theorem step_own {next : World} {action : Action} (two : Two world name left right own other)
    (acts : action.thread = left) (alone : ClearsAlone name (some world) action)
    (ran : step (some world) action = some next) : (∃ phase, Two next name left right phase other) ∧
      ∀ phase player, phase = own ∨ phase = other → live phase = true →
        served phase = some player → Keeps world.info next.info player := by
  obtain ⟨port, here⟩ := two.first
  obtain ⟨otherPort, there⟩ := two.second
  have acting : world.threads[action.thread]? = some ⟨name, port, own⟩ := by
    rw [acts]
    exact here
  simp only [step, Option.bind_some, acting] at ran
  refine two_own world next name left right own other action port two here acts ?_ ran
  intro clearing
  by_contra active
  rw [Bool.not_eq_false] at active
  obtain ⟨player, serving⟩ := clears_serves clearing
  obtain ⟨place, alsoServing⟩ := live_serves active
  have same := two_place two serving alsoServing
  refine alone world rfl ⟨name, port, own⟩ acting rfl clearing ⟨name, otherPort, other⟩
    (List.mem_of_getElem? there) active ?_
  rw [serving, alsoServing, same]

theorem step_keeps (name : Text) (left right : Nat) (state : Option World) (action : Action)
    (known : Known name left right state) (alone : ClearsAlone name state action) :
    Known name left right (step state action) ∧ KeepsLive name state action := by
  cases state with
  | none =>
    refine ⟨fun world impossible => (by cases impossible), ?_⟩
    intro before after impossible
    cases impossible
  | some world =>
    obtain ⟨own, other, two⟩ := known world rfl
    -- What is to be shown of each of the three kinds of steps.
    suffices both : ∀ next, step (some world) action = some next →
        (∃ own other, Two next name left right own other) ∧
          ∀ phase player, phase = own ∨ phase = other → live phase = true →
            served phase = some player → Keeps world.info next.info player by
      refine ⟨fun next ran => (both next ran).1, ?_⟩
      rintro before next ⟨⟩ ran thread member named active player serving
      obtain ⟨index, there⟩ := List.mem_iff_getElem?.mp member
      refine (both next ran).2 thread.phase player ?_ active serving
      rcases two_phase two there named with
        ⟨_, phase⟩ | ⟨_, phase⟩
      · exact Or.inl phase
      · exact Or.inr phase
    intro next ran
    by_cases isLeft : action.thread = left
    · obtain ⟨⟨phase, kept⟩, keeps⟩ :=
        step_own two isLeft alone ran
      exact ⟨⟨phase, other, kept⟩, keeps⟩
    · by_cases isRight : action.thread = right
      · obtain ⟨⟨phase, kept⟩, keeps⟩ := step_own
          (two_swap two) isRight alone ran
        exact ⟨⟨own, phase, two_swap kept⟩, fun phase player which => keeps phase player which.symm⟩
      · simp only [step, Option.bind_some] at ran
        cases here : world.threads[action.thread]? with
        | none =>
          rw [here] at ran
          cases ran
          exact ⟨⟨own, other, two⟩, fun _ player _ _ _ => keeps_refl world.info player⟩
        | some thread =>
          rw [here] at ran
          have foreign := two.others action.thread thread here isLeft isRight
          have moves := advance_moves world next action thread
            (two.serves thread (List.mem_of_getElem? here)) ran
          refine ⟨⟨own, other, two_other two here isLeft isRight ran⟩, ?_⟩
          rintro phase player which active serving
          refine keeps_other thread.name world.info next.info moves player ?_
          have recorded : ∃ self, world.info.players[player]? = some self ∧ self.name = name := by
            rcases which with rfl | rfl
            · exact other_record (two_swap two) serving
            · exact other_record two serving
          obtain ⟨self, selfHere, named⟩ := recorded
          intro someone there
          rw [selfHere] at there
          cases there
          rw [named]
          exact foreign.symm

theorem step_loses {state : Option World} {action : Action} (known : Known name left right state)
    (shared : ¬ ClearsAlone name state action) : ¬ KeepsLive name state action := by
  intro keeps
  simp only [ClearsAlone, not_forall, not_not] at shared
  obtain ⟨world, isWorld, thread, acting, named, clearing, holder, member, active, same⟩ := shared
  rw [Option.mem_def] at isWorld acting
  subst isWorld
  obtain ⟨own, other, two⟩ := known world rfl
  obtain ⟨place, there⟩ := List.mem_iff_getElem?.mp member
  obtain ⟨player, serving⟩ := clears_serves clearing
  have holds := same.trans serving
  -- The thread that holds the record has the name of the record.
  have holderNamed : holder.name = name := by
    obtain ⟨self, here, selfNamed⟩ := two.serves holder member player holds
    obtain ⟨again, alsoHere, alsoNamed⟩ :=
      two.serves thread (List.mem_of_getElem? acting) player serving
    rw [here] at alsoHere
    cases alsoHere
    rw [← selfNamed, alsoNamed, named]
  have differ : thread.phase ≠ holder.phase := by
    intro equal
    rw [equal] at clearing
    cases phase : holder.phase <;> rw [phase] at clearing active <;> cases clearing <;> cases active
  have step_thread : step (some world) action = advance world action thread := by
    simp only [step, Option.bind_some, acting]
  obtain ⟨threadName, port, phase⟩ := thread
  cases named
  have loses : ∀ left right own other, Two world threadName left right own other →
      action.thread = left → phase = own → holder.phase = other → False := by
    rintro left right own other pair rfl rfl rfl
    obtain ⟨next, ran, lost⟩ := clearing_loses action pair acting clearing active serving
    exact lost (keeps world next rfl (step_thread.trans ran) holder member holderNamed active player
      holds)
  rcases two_phase two acting rfl with
    ⟨acts, isOwn⟩ | ⟨acts, isOther⟩
  · rcases two_phase two there holderNamed with
      ⟨_, holdsOwn⟩ | ⟨_, holdsOther⟩
    · exact differ (isOwn.trans holdsOwn.symm)
    · exact loses left right own other two acts isOwn holdsOther
  · rcases two_phase two there holderNamed with
      ⟨_, holdsOwn⟩ | ⟨_, holdsOther⟩
    · exact loses right left other own (two_swap two) acts isOther holdsOwn
    · exact differ (isOther.trans holdsOther.symm)

theorem known_start {connections : List (Text × Text)} (apart : left ≠ right)
    (first : (connections.map Prod.fst)[left]? = some name)
    (second : (connections.map Prod.fst)[right]? = some name)
    (others : ∀ index, index ≠ left → index ≠ right →
      (connections.map Prod.fst)[index]? ≠ some name) :
    Known name left right (some (start connections)) := by
  have begun : ∀ index : Nat, (connections.map Prod.fst)[index]? = some name →
      ∃ port : Text, (start connections).threads[index]? =
        some ⟨name, port, .connecting⟩ := by
    intro index here
    rw [List.getElem?_map] at here
    obtain ⟨⟨_, port⟩, there, rfl⟩ := Option.map_eq_some_iff.mp here
    exact ⟨port, by simp [start, there]⟩
  rintro world ⟨⟩
  refine ⟨.connecting, .connecting, apart, begun left first, begun right second, ?_, ?_, ?_, ?_, ?_⟩
  · intro index thread here notLeft notRight named
    simp only [start, List.getElem?_map] at here
    obtain ⟨⟨_, port⟩, there, rfl⟩ := Option.map_eq_some_iff.mp here
    refine others index notLeft notRight ?_
    rw [List.getElem?_map, there, ← named]
    rfl
  · intro thread member player serving
    obtain ⟨connection, _, rfl⟩ := List.mem_map.mp member
    cases serving
  · exact List.nodup_nil
  · intro _ _ self nobody
    cases nobody
  · intro player self nobody
    cases nobody

/-- Two connections have the name and any others have other ones. Along a run the match
of either of the two is kept, and every read of it finds it, exactly when no step of
the two clears a record that the other one holds. -/
theorem match_kept_iff (connections : List (Text × Text)) (name : Text)
    (left right : Nat) (apart : left ≠ right)
    (first : (connections.map Prod.fst)[left]? = some name)
    (second : (connections.map Prod.fst)[right]? = some name)
    (others : ∀ index, index ≠ left → index ≠ right →
      (connections.map Prod.fst)[index]? ≠ some name) (actions : List Action) :
    (Throughout step (ReadsLive name) (some (start connections)) actions ∧
        EachStep step (KeepsLive name) (some (start connections)) actions) ↔
      EachStep step (ClearsAlone name) (some (start connections)) actions :=
  throughout_and_each_step_iff_of_good_steps step (Known name left right) (ReadsLive name)
    (KeepsLive name) (ClearsAlone name) (known_reads name left right)
    (step_keeps name left right)
    (fun _ _ known shared held => step_loses known shared held.2) _
    (known_start apart first second others) actions

/-- The player "a" connects twice, "b" and "c" once. -/
def reconnection : List (Text × Text) :=
  [(letter 97, letter 49), (letter 98, letter 50), (letter 97, letter 51), (letter 99, letter 52)]

/-- The first connection of "a" has left before the second one registers. -/
theorem left_before_reconnecting :
    Throughout step (ReadsLive (letter 97)) (some (start reconnection))
        (turns [0, 1, 0, 1, 0, 0, 0, 2, 3, 3, 2, 2, 2, 2]) ∧
      EachStep step (KeepsLive (letter 97)) (some (start reconnection))
        (turns [0, 1, 0, 1, 0, 0, 0, 2, 3, 3, 2, 2, 2, 2]) := by
  refine (match_kept_iff reconnection (letter 97) 0 2 (by decide) rfl rfl ?_ _).mpr (by decide +kernel)
  intro index notFirst notSecond
  match index with
  | 0 => exact absurd rfl notFirst
  | 1 => decide
  | 2 => exact absurd rfl notSecond
  | 3 => decide
  | later + 4 => simp [reconnection]

/-- The first connection of "a" clears `match_id` after "c" has been matched with the
second one, which then reads `matches[-1]`. -/
theorem reconnection_loses_match :
    ¬ Throughout step (ReadsLive (letter 97)) (some (start reconnection))
        (turns [0, 1, 0, 0, 0, 2, 3, 3, 0]) ∧
      run step (some (start reconnection)) (turns [0, 1, 0, 0, 0, 2, 3, 3, 0, 2]) = none := by
  refine ⟨fun held => ?_, Option.isNone_iff_eq_none.mp (by decide +kernel)⟩
  exact absurd (throughout_run step _ _ _ held) (by decide +kernel)

end Cprogramming.GameProtocol.Reconnect
