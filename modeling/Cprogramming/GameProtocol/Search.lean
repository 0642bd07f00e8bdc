import Cprogramming.GameProtocol.Server
import Cprogramming.Library.Tables

/-!
# The search for an opponent

What one match changes, and the search as a sequence of matches: the player is
matched with every other player that waits when the search begins.
-/

namespace Cprogramming.GameProtocol.Search

open Server
open Library.Tables

set_option autoImplicit false

/-! ## One match -/

variable (info next : PlayerInfo) (player found : Nat)

/-- Everything that a match of `player` and `found` changes. -/
structure PairedUp (info next : PlayerInfo) (player found : Nat) (own other : Player) : Prop where
  first : next.players[player]? = some (own.engage info.totalMatches found)
  second : next.players[found]? = some (other.engage info.totalMatches player)
  others : ∀ index, index ≠ player → index ≠ found →
    next.players[index]? = info.players[index]?
  size : next.players.length = info.players.length
  recorded : next.matchList = info.matchList ++ [⟨player, found, .active, info.totalMatches⟩]

theorem pair_up_some (room : info.totalMatches < maxMatches) :
    (pairUp info player found).isSome := by
  simp [pairUp, room]

theorem pair_up_none (full : ¬ info.totalMatches < maxMatches) :
    pairUp info player found = none := by
  simp [pairUp, full]

theorem pair_up_value (paired : pairUp info player found = some next) :
    next.players = (info.players.modify player fun self =>
        self.engage info.totalMatches found).modify found
          (fun other => other.engage info.totalMatches player) ∧
      next.active = info.active - 2 ∧
      next.matchList = info.matchList ++ [⟨player, found, .active, info.totalMatches⟩] := by
  simp only [pairUp] at paired
  split at paired
  · cases paired
    exact ⟨rfl, rfl, rfl⟩
  · cases paired

theorem pair_up_others {info next : PlayerInfo} {player found index : Nat}
    (paired : pairUp info player found = some next) (notPlayer : index ≠ player)
    (notFound : index ≠ found) : next.players[index]? = info.players[index]? := by
  rw [(pair_up_value info next player found paired).1, modify_other _ found index _ notFound,
    modify_other _ player index _ notPlayer]

theorem pair_up_spec (self other : Player) (selfHere : info.players[player]? = some self)
    (otherHere : info.players[found]? = some other) (apart : found ≠ player)
    (paired : pairUp info player found = some next) :
    PairedUp info next player found self other := by
  obtain ⟨players, _, recorded⟩ := pair_up_value info next player found paired
  refine ⟨?_, ?_, ?_, ?_, recorded⟩
  · rw [players, modify_other _ found player _ apart.symm]
    exact modify_same _ player _ self selfHere
  · rw [players]
    refine modify_same _ found _ other ?_
    rw [modify_other _ player found _ apart]
    exact otherHere
  · intro index notPlayer notFound
    exact pair_up_others paired notPlayer notFound
  · simp only [players, List.length_modify]

def free (player : Player) : Bool := decide (player.status ≠ .playing)

theorem pair_up_counts (self other : Player) (selfHere : info.players[player]? = some self)
    (otherHere : info.players[found]? = some other) (apart : found ≠ player)
    (selfFree : free self = true) (otherFree : free other = true)
    (paired : pairUp info player found = some next)
    (counted : info.active = info.players.countP free) :
    next.active = next.players.countP free := by
  obtain ⟨players, active, _⟩ := pair_up_value info next player found paired
  have one := count_modify info.players player
    (fun self => self.engage info.totalMatches found) self selfHere free
  have two := count_modify
    (info.players.modify player fun self => self.engage info.totalMatches found) found
    (fun other => other.engage info.totalMatches player) other
    (by rw [modify_other _ player found _ apart]; exact otherHere) free
  have engaged : ∀ (someone : Player) (id : Int) (enemy : Nat),
      free (someone.engage id enemy) = false := fun _ _ _ => rfl
  rw [engaged, selfFree] at one
  rw [engaged, otherFree] at two
  simp only [if_true, Bool.false_eq_true, if_false] at one two
  rw [players, active]
  omega

/-! ## The whole search -/

def waitingOthers (info : PlayerInfo) (player : Nat) : List Nat :=
  (List.range info.players.length).filter (waitingOther info player)

theorem waiting_other_iff (index : Nat) : waitingOther info player index = true ↔
      index ≠ player ∧ ∃ other, info.players[index]? = some other ∧ other.status = .waiting := by
  simp [waitingOther, Option.any_eq_true]

def matchNext (player : Nat) (state : PlayerInfo × Option Int) (index : Nat) :
    Option (PlayerInfo × Option Int) :=
  (pairUp state.1 player index).map fun next => (next, some state.1.totalMatches)

theorem waiting_other_after (index : Nat) (apart : index ≠ found)
    (paired : pairUp info player found = some next) :
    waitingOther next player index = waitingOther info player index := by
  by_cases same : index = player
  · simp [waitingOther, same]
  · have kept := pair_up_others paired same apart
    simp only [waitingOther, kept]

theorem visits_are_matches {indices : List Nat} (distinct : indices.Nodup)
    (state : PlayerInfo × Option Int) : indices.foldlM (visit player) state =
      (indices.filter (waitingOther state.1 player)).foldlM (matchNext player) state := by
  induction indices generalizing state with
  | nil => rfl
  | cons index rest ih =>
    have fresh := (List.nodup_cons.mp distinct).1
    have restDistinct := (List.nodup_cons.mp distinct).2
    rw [List.foldlM_cons]
    by_cases waits : waitingOther state.1 player index = true
    · rw [List.filter_cons_of_pos waits, List.foldlM_cons]
      have turn : visit player state index = matchNext player state index := if_pos waits
      rw [turn]
      cases paired : pairUp state.1 player index with
      | none => simp [matchNext, paired]
      | some next =>
        have found : matchNext player state index =
            some (next, some (state.1.totalMatches : Int)) := by
          simp [matchNext, paired]
        rw [found, Option.bind_eq_bind, Option.bind_some, Option.bind_some, ih restDistinct]
        -- The players further on wait after the match as they did before it.
        have sameRest : rest.filter (waitingOther next player) =
            rest.filter (waitingOther state.1 player) := by
          refine List.filter_congr fun other member => ?_
          exact waiting_other_after state.1 next player index other
            (fun same => fresh (same ▸ member)) paired
        rw [sameRest]
    · rw [List.filter_cons_of_neg waits]
      have turn : visit player state index = some state := if_neg waits
      rw [turn, Option.bind_eq_bind, Option.bind_some, ih restDistinct]

theorem scan_is_matches :
    scan info player = (waitingOthers info player).foldlM (matchNext player) (info, none) :=
  visits_are_matches player List.nodup_range (info, none)

theorem scan_nobody (nobody : waitingOthers info player = []) :
    scan info player = some (info, none) := by
  rw [scan_is_matches, nobody]
  rfl

theorem scan_one (one : waitingOthers info player = [found]) : scan info player =
      (pairUp info player found).map fun next => (next, some (info.totalMatches : Int)) := by
  rw [scan_is_matches, one]
  simp [matchNext]

theorem match_next_records (index : Nat) (state next : PlayerInfo × Option Int)
    (matched : matchNext player state index = some next) : next.1.matchList =
      state.1.matchList ++ [⟨player, index, .active, state.1.totalMatches⟩] := by
  obtain ⟨after, paired, rfl⟩ := Option.map_eq_some_iff.mp matched
  exact (pair_up_value state.1 after player index paired).2.2

theorem matches_grow (indices : List Nat) (state final : PlayerInfo × Option Int)
    (ran : indices.foldlM (matchNext player) state = some final) :
    ∃ later, final.1.matchList = state.1.matchList ++ later := by
  induction indices generalizing state with
  | nil =>
    cases ran
    exact ⟨[], (List.append_nil _).symm⟩
  | cons index rest ih =>
    rw [List.foldlM_cons] at ran
    obtain ⟨next, matched, others⟩ := Option.bind_eq_some_iff.mp ran
    obtain ⟨later, grown⟩ := ih next others
    rw [match_next_records player index state next matched, List.append_assoc] at grown
    exact ⟨_, grown⟩

theorem scan_two (first second : Nat) (rest : List Nat) (last : Option Int)
    (two : waitingOthers info player = first :: second :: rest)
    (ran : scan info player = some (next, last)) :
    ∃ one other later, one.p1 = player ∧ other.p1 = player ∧ one.status = .active ∧
      other.status = .active ∧ next.matchList = info.matchList ++ one :: other :: later := by
  rw [scan_is_matches, two, List.foldlM_cons] at ran
  obtain ⟨middle, matched, more⟩ := Option.bind_eq_some_iff.mp ran
  rw [List.foldlM_cons] at more
  obtain ⟨after, matchedAgain, others⟩ := Option.bind_eq_some_iff.mp more
  obtain ⟨later, grown⟩ := matches_grow player rest after (next, last) others
  rw [match_next_records player second middle after matchedAgain,
    match_next_records player first (info, none) middle matched, List.append_assoc,
    List.append_assoc] at grown
  exact ⟨_, _, later, rfl, rfl, rfl, rfl, grown⟩

end Cprogramming.GameProtocol.Search
