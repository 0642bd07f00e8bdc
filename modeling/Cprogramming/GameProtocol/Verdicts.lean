import Cprogramming.GameProtocol.Play
import Mathlib.Data.Nat.Find

/-!
# The verdicts of two clients

How long a match should last and what both clients should report, and that they do so
exactly when no turn of scissors against rock decides the match before its last turn:
the client with the scissors does not set `done` there and plays on alone.
-/

namespace Cprogramming.GameProtocol.Verdicts

open Play
open Library.Runs

set_option autoImplicit false

/-! ## What should happen -/

/-- The `status` of the first client after some turns of the first loop. -/
def scoreAfter (one two : Nat → Move) : Nat → Int
  | 0 => 0
  | turns + 1 => scoreAfter one two turns + openingTurn (one turns) (two turns)

/-- The turns from `turn` to the first decisive one, at most that many. -/
def tieBreakTurns (one two : Nat → Move) : Nat → Nat → Nat
  | 0, _ => 0
  | left + 1, turn => if one turn = two turn then tieBreakTurns one two left (turn + 1) + 1 else 1

def expectedTurns (one two : Nat → Move) : Nat :=
  if scoreAfter one two 5 = 0 then 5 + tieBreakTurns one two 15 5 else 5

structure Agree (one two : Entrant) (clients : Client × Client) : Prop where
  turns : clients.1.turns = expectedTurns one.moves two.moves
  turnsToo : clients.2.turns = expectedTurns one.moves two.moves
  results : ∃ result, clients.1.result = some result ∧ clients.2.result = some result ∧
    (result = Server.tie ∨ result = one.name ∨ result = two.name)

def RockScissors (own enemy : Move) : Prop :=
  own = .rock ∧ enemy = .scissors ∨ own = .scissors ∧ enemy = .rock

/-- If the first five turns are tied, the first decisive one after them is not rock
against scissors, unless it is the last of the fifteen. -/
def Level (one two : Nat → Move) : Prop :=
  scoreAfter one two 5 = 0 → ∀ count < 14,
    (∀ earlier < count, one (5 + earlier) = two (5 + earlier)) →
      ¬ RockScissors (one (5 + count)) (two (5 + count))

/-! ## The game by its turns -/

variable (one two : Nat → Move) (own enemy : Move)

variable {count : Nat}

theorem opening_turn_swap : openingTurn enemy own = -openingTurn own enemy := by
  cases own <;> cases enemy <;> rfl

theorem tie_break_turn_swap : (tieBreakTurn enemy own).1 = -(tieBreakTurn own enemy).1 := by
  cases own <;> cases enemy <;> rfl

theorem tie_break_turn_tied (move : Move) : tieBreakTurn move move = (0, false) := by
  cases move <;> rfl

/-- Every decisive turn ends the match for both, but one. -/
theorem tie_break_turn_done {own enemy : Move} (differ : own ≠ enemy)
    (level : ¬ RockScissors own enemy) : (tieBreakTurn own enemy).2 = true := by
  cases own <;> cases enemy <;> simp_all [tieBreakTurn, RockScissors]

theorem rock_scissors_swap : RockScissors own enemy ↔ RockScissors enemy own := by
  simp only [RockScissors, and_comm, or_comm]

theorem score_after_swap (turns : Nat) : scoreAfter two one turns = -scoreAfter one two turns := by
  induction turns with
  | zero => rfl
  | succ turns ih =>
    rw [scoreAfter, scoreAfter, ih, opening_turn_swap (one turns) (two turns)]
    omega

theorem after_opening {turns : Nat} (few : turns ≤ 5) : after one two turns =
      ⟨openingLoop turns (scoreAfter one two turns), scoreAfter one two turns⟩ := by
  induction turns with
  | zero => rfl
  | succ turns ih =>
    have place : openingLoop turns (scoreAfter one two turns) = .opening turns := if_pos few
    rw [after, ih (Nat.le_of_succ_le few), place, scoreAfter]
    rfl

theorem turn_tie_break (count : Nat) (own enemy : Move) :
    Game.turn ⟨.tieBreak count, 0⟩ own enemy =
      ⟨tieBreakLoop (count + 1) (tieBreakTurn own enemy).2, (tieBreakTurn own enemy).1⟩ := by
  simp only [Game.turn, Int.zero_add]

theorem after_tied (few : count < 15) (level : scoreAfter one two 5 = 0)
    (tied : ∀ earlier < count, one (5 + earlier) = two (5 + earlier)) :
    after one two (5 + count) = ⟨.tieBreak count, 0⟩ := by
  induction count with
  | zero =>
    rw [after_opening one two (Nat.le_refl 5), level]
    rfl
  | succ count ih =>
    rw [← Nat.add_assoc, after, ih (by omega) fun earlier before => tied earlier (by omega),
      tied count (Nat.lt_succ_self _), turn_tie_break, tie_break_turn_tied, tieBreakLoop,
      if_pos (And.intro few rfl)]

theorem after_decisive (few : count < 15) (level : scoreAfter one two 5 = 0)
    (tied : ∀ earlier < count, one (5 + earlier) = two (5 + earlier)) :
    after one two (5 + count + 1) =
      ⟨tieBreakLoop (count + 1) (tieBreakTurn (one (5 + count)) (two (5 + count))).2,
        (tieBreakTurn (one (5 + count)) (two (5 + count))).1⟩ := by
  rw [after, after_tied one two few level tied, turn_tie_break]

theorem opening_going (turn : Nat) (early : turn < 5) : ¬ Ended one two turn := by
  have place : openingLoop turn (scoreAfter one two turn) = .opening turn := if_pos early
  rw [Ended, after_opening one two (Nat.le_of_lt early), place]
  rintro ⟨⟩

theorem tied_going (few : count < 15) (level : scoreAfter one two 5 = 0)
    (tied : ∀ earlier < count, one (5 + earlier) = two (5 + earlier)) {turn : Nat}
    (before : turn ≤ 5 + count) : ¬ Ended one two turn := by
  by_cases early : turn < 5
  · exact opening_going one two turn early
  · obtain ⟨earlier, rfl⟩ : ∃ earlier, turn = 5 + earlier := ⟨turn - 5, by omega⟩
    rw [Ended, after_tied one two (by omega) level fun other sooner =>
      tied other (by omega)]
    rintro ⟨⟩

/-! ## The expected turns -/

theorem tie_break_turns_decisive (count left turn : Nat) (within : count < left)
    (tied : ∀ earlier < count, one (turn + earlier) = two (turn + earlier))
    (differ : one (turn + count) ≠ two (turn + count)) :
    tieBreakTurns one two left turn = count + 1 := by
  induction count generalizing left turn with
  | zero =>
    obtain ⟨more, rfl⟩ : ∃ more, left = more + 1 := ⟨left - 1, by omega⟩
    rw [Nat.add_zero] at differ
    rw [tieBreakTurns, if_neg differ]
  | succ count ih =>
    obtain ⟨more, rfl⟩ : ∃ more, left = more + 1 := ⟨left - 1, by omega⟩
    have later := ih more (turn + 1) (by omega) (fun earlier before => by
        have same := tied (earlier + 1) (by omega)
        rw [Nat.add_right_comm, Nat.add_assoc]
        exact same)
      (by rw [Nat.add_right_comm, Nat.add_assoc]; exact differ)
    have first := tied 0 (Nat.succ_pos _)
    rw [Nat.add_zero] at first
    rw [tieBreakTurns, if_pos first, later]

theorem tie_break_turns_tied (left turn : Nat)
    (tied : ∀ earlier < left, one (turn + earlier) = two (turn + earlier)) :
    tieBreakTurns one two left turn = left := by
  induction left generalizing turn with
  | zero => rfl
  | succ left ih =>
    have later := ih (turn + 1) fun earlier before => by
      have same := tied (earlier + 1) (by omega)
      rw [Nat.add_right_comm, Nat.add_assoc]
      exact same
    have first := tied 0 (Nat.succ_pos _)
    rw [Nat.add_zero] at first
    rw [tieBreakTurns, if_pos first, later]

theorem tie_break_turns_swap (left turn : Nat) :
    tieBreakTurns two one left turn = tieBreakTurns one two left turn := by
  induction left generalizing turn with
  | zero => rfl
  | succ left ih => simp only [tieBreakTurns, ih (turn + 1), eq_comm]

theorem expected_turns_swap : expectedTurns two one = expectedTurns one two := by
  rw [expectedTurns, expectedTurns, score_after_swap one two, tie_break_turns_swap]
  simp only [Int.neg_eq_zero]

/-! ## Level matches -/

variable {judged : Nat}

/-- Both games end after the same turns with opposite scores. -/
structure Decided (one two : Nat → Move) (turns : Nat) (status : Int) : Prop where
  ended : after one two turns = ⟨.finished, status⟩
  endedToo : after two one turns = ⟨.finished, -status⟩
  going : ∀ turn < turns, ¬ Ended one two turn
  goingToo : ∀ turn < turns, ¬ Ended two one turn

theorem decided_opening (decisive : scoreAfter one two 5 ≠ 0) :
    Decided one two 5 (scoreAfter one two 5) where
  ended := by
    rw [after_opening one two (Nat.le_refl 5)]
    simp [openingLoop, decisive]
  endedToo := by
    rw [after_opening two one (Nat.le_refl 5), score_after_swap one two]
    simp [openingLoop, decisive]
  going := opening_going one two
  goingToo := opening_going two one

theorem decided_tie_break (few : count < 15) (level : scoreAfter one two 5 = 0)
    (tied : ∀ earlier < count, one (5 + earlier) = two (5 + earlier))
    (last : count = 14 ∨ one (5 + count) ≠ two (5 + count) ∧
      ¬ RockScissors (one (5 + count)) (two (5 + count))) :
    Decided one two (5 + count + 1) (tieBreakTurn (one (5 + count)) (two (5 + count))).1 := by
  have levelToo : scoreAfter two one 5 = 0 := by
    rw [score_after_swap one two, level]
    rfl
  have tiedToo : ∀ earlier < count, two (5 + earlier) = one (5 + earlier) :=
    fun earlier before => (tied earlier before).symm
  have leaves : ∀ done, (count = 14 ∨ done = true) → tieBreakLoop (count + 1) done = .finished := by
    rintro done (rfl | rfl)
    · exact if_neg fun both => absurd both.1 (Nat.lt_irrefl 15)
    · exact if_neg fun both => by cases both.2
  refine ⟨?_, ?_, ?_, ?_⟩
  · rw [after_decisive one two few level tied, leaves]
    exact last.imp id fun decisive => tie_break_turn_done decisive.1 decisive.2
  · rw [after_decisive two one few levelToo tiedToo, leaves, tie_break_turn_swap]
    refine last.imp id fun decisive => tie_break_turn_done decisive.1.symm ?_
    rw [rock_scissors_swap]
    exact decisive.2
  · exact fun turn before => tied_going one two few level tied (by omega)
  · exact fun turn before => tied_going two one few levelToo tiedToo (by omega)

theorem first_decisive : (∀ count < 15, one (5 + count) = two (5 + count)) ∨
      ∃ count < 15, (∀ earlier < count, one (5 + earlier) = two (5 + earlier)) ∧
        one (5 + count) ≠ two (5 + count) := by
  by_cases tied : ∀ count < 15, one (5 + count) = two (5 + count)
  · exact Or.inl tied
  · have exists_decisive : ∃ count, count < 15 ∧ one (5 + count) ≠ two (5 + count) := by
      simpa only [not_forall, exists_prop] using tied
    obtain ⟨few, differ⟩ := Nat.find_spec exists_decisive
    refine Or.inr ⟨Nat.find exists_decisive, few, ?_, differ⟩
    intro earlier before
    by_contra other
    exact Nat.find_min exists_decisive before ⟨by omega, other⟩

theorem level_decided (level : Level one two) :
    ∃ status, Decided one two (expectedTurns one two) status := by
  by_cases tiedOpening : scoreAfter one two 5 = 0
  · rw [expectedTurns, if_pos tiedOpening]
    rcases first_decisive one two with tied | ⟨count, few, tied, differ⟩
    · rw [tie_break_turns_tied one two 15 5 tied]
      exact ⟨_, decided_tie_break one two (by decide) tiedOpening
        (fun earlier before => tied earlier (by omega)) (Or.inl rfl)⟩
    · rw [tie_break_turns_decisive one two count 15 5 few tied differ]
      refine ⟨_, decided_tie_break one two few tiedOpening tied ?_⟩
      by_cases last : count = 14
      · exact Or.inl last
      · exact Or.inr ⟨differ, level tiedOpening count (by omega) tied⟩
  · rw [expectedTurns, if_neg tiedOpening]
    exact ⟨_, decided_opening one two tiedOpening⟩

theorem turns_decided {self enemy : Entrant} {client : Client} {turns : Nat} {status : Int}
    (follows : Follows self enemy client judged) (reported : client.result.isSome = true)
    (ended : after self.moves enemy.moves turns = ⟨.finished, status⟩)
    (going : ∀ turn < turns, ¬ Ended self.moves enemy.moves turn)
    (enemyGoing : ∀ turn < turns, ¬ Ended enemy.moves self.moves turn) :
    client.turns = turns ∧ client.result = some (winner self.name enemy.name status) := by
  obtain ⟨result, reported⟩ := Option.isSome_iff_exists.mp reported
  obtain ⟨rests, finished, isWinner⟩ := follows.reported result reported
  have trueGame : ∀ count ≤ turns, after self.moves (heard self.moves enemy.moves) count =
      after self.moves enemy.moves count := fun count within =>
    after_heard self.moves enemy.moves count fun turn before => enemyGoing turn (by omega)
  have count : judged = turns := by
    rcases Nat.lt_trichotomy judged turns with before | same | behind
    · refine absurd ?_ (going judged before)
      rw [Ended, ← trueGame judged (Nat.le_of_lt before), ← follows.game]
      exact finished
    · exact same
    · refine absurd ?_ (follows.played turns behind)
      rw [Ended, trueGame turns (Nat.le_refl _), ended]
  rw [follows.rests rests, reported, isWinner, follows.game, count, trueGame turns (Nat.le_refl _),
    ended]
  exact ⟨rfl, rfl⟩

theorem winner_swap (one two : List UInt8) (status : Int) :
    winner two one (-status) = winner one two status := by
  rcases Int.lt_trichotomy status 0 with lost | rfl | won
  · rw [winner, winner, if_neg (by omega), if_pos (by omega), if_neg (by omega), if_neg (by omega)]
  · rfl
  · rw [winner, winner, if_neg (by omega), if_neg (by omega), if_neg (by omega), if_pos won]

theorem level_agree {one two : Entrant} {clients : Client × Client} {judgedToo : Nat}
    (joint : Joint one two clients.1 clients.2 judged judgedToo) (reported : Reported clients)
    (level : Level one.moves two.moves) : Agree one two clients := by
  obtain ⟨status, ended, endedToo, going, goingToo⟩ := level_decided one.moves two.moves level
  obtain ⟨turns, result⟩ := turns_decided joint.oneFollows reported.1 ended going goingToo
  obtain ⟨turnsToo, resultToo⟩ := turns_decided joint.twoFollows reported.2 endedToo goingToo going
  rw [winner_swap] at resultToo
  refine ⟨turns, turnsToo, _, result, resultToo, ?_⟩
  rw [winner]
  split
  · exact Or.inl rfl
  · split
    · exact Or.inr (Or.inl rfl)
    · exact Or.inr (Or.inr rfl)

/-! ## Matches that are not level -/

theorem scissors_go_on {self enemy : Entrant} {client : Client}
    (follows : Follows self enemy client judged) (reported : client.result.isSome = true)
    (few : count < 14) (level : scoreAfter self.moves enemy.moves 5 = 0)
    (tied : ∀ earlier < count, self.moves (5 + earlier) = enemy.moves (5 + earlier))
    (scissors : self.moves (5 + count) = .scissors) (rock : enemy.moves (5 + count) = .rock) :
    client.turns ≠ expectedTurns self.moves enemy.moves := by
  obtain ⟨result, reported⟩ := Option.isSome_iff_exists.mp reported
  obtain ⟨rests, finished, _⟩ := follows.reported result reported
  have differ : self.moves (5 + count) ≠ enemy.moves (5 + count) := by
    rw [scissors, rock]
    decide
  have expected : expectedTurns self.moves enemy.moves = 5 + count + 1 := by
    rw [expectedTurns, if_pos level,
      tie_break_turns_decisive self.moves enemy.moves count 15 5 (by omega) tied differ,
      Nat.add_assoc]
  have enemyLevel : scoreAfter enemy.moves self.moves 5 = 0 := by
    rw [score_after_swap self.moves enemy.moves, level]
    rfl
  have enemyGoing : ∀ turn < 5 + count + 1, ¬ Ended enemy.moves self.moves turn :=
    fun turn before => tied_going enemy.moves self.moves (by omega) enemyLevel
      (fun earlier sooner => (tied earlier sooner).symm) (by omega)
  intro same
  rw [follows.rests rests, expected] at same
  rw [follows.game, same, after_heard self.moves enemy.moves _ enemyGoing,
    after_decisive self.moves enemy.moves (by omega) level tied, scissors, rock] at finished
  have goesOn : tieBreakLoop (count + 1) false = .tieBreak (count + 1) :=
    if_pos ⟨by omega, rfl⟩
  have contrary : Place.tieBreak (count + 1) = .finished := goesOn.symm.trans finished
  cases contrary

theorem not_level_disagree {one two : Entrant} {clients : Client × Client} {judgedToo : Nat}
    (joint : Joint one two clients.1 clients.2 judged judgedToo) (reported : Reported clients)
    (uneven : ¬ Level one.moves two.moves) : ¬ Agree one two clients := by
  simp only [Level, not_forall, not_not] at uneven
  obtain ⟨level, count, few, tied, ⟨rock, scissors⟩ | ⟨scissors, rock⟩⟩ := uneven
  · intro agree
    refine scissors_go_on joint.twoFollows reported.2 few ?_
      (fun earlier before => (tied earlier before).symm) scissors rock ?_
    · rw [score_after_swap one.moves two.moves, level]
      rfl
    · rw [expected_turns_swap]
      exact agree.turnsToo
  · intro agree
    exact scissors_go_on joint.oneFollows reported.1 few level tied scissors rock agree.turns

/-- In every order of the actions of the two clients both can report, and where both
have reported they agree: this holds exactly for level matches. -/
theorem clients_agree_iff (one two : Entrant) :
    (∀ schedule, (∃ more, Reported (run (step one two) start (schedule ++ more))) ∧
        (Reported (run (step one two) start schedule) →
          Agree one two (run (step one two) start schedule))) ↔
      Level one.moves two.moves := by
  have finishes : ∀ schedule, ∃ more, Reported (run (step one two) start (schedule ++ more)) := by
    intro schedule
    obtain ⟨judged, judgedToo, joint⟩ := run_joint one two schedule
    obtain ⟨more, reported⟩ := both_can_report one two _ judged judgedToo joint
    refine ⟨more, ?_⟩
    rw [run_append]
    exact reported
  constructor
  · intro holds
    by_contra uneven
    obtain ⟨schedule, reported⟩ := finishes []
    rw [List.nil_append] at reported
    obtain ⟨judged, judgedToo, joint⟩ := run_joint one two schedule
    exact not_level_disagree joint reported uneven ((holds schedule).2 reported)
  · intro level schedule
    refine ⟨finishes schedule, fun reported => ?_⟩
    obtain ⟨judged, judgedToo, joint⟩ := run_joint one two schedule
    exact level_agree joint reported level

/-- The player "a" plays scissors in the first turn of the tie-break, "b" always rock. -/
def scissorsOnce : Entrant := ⟨Server.letter 97, fun turn => if turn = 5 then .scissors else .rock⟩

def alwaysRock : Entrant := ⟨Server.letter 98, fun _ => .rock⟩

def inTurn (rounds : Nat) : List Who := (List.replicate rounds [Who.one, Who.two]).flatten

/-- Both report the winner, but one of them has played twenty turns and the other six. -/
theorem scissors_play_on_alone :
    (run (step scissorsOnce alwaysRock) start (inTurn 42)).1.turns = 20 ∧
      (run (step scissorsOnce alwaysRock) start (inTurn 42)).2.turns = 6 ∧
      Reported (run (step scissorsOnce alwaysRock) start (inTurn 42)) ∧
      ¬ Agree scissorsOnce alwaysRock (run (step scissorsOnce alwaysRock) start (inTurn 42)) := by
  have turns : (run (step scissorsOnce alwaysRock) start (inTurn 42)).1.turns = 20 := by
    decide +kernel
  have turnsToo : (run (step scissorsOnce alwaysRock) start (inTurn 42)).2.turns = 6 := by
    decide +kernel
  refine ⟨turns, turnsToo, ⟨by decide +kernel, by decide +kernel⟩, fun agree => ?_⟩
  have same := agree.turns.trans agree.turnsToo.symm
  rw [turns, turnsToo] at same
  cases same

end Cprogramming.GameProtocol.Verdicts
