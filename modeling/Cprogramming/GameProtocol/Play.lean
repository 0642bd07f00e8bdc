import Cprogramming.GameProtocol.Server
import Cprogramming.Library.Runs

/-!
# Two clients that play a match

`rpsclient.c` from the connection to the enemy to the result: five turns, then up to
fifteen more while the match is tied. A client writes its move on its own stream and
reads the enemy's from the other one. A step of the model is one write, one read with
the judgement of the turn, or the report of the result with the closing of the stream.

At the end of the enemy's stream `fgets` leaves the client's own move in `msg`, so the
client judges its move against itself.
-/

namespace Cprogramming.GameProtocol.Play

open Library.Runs

set_option autoImplicit false

/-! ## The game -/

inductive Move where
  | rock
  | paper
  | scissors
deriving DecidableEq

/-- What a turn of the first loop adds to `status`. -/
def openingTurn : Move → Move → Int
  | .rock, .paper => -1
  | .rock, .scissors => 1
  | .paper, .rock => 1
  | .paper, .scissors => -1
  | .scissors, .rock => -1
  | .scissors, .paper => 1
  | _, _ => 0

/-- What a turn of the second loop adds to `status`, and whether it sets `done`. -/
def tieBreakTurn : Move → Move → Int × Bool
  | .rock, .paper => (-1, true)
  | .rock, .scissors => (1, true)
  | .paper, .rock => (1, true)
  | .paper, .scissors => (-1, true)
  | .scissors, .rock => (-1, false)
  | .scissors, .paper => (1, true)
  | _, _ => (0, false)

/-- The loop that a client is in, with its counter. -/
inductive Place where
  | opening (turns : Nat)
  | tieBreak (turns : Nat)
  | finished
deriving DecidableEq

def tieBreakLoop (turns : Nat) (done : Bool) : Place :=
  if turns < 15 ∧ done = false then .tieBreak turns else .finished

def openingLoop (turns : Nat) (status : Int) : Place :=
  if turns < 5 then .opening turns
  else if status = 0 then tieBreakLoop 0 false
  else .finished

structure Game where
  place : Place
  status : Int
deriving DecidableEq

def newGame : Game := ⟨openingLoop 0 0, 0⟩

def Game.turn (game : Game) (moveVal enemyMove : Move) : Game :=
  match game.place with
  | .opening turns =>
    ⟨openingLoop (turns + 1) (game.status + openingTurn moveVal enemyMove),
      game.status + openingTurn moveVal enemyMove⟩
  | .tieBreak turns =>
    ⟨tieBreakLoop (turns + 1) (tieBreakTurn moveVal enemyMove).2,
      game.status + (tieBreakTurn moveVal enemyMove).1⟩
  | .finished => game

/-! ## The clients -/

/-- A name, and the moves that `rand` draws. -/
structure Entrant where
  name : Server.Text
  moves : Nat → Move

/-- `turns` counts the moves that have been sent; `msg` is the last of them while its
answer is awaited; `stream` is what the enemy has not read yet. -/
structure Client where
  game : Game
  turns : Nat
  msg : Option Move
  stream : List Move
  result : Option (List UInt8)

def newClient : Client := ⟨newGame, 0, none, [], none⟩

def winner (self enemy : List UInt8) (status : Int) : List UInt8 :=
  if status = 0 then Server.tie else if 0 < status then self else enemy

/-- The next action of a client. It waits where there is nothing to read. -/
def act (self enemy : Entrant) (own other : Client) : Client × Client :=
  match own.msg with
  | some msg =>
    match other.stream with
    | line :: rest =>
      ({ own with game := own.game.turn msg line, msg := none }, { other with stream := rest })
    | [] =>
      if other.result.isSome then ({ own with game := own.game.turn msg msg, msg := none }, other)
      else (own, other)
  | none =>
    if own.game.place = .finished then
      ({ own with result := some (winner self.name enemy.name own.game.status) }, other)
    else
      ({ own with
          turns := own.turns + 1
          msg := some (self.moves own.turns)
          stream := own.stream ++ [self.moves own.turns] }, other)

inductive Who where
  | one
  | two

def step (one two : Entrant) (clients : Client × Client) : Who → Client × Client
  | .one => act one two clients.1 clients.2
  | .two => (act two one clients.2 clients.1).swap

def start : Client × Client := (newClient, newClient)

def Reported (clients : Client × Client) : Prop :=
  clients.1.result.isSome = true ∧ clients.2.result.isSome = true

/-! ## The game of one client -/

variable (moves own : Nat → Move)

variable {turns : Nat}

/-- The game of a client after some turns in which it heard these moves. -/
def after (own heard : Nat → Move) : Nat → Game
  | 0 => newGame
  | turns + 1 => (after own heard turns).turn (own turns) (heard turns)

def Ended (own heard : Nat → Move) (turns : Nat) : Prop :=
  (after own heard turns).place = .finished

instance (own heard : Nat → Move) (turns : Nat) : Decidable (Ended own heard turns) :=
  inferInstanceAs (Decidable (_ = _))

theorem after_congr (heard other : Nat → Move) (same : ∀ turn < turns, heard turn = other turn) :
    after own heard turns = after own other turns := by
  induction turns with
  | zero => rfl
  | succ turns ih =>
    rw [after, after, ih fun turn earlier => same turn (Nat.lt_succ_of_lt earlier),
      same turns (Nat.lt_succ_self _)]

theorem ended_succ (heard : Nat → Move) (ended : Ended own heard turns) :
    Ended own heard (turns + 1) := by
  rw [Ended] at ended
  rw [Ended, after, Game.turn, ended]
  exact ended

theorem ended_mono (heard : Nat → Move) (turns more : Nat) (later : turns ≤ more)
    (ended : Ended own heard turns) : Ended own heard more := by
  induction later with
  | refl => exact ended
  | step _ ih => exact ended_succ own heard ih

theorem after_place (heard : Nat → Move) (turns : Nat) :
    (∀ count, (after own heard turns).place = .opening count → turns = count ∧ count < 5) ∧
      ∀ count, (after own heard turns).place = .tieBreak count →
        turns = 5 + count ∧ count < 15 := by
  induction turns with
  | zero =>
    constructor
    · rintro count ⟨⟩
      exact ⟨rfl, by decide⟩
    · rintro count ⟨⟩
  | succ turns ih =>
    rw [after, Game.turn]
    cases place : (after own heard turns).place with
    | finished =>
      rw [place]
      exact ⟨fun count impossible => (by cases impossible),
        fun count impossible => by cases impossible⟩
    | opening count =>
      obtain ⟨rfl, bound⟩ := ih.1 count place
      simp only [openingLoop, tieBreakLoop]
      split
      · constructor
        · rintro count ⟨⟩
          exact ⟨rfl, by assumption⟩
        · rintro count ⟨⟩
      · constructor
        · intro count same
          split at same
          · cases same
          · cases same
        · intro count same
          split at same
          · cases same
            exact ⟨by omega, by decide⟩
          · cases same
    | tieBreak count =>
      obtain ⟨rfl, bound⟩ := ih.2 count place
      simp only [tieBreakLoop]
      split
      · next more =>
          constructor
          · rintro count ⟨⟩
          · rintro count ⟨⟩
            exact ⟨by omega, more.1⟩
      · exact ⟨fun count impossible => (by cases impossible),
          fun count impossible => by cases impossible⟩

theorem turns_bounded (heard : Nat → Move) (going : ¬ Ended own heard turns) : turns < 20 := by
  obtain ⟨opening, tieBreak⟩ := after_place own heard turns
  cases place : (after own heard turns).place with
  | opening count =>
    have bound := opening count place
    omega
  | tieBreak count =>
    have bound := tieBreak count place
    omega
  | finished => exact absurd place going

/-! ## What a client hears -/

/-- The enemy's move; after the enemy's last turn the client's own one. -/
def heard (own enemy : Nat → Move) (turn : Nat) : Move :=
  if Ended enemy own turn then own turn else enemy turn

/-- As long as neither has finished, both play the game of the true moves. -/
theorem after_heard (enemy : Nat → Move) (turns : Nat)
    (going : ∀ turn < turns, ¬ Ended enemy own turn) :
    after own (heard own enemy) turns = after own enemy turns := by
  refine after_congr own _ enemy fun turn earlier => ?_
  rw [heard, if_neg (going turn earlier)]

theorem first_to_end (enemy : Nat → Move) (turns : Nat) :
    (∀ turn < turns, ¬ Ended own enemy turn ∧ ¬ Ended enemy own turn) ∨
      Ended own (heard own enemy) turns ∨
      Ended enemy (heard enemy own) turns ∧ Ended enemy own turns := by
  induction turns with
  | zero => exact Or.inl fun turn impossible => absurd impossible (Nat.not_lt_zero turn)
  | succ turns ih =>
    rcases ih with going | ended | ⟨ended, trueEnded⟩
    · have same := after_heard own enemy turns fun turn earlier => (going turn earlier).2
      have sameEnemy := after_heard enemy own turns fun turn earlier => (going turn earlier).1
      by_cases ownEnded : Ended own enemy turns
      · refine Or.inr (Or.inl (ended_succ _ _ ?_))
        rw [Ended, same]
        exact ownEnded
      · by_cases enemyEnded : Ended enemy own turns
        · refine Or.inr (Or.inr ⟨ended_succ _ _ ?_, ended_succ _ _ enemyEnded⟩)
          rw [Ended, sameEnemy]
          exact enemyEnded
        · refine Or.inl fun turn earlier => ?_
          rcases Nat.lt_succ_iff_lt_or_eq.mp earlier with before | rfl
          · exact going turn before
          · exact ⟨ownEnded, enemyEnded⟩
    · exact Or.inr (Or.inl (ended_succ _ _ ended))
    · exact Or.inr (Or.inr ⟨ended_succ _ _ ended, ended_succ _ _ trueEnded⟩)

theorem enemy_ended_iff (enemy : Nat → Move) {turn : Nat}
    (going : ¬ Ended own (heard own enemy) turn) :
    Ended enemy (heard enemy own) turn ↔ Ended enemy own turn := by
  rcases first_to_end own enemy turn with both | ended | ⟨ended, trueEnded⟩
  · rw [Ended, Ended, after_heard enemy own turn fun earlier before => (both earlier before).1]
  · exact absurd ended going
  · exact ⟨fun _ => trueEnded, fun _ => ended⟩

/-! ## The two clients together -/

variable {one two self enemy : Entrant} {first second client : Client}
  {judged judgedToo read : Nat} {msg line : Move}

structure Follows (player enemy : Entrant) (client : Client) (judged : Nat) : Prop where
  game : client.game = after player.moves (heard player.moves enemy.moves) judged
  awaits : ∀ msg, client.msg = some msg → msg = player.moves judged ∧ client.turns = judged + 1 ∧
    client.game.place ≠ .finished
  rests : client.msg = none → client.turns = judged
  played : ∀ turn < judged, ¬ Ended player.moves (heard player.moves enemy.moves) turn
  reported : ∀ result, client.result = some result → client.msg = none ∧
    client.game.place = .finished ∧ result = winner player.name enemy.name client.game.status

/-- The stream holds what the client has sent and the enemy has not judged. -/
structure Streams (moves : Nat → Move) (client : Client) (read : Nat) : Prop where
  unread : client.stream = ((List.range client.turns).drop read).map moves
  bound : read ≤ client.turns ∨ client.result.isSome = true

structure Joint (one two : Entrant) (first second : Client) (judged judgedToo : Nat) : Prop where
  oneFollows : Follows one two first judged
  twoFollows : Follows two one second judgedToo
  toSecond : Streams one.moves first judgedToo
  toFirst : Streams two.moves second judged

theorem joint_swap (joint : Joint one two first second judged judgedToo) :
    Joint two one second first judgedToo judged :=
  ⟨joint.twoFollows, joint.oneFollows, joint.toFirst, joint.toSecond⟩

theorem joint_start (one two : Entrant) : Joint one two newClient newClient 0 0 := by
  have begun : ∀ self enemy : Entrant, Follows self enemy newClient 0 := by
    intro self enemy
    exact ⟨rfl, fun msg impossible => (by cases impossible), fun _ => rfl,
      fun turn impossible => absurd impossible (Nat.not_lt_zero turn),
      fun result impossible => (by cases impossible)⟩
  have empty : ∀ moves, Streams moves newClient 0 := fun moves => ⟨rfl, Or.inl (Nat.le_refl 0)⟩
  exact ⟨begun one two, begun two one, empty one.moves, empty two.moves⟩

theorem sent_going {turn : Nat} (follows : Follows self enemy client judged)
    (sent : turn < client.turns) : ¬ Ended self.moves (heard self.moves enemy.moves) turn := by
  cases awaiting : client.msg with
  | none =>
    rw [follows.rests awaiting] at sent
    exact follows.played turn sent
  | some msg =>
    obtain ⟨_, count, place⟩ := follows.awaits msg awaiting
    rw [count] at sent
    rcases Nat.lt_succ_iff_lt_or_eq.mp sent with before | rfl
    · exact follows.played turn before
    · rw [Ended, ← follows.game]
      exact place

theorem follows_judged (follows : Follows self enemy client judged)
    (awaiting : client.msg = some msg) (hears : line = heard self.moves enemy.moves judged) :
    Follows self enemy { client with game := client.game.turn msg line, msg := none }
      (judged + 1) := by
  obtain ⟨own, count, place⟩ := follows.awaits msg awaiting
  refine ⟨?_, fun msg impossible => (by cases impossible), fun _ => count, ?_, ?_⟩
  · rw [after, ← follows.game, own, hears]
  · intro turn earlier
    rcases Nat.lt_succ_iff_lt_or_eq.mp earlier with before | rfl
    · exact follows.played turn before
    · rw [Ended, ← follows.game]
      exact place
  · intro result reported
    have impossible := (follows.reported result reported).1
    rw [awaiting] at impossible
    cases impossible

theorem follows_sent (follows : Follows self enemy client judged) (rests : client.msg = none)
    (going : client.game.place ≠ .finished) : Follows self enemy
      { client with
        turns := client.turns + 1
        msg := some (self.moves client.turns)
        stream := client.stream ++ [self.moves client.turns] } judged := by
  have count := follows.rests rests
  refine ⟨follows.game, ?_, fun impossible => (by cases impossible), follows.played, ?_⟩
  · rintro msg ⟨⟩
    exact ⟨by rw [count], by rw [count], going⟩
  · intro result reported
    exact absurd (follows.reported result reported).2.1 going

theorem follows_reported (follows : Follows self enemy client judged) (rests : client.msg = none)
    (finished : client.game.place = .finished) : Follows self enemy
      { client with result := some (winner self.name enemy.name client.game.status) } judged := by
  refine ⟨follows.game, follows.awaits, follows.rests, follows.played, ?_⟩
  rintro result ⟨⟩
  exact ⟨rests, finished, rfl⟩

theorem streams_sent (msg : Option Move) (streams : Streams moves client read)
    (within : read ≤ client.turns) : Streams moves
      { client with
        turns := client.turns + 1
        msg := msg
        stream := client.stream ++ [moves client.turns] } read := by
  refine ⟨?_, Or.inl (Nat.le_succ_of_le within)⟩
  simp only [streams.unread, List.range_succ]
  rw [List.drop_append_of_le_length (by rw [List.length_range]; exact within), List.map_append]
  rfl

theorem streams_line {rest : List Move} (streams : Streams moves client read)
    (here : client.stream = line :: rest) : read < client.turns ∧ line = moves read ∧
      Streams moves { client with stream := rest } (read + 1) := by
  rw [streams.unread] at here
  have within : read < client.turns := by
    by_contra beyond
    rw [List.drop_eq_nil_of_le (by rw [List.length_range]; omega)] at here
    cases here
  rw [List.drop_eq_getElem_cons (by rw [List.length_range]; exact within), List.map_cons,
    List.getElem_range] at here
  cases here
  exact ⟨within, rfl, rfl, Or.inl within⟩

theorem streams_end (streams : Streams moves client read) (empty : client.stream = [])
    (reported : client.result.isSome = true) :
    client.turns ≤ read ∧ Streams moves client (read + 1) := by
  rw [streams.unread, List.map_eq_nil_iff, List.drop_eq_nil_iff, List.length_range] at empty
  refine ⟨empty, ?_, Or.inr reported⟩
  rw [streams.unread, List.drop_eq_nil_of_le (by rw [List.length_range]; exact empty),
    List.drop_eq_nil_of_le (by rw [List.length_range]; omega)]

theorem streams_reported (result : List UInt8) (streams : Streams moves client read) :
    Streams moves { client with result := some result } read :=
  ⟨streams.unread, Or.inr rfl⟩

/-! ### What a client hears -/

theorem awaiting_going (follows : Follows one two first judged) (awaiting : first.msg = some msg) :
    ¬ Ended one.moves (heard one.moves two.moves) judged := by
  rw [Ended, ← follows.game]
  exact (follows.awaits msg awaiting).2.2

/-- The enemy has sent the move that is read, so it has not finished before it. -/
theorem joint_line (joint : Joint one two first second judged judgedToo) {rest : List Move}
    (awaiting : first.msg = some msg) (front : second.stream = line :: rest) :
    line = heard one.moves two.moves judged ∧
      Streams two.moves { second with stream := rest } (judged + 1) := by
  obtain ⟨within, isMove, streams⟩ :=
    streams_line two.moves joint.toFirst front
  have going := awaiting_going joint.oneFollows awaiting
  have enemyGoing := sent_going joint.twoFollows within
  rw [enemy_ended_iff one.moves two.moves going] at enemyGoing
  refine ⟨?_, streams⟩
  rw [heard, if_neg enemyGoing]
  exact isMove

theorem joint_end (joint : Joint one two first second judged judgedToo) {result : List UInt8}
    (awaiting : first.msg = some msg) (front : second.stream = [])
    (reported : second.result = some result) :
    msg = heard one.moves two.moves judged ∧ Streams two.moves second (judged + 1) := by
  obtain ⟨behind, streams⟩ := streams_end two.moves joint.toFirst front (by rw [reported]; rfl)
  have going := awaiting_going joint.oneFollows awaiting
  obtain ⟨idle, finished, _⟩ := joint.twoFollows.reported result reported
  have enemyEnded : Ended two.moves (heard two.moves one.moves) judged := by
    refine ended_mono _ _ judgedToo judged ?_ ?_
    · rw [← joint.twoFollows.rests idle]
      exact behind
    · rw [Ended, ← joint.twoFollows.game]
      exact finished
  rw [enemy_ended_iff one.moves two.moves going] at enemyEnded
  refine ⟨?_, streams⟩
  rw [heard, if_pos enemyEnded]
  exact (joint.oneFollows.awaits msg awaiting).1

/-! ### One action -/

def progress (client : Client) : Nat :=
  2 * client.turns + (if client.msg = none then 1 else 0) +
    if client.result.isSome = true then 1 else 0

def Idle (own other : Client) : Prop :=
  own.msg.isSome = true ∧ other.stream = [] ∧ other.result = none ∨ own.result.isSome = true

theorem act_joint (joint : Joint one two first second judged judgedToo) :
    (∃ count, Joint one two (act one two first second).1 (act one two first second).2 count
        judgedToo) ∧ (Idle first second ∨ progress first < progress (act one two first second).1) ∧
      progress (act one two first second).2 = progress second := by
  obtain ⟨oneFollows, twoFollows, toSecond, toFirst⟩ := joint
  cases awaiting : first.msg with
  | some msg =>
    cases front : second.stream with
    | cons line rest =>
      have acted : act one two first second =
          ({ first with game := first.game.turn msg line, msg := none },
            { second with stream := rest }) := by
        simp only [act, awaiting, front]
      obtain ⟨hears, streams⟩ := joint_line
        ⟨oneFollows, twoFollows, toSecond, toFirst⟩ awaiting front
      rw [acted]
      refine ⟨⟨judged + 1, follows_judged oneFollows awaiting hears,
        ⟨twoFollows.game, twoFollows.awaits, twoFollows.rests, twoFollows.played,
          twoFollows.reported⟩, ⟨toSecond.unread, toSecond.bound⟩, streams⟩, Or.inr ?_, rfl⟩
      simp [progress, awaiting]
    | nil =>
      cases reported : second.result with
      | none =>
        have acted : act one two first second = (first, second) := by
          simp only [act, awaiting, front, reported, Option.isSome_none, Bool.false_eq_true,
            if_false]
        rw [acted]
        exact ⟨⟨judged, oneFollows, twoFollows, toSecond, toFirst⟩,
          Or.inl (Or.inl ⟨by rw [awaiting]; rfl, front, reported⟩), rfl⟩
      | some result =>
        have acted : act one two first second =
            ({ first with game := first.game.turn msg msg, msg := none }, second) := by
          simp only [act, awaiting, front, reported, Option.isSome_some, if_true]
        obtain ⟨hears, streams⟩ := joint_end
          ⟨oneFollows, twoFollows, toSecond, toFirst⟩ awaiting front reported
        rw [acted]
        refine ⟨⟨judged + 1, follows_judged oneFollows awaiting
          hears, twoFollows, ⟨toSecond.unread, toSecond.bound⟩, streams⟩, Or.inr ?_, rfl⟩
        simp [progress, awaiting]
  | none =>
    by_cases finished : first.game.place = .finished
    · have acted : act one two first second =
          ({ first with result := some (winner one.name two.name first.game.status) }, second) := by
        simp only [act, awaiting, if_pos finished]
      rw [acted]
      refine ⟨⟨judged, follows_reported oneFollows awaiting finished,
        twoFollows, streams_reported one.moves _ toSecond, toFirst⟩, ?_, rfl⟩
      cases reported : first.result with
      | some result => exact Or.inl (Or.inr (by rw [reported]; rfl))
      | none =>
        refine Or.inr ?_
        simp [progress, reported]
    · have acted : act one two first second =
          ({ first with
              turns := first.turns + 1
              msg := some (one.moves first.turns)
              stream := first.stream ++ [one.moves first.turns] }, second) := by
        simp only [act, awaiting, if_neg finished]
      have within : judgedToo ≤ first.turns := by
        rcases toSecond.bound with within | reported
        · exact within
        · obtain ⟨result, reported⟩ := Option.isSome_iff_exists.mp reported
          exact absurd (oneFollows.reported result reported).2.1 finished
      rw [acted]
      refine ⟨⟨judged, follows_sent oneFollows awaiting finished, twoFollows,
        streams_sent one.moves _ toSecond within, toFirst⟩, Or.inr ?_, rfl⟩
      simp only [progress, awaiting, if_true]
      simp
      omega

/-! ### Whole runs -/

theorem step_joint {clients : Client × Client} (who : Who)
    (joint : Joint one two clients.1 clients.2 judged judgedToo) :
    ∃ count countToo, Joint one two (step one two clients who).1 (step one two clients who).2 count
      countToo := by
  cases who with
  | one =>
    obtain ⟨⟨count, kept⟩, _⟩ := act_joint joint
    exact ⟨count, judgedToo, kept⟩
  | two =>
    obtain ⟨⟨count, kept⟩, _⟩ := act_joint (joint_swap joint)
    exact ⟨judged, count, joint_swap kept⟩

theorem run_joint (one two : Entrant) (schedule : List Who) :
    ∃ judged judgedToo, Joint one two (run (step one two) start schedule).1
      (run (step one two) start schedule).2 judged judgedToo := by
  refine run_invariant (step one two)
    (fun clients => ∃ judged judgedToo, Joint one two clients.1 clients.2 judged judgedToo) ?_ start
    ⟨0, 0, joint_start one two⟩ schedule
  rintro clients who ⟨judged, judgedToo, joint⟩
  exact step_joint who joint

theorem progress_bounded (follows : Follows self enemy client judged) : progress client ≤ 42 := by
  have few : client.turns ≤ 20 := by
    cases count : client.turns with
    | zero => omega
    | succ turns =>
      have going := sent_going follows (by rw [count]; exact Nat.lt_succ_self _)
      have bound := turns_bounded _ _ going
      omega
  rw [progress]
  split <;> split <;> omega

theorem not_both_idle (joint : Joint one two first second judged judgedToo)
    (firstIdle : Idle first second) (secondIdle : Idle second first) :
    Reported (first, second) := by
  have unread : ∀ (moves : Nat → Move) (client : Client) (read : Nat), Streams moves client read →
      client.stream = [] → client.turns ≤ read := by
    intro moves client read streams empty
    rw [streams.unread, List.map_eq_nil_iff, List.drop_eq_nil_iff, List.length_range] at empty
    exact empty
  rcases firstIdle with ⟨awaiting, empty, unreported⟩ | reported
  · rcases secondIdle with ⟨awaitingToo, emptyToo, _⟩ | reportedToo
    · obtain ⟨msg, awaiting⟩ := Option.isSome_iff_exists.mp awaiting
      obtain ⟨msgToo, awaitingToo⟩ := Option.isSome_iff_exists.mp awaitingToo
      have sent := (joint.oneFollows.awaits msg awaiting).2.1
      have sentToo := (joint.twoFollows.awaits msgToo awaitingToo).2.1
      have behind := unread two.moves second judged joint.toFirst empty
      have behindToo := unread one.moves first judgedToo joint.toSecond emptyToo
      omega
    · rw [unreported] at reportedToo
      cases reportedToo
  · rcases secondIdle with ⟨_, _, unreported⟩ | reportedToo
    · rw [unreported] at reported
      cases reported
    · exact ⟨reported, reportedToo⟩

theorem both_can_report (one two : Entrant) (clients : Client × Client) (judged judgedToo : Nat)
    (joint : Joint one two clients.1 clients.2 judged judgedToo) :
    ∃ more, Reported (run (step one two) clients more) := by
  induction left : 84 - (progress clients.1 + progress clients.2) using Nat.strongRecOn
    generalizing clients judged judgedToo with
  | _ left ih =>
    -- A client that gets on brings the end of the match nearer.
    have onward : ∀ who, progress clients.1 + progress clients.2 <
        progress (step one two clients who).1 + progress (step one two clients who).2 →
        ∃ more, Reported (run (step one two) clients more) := by
      intro who further
      obtain ⟨count, countToo, kept⟩ := step_joint who joint
      have nextOne := progress_bounded kept.oneFollows
      have nextTwo := progress_bounded kept.twoFollows
      obtain ⟨more, reported⟩ := ih _ (by omega) (step one two clients who) count countToo kept rfl
      exact ⟨who :: more, reported⟩
    obtain ⟨_, getsOn, same⟩ := act_joint joint
    obtain ⟨_, getsOnToo, sameToo⟩ := act_joint (joint_swap joint)
    rcases getsOn with firstIdle | further
    · rcases getsOnToo with secondIdle | further
      · exact ⟨[], not_both_idle joint firstIdle secondIdle⟩
      · refine onward .two ?_
        show _ < progress (act two one clients.2 clients.1).2 +
          progress (act two one clients.2 clients.1).1
        omega
    · refine onward .one ?_
      show _ < progress (act one two clients.1 clients.2).1 +
        progress (act one two clients.1 clients.2).2
      omega

end Cprogramming.GameProtocol.Play
