import Cprogramming.Library.Runs
import Cprogramming.GameManagement.Game

/-!
# Hub and agents

The hub plays a move and writes bytes about it to the pipes of both agents, which
read them line by line and repeat the move on their own copies of the game:
`display_selector`, the loop of `2310hub.c`, the loops of `agent.c` and
`game_play_agent`.

A buffer of an agent is the bytes that `fgets` has stored. `parser_changer` writes
terminators into it, so a string in it can end before the buffer does. An agent
is the state between two calls of `fgets`: what a line does depends on which of
the calls in its loop has returned it.
-/

namespace Cprogramming.GameManagement.Agents

open Library.CStrings Library.Runs
open Game Grid Texts

set_option autoImplicit false

/-! ## The hub -/

inductive Player where
  | one
  | two
deriving DecidableEq

def Player.digit : Player → UInt8
  | .one => 49
  | .two => 50

def Player.other : Player → Player
  | .one => .two
  | .two => .one

/-- `DISPLAY_MISS`, which is also `MISS_M`. -/
def missWord : List UInt8 := [77, 73, 83, 83]

/-- `DISPLAY_HIT`, which is also `HIT_M`. -/
def hitWord : List UInt8 := [72, 73, 84]

/-- `SUNK_M`. -/
def sunkWord : List UInt8 := [83, 85, 78, 75]

/-- `DISPLAY_SHIP_SUNK`: "SHIP SUNK". -/
def shipSunk : List UInt8 := [83, 72, 73, 80, 32, 83, 85, 78, 75]

/-- `DISPLAY_BAD_GUESS` and `DISPLAY_ILLEGAL`: "BAD GUESS". -/
def badGuess : List UInt8 := [66, 65, 68, 32, 71, 85, 69, 83, 83]

/-- `DISPLAY_REPEAT_MOVE`: "REPEATED GUESS". -/
def repeatedGuess : List UInt8 := [82, 69, 80, 69, 65, 84, 69, 68, 32, 71, 85, 69, 83, 83]

/-- `UNKNOWN`: "Unknown" and a newline. -/
def unknown : List UInt8 := [85, 110, 107, 110, 111, 119, 110, 10]

def displaySelector : Result → List UInt8
  | .miss => missWord
  | .hit => hitWord
  | .down => shipSunk
  | .bad => badGuess
  | .repeated => repeatedGuess
  | .illegal => badGuess
  | .gameOn => []
  | .winPlayer => unknown
  | .winCpu => unknown

/-- The message about a move, which `move_check` has left as `moveText`. -/
def message (result : Result) (player : Player) (move : CString) : List UInt8 :=
  thingAdd (thingAdd (thingClean (displaySelector result)) [player.digit] space) (moveText move)
    comma

def playBy (player : Player) (game : Match) (move : CString) : Result × Match :=
  match player with
  | .one => gamePlayPlayer game (some move)
  | .two => gamePlayCpu game (some move)

/-! ## Buffers of an agent -/

def isAlpha (byte : UInt8) : Bool :=
  (decide (65 ≤ byte) && decide (byte ≤ 90)) || (decide (97 ≤ byte) && decide (byte ≤ 122))

def isWord (byte : UInt8) : Bool := isAlpha byte || isDigit byte

/-- The byte number `which` that is no letter or digit. -/
def changeByte (what : UInt8) : Nat → List UInt8 → List UInt8
  | _, [] => []
  | which, byte :: rest =>
    if isWord byte then byte :: changeByte what which rest
    else if which = 1 then what :: rest
    else byte :: changeByte what (which - 1) rest

def parserChanger (length : Nat) (what : UInt8) (which : Nat) (buffer : List UInt8) : List UInt8 :=
  changeByte what which (buffer.take length) ++ buffer.drop length

def stringOf (buffer : List UInt8) : List UInt8 := buffer.takeWhile (· ≠ 0)

/-- `agent_id_extract`: the byte in front of the first comma. -/
def agentIdExtract (buffer : List UInt8) : Option UInt8 :=
  let text := stringOf buffer
  if comma ∈ text then (text.takeWhile (· ≠ comma)).getLast? else none

/-- `parser_changer` on the string that `agent_move_extract` finds behind the
first comma. -/
def cutMove (buffer : List UInt8) : List UInt8 :=
  let text := stringOf buffer
  let start := (text.takeWhile (· ≠ comma)).length + 1
  buffer.take start ++ parserChanger (text.length - start) 0 1 (buffer.drop start)

/-! ## The copies -/

inductive Report where
  | miss
  | hit
  | sunk
deriving DecidableEq

def Report.word : Report → List UInt8
  | .miss => missWord
  | .hit => hitWord
  | .sunk => sunkWord

def Report.mark : Report → UInt8
  | .miss => missMark
  | .hit => hitMark
  | .sunk => hitMark

def Report.result : Report → Result
  | .miss => .miss
  | .hit => .hit
  | .sunk => .down

def reportOf (text : List UInt8) : Option Report :=
  if text = missWord then some .miss
  else if text = hitWord then some .hit
  else if text = sunkWord then some .sunk
  else none

def applyReport (report : Report) (move : List UInt8) (side : Side) : Side where
  total := if report = .sunk then side.total - 1 else side.total
  grid := gridSet side.grid (moveColumn move) (moveRow move) report.mark
  ships := side.ships

/-- The buffer after `game_play_agent` has ended the string at every space. -/
def splitWords (buffer : List UInt8) : List UInt8 :=
  let size := (stringOf buffer).length + 1
  thingReplace (buffer.take size) space 0 ++ buffer.drop size

/-- `game_play_agent` of agent `id`. No report is a word that leaves the variables
of the source without a value. -/
def gamePlayAgent (game : Match) (buffer : List UInt8) (id : Player) : Option (Result × Match) :=
  let split := splitWords buffer
  match reportOf (stringOf split) with
  | none => none
  | some report =>
    let length := report.word.length + 1
    let player := byteAt split length
    let move := split.drop (length + 2)
    if player = Player.two.digit ∧ id = .one ∨ player = Player.one.digit ∧ id = .two then
      some (report.result, { game with player := applyReport report move game.player })
    else some (report.result, { game with cpu := applyReport report move game.cpu })

/-- The test of both agents before they call `game_play_agent`. -/
def reported (buffer : List UInt8) : Bool := (reportOf (stringOf buffer)).isSome

def playReport (game : Match) (buffer : List UInt8) (id : Player) : Match :=
  match gamePlayAgent game buffer id with
  | some (_, next) => next
  | none => game

/-! ## The reading loops -/

/-- `YT_M`. -/
def yourTurn : List UInt8 := [89, 84]

/-- `OK_M`. -/
def okay : List UInt8 := [79, 75]

/-- `EARLY_M`. -/
def early : List UInt8 := [69, 65, 82, 76, 89]

/-- `DONE_M`. -/
def finished : List UInt8 := [68, 79, 78, 69]

/-- The call of `Fgets` that an agent waits in: the first one of its loop, the one
after its guess, the one after "OK" or the one after a result of player 1. It has
`ended` with a return or a null pointer. -/
inductive Place where
  | top
  | guessed
  | accepted
  | answered
  | ended
deriving DecidableEq

/-- The end of the loop and the test of its next turn. -/
def again (game : Match) (text : List UInt8) : Place :=
  if text = early ∨ text = finished ∨ gameStatus game ≠ .gameOn then .ended else .top

/-- The loop from the test for `YT_M` on. -/
def dispatch (game : Match) (text : List UInt8) : Place :=
  if text = yourTurn then .guessed
  else if text = okay then .accepted
  else again game text

/-- A line that `agent1` has read. It looks for a result only after "OK". -/
def agent1Line (game : Match) (place : Place) (line : List UInt8) : Match × Place :=
  let length := (stringOf line).length
  let buffer := parserChanger length 0 1 line
  match place with
  | .top | .guessed => (game, dispatch game (stringOf buffer))
  | .accepted | .answered =>
    if reported buffer then
      let restored := parserChanger length 0 3 (parserChanger length space 1 buffer)
      match agentIdExtract restored with
      | none => (game, .ended)
      | some id =>
        let next := playReport game (cutMove restored) .one
        if id = Player.one.digit then (next, .answered)
        else (next, again next (stringOf (splitWords (cutMove restored))))
    else (game, again game (stringOf buffer))
  | .ended => (game, .ended)

/-- A line that `agent2` has read. Before its own guess it looks for a result of
player 1 in the first line only. -/
def agent2Line (game : Match) (place : Place) (line : List UInt8) : Match × Place :=
  let length := (stringOf line).length
  let buffer := parserChanger length 0 1 line
  match place with
  | .top =>
    if reported buffer then
      let restored := parserChanger length 0 3 (parserChanger length space 1 buffer)
      match agentIdExtract restored with
      | none => (game, .ended)
      | some id =>
        if id = Player.one.digit then (playReport game restored .two, .answered)
        else (game, dispatch game (stringOf restored))
    else (game, dispatch game (stringOf buffer))
  | .guessed | .answered => (game, dispatch game (stringOf buffer))
  | .accepted =>
    if reported buffer then
      let next := playReport game buffer .two
      (next, again next (stringOf (splitWords buffer)))
    else (game, again game (stringOf buffer))
  | .ended => (game, .ended)

/-- `pending` are the bytes that the current call of `fgets` has read. -/
structure Agent where
  game : Match
  place : Place
  pending : List UInt8

/-- A byte from the pipe. A newline and the last place of the buffer end the line. -/
def receive (handle : Match → Place → List UInt8 → Match × Place) (agent : Agent) (byte : UInt8) :
    Agent :=
  let line := agent.pending ++ [byte]
  if byte = newline ∨ line.length = 49 then
    let handled := handle agent.game agent.place line
    ⟨handled.1, handled.2, []⟩
  else { agent with pending := line }

/-! ## The loop of the hub -/

/-- The hub waits for a guess of the player whose `turn` it is. -/
structure Table where
  hub : Match
  turn : Player
  agent1 : Agent
  agent2 : Agent

def Table.tell (table : Table) (written : List UInt8 × List UInt8) : Table :=
  { table with
    agent1 := run (receive agent1Line) table.agent1 written.1
    agent2 := run (receive agent2Line) table.agent2 written.2 }

def prompt : Player → List UInt8 × List UInt8
  | .one => (yourTurn ++ [newline], [])
  | .two => ([], yourTurn ++ [newline])

/-- The bytes about an accepted guess. The newline behind the first "OK" is written
with a length of 2, which takes the terminator along. -/
def broadcast (player : Player) (text : List UInt8) : List UInt8 × List UInt8 :=
  match player with
  | .one => (okay ++ [newline, 0] ++ text ++ [newline], text ++ [newline])
  | .two => (text ++ [newline], okay ++ [newline] ++ text ++ [newline])

def proceed (hub : Match) (player : Player) : List UInt8 × List UInt8 :=
  if gameStatus hub = .gameOn then prompt player
  else (finished ++ [newline], finished ++ [newline])

/-- A guess while the game is on. The hub asks again when the result is negative,
and otherwise tells both agents. -/
def step (table : Table) (move : CString) : Table :=
  if gameStatus table.hub ≠ .gameOn then table
  else
    let played := playBy table.turn table.hub move
    if played.1.code < 0 then Table.tell { table with hub := played.2 } (prompt table.turn)
    else
      let told := Table.tell { table with hub := played.2, turn := table.turn.other }
        (broadcast table.turn (message played.1 table.turn move))
      told.tell (proceed played.2 table.turn.other)

/-- The agents have read the rules and sent their maps. Behind the rules for agent 2
the hub has written a terminator as well. -/
def start (hub agent1 agent2 : Match) : Table :=
  Table.tell ⟨hub, .one, ⟨agent1, again agent1 [], []⟩, ⟨agent2, again agent2 [], [0]⟩⟩
    (proceed hub .one)

/-! ## The cell of a move -/

variable (bytes : List UInt8)

def secondDigit (bytes : List UInt8) : Option UInt8 := bytes.head?.filter isDigit

theorem second_digit_cons (byte : UInt8) (rest : List UInt8) :
    secondDigit (byte :: rest) = if isDigit byte then some byte else none := by
  simp [secondDigit, Option.filter]

theorem move_row_eq (column digit : UInt8) (bytes : List UInt8) :
    moveRow (column :: digit :: bytes) =
      match secondDigit bytes with
      | some second => ((second.toNat : Int) - 48) + ((digit.toNat : Int) - 48) * 10
      | none => (digit.toNat : Int) - 48 := by
  cases bytes with
  | nil => rfl
  | cons second rest =>
    rw [second_digit_cons]
    simp only [moveRow, byteAt, List.getD_cons_zero, List.getD_cons_succ]
    split_ifs <;> rfl

theorem apply_report_eq (report : Report) (side : Side) (column digit : UInt8)
    {left right : List UInt8} (same : secondDigit left = secondDigit right) :
    applyReport report (column :: digit :: left) side =
      applyReport report (column :: digit :: right) side := by
  simp only [applyReport, move_row_eq, same]
  rfl

theorem digit_is_word {byte : UInt8} (other : ¬ isWord byte = true) : isDigit byte = false := by
  simp only [isWord, Bool.or_eq_true, not_or, Bool.not_eq_true] at other
  exact other.2

theorem second_digit_change_byte :
    secondDigit (changeByte 0 1 bytes) = secondDigit bytes := by
  cases bytes with
  | nil => rfl
  | cons byte rest =>
    by_cases word : isWord byte = true
    · simp only [changeByte, if_pos word, second_digit_cons]
    · have zero : isDigit 0 = false := by decide
      simp [changeByte, word, second_digit_cons, zero, digit_is_word word]

theorem string_of_cons {byte : UInt8} (rest : List UInt8) (inner : byte ≠ 0) :
    stringOf (byte :: rest) = byte :: stringOf rest := by
  simp [stringOf, inner]

theorem second_digit_replaced :
    secondDigit (thingReplace (stringOf bytes) space 0 ++ bytes.drop (stringOf bytes).length) =
      secondDigit bytes := by
  cases bytes with
  | nil => rfl
  | cons byte rest =>
    by_cases zero : byte = 0
    · simp [stringOf, zero, thingReplace]
    · rw [string_of_cons rest zero]
      by_cases blank : byte = space
      · subst blank
        rfl
      · simp [thingReplace, blank, second_digit_cons]

/-! ## The words of a line -/

variable {word : List UInt8}

theorem word_visible (byte : UInt8) (word : isWord byte = true) :
    byte ≠ 0 ∧ byte ≠ space ∧ byte ≠ newline ∧ byte ≠ comma := by
  refine ⟨?_, ?_, ?_, ?_⟩ <;> (rintro rfl; exact absurd word (by decide))

theorem report_word (report : Report) : report.word.all isWord = true := by
  cases report <;> rfl

theorem player_word (player : Player) : isWord player.digit = true := by
  cases player <;> rfl

theorem change_byte_word (what : UInt8) (which : Nat) (rest : List UInt8)
    (letters : word.all isWord = true) :
    changeByte what which (word ++ rest) = word ++ changeByte what which rest := by
  induction word with
  | nil => rfl
  | cons byte word ih =>
    rw [List.all_cons, Bool.and_eq_true] at letters
    rw [List.cons_append, changeByte, if_pos letters.1, ih letters.2, List.cons_append]

theorem length_change_byte (what : UInt8) (which : Nat) (bytes : List UInt8) :
    (changeByte what which bytes).length = bytes.length := by
  induction bytes generalizing which with
  | nil => rfl
  | cons byte rest ih =>
    rw [changeByte]
    split_ifs <;> simp [ih]

theorem string_of_word (rest : List UInt8) (letters : word.all isWord = true) :
    stringOf (word ++ rest) = word ++ stringOf rest := by
  refine List.takeWhile_append_of_pos ?_
  intro byte member
  simpa using (word_visible byte (List.all_eq_true.mp letters byte member)).1

theorem parser_changer_whole {length : Nat} {buffer : List UInt8} (fits : buffer.length ≤ length)
    (what : UInt8) (which : Nat) :
    parserChanger length what which buffer = changeByte what which buffer := by
  rw [parserChanger, List.take_of_length_le fits, List.drop_of_length_le fits, List.append_nil]

/-- What the agents compare is the first word of a line, whatever ends it. -/
theorem first_word (letters : word.all isWord = true) {separator : UInt8}
    (other : isWord separator = false) (rest : List UInt8) :
    stringOf (parserChanger (stringOf (word ++ separator :: rest)).length 0 1
      (word ++ separator :: rest)) = word := by
  have ended : ∀ more, stringOf (word ++ 0 :: more) = word := by
    intro more
    rw [string_of_word _ letters]
    simp [stringOf]
  by_cases zero : separator = 0
  · subst zero
    have kept := change_byte_word 0 1 [] letters
    rw [ended, parserChanger, List.take_left, List.drop_left]
    rw [List.append_nil] at kept
    rw [kept, changeByte, List.append_nil]
    exact ended rest
  · rw [string_of_word _ letters, string_of_cons rest zero, parserChanger, List.length_append,
      List.length_cons, List.take_length_add_append, List.take_succ_cons,
      change_byte_word _ _ _ letters, changeByte, if_neg (by simp [other]), if_pos rfl,
      List.append_assoc]
    exact ended _

theorem reported_word (report : Report) (rest : List UInt8) :
    reportOf (stringOf (report.word ++ 0 :: rest)) = some report := by
  cases report <;> rfl

/-- Ending the strings of a buffer does not reach behind its own end. -/
theorem split_words_eq (buffer : List UInt8) :
    splitWords buffer =
      thingReplace (stringOf buffer) space 0 ++ buffer.drop (stringOf buffer).length := by
  induction buffer with
  | nil => rfl
  | cons byte rest ih =>
    by_cases zero : byte = 0
    · subst zero
      simp [splitWords, stringOf, thingReplace, space]
    · simp only [splitWords, string_of_cons rest zero] at ih ⊢
      simpa [thingReplace] using ih

def reflect (report : Report) (player id : Player) (move : List UInt8) (game : Match) : Match :=
  if player = id then { game with cpu := applyReport report move game.cpu }
  else { game with player := applyReport report move game.player }

theorem play_report_eq (game : Match) (buffer : List UInt8) (report : Report) (player id : Player)
    (bytes : List UInt8)
    (split : splitWords buffer = report.word ++ 0 :: player.digit :: comma :: bytes) :
    playReport game buffer id = reflect report player id bytes game := by
  have digit : byteAt (report.word ++ 0 :: player.digit :: comma :: bytes)
      (report.word.length + 1) = player.digit := by
    simp [byteAt]
  have move : (report.word ++ 0 :: player.digit :: comma :: bytes).drop
      (report.word.length + 1 + 2) = bytes := by
    rw [Nat.add_assoc, List.drop_append]
    simp
  simp only [playReport, gamePlayAgent, split, reported_word, digit, move, reflect]
  cases player <;> cases id <;> rfl

theorem reflect_eq (report : Report) (player id : Player) (game : Match) (column digit : UInt8)
    (left right : List UInt8) (same : secondDigit left = secondDigit right) :
    reflect report player id (column :: digit :: left) game =
      reflect report player id (column :: digit :: right) game := by
  simp only [reflect, apply_report_eq report _ column digit same]

theorem replace_word (letters : word.all isWord = true) :
    thingReplace word space 0 = word := by
  refine (List.map_congr_left ?_).trans (List.map_id word)
  intro byte member
  exact if_neg (word_visible byte (List.all_eq_true.mp letters byte member)).2.1

/-! ## A line in an agent -/

def lineOf (word : List UInt8) (player : Player) (column digit : UInt8) (tail : List UInt8)
    (separator : UInt8) : List UInt8 :=
  word ++ separator :: player.digit :: comma :: column :: digit :: tail

section Lines

variable (report : Report) (player : Player) (column digit : UInt8) (tail : List UInt8)
  (columnWord : isWord column = true) (digitWord : isWord digit = true)

theorem ended_line :
    changeByte 0 1 (lineOf report.word player column digit tail space) =
      lineOf report.word player column digit tail 0 := by
  rw [lineOf, change_byte_word _ _ _ (report_word report)]
  rfl

theorem reported_line : reported (lineOf report.word player column digit tail 0) = true := by
  rw [reported, lineOf, reported_word]
  rfl

include columnWord digitWord

theorem restored_line :
    changeByte 0 3 (changeByte space 1 (lineOf report.word player column digit tail 0)) =
      lineOf report.word player column digit (changeByte 0 1 tail) space := by
  simp only [lineOf, change_byte_word _ _ _ (report_word report)]
  have zeroWord : isWord 0 = false := by decide
  have spaceWord : isWord space = false := by decide
  have commaWord : isWord comma = false := by decide
  simp [changeByte, zeroWord, spaceWord, commaWord, player_word player, columnWord, digitWord]

theorem string_of_line :
    stringOf (lineOf report.word player column digit tail space) =
      lineOf report.word player column digit (stringOf tail) space := by
  have playerVisible := (word_visible _ (player_word player)).1
  have columnVisible := (word_visible column columnWord).1
  have digitVisible := (word_visible digit digitWord).1
  rw [lineOf, string_of_word _ (report_word report), string_of_cons _ (by decide),
    string_of_cons _ playerVisible, string_of_cons _ (by decide),
    string_of_cons _ columnVisible, string_of_cons _ digitVisible]
  rfl

theorem split_line :
    splitWords (lineOf report.word player column digit tail space) =
      lineOf report.word player column digit
        (thingReplace (stringOf tail) space 0 ++ tail.drop (stringOf tail).length) 0 := by
  have playerVisible := (word_visible _ (player_word player)).2.1
  have columnVisible := (word_visible column columnWord).2.1
  have digitVisible := (word_visible digit digitWord).2.1
  have replaced :
      thingReplace (lineOf report.word player column digit (stringOf tail) space) space 0 =
      lineOf report.word player column digit (thingReplace (stringOf tail) space 0) 0 := by
    have word : report.word.map (fun byte => if byte = space then 0 else byte) = report.word :=
      replace_word (report_word report)
    have commaVisible : comma ≠ space := by decide
    simp [thingReplace, lineOf, word, playerVisible, columnVisible, digitVisible, commaVisible]
  have dropped : (lineOf report.word player column digit tail space).drop
      (lineOf report.word player column digit (stringOf tail) space).length =
        tail.drop (stringOf tail).length := by
    simp [lineOf, List.drop_append]
  rw [split_words_eq, string_of_line report player column digit tail columnWord digitWord, replaced,
    dropped]
  simp [lineOf]

theorem id_of_line :
    agentIdExtract (lineOf report.word player column digit tail space) = some player.digit := by
  have spaceVisible : space ≠ comma := by decide
  have playerVisible := (word_visible _ (player_word player)).2.2.2
  have string := string_of_line report player column digit tail columnWord digitWord
  have member : comma ∈ stringOf (lineOf report.word player column digit tail space) := by
    rw [string]
    simp [lineOf]
  simp only [agentIdExtract, if_pos member]
  have letters := List.all_eq_true.mp (report_word report)
  rw [string, lineOf, List.takeWhile_append_of_pos
    (fun byte member => by simpa using (word_visible byte (letters byte member)).2.2.2)]
  simp [spaceVisible, playerVisible]

variable (game : Match) (whole : (0 : UInt8) ∉ tail)

include whole

theorem line_fits (separator : UInt8) :
    (lineOf report.word player column digit tail separator).length ≤
      (stringOf (lineOf report.word player column digit tail space)).length := by
  have string : stringOf tail = tail := by
    refine List.takeWhile_eq_self_iff.mpr ?_
    intro byte member
    simpa using ne_of_mem_of_not_mem member whole
  rw [string_of_line report player column digit tail columnWord digitWord, string]
  simp [lineOf]

theorem agent2_line_eq : agent2Line game .top (lineOf report.word .one column digit tail space) =
      (reflect report .one .two (column :: digit :: tail) game, .answered) := by
  have fits := line_fits report .one column digit tail columnWord digitWord whole
  have restored := restored_line report .one column digit tail columnWord digitWord
  have cut : (changeByte space 1 (lineOf report.word .one column digit tail 0)).length ≤
      (stringOf (lineOf report.word .one column digit tail space)).length := by
    rw [length_change_byte]
    exact fits 0
  simp only [agent2Line, parser_changer_whole (fits space) 0 1, ended_line, reported_line, if_true,
    parser_changer_whole (fits 0), parser_changer_whole cut, restored,
    id_of_line report .one column digit _ columnWord digitWord]
  rw [play_report_eq game _ report .one .two _
    (split_line report .one column digit _ columnWord digitWord)]
  refine congrArg (Prod.mk · Place.answered) (reflect_eq report .one .two game column digit _ _ ?_)
  rw [second_digit_replaced, second_digit_change_byte]

theorem agent2_own_line_eq :
    agent2Line game .accepted (lineOf report.word player column digit tail space) =
      (reflect report player .two (column :: digit :: tail) game,
        again (reflect report player .two (column :: digit :: tail) game) report.word) := by
  have fits := line_fits report player column digit tail columnWord digitWord whole
  have string : stringOf (lineOf report.word player column digit tail 0) = report.word := by
    rw [lineOf, string_of_word _ (report_word report)]
    simp [stringOf]
  have split : splitWords (lineOf report.word player column digit tail 0) =
      lineOf report.word player column digit tail 0 := by
    rw [split_words_eq, string, replace_word (report_word report), lineOf, List.drop_left]
  simp only [agent2Line, parser_changer_whole (fits space) 0 1, ended_line, reported_line, if_true,
    split, string, play_report_eq game _ report player .two _ split]

end Lines

/-! ## Lines that an agent passes over -/

section Skipped

variable {game : Match} {separator : UInt8} (letters : word.all isWord = true)
  (other : isWord separator = false) (rest : List UInt8)

include letters other

theorem agent1_reads {place : Place} (reading : place = .top ∨ place = .guessed) :
    agent1Line game place (word ++ separator :: rest) = (game, dispatch game word) := by
  rcases reading with rfl | rfl <;> simp only [agent1Line, first_word letters other]

theorem agent1_no_report (unknown : reportOf word = none) :
    agent1Line game .accepted (word ++ separator :: rest) = (game, again game word) := by
  simp [agent1Line, reported, first_word letters other, unknown]

theorem agent2_reads (unknown : reportOf word = none) {place : Place}
    (reading : place = .top ∨ place = .guessed ∨ place = .answered) :
    agent2Line game place (word ++ separator :: rest) = (game, dispatch game word) := by
  rcases reading with rfl | rfl | rfl <;>
    simp [agent2Line, reported, first_word letters other, unknown]

theorem agent2_no_report (unknown : reportOf word = none) :
    agent2Line game .accepted (word ++ separator :: rest) = (game, again game word) := by
  simp [agent2Line, reported, first_word letters other, unknown]

end Skipped

def shipWord : List UInt8 := [83, 72, 73, 80]

def controls : List (List UInt8) := [yourTurn, okay, early, finished]

theorem other_word {game : Match} (on : gameStatus game = .gameOn) (other : word ∉ controls) :
    dispatch game word = .top ∧ again game word = .top := by
  simp only [controls, List.mem_cons, List.not_mem_nil, or_false, not_or] at other
  simp [dispatch, again, on, other]

/-- The agent reads on at the head of its loop after any line with so short a word. -/
def Skips (handle : Match → Place → List UInt8 → Match × Place) (game : Match) (place : Place) :
    Prop :=
  ∀ reading, reading = place ∨ reading = .top → ∀ (word rest : List UInt8) (separator : UInt8),
    (word.all isWord = true) → isWord separator = false → word.length ≤ 1 →
    handle game reading (word ++ separator :: rest) = (game, .top)

theorem short_word_other (short : word.length ≤ 1) :
    word ∉ controls ∧ reportOf word = none := by
  have known : ∀ text : List UInt8, 2 ≤ text.length → word ≠ text := by
    rintro text long rfl
    omega
  have reports : word ≠ missWord ∧ word ≠ hitWord ∧ word ≠ sunkWord :=
    ⟨known _ (by decide), known _ (by decide), known _ (by decide)⟩
  constructor
  · intro member
    have long : controls.all (fun text => decide (2 ≤ text.length)) = true := by decide
    exact known word (by simpa using List.all_eq_true.mp long word member) rfl
  · simp [reportOf, reports]

theorem agent1_skips {game : Match} (on : gameStatus game = .gameOn) :
    Skips agent1Line game .top := by
  intro reading known word rest separator letters other short
  rw [agent1_reads letters other rest (by tauto), (other_word on (short_word_other short).1).1]

theorem agent2_skips {game : Match} (on : gameStatus game = .gameOn) {place : Place}
    (waiting : place = .top ∨ place = .answered) : Skips agent2Line game place := by
  intro reading known word rest separator letters other short
  obtain ⟨skipped, unknown⟩ := short_word_other short
  have waits : reading = .top ∨ reading = .guessed ∨ reading = .answered := by
    rcases known with rfl | rfl <;> tauto
  rw [agent2_reads letters other rest unknown waits, (other_word on skipped).1]

theorem hidden_line {game : Match} (on : gameStatus game = .gameOn) (rest : List UInt8) :
    agent1Line game .accepted (0 :: rest) = (game, .top) ∧
      agent2Line game .top (0 :: rest) = (game, .top) := by
  have first : agent1Line game .accepted ([] ++ 0 :: rest) = (game, again game []) :=
    agent1_no_report (by simp) (by decide) rest rfl
  have second : agent2Line game .top ([] ++ 0 :: rest) = (game, dispatch game []) :=
    agent2_reads (by simp) (by decide) rest rfl (Or.inl rfl)
  obtain ⟨dispatched, skipped⟩ := other_word on (show [] ∉ controls by decide)
  rw [skipped] at first
  rw [dispatched] at second
  exact ⟨first, second⟩

/-! ## Lines from a pipe -/

section Pipe

variable {handle : Match → Place → List UInt8 → Match × Place} {game next : Match}
  {place reached : Place}

theorem run_line (pending front after : List UInt8) (single : newline ∉ front)
    (short : (pending ++ front).length < 49)
    (handled : handle game place (pending ++ front ++ [newline]) = (next, reached)) :
    run (receive handle) ⟨game, place, pending⟩ (front ++ newline :: after) =
      run (receive handle) ⟨next, reached, []⟩ after := by
  induction front generalizing pending with
  | nil =>
    rw [List.append_nil] at handled
    simp [run, receive, handled]
  | cons byte front ih =>
    obtain ⟨different, single⟩ := not_or.mp (mt List.mem_cons.mpr single)
    have more : receive handle ⟨game, place, pending⟩ byte = ⟨game, place, pending ++ [byte]⟩ := by
      refine if_neg (not_or.mpr ⟨Ne.symm different, ?_⟩)
      simp only [List.length_append, List.length_cons, List.length_nil] at short ⊢
      omega
    rw [List.cons_append, run_cons, more]
    exact ih (pending ++ [byte]) single (by simpa using short) (by simpa using handled)

/-- What a move leaves behind the newline in it. -/
def Remnant (bytes : List UInt8) : Prop :=
  bytes = [] ∨ bytes = [newline] ∨ ∃ byte, bytes = [byte, newline]

theorem remnant_skipped {bytes : List UInt8} (remnant : Remnant bytes)
    (skips : Skips handle game place) :
    ∃ last, (last = place ∨ last = .top) ∧
      run (receive handle) ⟨game, place, []⟩ bytes = ⟨game, last, []⟩ := by
  have blank : ∀ reading, reading = place ∨ reading = .top → ∀ after,
      run (receive handle) ⟨game, reading, []⟩ (newline :: after) =
        run (receive handle) ⟨game, .top, []⟩ after := by
    intro reading known after
    have line := skips reading known [] [] newline (by simp) (by decide) (by simp)
    exact run_line [] [] after (by simp) (by simp) line
  rcases remnant with rfl | rfl | ⟨byte, rfl⟩
  · exact ⟨place, Or.inl rfl, rfl⟩
  · exact ⟨.top, Or.inr rfl, blank place (Or.inl rfl) []⟩
  · refine ⟨.top, Or.inr rfl, ?_⟩
    by_cases ends : byte = newline
    · rw [ends, blank place (Or.inl rfl), blank .top (Or.inr rfl)]
      rfl
    · have line : handle game place [byte, newline] = (game, .top) := by
        by_cases known : isWord byte = true
        · exact skips place (Or.inl rfl) [byte] [] newline (by simpa using known) (by decide)
            (by simp)
        · exact skips place (Or.inl rfl) [] [newline] byte (by simp) (by simpa using known)
            (by simp)
      exact run_line [] [byte] [] (by simpa using Ne.symm ends) (by simp) line

theorem move_lines (rest : List UInt8) (short : rest.length ≤ 2) :
    ∃ head after, rest ++ [newline] = head ++ newline :: after ∧ newline ∉ head ∧
      head.length ≤ 2 ∧ (∀ byte ∈ head, byte ∈ rest) ∧ Remnant after ∧
      secondDigit (head ++ [newline]) = secondDigit rest := by
  match rest, short with
  | [], _ => exact ⟨[], [], rfl, by simp, by simp, by simp, Or.inl rfl, rfl⟩
  | [first], _ =>
    by_cases ends : first = newline
    · subst ends
      exact ⟨[], [newline], rfl, by simp, by simp, by simp, Or.inr (Or.inl rfl), rfl⟩
    · exact ⟨[first], [], rfl, by simpa using Ne.symm ends, by simp, by simp, Or.inl rfl, rfl⟩
  | [first, second], _ =>
    by_cases ends : first = newline
    · subst ends
      exact ⟨[], [second, newline], rfl, by simp, by simp, by simp,
        Or.inr (Or.inr ⟨second, rfl⟩), rfl⟩
    · by_cases closes : second = newline
      · subst closes
        exact ⟨[first], [newline], rfl, by simpa using Ne.symm ends, by simp, by simp,
          Or.inr (Or.inl rfl), rfl⟩
      · exact ⟨[first, second], [], rfl,
          by simpa using ⟨Ne.symm ends, Ne.symm closes⟩, by simp, by simp, Or.inl rfl, rfl⟩

end Pipe

/-! ## The lines about a move -/

/-- What an agent changes in its copy when it handles the line. It looks for no line
that starts with "SHIP SUNK". -/
def reflectMatch (result : Result) (player id : Player) (move : List UInt8) (game : Match) :
    Match :=
  match result with
  | .miss => reflect .miss player id move game
  | .hit => reflect .hit player id move game
  | _ => game

theorem reflect_match_totals (result : Result) (player id : Player) (move : List UInt8)
    (game : Match) :
    (reflectMatch result player id move game).player.total = game.player.total ∧
      (reflectMatch result player id move game).cpu.total = game.cpu.total := by
  cases result <;> first | exact ⟨rfl, rfl⟩ | (cases player <;> cases id <;> exact ⟨rfl, rfl⟩)

theorem status_congr {left right : Match} (player : left.player.total = right.player.total)
    (cpu : left.cpu.total = right.cpu.total) : gameStatus left = gameStatus right := by
  rw [gameStatus, gameStatus, player, cpu]

def Told (result : Result) : Prop := result = .miss ∨ result = .hit ∨ result = .down

theorem displayed_word {result : Result} (told : Told result) (player : Player)
    (column digit : UInt8) (tail : List UInt8) :
    ∃ word more, word.all isWord = true ∧ word ∉ controls ∧
      lineOf (displaySelector result) player column digit tail space = word ++ space :: more := by
  rcases told with rfl | rfl | rfl
  · exact ⟨missWord, _, by decide, by decide, rfl⟩
  · exact ⟨hitWord, _, by decide, by decide, rfl⟩
  · exact ⟨shipWord, _, by decide, by decide, rfl⟩

theorem move_text_nul_free (move : CString) : (0 : UInt8) ∉ moveText move := by
  intro zero
  refine move.nulFree ?_
  rw [moveText] at zero
  split at zero
  next column second rest bytes =>
    rw [bytes]
    split_ifs at zero
    · exact List.mem_cons.mpr ((List.mem_cons.mp zero).imp id (List.mem_cons_of_mem second))
    · exact zero
  next => exact zero

structure Shaped (move : CString) (column digit : UInt8) (rest : List UInt8) : Prop where
  text : moveText move = column :: digit :: rest
  columnWord : isWord column = true
  digitWord : isWord digit = true
  short : rest.length ≤ 2

section Message

variable {result : Result} (told : Told result) (player : Player) {move : CString}
  {column digit : UInt8} {rest : List UInt8} (shaped : Shaped move column digit rest)

include told shaped

theorem message_received {handle : Match → Place → List UInt8 → Match × Place}
    {game next : Match} {place reached : Place} (pending : List UInt8) (brief : pending.length ≤ 1)
    (first : ∀ tail, (0 : UInt8) ∉ tail → secondDigit tail = secondDigit rest →
      handle game place
        (pending ++ lineOf (displaySelector result) player column digit tail space) = (next, reached))
    (skips : Skips handle next reached) :
    ∃ last, (last = reached ∨ last = .top) ∧
      run (receive handle) ⟨game, place, pending⟩ (message result player move ++ [newline]) =
        ⟨next, last, []⟩ := by
  obtain ⟨head, after, lines, single, few, inside, remnant, same⟩ := move_lines rest shaped.short
  have zero : (0 : UInt8) ∉ head ++ [newline] := by
    have whole := move_text_nul_free move
    rw [shaped.text] at whole
    simp only [List.mem_append, List.mem_singleton, not_or]
    exact ⟨fun member => whole (by simp [inside 0 member]), by decide⟩
  have clean : thingClean (displaySelector result) = displaySelector result := by
    rcases told with rfl | rfl | rfl <;> rfl
  have front : newline ∉ displaySelector result ∧ (displaySelector result).length ≤ 9 := by
    rcases told with rfl | rfl | rfl <;> decide
  have written : message result player move ++ [newline] =
      (displaySelector result ++ [space, player.digit, comma, column, digit] ++ head) ++
        newline :: after := by
    simp only [message, thingAdd, clean, shaped.text, List.append_assoc, List.cons_append,
      List.nil_append, lines]
  have unbroken : newline ∉
      displaySelector result ++ [space, player.digit, comma, column, digit] ++ head := by
    have playerVisible := (word_visible _ (player_word player)).2.2.1
    have columnVisible := (word_visible column shaped.columnWord).2.2.1
    have digitVisible := (word_visible digit shaped.digitWord).2.2.1
    have others : newline ≠ space ∧ newline ≠ comma := by decide
    simp [front.1, single, playerVisible.symm, columnVisible.symm, digitVisible.symm, others]
  have line := first (head ++ [newline]) zero same
  rw [written, run_line pending _ after unbroken (by simp; omega)
    (by simpa [lineOf] using line)]
  exact remnant_skipped remnant skips

variable {game : Match} (on : gameStatus game = .gameOn)

include on

/-- `agent1` looks for no result at the head of its loop. -/
theorem agent1_passes :
    run (receive agent1Line) ⟨game, .top, []⟩ (message result player move ++ [newline]) =
      ⟨game, .top, []⟩ := by
  have first : ∀ tail, (0 : UInt8) ∉ tail → secondDigit tail = secondDigit rest →
      agent1Line game .top ([] ++ lineOf (displaySelector result) player column digit tail space) =
        (game, .top) := by
    intro tail _ _
    obtain ⟨word, more, letters, other, line⟩ := displayed_word told player column digit tail
    rw [List.nil_append, line, agent1_reads letters (by decide) more (Or.inl rfl),
      (other_word on other).1]
  obtain ⟨last, reached, received⟩ :=
    message_received told player shaped [] (by simp) first (agent1_skips on)
  rw [received, or_self_iff.mp reached]

/-- After "OK" it reads a terminator in front of its own result. -/
theorem agent1_accepted : run (receive agent1Line) ⟨game, .guessed, []⟩
      (okay ++ [newline, 0] ++ message result player move ++ [newline]) = ⟨game, .top, []⟩ := by
  obtain ⟨last, reached, received⟩ := message_received told player shaped [0] (by simp)
    (fun tail _ _ => (hidden_line on _).1) (agent1_skips on)
  have line : agent1Line game .guessed ([] ++ okay ++ [newline]) = (game, .accepted) :=
    agent1_reads (by decide) (by decide) [] (Or.inr rfl)
  have split : okay ++ [newline, 0] ++ message result player move ++ [newline] =
      okay ++ newline :: ([0] ++ (message result player move ++ [newline])) := by
    simp
  rw [split, run_line [] okay _ (by decide) (by decide) line, run_append]
  exact received.trans (by rw [or_self_iff.mp reached])

/-- In front of the first result of player 1 is the terminator behind the rules. -/
theorem agent2_passes_first :
    run (receive agent2Line) ⟨game, .top, [0]⟩ (message result player move ++ [newline]) =
      ⟨game, .top, []⟩ := by
  obtain ⟨last, reached, received⟩ := message_received told player shaped [0] (by simp)
    (fun tail _ _ => (hidden_line on _).2) (agent2_skips on (Or.inl rfl))
  rw [received, or_self_iff.mp reached]

theorem agent2_plays {place reached : Place} (waiting : reached = .top ∨ reached = .answered)
    (reports : ∀ report, report ≠ Report.sunk → ∀ tail : List UInt8, (0 : UInt8) ∉ tail →
      agent2Line game place (lineOf report.word player column digit tail space) =
        (reflect report player .two (column :: digit :: tail) game, reached))
    (ship : ∀ rest, agent2Line game place (shipWord ++ space :: rest) = (game, .top)) :
    ∃ last, (last = reached ∨ last = .top) ∧
      run (receive agent2Line) ⟨game, place, []⟩ (message result player move ++ [newline]) =
        ⟨reflectMatch result player .two (moveText move) game, last, []⟩ := by
  have still : gameStatus (reflectMatch result player .two (moveText move) game) = .gameOn := by
    have totals := reflect_match_totals result player .two (moveText move) game
    rw [status_congr totals.1 totals.2, on]
  have played : ∀ report, report ≠ Report.sunk → displaySelector result = report.word →
      reflectMatch result player .two (moveText move) game =
        reflect report player .two (moveText move) game →
      ∃ last, (last = reached ∨ last = .top) ∧
        run (receive agent2Line) ⟨game, place, []⟩ (message result player move ++ [newline]) =
          ⟨reflectMatch result player .two (moveText move) game, last, []⟩ := by
    intro report kept displayed same
    refine message_received told player shaped [] (by simp) ?_
      (agent2_skips still waiting)
    intro tail whole second
    rw [List.nil_append, displayed, reports report kept tail whole, same, shaped.text,
      reflect_eq report player .two game column digit tail rest second]
  have announced := told
  rcases announced with rfl | rfl | rfl
  · exact played .miss (by decide) rfl rfl
  · exact played .hit (by decide) rfl rfl
  · obtain ⟨last, top, received⟩ := message_received told player shaped
      [] (by simp) (fun tail _ _ => ship _) (agent2_skips on (Or.inl rfl))
    exact ⟨last, Or.inr (or_self_iff.mp top), received⟩

theorem agent2_hears : ∃ last, (last = .answered ∨ last = .top) ∧
      run (receive agent2Line) ⟨game, .top, []⟩ (message result .one move ++ [newline]) =
        ⟨reflectMatch result .one .two (moveText move) game, last, []⟩ := by
  refine agent2_plays told .one shaped on (Or.inr rfl) ?_ ?_
  · intro report _ tail whole
    exact agent2_line_eq report column digit tail shaped.columnWord shaped.digitWord game whole
  · intro rest
    rw [agent2_reads (by decide) (by decide) rest rfl (Or.inl rfl),
      (other_word on (by decide)).1]

theorem agent2_accepted : run (receive agent2Line) ⟨game, .guessed, []⟩
      (okay ++ [newline] ++ message result .two move ++ [newline]) =
        ⟨reflectMatch result .two .two (moveText move) game, .top, []⟩ := by
  have line : agent2Line game .guessed ([] ++ okay ++ [newline]) = (game, .accepted) :=
    agent2_reads (by decide) (by decide) [] rfl (Or.inr (Or.inl rfl))
  have reports : ∀ report, report ≠ Report.sunk → ∀ tail : List UInt8, (0 : UInt8) ∉ tail →
      agent2Line game .accepted (lineOf report.word .two column digit tail space) =
        (reflect report .two .two (column :: digit :: tail) game, .top) := by
    intro report kept tail whole
    rw [agent2_own_line_eq report .two column digit tail shaped.columnWord shaped.digitWord game
      whole]
    refine congrArg (Prod.mk _) ?_
    cases report with
    | sunk => exact absurd rfl kept
    | miss => exact (other_word on (by decide)).2
    | hit => exact (other_word on (by decide)).2
  have ship : ∀ rest, agent2Line game .accepted (shipWord ++ space :: rest) = (game, .top) := by
    intro rest
    rw [agent2_no_report (by decide) (by decide) rest rfl, (other_word on (by decide)).2]
  obtain ⟨last, top, received⟩ :=
    agent2_plays told .two shaped on (Or.inl rfl) reports ship
  have split : okay ++ [newline] ++ message result .two move ++ [newline] =
      okay ++ newline :: (message result .two move ++ [newline]) := by
    simp
  rw [split, run_line [] okay _ (by decide) (by decide) line, received, or_self_iff.mp top]

end Message

end Cprogramming.GameManagement.Agents
