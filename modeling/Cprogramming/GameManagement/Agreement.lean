import Cprogramming.GameManagement.Agents
import Cprogramming.GameManagement.ShipCount

/-!
# Agreement of the hub and the agents

Terminators that the hub writes behind its newlines hide from agent 1 the results
of its own guesses and from agent 2 the first one of the other player. Agent 1 looks
for no result of the other player, and no agent for "SHIP SUNK", with which the hub
announces the end of a ship. So the copies agree with the hub until its first mark,
or until agent 2 marks a miss on a ship with a letter, where the hub puts none.
-/

namespace Cprogramming.GameManagement.Agreement

open Library.CStrings Library.Decimals Library.Runs
open Agents Game Grid Texts
open ShipCount hiding step twoRules twoShips

set_option autoImplicit false

/-! ## The property -/

/-- The agent has the marks and the number of ships that the hub has. -/
structure SideAgrees (hub agent : Side) : Prop where
  size : agent.grid.sizeX = hub.grid.sizeX ∧ agent.grid.sizeY = hub.grid.sizeY
  marks : ∀ place, hub.grid.inside place = true →
    (agent.grid.plain place = missMark ↔ hub.grid.plain place = missMark) ∧
      (agent.grid.plain place = hitMark ↔ hub.grid.plain place = hitMark)
  total : agent.total = hub.total

/-- The first agent sees the sides as the hub does, the second one exchanged. -/
structure Agree (hub first second : Match) : Prop where
  player1 : SideAgrees hub.player first.player
  cpu1 : SideAgrees hub.cpu first.cpu
  player2 : SideAgrees hub.cpu second.player
  cpu2 : SideAgrees hub.player second.cpu

def InAgreement (table : Table) : Prop :=
  Agree table.hub table.agent1.game table.agent2.game

/-- The guess is refused, or it is on a cell of the tenth or a later ship, where the
hub puts no mark, and agent 2 has yet to read the terminator behind the rules. -/
def Unmarked (table : Table) (move : CString) : Prop :=
  gameStatus table.hub = .gameOn →
    (playBy table.turn table.hub move).1.code < 0 ∨
      table.turn = .one ∧ table.agent2.pending = [0] ∧ ¬ OffLetters table.hub.cpu (some move)

/-! ## The shape of an accepted move -/

theorem scan_int_first {text : List UInt8} (read : (scanInt text).isSome) :
    ∃ byte rest, text = byte :: rest ∧
      (isSpace byte = true ∨ byte = 45 ∨ byte = 43 ∨ isDigit byte = true) := by
  have number : (strtoll text).isSome := by
    cases parsed : strtoll text with
    | none => simp [scanInt, parsed] at read
    | some pair => rfl
  cases text with
  | nil => cases number
  | cons byte rest => exact ⟨byte, rest, rfl, strtoll_first byte rest number⟩

/-- The row of a cell on the board is positive, so its first byte is a digit. -/
theorem first_digit {column first : UInt8} {rest : List UInt8}
    (positive : 1 ≤ moveRow (column :: first :: rest))
    (start : isSpace first = true ∨ first = 45 ∨ first = 43 ∨ isDigit first = true) :
    isDigit first = true := by
  have low : 48 ≤ first.toNat := by
    rw [move_row_eq] at positive
    cases second : secondDigit rest with
    | none =>
      rw [second] at positive
      simp only at positive
      omega
    | some digit =>
      rw [second] at positive
      obtain ⟨_, decimal⟩ := Option.filter_eq_some_iff.mp second
      have nine := (digit_value digit decimal).2
      simp only at positive
      omega
  by_contra other
  have high := leading_value first start (by simpa using other)
  omega

theorem accepted_shape {board : Board} {move : CString}
    (checked : moveCheck (moveText move) = true)
    (inside : board.inside (placeOf (moveText move)) = true) :
    ∃ column digit rest, Shaped move column digit rest := by
  generalize same : moveText move = text at checked inside
  have positive : 1 ≤ moveRow text := by
    have row : 0 ≤ moveRow text - 1 := ((inside_iff board (placeOf text)).mp inside).2.1
    omega
  cases text with
  | nil => cases checked
  | cons column tail =>
    simp only [moveCheck] at checked
    cases read : scanInt tail with
    | none => simp [read] at checked
    | some pair =>
      simp only [read, Bool.and_eq_true, decide_eq_true_eq] at checked
      obtain ⟨⟨⟨⟨short, low⟩, high⟩, _⟩, _⟩ := checked
      obtain ⟨first, rest, rfl, start⟩ := scan_int_first (by rw [read]; rfl)
      have digit := first_digit positive start
      refine ⟨column, first, rest, same, ?_, ?_, ?_⟩
      · simp [isWord, isAlpha, low, high]
      · simp [isWord, digit]
      · simp only [List.length_cons] at short
        omega

/-! ## One side -/

inductive Outcome (side : Side) (move : CString) : Result × Side → Prop where
  | refused (result : Result) (negative : result.code < 0) : Outcome side move (result, side)
  | letter (checked : moveCheck (moveText move) = true)
      (inside : side.grid.inside (placeOf (moveText move)) = true)
      (unmarked : side.grid.plain (placeOf (moveText move)) ≠ missMark)
      (on : ¬ OffLetters side (some move)) : Outcome side move (.miss, side)
  | marked (result : Result) (next : Side) (mark : UInt8) (told : Told result)
      (checked : moveCheck (moveText move) = true)
      (inside : side.grid.inside (placeOf (moveText move)) = true)
      (unmarked : side.grid.plain (placeOf (moveText move)) ≠ missMark ∧
        side.grid.plain (placeOf (moveText move)) ≠ hitMark)
      (off : OffLetters side (some move)) (known : mark = missMark ∨ mark = hitMark)
      (put : next.grid = side.grid.put (placeOf (moveText move)) mark) :
      Outcome side move (result, next)

theorem letter_element {side : Side} (fleet : Fleet side) {move : CString}
    (checked : moveCheck (moveText move) = true)
    (inside : side.grid.inside (placeOf (moveText move)) = true)
    (taken : side.grid.plain (placeOf (moveText move)) ≠ water)
    (unmarked : ¬ (side.grid.plain (placeOf (moveText move)) = missMark ∨
      side.grid.plain (placeOf (moveText move)) = hitMark))
    (other : ¬ (49 ≤ side.grid.plain (placeOf (moveText move)) ∧
      side.grid.plain (placeOf (moveText move)) ≤ 57)) : ¬ OffLetters side (some move) := by
  intro off
  rcases fleet.known _ inside with free | missed | hit | ⟨ship, bound, carried⟩
  · exact taken free
  · exact unmarked (Or.inl missed)
  · exact unmarked (Or.inr hit)
  · have on : On side (some move) (symbol ship) :=
      ⟨move, rfl, checked, by rw [grid_get_eq, if_pos inside, carried]⟩
    rw [carried, symbol_digit ship (Nat.lt_of_lt_of_le bound fleet.size), not_lt] at other
    exact off ship other bound on

theorem off_letters_of_element {side : Side} (fleet : Fleet side) {move : CString}
    (element : ∀ ship, 9 ≤ ship → ship < 15 →
      side.grid.plain (placeOf (moveText move)) ≠ symbol ship) : OffLetters side (some move) := by
  intro ship letter bound on
  have few := Nat.lt_of_lt_of_le bound fleet.size
  exact element ship letter few (on_symbol side move ship few on).2.2

theorem hit_ship_told (side : Side) (grid : Board) (ship : Nat) :
    Told (hitShip side grid ship).1 ∧ (settle (hitShip side grid ship)).grid = grid := by
  rw [settle_grid, hitShip]
  constructor <;> split_ifs
  · exact Or.inr (Or.inr rfl)
  · exact Or.inr (Or.inl rfl)
  all_goals rfl

theorem play_side_outcome (won : Result) {side : Side} (fleet : Fleet side)
    (left : side.total ≠ 0) (move : CString) :
    Outcome side move (playSide won side (some move)) := by
  by_cases checked : moveCheck (moveText move) = true
  · rw [play_side_checked won left checked]
    have effect := play_text_played side (moveText move)
    generalize playText side (moveText move) = played at effect
    cases effect with
    | refused result negative =>
      have kept : settle (result, side) = side := by
        rw [settle, if_neg]
        rintro rfl
        exact absurd negative (by decide)
      rw [kept]
      exact .refused result negative
    | ignored inside taken unmarked other =>
      exact .letter checked inside (fun missed => unmarked (Or.inl missed))
        (letter_element fleet checked inside taken unmarked other)
    | missed inside free =>
      refine .marked .miss _ missMark (Or.inl rfl) checked inside ?_ ?_ (Or.inl rfl) rfl
      · rw [free]
        decide
      · refine off_letters_of_element fleet ?_
        intro ship _ few carried
        exact (symbol_visible ship few).2.1 (carried.symm.trans free)
    | struck inside digit =>
      obtain ⟨told, put⟩ := hit_ship_told side (side.grid.put (placeOf (moveText move)) hitMark)
        ((side.grid.plain (placeOf (moveText move))).toNat - 49)
      refine .marked _ _ hitMark told checked inside ⟨?_, ?_⟩ ?_ (Or.inr rfl) put
      · intro missed
        rw [missed] at digit
        exact absurd digit (by decide)
      · intro hit
        rw [hit] at digit
        exact absurd digit (by decide)
      · refine off_letters_of_element fleet ?_
        intro ship letter few carried
        rw [carried, symbol_digit ship few] at digit
        omega
  · have idle := play_side_idle won side (some move)
      (Or.inr fun text same => by cases same; exact checked)
    rw [if_neg left] at idle
    rw [idle]
    exact .refused .illegal (by decide)

theorem marked_disagrees {hub next agent : Side} (agrees : SideAgrees hub agent)
    {place : Int × Int} {mark : UInt8} (inside : hub.grid.inside place = true)
    (unmarked : hub.grid.plain place ≠ missMark ∧ hub.grid.plain place ≠ hitMark)
    (known : mark = missMark ∨ mark = hitMark) (put : next.grid = hub.grid.put place mark) :
    ¬ SideAgrees next agent := by
  intro still
  have before := agrees.marks place inside
  have after := still.marks place (by rw [put]; exact inside)
  have here : next.grid.plain place = mark := by
    simp [put, Board.put]
  rw [here] at after
  rcases known with rfl | rfl
  · exact unmarked.1 (before.1.mp (after.1.mpr rfl))
  · exact unmarked.2 (before.2.mp (after.2.mpr rfl))

theorem letter_disagrees {hub agent : Side} (agrees : SideAgrees hub agent) {move : List UInt8}
    (inside : hub.grid.inside (placeOf move) = true)
    (unmarked : hub.grid.plain (placeOf move) ≠ missMark) :
    ¬ SideAgrees hub (applyReport .miss move agent) := by
  intro still
  have within : agent.grid.inside (placeOf move) = true := by
    rw [Board.inside, agrees.size.1, agrees.size.2]
    exact inside
  have set : gridSet agent.grid (moveColumn move) (moveRow move) missMark =
      agent.grid.put (placeOf move) missMark := if_pos within
  have marks := (still.marks (placeOf move) inside).1
  refine unmarked (marks.mp ?_)
  simp [applyReport, Report.mark, set, Board.put]

/-! ## One guess -/

theorem status_on {game : Match} (on : gameStatus game = .gameOn) :
    game.player.total ≠ 0 ∧ game.cpu.total ≠ 0 := by
  simp only [gameStatus] at on
  split_ifs at on with cpuOver playerOver
  exact ⟨playerOver, cpuOver⟩

/-- The player whose turn it is has been asked, and the other one is at the head of
its loop. -/
inductive Ready : Table → Prop where
  | one (hub first second : Match) (pending : List UInt8) (behind : pending = [] ∨ pending = [0]) :
      Ready ⟨hub, .one, ⟨first, .guessed, []⟩, ⟨second, .top, pending⟩⟩
  | two (hub first second : Match) :
      Ready ⟨hub, .two, ⟨first, .top, []⟩, ⟨second, .guessed, []⟩⟩

/-- The copy of agent 2 after a guess. It does not see the first result of player 1,
which stands behind a terminator. -/
def copyAfter (table : Table) (move : CString) : Match :=
  if table.agent2.pending = [0] then table.agent2.game
  else
    reflectMatch (playBy table.turn table.hub move).1 table.turn .two (moveText move)
      table.agent2.game

structure Leaves (next : Table) (hub first second : Match) : Prop where
  played : next.hub = hub
  copy1 : next.agent1.game = first
  copy2 : next.agent2.game = second
  ready : gameStatus hub = .gameOn → Ready next

theorem agent1_told {game : Match} {word : List UInt8}
    (letters : word.all isWord = true) (short : word.length < 49) {place : Place}
    (reading : place = .top ∨ place = .guessed) :
    run (receive agent1Line) ⟨game, place, []⟩ (word ++ [newline]) =
      ⟨game, dispatch game word, []⟩ := by
  refine run_line [] word [] ?_ short (agent1_reads letters (by decide) [] reading)
  exact fun member => (word_visible newline (List.all_eq_true.mp letters newline member)).2.2.1 rfl

theorem agent2_told {game : Match} {word : List UInt8}
    (letters : word.all isWord = true) (short : word.length < 49)
    (unknown : reportOf word = none) {place : Place}
    (reading : place = .top ∨ place = .guessed ∨ place = .answered) :
    run (receive agent2Line) ⟨game, place, []⟩ (word ++ [newline]) =
      ⟨game, dispatch game word, []⟩ := by
  refine run_line [] word [] ?_ short (agent2_reads letters (by decide) [] unknown reading)
  exact fun member => (word_visible newline (List.all_eq_true.mp letters newline member)).2.2.1 rfl

theorem proceed_leaves (hub first second : Match) (player : Player) {last : Place}
    (waiting : last = .answered ∨ last = .top) (settled : player = .one → last = .top) :
    Leaves (Table.tell ⟨hub, player, ⟨first, .top, []⟩, ⟨second, last, []⟩⟩ (proceed hub player))
      hub first second := by
  have reading : last = .top ∨ last = .guessed ∨ last = .answered := by
    tauto
  by_cases on : gameStatus hub = .gameOn
  · rw [proceed, if_pos on]
    cases player with
    | one =>
      have asked : run (receive agent1Line) ⟨first, .top, []⟩ (yourTurn ++ [newline]) =
          ⟨first, .guessed, []⟩ := agent1_told (by decide) (by decide) (Or.inl rfl)
      simp only [Table.tell, prompt, asked, settled rfl]
      exact ⟨rfl, rfl, rfl, fun _ => .one hub first second [] (Or.inl rfl)⟩
    | two =>
      have asked : run (receive agent2Line) ⟨second, last, []⟩ (yourTurn ++ [newline]) =
          ⟨second, .guessed, []⟩ := agent2_told (by decide) (by decide) rfl reading
      simp only [Table.tell, prompt, asked]
      exact ⟨rfl, rfl, rfl, fun _ => .two hub first second⟩
  · have ended1 : run (receive agent1Line) ⟨first, .top, []⟩ (finished ++ [newline]) =
        ⟨first, dispatch first finished, []⟩ := agent1_told (by decide) (by decide) (Or.inl rfl)
    have ended2 : run (receive agent2Line) ⟨second, last, []⟩ (finished ++ [newline]) =
        ⟨second, dispatch second finished, []⟩ := agent2_told (by decide) (by decide) rfl reading
    simp only [proceed, if_neg on, Table.tell, ended1, ended2]
    exact ⟨rfl, rfl, rfl, fun contrary => absurd contrary on⟩

theorem reflect_negative {result : Result} (negative : result.code < 0) (player : Player)
    (move : List UInt8) (game : Match) : reflectMatch result player .two move game = game := by
  cases result <;> first | rfl | exact absurd negative (by decide)

theorem refused_leaves {table : Table} (ready : Ready table)
    (on : gameStatus table.hub = .gameOn) (move : CString)
    (negative : (playBy table.turn table.hub move).1.code < 0) :
    Leaves (step table move) (playBy table.turn table.hub move).2 table.agent1.game
      (copyAfter table move) := by
  have kept : copyAfter table move = table.agent2.game := by
    rw [copyAfter, reflect_negative negative, ite_self]
  rw [step, if_neg (not_not.mpr on), if_pos negative, kept]
  cases ready with
  | one hub first second pending behind =>
    have asked : run (receive agent1Line) ⟨first, .guessed, []⟩ (yourTurn ++ [newline]) =
        ⟨first, .guessed, []⟩ := agent1_told (by decide) (by decide) (Or.inr rfl)
    simp only [Table.tell, prompt, asked]
    exact ⟨rfl, rfl, rfl, fun _ => .one _ first second pending behind⟩
  | two hub first second =>
    have asked : run (receive agent2Line) ⟨second, .guessed, []⟩ (yourTurn ++ [newline]) =
        ⟨second, .guessed, []⟩ := agent2_told (by decide) (by decide) rfl (Or.inr (Or.inl rfl))
    simp only [Table.tell, prompt, asked]
    exact ⟨rfl, rfl, rfl, fun _ => .two _ first second⟩

theorem told_accepted {result : Result} (told : Told result) : ¬ result.code < 0 := by
  rcases told with rfl | rfl | rfl <;> decide

theorem told_leaves {table : Table} (ready : Ready table) (on : gameStatus table.hub = .gameOn)
    (on1 : gameStatus table.agent1.game = .gameOn) (on2 : gameStatus table.agent2.game = .gameOn)
    (move : CString) (told : Told (playBy table.turn table.hub move).1)
    (checked : moveCheck (moveText move) = true) {board : Board}
    (inside : board.inside (placeOf (moveText move)) = true) :
    Leaves (step table move) (playBy table.turn table.hub move).2 table.agent1.game
      (copyAfter table move) := by
  obtain ⟨column, digit, rest, shaped⟩ := accepted_shape checked inside
  rw [step, if_neg (not_not.mpr on), if_neg (told_accepted told)]
  cases ready with
  | one hub first second pending behind =>
    have lines1 := agent1_accepted told .one shaped on1
    rcases behind with rfl | rfl
    · obtain ⟨last, waiting, lines2⟩ := agent2_hears told shaped on2
      simp only [Table.tell, broadcast, lines1, lines2]
      exact proceed_leaves _ first _ .two waiting (by simp)
    · have lines2 := agent2_passes_first told .one shaped on2
      simp only [Table.tell, broadcast, lines1, lines2]
      exact proceed_leaves _ first second .two (Or.inr rfl) (by simp)
  | two hub first second =>
    have lines1 := agent1_passes told .two shaped on1
    have lines2 := agent2_accepted told shaped on2
    simp only [Table.tell, broadcast, lines1, lines2]
    exact proceed_leaves _ first _ .one (Or.inr rfl) (fun _ => rfl)

section Sides

variable {hub first second : Match} {move : CString} {played : Result × Side}
  (agree : Agree hub first second)

include agree

theorem agree_one_iff {pending : List UInt8} (behind : pending = [] ∨ pending = [0])
    (outcome : Outcome hub.cpu move played) :
    Agree { hub with cpu := played.2 } first (if pending = [0] then second
        else reflectMatch played.1 .one .two (moveText move) second) ↔
      played.1.code < 0 ∨ pending = [0] ∧ ¬ OffLetters hub.cpu (some move) := by
  cases outcome with
  | refused result negative =>
    rw [reflect_negative negative, ite_self]
    exact iff_of_true agree (Or.inl negative)
  | letter checked inside unmarked on =>
    rcases behind with rfl | rfl
    · refine iff_of_false ?_ (by simp [Result.code])
      intro still
      exact letter_disagrees agree.player2 inside unmarked still.player2
    · exact iff_of_true agree (Or.inr ⟨rfl, on⟩)
  | marked result next mark told checked inside unmarked off known put =>
    refine iff_of_false ?_ ?_
    · intro still
      exact marked_disagrees agree.cpu1 inside unmarked known put still.cpu1
    · rintro (negative | ⟨_, on⟩)
      · exact told_accepted told negative
      · exact on off

theorem agree_two_iff (outcome : Outcome hub.player move played) :
    Agree { hub with player := played.2 } first
        (reflectMatch played.1 .two .two (moveText move) second) ↔ played.1.code < 0 := by
  cases outcome with
  | refused result negative =>
    rw [reflect_negative negative]
    exact iff_of_true agree negative
  | letter checked inside unmarked on =>
    refine iff_of_false ?_ (by simp [Result.code])
    intro still
    exact letter_disagrees agree.cpu2 inside unmarked still.cpu2
  | marked result next mark told checked inside unmarked off known put =>
    refine iff_of_false ?_ (told_accepted told)
    intro still
    exact marked_disagrees agree.player1 inside unmarked known put still.player1

end Sides

/-! ## A whole game -/

/-- Agent 1 keeps its copy, and agent 2 its totals. -/
structure Kept (agent1 agent2 : Match) (table : Table) : Prop where
  sound : SoundMatch table.hub
  copy1 : table.agent1.game = agent1
  player2 : table.agent2.game.player.total = agent2.player.total
  cpu2 : table.agent2.game.cpu.total = agent2.cpu.total
  ready : gameStatus table.hub = .gameOn → Ready table

section Run

variable {agent1 agent2 : Match} (on1 : gameStatus agent1 = .gameOn)
  (on2 : gameStatus agent2 = .gameOn) {table : Table} (kept : Kept agent1 agent2 table)
  (move : CString)

theorem play_by_outcome {hub : Match} (sound : SoundMatch hub) (on : gameStatus hub = .gameOn)
    (player : Player) : (playBy player hub move).1.code < 0 ∨
      Told (playBy player hub move).1 ∧ moveCheck (moveText move) = true ∧
        ∃ board : Board, board.inside (placeOf (moveText move)) = true := by
  have split : ∀ {side : Side} {played : Result × Side}, Outcome side move played →
      played.1.code < 0 ∨ Told played.1 ∧ moveCheck (moveText move) = true ∧
        ∃ board : Board, board.inside (placeOf (moveText move)) = true := by
    intro side played outcome
    cases outcome with
    | refused result negative => exact Or.inl negative
    | letter checked inside => exact Or.inr ⟨Or.inl rfl, checked, side.grid, inside⟩
    | marked result next mark told checked inside => exact Or.inr ⟨told, checked, side.grid, inside⟩
  cases player with
  | one => exact split (play_side_outcome .winPlayer sound.2.fleet (status_on on).2 move)
  | two => exact split (play_side_outcome .winCpu sound.1.fleet (status_on on).1 move)

include on1 on2 kept

theorem step_leaves (on : gameStatus table.hub = .gameOn) :
    Leaves (step table move) (playBy table.turn table.hub move).2 table.agent1.game
      (copyAfter table move) := by
  rcases play_by_outcome move kept.sound on table.turn with
    negative | ⟨told, checked, board, inside⟩
  · exact refused_leaves (kept.ready on) on move negative
  · have alive1 : gameStatus table.agent1.game = .gameOn := by
      rw [kept.copy1, on1]
    have alive2 : gameStatus table.agent2.game = .gameOn := by
      rw [status_congr kept.player2 kept.cpu2, on2]
    exact told_leaves (kept.ready on) on alive1 alive2 move told checked inside

theorem step_kept : Kept agent1 agent2 (step table move) := by
  by_cases on : gameStatus table.hub = .gameOn
  · obtain ⟨played, copy1, copy2, ready⟩ := step_leaves on1 on2 kept move on
    have totals : (copyAfter table move).player.total = table.agent2.game.player.total ∧
        (copyAfter table move).cpu.total = table.agent2.game.cpu.total := by
      rw [copyAfter]
      split_ifs
      · exact ⟨rfl, rfl⟩
      · exact reflect_match_totals _ _ _ _ _
    refine ⟨?_, copy1.trans kept.copy1, ?_, ?_, ?_⟩
    · rw [played]
      cases table.turn with
      | one => exact ⟨kept.sound.1, play_side_sound .winPlayer kept.sound.2 (some move)⟩
      | two => exact ⟨play_side_sound .winCpu kept.sound.1 (some move), kept.sound.2⟩
    · rw [copy2, totals.1, kept.player2]
    · rw [copy2, totals.2, kept.cpu2]
    · rw [played]
      exact ready
  · rw [step, if_pos on]
    exact kept

theorem step_agrees_iff (agreement : InAgreement table) :
    InAgreement (step table move) ↔ Unmarked table move := by
  by_cases on : gameStatus table.hub = .gameOn
  · have leaves := step_leaves on1 on2 kept move on
    rw [InAgreement, leaves.played, leaves.copy1, leaves.copy2]
    have ready := kept.ready on
    have sound := kept.sound
    cases ready with
    | one hub first second pending behind =>
      have decided := agree_one_iff agreement behind
        (play_side_outcome .winPlayer sound.2.fleet (status_on on).2 move)
      refine decided.trans ⟨fun met _ => met.imp id fun both => ⟨rfl, both⟩, ?_⟩
      intro met
      exact (met on).imp id And.right
    | two hub first second =>
      have decided := agree_two_iff agreement
        (play_side_outcome .winCpu sound.1.fleet (status_on on).1 move)
      refine decided.trans ⟨fun met _ => Or.inl met, ?_⟩
      intro met
      exact (met on).resolve_right (by simp)
  · rw [step, if_pos on]
    exact iff_of_true agreement (fun contrary => absurd contrary on)

end Run

/-! ## The start of a game -/

theorem game_draw_size (grid drawn : Board) (ship : Nat) (ships : List Int)
    (texts : List (List UInt8)) (done : gameDraw grid ship ships texts = .ok drawn) :
    drawn.sizeX = grid.sizeX ∧ drawn.sizeY = grid.sizeY := by
  induction ships generalizing grid ship texts with
  | nil =>
    cases done
    exact ⟨rfl, rfl⟩
  | cons magnitude rest ih =>
    obtain ⟨_, others, _, _, _, next, _, _, single, later⟩ :=
      game_draw_cons grid drawn ship magnitude rest texts done
    obtain ⟨_, _, _, _, rfl⟩ := grid_draw_ok _ _ _ _ _ _ _ single
    have size := ih _ (ship + 1) others later
    exact size

theorem draw_side_unmarked {grid drawn : Board} {ships : List Int}
    {map : Option (List (List UInt8))} (few : ships.length ≤ 15)
    (positive : ∀ magnitude ∈ ships, 0 < magnitude) (empty : ∀ place, grid.plain place = water)
    (done : drawSide grid ships map = .ok drawn) :
    (drawn.sizeX = grid.sizeX ∧ drawn.sizeY = grid.sizeY) ∧
      ∀ place, drawn.plain place ≠ missMark ∧ drawn.plain place ≠ hitMark := by
  cases map with
  | none =>
    cases done
    refine ⟨⟨rfl, rfl⟩, ?_⟩
    intro place
    rw [empty place]
    decide
  | some texts =>
    refine ⟨game_draw_size grid drawn 0 ships texts done, ?_⟩
    intro place
    obtain ⟨known, _⟩ := game_draw_counts grid drawn 0 ships texts (by omega) positive
      (fun place => Or.inl (empty place)) done
    rcases known place with free | ⟨ship, bound, carried⟩
    · rw [free]
      decide
    · rw [carried]
      exact (symbol_visible ship (by omega)).2.2

theorem drawn_sides_agree (rules : List (List UInt8)) (grid left right : Board) (ships : List Int)
    (leftMap rightMap : Option (List (List UInt8)))
    (accepted : gameRules rules = .ok (grid, ships))
    (leftDrawn : drawSide grid ships leftMap = .ok left)
    (rightDrawn : drawSide grid ships rightMap = .ok right) :
    SideAgrees ⟨ships.length, left, ships⟩ ⟨ships.length, right, ships⟩ := by
  obtain ⟨_, few, positive, empty⟩ := game_rules_ok rules grid ships accepted
  obtain ⟨leftSize, leftMarks⟩ :=
    draw_side_unmarked few positive empty leftDrawn
  obtain ⟨rightSize, rightMarks⟩ :=
    draw_side_unmarked few positive empty rightDrawn
  refine ⟨⟨rightSize.1.trans leftSize.1.symm, rightSize.2.trans leftSize.2.symm⟩, ?_, rfl⟩
  intro place _
  exact ⟨iff_of_false (rightMarks place).1 (leftMarks place).1,
    iff_of_false (rightMarks place).2 (leftMarks place).2⟩

theorem start_agrees (rules map1 map2 : List (List UInt8)) (hub agent1 agent2 : Match)
    (hubSet : gameSet rules (some map1) (some map2) = .ok hub)
    (set1 : gameSet rules (some map1) none = .ok agent1)
    (set2 : gameSet rules (some map2) none = .ok agent2) : Agree hub agent1 agent2 := by
  obtain ⟨grid, ships, _, _, accepted, hubPlayer, hubCpu, rfl⟩ := game_set_ok _ _ _ _ hubSet
  obtain ⟨_, _, _, _, accepted1, player1, cpu1, rfl⟩ := game_set_ok _ _ _ _ set1
  obtain ⟨_, _, _, _, accepted2, player2, cpu2, rfl⟩ := game_set_ok _ _ _ _ set2
  cases accepted.symm.trans accepted1
  cases accepted.symm.trans accepted2
  have sides := fun left right leftMap rightMap =>
    drawn_sides_agree rules grid left right ships leftMap rightMap accepted
  exact ⟨sides _ _ _ _ hubPlayer player1, sides _ _ _ _ hubCpu cpu1,
    sides _ _ _ _ hubCpu player2, sides _ _ _ _ hubPlayer cpu2⟩

theorem set_on {rules : List (List UInt8)} {playerMap cpuMap : Option (List (List UInt8))}
    {game : Match} (set : gameSet rules playerMap cpuMap = .ok game) :
    gameStatus game = .gameOn := by
  obtain ⟨grid, ships, _, _, accepted, _, _, rfl⟩ := game_set_ok _ _ _ _ set
  have atLeast := (game_rules_ok rules grid ships accepted).1
  have left : (ships.length : Int) ≠ 0 := by
    omega
  exact (if_neg left).trans (if_neg left)

theorem start_eq {hub agent1 agent2 : Match} (on : gameStatus hub = .gameOn)
    (on1 : gameStatus agent1 = .gameOn) (on2 : gameStatus agent2 = .gameOn) :
    start hub agent1 agent2 = ⟨hub, .one, ⟨agent1, .guessed, []⟩, ⟨agent2, .top, [0]⟩⟩ := by
  have asked : run (receive agent1Line) ⟨agent1, .top, []⟩ (yourTurn ++ [newline]) =
      ⟨agent1, .guessed, []⟩ := agent1_told (by decide) (by decide) (Or.inl rfl)
  have other : [] ∉ controls := by decide
  rw [start, proceed, if_pos on, (other_word on1 other).2, (other_word on2 other).2]
  simp only [Table.tell, prompt, asked]
  rfl

/-- Agent 1 plays no move of a game and agent 2 counts no sunk ship. The copies agree
with the hub through exactly the games in which no guess is accepted but, as the
first one, a guess on a ship with a letter. -/
theorem agreement_throughout_iff (rules map1 map2 : List (List UInt8)) (hub agent1 agent2 : Match)
    (hubSet : gameSet rules (some map1) (some map2) = .ok hub)
    (set1 : gameSet rules (some map1) none = .ok agent1)
    (set2 : gameSet rules (some map2) none = .ok agent2) (moves : List CString) :
    ((run step (start hub agent1 agent2) moves).agent1.game = agent1 ∧
      (run step (start hub agent1 agent2) moves).agent2.game.player.total = agent2.player.total ∧
      (run step (start hub agent1 agent2) moves).agent2.game.cpu.total = agent2.cpu.total) ∧
    (Throughout step InAgreement (start hub agent1 agent2) moves ↔
      EachStep step Unmarked (start hub agent1 agent2) moves) := by
  have on1 := set_on set1
  have on2 := set_on set2
  have sound := game_set_sound rules map1 map2 hub hubSet
  rw [start_eq (set_on hubSet) on1 on2]
  have initial : Kept agent1 agent2
      ⟨hub, .one, ⟨agent1, .guessed, []⟩, ⟨agent2, .top, [0]⟩⟩ :=
    ⟨sound, rfl, rfl, rfl, fun _ => .one hub agent1 agent2 [0] (Or.inr rfl)⟩
  have reached := run_invariant step (Kept agent1 agent2)
    (fun table move kept => step_kept on1 on2 kept move) _ initial moves
  refine ⟨⟨reached.copy1, reached.player2, reached.cpu2⟩, ?_⟩
  exact throughout_iff_of_invariant step (Kept agent1 agent2) InAgreement Unmarked
    (fun table move kept => step_kept on1 on2 kept move)
    (fun table move kept agreement => step_agrees_iff on1 on2 kept move agreement) _ initial
    (start_agrees rules map1 map2 hub agent1 agent2 hubSet set1 set2) moves

/-- The guesses "Z9", which is off the board, and "D1", which is on the tenth ship. -/
def offAndTenth : List CString := [⟨[90, 57, 10], by decide⟩, ⟨[68, 49, 10], by decide⟩]

theorem off_and_tenth_agree :
    ∃ hub agent1 agent2, gameSet tenRules (some tenShips) (some tenShips) = .ok hub ∧
      gameSet tenRules (some tenShips) none = .ok agent1 ∧
      gameSet tenRules (some tenShips) none = .ok agent2 ∧
      (run step (start hub agent1 agent2) offAndTenth).turn = .two ∧
      Throughout step InAgreement (start hub agent1 agent2) offAndTenth := by
  refine ⟨_, _, _, rfl, rfl, rfl, by decide +kernel, ?_⟩
  refine (agreement_throughout_iff tenRules tenShips tenShips _ _ _ rfl rfl rfl
    offAndTenth).2.mpr ⟨?_, ?_, trivial⟩
  · intro _
    exact Or.inl (by decide +kernel)
  · intro _
    refine Or.inr ⟨by decide +kernel, by decide +kernel, ?_⟩
    intro off
    exact off 9 (by decide) (by decide +kernel) ⟨_, rfl, by decide +kernel, by decide +kernel⟩

/-- A board of one by two with one ship, which takes both cells. -/
def twoRules : List (List UInt8) := [[49], [50], [49], [50]]

def twoCells : List (List UInt8) := [[65, 49, 32, 83]]

/-- Player 1 hits and sinks the ship with "A1" and "A2", player 2 hits with "A1". -/
def sinkingGuesses : List CString :=
  [⟨[65, 49, 10], by decide⟩, ⟨[65, 49, 10], by decide⟩, ⟨[65, 50, 10], by decide⟩]

/-- Agent 1 marks none of the three hits and agent 2 only its own, and both still have
the ship that the hub has no more. -/
theorem sunk_ship_disagrees :
    ∃ hub agent1 agent2 table, gameSet twoRules (some twoCells) (some twoCells) = .ok hub ∧
      gameSet twoRules (some twoCells) none = .ok agent1 ∧
      gameSet twoRules (some twoCells) none = .ok agent2 ∧
      run step (start hub agent1 agent2) sinkingGuesses = table ∧
      (table.hub.cpu.grid.plain (0, 0) = hitMark ∧ table.agent1.game.cpu.grid.plain (0, 0) = water ∧
        table.agent2.game.player.grid.plain (0, 0) = symbol 0 ∧
        table.agent2.game.cpu.grid.plain (0, 0) = hitMark) ∧
      (table.hub.cpu.total = 0 ∧ table.agent1.game.cpu.total = 1 ∧
        table.agent2.game.player.total = 1) ∧
      ¬ Throughout step InAgreement (start hub agent1 agent2) sinkingGuesses := by
  refine ⟨_, _, _, _, rfl, rfl, rfl, rfl, by decide +kernel, by decide +kernel, ?_⟩
  intro agreement
  have same := (throughout_run step InAgreement _ sinkingGuesses agreement).cpu1.total
  exact absurd same (by decide +kernel)

end Cprogramming.GameManagement.Agreement
