import Cprogramming.Library.MachineWords
import Cprogramming.GameManagement.Grid
import Cprogramming.GameManagement.Texts

/-!
# The game

`game.c` and `move.c`: setting up the two sides from queues of texts and playing
moves on them. A move that is `none` is a null pointer.
-/

namespace Cprogramming.GameManagement.Game

open Library.CStrings Library.MachineWords
open Grid Texts

set_option autoImplicit false

def missMark : UInt8 := 47

def hitMark : UInt8 := 42

/-- The total, the grid and the remaining cells of each ship of one side. -/
structure Side where
  total : Int
  grid : Board
  ships : List Int

/-- `_game`. -/
structure Match where
  player : Side
  cpu : Side

/-! ## Setting up -/

/-- `GAME_QUEUE_ERROR`, `GAME_BOUND_ERROR` and `GAME_OVERLAP_ERROR`. -/
inductive MapError where
  | queue
  | bound
  | overlap
deriving DecidableEq

/-- `fault` is the use of a text that the rules do not have. -/
inductive SetError where
  | fault
  | dataQueue
  | rulesProcess
  | shipsMax
  | playerMap (problem : MapError)
  | cpuMap (problem : MapError)
deriving DecidableEq

def SetError.code : SetError → Option Int
  | .fault => none
  | .dataQueue => some (-13)
  | .rulesProcess => some 50
  | .shipsMax => some (-14)
  | .playerMap .queue => some 100
  | .playerMap .bound => some 80
  | .playerMap .overlap => some 60
  | .cpuMap .queue => some 110
  | .cpuMap .bound => some 90
  | .cpuMap .overlap => some 70

/-- `GAME_ERRORS_OFFSET` of the codes of `grid_draw`. -/
def mapError : DrawError → MapError
  | .bound => .bound
  | .overlap => .overlap
  | .direction => .queue

def readMagnitude (text : List UInt8) : Option Int :=
  match scanInt (thingClean text) with
  | some (magnitude, _) => if 0 < magnitude then some magnitude else none
  | none => none

/-- `game_init`: the empty grid of both sides and the magnitudes of the ships. -/
def gameInit (maxX maxY : Int) (texts : List (List UInt8)) : Except SetError (Board × List Int) :=
  match gridInit maxX maxY with
  | none => .error .rulesProcess
  | some grid =>
    match texts.mapM readMagnitude with
    | none => .error .dataQueue
    | some ships =>
      if maxX * maxY < ships.foldl (fun area magnitude => int32 (area + magnitude)) 0 then
        .error .shipsMax
      else .ok (grid, ships)

/-- The first half of `game_set`. -/
def gameRules (rules : List (List UInt8)) : Except SetError (Board × List Int) :=
  match rules with
  | first :: second :: texts =>
    match scanInt (thingClean first), scanInt (thingClean second) with
    | some (maxX, _), some (maxY, _) =>
      match texts with
      | [] => .error .fault
      | third :: rest =>
        match scanInt (thingClean third) with
        | none => .error .dataQueue
        | some (total, _) =>
          if total ≠ rest.length ∨ total < 1 ∨ 15 < total then .error .dataQueue
          else gameInit maxX maxY rest
    | _, _ => .error .dataQueue
  | _ => .error .fault

/-- The element of a ship: `s + INT_OFFSET + 1`. -/
def shipElement (ship : Nat) : UInt8 := UInt8.ofNat (ship + 49)

/-- `game_draw` from ship `ship` on. -/
def gameDraw (grid : Board) (ship : Nat) : List Int → List (List UInt8) → Except MapError Board
  | [], _ => .ok grid
  | _ :: _, [] => .error .queue
  | magnitude :: rest, text :: texts =>
    match readPlacement (thingClean text) with
    | none => .error .queue
    | some (column, row, direction) =>
      match gridDraw grid (column.toNat - 64) row (shipElement ship) magnitude direction with
      | .error problem => .error (mapError problem)
      | .ok drawn => gameDraw drawn (ship + 1) rest texts

/-- A side without a map keeps the empty grid. -/
def drawSide (grid : Board) (ships : List Int) (map : Option (List (List UInt8))) :
    Except MapError Board :=
  match map with
  | none => .ok grid
  | some texts => gameDraw grid 0 ships texts

def gameSet (rules : List (List UInt8)) (playerMap cpuMap : Option (List (List UInt8))) :
    Except SetError Match :=
  match gameRules rules with
  | .error problem => .error problem
  | .ok (grid, ships) =>
    match drawSide grid ships playerMap, drawSide grid ships cpuMap with
    | .error problem, _ => .error (.playerMap problem)
    | .ok _, .error problem => .error (.cpuMap problem)
    | .ok player, .ok cpu =>
      .ok ⟨⟨ships.length, player, ships⟩, ⟨ships.length, cpu, ships⟩⟩

/-! ## Accepted set-ups -/

variable (rules : List (List UInt8)) (grid : Board)

theorem read_magnitude_positive (text : List UInt8) (magnitude : Int)
    (read : readMagnitude text = some magnitude) : 0 < magnitude := by
  simp only [readMagnitude] at read
  split at read
  · split_ifs at read with positive
    cases read
    exact positive
  · cases read

theorem magnitudes_read (texts : List (List UInt8)) (ships : List Int)
    (read : texts.mapM readMagnitude = some ships) :
    ships.length = texts.length ∧ ∀ magnitude ∈ ships, 0 < magnitude := by
  induction texts generalizing ships with
  | nil =>
    cases read
    simp
  | cons text rest ih =>
    simp only [List.mapM_cons, Option.bind_eq_bind, Option.bind_eq_some_iff] at read
    obtain ⟨magnitude, first, others, later, same⟩ := read
    cases same
    have positive := read_magnitude_positive text magnitude first
    obtain ⟨length, all⟩ := ih others later
    exact ⟨by simp [length], by simpa [positive] using all⟩

theorem game_init_ok (maxX maxY : Int) (texts : List (List UInt8)) (grid : Board)
    (ships : List Int) (accepted : gameInit maxX maxY texts = .ok (grid, ships)) :
    gridInit maxX maxY = some grid ∧ texts.mapM readMagnitude = some ships := by
  simp only [gameInit] at accepted
  split at accepted
  · cases accepted
  · split at accepted
    · cases accepted
    · split_ifs at accepted
      cases accepted
      exact ⟨by assumption, by assumption⟩

theorem game_rules_cases (ships : List Int) (accepted : gameRules rules = .ok (grid, ships)) :
    ∃ first second third rest maxX maxY, rules = first :: second :: third :: rest ∧
      1 ≤ rest.length ∧ rest.length ≤ 15 ∧ gameInit maxX maxY rest = .ok (grid, ships) := by
  unfold gameRules at accepted
  split at accepted
  · split at accepted
    · split at accepted
      · cases accepted
      · split at accepted
        · cases accepted
        · split_ifs at accepted with refused
          exact ⟨_, _, _, _, _, _, rfl, by omega, by omega, accepted⟩
    · cases accepted
  · cases accepted

theorem game_rules_sizes {first second : List UInt8} {texts : List (List UInt8)} {grid : Board}
    {ships : List Int} (accepted : gameRules (first :: second :: texts) = .ok (grid, ships)) :
    ∃ maxX maxY, (scanInt (thingClean first)).map Prod.fst = some maxX ∧
      (scanInt (thingClean second)).map Prod.fst = some maxY ∧ gridInit maxX maxY = some grid := by
  simp only [gameRules] at accepted
  split at accepted
  · rename_i maxX _ maxY _ columns rows
    split at accepted
    · cases accepted
    · split at accepted
      · cases accepted
      · split_ifs at accepted
        refine ⟨maxX, maxY, by rw [columns]; rfl, by rw [rows]; rfl, ?_⟩
        exact (game_init_ok maxX maxY _ grid ships accepted).1
  · cases accepted

theorem game_rules_ok (ships : List Int) (accepted : gameRules rules = .ok (grid, ships)) :
    1 ≤ ships.length ∧ ships.length ≤ 15 ∧ (∀ magnitude ∈ ships, 0 < magnitude) ∧
      ∀ place, grid.plain place = water := by
  obtain ⟨_, _, _, rest, maxX, maxY, _, atLeast, atMost, inited⟩ :=
    game_rules_cases rules grid ships accepted
  obtain ⟨initial, read⟩ := game_init_ok maxX maxY rest grid ships inited
  obtain ⟨length, positive⟩ := magnitudes_read rest ships read
  refine ⟨by omega, by omega, positive, ?_⟩
  simp only [gridInit] at initial
  split_ifs at initial
  cases initial
  exact fun _ => rfl

theorem game_draw_cons (drawn : Board) (ship : Nat) (magnitude : Int) (rest : List Int)
    (texts : List (List UInt8)) (done : gameDraw grid ship (magnitude :: rest) texts = .ok drawn) :
    ∃ text others column row letter next, texts = text :: others ∧
      readPlacement (thingClean text) = some (column, row, letter) ∧
        gridDraw grid (column.toNat - 64) row (shipElement ship) magnitude letter = .ok next ∧
          gameDraw next (ship + 1) rest others = .ok drawn := by
  cases texts with
  | nil => cases done
  | cons text others =>
    simp only [gameDraw] at done
    split at done
    · cases done
    · rename_i column row letter placed
      split at done
      · cases done
      · rename_i next single
        exact ⟨text, others, column, row, letter, next, rfl, placed, single, done⟩

theorem game_set_ok (playerMap cpuMap : Option (List (List UInt8))) (game : Match)
    (set : gameSet rules playerMap cpuMap = .ok game) :
    ∃ grid ships player cpu, gameRules rules = .ok (grid, ships) ∧
      drawSide grid ships playerMap = .ok player ∧ drawSide grid ships cpuMap = .ok cpu ∧
        game = ⟨⟨ships.length, player, ships⟩, ⟨ships.length, cpu, ships⟩⟩ := by
  unfold gameSet at set
  split at set
  · cases set
  · rename_i grid ships accepted
    split at set
    · cases set
    · cases set
    · rename_i player cpu playerDrawn cpuDrawn
      cases set
      exact ⟨grid, ships, player, cpu, accepted, playerDrawn, cpuDrawn, rfl⟩

/-! ## Moves -/

inductive Result where
  | miss
  | hit
  | down
  | winPlayer
  | winCpu
  | gameOn
  | repeated
  | bad
  | illegal
deriving DecidableEq

def Result.code : Result → Int
  | .miss => 0
  | .hit => 1
  | .down => 2
  | .winPlayer => 3
  | .winCpu => 4
  | .gameOn => 5
  | .repeated => -1
  | .bad => -2
  | .illegal => -4

/-- `move_check` takes a space behind the letter out of the text. -/
def moveText (move : CString) : List UInt8 :=
  match move.bytes with
  | column :: second :: rest => if second = space then column :: rest else column :: second :: rest
  | short => short

/-- The test of `move_check` on that text: `"%c%d\n"` in at most four bytes. -/
def moveCheck (text : List UInt8) : Bool :=
  match text with
  | [] => false
  | column :: rest =>
    match scanInt rest with
    | none => false
    | some (row, _) =>
      decide (text.length ≤ 4) && decide (65 ≤ column) && decide (column ≤ 90) &&
        decide (1 ≤ row) && decide (row ≤ 26)

def byteAt (text : List UInt8) (index : Nat) : UInt8 := text.getD index 0

/-- The cell that `game_play_` makes of the bytes of a move. -/
def moveColumn (text : List UInt8) : Int := (byteAt text 0).toNat - 64

def moveRow (text : List UInt8) : Int :=
  if isDigit (byteAt text 2) then
    ((byteAt text 2).toNat - 48) + ((byteAt text 1).toNat - 48) * 10
  else (byteAt text 1).toNat - 48

def hitShip (side : Side) (grid : Board) (ship : Nat) : Result × Side :=
  let ships := side.ships.modify ship (· - 1)
  (if ships.getD ship 0 = 0 then .down else .hit, { side with grid := grid, ships := ships })

/-- `game_play_` on a text that passed the test. -/
def playText (side : Side) (text : List UInt8) : Result × Side :=
  let element := gridGet side.grid (moveColumn text) (moveRow text)
  let mark (symbol : UInt8) := gridSet side.grid (moveColumn text) (moveRow text) symbol
  if element = 0 then (.bad, side)
  else if element = water then (.miss, { side with grid := mark missMark })
  else if element = missMark ∨ element = hitMark then (.repeated, side)
  else if 49 ≤ element ∧ element ≤ 57 then hitShip side (mark hitMark) (element.toNat - 49)
  else (.miss, side)

def gamePlay (side : Side) (move : Option CString) : Result × Side :=
  match move with
  | none => (.illegal, side)
  | some text =>
    if moveCheck (moveText text) then playText side (moveText text) else (.illegal, side)

/-- What `game_play_cpu` and `game_play_player` share: the side that is played on
and the result once it has no ship left. -/
def playSide (won : Result) (side : Side) (move : Option CString) : Result × Side :=
  if side.total = 0 then (won, side)
  else
    let (result, next) := gamePlay side move
    (result, if result = .down then { next with total := next.total - 1 } else next)

def gamePlayCpu (game : Match) (move : Option CString) : Result × Match :=
  let (result, side) := playSide .winCpu game.player move
  (result, { game with player := side })

def gamePlayPlayer (game : Match) (move : Option CString) : Result × Match :=
  let (result, side) := playSide .winPlayer game.cpu move
  (result, { game with cpu := side })

def gameStatus (game : Match) : Result :=
  if game.cpu.total = 0 then .winPlayer
  else if game.player.total = 0 then .winCpu
  else .gameOn

end Cprogramming.GameManagement.Game
