import Cprogramming.GameManagement.ShipCount

/-!
# Setting up the boards

`draw` and `grid_draw` of `grid.c`, `game_draw` and `game_set` of `game.c` once more,
on a grid that is changed in place and with the numbers they return: a cell is
written on the way back of the recursion, the codes of `grid_draw` are shifted by
`GAME_ERRORS_OFFSET`, and `game_set` turns what it knows of them into its own. The
definitions of `Grid` and `Game` leave out both; here they are shown to agree.
-/

namespace Cprogramming.GameManagement.Setup

open Game Grid ShipCount Texts

set_option autoImplicit false

/-! ## Drawing in place -/

variable (problem : MapError) (board : Board) (direction : Direction)

/-- `draw`: what it returns, and the grid behind it. -/
def drawInPlace (board : Board) (place : Int × Int) (element : UInt8) (direction : Direction) :
    Nat → Int × Board
  | 0 => (0, board)
  | magnitude + 1 =>
    if !board.inside place then (DrawError.bound.code, board)
    else if board.plain place ≠ water then (DrawError.overlap.code, board)
    else
      let (res, drawn) := drawInPlace board (direction.next place) element direction magnitude
      (res, if res = 0 then drawn.put place element else drawn)

def gridDrawInPlace (board : Board) (x y : Int) (element : UInt8) (magnitude : Int)
    (letter : UInt8) : Int × Board :=
  match directionOf letter with
  | none => (DrawError.direction.code, board)
  | some direction =>
    drawInPlace board (x - 1, y - 1) (resolveElement element) direction magnitude.toNat

def inPlace (board : Board) : Except DrawError Board → Int × Board
  | .ok drawn => (0, drawn)
  | .error problem => (problem.code, board)

theorem draw_error_code (problem : DrawError) : problem.code ≠ 0 := by
  cases problem <;> decide

theorem draw_in_place_eq (place : Int × Int) (element : UInt8) (direction : Direction)
    (magnitude : Nat) : drawInPlace board place element direction magnitude =
      inPlace board (draw board place element direction magnitude) := by
  induction magnitude generalizing place with
  | zero => rfl
  | succ magnitude ih =>
    rw [drawInPlace, draw, ih]
    by_cases outside : (!board.inside place) = true
    · rw [if_pos outside, if_pos outside, inPlace]
    rw [if_neg outside, if_neg outside]
    by_cases occupied : board.plain place ≠ water
    · rw [if_pos occupied, if_pos occupied, inPlace]
    rw [if_neg occupied, if_neg occupied]
    cases draw board (direction.next place) element direction magnitude with
    | ok drawn => rfl
    | error problem =>
      have failed := draw_error_code problem
      simp [inPlace, failed, bind, Except.bind]

theorem grid_draw_in_place_eq (x y : Int) (element : UInt8) (magnitude : Int) (letter : UInt8) :
    gridDrawInPlace board x y element magnitude letter =
      inPlace board (gridDraw board x y element magnitude letter) := by
  unfold gridDrawInPlace gridDraw
  cases directionOf letter with
  | none => rfl
  | some direction => exact draw_in_place_eq _ _ _ _ _

/-! ## All or nothing -/

def letterOf : Direction → UInt8
  | .north => 78
  | .east => 69
  | .south => 83
  | .west => 87

theorem direction_of_letter : directionOf (letterOf direction) = some direction := by
  cases direction <;> rfl

def Free (board : Board) (cell : Int × Int) : Prop :=
  board.inside cell = true ∧ board.plain cell = water

/-- The error that `draw` returns at a cell that is not free. -/
def blockedBy (board : Board) (cell : Int × Int) : DrawError :=
  if board.inside cell then .overlap else .bound

theorem first_blocked (cells : List (Int × Int)) : (∀ cell ∈ cells, Free board cell) ∨
      ∃ before cell after, cells = before ++ cell :: after ∧
        (∀ earlier ∈ before, Free board earlier) ∧ ¬ Free board cell := by
  induction cells with
  | nil => exact Or.inl (by simp)
  | cons first rest ih =>
    by_cases free : Free board first
    · rcases ih with all | ⟨before, cell, after, rfl, earlier, blocked⟩
      · exact Or.inl (List.forall_mem_cons.mpr ⟨free, all⟩)
      · exact Or.inr ⟨first :: before, cell, after, rfl,
          List.forall_mem_cons.mpr ⟨free, earlier⟩, blocked⟩
    · exact Or.inr ⟨[], first, rest, rfl, by simp, free⟩

theorem draw_free (element : UInt8) (direction : Direction) (magnitude : Nat) (place : Int × Int)
    (free : ∀ cell ∈ ray direction place magnitude, Free board cell) :
    ∃ drawn, draw board place element direction magnitude = .ok drawn := by
  induction magnitude generalizing place with
  | zero => exact ⟨board, rfl⟩
  | succ magnitude ih =>
    rw [ray, List.forall_mem_cons] at free
    obtain ⟨drawn, done⟩ := ih (direction.next place) free.2
    refine ⟨drawn.put place element, ?_⟩
    simp only [draw, free.1.1, free.1.2, done]
    rfl

theorem draw_blocked (element : UInt8) (direction : Direction) (magnitude : Nat)
    (place cell : Int × Int) (before after : List (Int × Int))
    (shape : ray direction place magnitude = before ++ cell :: after)
    (earlier : ∀ cell ∈ before, Free board cell) (blocked : ¬ Free board cell) :
    draw board place element direction magnitude = .error (blockedBy board cell) := by
  induction magnitude generalizing place before with
  | zero => simp [ray] at shape
  | succ magnitude ih =>
    cases before with
    | nil =>
      obtain ⟨rfl, _⟩ := List.cons.inj shape
      rw [draw]
      by_cases inside : board.inside place = true
      · have occupied : board.plain place ≠ water := fun free => blocked ⟨inside, free⟩
        simp [inside, occupied, blockedBy]
      · simp [inside, blockedBy]
    | cons first others =>
      obtain ⟨rfl, rest⟩ := List.cons.inj shape
      rw [List.forall_mem_cons] at earlier
      have later := ih (direction.next place) others rest earlier.2
      simp only [draw, earlier.1.1, earlier.1.2, later]
      rfl

/-- `grid_draw` returns 0 and writes the cells of the ship, which were all free, or
returns the error of the first cell of the ray that is not and leaves the grid as
it is. -/
theorem drawing_is_all_or_nothing (board : Board) (x y : Int) (element : UInt8) (magnitude : Int)
    (direction : Direction) :
    let cells := ray direction (x - 1, y - 1) magnitude.toNat
    let outcome := gridDrawInPlace board x y element magnitude (letterOf direction)
    (outcome.1 = 0 ∧ cells.Nodup ∧ cells.length = magnitude.toNat ∧
        (∀ cell ∈ cells, board.inside cell = true ∧ board.plain cell = water) ∧
        outcome.2 = board.paint cells (resolveElement element)) ∨
      (∃ before cell after, cells = before ++ cell :: after ∧
        (∀ earlier ∈ before, board.inside earlier = true ∧ board.plain earlier = water) ∧
        ((board.inside cell = false ∧ outcome.1 = DrawError.bound.code) ∨
          (board.inside cell = true ∧ board.plain cell ≠ water ∧
            outcome.1 = DrawError.overlap.code)) ∧ outcome.2 = board) := by
  intro cells outcome
  have drawn : outcome =
      inPlace board (draw board (x - 1, y - 1) (resolveElement element) direction
        magnitude.toNat) := by
    change gridDrawInPlace _ _ _ _ _ _ = _
    rw [gridDrawInPlace, direction_of_letter]
    exact draw_in_place_eq _ _ _ _ _
  rcases first_blocked board cells with free | ⟨before, cell, after, shape, earlier, blocked⟩
  · left
    obtain ⟨next, done⟩ := draw_free board (resolveElement element) direction _ _ free
    obtain ⟨_, painted⟩ := draw_ok _ _ _ _ _ _ done
    rw [drawn, done, inPlace]
    exact ⟨rfl, ray_nodup _ _ _, ray_length _ _ _, free, painted⟩
  · right
    have failed := draw_blocked board (resolveElement element) direction _ _ cell before after
      shape earlier blocked
    rw [drawn, failed, inPlace]
    refine ⟨before, cell, after, shape, earlier, ?_, rfl⟩
    by_cases inside : board.inside cell = true
    · right
      refine ⟨inside, fun free => blocked ⟨inside, free⟩, ?_⟩
      rw [blockedBy, if_pos inside]
    · left
      rw [blockedBy, if_neg inside]
      exact ⟨by simpa using inside, rfl⟩

/-! ## Setting up in place -/

def gameErrorsOffset (code : Int) : Int := code - 10

/-- `GAME_BOUND_ERROR`, `GAME_OVERLAP_ERROR` and `GAME_QUEUE_ERROR`. -/
def mapErrorCode : MapError → Int
  | .bound => -11
  | .overlap => -12
  | .queue => -16

def gameDrawInPlace (grid : Board) (ship : Nat) : List Int → List (List UInt8) → Int × Board
  | [], _ => (0, grid)
  | _ :: _, [] => (mapErrorCode .queue, grid)
  | magnitude :: rest, text :: texts =>
    match readPlacement (thingClean text) with
    | none => (mapErrorCode .queue, grid)
    | some (column, row, direction) =>
      let (r, drawn) :=
        gridDrawInPlace grid (column.toNat - 64) row (shipElement ship) magnitude direction
      if r ≠ 0 then (gameErrorsOffset r, drawn)
      else gameDrawInPlace drawn (ship + 1) rest texts

def drawSideInPlace (grid : Board) (ships : List Int) (map : Option (List (List UInt8))) :
    Int × Board :=
  match map with
  | none => (0, grid)
  | some texts => gameDrawInPlace grid 0 ships texts

/-- The codes of `game_set` for the map of one side; a code that it does not know
is dropped. -/
def sideCode (processErr outBoundErr overlapErr c : Int) : Int :=
  if c = mapErrorCode .queue then processErr
  else if c = mapErrorCode .bound then outBoundErr
  else if c = mapErrorCode .overlap then overlapErr
  else 0

/-- `game_set`: its code, and the game unless it has been given up. There is no
result if a text is used that the rules do not have. -/
def gameSetInPlace (rules : List (List UInt8)) (playerMap cpuMap : Option (List (List UInt8))) :
    Option (Int × Option Match) :=
  match gameRules rules with
  | .error problem => problem.code.map fun code => (code, none)
  | .ok (grid, ships) =>
    let (c, player) := drawSideInPlace grid ships playerMap
    let (cc, cpu) := drawSideInPlace grid ships cpuMap
    if c ≠ 0 ∨ cc ≠ 0 then
      some (if c ≠ 0 then sideCode 100 80 60 c else sideCode 110 90 70 cc, none)
    else some (0, some ⟨⟨ships.length, player, ships⟩, ⟨ships.length, cpu, ships⟩⟩)

/-- What the offset makes of the codes of `grid_draw`. The one for a letter that is
no direction becomes the code for a queue that is too short. -/
theorem offset_of_draw_error (problem : DrawError) :
    gameErrorsOffset problem.code = mapErrorCode (mapError problem) := by
  cases problem <;> rfl

theorem map_error_code : mapErrorCode problem ≠ 0 := by
  cases problem <;> decide

theorem game_draw_in_place (ships : List Int) (grid : Board) (ship : Nat)
    (texts : List (List UInt8)) :
    (∃ drawn, gameDraw grid ship ships texts = .ok drawn ∧
        gameDrawInPlace grid ship ships texts = (0, drawn)) ∨
      ∃ problem, gameDraw grid ship ships texts = .error problem ∧
        (gameDrawInPlace grid ship ships texts).1 = mapErrorCode problem := by
  induction ships generalizing grid ship texts with
  | nil => exact Or.inl ⟨grid, rfl, rfl⟩
  | cons magnitude rest ih =>
    cases texts with
    | nil => exact Or.inr ⟨.queue, rfl, rfl⟩
    | cons text texts =>
      simp only [gameDraw, gameDrawInPlace]
      cases readPlacement (thingClean text) with
      | none => exact Or.inr ⟨.queue, rfl, rfl⟩
      | some placement =>
        obtain ⟨column, row, direction⟩ := placement
        dsimp only
        rw [grid_draw_in_place_eq]
        cases gridDraw grid (column.toNat - 64) row (shipElement ship) magnitude direction with
        | ok drawn => exact ih drawn (ship + 1) texts
        | error problem =>
          refine Or.inr ⟨mapError problem, rfl, ?_⟩
          rw [inPlace, if_pos (draw_error_code problem), offset_of_draw_error]

theorem draw_side_in_place (grid : Board) (ships : List Int)
    (map : Option (List (List UInt8))) :
    (∃ drawn, drawSide grid ships map = .ok drawn ∧
        drawSideInPlace grid ships map = (0, drawn)) ∨
      ∃ problem, drawSide grid ships map = .error problem ∧
        (drawSideInPlace grid ships map).1 = mapErrorCode problem := by
  cases map with
  | none => exact Or.inl ⟨grid, rfl, rfl⟩
  | some texts => exact game_draw_in_place ships grid 0 texts

theorem side_code_player :
    some (sideCode 100 80 60 (mapErrorCode problem)) = (SetError.playerMap problem).code := by
  cases problem <;> rfl

theorem side_code_cpu :
    some (sideCode 110 90 70 (mapErrorCode problem)) = (SetError.cpuMap problem).code := by
  cases problem <;> rfl

/-- Both renumberings together lose no error: the numbers are those of the model
without them. -/
theorem game_set_in_place_eq (rules : List (List UInt8))
    (playerMap cpuMap : Option (List (List UInt8))) :
    gameSetInPlace rules playerMap cpuMap =
      match gameSet rules playerMap cpuMap with
      | .ok game => some (0, some game)
      | .error problem => problem.code.map fun code => (code, none) := by
  unfold gameSetInPlace gameSet
  cases gameRules rules with
  | error problem => rfl
  | ok accepted =>
    obtain ⟨grid, ships⟩ := accepted
    dsimp only
    rcases draw_side_in_place grid ships playerMap with ⟨player, done, code⟩ | ⟨problem, failed, code⟩
    · rcases draw_side_in_place grid ships cpuMap with ⟨cpu, cpuDone, cpuCode⟩ | ⟨problem, failed, cpuCode⟩
      · rw [done, cpuDone, code, cpuCode]
        rfl
      · have nonzero := map_error_code problem
        rw [done, failed, code, cpuCode]
        simp [nonzero, ← side_code_cpu]
    · have nonzero := map_error_code problem
      rw [failed, code]
      simp [nonzero, ← side_code_player]

/-! ## Where the ships are -/

def shipCells (magnitude : Int) (text : List UInt8) : Option (List (Int × Int)) := do
  let (column, row, letter) ← readPlacement (thingClean text)
  let direction ← directionOf letter
  some (ray direction (column.toNat - 64 - 1, row - 1) magnitude.toNat)

/-- The cells of the announced ships, if each of them has a line that names them. -/
def fleetCells : List Int → List (List UInt8) → Option (List (List (Int × Int)))
  | [], _ => some []
  | _ :: _, [] => none
  | magnitude :: rest, text :: texts => do
    let cells ← shipCells magnitude text
    let others ← fleetCells rest texts
    some (cells :: others)

def WellPlaced (board : Board) (fleet : List (List (Int × Int))) : Prop :=
  (∀ cells ∈ fleet, ∀ cell ∈ cells, board.inside cell = true) ∧ fleet.Pairwise List.Disjoint

/-- Ship `i` has its magnitude of cells, which are those with its symbol, and all
other cells are water. -/
def Holds (board : Board) (ships : List Int) (fleet : List (List (Int × Int))) : Prop :=
  (∀ ship cells, fleet[ship]? = some cells →
      (cells.length : Int) = ships.getD ship 0 ∧ cells.Nodup ∧
        ∀ cell, board.plain cell = symbol ship ↔ cell ∈ cells) ∧
    ∀ cell, (∀ cells ∈ fleet, cell ∉ cells) → board.plain cell = water

/-- The grid of a side has the announced size and is as the map of the side says;
without one it is empty. -/
def SideExact (announced board : Board) (ships : List Int)
    (map : Option (List (List UInt8))) : Prop :=
  board.sizeX = announced.sizeX ∧ board.sizeY = announced.sizeY ∧
    match map with
    | none => ∀ cell, board.plain cell = water
    | some texts => ∃ fleet, fleetCells ships texts = some fleet ∧ fleet.length = ships.length ∧
        WellPlaced announced fleet ∧ Holds board ships fleet

/-- Some ship of the side has no line that names its cells, is not inside the board
or is on a cell of another one. -/
def Misplaced (board : Board) (ships : List Int) (map : Option (List (List UInt8))) : Prop :=
  ∃ texts, map = some texts ∧
    ∀ fleet, fleetCells ships texts = some fleet → ¬ WellPlaced board fleet

def paintFleet (board : Board) (ship : Nat) : List (List (Int × Int)) → Board
  | [] => board
  | cells :: rest => paintFleet (board.paint cells (symbol ship)) (ship + 1) rest

theorem paint_plain (cells : List (Int × Int)) (element : UInt8) (cell : Int × Int) :
    (board.paint cells element).plain cell = if cell ∈ cells then element else board.plain cell := by
  rfl

theorem paint_fleet_size (fleet : List (List (Int × Int))) (board : Board) (ship : Nat) :
    (paintFleet board ship fleet).sizeX = board.sizeX ∧
      (paintFleet board ship fleet).sizeY = board.sizeY := by
  induction fleet generalizing board ship with
  | nil => exact ⟨rfl, rfl⟩
  | cons cells rest ih => exact ih (board.paint cells (symbol ship)) (ship + 1)

theorem paint_fleet_apart {fleet : List (List (Int × Int))} (board : Board) (ship : Nat)
    {cell : Int × Int} (apart : ∀ cells ∈ fleet, cell ∉ cells) :
    (paintFleet board ship fleet).plain cell = board.plain cell := by
  induction fleet generalizing board ship with
  | nil => rfl
  | cons cells rest ih =>
    rw [List.forall_mem_cons] at apart
    rw [paintFleet, ih _ _ apart.2, paint_plain, if_neg apart.1]

theorem paint_fleet_on (fleet : List (List (Int × Int))) (board : Board) (ship index : Nat)
    (cells : List (Int × Int)) (apart : fleet.Pairwise List.Disjoint)
    (here : fleet[index]? = some cells) (cell : Int × Int) (member : cell ∈ cells) :
    (paintFleet board ship fleet).plain cell = symbol (ship + index) := by
  induction fleet generalizing board ship index with
  | nil => simp at here
  | cons first rest ih =>
    rw [List.pairwise_cons] at apart
    rw [paintFleet]
    cases index with
    | zero =>
      cases here
      rw [paint_fleet_apart _ _, paint_plain, if_pos member, Nat.add_zero]
      intro other listed
      exact apart.1 other listed member
    | succ index =>
      have later := ih (board.paint first (symbol ship)) (ship + 1) index apart.2 (by simpa using here)
      rw [later, Nat.add_assoc, Nat.add_comm 1]

/-! ## A side that was drawn -/

theorem game_draw_fleet (ships : List Int) (grid drawn : Board) (ship : Nat)
    (texts : List (List UInt8)) (few : ship + ships.length ≤ 15)
    (done : gameDraw grid ship ships texts = .ok drawn) :
    ∃ fleet, fleetCells ships texts = some fleet ∧
      List.Forall₂ (fun cells (magnitude : Int) => cells.length = magnitude.toNat ∧ cells.Nodup)
        fleet ships ∧
      (∀ cells ∈ fleet, ∀ cell ∈ cells, Free grid cell) ∧ fleet.Pairwise List.Disjoint ∧
      drawn = paintFleet grid ship fleet := by
  induction ships generalizing grid ship texts with
  | nil =>
    cases done
    exact ⟨[], rfl, List.Forall₂.nil, by simp, List.Pairwise.nil, rfl⟩
  | cons magnitude rest ih =>
    obtain ⟨text, others, column, row, letter, next, rfl, read, single, later⟩ :=
      game_draw_cons grid drawn ship magnitude rest texts done
    rw [List.length_cons] at few
    obtain ⟨fleet, named, sizes, free, apart, painted⟩ := ih next (ship + 1) others (by omega) later
    unfold gridDraw at single
    cases known : directionOf letter with
    | none =>
      rw [known] at single
      cases single
    | some direction =>
      rw [known] at single
      obtain ⟨here, rfl⟩ := draw_ok _ _ _ _ _ _ single
      have visible := (symbol_visible ship (by omega)).2.1
      -- a cell that is free now is not one of the ship that was drawn
      have untouched (cell : Int × Int) (still : Free (grid.paint
          (ray direction (column.toNat - 64 - 1, row - 1) magnitude.toNat) (symbol ship)) cell) :
          cell ∉ ray direction (column.toNat - 64 - 1, row - 1) magnitude.toNat ∧
            Free grid cell := by
        obtain ⟨inside, wet⟩ := still
        rw [paint_plain] at wet
        split_ifs at wet with member
        · exact absurd wet visible
        · exact ⟨member, inside, wet⟩
      refine ⟨ray direction (column.toNat - 64 - 1, row - 1) magnitude.toNat :: fleet, ?_, ?_,
        ?_, ?_, painted⟩
      · simp [fleetCells, shipCells, read, known, named]
      · exact List.Forall₂.cons ⟨ray_length _ _ _, ray_nodup _ _ _⟩ sizes
      · rw [List.forall_mem_cons]
        exact ⟨here, fun cells member cell inside => (untouched cell (free cells member cell inside)).2⟩
      · rw [List.pairwise_cons]
        refine ⟨?_, apart⟩
        intro cells member cell own other
        exact (untouched cell (free cells member cell other)).1 own

theorem paint_fleet_holds {ships : List Int} {grid : Board} {fleet : List (List (Int × Int))}
    (few : ships.length ≤ 15) (positive : ∀ magnitude ∈ ships, 0 < magnitude)
    (empty : ∀ cell, grid.plain cell = water) (sizes : List.Forall₂ (fun cells (magnitude : Int) =>
      cells.length = magnitude.toNat ∧ cells.Nodup) fleet ships)
    (apart : fleet.Pairwise List.Disjoint) : Holds (paintFleet grid 0 fleet) ships fleet := by
  have length := sizes.length_eq
  constructor
  · intro ship cells here
    have bound : ship < fleet.length := (List.getElem?_eq_some_iff.mp here).1
    have there : ship < ships.length := by omega
    obtain ⟨_, cellsAt⟩ := List.getElem?_eq_some_iff.mp here
    have sized := (List.forall₂_iff_get.mp sizes).2 ship bound there
    simp only [List.get_eq_getElem, cellsAt] at sized
    have magnitude := positive ships[ship] (List.getElem_mem there)
    refine ⟨?_, sized.2, ?_⟩
    · rw [List.getD_eq_getElem _ _ there, sized.1]
      omega
    · intro cell
      constructor
      · intro carried
        by_contra missing
        -- the cell is water or carries the symbol of another ship
        by_cases missed : ∀ others ∈ fleet, cell ∉ others
        · rw [paint_fleet_apart grid 0 missed, empty] at carried
          exact (symbol_visible ship (by omega)).2.1 carried.symm
        · obtain ⟨others, listed, inside⟩ : ∃ others ∈ fleet, cell ∈ others := by
            simpa using missed
          obtain ⟨other, otherBound, rfl⟩ := List.mem_iff_getElem.mp listed
          have on := paint_fleet_on fleet grid 0 other fleet[other] apart
            (List.getElem?_eq_getElem otherBound) cell inside
          rw [carried, Nat.zero_add] at on
          have same := symbols_apart ship other (by omega) (by omega) on
          subst same
          exact missing (cellsAt ▸ inside)
      · intro member
        rw [paint_fleet_on fleet grid 0 ship cells apart here cell member, Nat.zero_add]
  · intro cell outside
    rw [paint_fleet_apart grid 0 outside, empty]

theorem draw_side_exact {grid drawn : Board} {ships : List Int} {map : Option (List (List UInt8))}
    (few : ships.length ≤ 15) (positive : ∀ magnitude ∈ ships, 0 < magnitude)
    (empty : ∀ cell, grid.plain cell = water) (done : drawSide grid ships map = .ok drawn) :
    SideExact grid drawn ships map ∧ ¬ Misplaced grid ships map := by
  cases map with
  | none =>
    cases done
    refine ⟨⟨rfl, rfl, empty⟩, ?_⟩
    rintro ⟨texts, absent, _⟩
    cases absent
  | some texts =>
    obtain ⟨fleet, named, sizes, free, apart, rfl⟩ :=
      game_draw_fleet ships grid drawn 0 texts (by omega) done
    have placed : WellPlaced grid fleet :=
      ⟨fun cells member cell inside => (free cells member cell inside).1, apart⟩
    have holds := paint_fleet_holds few positive empty sizes apart
    obtain ⟨width, height⟩ := paint_fleet_size fleet grid 0
    refine ⟨⟨width, height, fleet, named, sizes.length_eq, placed, holds⟩, ?_⟩
    rintro ⟨others, same, never⟩
    cases same
    exact never fleet named placed

/-! ## Board setup -/

theorem game_init_no_fault (maxX maxY : Int) (texts : List (List UInt8)) :
    gameInit maxX maxY texts ≠ .error .fault := by
  unfold gameInit
  cases gridInit maxX maxY with
  | none => simp
  | some grid =>
    cases texts.mapM readMagnitude with
    | none => simp
    | some ships =>
      dsimp only
      split_ifs <;> simp

theorem game_rules_no_fault {rules : List (List UInt8)} (enough : 3 ≤ rules.length) :
    gameRules rules ≠ .error .fault := by
  obtain ⟨first, second, third, rest, rfl⟩ :
      ∃ first second third rest, rules = first :: second :: third :: rest := by
    match rules, enough with
    | first :: second :: third :: rest, _ => exact ⟨first, second, third, rest, rfl⟩
  rw [gameRules]
  split
  · dsimp only
    split
    · simp
    · split_ifs
      · simp
      · exact game_init_no_fault _ _ _
  · simp

theorem set_error_code {problem : SetError} (known : problem ≠ .fault) :
    ∃ code, problem.code = some code ∧ code ≠ 0 := by
  cases problem with
  | fault => exact absurd rfl known
  | dataQueue => exact ⟨_, rfl, by decide⟩
  | rulesProcess => exact ⟨_, rfl, by decide⟩
  | shipsMax => exact ⟨_, rfl, by decide⟩
  | playerMap problem => cases problem <;> exact ⟨_, rfl, by decide⟩
  | cpuMap problem => cases problem <;> exact ⟨_, rfl, by decide⟩

theorem game_set_no_fault {rules : List (List UInt8)}
    (playerMap cpuMap : Option (List (List UInt8))) (enough : 3 ≤ rules.length) :
    gameSet rules playerMap cpuMap ≠ .error .fault := by
  have known := game_rules_no_fault enough
  unfold gameSet
  split
  · rename_i problem failed
    intro fault
    cases fault
    exact known failed
  · split <;> simp

/-- With at least three rules `game_set` returns a code. It is 0 only if every ship
of a side with a map is placed inside the board and apart from the others, and then
the grid of the side holds exactly these ships; if a ship is misplaced, it is not 0. -/
theorem board_setup_exact (rules : List (List UInt8))
    (playerMap cpuMap : Option (List (List UInt8))) (enough : 3 ≤ rules.length) :
    ∃ code game, gameSetInPlace rules playerMap cpuMap = some (code, game) ∧
      (code = 0 → ∃ grid ships set, gameRules rules = .ok (grid, ships) ∧ game = some set ∧
        SideExact grid set.player.grid ships playerMap ∧ SideExact grid set.cpu.grid ships cpuMap) ∧
      (∀ grid ships, gameRules rules = .ok (grid, ships) →
        Misplaced grid ships playerMap ∨ Misplaced grid ships cpuMap → code ≠ 0) := by
  rw [game_set_in_place_eq]
  cases outcome : gameSet rules playerMap cpuMap with
  | error problem =>
    have known : problem ≠ .fault := by
      intro fault
      rw [fault] at outcome
      exact game_set_no_fault playerMap cpuMap enough outcome
    obtain ⟨code, returned, nonzero⟩ := set_error_code known
    refine ⟨code, none, by simp [returned], fun zero => absurd zero nonzero, ?_⟩
    intro grid ships _ _
    exact nonzero
  | ok game =>
    obtain ⟨grid, ships, player, cpu, accepted, playerDone, cpuDone, rfl⟩ :=
      game_set_ok rules playerMap cpuMap game outcome
    obtain ⟨_, few, positive, empty⟩ := game_rules_ok rules grid ships accepted
    have playerExact := draw_side_exact few positive empty playerDone
    have cpuExact := draw_side_exact few positive empty cpuDone
    refine ⟨0, _, rfl, ?_, ?_⟩
    · intro _
      exact ⟨grid, ships, _, accepted, rfl, playerExact.1, cpuExact.1⟩
    · intro others otherShips again misplaced
      rw [accepted, Except.ok.injEq, Prod.mk.injEq] at again
      rw [← again.1, ← again.2] at misplaced
      rcases misplaced with player | cpu
      · exact absurd player playerExact.2
      · exact absurd cpu cpuExact.2

/-- A board of three by three, a ship of two cells and no map of the other side. -/
theorem small_setup_exact :
    ∃ grid ships set,
      gameRules [[51], [51], [49], [50]] = .ok (grid, ships) ∧
      gameSetInPlace [[51], [51], [49], [50]] (some [[65, 49, 32, 69]]) none = some (0, some set) ∧
      SideExact grid set.player.grid ships (some [[65, 49, 32, 69]]) ∧
      SideExact grid set.cpu.grid ships none := by
  obtain ⟨code, game, returned, exactSides, _⟩ := board_setup_exact [[51], [51], [49], [50]]
    (some [[65, 49, 32, 69]]) none (by decide)
  have zero : (gameSetInPlace [[51], [51], [49], [50]] (some [[65, 49, 32, 69]]) none).map
      Prod.fst = some 0 := by decide
  rw [returned, Option.map_some, Option.some.injEq] at zero
  obtain ⟨grid, ships, set, accepted, rfl, player, cpu⟩ := exactSides zero
  have codeZero : code = 0 := zero
  rw [codeZero] at returned
  exact ⟨grid, ships, set, accepted, returned, player, cpu⟩

end Cprogramming.GameManagement.Setup
