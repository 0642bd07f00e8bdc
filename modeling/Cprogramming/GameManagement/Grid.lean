import Mathlib.Order.Interval.Finset.Defs
import Mathlib.Order.Interval.Finset.Basic
import Mathlib.Data.Int.Interval
import Mathlib.Data.Finset.Prod
import Mathlib.Data.Fintype.Card
import Mathlib.Tactic.Common

/-!
# The grid

`grid.c`: a board of at most 26 by 26 cells and the drawing of a ship on it. A
place counts its column and row from zero, as the source does after
`position_resolve`.
-/

namespace Cprogramming.GameManagement.Grid

set_option autoImplicit false

def gridMaxX : Int := 26

def gridMaxY : Int := 26

/-- `DEFAULT_ELEMENT`. -/
def water : UInt8 := 46

structure Board where
  sizeX : Int
  sizeY : Int
  plain : Int × Int → UInt8

def checkInside (place : Int × Int) (maxX maxY : Int) : Bool :=
  decide (0 ≤ place.1) && decide (place.1 < maxX) && decide (0 ≤ place.2) && decide (place.2 < maxY)

def Board.inside (board : Board) (place : Int × Int) : Bool :=
  checkInside place board.sizeX board.sizeY

theorem inside_iff (board : Board) (place : Int × Int) :
    board.inside place = true ↔
      (0 ≤ place.1 ∧ place.1 < board.sizeX) ∧ 0 ≤ place.2 ∧ place.2 < board.sizeY := by
  simp only [Board.inside, checkInside, Bool.and_eq_true, decide_eq_true_eq, and_assoc]

def gridInit (x y : Int) : Option Board :=
  if checkInside (x - 1, y - 1) gridMaxX gridMaxY then some ⟨x, y, fun _ => water⟩ else none

def Board.put (board : Board) (place : Int × Int) (element : UInt8) : Board :=
  { board with plain := fun other => if other = place then element else board.plain other }

/-- `grid_set`: a place off the board is ignored. -/
def gridSet (board : Board) (x y : Int) (element : UInt8) : Board :=
  if board.inside (x - 1, y - 1) then board.put (x - 1, y - 1) element else board

/-- `grid_get`: zero off the board. -/
def gridGet (board : Board) (x y : Int) : UInt8 :=
  if board.inside (x - 1, y - 1) then board.plain (x - 1, y - 1) else 0

/-! ## Drawing -/

inductive Direction where
  | north
  | east
  | south
  | west
deriving DecidableEq

def directionOf (letter : UInt8) : Option Direction :=
  if letter = 78 then some .north
  else if letter = 69 then some .east
  else if letter = 83 then some .south
  else if letter = 87 then some .west
  else none

/-- `resolve_cord_x` and `resolve_cord_y`. -/
def Direction.next (direction : Direction) (place : Int × Int) : Int × Int :=
  match direction with
  | .north => (place.1, place.2 - 1)
  | .east => (place.1 + 1, place.2)
  | .south => (place.1, place.2 + 1)
  | .west => (place.1 - 1, place.2)

inductive DrawError where
  | bound
  | overlap
  | direction
deriving DecidableEq

/-- `DRAW_BOUND_ERROR`, `DRAW_OVERLAP_ERROR` and `DRAW_DIRECTION_INVALID`. -/
def DrawError.code : DrawError → Int
  | .bound => -1
  | .overlap => -2
  | .direction => -6

/-- `draw` writes a cell only after all later ones, so a failure changes none. -/
def draw (board : Board) (place : Int × Int) (element : UInt8) (direction : Direction) :
    Nat → Except DrawError Board
  | 0 => .ok board
  | magnitude + 1 =>
    if !board.inside place then .error .bound
    else if board.plain place ≠ water then .error .overlap
    else do
      let drawn ← draw board (direction.next place) element direction magnitude
      .ok (drawn.put place element)

/-- A symbol above '9' is turned into a letter. -/
def resolveElement (element : UInt8) : UInt8 :=
  if 57 < element then element - 57 - 1 + 65 else element

def gridDraw (board : Board) (x y : Int) (element : UInt8) (magnitude : Int) (letter : UInt8) :
    Except DrawError Board :=
  match directionOf letter with
  | none => .error .direction
  | some direction =>
    draw board (x - 1, y - 1) (resolveElement element) direction magnitude.toNat

/-! ## A drawn ship -/

variable (direction : Direction) (magnitude : Nat) (board : Board) (place : Int × Int)

def ray (direction : Direction) : Int × Int → Nat → List (Int × Int)
  | _, 0 => []
  | place, magnitude + 1 => place :: ray direction (direction.next place) magnitude

def Board.paint (board : Board) (places : List (Int × Int)) (element : UInt8) : Board :=
  { board with plain := fun place => if place ∈ places then element else board.plain place }

theorem draw_ok (drawn : Board) (element : UInt8) (direction : Direction) (magnitude : Nat)
    (place : Int × Int) (done : draw board place element direction magnitude = .ok drawn) :
    (∀ cell ∈ ray direction place magnitude, board.inside cell = true ∧ board.plain cell = water) ∧
      drawn = board.paint (ray direction place magnitude) element := by
  induction magnitude generalizing place drawn with
  | zero =>
    cases done
    exact ⟨by simp [ray], by simp [ray, Board.paint]⟩
  | succ magnitude ih =>
    simp only [draw] at done
    split_ifs at done with outside occupied
    cases later : draw board (direction.next place) element direction magnitude with
    | error fault =>
      rw [later] at done
      cases done
    | ok next =>
      rw [later] at done
      cases done
      obtain ⟨free, rfl⟩ := ih next (direction.next place) later
      have here : board.inside place = true ∧ board.plain place = water :=
        ⟨by simpa using outside, by simpa using occupied⟩
      refine ⟨?_, ?_⟩
      · intro cell member
        rcases List.mem_cons.mp member with rfl | rest
        · exact here
        · exact free cell rest
      · simp only [Board.put, Board.paint, ray, List.mem_cons, Board.mk.injEq, true_and]
        funext cell
        by_cases same : cell = place <;> simp [same]

def Direction.progress (direction : Direction) (place : Int × Int) : Int :=
  match direction with
  | .north => -place.2
  | .east => place.1
  | .south => place.2
  | .west => -place.1

theorem progress_next :
    direction.progress (direction.next place) = direction.progress place + 1 := by
  cases direction <;> simp only [Direction.progress, Direction.next] <;> omega

theorem progress_ray (cell : Int × Int) (member : cell ∈ ray direction place magnitude) :
    direction.progress place ≤ direction.progress cell := by
  induction magnitude generalizing place with
  | zero => cases member
  | succ magnitude ih =>
    rcases List.mem_cons.mp member with rfl | rest
    · exact Int.le_refl _
    · have further := ih (direction.next place) rest
      rw [progress_next] at further
      omega

theorem ray_nodup : (ray direction place magnitude).Nodup := by
  induction magnitude generalizing place with
  | zero => exact List.nodup_nil
  | succ magnitude ih =>
    refine List.nodup_cons.mpr ⟨?_, ih (direction.next place)⟩
    intro member
    have further := progress_ray direction magnitude (direction.next place) place member
    rw [progress_next] at further
    omega

theorem ray_length : (ray direction place magnitude).length = magnitude := by
  induction magnitude generalizing place with
  | zero => rfl
  | succ magnitude ih => rw [ray, List.length_cons, ih]

theorem grid_draw_ok (drawn : Board) (x y : Int) (element : UInt8) (magnitude : Int)
    (letter : UInt8) (done : gridDraw board x y element magnitude letter = .ok drawn) :
    ∃ places : List (Int × Int), places.Nodup ∧ places.length = magnitude.toNat ∧
      (∀ cell ∈ places, board.inside cell = true ∧ board.plain cell = water) ∧
        drawn = board.paint places (resolveElement element) := by
  unfold gridDraw at done
  cases known : directionOf letter with
  | none =>
    rw [known] at done
    cases done
  | some direction =>
    rw [known] at done
    obtain ⟨free, painted⟩ := draw_ok _ _ _ _ _ _ done
    exact ⟨_, ray_nodup _ _ _, ray_length _ _ _, free, painted⟩

/-! ## Counting cells -/

-- The order is named because the one found with all of Mathlib does not compute.
def coordinates (size : Int) : Finset Int :=
  @Finset.Ico Int Int.instLinearOrder.toPartialOrder.toPreorder inferInstance 0 size

theorem mem_coordinates (size coordinate : Int) :
    coordinate ∈ coordinates size ↔ 0 ≤ coordinate ∧ coordinate < size := by
  exact Finset.mem_Ico

def Board.cells (board : Board) : Finset (Int × Int) :=
  coordinates board.sizeX ×ˢ coordinates board.sizeY

theorem mem_cells : place ∈ board.cells ↔ board.inside place = true := by
  rw [Board.cells, Finset.mem_product, mem_coordinates, mem_coordinates, inside_iff]

def Board.count (board : Board) (element : UInt8) : Nat :=
  (board.cells.filter fun place => board.plain place = element).card

theorem count_paint_self (places : List (Int × Int)) (element : UInt8) (distinct : places.Nodup)
    (free : ∀ cell ∈ places, board.inside cell = true ∧ board.plain cell = water)
    (visible : element ≠ water) :
    (board.paint places element).count element = board.count element + places.length := by
  have parts : (board.paint places element).cells.filter
      (fun place => (board.paint places element).plain place = element) =
      board.cells.filter (fun place => board.plain place = element) ∪ places.toFinset := by
    ext place
    have inside := mem_cells board place
    simp only [Board.paint, Board.cells, Finset.mem_filter, Finset.mem_union, List.mem_toFinset] at *
    by_cases member : place ∈ places
    · have cell := free place member
      simp [member, inside.mpr cell.1]
    · simp [member]
  have apart : Disjoint (board.cells.filter fun place => board.plain place = element)
      places.toFinset := by
    rw [Finset.disjoint_left]
    intro place carried member
    have cell := free place (List.mem_toFinset.mp member)
    rw [(Finset.mem_filter.mp carried).2] at cell
    exact visible cell.2
  rw [Board.count, parts, Finset.card_union_of_disjoint apart, List.toFinset_card_of_nodup distinct]
  rfl

theorem count_paint_other (places : List (Int × Int)) (element other : UInt8)
    (free : ∀ cell ∈ places, board.inside cell = true ∧ board.plain cell = water)
    (apart : other ≠ element) (visible : other ≠ water) :
    (board.paint places element).count other = board.count other := by
  refine congrArg Finset.card (Finset.filter_congr ?_)
  intro place _
  by_cases member : place ∈ places
  · simp [Board.paint, member, (free place member).2, apart.symm, visible.symm]
  · simp [Board.paint, member]

theorem count_put_self (mark : UInt8) (inside : board.inside place = true)
    (changed : mark ≠ board.plain place) :
    (board.put place mark).count (board.plain place) + 1 = board.count (board.plain place) := by
  have left : (board.put place mark).cells.filter
      (fun cell => (board.put place mark).plain cell = board.plain place) =
      (board.cells.filter fun cell => board.plain cell = board.plain place).erase place := by
    ext cell
    rw [Finset.mem_filter, Finset.mem_erase, Finset.mem_filter]
    by_cases same : cell = place
    · simp [same, Board.put, changed]
    · simp [same, Board.put, Board.cells]
  have member : place ∈ board.cells.filter fun cell => board.plain cell = board.plain place :=
    Finset.mem_filter.mpr ⟨(mem_cells board place).mpr inside, rfl⟩
  rw [Board.count, left]
  exact Finset.card_erase_add_one member

theorem count_put_other (mark other : UInt8) (before : other ≠ board.plain place)
    (after : other ≠ mark) : (board.put place mark).count other = board.count other := by
  refine congrArg Finset.card (Finset.filter_congr ?_)
  intro cell _
  by_cases same : cell = place
  · simp [Board.put, same, after.symm, before.symm]
  · simp [Board.put, same]

end Cprogramming.GameManagement.Grid
