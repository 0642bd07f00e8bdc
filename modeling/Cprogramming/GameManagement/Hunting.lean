import Cprogramming.Library.Runs
import Cprogramming.GameManagement.Agents

/-!
# The hunting agent

`fighter_guess` searches with random numbers, and after a hit tries the cells
around the last one it searched, in the order of `f_directions`. A cell off the
board is replaced by one along the other axis, which is tested no more, and a
miss moves on to the next direction without asking whether there is one.
-/

namespace Cprogramming.GameManagement.Hunting

open Library.Runs
open Agents

set_option autoImplicit false

/-! ## The agent -/

/-- The variables that `fighter_guess` keeps, and how many random numbers were drawn. -/
structure Fighter where
  modeFight : Bool
  fMoveR : Int
  fMoveC : Int
  fDI : Nat
  drawn : Nat
deriving DecidableEq

/-- The variables of a program that starts are zero. -/
def fighterStart : Fighter := ⟨false, 0, 0, 0, 0⟩

/-- The index at which a call reads `f_directions`, and `move_i`. -/
structure Call where
  index : Option Nat
  column : Int
  row : Int
deriving DecidableEq

section Board

variable (height width : Int) (random : Nat → Nat) (beyond : Nat → UInt8)

/-- `f_directions`, with whatever lies behind its four bytes. -/
def fDirections : Nat → UInt8
  | 0 => 78
  | 1 => 69
  | 2 => 83
  | 3 => 87
  | index => beyond index

def leaveFight (fighter : Fighter) : Fighter := { fighter with fDI := 0, modeFight := false }

def chooseMode (fighter : Fighter) (result : Report) : Fighter :=
  let fighter := if 4 ≤ fighter.fDI then leaveFight fighter else fighter
  match result with
  | .hit => { fighter with modeFight := true }
  | .sunk => { fighter with modeFight := false }
  | .miss =>
    if fighter.modeFight = true ∧ fighter.fDI = 4 then leaveFight fighter else fighter

def randomCell (fighter : Fighter) : Int × Int :=
  ((random fighter.drawn : Int) % height, (random (fighter.drawn + 1) : Int) % width)

def search (fighter : Fighter) : Fighter × Call :=
  let (row, column) := randomCell height width random fighter
  ({ fighter with fMoveC := column, fMoveR := row, drawn := fighter.drawn + 2 },
    ⟨none, column, row⟩)

/-- The `switch` of an attack. A byte that is no direction leaves the cell as it is. -/
def attack (fighter : Fighter) : Fighter × Call :=
  let index := fighter.fDI
  let next := { fighter with fDI := fighter.fDI + 1 }
  let byte := fDirections beyond index
  if byte = 78 then
    if fighter.fMoveR - 1 < 0 then (next, ⟨some index, fighter.fMoveC + 1, 0⟩)
    else (fighter, ⟨some index, fighter.fMoveC, fighter.fMoveR - 1⟩)
  else if byte = 69 then
    if width ≤ fighter.fMoveC + 1 then (next, ⟨some index, width - 1, fighter.fMoveR + 1⟩)
    else (fighter, ⟨some index, fighter.fMoveC + 1, fighter.fMoveR⟩)
  else if byte = 83 then
    if height ≤ fighter.fMoveR + 1 then (next, ⟨some index, fighter.fMoveC - 1, height - 1⟩)
    else (fighter, ⟨some index, fighter.fMoveC, fighter.fMoveR + 1⟩)
  else if byte = 87 then
    if fighter.fMoveC - 1 < 0 then
      let (row, column) := randomCell height width random fighter
      ({ leaveFight fighter with drawn := fighter.drawn + 2 }, ⟨some index, column, row⟩)
    else (fighter, ⟨some index, fighter.fMoveC - 1, fighter.fMoveR⟩)
  else (fighter, ⟨some index, fighter.fMoveC, fighter.fMoveR⟩)

/-- In a fight a miss goes on to the next direction. -/
def turn (fighter : Fighter) (result : Report) : Fighter :=
  if result = .miss then { fighter with fDI := fighter.fDI + 1 } else fighter

def fighterGuess (fighter : Fighter) (result : Report) : Fighter × Call :=
  let fighter := chooseMode fighter result
  if fighter.modeFight then attack height width random beyond (turn fighter result)
  else search height width random fighter

def step (fighter : Fighter) (result : Report) : Fighter :=
  (fighterGuess height width random beyond fighter result).1

/-! ## The property -/

def Call.OnBoard (call : Call) : Prop :=
  (∀ index ∈ call.index, index ≤ 3) ∧ (0 ≤ call.column ∧ call.column < width) ∧
    0 ≤ call.row ∧ call.row < height

def StaysOnBoard (fighter : Fighter) (result : Report) : Prop :=
  (fighterGuess height width random beyond fighter result).2.OnBoard height width

/-- The corner in which a direction and the one along the other axis both leave
the board. The fourth direction falls back to a search. -/
def Cornered (fighter : Fighter) (direction : Nat) : Prop :=
  direction = 0 ∧ fighter.fMoveR = 0 ∧ fighter.fMoveC = width - 1 ∨
    direction = 1 ∧ fighter.fMoveC = width - 1 ∧ fighter.fMoveR = height - 1 ∨
      direction = 2 ∧ fighter.fMoveR = height - 1 ∧ fighter.fMoveC = 0

instance (fighter : Fighter) (direction : Nat) :
    Decidable (Cornered height width fighter direction) :=
  inferInstanceAs (Decidable (_ ∨ _))

/-- A hit finds the last searched cell in no corner for the present direction, where
four stand for the first one again; a miss in a fight finds a next direction, and no
corner for it. -/
def Clear (fighter : Fighter) : Report → Prop
  | .sunk => True
  | .hit => ¬ Cornered height width fighter (if 4 ≤ fighter.fDI then 0 else fighter.fDI)
  | .miss => fighter.modeFight = true → fighter.fDI < 4 →
      fighter.fDI ≠ 3 ∧ ¬ Cornered height width fighter (fighter.fDI + 1)

instance (fighter : Fighter) : (result : Report) → Decidable (Clear height width fighter result)
  | .sunk => .isTrue trivial
  | .hit => inferInstanceAs (Decidable (¬ _))
  | .miss => inferInstanceAs (Decidable (_ → _ → _ ∧ _))

/-! ## One call -/

variable (fighter : Fighter)

def AnchorOnBoard (fighter : Fighter) : Prop :=
  (0 ≤ fighter.fMoveC ∧ fighter.fMoveC < width) ∧ 0 ≤ fighter.fMoveR ∧ fighter.fMoveR < height

theorem random_cell_on_board (tall : 1 ≤ height) (wide : 1 ≤ width) (fighter : Fighter) :
    (0 ≤ (randomCell height width random fighter).2 ∧
      (randomCell height width random fighter).2 < width) ∧
      0 ≤ (randomCell height width random fighter).1 ∧
        (randomCell height width random fighter).1 < height := by
  have rows : height ≠ 0 := by omega
  have columns : width ≠ 0 := by omega
  exact ⟨⟨Int.emod_nonneg _ columns, Int.emod_lt_of_pos _ (by omega)⟩,
    Int.emod_nonneg _ rows, Int.emod_lt_of_pos _ (by omega)⟩

theorem attack_index : (attack height width random beyond fighter).2.index = some fighter.fDI := by
  simp only [attack]
  split_ifs <;> rfl

theorem attack_anchor : (attack height width random beyond fighter).1.fMoveR = fighter.fMoveR ∧
      (attack height width random beyond fighter).1.fMoveC = fighter.fMoveC := by
  simp only [attack]
  split_ifs <;> exact ⟨rfl, rfl⟩

theorem attack_on_board_iff (tall : 1 ≤ height) (wide : 1 ≤ width) (fighter : Fighter)
    (anchored : AnchorOnBoard height width fighter) :
    (attack height width random beyond fighter).2.OnBoard height width ↔
      fighter.fDI ≤ 3 ∧ ¬ Cornered height width fighter fighter.fDI := by
  obtain ⟨⟨left, right⟩, above, below⟩ := anchored
  have drawn := random_cell_on_board height width random tall wide fighter
  unfold Call.OnBoard
  rw [attack_index]
  by_cases known : fighter.fDI ≤ 3
  · simp only [Option.mem_some, forall_eq', known, true_and, Cornered, attack]
    obtain none | one | two | three :
        fighter.fDI = 0 ∨ fighter.fDI = 1 ∨ fighter.fDI = 2 ∨ fighter.fDI = 3 := by omega
    · simp [none, fDirections]
      split_ifs <;> simp only <;> omega
    · simp [one, fDirections]
      split_ifs <;> simp only <;> omega
    · simp [two, fDirections]
      split_ifs <;> simp only <;> omega
    · simp [three, fDirections]
      split_ifs <;> simp only <;> omega
  · simp [known]

theorem search_on_board (tall : 1 ≤ height) (wide : 1 ≤ width) (fighter : Fighter) :
    AnchorOnBoard height width (search height width random fighter).1 ∧
      (search height width random fighter).2.OnBoard height width := by
  have drawn := random_cell_on_board height width random tall wide fighter
  exact ⟨drawn, by simp [search], drawn⟩

theorem choose_mode_anchor (result : Report) : (chooseMode fighter result).fMoveR = fighter.fMoveR ∧
      (chooseMode fighter result).fMoveC = fighter.fMoveC := by
  cases result with
  | miss =>
    simp only [chooseMode]
    split_ifs <;> exact ⟨rfl, rfl⟩
  | hit =>
    simp only [chooseMode]
    split_ifs <;> exact ⟨rfl, rfl⟩
  | sunk =>
    simp only [chooseMode]
    split_ifs <;> exact ⟨rfl, rfl⟩

/-- The test for a direction of four in a miss comes too late: it has been taken
back already. -/
theorem choose_mode_miss :
    chooseMode fighter .miss = if 4 ≤ fighter.fDI then leaveFight fighter else fighter := by
  simp only [chooseMode]
  split_ifs with spent again again
  · rfl
  · rfl
  · omega
  · rfl

theorem turn_anchor (result : Report) : (turn fighter result).fMoveR = fighter.fMoveR ∧
      (turn fighter result).fMoveC = fighter.fMoveC := by
  unfold turn
  split_ifs <;> exact ⟨rfl, rfl⟩

theorem anchor_congr (left right : Fighter)
    (same : right.fMoveR = left.fMoveR ∧ right.fMoveC = left.fMoveC)
    (anchored : AnchorOnBoard height width left) : AnchorOnBoard height width right := by
  unfold AnchorOnBoard
  rw [same.1, same.2]
  exact anchored

theorem cornered_congr {left right : Fighter}
    (same : right.fMoveR = left.fMoveR ∧ right.fMoveC = left.fMoveC) (direction : Nat) :
    Cornered height width right direction ↔ Cornered height width left direction := by
  rw [Cornered, Cornered, same.1, same.2]

theorem step_anchor (tall : 1 ≤ height) (wide : 1 ≤ width) (fighter : Fighter) (result : Report)
    (anchored : AnchorOnBoard height width fighter) :
    AnchorOnBoard height width (step height width random beyond fighter result) := by
  have chosen := anchor_congr height width _ _ (choose_mode_anchor fighter result) anchored
  simp only [step, fighterGuess]
  split_ifs
  · apply anchor_congr height width _ _ (attack_anchor height width random beyond _)
    exact anchor_congr height width _ _ (turn_anchor _ result) chosen
  · exact (search_on_board height width random tall wide _).1

theorem stays_on_board_iff (tall : 1 ≤ height) (wide : 1 ≤ width) (fighter : Fighter)
    (result : Report) (anchored : AnchorOnBoard height width fighter) :
    StaysOnBoard height width random beyond fighter result ↔
      Clear height width fighter result := by
  have chosen := anchor_congr height width _ _ (choose_mode_anchor fighter result) anchored
  have turned := anchor_congr height width _ _ (turn_anchor _ result) chosen
  have attacked := attack_on_board_iff height width random beyond tall wide _ turned
  have searched := search_on_board height width random tall wide (chooseMode fighter result)
  unfold StaysOnBoard fighterGuess
  cases result with
  | sunk => exact iff_of_true searched.2 trivial
  | hit =>
    have index : (turn (chooseMode fighter .hit) .hit).fDI =
        if 4 ≤ fighter.fDI then 0 else fighter.fDI := by
      simp only [turn, chooseMode, reduceCtorEq, if_false]
      split_ifs <;> rfl
    have known : (if 4 ≤ fighter.fDI then 0 else fighter.fDI) ≤ 3 := by
      split_ifs <;> omega
    have fighting : (chooseMode fighter .hit).modeFight = true := rfl
    have corner := cornered_congr height width (turn_anchor (chooseMode fighter .hit) .hit)
    rw [if_pos fighting, attacked, index, corner,
      cornered_congr height width (choose_mode_anchor fighter .hit)]
    exact and_iff_right known
  | miss =>
    rw [choose_mode_miss] at attacked searched ⊢
    by_cases spent : 4 ≤ fighter.fDI
    · rw [if_pos spent] at searched ⊢
      exact iff_of_true searched.2 fun _ few => absurd few (by omega)
    · rw [if_neg spent] at attacked searched ⊢
      by_cases fighting : fighter.modeFight = true
      · rw [if_pos fighting, attacked, cornered_congr height width (turn_anchor fighter .miss)]
        have next : (turn fighter .miss).fDI = fighter.fDI + 1 := rfl
        constructor
        · intro held _ _
          exact ⟨by omega, held.2⟩
        · intro clear
          obtain ⟨more, free⟩ := clear fighting (by omega)
          exact ⟨by omega, free⟩
      · rw [if_neg fighting]
        exact iff_of_true searched.2 fun fight => absurd fight fighting

end Board

/-! ## Runs -/

/-- Along every run the calls stay on the board exactly as long as each of them
finds a clear state. -/
theorem hunt_stays_on_board_iff (height width : Int) (tall : 1 ≤ height) (wide : 1 ≤ width)
    (random : Nat → Nat) (beyond : Nat → UInt8) (results : List Report) :
    EachStep (step height width random beyond) (StaysOnBoard height width random beyond)
        fighterStart results ↔
      EachStep (step height width random beyond) (Clear height width) fighterStart results := by
  apply each_step_iff_of_invariant _ (AnchorOnBoard height width)
  · exact step_anchor height width random beyond tall wide
  · exact stays_on_board_iff height width random beyond tall wide
  · exact ⟨⟨by decide, wide⟩, by decide, tall⟩

def alwaysCell (row column : Nat) (index : Nat) : Nat := if index % 2 = 0 then row else column

/-- On a board of eight by eight a hit in the top right corner is followed by a
guess in the ninth column, and a hit with four misses behind it by a read of
`f_directions[4]`. -/
theorem guess_leaves_corner :
    (fighterGuess 8 8 (alwaysCell 0 7) (fun _ => 0)
        (run (step 8 8 (alwaysCell 0 7) fun _ => 0) fighterStart [.miss]) .hit).2 = ⟨some 0, 8, 0⟩ ∧
      ¬ EachStep (step 8 8 (alwaysCell 0 7) fun _ => 0)
        (StaysOnBoard 8 8 (alwaysCell 0 7) fun _ => 0) fighterStart [.miss, .hit] ∧
      (fighterGuess 8 8 (alwaysCell 3 3) (fun _ => 0)
        (run (step 8 8 (alwaysCell 3 3) fun _ => 0) fighterStart
          [.miss, .hit, .miss, .miss, .miss]) .miss).2.index = some 4 := by
  refine ⟨by decide, ?_, by decide⟩
  intro stays
  have column : (8 : Int) < 8 := stays.2.1.2.1.2
  exact absurd column (by decide)

theorem hunt_in_the_middle :
    EachStep (step 8 8 (alwaysCell 3 3) fun _ => 0)
      (StaysOnBoard 8 8 (alwaysCell 3 3) fun _ => 0) fighterStart
      [.miss, .hit, .miss, .miss, .hit, .sunk] :=
  (hunt_stays_on_board_iff 8 8 (by decide) (by decide) (alwaysCell 3 3) (fun _ => 0)
    [.miss, .hit, .miss, .miss, .hit, .sunk]).mpr (by decide)

end Cprogramming.GameManagement.Hunting
