import Mathlib.Data.Fintype.EquivFin
import Mathlib.Data.Fintype.Fin
import Mathlib.Data.List.FinRange
import Mathlib.Tactic.Common

/-!
# The checks of a sudoku

`_check` of `sudoku.c`, which looks for the values of a row or a column in a table of
those seen so far, and the rule of the game. The boxes of three by three cells, whose
size `sudoku.h` defines, are not looked at.
-/

namespace Cprogramming.Sudoku.Checks

set_option autoImplicit false

def gridSize : Nat := 9

/-- `DIVIDE_GRID`, which only the rule of the game uses here. -/
def divideGrid : Nat := 3

def Board : Type := Fin gridSize → Fin gridSize → Int

/-! ## One line -/

def checkElem (val : Int) : Bool := decide (1 ≤ val) && decide (val ≤ 9)

/-- The loop of `_check` with the table `total` of the values seen so far. -/
def checkFrom (total : Nat → Int) : List Int → Bool
  | [] => true
  | val :: rest =>
    if checkElem val && decide (total (val - 1).toNat = 0) then
      checkFrom (fun index => if index = (val - 1).toNat then val else total index) rest
    else false

/-- The cells that `_check` reads. -/
def lineOf (board : Board) (rowOn : Bool) (rowCol : Fin gridSize) : Fin gridSize → Int :=
  fun index => if rowOn then board rowCol index else board index rowCol

def check (board : Board) (rowOn : Bool) (rowCol : Fin gridSize) : Bool :=
  checkFrom (fun _ => 0) (List.ofFn (lineOf board rowOn rowCol))

/-! ## The rule -/

/-- Each of the numbers from 1 to the number of cells is in exactly one of them. -/
def EachOnce {size : Nat} (cells : Fin size → Int) : Prop :=
  ∀ value : Int, 1 ≤ value → value ≤ size → ∃! index, cells index = value

theorem box_bound (outer inner : Nat) (outerBound : outer < divideGrid)
    (innerBound : inner < divideGrid) : divideGrid * outer + inner < gridSize := by
  simp only [divideGrid, gridSize] at *
  omega

/-- The boxes from left to right and from top to bottom, their cells likewise. -/
def box (board : Board) (number cell : Fin gridSize) : Int :=
  board
    ⟨_, box_bound (number.val / divideGrid) (cell.val / divideGrid)
      (Nat.div_lt_of_lt_mul number.isLt) (Nat.div_lt_of_lt_mul cell.isLt)⟩
    ⟨_, box_bound (number.val % divideGrid) (cell.val % divideGrid)
      (Nat.mod_lt _ (by decide)) (Nat.mod_lt _ (by decide))⟩

def LinesRight (board : Board) : Prop :=
  (∀ row, EachOnce (lineOf board true row)) ∧ ∀ column, EachOnce (lineOf board false column)

def BoxesRight (board : Board) : Prop := ∀ number, EachOnce (box board number)

def Solved (board : Board) : Prop := LinesRight board ∧ BoxesRight board

/-! ## A line is right -/

theorem check_elem_iff (val : Int) : checkElem val = true ↔ 1 ≤ val ∧ val ≤ 9 := by
  simp [checkElem]

theorem check_from_iff (total : Nat → Int) (values : List Int) :
    checkFrom total values = true ↔
      (∀ val ∈ values, (1 ≤ val ∧ val ≤ 9) ∧ total (val - 1).toNat = 0) ∧ values.Nodup := by
  induction values generalizing total with
  | nil => simp [checkFrom]
  | cons val rest ih =>
    by_cases accepted : (1 ≤ val ∧ val ≤ 9) ∧ total (val - 1).toNat = 0
    · have taken : (checkElem val && decide (total (val - 1).toNat = 0)) = true := by
        rw [Bool.and_eq_true, check_elem_iff, decide_eq_true_eq]
        exact accepted
      rw [checkFrom, if_pos taken, ih, List.forall_mem_cons, List.nodup_cons]
      -- A later value has the place of this one in the table only if it is this value.
      have apart : ∀ other, 1 ≤ other → ((other - 1).toNat = (val - 1).toNat ↔ other = val) := by
        intro other positive
        omega
      constructor
      · rintro ⟨others, distinct⟩
        refine ⟨⟨accepted, ?_⟩, ?_, distinct⟩
        · intro other member
          obtain ⟨range, empty⟩ := others other member
          refine ⟨range, ?_⟩
          by_cases same : (other - 1).toNat = (val - 1).toNat
          · rw [if_pos same] at empty
            omega
          · rwa [if_neg same] at empty
        · intro repeated
          have empty := (others val repeated).2
          rw [if_pos rfl] at empty
          omega
      · rintro ⟨⟨_, others⟩, fresh, distinct⟩
        refine ⟨?_, distinct⟩
        intro other member
        obtain ⟨range, empty⟩ := others other member
        refine ⟨range, ?_⟩
        have different : other ≠ val := fun same => fresh (same ▸ member)
        rw [if_neg (fun same => different ((apart other range.1).mp same)), empty]
    · have refused : ¬ (checkElem val && decide (total (val - 1).toNat = 0)) = true := by
        rw [Bool.and_eq_true, check_elem_iff, decide_eq_true_eq]
        exact accepted
      rw [checkFrom, if_neg refused]
      constructor
      · intro impossible
        cases impossible
      · rintro ⟨all, _⟩
        exact absurd (all val List.mem_cons_self) accepted

/-- As many cells as numbers: all of them hold each number once as soon as they hold
different ones. -/
theorem each_once_iff {size : Nat} (cells : Fin size → Int) :
    EachOnce cells ↔ (∀ index, 1 ≤ cells index ∧ cells index ≤ size) ∧
      Function.Injective cells := by
  constructor
  · intro once
    have holder : ∀ number : Fin size, ∃ index, cells index = (number.val : Int) + 1 := by
      intro number
      obtain ⟨index, here, _⟩ := once (number.val + 1) (by omega) (by omega)
      exact ⟨index, here⟩
    choose place placed using holder
    have injective : Function.Injective place := by
      intro left right same
      have values := (placed left).symm.trans ((congrArg cells same).trans (placed right))
      exact Fin.ext (by omega)
    have all := Finite.surjective_of_injective injective
    have inRange : ∀ index, 1 ≤ cells index ∧ cells index ≤ size := by
      intro index
      obtain ⟨number, rfl⟩ := all index
      rw [placed]
      omega
    refine ⟨inRange, ?_⟩
    intro left right same
    obtain ⟨index, _, unique⟩ := once (cells left) (inRange left).1 (inRange left).2
    exact (unique left rfl).trans (unique right same.symm).symm
  · rintro ⟨inRange, injective⟩ value low high
    let number : Fin size → Fin size := fun index =>
      ⟨(cells index - 1).toNat, by have := inRange index; omega⟩
    have numbers : Function.Injective number := by
      intro left right same
      have values : (cells left - 1).toNat = (cells right - 1).toNat := congrArg Fin.val same
      have leftRange := inRange left
      have rightRange := inRange right
      exact injective (by omega)
    obtain ⟨index, found⟩ :=
      Finite.surjective_of_injective numbers ⟨(value - 1).toNat, by omega⟩
    have place : (cells index - 1).toNat = (value - 1).toNat := congrArg Fin.val found
    have range := inRange index
    have here : cells index = value := by omega
    refine ⟨index, here, ?_⟩
    intro other same
    exact injective (same.trans here.symm)

theorem check_iff (board : Board) (rowOn : Bool) (rowCol : Fin gridSize) :
    check board rowOn rowCol = true ↔ EachOnce (lineOf board rowOn rowCol) := by
  rw [check, check_from_iff, each_once_iff, List.nodup_ofFn, List.forall_mem_ofFn_iff]
  simp [gridSize]

end Cprogramming.Sudoku.Checks
