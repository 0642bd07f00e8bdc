import Cprogramming.Library.ForkJoin
import Cprogramming.Sudoku.Checks
import Mathlib.Data.List.Perm.Basic
import Mathlib.Data.List.Perm.Subperm

/-!
# The threads and the loop of a sudoku

`main` gives a row or a column to each of eighteen threads and joins them one after the
other; `check_grid` goes through the rows and the columns in a loop that it leaves at the
first wrong one. Both use the same record, in which -1 stands for no row or no column and
the size of the grid for neither being chosen. There is no result where a number outside
the board is used for a line of it.
-/

namespace Cprogramming.Sudoku.Threads

open Checks (Board gridSize check lineOf box EachOnce LinesRight BoxesRight Solved each_once_iff
  check_iff)
open Library.ForkJoin Library.Runs

set_option autoImplicit false

/-! ## The record -/

/-- `_grid`. Its `res` is the result of the thread that has the record. -/
structure Grid where
  row : Int
  column : Int
  board : Board

def gridSetCol (data : Grid) (col : Int) : Grid := { data with column := col }

def gridSetRow (data : Grid) (row : Int) : Grid := { data with row := row }

def makeGrid (board : Board) : Grid := ⟨gridSize, gridSize, board⟩

/-- `_check` of a row or column number that the board has. -/
def checkLine (data : Grid) (rowOn : Bool) (rowCol : Int) : Option Bool :=
  if within : 0 ≤ rowCol ∧ rowCol < gridSize then
    some (check data.board rowOn ⟨rowCol.toNat, by omega⟩)
  else none

def checkRow (data : Grid) : Option Bool :=
  if data.row = -1 then some true else checkLine data true data.row

def checkColumn (data : Grid) : Option Bool :=
  if data.column = -1 then some true else checkLine data false data.column

/-- The result that `routine` leaves, and one turn of `check_grid`. -/
def routine (data : Grid) : Option Bool :=
  (checkColumn data).bind fun column => if column then checkRow data else some false

/-! ## The loop -/

def checkGridFrom : Nat → Grid → Int → Bool → Option (Grid × Int × Bool)
  | 0, _, _, _ => none
  | turns + 1, data, i, b =>
    if i < gridSize ∧ b = true then
      let placed := gridSetCol (gridSetRow data i) i
      (routine placed).bind fun next => checkGridFrom turns placed (i + 1) next
    else some (data, i, b)

def checkGrid (data : Grid) : Option (Grid × Bool) :=
  (checkGridFrom (gridSize + 1) data 0 true).map fun (data, i, b) =>
    let cleared := gridSetCol (gridSetRow data gridSize) gridSize
    (cleared, b && decide (i = cleared.row))

/-! ## The threads -/

/-- The record of thread `k`: rows and columns take turns. -/
def job (board : Board) (k : Nat) : Grid :=
  if k % 2 = 0 then gridSetCol (gridSetRow (makeGrid board) (k / 2 : Nat)) (-1)
  else gridSetCol (gridSetRow (makeGrid board) (-1)) (k / 2 : Nat)

/-- `fine` after one more thread has been joined. -/
def joinResult (fine res : Bool) : Bool := if res = false then false else fine

abbrev State : Type := System Grid Bool Bool

def step (board : Board) : Option State → Event → Option State :=
  Library.ForkJoin.step (2 * gridSize) (job board) routine joinResult

/-- `main` has joined all threads and prints `fine`. -/
def Joined (threads : State) : Prop := threads.joined = 2 * gridSize

/-! ## What is checked -/

variable (board : Board)

def numbers : List Int := (List.range gridSize).map fun number : Nat => (number : Int) + 1

def LinesPermuted (board : Board) : Prop :=
  (∀ row, (List.ofFn fun column => board row column).Perm numbers) ∧
    ∀ column, (List.ofFn fun row => board row column).Perm numbers

theorem mem_numbers (value : Int) : value ∈ numbers ↔ 1 ≤ value ∧ value ≤ gridSize := by
  rw [numbers, List.mem_map]
  constructor
  · rintro ⟨number, member, rfl⟩
    have below := List.mem_range.mp member
    omega
  · intro range
    exact ⟨(value - 1).toNat, List.mem_range.mpr (by omega), by omega⟩

theorem numbers_distinct : numbers.Nodup := by
  apply List.Nodup.map _ List.nodup_range
  intro left right same
  have values : (left : Int) + 1 = right + 1 := same
  omega

theorem each_once_iff_perm (cells : Fin gridSize → Int) :
    EachOnce cells ↔ (List.ofFn cells).Perm numbers := by
  rw [each_once_iff]
  constructor
  · rintro ⟨range, injective⟩
    -- As many different values as numbers, all of them numbers.
    apply List.Subperm.perm_of_length_le
    · apply List.subperm_of_subset (List.nodup_ofFn.mpr injective)
      intro value member
      obtain ⟨index, rfl⟩ := List.mem_ofFn.mp member
      exact (mem_numbers _).mpr (range index)
    · simp [numbers]
  · intro permuted
    refine ⟨?_, List.nodup_ofFn.mp (permuted.nodup_iff.mpr numbers_distinct)⟩
    intro index
    exact (mem_numbers _).mp (permuted.mem_iff.mp (List.mem_ofFn.mpr ⟨index, rfl⟩))

theorem lines_right_iff : LinesRight board ↔ LinesPermuted board := by
  simp only [LinesRight, LinesPermuted, each_once_iff_perm]
  rfl

/-! ## One record -/

variable {data : Grid}

theorem check_line_inside (data : Grid) (rowOn : Bool) (index : Fin gridSize) :
    checkLine data rowOn index.val = some (check data.board rowOn index) := by
  have within : (0 : Int) ≤ index.val ∧ (index.val : Int) < gridSize := by omega
  rw [checkLine, dif_pos within]
  rfl

theorem check_row_inside {index : Fin gridSize} (here : data.row = index.val) :
    checkRow data = some (check data.board true index) := by
  rw [checkRow, here, if_neg (by omega), check_line_inside]

theorem check_column_inside {index : Fin gridSize} (here : data.column = index.val) :
    checkColumn data = some (check data.board false index) := by
  rw [checkColumn, here, if_neg (by omega), check_line_inside]

theorem check_row_none (absent : data.row = -1) : checkRow data = some true := by
  rw [checkRow, if_pos absent]

theorem check_column_none (absent : data.column = -1) : checkColumn data = some true := by
  rw [checkColumn, if_pos absent]

theorem routine_eq {column row : Bool} (columnFound : checkColumn data = some column)
    (rowFound : checkRow data = some row) : routine data = some (column && row) := by
  rw [routine, columnFound, rowFound, Option.bind_some]
  cases column with
  | false => rfl
  | true => rfl

theorem routine_job_row (index : Fin gridSize) :
    routine (job board (2 * index.val)) = some (check board true index) := by
  have half : 2 * index.val / 2 = index.val := by omega
  rw [job, if_pos (by omega), half]
  exact routine_eq (check_column_none rfl) (check_row_inside rfl)

theorem routine_job_column (index : Fin gridSize) :
    routine (job board (2 * index.val + 1)) = some (check board false index) := by
  have half : (2 * index.val + 1) / 2 = index.val := by omega
  rw [job, if_neg (by omega), half, ← Bool.and_true (check board false index)]
  exact routine_eq (check_column_inside rfl) (check_row_none rfl)

theorem routine_both (data : Grid) (index : Fin gridSize) :
    routine (gridSetCol (gridSetRow data index.val) index.val) =
      some (check data.board false index && check data.board true index) := by
  exact routine_eq (check_column_inside rfl) (check_row_inside rfl)

/-! ## The result of the loop -/

theorem check_grid_from_eq (turns : Nat) (data : Grid) (i : Nat) (b : Bool)
    (enough : gridSize < i + turns) (bound : i ≤ gridSize) :
    ∃ after last verdict, checkGridFrom turns data i b = some (after, last, verdict) ∧
      after.board = data.board ∧
      ((verdict = true ∧ last = gridSize) ↔
        (b = true ∧ ∀ index : Fin gridSize, i ≤ index.val →
          check data.board false index = true ∧ check data.board true index = true)) := by
  induction turns generalizing data i b with
  | zero => omega
  | succ turns ih =>
    by_cases further : (i : Int) < gridSize ∧ b = true
    · obtain ⟨index, here⟩ : ∃ index : Fin gridSize, index.val = i := ⟨⟨i, by omega⟩, rfl⟩
      subst here
      obtain ⟨after, last, verdict, ended, board, meaning⟩ :=
        ih (gridSetCol (gridSetRow data index.val) index.val) (index.val + 1)
          (check data.board false index && check data.board true index) (by omega) (by omega)
      refine ⟨after, last, verdict, ?_, board, ?_⟩
      · rw [checkGridFrom, if_pos further]
        simp only [routine_both, Option.bind_some]
        exact ended
      · rw [meaning, Bool.and_eq_true]
        constructor
        · rintro ⟨now, later⟩
          refine ⟨further.2, ?_⟩
          intro other above
          rcases Nat.lt_or_eq_of_le above with beyond | same
          · exact later other beyond
          · rw [← Fin.ext same]
            exact now
        · rintro ⟨_, all⟩
          exact ⟨all index (Nat.le_refl _), fun other above => all other (by omega)⟩
    · refine ⟨data, i, b, ?_, rfl, ?_⟩
      · rw [checkGridFrom, if_neg further]
      · constructor
        · rintro ⟨success, last⟩
          refine ⟨success, ?_⟩
          intro index above
          omega
        · rintro ⟨success, _⟩
          refine ⟨success, ?_⟩
          by_contra early
          exact further ⟨by omega, success⟩

theorem lines_right_checks :
    LinesRight board ↔ ∀ index, check board false index = true ∧ check board true index = true := by
  simp only [LinesRight, ← check_iff]
  exact ⟨fun right index => ⟨right.2 index, right.1 index⟩,
    fun all => ⟨fun index => (all index).2, fun index => (all index).1⟩⟩

theorem check_grid_eq (data : Grid) :
    ∃ after verdict, checkGrid data = some (after, verdict) ∧
      (verdict = true ↔ LinesRight data.board) := by
  obtain ⟨after, last, verdict, ended, _, meaning⟩ :=
    check_grid_from_eq (gridSize + 1) data 0 true (by omega) (by omega)
  have ended : checkGridFrom (gridSize + 1) data 0 true = some (after, last, verdict) := ended
  refine ⟨_, _, congrArg (Option.map _) ended, ?_⟩
  have row : (gridSetCol (gridSetRow after gridSize) gridSize).row = gridSize := rfl
  simp only [row, Bool.and_eq_true, decide_eq_true_eq]
  rw [meaning, lines_right_checks]
  exact ⟨fun all index => all.2 index (Nat.zero_le _), fun all => ⟨rfl, fun index _ => all index⟩⟩

/-! ## The result of the threads -/

def found (board : Board) (k : Nat) : Bool := (routine (job board k)).getD false

theorem routine_found (k : Nat) (below : k < 2 * gridSize) :
    routine (job board k) = some (found board k) := by
  obtain ⟨index, row | column⟩ : ∃ index : Fin gridSize,
      k = 2 * index.val ∨ k = 2 * index.val + 1 := ⟨⟨k / 2, by omega⟩, by simp only; omega⟩
  · rw [found, row, routine_job_row]
    rfl
  · rw [found, column, routine_job_column]
    rfl

theorem joined_results (results : List Bool) (fine : Bool) :
    results.foldl joinResult fine = true ↔ fine = true ∧ ∀ res ∈ results, res = true := by
  induction results generalizing fine with
  | nil => simp
  | cons res rest ih =>
    rw [List.foldl_cons, ih, List.forall_mem_cons]
    cases res with
    | false => simp [joinResult]
    | true => simp [joinResult]

theorem all_found_iff : (∀ k, k < 2 * gridSize → found board k = true) ↔ LinesRight board := by
  rw [lines_right_checks]
  constructor
  · intro all index
    have row := all (2 * index.val) (by omega)
    have column := all (2 * index.val + 1) (by omega)
    rw [found, routine_job_row] at row
    rw [found, routine_job_column] at column
    exact ⟨column, row⟩
  · intro all k below
    obtain ⟨index, row | column⟩ : ∃ index : Fin gridSize,
        k = 2 * index.val ∨ k = 2 * index.val + 1 := ⟨⟨k / 2, by omega⟩, by simp only; omega⟩
    · rw [found, row, routine_job_row]
      exact (all index).2
    · rw [found, column, routine_job_column]
      exact (all index).1

/-- In every schedule of the threads `main` can only find what the lines of the board
say. -/
theorem schedule_fine (schedule : List Event) :
    ∃ threads, run (step board) (some (begin true)) schedule = some threads ∧
      (Joined threads → (threads.total = true ↔ LinesRight board)) := by
  obtain ⟨threads, ran, kept⟩ := run_kept (routine_found board) _
    ⟨begin true, rfl, begin_kept⟩ schedule
  refine ⟨threads, ran, ?_⟩
  intro joined
  rw [kept.taken, joined_results, ← all_found_iff, joined]
  simp only [true_and, List.forall_mem_map, List.mem_range]

theorem order_joins (board : Board) (order : List Nat)
    (permuted : order.Perm (List.range (2 * gridSize))) : ∃ threads,
      run (step board) (some (begin true)) (finishIn (2 * gridSize) order) = some threads ∧
        Joined threads := by
  apply finish_in_ends joinResult true (routine_found board) order
  intro number below
  exact permuted.mem_iff.mpr (List.mem_range.mpr below)

/-- Whatever the order in which the threads finish, `main` computes the result of
`check_grid`, and it is that every row and column is a permutation of 1 to 9. -/
theorem threads_agree_with_check_grid (board : Board) :
    ∃ verdict : Bool,
      (verdict = true ↔ LinesPermuted board) ∧
      (∀ row column, ∃ after, checkGrid ⟨row, column, board⟩ = some (after, verdict)) ∧
      (∀ schedule, ∃ threads,
        run (step board) (some (begin true)) schedule = some threads ∧
          (Joined threads → threads.total = verdict)) ∧
      ∀ order : List Nat, order.Perm (List.range (2 * gridSize)) → ∃ threads,
        run (step board) (some (begin true)) (finishIn (2 * gridSize) order) = some threads ∧
          Joined threads := by
  obtain ⟨_, verdict, _, meaning⟩ := check_grid_eq (makeGrid board)
  refine ⟨verdict, meaning.trans (lines_right_iff board), ?_, ?_, order_joins board⟩
  · intro row column
    obtain ⟨after, other, ended, otherMeaning⟩ := check_grid_eq ⟨row, column, board⟩
    refine ⟨after, ?_⟩
    rw [ended, Bool.eq_iff_iff.mpr (otherMeaning.trans meaning.symm)]
  · intro schedule
    obtain ⟨threads, ran, fine⟩ := schedule_fine board schedule
    refine ⟨threads, ran, ?_⟩
    intro joined
    exact Bool.eq_iff_iff.mpr ((fine joined).trans meaning.symm)

/-! ## The verdict -/

/-- What `main` prints in the end says whether the board is solved. -/
def VerdictRight (board : Board) : Prop :=
  ∀ schedule threads, run (step board) (some (begin true)) schedule = some threads →
    Joined threads → (threads.total = true ↔ Solved board)

theorem joined_total {schedule : List Event} {threads : State}
    (ran : run (step board) (some (begin true)) schedule = some threads)
    (joined : Joined threads) : threads.total = true ↔ LinesRight board := by
  obtain ⟨reached, same, fine⟩ := schedule_fine board schedule
  obtain rfl : reached = threads := Option.some.inj (same.symm.trans ran)
  exact fine joined

/-- The verdict is right about every board but those whose rows and columns are right
and whose boxes are not. -/
theorem verdict_right_iff (board : Board) :
    VerdictRight board ↔ (LinesRight board → BoxesRight board) := by
  constructor
  · intro right lines
    obtain ⟨threads, ran, joined⟩ := order_joins board _ (List.Perm.refl _)
    exact ((right _ threads ran joined).mp ((joined_total board ran joined).mpr lines)).2
  · intro boxes schedule threads ran joined
    rw [joined_total board ran joined]
    exact ⟨fun lines => ⟨lines, boxes lines⟩, fun solved => solved.1⟩

/-- Every row is the one above it moved by one place. -/
def shifted : Board := fun row column => ((row.val + column.val) % 9 : Nat) + 1

/-- Its first box holds the number 2 twice. -/
theorem shifted_rows_pass :
    (∃ schedule threads, run (step shifted) (some (begin true)) schedule = some threads ∧
      Joined threads ∧ threads.total = true) ∧ ¬ Solved shifted ∧ ¬ VerdictRight shifted := by
  have lines : LinesRight shifted := (lines_right_checks shifted).mpr (by decide +kernel)
  have unsolved : ¬ Solved shifted := by
    intro solved
    have injective := ((each_once_iff _).mp (solved.2 ⟨0, by decide⟩)).2
    have same : box shifted ⟨0, by decide⟩ ⟨1, by decide⟩ =
        box shifted ⟨0, by decide⟩ ⟨3, by decide⟩ := by decide
    exact absurd (injective same) (by decide)
  obtain ⟨threads, ran, joined⟩ := order_joins shifted _ (List.Perm.refl _)
  have passes := (joined_total shifted ran joined).mpr lines
  exact ⟨⟨_, threads, ran, joined, passes⟩, unsolved,
    fun right => unsolved ((right _ threads ran joined).mp passes)⟩

end Cprogramming.Sudoku.Threads
