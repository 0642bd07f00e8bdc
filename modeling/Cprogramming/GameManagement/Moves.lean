import Cprogramming.GameManagement.Game
import Cprogramming.GameManagement.Placements

/-!
# The cell of a move

`move_check` reads a move with `sscanf` and `game_play_` takes the row out of two
fixed bytes of it. The cells that `game_play_` reads and marks are recorded, and
compared with the cell that the move names.
-/

namespace Cprogramming.GameManagement.Moves

open Library.CStrings Library.Decimals
open Game Grid Placements Texts

set_option autoImplicit false

/-! ## What a move touches -/

variable (side : Side) (text : List UInt8) (board : Board) (x : Int)

inductive Access where
  | read (cell : Int × Int)
  | mark (cell : Int × Int) (element : UInt8)
deriving DecidableEq

def Access.cell : Access → Int × Int
  | .read cell => cell
  | .mark cell _ => cell

def Access.apply (board : Board) : Access → Board
  | .read _ => board
  | .mark cell element => board.put cell element

/-- `grid_get` and `grid_set` touch their cell if it is on the board. -/
def touches (board : Board) (x y : Int) (access : Int × Int → Access) : List Access :=
  if board.inside (x - 1, y - 1) then [access (x - 1, y - 1)] else []

/-- The cells that `game_play_` touches for a text that passed the test. -/
def playAccesses (side : Side) (text : List UInt8) : List Access :=
  let element := gridGet side.grid (moveColumn text) (moveRow text)
  let mark (symbol : UInt8) :=
    touches side.grid (moveColumn text) (moveRow text) fun cell => .mark cell symbol
  touches side.grid (moveColumn text) (moveRow text) .read ++
    if element = 0 then []
    else if element = water then mark missMark
    else if element = missMark ∨ element = hitMark then []
    else if 49 ≤ element ∧ element ≤ 57 then mark hitMark
    else []

def gamePlayAccesses (side : Side) (move : Option CString) : List Access :=
  match move with
  | none => []
  | some text => if moveCheck (moveText text) then playAccesses side (moveText text) else []

theorem grid_set_touches (y : Int) (element : UInt8) : gridSet board x y element =
      (touches board x y fun cell => .mark cell element).foldl Access.apply board := by
  unfold gridSet touches
  split_ifs <;> rfl

theorem touches_read (y : Int) : (touches board x y .read).foldl Access.apply board = board := by
  unfold touches
  split_ifs <;> rfl

/-- The recorded marks are the ones that the grid gets. -/
theorem play_accesses_grid :
    (playText side text).2.grid = (playAccesses side text).foldl Access.apply side.grid := by
  rw [playAccesses, List.foldl_append, touches_read]
  unfold playText
  dsimp only
  split_ifs
  · rfl
  · exact grid_set_touches _ _ _ _
  · rfl
  · exact grid_set_touches _ _ _ _
  · rfl

theorem touches_cell (y : Int) (access : Int × Int → Access)
    (same : ∀ cell, (access cell).cell = cell) :
    ∀ item ∈ touches board x y access, item.cell = (x - 1, y - 1) := by
  unfold touches
  split_ifs
  · simp [same]
  · simp

theorem play_accesses_cell : ∀ item ∈ playAccesses side text,
      item.cell = (moveColumn text - 1, moveRow text - 1) := by
  intro item member
  rcases List.mem_append.mp member with first | later
  · exact touches_cell _ _ _ .read (fun _ => rfl) item first
  · split_ifs at later
    · simp at later
    · exact touches_cell _ _ _ _ (fun _ => rfl) item later
    · simp at later
    · exact touches_cell _ _ _ _ (fun _ => rfl) item later
    · simp at later

theorem play_accesses_read {side : Side} {text : List UInt8}
    (inside : side.grid.inside (moveColumn text - 1, moveRow text - 1) = true) :
    .read (moveColumn text - 1, moveRow text - 1) ∈ playAccesses side text := by
  apply List.mem_append_left
  rw [touches, if_pos inside]
  exact List.mem_singleton_self _

theorem play_bad_iff :
    (playText side text).1 = .bad ↔ gridGet side.grid (moveColumn text) (moveRow text) = 0 := by
  unfold playText
  dsimp only
  split_ifs with empty
  · simp [empty]
  · simp [empty]
  · simp [empty]
  · simp only [hitShip, empty, iff_false]
    split_ifs <;> simp
  · simp [empty]

/-! ## What a move names -/

def moveRead (text : List UInt8) : Option (UInt8 × Int) :=
  match text with
  | [] => none
  | column :: rest => (scanInt rest).map fun scanned => (column, scanned.1)

/-- The cell of column `x - 'A' + 1` and row `y`, counted from zero. -/
def namedCell (x : UInt8) (y : Int) : Int × Int := ((x.toNat : Int) - 65, y - 1)

/-- The move reads and marks the cell that it names and no other, or is answered
with `BAD` if that cell is not on the board. -/
def Addresses (side : Side) (move : CString) (x : UInt8) (y : Int) : Prop :=
  if side.grid.inside (namedCell x y) then
    .read (namedCell x y) ∈ gamePlayAccesses side (some move) ∧
      ∀ item ∈ gamePlayAccesses side (some move), item.cell = namedCell x y
  else (gamePlay side (some move)).1 = .bad

/-- The row is one or two digits right behind the letter. -/
def RowAtOnce (text : List UInt8) : Prop :=
  isDigit (byteAt text 1) = true ∧
    (isDigit (byteAt text 2) = true → isDigit (byteAt text 3) = false)

instance (text : List UInt8) : Decidable (RowAtOnce text) :=
  inferInstanceAs (Decidable (_ ∧ _))

/-- The digit in the third byte, as the row that `game_play_` takes it for. -/
def middleDigit (text : List UInt8) : Int := (byteAt text 2).toNat - 48

theorem move_check_facts {column : UInt8} {rest : List UInt8}
    (accepted : moveCheck (column :: rest) = true) :
    ∃ row tail, scanInt rest = some (row, tail) ∧ rest.length ≤ 3 ∧ 1 ≤ row ∧ row ≤ 26 := by
  simp only [moveCheck] at accepted
  split at accepted
  · cases accepted
  · rename_i row tail scanned
    simp only [Bool.and_eq_true, decide_eq_true_eq, List.length_cons] at accepted
    exact ⟨row, tail, scanned, by omega, accepted.1.2, accepted.2⟩

theorem zero_no_digit : isDigit 0 = false := by decide

theorem row_of_unled {text : List UInt8} (leading : (byteAt text 1).toNat ≤ 45) :
    moveRow text < 1 := by
  unfold moveRow
  split_ifs with digit
  · have upper := (digit_value _ digit).2
    omega
  · omega

theorem row_of_digits {column : UInt8} {rest tail : List UInt8} {row : Int}
    (scanned : scanInt rest = some (row, tail)) (short : rest.length ≤ 3) (least : 1 ≤ row)
    (most : row ≤ 26) (digit : isDigit (byteAt (column :: rest) 1) = true) :
    if RowAtOnce (column :: rest) then moveRow (column :: rest) = row
    else moveRow (column :: rest) = middleDigit (column :: rest) ∧
      moveRow (column :: rest) ≠ row := by
  cases rest with
  | nil => cases digit
  | cons first later =>
    have one : isDigit first = true := digit
    have read := ((scan_int_some _ _ _).mp scanned).1
    rw [strtoll_digits first later one] at read
    simp only [Option.some.injEq, Prod.mk.injEq] at read
    have value := read.1
    have firstValue := digit_value first one
    -- the number of digits decides both readings
    match later, short with
    | [], _ =>
      simp [RowAtOnce, moveRow, byteAt, one, zero_no_digit, decimal] at value ⊢
      omega
    | [second], _ =>
      by_cases two : isDigit second = true
      · have secondValue := digit_value second two
        simp [RowAtOnce, moveRow, byteAt, one, two, zero_no_digit, decimal] at value ⊢
        omega
      · simp [RowAtOnce, moveRow, byteAt, one, two, decimal] at value ⊢
        omega
    | [second, third], _ =>
      by_cases two : isDigit second = true
      · have secondValue := digit_value second two
        by_cases three : isDigit third = true
        · have thirdValue := digit_value third three
          simp [RowAtOnce, moveRow, middleDigit, byteAt, one, two, three, decimal] at value ⊢
          omega
        · simp [RowAtOnce, moveRow, byteAt, one, two, three, decimal] at value ⊢
          omega
      · simp [RowAtOnce, moveRow, byteAt, one, two, decimal] at value ⊢
        omega

/-! ## The cell that is played -/

variable {y : Int}

theorem grid_get_outside (y : Int) (outside : board.inside (x - 1, y - 1) = false) :
    gridGet board x y = 0 := by
  simp [gridGet, outside]

theorem grid_get_above (above : y < 1) : gridGet board x y = 0 := by
  apply grid_get_outside
  rw [← Bool.not_eq_true, inside_iff]
  omega

theorem addresses_other_row {move : CString} (x : UInt8)
    (accepted : moveCheck (moveText move) = true) (other : moveRow (moveText move) ≠ y) :
    Addresses side move x y ↔ side.grid.inside (namedCell x y) = false ∧
      gridGet side.grid (moveColumn (moveText move)) (moveRow (moveText move)) = 0 := by
  unfold Addresses
  split_ifs with inside
  · simp only [inside, Bool.true_eq_false, false_and, iff_false, not_and]
    intro touched
    rw [gamePlayAccesses, if_pos accepted] at touched
    have cell := play_accesses_cell side (moveText move) _ touched
    have row := congrArg Prod.snd cell
    simp only [Access.cell, namedCell] at row
    omega
  · rw [gamePlay, if_pos accepted, play_bad_iff]
    simp [inside]

theorem addresses_same_row {move : CString} {x : UInt8}
    (accepted : moveCheck (moveText move) = true)
    (sameColumn : moveColumn (moveText move) = (x.toNat : Int) - 64)
    (sameRow : moveRow (moveText move) = y) : Addresses side move x y := by
  have cell : namedCell x y = (moveColumn (moveText move) - 1, moveRow (moveText move) - 1) := by
    rw [namedCell, sameColumn, sameRow, sub_sub]
    rfl
  unfold Addresses
  rw [cell, gamePlayAccesses, if_pos accepted, gamePlay, if_pos accepted]
  split_ifs with inside
  · exact ⟨play_accesses_read inside, play_accesses_cell side _⟩
  · rw [play_bad_iff]
    exact grid_get_outside _ _ _ (by simpa using inside)

/-- A checked move is played on the cell it names if its row stands in one or two
digits right behind the letter. Any other spelling misses that cell; off the board
it is still answered with `BAD`, where a row of three digits needs the row of its
middle digit to be empty as well. -/
theorem move_addresses_iff (side : Side) (move : CString) (x : UInt8) (y : Int)
    (accepted : moveCheck (moveText move) = true)
    (read : moveRead (moveText move) = some (x, y)) :
    Addresses side move x y ↔
      RowAtOnce (moveText move) ∨
        side.grid.inside (namedCell x y) = false ∧
          (isDigit (byteAt (moveText move) 1) = true →
            gridGet side.grid ((x.toNat : Int) - 64) (middleDigit (moveText move)) = 0) := by
  cases shape : moveText move with
  | nil =>
    rw [shape] at read
    cases read
  | cons column rest =>
    rw [shape] at accepted read
    obtain ⟨row, tail, scanned, short, least, most⟩ := move_check_facts accepted
    simp only [moveRead, scanned, Option.map_some, Option.some.injEq, Prod.mk.injEq] at read
    obtain ⟨rfl, rfl⟩ := read
    have checked : moveCheck (moveText move) = true := by rw [shape]; exact accepted
    have sameColumn : moveColumn (moveText move) = (column.toNat : Int) - 64 := by
      rw [shape]
      rfl
    by_cases digit : isDigit (byteAt (column :: rest) 1) = true
    · have decoded := row_of_digits scanned short least most digit
      split_ifs at decoded with once
      · have addressed :=
          addresses_same_row side checked sameColumn (by rw [shape, decoded])
        exact iff_of_true addressed (Or.inl once)
      · obtain ⟨middle, different⟩ := decoded
        rw [addresses_other_row side column checked (by rw [shape]; exact different),
          sameColumn, shape, middle]
        simp [once, digit]
    · have notOnce : ¬ RowAtOnce (column :: rest) := fun once => digit once.1
      have led : (byteAt (column :: rest) 1).toNat ≤ 45 := by
        cases rest with
        | nil => exact Nat.zero_le _
        | cons first later =>
          have parsed := ((scan_int_some _ _ _).mp scanned).1
          have start := strtoll_first first later (by simp [parsed])
          exact leading_value first start (by simpa [byteAt] using digit)
      have above := row_of_unled led
      have empty :
          gridGet side.grid (moveColumn (moveText move)) (moveRow (moveText move)) = 0 := by
        rw [shape]
        exact grid_get_above _ _ above
      rw [addresses_other_row side column checked (by rw [shape]; omega), empty]
      simp [notOnce, digit]

def waterSide : Side := ⟨1, ⟨8, 8, fun _ => water⟩, [1]⟩

/-- The move "A+5" with its newline passes the test and names a cell of the board,
and the answer is `BAD`. -/
theorem signed_row_is_bad :
    moveCheck (moveText (CString.ofBytes [65, 43, 53, 10])) = true ∧
      moveRead (moveText (CString.ofBytes [65, 43, 53, 10])) = some (65, 5) ∧
        waterSide.grid.inside (namedCell 65 5) = true ∧
          (gamePlay waterSide (some (CString.ofBytes [65, 43, 53, 10]))).1 = .bad ∧
            ¬ Addresses waterSide (CString.ofBytes [65, 43, 53, 10]) 65 5 := by
  have accepted : moveCheck (moveText (CString.ofBytes [65, 43, 53, 10])) = true := by decide
  refine ⟨accepted, by decide, by decide, by decide, ?_⟩
  intro addressed
  exact absurd addressed.1 (by decide)

theorem plain_row_is_played :
    moveCheck (moveText (CString.ofBytes [66, 55, 10])) = true ∧
      moveRead (moveText (CString.ofBytes [66, 55, 10])) = some (66, 7) ∧
        Addresses waterSide (CString.ofBytes [66, 55, 10]) 66 7 :=
  ⟨by decide, by decide,
    (move_addresses_iff waterSide (CString.ofBytes [66, 55, 10]) 66 7 (by decide)
      (by decide)).mpr (Or.inl (by decide))⟩

end Cprogramming.GameManagement.Moves
