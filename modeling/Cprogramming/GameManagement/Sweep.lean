import Mathlib.Tactic.Ring
import Cprogramming.GameManagement.Moves
import Cprogramming.GameManagement.Pipe

/-!
# The sweeping agent

`agent_move` goes through the rows of the board, to the right in even rows and to
the left in odd ones. The first row is taken to have eight columns, and `main`
hands over the number of rows as the number of columns: it reads the first number
of the rules as the height, where `game_set` reads the columns.
-/

namespace Cprogramming.GameManagement.Sweep

open Library.CStrings Library.Decimals Library.Fields
open Game Grid Moves Pipe Placements Texts

set_option autoImplicit false

/-! ## The agent -/

/-- `roww`, the two entries of `guessed` and `move_i` of the agents. -/
structure Position where
  roww : Int
  left : Int
  right : Int
  moveI : Int × Int
deriving DecidableEq

/-- The first test of `agent_move`: the next row is begun when nothing is left of
the present one. -/
def beginRow (maxC : Int) (position : Position) : Position :=
  if position.right < position.left then
    { position with roww := position.roww + 1, left := 0, right := maxC - 1 }
  else position

def agentMove (maxC : Int) (position : Position) : Position :=
  let begun := beginRow maxC position
  if begun.roww % 2 = 0 then
    if begun.left ≤ begun.right then
      { begun with moveI := (begun.left, begun.roww), left := begun.left + 1 }
    else begun
  else if begun.left ≤ begun.right then
    { begun with moveI := (begun.right, begun.roww), right := begun.right - 1 }
  else begun

def sweepStart : Position := ⟨0, 0, 7, (0, 0)⟩

/-- `move` of the agents: one character for the column and one for the row. -/
def encode (moveI : Int × Int) : CString :=
  CString.ofBytes [UInt8.ofInt (moveI.1 + 65), UInt8.ofInt (moveI.2 + 49)]

def guess (maxC : Int) (index : Nat) : CString :=
  encode ((agentMove maxC)^[index + 1] sweepStart).moveI

def guesses (maxC : Int) (count : Nat) : List CString := (List.range count).map (guess maxC)

/-- `sscanf(rules_s, "RULES %d,%d", &height, &width)`. -/
def scanRules (line : List UInt8) : Option (Int × Int) :=
  if line.take 5 = rulesWord then
    match scanInt (line.drop 5) with
    | some (height, byte :: rest) =>
      if byte = comma then (scanInt rest).map fun scanned => (height, scanned.1) else none
    | _ => none
  else none

def announcement (body : List UInt8) : List UInt8 := rulesWord ++ space :: body

/-! ## The property -/

/-- The cell that a move names for `move_check`, counted from zero. -/
def named (text : CString) : Option (Int × Int) :=
  (moveRead (moveText text)).map fun scanned => namedCell scanned.1 scanned.2

def legal (maxX maxY : Int) (text : CString) : Bool :=
  moveCheck (moveText text) && (named text).any fun cell => checkInside cell maxX maxY

def Covers (maxX maxY : Int) (texts : List CString) : Prop :=
  texts.Nodup ∧ (∀ text ∈ texts, legal maxX maxY text = true) ∧
    ∀ cell, checkInside cell maxX maxY = true → some cell ∈ texts.map named

/-! ## The moves of a run -/

variable {maxC : Int}

/-- The state after a number of calls: eight of them for the first row and `maxC`
for each later one. -/
def Swept (maxC : Int) (calls : Nat) (position : Position) : Prop :=
  (position.roww = 0 ∧ position.left = calls ∧ position.right = 7 ∧ calls ≤ 8) ∨
    (1 ≤ position.roww ∧ 0 ≤ position.left ∧ position.right < maxC ∧ position.left ≤ position.right + 1 ∧
      calls = 8 + (position.roww - 1) * maxC + position.left + (maxC - 1 - position.right))

/-- The move that a call makes after that many others. -/
def Guessed (maxC : Int) (calls : Nat) (moveI : Int × Int) : Prop :=
  (moveI.2 = 0 ∧ moveI.1 = calls ∧ calls < 8) ∨
    (1 ≤ moveI.2 ∧ 0 ≤ moveI.1 ∧ moveI.1 < maxC ∧ 8 + (moveI.2 - 1) * maxC ≤ calls)

theorem begin_row_swept (wide : 1 ≤ maxC) {calls : Nat} {position : Position}
    (swept : Swept maxC calls position) : Swept maxC calls (beginRow maxC position) ∧
      (beginRow maxC position).left ≤ (beginRow maxC position).right := by
  unfold beginRow
  split_ifs with done
  · refine ⟨Or.inr ?_, by simp only; omega⟩
    rcases swept with ⟨row, left, right, bound⟩ | ⟨row, left, right, close, count⟩
    · simp only [row]
      omega
    · have product : (position.roww + 1 - 1) * maxC = (position.roww - 1) * maxC + maxC := by ring
      simp only [product]
      omega
  · exact ⟨swept, Int.not_lt.mp done⟩

theorem agent_move_swept (wide : 1 ≤ maxC) {calls : Nat} {position : Position}
    (swept : Swept maxC calls position) : Swept maxC (calls + 1) (agentMove maxC position) ∧
      Guessed maxC calls (agentMove maxC position).moveI := by
  obtain ⟨held, inside⟩ := begin_row_swept wide swept
  unfold agentMove
  generalize beginRow maxC position = begun at held inside
  simp only [inside, if_true, Swept, Guessed]
  -- the first row has the number zero, so only later ones go to the left
  split_ifs with even
  · dsimp only
    rcases held with ⟨row, left, right, bound⟩ | ⟨row, left, right, close, count⟩
    · exact ⟨Or.inl ⟨row, by omega, right, by omega⟩, Or.inl ⟨row, left, by omega⟩⟩
    · exact ⟨Or.inr ⟨row, by omega, right, by omega, by omega⟩,
        Or.inr ⟨row, left, by omega, by omega⟩⟩
  · dsimp only
    rcases held with ⟨row, left, right, bound⟩ | ⟨row, left, right, close, count⟩
    · omega
    · exact ⟨Or.inr ⟨row, left, by omega, by omega, by omega⟩,
        Or.inr ⟨row, by omega, right, by omega⟩⟩

theorem swept_run (wide : 1 ≤ maxC) (calls : Nat) :
    Swept maxC calls ((agentMove maxC)^[calls] sweepStart) := by
  induction calls with
  | zero => exact Or.inl ⟨rfl, rfl, rfl, by decide⟩
  | succ calls ih =>
    rw [Function.iterate_succ_apply']
    exact (agent_move_swept wide ih).1

theorem guessed_run (wide : 1 ≤ maxC) (index : Nat) :
    Guessed maxC index ((agentMove maxC)^[index + 1] sweepStart).moveI := by
  rw [Function.iterate_succ_apply']
  exact (agent_move_swept wide (swept_run wide index)).2

theorem ninth_guess (wide : 1 ≤ maxC) :
    ((agentMove maxC)^[9] sweepStart).moveI = (maxC - 1, 1) := by
  obtain ⟨held, inside⟩ := begin_row_swept wide (swept_run wide 8)
  rw [Function.iterate_succ_apply', agentMove]
  generalize beginRow maxC ((agentMove maxC)^[8] sweepStart) = begun at held inside
  rcases held with ⟨_, left, right, _⟩ | ⟨row, left, right, _, count⟩
  · omega
  · have rows : begun.roww - 1 ≤ (begun.roww - 1) * maxC :=
      le_mul_of_one_le_right (by omega) wide
    have second : begun.roww = 1 := by omega
    have last : begun.right = maxC - 1 := by
      omega
    have place : begun.left ≤ maxC - 1 := by omega
    simp [second, last, place]

/-! ## The texts of the guesses -/

theorem scan_single (byte : UInt8) :
    scanInt [byte] = if isDigit byte then some ((byte.toNat : Int) - 48, []) else none := by
  split_ifs with digit
  · have bounds := digit_value byte digit
    rw [scan_int_some, strtoll_digits byte [] digit]
    simp [digit, decimal]
    omega
  · have unread : strtoll [byte] = none := by
      by_cases white : isSpace byte = true
      · simp [strtoll, white]
      · by_cases signed : byte = 45 ∨ byte = 43
        · simp [strtoll, white, signed]
        · simp [strtoll, white, signed, digit]
    simp [scanInt, unread]

theorem byte_of_int (number : Int) (small : 0 ≤ number) (bound : number < 256) :
    ((UInt8.ofInt number).toNat : Int) = number := by
  obtain ⟨value, rfl⟩ := Int.eq_ofNat_of_zero_le small
  simp only [UInt8.ofInt, UInt8.toNat_ofNat']
  omega

theorem move_text_pair (first second : UInt8) (visible : 32 < first.toNat)
    (shown : 32 < second.toNat) : moveText (CString.ofBytes [first, second]) = [first, second] := by
  have inner : first ≠ 0 := by
    rintro rfl
    exact absurd visible (by decide)
  have closing : second ≠ 0 := by
    rintro rfl
    exact absurd shown (by decide)
  have solid : second ≠ space := by
    rintro rfl
    exact absurd shown (by decide)
  simp [moveText, CString.ofBytes, inner, closing, solid]

/-- Nine rows have a digit; the characters behind it are no numbers. -/
theorem named_encode (column row : Int) (left : 0 ≤ column) (right : column ≤ 26)
    (above : 0 ≤ row) (below : row ≤ 26) :
    named (encode (column, row)) = if row ≤ 8 then some (column, row) else none := by
  have letter := byte_of_int (column + 65) (by omega) (by omega)
  have character := byte_of_int (row + 49) (by omega) (by omega)
  have digit : isDigit (UInt8.ofInt (row + 49)) = true ↔ row ≤ 8 := by
    simp only [isDigit, Bool.and_eq_true, decide_eq_true_eq, UInt8.le_iff_toNat_le,
      UInt8.reduceToNat]
    omega
  rw [named, encode]
  dsimp only
  rw [move_text_pair _ _ (by omega) (by omega), moveRead, scan_single]
  simp only [digit]
  split_ifs
  · simp only [Option.map_some, namedCell, letter, character, Option.some.injEq, Prod.mk.injEq]
    omega
  · rfl

theorem guess_named (maxX maxY : Int) (columns : maxX ≤ 26) (rows : 1 ≤ maxY ∧ maxY ≤ 26)
    (index : Nat) (early : (index : Int) < maxX * maxY) :
    ∃ column row, Guessed maxY index (column, row) ∧
      named (guess maxY index) = if row ≤ 8 then some (column, row) else none := by
  have made := guessed_run rows.1 index
  rw [guess]
  generalize ((agentMove maxY)^[index + 1] sweepStart).moveI = moveI at made
  obtain ⟨column, row⟩ := moveI
  refine ⟨column, row, made, ?_⟩
  rcases made with ⟨top, same, few⟩ | ⟨later, left, right, count⟩
  · simp only at top same
    exact named_encode column row (by omega) (by omega) (by omega) (by omega)
  · simp only at later left right count
    have bound : row - 1 < maxX := by
      apply lt_of_mul_lt_mul_right _ (show (0 : Int) ≤ maxY by omega)
      omega
    exact named_encode column row left (by omega) (by omega) (by omega)

/-! ## The announced board -/

theorem announcement_body (body : List UInt8) : (announcement body).drop 6 = body := by
  rfl

theorem comma_free (numeral : Numeral) : comma ∉ numeral.text := by
  intro member
  simp only [Numeral.text, List.mem_append] at member
  rcases member with blank | signed | digit
  · exact absurd (numeral.blank comma blank) (by decide)
  · rcases numeral.signed with none | minus | plus
    · simp [none] at signed
    · rw [minus, List.mem_singleton] at signed
      exact absurd signed (by decide)
    · rw [plus, List.mem_singleton] at signed
      exact absurd signed (by decide)
  · exact absurd (numeral.decimals comma digit) (by decide)

theorem numeral_text_nonempty (numeral : Numeral) : numeral.text ≠ [] := by
  simp [Numeral.text, numeral.nonempty]

theorem first_piece_ends (tail piece : List UInt8) (others : List (List UInt8))
    (split : tail.splitOn comma = piece :: others)
    (ends : ∀ byte, tail.head? = some byte → isDigit byte = false) :
    ∀ byte, piece.head? = some byte → isDigit byte = false := by
  intro byte first
  cases tail with
  | nil =>
    cases split
    cases first
  | cons next rest =>
    rw [List.splitOn_cons_eq_if_modifyHead] at split
    split_ifs at split
    · cases split
      cases first
    · obtain ⟨head, later, shape⟩ :=
        List.exists_cons_of_ne_nil (List.splitOn_ne_nil comma rest)
      rw [shape, List.modifyHead_cons] at split
      cases split
      cases first
      exact ends byte rfl

theorem scan_rules_shape {body : List UInt8} {height width : Int}
    (scanned : scanRules (announcement body) = some (height, width)) :
    ∃ (first second : Numeral) (tail : List UInt8),
      body = first.text ++ comma :: (second.text ++ tail) ∧
        scanInt first.text = some (height, []) ∧
          (∀ byte, tail.head? = some byte → isDigit byte = false) ∧
            second.value = width ∧ -2 ^ 31 ≤ width ∧ width < 2 ^ 31 := by
  have blankSpace : isSpace space = true := by decide
  have blank : scanInt (space :: body) = scanInt body := by
    simp only [scanInt]
    rw [← List.singleton_append, strtoll_blank [space] body (by simpa using blankSpace)]
  rw [scanRules, if_pos (by rfl)] at scanned
  split at scanned
  · rename_i value byte rest read
    split_ifs at scanned with separated
    subst separated
    obtain ⟨⟨number, tail⟩, later, same⟩ := Option.map_eq_some_iff.mp scanned
    cases same
    obtain ⟨parsed, range⟩ := (scan_int_some _ _ _).mp read
    obtain ⟨first, rfl, rfl, _⟩ := strtoll_shape body _ _ parsed
    obtain ⟨parsedLater, rangeLater⟩ := (scan_int_some _ _ _).mp later
    obtain ⟨second, rfl, rfl, ends⟩ := strtoll_shape rest _ _ parsedLater
    have alone := scan_numeral first [] range (by simp)
    rw [List.append_nil] at alone
    exact ⟨first, second, tail, rfl, alone, ends, rfl, rangeLater⟩
  · cases scanned

theorem announced_sizes {body : List UInt8} {grid : Board} {ships : List Int} {height width : Int}
    (accepted : gameRules (readStringRules (announcement body)) = .ok (grid, ships))
    (scanned : scanRules (announcement body) = some (height, width)) :
    grid.sizeX = height ∧ grid.sizeY = width ∧ (1 ≤ height ∧ height ≤ 26) ∧
      1 ≤ width ∧ width ≤ 26 := by
  obtain ⟨first, second, tail, rfl, columns, ends, rfl, range⟩ :=
    scan_rules_shape scanned
  obtain ⟨piece, others, split⟩ := List.exists_cons_of_ne_nil (List.splitOn_ne_nil comma tail)
  have rows : scanInt (second.text ++ piece) = some (second.value, piece) :=
    scan_numeral second piece range (first_piece_ends tail piece others split ends)
  have filledRow : second.text ++ piece ≠ [] := by
    simp [numeral_text_nonempty second]
  have texts : readStringRules (announcement (first.text ++ comma :: (second.text ++ tail))) =
      thingClean first.text :: thingClean (second.text ++ piece) ::
        (filled others).map thingClean := by
    rw [readStringRules, announcement_body, queue_to_queue_eq, fields,
      split_at_separator comma _ _ (comma_free first),
      split_behind comma _ _ (comma_free second), split, List.modifyHead_cons,
      filled_cons _ (numeral_text_nonempty first), filled_cons _ filledRow]
    rfl
  rw [texts] at accepted
  obtain ⟨maxX, maxY, readX, readY, made⟩ := game_rules_sizes accepted
  rw [thing_clean_again, scan_int_clean, columns] at readX
  rw [thing_clean_again, scan_int_clean, rows] at readY
  simp only [Option.map_some, Option.some.injEq] at readX readY
  subst readX readY
  rw [gridInit] at made
  split_ifs at made with bounds
  cases made
  simp only [checkInside, Bool.and_eq_true, decide_eq_true_eq] at bounds
  simp only [gridMaxX, gridMaxY] at bounds
  exact ⟨rfl, rfl, by omega, by omega⟩

/-! ## Coverage -/

theorem covers_of_cells (maxX maxY : Nat) (texts : List CString) (apart : texts.Nodup)
    (accepted : ∀ text ∈ texts, legal maxX maxY text = true)
    (reached : ∀ column < maxX, ∀ row < maxY,
      some ((column : Int), (row : Int)) ∈ texts.map named) : Covers maxX maxY texts := by
  refine ⟨apart, accepted, ?_⟩
  rintro ⟨column, row⟩ inside
  simp only [checkInside, Bool.and_eq_true, decide_eq_true_eq] at inside
  obtain ⟨x, rfl⟩ := Int.eq_ofNat_of_zero_le inside.1.1.1
  obtain ⟨y, rfl⟩ := Int.eq_ofNat_of_zero_le inside.1.2
  exact reached x (by omega) y (by omega)

theorem covers_square : Covers 8 8 (guesses 8 64) := by
  apply covers_of_cells 8 8
  · decide +kernel
  · decide +kernel
  · decide +kernel

theorem covers_single_row {maxX : Nat} (few : maxX ≤ 8) : Covers maxX 1 (guesses 1 maxX) := by
  have apart : ∀ count ≤ 8, (guesses 1 count).Nodup := by decide +kernel
  have accepted : ∀ count : Nat, count ≤ 8 →
      ∀ text ∈ guesses 1 count, legal count 1 text = true := by decide +kernel
  have reached : ∀ count : Nat, count ≤ 8 → ∀ column : Nat, column < count →
      some ((column : Int), (0 : Int)) ∈ (guesses 1 count).map named := by decide +kernel
  apply covers_of_cells maxX 1 _ (apart maxX few) (accepted maxX few)
  intro column inside row single
  have top : row = 0 := by omega
  rw [top]
  exact reached maxX few column inside

theorem not_covers_of_guess {maxX maxY : Int} {index : Nat} (early : (index : Int) < maxX * maxY)
    {column row : Int} (made : named (guess maxY index) = some (column, row))
    (outside : maxX ≤ column) : ¬ Covers maxX maxY (guesses maxY (maxX * maxY).toNat) := by
  rintro ⟨_, accepted, _⟩
  have member : guess maxY index ∈ guesses maxY (maxX * maxY).toNat :=
    List.mem_map.mpr ⟨index, List.mem_range.mpr (by omega), rfl⟩
  have inside := accepted _ member
  simp only [legal, made, Option.any_some, checkInside, Bool.and_eq_true, decide_eq_true_eq]
    at inside
  omega

theorem not_covers_of_cell (maxX maxY : Int) (columns : maxX ≤ 26)
    (rows : 1 ≤ maxY ∧ maxY ≤ 26) (column row : Int)
    (inside : checkInside (column, row) maxX maxY = true)
    (never : ∀ index, ¬ Guessed maxY index (column, row)) :
    ¬ Covers maxX maxY (guesses maxY (maxX * maxY).toNat) := by
  rintro ⟨_, _, reached⟩
  obtain ⟨text, member, names⟩ := List.mem_map.mp (reached _ inside)
  obtain ⟨index, early, rfl⟩ := List.mem_map.mp member
  have bound : (index : Int) < maxX * maxY := by
    have natural := List.mem_range.mp early
    omega
  obtain ⟨otherColumn, otherRow, made, same⟩ := guess_named maxX maxY columns rows index bound
  rw [names] at same
  split_ifs at same
  cases same
  exact never index made

theorem covers_iff {maxX maxY : Int} (columns : 1 ≤ maxX ∧ maxX ≤ 26)
    (rows : 1 ≤ maxY ∧ maxY ≤ 26) : Covers maxX maxY (guesses maxY (maxX * maxY).toNat) ↔
      maxX = 8 ∧ maxY = 8 ∨ maxY = 1 ∧ maxX ≤ 8 := by
  constructor
  · intro covered
    by_contra otherwise
    by_cases wide : 8 < maxX
    · -- the first row is guessed up to its eighth column
      apply not_covers_of_cell maxX maxY columns.2 rows 8 0 _ _ covered
      · simp only [checkInside, Bool.and_eq_true, decide_eq_true_eq]
        omega
      · rintro index (⟨_, same, few⟩ | ⟨later, _⟩)
        · simp only at same
          omega
        · simp only at later
          omega
    · have several : 2 ≤ maxY := by omega
      have area : maxX * 2 ≤ maxX * maxY := by
        apply mul_le_mul_of_nonneg_left several
        omega
      by_cases narrow : maxX < 8
      · -- the guess behind the end of the first row
        obtain ⟨index, rfl⟩ := Int.eq_ofNat_of_zero_le (show 0 ≤ maxX by omega)
        obtain ⟨column, row, made, names⟩ :=
          guess_named index maxY columns.2 rows index (by omega)
        rcases made with ⟨top, same, _⟩ | ⟨later, _, _, count⟩
        · simp only at top same
          rw [if_pos (by omega)] at names
          exact not_covers_of_guess (by omega) names (by omega) covered
        · simp only at later count
          have product : 0 ≤ (row - 1) * maxY := mul_nonneg (by omega) (by omega)
          omega
      · have eight : maxX = 8 := by omega
        subst eight
        by_cases tall : 8 < maxY
        · -- the second row starts behind the end of the board
          have names : named (guess maxY 8) = some (maxY - 1, 1) := by
            rw [guess, ninth_guess rows.1,
              named_encode (maxY - 1) 1 (by omega) (by omega) (by omega) (by omega)]
            rfl
          exact not_covers_of_guess (by omega) names (by omega) covered
        · -- the second row ends before the eighth column
          apply not_covers_of_cell 8 maxY (by omega) rows 7 1 _ _ covered
          · simp only [checkInside, Bool.and_eq_true, decide_eq_true_eq]
            omega
          · rintro index (⟨top, _⟩ | ⟨_, _, short, _⟩)
            · simp only at top
              omega
            · simp only at short
              omega
  · rintro (⟨rfl, rfl⟩ | ⟨rfl, few⟩)
    · exact covers_square
    · obtain ⟨count, rfl⟩ := Int.eq_ofNat_of_zero_le (show 0 ≤ maxX by omega)
      rw [mul_one, Int.toNat_natCast]
      exact covers_single_row (by omega)

/-- The first guesses cover the announced board exactly if it has eight columns and
eight rows, or one row of at most eight columns. -/
theorem sweep_covers_iff (body : List UInt8) (grid : Board) (ships : List Int)
    (height width : Int)
    (accepted : gameRules (readStringRules (announcement body)) = .ok (grid, ships))
    (scanned : scanRules (announcement body) = some (height, width)) :
    Covers grid.sizeX grid.sizeY (guesses width (grid.sizeX * grid.sizeY).toNat) ↔
      grid.sizeX = 8 ∧ grid.sizeY = 8 ∨ grid.sizeY = 1 ∧ grid.sizeX ≤ 8 := by
  obtain ⟨sameX, sameY, columns, rows⟩ :=
    announced_sizes accepted scanned
  rw [sameX, sameY]
  exact covers_iff columns rows

/-- "10,10,1,1" and a newline: ten columns and ten rows. -/
def tenBody : List UInt8 := [49, 48, 44, 49, 48, 44, 49, 44, 49, 10]

/-- "8,8,1,1" and a newline. -/
def eightBody : List UInt8 := [56, 44, 56, 44, 49, 44, 49, 10]

/-- On a board of ten columns no guess names the ninth cell of the first row. -/
theorem ninth_column_not_guessed :
    (∃ grid, gameRules (readStringRules (announcement tenBody)) = .ok (grid, [1]) ∧
      grid.sizeX = 10 ∧ grid.sizeY = 10) ∧
      scanRules (announcement tenBody) = some (10, 10) ∧
        checkInside (8, 0) 10 10 = true ∧
          some (8, 0) ∉ (guesses 10 100).map named ∧ ¬ Covers 10 10 (guesses 10 100) := by
  have never : some ((8 : Int), (0 : Int)) ∉ (guesses 10 100).map named := by decide +kernel
  refine ⟨⟨⟨10, 10, fun _ => water⟩, by rfl, rfl, rfl⟩, by decide +kernel, by decide, never, ?_⟩
  rintro ⟨_, _, reached⟩
  exact never (reached (8, 0) (by decide))

theorem eight_by_eight_covered :
    gameRules (readStringRules (announcement eightBody)) =
        .ok (⟨8, 8, fun _ => water⟩, [1]) ∧ scanRules (announcement eightBody) = some (8, 8) ∧
        Covers 8 8 (guesses 8 64) :=
  ⟨by rfl, by decide +kernel,
    (sweep_covers_iff eightBody ⟨8, 8, fun _ => water⟩ [1] 8 8 (by rfl)
      (by decide +kernel)).mpr (Or.inl ⟨rfl, rfl⟩)⟩

end Cprogramming.GameManagement.Sweep
