import Cprogramming.Library.Runs
import Cprogramming.Library.Tables
import Cprogramming.GameManagement.Game

/-!
# Ship accounting

Each side keeps the number of cells left of every ship and the number of ships
left. `grid_draw` gives the tenth and later ships a letter, which `game_play_`
does not know: a move on such a cell is answered as a miss and leaves it.
-/

namespace Cprogramming.GameManagement.ShipCount

open Library.CStrings Library.Runs
open Game Grid Texts

set_option autoImplicit false

def symbol (ship : Nat) : UInt8 := resolveElement (shipElement ship)

inductive Turn where
  | player (move : Option CString)
  | cpu (move : Option CString)

def step (game : Match) : Turn → Match
  | .player move => (gamePlayPlayer game move).2
  | .cpu move => (gamePlayCpu game move).2

/-! ## The property -/

/-- The counts are the cells that carry the symbols, the total the ships that have
some left. -/
structure SideAccounted (side : Side) : Prop where
  counts : ∀ ship, ship < side.ships.length → side.ships.getD ship 0 = side.grid.count (symbol ship)
  total : side.total = side.ships.countP (· ≠ 0)

def AllHit (side : Side) : Prop :=
  ∀ ship, ship < side.ships.length → side.grid.count (symbol ship) = 0

structure Accounted (game : Match) : Prop where
  player : SideAccounted game.player
  cpu : SideAccounted game.cpu
  ended : gameStatus game ≠ .gameOn ↔ AllHit game.player ∨ AllHit game.cpu

def On (side : Side) (move : Option CString) (element : UInt8) : Prop :=
  ∃ text, move = some text ∧ moveCheck (moveText text) = true ∧
    gridGet side.grid (moveColumn (moveText text)) (moveRow (moveText text)) = element

/-- A move on a cell of a ship returns HIT, or DOWN when it is the last one, and
marks the cell. -/
def MoveAnswered (side : Side) (move : Option CString) (played : Result × Side) : Prop :=
  ∀ ship, ship < side.ships.length → On side move (symbol ship) →
    played.1 = (if side.grid.count (symbol ship) = 1 then .down else .hit) ∧
      On played.2 move hitMark

def TurnAnswered (game : Match) : Turn → Prop
  | .player move =>
    MoveAnswered game.cpu move ((gamePlayPlayer game move).1, (gamePlayPlayer game move).2.cpu)
  | .cpu move =>
    MoveAnswered game.player move ((gamePlayCpu game move).1, (gamePlayCpu game move).2.player)

/-- The move is not on a cell of the tenth or a later ship. -/
def OffLetters (side : Side) (move : Option CString) : Prop :=
  ∀ ship, 9 ≤ ship → ship < side.ships.length → ¬ On side move (symbol ship)

def TurnOffLetters (game : Match) : Turn → Prop
  | .player move => OffLetters game.cpu move
  | .cpu move => OffLetters game.player move

/-! ## Symbols -/

variable {ship : Nat}

theorem symbols_apart (left right : Nat) (leftBound : left < 15) (rightBound : right < 15)
    (same : symbol left = symbol right) : left = right := by
  have all : ∀ left < 15, ∀ right < 15, symbol left = symbol right → left = right := by decide
  exact all left leftBound right rightBound same

theorem symbol_visible (ship : Nat) (bound : ship < 15) :
    symbol ship ≠ 0 ∧ symbol ship ≠ water ∧ symbol ship ≠ missMark ∧ symbol ship ≠ hitMark := by
  revert ship
  decide

theorem symbol_digit (ship : Nat) (bound : ship < 15) :
    (49 ≤ symbol ship ∧ symbol ship ≤ 57) ↔ ship < 9 := by
  revert ship
  decide

theorem symbol_index (bound : ship < 9) : (symbol ship).toNat - 49 = ship := by
  revert ship
  decide

/-! ## One move -/

def placeOf (text : List UInt8) : Int × Int := (moveColumn text - 1, moveRow text - 1)

theorem grid_get_eq (board : Board) (text : List UInt8) :
    gridGet board (moveColumn text) (moveRow text) =
      if board.inside (placeOf text) then board.plain (placeOf text) else 0 := by
  rfl

/-- What a checked move does to a side. It is refused off the board and on a mark;
a cell of an element that `game_play_` does not know is answered and left. -/
inductive Played (side : Side) (place : Int × Int) : Result × Side → Prop where
  | refused (result : Result) (negative : result.code < 0)
      (other : side.grid.inside place = true → side.grid.plain place = 0 ∨
        side.grid.plain place = missMark ∨ side.grid.plain place = hitMark) :
      Played side place (result, side)
  | ignored (inside : side.grid.inside place = true) (taken : side.grid.plain place ≠ water)
      (unmarked : ¬ (side.grid.plain place = missMark ∨ side.grid.plain place = hitMark))
      (other : ¬ (49 ≤ side.grid.plain place ∧ side.grid.plain place ≤ 57)) :
      Played side place (.miss, side)
  | missed (inside : side.grid.inside place = true) (free : side.grid.plain place = water) :
      Played side place (.miss, { side with grid := side.grid.put place missMark })
  | struck (inside : side.grid.inside place = true)
      (digit : 49 ≤ side.grid.plain place ∧ side.grid.plain place ≤ 57) :
      Played side place
        (hitShip side (side.grid.put place hitMark) ((side.grid.plain place).toNat - 49))

theorem play_text_played (side : Side) (text : List UInt8) :
    Played side (placeOf text) (playText side text) := by
  simp only [playText, grid_get_eq]
  by_cases inside : side.grid.inside (placeOf text) = true
  · have set : ∀ mark, gridSet side.grid (moveColumn text) (moveRow text) mark =
        side.grid.put (placeOf text) mark := fun mark => if_pos inside
    simp only [set]
    split_ifs with zero free marked digit
    · exact .refused .bad (by decide) (fun _ => Or.inl zero)
    · exact .missed inside free
    · exact .refused .repeated (by decide) (fun _ => Or.inr marked)
    · exact .struck inside digit
    · exact .ignored inside free marked digit
  · rw [if_neg inside, if_pos rfl]
    exact .refused .bad (by decide) (fun contrary => absurd contrary inside)

/-! ## A fleet -/

variable {side : Side} {ships : List Int} {place : Int × Int} {played : Result × Side}

/-- There are at most fifteen ships, and every cell is water, a mark or a symbol
of one of them. -/
structure Fleet (side : Side) : Prop where
  size : side.ships.length ≤ 15
  known : ∀ place, side.grid.inside place = true →
    side.grid.plain place = water ∨ side.grid.plain place = missMark ∨
      side.grid.plain place = hitMark ∨
        ∃ ship, ship < side.ships.length ∧ side.grid.plain place = symbol ship

theorem Fleet.digit {side : Side} (fleet : Fleet side) (place : Int × Int)
    (inside : side.grid.inside place = true)
    (digit : 49 ≤ side.grid.plain place ∧ side.grid.plain place ≤ 57) :
    ∃ ship, ship < side.ships.length ∧ ship < 9 ∧ side.grid.plain place = symbol ship ∧
      (side.grid.plain place).toNat - 49 = ship := by
  rcases fleet.known place inside with free | missed | hit | ⟨ship, bound, carried⟩
  · rw [free] at digit
    exact absurd digit (by decide)
  · rw [missed] at digit
    exact absurd digit (by decide)
  · rw [hit] at digit
    exact absurd digit (by decide)
  · rw [carried] at digit ⊢
    have low := (symbol_digit ship (Nat.lt_of_lt_of_le bound fleet.size)).mp digit
    exact ⟨ship, bound, low, rfl, symbol_index low⟩

theorem fleet_put (fleet : Fleet side) (place : Int × Int) {mark : UInt8}
    (marks : mark = missMark ∨ mark = hitMark) (same : ships.length = side.ships.length)
    (total : Int) : Fleet ⟨total, side.grid.put place mark, ships⟩ := by
  refine ⟨by rw [same]; exact fleet.size, ?_⟩
  intro cell inside
  by_cases here : cell = place
  · simp only [Board.put, here, if_true]
    tauto
  · simp only [Board.put, here, if_false, same]
    exact fleet.known cell inside

theorem fleet_played (fleet : Fleet side) (effect : Played side place played) : Fleet played.2 := by
  cases effect with
  | refused => exact fleet
  | ignored => exact fleet
  | missed => exact fleet_put fleet place (Or.inl rfl) rfl side.total
  | struck =>
    exact fleet_put fleet place (Or.inr rfl) (List.length_modify _ _ _) side.total

/-! ## Counts after a move -/

theorem get_modify (other : Nat) (bound : ship < ships.length) :
    (ships.modify ship (· - 1)).getD other 0 =
      if other = ship then ships.getD other 0 - 1 else ships.getD other 0 := by
  by_cases same : ship = other
  · subst same
    simp [bound]
  · simp [same, Ne.symm same]

theorem ships_left_modify (bound : ship < ships.length) (left : ships.getD ship 0 ≠ 0) :
    (ships.modify ship (· - 1)).countP (· ≠ 0) + (if ships.getD ship 0 = 1 then 1 else 0) =
      ships.countP (· ≠ 0) := by
  rw [List.getD_eq_getElem _ _ bound] at left ⊢
  have counts := Library.Tables.count_modify ships ship (· - 1) ships[ship]
    (List.getElem?_eq_getElem bound) (· ≠ 0)
  by_cases last : ships[ship] = 1
  · simpa [last] using counts
  · have more : ships[ship] - 1 ≠ 0 := by omega
    simpa [last, left, more] using counts

theorem SideAccounted.positive {side : Side} (accounted : SideAccounted side) (ship : Nat)
    (bound : ship < side.ships.length) (place : Int × Int)
    (inside : side.grid.inside place = true) (carried : side.grid.plain place = symbol ship) :
    0 < side.ships.getD ship 0 ∧ side.total ≠ 0 := by
  have some : 0 < side.grid.count (symbol ship) :=
    Finset.card_pos.mpr ⟨place, Finset.mem_filter.mpr ⟨(mem_cells side.grid place).mpr inside, carried⟩⟩
  have count := accounted.counts ship bound
  have positive : 0 < side.ships.getD ship 0 := by omega
  refine ⟨positive, ?_⟩
  rw [accounted.total, List.getD_eq_getElem _ _ bound] at *
  have left : 0 < side.ships.countP (· ≠ 0) :=
    List.countP_pos_iff.mpr ⟨side.ships[ship], List.getElem_mem bound, by simp; omega⟩
  omega

/-- The total goes down when the last cell of a ship has been hit. -/
def settle (played : Result × Side) : Side :=
  if played.1 = .down then { played.2 with total := played.2.total - 1 } else played.2

theorem hit_ship_result (grid : Board) (bound : ship < side.ships.length) :
    (hitShip side grid ship).1 = if side.ships.getD ship 0 = 1 then .down else .hit := by
  simp only [hitShip, get_modify ship bound, if_true]
  exact if_congr (by omega) rfl rfl

theorem hit_ship_accounted (fleet : Fleet side) (accounted : SideAccounted side)
    (bound : ship < side.ships.length) (inside : side.grid.inside place = true)
    (carried : side.grid.plain place = symbol ship) :
    SideAccounted (settle (hitShip side (side.grid.put place hitMark) ship)) := by
  have short := fleet.size
  have positive := (accounted.positive ship bound place inside carried).1
  have visible := symbol_visible ship (by omega)
  have self := count_put_self side.grid place hitMark inside (by rw [carried]; exact visible.2.2.2.symm)
  rw [carried] at self
  have counts : ∀ other, other < side.ships.length →
      (side.ships.modify ship (· - 1)).getD other 0 =
        (side.grid.put place hitMark).count (symbol other) := by
    intro other otherBound
    have before := accounted.counts other otherBound
    rw [get_modify other bound]
    by_cases same : other = ship
    · subst same
      omega
    · have apart : symbol other ≠ side.grid.plain place := by
        rw [carried]
        intro equal
        exact same (symbols_apart other ship (by omega) (by omega) equal)
      rw [if_neg same, count_put_other side.grid place hitMark (symbol other) apart
        (symbol_visible other (by omega)).2.2.2]
      exact before
  have left := ships_left_modify bound (by omega)
  have total := accounted.total
  rw [settle, hit_ship_result _ bound]
  by_cases last : side.ships.getD ship 0 = 1
  · rw [if_pos last] at left
    rw [if_pos last, if_pos rfl]
    refine ⟨by simpa [hitShip] using counts, ?_⟩
    simp only [hitShip]
    omega
  · rw [if_neg last] at left
    rw [if_neg last, if_neg (by decide)]
    refine ⟨by simpa [hitShip] using counts, ?_⟩
    simp only [hitShip]
    omega

theorem played_accounted (fleet : Fleet side) (accounted : SideAccounted side)
    (effect : Played side place played) : SideAccounted (settle played) := by
  cases effect with
  | refused result negative other =>
    rw [settle, if_neg (by rintro rfl; exact absurd negative (by decide))]
    exact accounted
  | ignored inside taken unmarked other =>
    exact accounted
  | missed inside free =>
    rw [settle, if_neg (by simp)]
    refine ⟨?_, accounted.total⟩
    intro ship bound
    have visible := symbol_visible ship (Nat.lt_of_lt_of_le bound fleet.size)
    have same := count_put_other side.grid place missMark (symbol ship)
      (by rw [free]; exact visible.2.1) visible.2.2.1
    simp only [same]
    exact accounted.counts ship bound
  | struck inside digit =>
    obtain ⟨ship, bound, _, carried, index⟩ := fleet.digit place inside digit
    rw [index]
    exact hit_ship_accounted fleet accounted bound inside carried

/-! ## One turn -/

theorem play_side_checked (won : Result) {text : CString} (left : side.total ≠ 0)
    (checked : moveCheck (moveText text) = true) : playSide won side (some text) =
      ((playText side (moveText text)).1, settle (playText side (moveText text))) := by
  simp only [playSide, if_neg left, gamePlay, if_pos checked, settle]

theorem play_side_idle (won : Result) (side : Side) (move : Option CString)
    (idle : side.total = 0 ∨ ∀ text, move = some text → moveCheck (moveText text) ≠ true) :
    playSide won side move = (if side.total = 0 then won else .illegal, side) := by
  by_cases finished : side.total = 0
  · simp only [playSide, if_pos finished]
  · have unchecked := idle.resolve_left finished
    cases move with
    | none => simp [playSide, finished, gamePlay]
    | some text => simp [playSide, finished, gamePlay, unchecked text rfl]

theorem play_side_split (side : Side) (move : Option CString) :
    (side.total = 0 ∨ ∀ text, move = some text → moveCheck (moveText text) ≠ true) ∨
      ∃ text, move = some text ∧ side.total ≠ 0 ∧ moveCheck (moveText text) = true := by
  by_cases checked : ∃ text, move = some text ∧ moveCheck (moveText text) = true
  · obtain ⟨text, given, checked⟩ := checked
    by_cases finished : side.total = 0
    · exact Or.inl (Or.inl finished)
    · exact Or.inr ⟨text, given, finished, checked⟩
  · exact Or.inl (Or.inr fun text given passed => checked ⟨text, given, passed⟩)

structure Sound (side : Side) : Prop where
  fleet : Fleet side
  accounted : SideAccounted side

theorem settle_fleet (fleet : Fleet played.2) : Fleet (settle played) := by
  rw [settle]
  split_ifs
  · exact ⟨fleet.size, fleet.known⟩
  · exact fleet

theorem play_side_sound (won : Result) (sound : Sound side) (move : Option CString) :
    Sound (playSide won side move).2 := by
  rcases play_side_split side move with idle | ⟨text, rfl, left, checked⟩
  · rw [play_side_idle won side move idle]
    exact sound
  · rw [play_side_checked won left checked]
    have effect := play_text_played side (moveText text)
    exact ⟨settle_fleet (fleet_played sound.fleet effect),
      played_accounted sound.fleet sound.accounted effect⟩

theorem on_symbol (side : Side) (text : CString) (ship : Nat) (bound : ship < 15)
    (on : On side (some text) (symbol ship)) :
    moveCheck (moveText text) = true ∧ side.grid.inside (placeOf (moveText text)) = true ∧
      side.grid.plain (placeOf (moveText text)) = symbol ship := by
  obtain ⟨given, same, checked, element⟩ := on
  cases same
  rw [grid_get_eq] at element
  by_cases inside : side.grid.inside (placeOf (moveText text)) = true
  · rw [if_pos inside] at element
    exact ⟨checked, inside, element⟩
  · rw [if_neg inside] at element
    exact absurd element.symm (symbol_visible ship bound).1

theorem settle_grid (played : Result × Side) : (settle played).grid = played.2.grid := by
  rw [settle]
  split_ifs <;> rfl

theorem answered_off_letters {won : Result} (other : won ≠ .hit ∧ won ≠ .down)
    (sound : Sound side) {move : Option CString}
    (answered : MoveAnswered side move (playSide won side move)) : OffLetters side move := by
  intro ship letter bound on
  have short := sound.fleet.size
  have result := (answered ship bound on).1
  have struck : (playSide won side move).1 = .hit ∨ (playSide won side move).1 = .down := by
    rw [result]
    split_ifs <;> tauto
  rcases play_side_split side move with idle | ⟨text, rfl, left, checked⟩
  · rw [play_side_idle won side move idle] at struck
    split_ifs at struck
    · tauto
    · exact absurd struck (by decide)
  · rw [play_side_checked won left checked] at struck
    obtain ⟨_, _, carried⟩ := on_symbol side text ship (by omega) on
    have effect := play_text_played side (moveText text)
    generalize playText side (moveText text) = played at effect struck
    cases effect with
    | refused result negative other =>
      rcases struck with rfl | rfl <;> exact absurd negative (by decide)
    | ignored inside taken unmarked other => exact absurd struck (by simp)
    | missed inside free => exact absurd struck (by simp)
    | struck inside digit =>
      rw [carried] at digit
      have low := (symbol_digit ship (by omega)).mp digit
      omega

theorem off_letters_answered (won : Result) (sound : Sound side) {move : Option CString}
    (off : OffLetters side move) : MoveAnswered side move (playSide won side move) := by
  intro ship bound on
  have low : ship < 9 := by
    by_contra high
    exact off ship (by omega) bound on
  obtain ⟨text, rfl, _, _⟩ := id on
  obtain ⟨checked, inside, carried⟩ := on_symbol side text ship (by omega) on
  have left := (sound.accounted.positive ship bound _ inside carried).2
  have count := sound.accounted.counts ship bound
  have digit := (symbol_digit ship (by omega)).mpr low
  rw [play_side_checked won left checked]
  have effect := play_text_played side (moveText text)
  generalize playText side (moveText text) = played at effect
  cases effect with
  | refused result negative other =>
    have visible := symbol_visible ship (by omega)
    rw [carried] at other
    rcases other inside with zero | missed | hit
    · exact absurd zero visible.1
    · exact absurd missed visible.2.2.1
    · exact absurd hit visible.2.2.2
  | ignored _ _ _ other =>
    rw [carried] at other
    exact absurd digit other
  | missed _ free =>
    rw [carried] at free
    exact absurd free (symbol_visible ship (by omega)).2.1
  | struck _ _ =>
    rw [carried, symbol_index low]
    refine ⟨?_, text, rfl, checked, ?_⟩
    · simp only [hit_ship_result _ bound]
      exact if_congr (by omega) rfl rfl
    · have still : (side.grid.put (placeOf (moveText text)) hitMark).inside
          (placeOf (moveText text)) = true := inside
      simp only [grid_get_eq, settle_grid, hitShip, if_pos still]
      simp [Board.put]

/-! ## Setting up -/

variable {grid : Board}

/-- A cell of the board is water or carries the symbol of one of the first ships. -/
def Drawn (grid : Board) (ships : Nat) : Prop :=
  ∀ place, grid.plain place = water ∨ ∃ ship, ship < ships ∧ grid.plain place = symbol ship

theorem drawn_paint (before : Drawn grid ship) (places : List (Int × Int)) :
    Drawn (grid.paint places (symbol ship)) (ship + 1) := by
  intro place
  by_cases member : place ∈ places
  · exact Or.inr ⟨ship, Nat.lt_succ_self ship, by simp [Board.paint, member]⟩
  · rcases before place with free | ⟨other, bound, carried⟩
    · exact Or.inl (by simp [Board.paint, member, free])
    · exact Or.inr ⟨other, Nat.lt_succ_of_lt bound, by simp [Board.paint, member, carried]⟩

/-- `game_draw` adds the cells of every ship that it draws. The induction is on
the magnitudes, with the number of the ships before them. -/
theorem game_draw_counts (grid drawn : Board) (ship : Nat) (ships : List Int)
    (texts : List (List UInt8)) (few : ship + ships.length ≤ 15)
    (positive : ∀ magnitude ∈ ships, 0 < magnitude) (before : Drawn grid ship)
    (done : gameDraw grid ship ships texts = .ok drawn) :
    Drawn drawn (ship + ships.length) ∧
      ∀ other, other < 15 → (drawn.count (symbol other) : Int) =
        grid.count (symbol other) + (if ship ≤ other then ships.getD (other - ship) 0 else 0) := by
  induction ships generalizing grid ship texts with
  | nil =>
    cases done
    exact ⟨before, by simp⟩
  | cons magnitude rest ih =>
    rw [List.length_cons] at few
    obtain ⟨_, others, _, _, _, next, _, _, single, later⟩ :=
      game_draw_cons grid drawn ship magnitude rest texts done
    obtain ⟨places, distinct, length, free, rfl⟩ := grid_draw_ok _ _ _ _ _ _ _ single
    have visible := symbol_visible ship (by omega)
    obtain ⟨known, counts⟩ := ih (grid.paint places (symbol ship)) (ship + 1) others (by omega)
      (fun other member => positive other (List.mem_cons_of_mem _ member))
      (drawn_paint before places) later
    refine ⟨by rw [List.length_cons, Nat.add_comm rest.length, ← Nat.add_assoc]; exact known, ?_⟩
    intro other bound
    rw [counts other bound]
    by_cases same : other = ship
    · -- the ship drawn here: its cells are the painted ones
      subst same
      have here := positive magnitude List.mem_cons_self
      rw [count_paint_self grid places (symbol other) distinct free visible.2.1, if_neg (by omega),
        if_pos (Nat.le_refl other), Nat.sub_self, List.getD_cons_zero]
      omega
    · have apart : symbol other ≠ symbol ship := fun equal =>
        same (symbols_apart other ship bound (by omega) equal)
      rw [count_paint_other grid places (symbol ship) (symbol other) free apart
        (symbol_visible other bound).2.1]
      by_cases further : ship + 1 ≤ other
      · obtain ⟨distance, rfl⟩ := Nat.exists_eq_add_of_le further
        rw [if_pos further, if_pos (by omega), Nat.add_sub_cancel_left,
          show ship + 1 + distance - ship = distance + 1 by omega, List.getD_cons_succ]
      · rw [if_neg further, if_neg (by omega)]

theorem count_water (empty : ∀ place, grid.plain place = water) {element : UInt8}
    (visible : element ≠ water) : grid.count element = 0 := by
  refine Finset.card_eq_zero.mpr (Finset.filter_eq_empty_iff.mpr ?_)
  intro place _ carried
  rw [empty place] at carried
  exact visible carried.symm

theorem draw_side_sound {drawn : Board} {texts : List (List UInt8)} (few : ships.length ≤ 15)
    (positive : ∀ magnitude ∈ ships, 0 < magnitude) (empty : ∀ place, grid.plain place = water)
    (done : drawSide grid ships (some texts) = .ok drawn) : Sound ⟨ships.length, drawn, ships⟩ := by
  obtain ⟨known, counts⟩ := game_draw_counts grid drawn 0 ships texts (by omega) positive
    (fun place => Or.inl (empty place)) done
  refine ⟨⟨few, ?_⟩, ?_, ?_⟩
  · intro place _
    rcases known place with free | ⟨ship, bound, carried⟩
    · exact Or.inl free
    · exact Or.inr (Or.inr (Or.inr ⟨ship, by simpa using bound, carried⟩))
  · intro ship bound
    have count := counts ship (Nat.lt_of_lt_of_le bound few)
    rw [count_water empty (symbol_visible ship (Nat.lt_of_lt_of_le bound few)).2.1] at count
    simpa using count.symm
  · have all : ships.countP (· ≠ 0) = ships.length := by
      refine List.countP_eq_length.mpr ?_
      intro magnitude member
      have := positive magnitude member
      simp only [ne_eq, decide_eq_true_eq]
      omega
    simp only [all]

theorem no_map_not_accounted {drawn : Board} (atLeast : 1 ≤ ships.length)
    (positive : ∀ magnitude ∈ ships, 0 < magnitude) (empty : ∀ place, grid.plain place = water)
    (done : drawSide grid ships none = .ok drawn) (total : Int) :
    ¬ SideAccounted ⟨total, drawn, ships⟩ := by
  intro accounted
  cases done
  have count := accounted.counts 0 atLeast
  rw [count_water empty (symbol_visible 0 (by omega)).2.1] at count
  have first := positive ships[0] (List.getElem_mem atLeast)
  simp only [List.getD_eq_getElem _ _ atLeast] at count
  omega

/-! ## A whole game -/

variable {game : Match}

theorem total_zero_iff (accounted : SideAccounted side) : side.total = 0 ↔ AllHit side := by
  have sunk : side.total = 0 ↔ ∀ count ∈ side.ships, count = 0 := by
    rw [accounted.total, Int.natCast_eq_zero, List.countP_eq_zero]
    simp
  rw [sunk, AllHit]
  constructor
  · intro empty ship bound
    have count := accounted.counts ship bound
    have zero := empty side.ships[ship] (List.getElem_mem bound)
    rw [List.getD_eq_getElem _ _ bound] at count
    omega
  · intro hit count member
    obtain ⟨ship, bound, rfl⟩ := List.getElem_of_mem member
    have count := accounted.counts ship bound
    have zero := hit ship bound
    rw [List.getD_eq_getElem _ _ bound] at count
    omega

theorem accounted_of_sides (player : SideAccounted game.player) (cpu : SideAccounted game.cpu) :
    Accounted game := by
  refine ⟨player, cpu, ?_⟩
  rw [← total_zero_iff player, ← total_zero_iff cpu, gameStatus]
  by_cases cpuOver : game.cpu.total = 0
  · simp [cpuOver]
  · by_cases playerOver : game.player.total = 0 <;> simp [cpuOver, playerOver]

def SoundMatch (game : Match) : Prop := Sound game.player ∧ Sound game.cpu

theorem step_sound (game : Match) (turn : Turn) (sound : SoundMatch game) :
    SoundMatch (step game turn) := by
  cases turn with
  | player move => exact ⟨sound.1, play_side_sound .winPlayer sound.2 move⟩
  | cpu move => exact ⟨play_side_sound .winCpu sound.1 move, sound.2⟩

theorem turn_answered_iff (turn : Turn) (sound : SoundMatch game) :
    TurnAnswered game turn ↔ TurnOffLetters game turn := by
  cases turn with
  | player move =>
    exact ⟨answered_off_letters (by decide) sound.2, off_letters_answered .winPlayer sound.2⟩
  | cpu move =>
    exact ⟨answered_off_letters (by decide) sound.1, off_letters_answered .winCpu sound.1⟩

theorem game_set_sound (rules : List (List UInt8)) (playerMap cpuMap : List (List UInt8))
    (game : Match) (set : gameSet rules (some playerMap) (some cpuMap) = .ok game) :
    SoundMatch game := by
  obtain ⟨grid, ships, player, cpu, accepted, playerDrawn, cpuDrawn, rfl⟩ :=
    game_set_ok rules (some playerMap) (some cpuMap) game set
  obtain ⟨_, few, positive, empty⟩ := game_rules_ok rules grid ships accepted
  exact ⟨draw_side_sound few positive empty playerDrawn,
    draw_side_sound few positive empty cpuDrawn⟩

theorem accounted_needs_maps {rules : List (List UInt8)}
    {playerMap cpuMap : Option (List (List UInt8))}
    (set : gameSet rules playerMap cpuMap = .ok game) (accounted : Accounted game) :
    playerMap.isSome ∧ cpuMap.isSome := by
  obtain ⟨grid, ships, player, cpu, accepted, playerDrawn, cpuDrawn, rfl⟩ :=
    game_set_ok rules playerMap cpuMap game set
  obtain ⟨atLeast, _, positive, empty⟩ := game_rules_ok rules grid ships accepted
  constructor
  · cases playerMap with
    | none =>
      exact absurd accounted.player
        (no_map_not_accounted atLeast positive empty playerDrawn ships.length)
    | some texts => rfl
  · cases cpuMap with
    | none =>
      exact absurd accounted.cpu (no_map_not_accounted atLeast positive empty cpuDrawn ships.length)
    | some texts => rfl

/-- The accounts are right and every move on a ship is answered exactly in the
games in which both sides have a map and no move is on a cell with a letter. -/
theorem accounting_throughout_iff (rules : List (List UInt8))
    (playerMap cpuMap : Option (List (List UInt8))) (game : Match)
    (set : gameSet rules playerMap cpuMap = .ok game) (turns : List Turn) :
    (Throughout step Accounted game turns ∧ EachStep step TurnAnswered game turns) ↔
      (playerMap.isSome ∧ cpuMap.isSome) ∧ EachStep step TurnOffLetters game turns := by
  have initial : Throughout step Accounted game turns → Accounted game := by
    cases turns with
    | nil => exact id
    | cons turn rest => exact And.left
  have exactly (maps : playerMap.isSome ∧ cpuMap.isSome) :
      (Throughout step Accounted game turns ∧ EachStep step TurnAnswered game turns) ↔
        EachStep step TurnOffLetters game turns := by
    obtain ⟨playerTexts, rfl⟩ := Option.isSome_iff_exists.mp maps.1
    obtain ⟨cpuTexts, rfl⟩ := Option.isSome_iff_exists.mp maps.2
    have accounted : ∀ state, SoundMatch state → Accounted state := fun state sound =>
      accounted_of_sides sound.1.accounted sound.2.accounted
    have sound := game_set_sound rules playerTexts cpuTexts game set
    refine throughout_and_each_step_iff_of_invariant step SoundMatch Accounted TurnAnswered
      TurnOffLetters step_sound ?_ game sound (accounted game sound) turns
    intro state turn reached _
    rw [← turn_answered_iff turn reached]
    exact and_iff_right (accounted (step state turn) (step_sound state turn reached))
  constructor
  · intro held
    have maps := accounted_needs_maps set (initial held.1)
    exact ⟨maps, (exactly maps).mp held⟩
  · rintro ⟨maps, met⟩
    exact (exactly maps).mpr met

/-- A board of two by two with a ship of two cells and one of one cell. -/
def twoRules : List (List UInt8) := [[50], [50], [50], [50], [49]]

/-- "A1 S" and "B1 N". -/
def twoShips : List (List UInt8) := [[65, 49, 32, 83], [66, 49, 32, 78]]

/-- The moves "A1" and "A2" of the player, with "B1" of the other side in between. -/
def hitAndSink : List Turn :=
  [.player (some ⟨[65, 49], by decide⟩), .cpu (some ⟨[66, 49], by decide⟩),
    .player (some ⟨[65, 50], by decide⟩)]

/-- A hit, and the ends of two ships. -/
theorem hit_and_sink_accounted :
    ∃ game, gameSet twoRules (some twoShips) (some twoShips) = .ok game ∧
      (run step game hitAndSink).player.total = 1 ∧ (run step game hitAndSink).cpu.total = 1 ∧
      (run step game hitAndSink).cpu.ships = [0, 1] ∧
      Throughout step Accounted game hitAndSink ∧ EachStep step TurnAnswered game hitAndSink := by
  refine ⟨_, rfl, by decide +kernel, by decide +kernel, by decide +kernel, ?_⟩
  refine (accounting_throughout_iff twoRules (some twoShips) (some twoShips) _ rfl hitAndSink).mpr
    ⟨⟨rfl, rfl⟩, ?_, ?_, ?_, trivial⟩
  all_goals
    intro ship letter bound
    have few : ship < 2 := bound
    omega

/-- Ten ships of one cell on a board of four by four. -/
def tenRules : List (List UInt8) := [[52], [52], [49, 48]] ++ List.replicate 10 [49]

def tenShips : List (List UInt8) :=
  [65, 66, 67, 68].flatMap fun column => [49, 50, 51].map fun row => [column, row, 32, 78]

/-- The move "D1". -/
def tenthCell : Option CString := some ⟨[68, 49], by decide⟩

/-- The tenth ship is on that cell, and the move is answered as a miss. -/
theorem letter_cell_missed :
    ∃ game, gameSet tenRules (some tenShips) (some tenShips) = .ok game ∧
      On game.cpu tenthCell (symbol 9) ∧ (gamePlayPlayer game tenthCell).1 = .miss ∧
        ¬ EachStep step TurnAnswered game [.player tenthCell] := by
  have on : ∃ game, gameSet tenRules (some tenShips) (some tenShips) = .ok game ∧
      On game.cpu tenthCell (symbol 9) ∧ (gamePlayPlayer game tenthCell).1 = .miss ∧
        9 < game.cpu.ships.length := by
    refine ⟨_, rfl, ⟨_, rfl, ?_, ?_⟩, ?_, ?_⟩ <;> decide +kernel
  obtain ⟨game, set, on, missed, bound⟩ := on
  refine ⟨game, set, on, missed, ?_⟩
  rintro ⟨answered, _⟩
  have result := (answered 9 bound on).1
  simp only [missed] at result
  split_ifs at result

end Cprogramming.GameManagement.ShipCount
