import Cprogramming.GameManagement.Game
import Cprogramming.GameManagement.Placements

/-!
# Rules and maps through the pipes

The hub sends the rules to the agents in one line, and an agent sends its map to
the hub: joined by `queue_to_string`, with commas for the spaces, read with `fgets`
into 50 bytes and split again. What does not fit is lost, and the newline that
`fgets` keeps counts for the text of the last ship, of which `game_draw` accepts
five bytes.
-/

namespace Cprogramming.GameManagement.Pipe

open Library.CStrings Library.Fields
open Game Grid Placements Texts

set_option autoImplicit false

/-! ## Files -/

structure Line where
  text : CString
  single : newline ∉ text.bytes

def hash : UInt8 := 35

/-- `simple_read`: the lines that are no comments. -/
def simpleRead (lines : List Line) : List (List UInt8) :=
  ((lines.filter fun line => line.text.bytes.head? ≠ some hash).map
    fun line => line.text.bytes).foldl queueEnqueue []

def joined (lines : List Line) (delem : UInt8) : List UInt8 :=
  thingReplace ((queueToString (simpleRead lines) delem).getD []) space comma

/-! ## Lines -/

/-- `RULES_M`, which the hub writes out with a space. -/
def rulesWord : List UInt8 := [82, 85, 76, 69, 83]

/-- `MAP_M`. -/
def mapWord : List UInt8 := [77, 65, 80]

/-- `rules_s` of the hub. -/
def rulesLine (rules : List Line) : List UInt8 :=
  thingAdd (thingClean (rulesWord ++ [space])) (joined rules comma) space

/-- `map_s` of an agent. -/
def mapLine (map : List Line) : List UInt8 :=
  thingAdd (thingClean mapWord) (joined map colon) space

def readStringRules (line : List UInt8) : List (List UInt8) := queueToQueue (line.drop 6) comma

def readStringMap (line : List UInt8) : List (List UInt8) :=
  queueToQueue (thingReplace (line.drop 4) comma space) colon

def receivedRules (rules : List Line) : List (List UInt8) :=
  readStringRules (fgets 50 (rulesLine rules ++ [newline]))

/-- What the hub reads of a map, of which the agent has sent a copy. -/
def receivedMap (map : List Line) : List (List UInt8) :=
  readStringMap (fgets 50 (thingClean (mapLine map) ++ [newline]))

/-! ## The property -/

def shipTotal (rules : List Line) : Nat := (readStringRules (rulesLine rules)).length - 3

def RulesSurvive (rules : List Line) : Prop :=
  (receivedRules rules).map ruleValue = (readStringRules (rulesLine rules)).map ruleValue

/-- The placements of the ships; a map may have more texts, which nobody reads. -/
def MapSurvives (ships : Nat) (map : List Line) : Prop :=
  ((receivedMap map).take ships).map placementValue =
    ((readStringMap (mapLine map)).take ships).map placementValue

def rulesPieces (rules : List Line) : List (List UInt8) := (joined rules comma).splitOn comma

def mapPieces (map : List Line) : List (List UInt8) :=
  (thingReplace (joined map colon) comma space).splitOn colon

/-- The line is at most 49 bytes long up to its last digit, and a shorter one does
not end with a comma. -/
def RulesFit (ships : Nat) (rules : List Line) : Prop :=
  usedLength usedNumber (ships + 2) (rulesPieces rules) ≤ 43 ∧
    ((joined rules comma).length < 43 → (rulesPieces rules).getLast? ≠ some [])

/-- The line is at most 49 bytes long up to the last direction, and a newline that
comes behind the last placement leaves it at five bytes. -/
def MapFits (ships : Nat) (map : List Line) : Prop :=
  usedLength usedPlacement (ships - 1) (mapPieces map) ≤ 45 ∧
    ((joined map colon).length < 45 → AtEnd Roomy (ships - 1) (mapPieces map))

/-! ## The bytes of a line -/

variable (map rules lines : List Line)

variable {text : List UInt8}

theorem mem_replace {old new byte : UInt8} (member : byte ∈ thingReplace text old new) :
    byte = new ∨ byte ∈ text ∧ byte ≠ old := by
  obtain ⟨source, present, rfl⟩ := List.mem_map.mp member
  split_ifs with same
  · exact Or.inl rfl
  · exact Or.inr ⟨present, same⟩

theorem simple_read_single (text : List UInt8) (member : text ∈ simpleRead lines) :
    newline ∉ text := by
  rw [simpleRead, enqueue_all, List.nil_append, List.map_map] at member
  obtain ⟨line, _, rfl⟩ := List.mem_map.mp member
  exact fun inside => line.single (mem_thing_clean line.text.bytes newline inside)

theorem add_all_single (delem : UInt8) (other : delem ≠ newline) (texts : List (List UInt8))
    (single : ∀ text ∈ texts, newline ∉ text) (start : List UInt8) (first : newline ∉ start) :
    newline ∉ texts.foldl (fun joined next => thingAdd joined (thingClean next) delem) start := by
  induction texts generalizing start with
  | nil => exact first
  | cons text rest ih =>
    refine ih (fun later member => single later (by simp [member])) _ ?_
    have inner : newline ∉ thingClean text := fun inside =>
      single text (by simp) (mem_thing_clean text newline inside)
    simp [thingAdd, first, other.symm, inner]

theorem joined_single (delem : UInt8) (other : delem ≠ newline) : newline ∉ joined lines delem := by
  intro member
  rcases mem_replace member with same | ⟨inside, _⟩
  · exact absurd same (by decide)
  · have single := simple_read_single lines
    revert inside
    cases queue : simpleRead lines with
    | nil => simp [queueToString]
    | cons text rest =>
      rw [queue] at single
      refine add_all_single delem other rest (fun later member => single later (by simp [member]))
        (thingClean text) ?_
      exact fun inside => single text (by simp) (mem_thing_clean text newline inside)

theorem joined_free (delem : UInt8) : space ∉ joined lines delem := by
  intro member
  rcases mem_replace member with same | ⟨_, other⟩
  · exact absurd same (by decide)
  · exact other rfl

theorem take_line_single (single : newline ∉ text) :
    takeLine (text ++ [newline]) = text ++ [newline] := by
  exact take_line_append text [newline] single

theorem fgets_behind (word text : List UInt8)
    (wordSingle : newline ∉ word) (single : newline ∉ text) :
    (fgets 50 (word ++ text ++ [newline])).drop word.length =
      (text ++ [newline]).take (49 - word.length) := by
  have line : newline ∉ word ++ text := by
    simp [wordSingle, single]
  rw [fgets, take_line_single line, List.append_assoc, List.drop_take, List.drop_left]

theorem rules_line_eq : rulesLine rules = rulesWord ++ [space] ++ joined rules comma := by
  have clean : thingClean (rulesWord ++ [space]) = rulesWord := by decide
  rfl

theorem map_line_eq : mapLine map = mapWord ++ [space] ++ joined map colon := by
  have clean : thingClean mapWord = mapWord := by decide
  rfl

theorem map_line_clean (content : joined map colon ≠ []) :
    thingClean (mapLine map) = mapLine map := by
  have free := joined_free map colon
  have copied : squeeze false (mapLine map) = mapLine map := by
    rw [map_line_eq]
    simp [mapWord, squeeze, space, squeeze_of_free true _ free]
  rw [thing_clean_eq, copied]
  refine trim_eq _ (by rw [map_line_eq]; simp [mapWord, space]) ?_
  rw [map_line_eq, List.getLast?_append_of_ne_nil _ content]
  exact fun last => free (List.mem_of_getLast? last)

/-! ## Fields that are sent and received -/

theorem sent_rules :
    readStringRules (rulesLine rules) = (filled (rulesPieces rules)).map thingClean := by
  rw [readStringRules, rules_line_eq, queue_to_queue_eq, fields]
  rfl

theorem received_rules : receivedRules rules =
      (filled (cut 43 (extendLast newline (rulesPieces rules)))).map thingClean := by
  have kept := fgets_behind (rulesWord ++ [space]) (joined rules comma) (by decide)
    (joined_single rules comma (by decide))
  rw [receivedRules, readStringRules, rules_line_eq, queue_to_queue_eq, fields]
  rw [show (rulesWord ++ [space]).length = 6 from rfl] at kept
  rw [kept, split_take, split_append comma _ newline (by decide)]
  rfl

theorem sent_map : readStringMap (mapLine map) = (filled (mapPieces map)).map thingClean := by
  rw [readStringMap, map_line_eq, queue_to_queue_eq, fields]
  rfl

theorem received_map {map : List Line} (content : joined map colon ≠ []) : receivedMap map =
      (filled (cut 45 (extendLast newline (mapPieces map)))).map thingClean := by
  have kept := fgets_behind (mapWord ++ [space]) (joined map colon) (by decide)
    (joined_single map colon (by decide))
  rw [receivedMap, readStringMap, map_line_clean map content, map_line_eq, queue_to_queue_eq, fields]
  rw [show (mapWord ++ [space]).length = 4 from rfl] at kept
  have replaced : thingReplace ((joined map colon ++ [newline]).take 45) comma space =
      (thingReplace (joined map colon) comma space ++ [newline]).take 45 := by
    simp only [thingReplace, List.map_take, List.map_append]
    rfl
  rw [kept, replaced, split_take, split_append colon _ newline (by decide)]
  rfl

/-! ## Accepted rules -/

variable {grid : Board} {ships : List Int}

theorem magnitude_of_mem (texts : List (List UInt8)) (ships : List Int)
    (read : texts.mapM readMagnitude = some ships) (text : List UInt8) (member : text ∈ texts) :
    ∃ magnitude, readMagnitude text = some magnitude := by
  induction texts generalizing ships with
  | nil => cases member
  | cons first rest ih =>
    simp only [List.mapM_cons, Option.bind_eq_bind, Option.bind_eq_some_iff] at read
    obtain ⟨magnitude, here, others, later, _⟩ := read
    rcases List.mem_cons.mp member with rfl | behind
    · exact ⟨magnitude, here⟩
    · exact ih others later behind

theorem magnitude_scanned {magnitude : Int} (read : readMagnitude text = some magnitude) :
    ∃ rest, scanInt (thingClean text) = some (magnitude, rest) := by
  simp only [readMagnitude] at read
  split at read
  · rename_i value rest scanned
    split_ifs at read
    cases read
    exact ⟨rest, scanned⟩
  · cases read

theorem last_rule_reads {rules : List Line}
    (accepted : gameRules (readStringRules (rulesLine rules)) = .ok (grid, ships)) :
    (filled (rulesPieces rules)).length = shipTotal rules + 2 + 1 ∧
      ∀ wanted, (filled (rulesPieces rules))[shipTotal rules + 2]? = some wanted →
        Reads newline (fun text => ruleValue (thingClean text)) usedNumber (fun _ => True)
          wanted := by
  obtain ⟨first, second, third, rest, maxX, maxY, shape, atLeast, _, inited⟩ :=
    game_rules_cases _ grid ships accepted
  obtain ⟨_, read⟩ := game_init_ok maxX maxY rest grid ships inited
  have sent := sent_rules rules
  have length : (filled (rulesPieces rules)).length = rest.length + 3 := by
    rw [← List.length_map (f := thingClean), ← sent, shape]
    rfl
  have total : shipTotal rules = rest.length := by
    rw [shipTotal, shape]
    rfl
  refine ⟨by omega, ?_⟩
  intro wanted present
  have last : thingClean wanted ∈ rest := by
    have found : (readStringRules (rulesLine rules))[rest.length + 2]? =
        some (thingClean wanted) := by
      rw [sent, List.getElem?_map, ← total, present]
      rfl
    rw [shape, show rest.length + 2 = rest.length - 1 + 1 + 1 + 1 by omega] at found
    exact List.mem_of_getElem? found
  obtain ⟨magnitude, value⟩ := magnitude_of_mem rest ships read _ last
  obtain ⟨unread, scanned⟩ := magnitude_scanned value
  have free : space ∉ wanted := by
    intro member
    have piece := (List.mem_filter.mp (List.mem_of_getElem? present)).1
    exact joined_free rules comma (mem_of_mem_split comma _ wanted space piece member)
  rw [thing_clean_again, thing_clean_of_free wanted free] at scanned
  exact rule_reads scanned (read_magnitude_positive _ magnitude value)

theorem rules_survive_iff {rules : List Line}
    (accepted : gameRules (readStringRules (rulesLine rules)) = .ok (grid, ships)) :
    RulesSurvive rules ↔ RulesFit (shipTotal rules) rules := by
  obtain ⟨counted, reads⟩ := last_rule_reads accepted
  have pieces : rulesPieces rules ≠ [] := List.splitOn_ne_nil _ _
  have exactly := keeps_all_iff newline (fun text => ruleValue (thingClean text)) usedNumber
    (fun _ => True) (rulesPieces rules) pieces 43 (shipTotal rules + 2) counted reads
  have length : joinedLength (rulesPieces rules) = (joined rules comma).length :=
    joined_length_split comma _
  rw [RulesSurvive, received_rules, sent_rules, List.map_map, List.map_map, RulesFit]
  refine exactly.trans ?_
  rw [HasRoom, length]
  exact ⟨fun both => ⟨both.1.1, both.2⟩, fun both => ⟨⟨both.1, fun _ _ _ _ _ => trivial⟩, both.2⟩⟩

/-! ## Accepted maps -/

theorem placements_read (grid drawn : Board) (ship : Nat) (ships : List Int)
    (texts : List (List UInt8)) (done : gameDraw grid ship ships texts = .ok drawn)
    (index : Nat) (bound : index < ships.length) :
    ∃ text, texts[index]? = some text ∧ (placementValue text).isSome := by
  induction ships generalizing grid ship texts index with
  | nil => cases bound
  | cons magnitude rest ih =>
    obtain ⟨text, others, column, row, letter, next, rfl, placed, _, later⟩ :=
      game_draw_cons grid drawn ship magnitude rest texts done
    cases index with
    | zero => exact ⟨text, rfl, by rw [placementValue, placed]; rfl⟩
    | succ index => exact ih next (ship + 1) others later index (by simpa using bound)

theorem map_survives_iff {map : List Line} {drawn : Board} (atLeast : 1 ≤ ships.length)
    (done : gameDraw grid 0 ships (readStringMap (mapLine map)) = .ok drawn) :
    MapSurvives ships.length map ↔ MapFits ships.length map := by
  obtain ⟨text, found, read⟩ :=
    placements_read grid drawn 0 ships _ done (ships.length - 1) (by omega)
  rw [sent_map, List.getElem?_map] at found
  obtain ⟨wanted, present, rfl⟩ := Option.map_eq_some_iff.mp found
  have content : joined map colon ≠ [] := by
    intro empty
    have nothing : filled (mapPieces map) = [] := by
      rw [mapPieces, empty]
      rfl
    rw [nothing] at present
    cases present
  have exactly := keeps_first_iff newline (fun text => placementValue (thingClean text))
    usedPlacement Roomy (mapPieces map) 45 (ships.length - 1) wanted present
    (placement_reads read)
  have length : joinedLength (mapPieces map) = (joined map colon).length := by
    rw [mapPieces, joined_length_split, thingReplace, List.length_map]
  have total : ships.length - 1 + 1 = ships.length := by omega
  rw [KeepsFirst, HasRoom, length, total] at exactly
  rw [MapSurvives, received_map content, sent_map, ← List.map_take, ← List.map_take,
    List.map_map, List.map_map, MapFits]
  exact exactly

/-- Accepted rules and a map for them come through the pipes exactly when both
lines fit. -/
theorem pipe_survives_iff (rules map : List Line) (game : Match)
    (set : gameSet (readStringRules (rulesLine rules)) (some (readStringMap (mapLine map))) none =
      .ok game) :
    (RulesSurvive rules ∧ MapSurvives (shipTotal rules) map) ↔
      RulesFit (shipTotal rules) rules ∧ MapFits (shipTotal rules) map := by
  obtain ⟨grid, ships, player, cpu, accepted, drawn, _, rfl⟩ := game_set_ok _ _ _ game set
  obtain ⟨atLeast, _⟩ := game_rules_ok _ grid ships accepted
  have total : shipTotal rules = ships.length := by
    obtain ⟨_, _, _, rest, maxX, maxY, shape, _, _, inited⟩ := game_rules_cases _ grid ships accepted
    obtain ⟨_, read⟩ := game_init_ok maxX maxY rest grid ships inited
    rw [shipTotal, shape, (magnitudes_read rest ships read).1]
    rfl
  rw [rules_survive_iff accepted, total, map_survives_iff atLeast drawn]

/-- The lines "1 1", "1" and "1". -/
def oneRules : List Line :=
  [⟨⟨[49, 32, 49], by decide⟩, by decide⟩, ⟨⟨[49], by decide⟩, by decide⟩,
    ⟨⟨[49], by decide⟩, by decide⟩]

/-- The line "A1 N". -/
def oneMap : List Line := [⟨⟨[65, 49, 32, 78], by decide⟩, by decide⟩]

theorem one_ship_survives :
    (∃ game, gameSet (readStringRules (rulesLine oneRules))
      (some (readStringMap (mapLine oneMap))) none = .ok game) ∧
      RulesSurvive oneRules ∧ MapSurvives (shipTotal oneRules) oneMap := by
  refine ⟨⟨_, rfl⟩, (pipe_survives_iff oneRules oneMap _ rfl).mpr ⟨?_, ?_, ?_⟩⟩
  · exact ⟨by decide +kernel, by decide +kernel⟩
  · decide +kernel
  · intro _ piece last _ _
    have single : (mapPieces oneMap).getLast? = some [65, 49, 32, 78] := by decide +kernel
    cases last
    show (thingClean [65, 49, 32, 78, 10]).length ≤ 5
    decide

/-- The lines "4 4" and "10" and ten ships of one cell. -/
def tenRules : List Line :=
  [⟨⟨[52, 32, 52], by decide⟩, by decide⟩, ⟨⟨[49, 48], by decide⟩, by decide⟩] ++
    List.replicate 10 ⟨⟨[49], by decide⟩, by decide⟩

/-- The line of a ship in the first three rows of a column. -/
def tenMapLine (column : Fin 4) (row : Fin 3) : Line :=
  ⟨⟨[UInt8.ofNat (65 + column), UInt8.ofNat (49 + row), 32, 78], by revert column row; decide⟩,
    by revert column row; decide⟩

/-- The lines from "A1 N" to "D1 N". -/
def tenMap : List Line :=
  [tenMapLine 0 0, tenMapLine 0 1, tenMapLine 0 2, tenMapLine 1 0, tenMapLine 1 1,
    tenMapLine 1 2, tenMapLine 2 0, tenMapLine 2 1, tenMapLine 2 2, tenMapLine 3 0]

/-- The buffer of the hub ends before the tenth ship. -/
theorem tenth_ship_lost :
    (∃ game, gameSet (readStringRules (rulesLine tenRules))
      (some (readStringMap (mapLine tenMap))) none = .ok game) ∧
      (receivedMap tenMap).length = 9 ∧ ¬ MapSurvives (shipTotal tenRules) tenMap := by
  refine ⟨⟨_, rfl⟩, by decide +kernel, ?_⟩
  intro survives
  have lengths := congrArg List.length survives
  revert lengths
  decide +kernel

end Cprogramming.GameManagement.Pipe
