import Cprogramming.Library.Fields
import Cprogramming.GameManagement.Texts

/-!
# Reading numbers and placements from a part of a text

How the values that the game reads with `sscanf` depend on the bytes of a text:
which of its bytes a reading needs, and that normalising the text or cutting it
behind them does not change what is read.
-/

namespace Cprogramming.GameManagement.Placements

open Library.CStrings Library.Decimals Library.Fields
open Texts

set_option autoImplicit false

/-! ## Numbers in a normalised text -/

variable {byte : UInt8}

theorem squeeze_drop_blank (after : Bool) (text : List UInt8) :
    (squeeze after text).dropWhile isSpace = squeeze false (text.dropWhile isSpace) := by
  have blankSpace : isSpace space = true := by decide
  induction text generalizing after with
  | nil => rfl
  | cons byte rest ih =>
    by_cases blank : byte = space
    · subst blank
      cases after <;> simp [squeeze, blankSpace, ih]
    · by_cases white : isSpace byte = true
      · simp [squeeze, blank, white, ih]
      · simp [squeeze, blank, white]

theorem digit_not_space (digit : isDigit byte = true) : byte ≠ space := by
  rintro rfl
  exact absurd digit (by decide)

theorem squeeze_digits (text : List UInt8) :
    (squeeze false text).takeWhile isDigit = text.takeWhile isDigit ∧
      (squeeze false text).dropWhile isDigit = squeeze false (text.dropWhile isDigit) := by
  induction text with
  | nil => exact ⟨rfl, rfl⟩
  | cons byte rest ih =>
    by_cases digit : isDigit byte = true
    · simp [squeeze, digit_not_space digit, digit, ih]
    · by_cases blank : byte = space
      · subst blank
        simp [squeeze, digit]
      · simp [squeeze, blank, digit]

theorem squeeze_head (text : List UInt8) : (squeeze false text).head? = text.head? := by
  cases text with
  | nil => rfl
  | cons byte rest =>
    by_cases blank : byte = space <;> simp [squeeze, blank]

theorem squeeze_sign {text : List UInt8} {sign : UInt8} (other : sign ≠ space)
    (head : text.head? = some sign) : (squeeze false text).tail = squeeze false text.tail := by
  obtain ⟨rest, rfl⟩ := List.head?_eq_some_iff.mp head
  simp [squeeze, other]

theorem strtoll_squeeze (after : Bool) (text : List UInt8) :
    strtoll (squeeze after text) =
      (strtoll text).map fun result => (result.1, squeeze false result.2) := by
  simp only [strtoll, squeeze_drop_blank, squeeze_head]
  generalize text.dropWhile isSpace = start
  have body : (if start.head? = some 45 ∨ start.head? = some 43 then (squeeze false start).tail
      else squeeze false start) =
      squeeze false (if start.head? = some 45 ∨ start.head? = some 43 then start.tail
        else start) := by
    split_ifs with signed
    · rcases signed with minus | plus
      · exact squeeze_sign (by decide) minus
      · exact squeeze_sign (by decide) plus
    · rfl
  rw [body]
  generalize (if start.head? = some 45 ∨ start.head? = some 43 then start.tail else start) = digits
  obtain ⟨taken, dropped⟩ := squeeze_digits digits
  rw [taken, dropped]
  split_ifs <;> rfl

theorem scan_int_squeeze (after : Bool) (text : List UInt8) :
    scanInt (squeeze after text) =
      (scanInt text).map fun result => (result.1, squeeze false result.2) := by
  simp only [scanInt, strtoll_squeeze]
  cases strtoll text with
  | none => rfl
  | some result =>
    simp only [Option.map_some, Option.bind_eq_bind, Option.bind_some]
    split_ifs <;> rfl

theorem blank_not_digit (white : isSpace byte = true) : isDigit byte = false := by
  by_contra digit
  rw [(digit_bounds byte (by simpa using digit)).1] at white
  cases white

theorem numeral_last {numeral : Numeral} {init : List UInt8}
    (shape : numeral.text = init ++ [byte]) : isDigit byte = true := by
  have last : numeral.text.getLast? = some byte := by rw [shape, List.getLast?_concat]
  rw [Numeral.text, ← List.append_assoc, List.getLast?_append_of_ne_nil _ numeral.nonempty] at last
  exact numeral.decimals byte (List.mem_of_getLast? last)

theorem strtoll_append_blank (text : List UInt8) (white : isSpace byte = true) :
    strtoll (text ++ [byte]) = (strtoll text).map fun result => (result.1, result.2 ++ [byte]) := by
  cases read : strtoll text with
  | some result =>
    obtain ⟨value, rest⟩ := result
    obtain ⟨numeral, rfl, rfl, ends⟩ := strtoll_shape text rest value read
    have behind : ∀ other, (rest ++ [byte]).head? = some other → isDigit other = false := by
      intro other first
      cases rest with
      | nil =>
        cases first
        exact blank_not_digit white
      | cons next others => exact ends other first
    rw [List.append_assoc, strtoll_numeral numeral _ behind]
    rfl
  | none =>
    cases longer : strtoll (text ++ [byte]) with
    | none => rfl
    | some result =>
      obtain ⟨value, rest⟩ := result
      obtain ⟨numeral, shape, _, ends⟩ := strtoll_shape _ rest value longer
      rcases List.eq_nil_or_concat rest with rfl | ⟨init, other, rfl⟩
      · have digit := numeral_last (by simpa using shape.symm)
        rw [blank_not_digit white] at digit
        cases digit
      · rw [List.concat_eq_append, ← List.append_assoc] at shape
        obtain ⟨rfl, _⟩ := List.append_inj' shape rfl
        have behind : ∀ byte, init.head? = some byte → isDigit byte = false := by
          intro first head
          refine ends first ?_
          rw [List.concat_eq_append, List.head?_append, head]
          rfl
        rw [strtoll_numeral numeral init behind] at read
        cases read

theorem scan_int_append_blank (text : List UInt8) (white : isSpace byte = true) :
    scanInt (text ++ [byte]) = (scanInt text).map fun result => (result.1, result.2 ++ [byte]) := by
  simp only [scanInt, strtoll_append_blank text white]
  cases strtoll text with
  | none => rfl
  | some result =>
    simp only [Option.map_some, Option.bind_eq_bind, Option.bind_some]
    split_ifs <;> rfl

/-! ## Placements in a normalised text -/

/-- The conversions of `"%c%d %c\n"` and the bytes behind them. -/
def scanPlacement (text : List UInt8) : Option ((UInt8 × Int × UInt8) × List UInt8) :=
  match text with
  | [] => none
  | column :: tail =>
    match scanInt tail with
    | none => none
    | some (row, rest) =>
      match rest.dropWhile isSpace with
      | [] => none
      | direction :: unread => some ((column, row, direction), unread)

def parsePlacement (text : List UInt8) : Option (UInt8 × Int × UInt8) :=
  (scanPlacement text).map Prod.fst

theorem parse_placement_cons (column : UInt8) (tail : List UInt8) :
    parsePlacement (column :: tail) = (scanInt tail).bind fun result =>
        ((result.2.dropWhile isSpace).head?).map fun direction => (column, result.1, direction) := by
  simp only [parsePlacement, scanPlacement]
  cases scanInt tail with
  | none => rfl
  | some result =>
    simp only [Option.bind_some]
    cases result.2.dropWhile isSpace <;> rfl

theorem read_placement_eq (text : List UInt8) :
    readPlacement text = if text.length ≤ 5 then parsePlacement text else none := by
  cases text with
  | nil => rfl
  | cons column tail =>
    rw [parse_placement_cons, readPlacement]
    cases scanInt tail with
    | none => simp
    | some result =>
      cases found : result.2.dropWhile isSpace with
      | nil => simp [found]
      | cons direction unread =>
        simp only [Option.bind_eq_bind, Option.bind_some, found, List.head?_cons,
          Option.map_some, List.length_cons]
        split_ifs <;> first | rfl | omega

theorem parse_placement_squeeze {column : UInt8} (tail : List UInt8) (visible : column ≠ space) :
    parsePlacement (squeeze false (column :: tail)) = parsePlacement (column :: tail) := by
  have shape : squeeze false (column :: tail) = column :: squeeze false tail := by
    simp [squeeze, visible]
  rw [shape, parse_placement_cons, parse_placement_cons, scan_int_squeeze]
  cases scanInt tail with
  | none => rfl
  | some result => simp [squeeze_drop_blank, squeeze_head]

theorem head_drop_blank (text : List UInt8) (white : isSpace byte = true) :
    ((text ++ [byte]).dropWhile isSpace).head? = (text.dropWhile isSpace).head? := by
  rw [List.dropWhile_append]
  split_ifs with nothing
  · rw [List.isEmpty_iff.mp nothing, List.dropWhile_cons_of_pos white]
    rfl
  · obtain ⟨first, others, shape⟩ :=
      List.exists_cons_of_ne_nil (fun empty => nothing (List.isEmpty_iff.mpr empty))
    rw [shape]
    rfl

theorem parse_placement_append_blank {text : List UInt8} (white : isSpace byte = true)
    (content : text ≠ []) : parsePlacement (text ++ [byte]) = parsePlacement text := by
  obtain ⟨column, tail, rfl⟩ := List.exists_cons_of_ne_nil content
  rw [List.cons_append, parse_placement_cons, parse_placement_cons,
    scan_int_append_blank tail white]
  cases scanInt tail with
  | none => rfl
  | some result => simp [head_drop_blank _ white]

def unindent (text : List UInt8) : List UInt8 := text.dropWhile (· == space)

theorem unindent_squeeze (text : List UInt8) :
    unindent (squeeze false text) = squeeze false (unindent text) := by
  have general : ∀ after, unindent (squeeze after text) = squeeze false (unindent text) := by
    induction text with
    | nil => exact fun _ => rfl
    | cons byte rest ih =>
      intro after
      by_cases blank : byte = space
      · subst blank
        cases after
        · simpa [unindent, squeeze] using ih true
        · simpa [unindent, squeeze] using ih true
      · simp [unindent, squeeze, blank]
  exact general false

theorem parse_unindent_squeeze (text : List UInt8) :
    parsePlacement (squeeze false (unindent text)) = parsePlacement (unindent text) := by
  cases shape : unindent text with
  | nil => rfl
  | cons column tail =>
    have visible := drop_while_ends (· == space) text column (by rw [← unindent, shape]; rfl)
    exact parse_placement_squeeze tail (by simpa using visible)

theorem parse_thing_clean (text : List UInt8) :
    parsePlacement (thingClean text) = parsePlacement (unindent text) := by
  obtain ⟨front, back, start, ended, shape, head, _⟩ :=
    trim_shape (squeeze_spaced false text).1
  have blank : isSpace space = true := by decide
  rw [← parse_unindent_squeeze, ← unindent_squeeze, shape, thing_clean_eq]
  cases content : trim (squeeze false text) with
  | nil => rcases start with rfl | rfl <;> rcases ended with rfl | rfl <;> rfl
  | cons column tail =>
    have visible : column ≠ space := fun same => head (by rw [content, same]; rfl)
    have dropped : unindent (front ++ (column :: tail ++ back)) = column :: tail ++ back := by
      rcases start with rfl | rfl <;> simp [unindent, visible]
    rw [dropped]
    rcases ended with rfl | rfl
    · rw [List.append_nil]
    · exact (parse_placement_append_blank blank (by simp)).symm

/-- What a queue makes of a text and `game_draw` of that. -/
theorem read_placement_clean (text : List UInt8) :
    readPlacement (thingClean (thingClean text)) =
      if (thingClean text).length ≤ 5 then parsePlacement (unindent text) else none := by
  rw [thing_clean_again, read_placement_eq, parse_thing_clean]

/-! ## The bytes of a placement -/

theorem scan_int_some (text rest : List UInt8) (value : Int) :
    scanInt text = some (value, rest) ↔
      strtoll text = some (value, rest) ∧ -2 ^ 31 ≤ value ∧ value < 2 ^ 31 := by
  simp only [scanInt]
  cases strtoll text with
  | none => simp
  | some result =>
    obtain ⟨number, left⟩ := result
    simp only [Option.bind_eq_bind, Option.bind_some, Option.some.injEq, Prod.mk.injEq]
    split_ifs with range
    · simp only [Option.some.injEq, Prod.mk.injEq]
      exact ⟨fun same => ⟨same, same.1 ▸ range⟩, And.left⟩
    · refine iff_of_false (by simp) ?_
      rintro ⟨⟨rfl, _⟩, inside⟩
      exact range inside

/-- What is read as a placement: spaces, a column, a row, blanks and a direction. -/
structure Placement where
  indent : List UInt8
  column : UInt8
  row : Numeral
  blanks : List UInt8
  direction : UInt8
  spaces : ∀ byte ∈ indent, byte = space
  visible : column ≠ space
  range : -2 ^ 31 ≤ row.value ∧ row.value < 2 ^ 31
  blank : ∀ byte ∈ blanks, isSpace byte = true
  letter : isSpace direction = false
  separate : blanks = [] → isDigit direction = false

namespace Placement

def text (placement : Placement) : List UInt8 :=
  placement.indent ++
    placement.column :: (placement.row.text ++ (placement.blanks ++ [placement.direction]))

def value (placement : Placement) : UInt8 × Int × UInt8 :=
  (placement.column, placement.row.value, placement.direction)

theorem unindent_indent (placement : Placement) (rest : List UInt8) :
    unindent (placement.indent ++ placement.column :: rest) = placement.column :: rest := by
  rw [unindent, List.dropWhile_append_of_pos (fun byte member => by
    simpa using placement.spaces byte member), List.dropWhile_cons_of_neg]
  simpa using placement.visible

theorem scan_text (placement : Placement) (unread : List UInt8) :
    scanPlacement (unindent (placement.text ++ unread)) = some (placement.value, unread) := by
  have ends : ∀ byte,
      (placement.blanks ++ [placement.direction] ++ unread).head? = some byte →
        isDigit byte = false := by
    intro byte first
    cases shape : placement.blanks with
    | nil =>
      rw [shape] at first
      cases first
      exact placement.separate shape
    | cons next others =>
      rw [shape] at first
      cases first
      exact blank_not_digit (placement.blank byte (by simp [shape]))
  have row := (scan_int_some _ _ _).mpr ⟨strtoll_numeral placement.row _ ends, placement.range⟩
  have found : (placement.blanks ++ [placement.direction] ++ unread).dropWhile isSpace =
      placement.direction :: unread := by
    rw [List.append_assoc, List.dropWhile_append_of_pos placement.blank, List.singleton_append,
      List.dropWhile_cons_of_neg (by simp [placement.letter])]
  rw [text, List.append_assoc, List.cons_append, unindent_indent, List.append_assoc]
  simp only [scanPlacement, row, found, value]

end Placement

theorem scan_placement_none (column : UInt8) {tail : List UInt8}
    (nothing : ∀ value rest, strtoll tail = some (value, rest) →
      ∀ byte ∈ rest, isSpace byte = true) : scanPlacement (column :: tail) = none := by
  simp only [scanPlacement]
  cases read : scanInt tail with
  | none => rfl
  | some result =>
    obtain ⟨value, rest⟩ := result
    have blank := nothing value rest ((scan_int_some tail rest value).mp read).1
    have empty : rest.dropWhile isSpace = [] := List.dropWhile_eq_nil_iff.mpr blank
    simp only [empty]

theorem Placement.scan_take (placement : Placement) (room : Nat)
    (short : room < placement.text.length) :
    scanPlacement (unindent (placement.text.take room)) = none := by
  have lengths : placement.text.length =
      placement.indent.length + (placement.row.text.length + (placement.blanks.length + 1) + 1) := by
    simp [Placement.text]
  by_cases inIndent : room ≤ placement.indent.length
  · have empty : unindent (placement.indent.take room) = [] := by
      refine List.dropWhile_eq_nil_iff.mpr ?_
      intro byte member
      simpa using placement.spaces byte (List.mem_of_mem_take member)
    rw [Placement.text, List.take_append_of_le_length inIndent, empty]
    rfl
  · obtain ⟨behind, rfl⟩ := Nat.exists_eq_add_of_lt (Nat.lt_of_not_le inIndent)
    rw [Placement.text, Nat.add_assoc, List.take_length_add_append, List.take_succ_cons,
      placement.unindent_indent]
    refine scan_placement_none _ ?_
    intro value rest read
    by_cases inRow : behind < placement.row.text.length
    · rw [List.take_append_of_le_length (Nat.le_of_lt inRow)] at read
      rcases strtoll_take placement.row behind inRow with none | ⟨fewer, shape, _⟩
      · rw [none] at read
        cases read
      · have whole := strtoll_numeral fewer [] (by simp)
        rw [List.append_nil] at whole
        rw [shape, whole] at read
        cases read
        simp
    · obtain ⟨kept, rfl⟩ := Nat.exists_eq_add_of_le (Nat.le_of_not_lt inRow)
      rw [List.take_length_add_append, List.take_append_of_le_length (by omega)] at read
      have blank : ∀ byte ∈ placement.blanks.take kept, isSpace byte = true := fun byte member =>
        placement.blank byte (List.mem_of_mem_take member)
      rw [strtoll_numeral placement.row _ (fun byte first =>
        blank_not_digit (blank byte (List.mem_of_head? first)))] at read
      cases read
      exact blank

theorem scan_placement_parts {text unread : List UInt8} {value : UInt8 × Int × UInt8}
    (read : scanPlacement text = some (value, unread)) :
    ∃ column row rest direction tail, text = column :: tail ∧ scanInt tail = some (row, rest) ∧
      rest.dropWhile isSpace = direction :: unread ∧ value = (column, row, direction) := by
  cases text with
  | nil => cases read
  | cons column tail =>
    simp only [scanPlacement] at read
    cases number : scanInt tail with
    | none => simp [number] at read
    | some result =>
      obtain ⟨row, rest⟩ := result
      cases found : rest.dropWhile isSpace with
      | nil => simp [number, found] at read
      | cons direction others =>
        simp only [number, found, Option.some.injEq, Prod.mk.injEq] at read
        obtain ⟨rfl, rfl⟩ := read
        exact ⟨column, row, rest, direction, tail, rfl, number, found, rfl⟩

theorem scan_placement_shape {text unread : List UInt8} {value : UInt8 × Int × UInt8}
    (read : scanPlacement (unindent text) = some (value, unread)) :
    ∃ placement : Placement, text = placement.text ++ unread ∧ value = placement.value := by
  obtain ⟨column, row, rest, direction, tail, shape, number, found, rfl⟩ :=
    scan_placement_parts read
  obtain ⟨parsed, range⟩ := (scan_int_some tail rest row).mp number
  obtain ⟨numeral, rfl, rfl, ends⟩ := strtoll_shape tail rest row parsed
  have visible : column ≠ space := by
    have other := drop_while_ends (· == space) text column (by rw [← unindent, shape]; rfl)
    simpa using other
  have letter : isSpace direction = false :=
    drop_while_ends isSpace rest direction (by rw [found]; rfl)
  have whole : rest = rest.takeWhile isSpace ++ direction :: unread := by
    rw [← found, List.takeWhile_append_dropWhile]
  refine ⟨{
    indent := text.takeWhile (· == space)
    column := column
    row := numeral
    blanks := rest.takeWhile isSpace
    direction := direction
    spaces := fun byte member => by simpa using List.mem_takeWhile_imp member
    visible := visible
    range := range
    blank := fun byte member => List.mem_takeWhile_imp member
    letter := letter
    separate := fun empty => ends direction (by rw [whole, empty]; rfl) }, ?_, rfl⟩
  have split := List.takeWhile_append_dropWhile (p := (· == space)) (l := text)
  rw [← unindent, shape] at split
  simp only [Placement.text, List.append_assoc, List.cons_append, List.nil_append]
  rw [← whole]
  exact split.symm

/-! ## What reading a field needs -/

def usedNumber (text : List UInt8) : Nat :=
  match scanInt text with
  | some (_, rest) => text.length - rest.length
  | none => text.length

def usedPlacement (text : List UInt8) : Nat :=
  match scanPlacement (unindent text) with
  | some (_, unread) => text.length - unread.length
  | none => text.length

/-- The newline that `fgets` keeps leaves the text short enough to be read. -/
def Roomy (text : List UInt8) : Prop := (thingClean (text ++ [newline])).length ≤ 5

def ruleValue (text : List UInt8) : Option Int := (scanInt (thingClean text)).map Prod.fst

def placementValue (text : List UInt8) : Option (UInt8 × Int × UInt8) :=
  readPlacement (thingClean text)

theorem scan_int_clean (text : List UInt8) :
    (scanInt (thingClean text)).map Prod.fst = (scanInt text).map Prod.fst := by
  have blankSpace : isSpace space = true := by decide
  obtain ⟨front, back, start, ended, shape, _⟩ :=
    trim_shape (squeeze_spaced false text).1
  have copied := congrArg (Option.map Prod.fst) (scan_int_squeeze false text)
  rw [shape, ← thing_clean_eq, Option.map_map] at copied
  have unindented (rest : List UInt8) : scanInt (front ++ rest) = scanInt rest := by
    simp only [scanInt]
    rw [strtoll_blank front rest (by rcases start with rfl | rfl <;> simp [blankSpace])]
  rw [unindented] at copied
  rcases ended with rfl | rfl
  · rw [List.append_nil] at copied
    exact copied
  · rw [scan_int_append_blank _ blankSpace, Option.map_map] at copied
    exact copied

theorem rule_value_clean (text : List UInt8) :
    ruleValue (thingClean text) = (scanInt text).map Prod.fst := by
  rw [ruleValue, thing_clean_again, scan_int_clean]

theorem scan_numeral (numeral : Numeral) (rest : List UInt8)
    (range : -2 ^ 31 ≤ numeral.value ∧ numeral.value < 2 ^ 31)
    (ends : ∀ byte, rest.head? = some byte → isDigit byte = false) :
    scanInt (numeral.text ++ rest) = some (numeral.value, rest) := by
  exact (scan_int_some _ _ _).mpr ⟨strtoll_numeral numeral rest ends, range⟩

theorem scan_cut_numeral {numeral : Numeral} (positive : 0 < numeral.value) {room : Nat}
    (short : room < numeral.text.length) :
    (scanInt (numeral.text.take room)).map Prod.fst ≠ some numeral.value := by
  rcases strtoll_take numeral room short with none | ⟨fewer, shape, sign, lost, nonempty, digits⟩
  · simp [scanInt, none]
  · have plain : numeral.sign ≠ [45] := by
      intro minus
      rw [Numeral.value, if_pos minus] at positive
      omega
    have whole : numeral.value = (decimal (fewer.digits ++ lost) : Int) := by
      rw [Numeral.value, if_neg plain, digits]
    have part : fewer.value = (decimal fewer.digits : Int) := by
      rw [Numeral.value, sign, if_neg plain]
    have less := decimal_shorter fewer.digits lost nonempty (by omega)
    intro same
    obtain ⟨⟨value, rest⟩, read, equal⟩ := Option.map_eq_some_iff.mp same
    have cut := strtoll_numeral fewer [] (by simp)
    rw [List.append_nil] at cut
    rw [shape, scan_int_some, cut] at read
    cases read.1
    omega

theorem rule_reads {piece rest : List UInt8} {value : Int}
    (read : scanInt piece = some (value, rest)) (positive : 0 < value) :
    Reads newline (fun text => ruleValue (thingClean text)) usedNumber (fun _ => True) piece := by
  obtain ⟨parsed, range⟩ := (scan_int_some piece rest value).mp read
  obtain ⟨numeral, shape, rfl, ends⟩ := strtoll_shape piece rest value parsed
  have used : usedNumber piece = numeral.text.length := by
    have length := congrArg List.length shape
    simp only [usedNumber, read]
    rw [List.length_append] at length
    omega
  have here : ruleValue (thingClean piece) = some numeral.value := by
    rw [rule_value_clean piece, read]
    rfl
  have content : 0 < numeral.text.length := by
    have digits := List.length_pos_of_ne_nil numeral.nonempty
    simp only [Numeral.text, List.length_append]
    omega
  refine ⟨by omega, by rw [used, shape]; simp, ?_, ?_⟩
  · intro room bound _
    simp only [here, used]
    rw [rule_value_clean, shape]
    by_cases short : room < numeral.text.length
    · rw [List.take_append_of_le_length (Nat.le_of_lt short)]
      exact iff_of_false (scan_cut_numeral positive short) (by omega)
    · obtain ⟨kept, rfl⟩ := Nat.exists_eq_add_of_le (Nat.le_of_not_lt short)
      rw [List.take_length_add_append, scan_numeral numeral _ range]
      · exact iff_of_true rfl (by omega)
      · intro byte first
        cases rest with
        | nil => simp at first
        | cons next others =>
          cases kept with
          | zero => simp at first
          | succ kept => exact ends byte first
  · simp only [here, iff_true]
    rw [rule_value_clean, shape, List.append_assoc, scan_numeral numeral _ range]
    · rfl
    · intro byte first
      cases rest with
      | nil =>
        cases first
        decide
      | cons next others => exact ends byte first

theorem placement_reads {piece : List UInt8} (read : (placementValue (thingClean piece)).isSome) :
    Reads newline (fun text => placementValue (thingClean text)) usedPlacement Roomy piece := by
  have short : (thingClean piece).length ≤ 5 := by
    by_contra long
    rw [placementValue, read_placement_clean, if_neg long] at read
    cases read
  have parsed : (parsePlacement (unindent piece)).isSome := by
    rwa [placementValue, read_placement_clean, if_pos short] at read
  obtain ⟨⟨value, unread⟩, scanned⟩ :=
    Option.isSome_iff_exists.mp (by simpa [parsePlacement] using parsed)
  obtain ⟨placement, shape, rfl⟩ := scan_placement_shape scanned
  have used : usedPlacement piece = placement.text.length := by
    have length := congrArg List.length shape
    simp only [usedPlacement, scanned]
    rw [List.length_append] at length
    omega
  have here : placementValue (thingClean piece) = some placement.value := by
    rw [placementValue, read_placement_clean, if_pos short, parsePlacement, scanned]
    rfl
  have content : 0 < placement.text.length := by
    simp only [Placement.text, List.length_append, List.length_cons]
    omega
  refine ⟨by omega, by rw [used, shape]; simp, ?_, ?_⟩
  · intro room bound _
    have cut := Nat.le_trans (thing_clean_take_length piece room) short
    simp only [here, used]
    rw [placementValue, read_placement_clean, if_pos cut, parsePlacement, shape]
    by_cases less : room < placement.text.length
    · rw [List.take_append_of_le_length (Nat.le_of_lt less), placement.scan_take room less]
      exact iff_of_false (by simp) (by omega)
    · obtain ⟨kept, rfl⟩ := Nat.exists_eq_add_of_le (Nat.le_of_not_lt less)
      rw [List.take_length_add_append, placement.scan_text]
      exact iff_of_true rfl (by omega)
  · simp only [here]
    rw [placementValue, read_placement_clean, Roomy, parsePlacement]
    have longer : scanPlacement (unindent (piece ++ [newline])) =
        some (placement.value, unread ++ [newline]) := by
      rw [shape, List.append_assoc, placement.scan_text]
    rw [longer]
    split_ifs with fits <;> simp [fits]

end Cprogramming.GameManagement.Placements
