import Cprogramming.Library.CStrings
import Mathlib.Data.List.DropRight

/-!
# The lines of a request

`handle_req` of the request server reads a request into a buffer and prints its lines up
to the first blank one. `chop_line` takes a line off the front of a view of the buffer and
`trim` shortens it at its end; both leave the bytes where they are, so a view is the list
of its bytes. The loop goes on while bytes are left behind a line, and so it never prints
a line at which the buffer ends.
-/

namespace Cprogramming.RequestServer.Lines

open Library.CStrings

set_option autoImplicit false

def newline : UInt8 := 10

def bar : UInt8 := 124

/-! ## Views -/

/-- The index at which the loop of `chop_line` stops. -/
def chopIndex : List UInt8 → Nat
  | [] => 0
  | byte :: rest => if byte = newline then 0 else chopIndex rest + 1

def chopLine (inp : List UInt8) : List UInt8 × List UInt8 :=
  let i := chopIndex inp
  (inp.take i, if i = inp.length then inp.drop inp.length else inp.drop (i + 1))

def trimLength (data : List UInt8) : Nat → Nat
  | 0 => 0
  | len + 1 => if isSpace (data.getD len 0) then trimLength data len else len + 1

def trim (inp : List UInt8) : List UInt8 := inp.take (trimLength inp inp.length)

/-! ## The request -/

inductive Outcome where
  /-- `request_error` jumps back to `main`. -/
  | failed (reason : String)
  /-- What each call of `printf` has printed. -/
  | printed (texts : List (List UInt8))
  deriving DecidableEq

/-- `|%.*s|` ends a line early where it holds a NUL. The precision is an `int`, which has
the lengths up to `REQ_BUF_CAP`. -/
def printLine (line : List UInt8) : List UInt8 :=
  bar :: line.takeWhile (· ≠ 0) ++ [bar, newline]

def handleLines : Nat → List UInt8 → List UInt8 → Option (List (List UInt8))
  | 0, _, _ => none
  | turns + 1, buf, line =>
    if buf.length ≠ 0 ∧ line.length ≠ 0 then
      let (next, rest) := chopLine buf
      (handleLines turns rest (trim next)).map (printLine line :: ·)
    else some []

/-- What `read` puts into the buffer, or the text of its error. -/
abbrev ReadResult : Type := Except String (List UInt8)

def handleReq : ReadResult → Option Outcome
  | .error reason => some (.failed reason)
  | .ok [] => some (.failed "EOF")
  | .ok buf =>
    let (line, rest) := chopLine buf
    (handleLines (buf.length + 1) rest (trim line)).map .printed

def Outcome.shown : Outcome → List (List UInt8)
  | .failed _ => []
  | .printed texts => texts

/-! ## The lines that are asked for -/

/-- The text between newlines; a newline at the end ends a line and begins none. -/
def linesOf (text : List UInt8) : List (List UInt8) :=
  let pieces := text.splitOn newline
  if pieces.getLast? = some [] then pieces.dropLast else pieces

def Blank (line : List UInt8) : Prop := ∀ byte ∈ line, isSpace byte = true

instance (line : List UInt8) : Decidable (Blank line) :=
  inferInstanceAs (Decidable (∀ byte ∈ line, isSpace byte = true))

def beforeBlank (text : List UInt8) : List (List UInt8) :=
  (linesOf text).takeWhile fun line => ¬ Blank line

def framed (line : List UInt8) : List UInt8 :=
  bar :: line.rdropWhile isSpace ++ [bar, newline]

def LinesShown (text : List UInt8) : Prop :=
  ∃ outcome, handleReq (.ok text) = some outcome ∧ outcome.shown = (beforeBlank text).map framed

/-- A request that is not empty has a blank line, and no line before it has a NUL. -/
def EndsBlank (text : List UInt8) : Prop :=
  text = [] ∨ ((∃ line ∈ linesOf text, Blank line) ∧ ∀ line ∈ beforeBlank text, 0 ∉ line)

/-! ## Cutting lines off -/

variable {text : List UInt8}

theorem trim_length_concat {front : List UInt8} (last : UInt8) {len : Nat}
    (inside : len ≤ front.length) : trimLength (front ++ [last]) len = trimLength front len := by
  induction len with
  | zero => rfl
  | succ len ih =>
    rw [trimLength, trimLength, ih (by omega), List.getD_append _ _ _ _ (by omega)]

theorem trim_length_le (data : List UInt8) (len : Nat) : trimLength data len ≤ len := by
  induction len with
  | zero => exact Nat.le_refl 0
  | succ len ih =>
    rw [trimLength]
    split
    · exact Nat.le_succ_of_le ih
    · exact Nat.le_refl _

theorem trim_eq (inp : List UInt8) : trim inp = inp.rdropWhile isSpace := by
  induction inp using List.reverseRecOn with
  | nil => rfl
  | append_singleton front last ih =>
    have final : (front ++ [last]).getD front.length 0 = last := by simp
    rw [trim, List.length_append, List.length_singleton, trimLength, final, List.rdropWhile_concat]
    by_cases space : isSpace last = true
    · rw [if_pos space, if_pos space, trim_length_concat last (Nat.le_refl _),
        List.take_append_of_le_length (trim_length_le front _), ← ih, trim]
    · rw [if_neg space, if_neg space, List.take_of_length_le (by simp)]

theorem trim_blank_iff (line : List UInt8) : trim line = [] ↔ Blank line := by
  rw [trim_eq, List.rdropWhile_eq_nil_iff, Blank]

theorem chop_line_cases (inp : List UInt8) :
    (newline ∉ inp ∧ chopLine inp = (inp, [])) ∨
      ∃ line rest, inp = line ++ newline :: rest ∧ newline ∉ line ∧
        chopLine inp = (line, rest) := by
  have index : (newline ∉ inp ∧ chopIndex inp = inp.length) ∨
      ∃ line rest, inp = line ++ newline :: rest ∧ newline ∉ line ∧
        chopIndex inp = line.length := by
    induction inp with
    | nil => exact Or.inl ⟨List.not_mem_nil, rfl⟩
    | cons byte rest ih =>
      by_cases here : byte = newline
      · refine Or.inr ⟨[], rest, by rw [here]; rfl, List.not_mem_nil, ?_⟩
        rw [chopIndex, if_pos here]
        rfl
      · have skipped : chopIndex (byte :: rest) = chopIndex rest + 1 := by
          rw [chopIndex, if_neg here]
        rcases ih with ⟨absent, length⟩ | ⟨line, behind, shape, absent, length⟩
        · refine Or.inl ⟨?_, by rw [skipped, length]; rfl⟩
          exact List.not_mem_cons_of_ne_of_not_mem (Ne.symm here) absent
        · refine Or.inr ⟨byte :: line, behind, by rw [shape]; rfl, ?_,
            by rw [skipped, length]; rfl⟩
          exact List.not_mem_cons_of_ne_of_not_mem (Ne.symm here) absent
  rcases index with ⟨absent, length⟩ | ⟨line, rest, shape, absent, length⟩
  · refine Or.inl ⟨absent, ?_⟩
    simp only [chopLine, length, List.take_length, if_true, List.drop_length]
  · refine Or.inr ⟨line, rest, shape, absent, ?_⟩
    have short : line.length ≠ inp.length := by
      rw [shape, List.length_append, List.length_cons]
      omega
    simp only [chopLine, length, if_neg short]
    rw [shape, List.take_left', List.drop_append, List.drop_of_length_le (by omega)]
    · simp
    · rfl

theorem lines_of_nil : linesOf [] = [] := by
  rfl

theorem lines_of_chop (present : text ≠ []) :
    linesOf text = (chopLine text).1 :: linesOf (chopLine text).2 := by
  rcases chop_line_cases text with ⟨absent, chopped⟩ | ⟨line, rest, shape, absent, chopped⟩
  · rw [chopped, lines_of_nil, linesOf, List.splitOn_eq_singleton absent]
    simp [present]
  · have pieces : text.splitOn newline = line :: rest.splitOn newline := by
      rw [shape, List.splitOn, List.splitOnP_append_cons line rest (by simp)]
      have single := List.splitOn_eq_singleton absent
      rw [List.splitOn] at single
      rw [single]
      rfl
    have filled := List.splitOn_ne_nil newline rest
    rw [chopped]
    simp only [linesOf, pieces]
    obtain ⟨first, others, same⟩ := List.exists_cons_of_ne_nil filled
    rw [same, List.getLast?_cons_cons, List.dropLast_cons_cons]
    split
    · rfl
    · rfl

theorem chop_line_shorter {inp : List UInt8} (present : inp ≠ []) :
    (chopLine inp).2.length < inp.length := by
  rcases chop_line_cases inp with ⟨_, chopped⟩ | ⟨line, rest, shape, _, chopped⟩
  · rw [chopped]
    exact List.length_pos_of_ne_nil present
  · rw [chopped, shape, List.length_append, List.length_cons]
    change rest.length < _
    omega

/-! ## The loop -/

/-- What is printed of some lines: nothing from a blank line on, and not the last. -/
def printedOf : List (List UInt8) → List (List UInt8)
  | [] => []
  | [_] => []
  | line :: next :: rest =>
    if Blank line then [] else printLine (trim line) :: printedOf (next :: rest)

theorem handle_lines_eq (turns : Nat) (buf line : List UInt8) (enough : buf.length < turns) :
    handleLines turns buf (trim line) = some (printedOf (line :: linesOf buf)) := by
  induction turns generalizing buf line with
  | zero => omega
  | succ turns ih =>
    rw [handleLines]
    by_cases ended : buf = []
    · rw [ended, if_neg (by simp)]
      rfl
    have shorter := chop_line_shorter ended
    rw [lines_of_chop ended, printedOf]
    by_cases blank : Blank line
    · rw [if_pos blank, (trim_blank_iff line).mpr blank, if_neg (by simp)]
    · have shown : ¬ trim line = [] := fun empty => blank ((trim_blank_iff line).mp empty)
      rw [if_neg blank, if_pos ⟨by simpa using ended, by simpa using shown⟩]
      simp only [ih (chopLine buf).2 (chopLine buf).1 (by omega), Option.map_some]

/-- The request is always handled: every turn of the loop leaves a shorter view. -/
theorem handle_req_eq (present : text ≠ []) :
    handleReq (.ok text) = some (.printed (printedOf (linesOf text))) := by
  have handled : handleReq (.ok text) =
      (handleLines (text.length + 1) (chopLine text).2 (trim (chopLine text).1)).map .printed := by
    obtain ⟨byte, rest, rfl⟩ := List.exists_cons_of_ne_nil present
    rfl
  have shorter := chop_line_shorter present
  rw [handled, handle_lines_eq _ _ _ (by omega), ← lines_of_chop present, Option.map_some]

/-! ## The lines that are printed -/

/-- A NUL is not white space, so `trim` keeps every NUL. -/
theorem zero_mem_trim (line : List UInt8) : 0 ∈ line.rdropWhile isSpace ↔ 0 ∈ line := by
  induction line using List.reverseRecOn with
  | nil => rfl
  | append_singleton front last ih =>
    rw [List.rdropWhile_concat]
    by_cases space : isSpace last = true
    · have other : last ≠ 0 := by
        rintro rfl
        cases space
      rw [if_pos space, ih, List.mem_append, List.mem_singleton]
      exact ⟨Or.inl, fun either => either.resolve_right (Ne.symm other)⟩
    · rw [if_neg space]

theorem print_line_eq_iff (line : List UInt8) : printLine (trim line) = framed line ↔ 0 ∉ line := by
  rw [printLine, framed, List.append_left_inj, List.cons_inj_right, trim_eq,
    List.takeWhile_eq_self_iff, ← zero_mem_trim line]
  constructor
  · intro all member
    simpa using all 0 member
  · intro absent byte member
    simpa using ne_of_mem_of_not_mem member absent

theorem printed_of_blank {lines : List (List UInt8)} (blank : ∃ line ∈ lines, Blank line) :
    printedOf lines =
      (lines.takeWhile fun line => ¬ Blank line).map fun line => printLine (trim line) := by
  induction lines with
  | nil =>
    obtain ⟨line, member, _⟩ := blank
    cases member
  | cons line rest ih =>
    by_cases here : Blank line
    · rw [List.takeWhile_cons_of_neg (by simpa using here), List.map_nil]
      cases rest with
      | nil => rfl
      | cons next others => rw [printedOf, if_pos here]
    · have later : ∃ other ∈ rest, Blank other := by
        obtain ⟨other, member, otherBlank⟩ := blank
        rcases List.mem_cons.mp member with rfl | inRest
        · exact absurd otherBlank here
        · exact ⟨other, inRest, otherBlank⟩
      rw [List.takeWhile_cons_of_pos (by simpa using here), List.map_cons, ← ih later]
      cases rest with
      | nil =>
        obtain ⟨other, member, _⟩ := later
        cases member
      | cons next others => rw [printedOf, if_neg here]

theorem printed_of_length {lines : List (List UInt8)} (present : lines ≠ [])
    (filled : ∀ line ∈ lines, ¬ Blank line) : (printedOf lines).length + 1 = lines.length := by
  induction lines with
  | nil => exact absurd rfl present
  | cons line rest ih =>
    rw [List.forall_mem_cons] at filled
    cases rest with
    | nil => rfl
    | cons next others =>
      rw [printedOf, if_neg filled.1, List.length_cons, ih (List.cons_ne_nil _ _) filled.2]
      rfl

theorem lines_of_ne_nil (present : text ≠ []) : linesOf text ≠ [] := by
  rw [lines_of_chop present]
  exact List.cons_ne_nil _ _

/-- The lines before the first blank one are shown exactly if there is such a line, or no
text at all, and no NUL before it. -/
theorem lines_shown_iff (text : List UInt8) : LinesShown text ↔ EndsBlank text := by
  by_cases empty : text = []
  · subst empty
    exact ⟨fun _ => Or.inl rfl, fun _ => ⟨.failed "EOF", rfl, rfl⟩⟩
  have shown : LinesShown text ↔ printedOf (linesOf text) = (beforeBlank text).map framed := by
    rw [LinesShown, handle_req_eq empty]
    constructor
    · rintro ⟨outcome, same, right⟩
      cases same
      exact right
    · intro right
      exact ⟨_, rfl, right⟩
  rw [shown, EndsBlank, or_iff_right empty]
  by_cases blank : ∃ line ∈ linesOf text, Blank line
  · rw [printed_of_blank blank, ← beforeBlank, List.map_inj_left, and_iff_right blank]
    exact forall₂_congr fun line _ => print_line_eq_iff line
  · have filled : ∀ line ∈ linesOf text, ¬ Blank line :=
      fun line member lineBlank => blank ⟨line, member, lineBlank⟩
    have all : beforeBlank text = linesOf text := by
      rw [beforeBlank, List.takeWhile_eq_self_iff]
      intro line member
      simpa using filled line member
    constructor
    · intro same
      have lengths := congrArg List.length same
      have short := printed_of_length (lines_of_ne_nil empty) filled
      rw [all, List.length_map] at lengths
      omega
    · intro right
      exact absurd right.1 blank

/-- The bytes of `"GET /\n"`. -/
def oneLine : List UInt8 := [71, 69, 84, 32, 47, 10]

/-- A request of one line: the buffer ends with it, and it is not printed. -/
theorem only_line_lost :
    handleReq (.ok oneLine) = some (.printed []) ∧
      (beforeBlank oneLine).map framed = [[124, 71, 69, 84, 32, 47, 124, 10]] ∧
      ¬ LinesShown oneLine := by
  have handled : handleReq (.ok oneLine) = some (.printed []) := by decide
  have asked : (beforeBlank oneLine).map framed = [[124, 71, 69, 84, 32, 47, 124, 10]] := by
    decide
  refine ⟨handled, asked, ?_⟩
  rintro ⟨outcome, same, right⟩
  rw [handled] at same
  cases same
  rw [asked] at right
  cases right

end Cprogramming.RequestServer.Lines
