import Cprogramming.Containers.Stacks
import Cprogramming.Library.Decimals
import Cprogramming.Library.MachineWords

/-!
# The postfix calculator

`derpcalc.c` on the linked list stack. The words between single spaces are taken one
after the other: an operator replaces the two topmost numbers, any other word is read
as a number. The text of an expression tree leaves the value of the tree.
-/

namespace Cprogramming.Containers.Calculator

open Library.CStrings Library.Decimals Library.MachineWords Stacks

set_option autoImplicit false

/-! ## Arithmetic of int -/

def InRange (value : Int) : Prop := -2 ^ 31 ≤ value ∧ value < 2 ^ 31

instance (value : Int) : Decidable (InRange value) :=
  inferInstanceAs (Decidable (-2 ^ 31 ≤ value ∧ value < 2 ^ 31))

/-- A result that does not fit is undefined. -/
def fitting (value : Int) : Option Int := if InRange value then some value else none

inductive Operator where
  | plus
  | minus
  | times
  | divide
deriving DecidableEq

def Operator.apply : Operator → Int → Int → Option Int
  | .plus, a, b => fitting (a + b)
  | .minus, a, b => fitting (a - b)
  | .times, a, b => fitting (a * b)
  | .divide, a, b => if b = 0 then none else fitting (a.tdiv b)

/-! ## The program -/

inductive Ending where
  | success
  | usage
  | underflow
  | undefined
  | aborted
deriving DecidableEq

structure Outcome where
  output : List UInt8
  ending : Ending
deriving DecidableEq

/-- `strtol`, which is zero without digits. -/
def strtol (token : List UInt8) : Int :=
  max (-2 ^ 63) (min (2 ^ 63 - 1) (((strtoll token).map Prod.fst).getD 0))

def orAbort {Result : Type} (result : Option Result) : Except Ending Result :=
  match result with
  | none => .error .aborted
  | some value => .ok value

def operate (stack : LinkedStack Int) (operator : Operator) : Except Ending (LinkedStack Int) := do
  let size ← orAbort stack.stackSize
  if size < 2 then throw .underflow
  let (stack, b) ← orAbort stack.stackPop
  let (stack, a) ← orAbort stack.stackPop
  match operator.apply a b with
  | none => throw .undefined
  | some value => orAbort (stack.stackPush value)

def take (stack : LinkedStack Int) (token : List UInt8) : Except Ending (LinkedStack Int) :=
  if strcmp token (bytesOf "+") = 0 then operate stack .plus
  else if strcmp token (bytesOf "-") = 0 then operate stack .minus
  else if strcmp token (bytesOf "*") = 0 then operate stack .times
  else if strcmp token (bytesOf "/") = 0 then operate stack .divide
  else orAbort (stack.stackPush (int32 (strtol token)))

/-- The words that `strsep` returns until it returns the null pointer, empty ones
included. -/
def tokens (expr : List UInt8) : List (List UInt8) := expr.splitOn 32

def calculate (stack : LinkedStack Int) (words : List (List UInt8)) :
    Except Ending (LinkedStack Int) :=
  words.foldlM take stack

/-- What is printed behind the loop, by `stack_drop` too. -/
def report (stack : LinkedStack Int) : Except Ending (List UInt8) := do
  let size ← orAbort stack.stackSize
  if size = 1 then
    let (stack, result) ← orAbort stack.stackPop
    let message ← orAbort stack.stackDrop
    return printSigned result ++ bytesOf "\n" ++ message
  else
    let message ← orAbort stack.stackDrop
    return bytesOf "[non-empty stack]\n" ++ message

def main (arguments : List CString) : Outcome :=
  match arguments with
  | [expr] =>
    match (calculate LinkedStack.stackNew (tokens expr.bytes)).bind report with
    | .ok output => ⟨output, .success⟩
    | .error ending => ⟨[], ending⟩
  | _ => ⟨[], .usage⟩

/-! ## Expression trees -/

inductive Expr where
  | constant (value : { value : Int // InRange value })
  | binary (operator : Operator) (left right : Expr)

def Expr.eval : Expr → Option Int
  | .constant value => some value.val
  | .binary operator left right =>
    left.eval.bind fun a => right.eval.bind fun b => operator.apply a b

def Operator.word : Operator → List UInt8
  | .plus => bytesOf "+"
  | .minus => bytesOf "-"
  | .times => bytesOf "*"
  | .divide => bytesOf "/"

/-- The operands and behind them the operator, with single spaces. -/
def Expr.text : Expr → List UInt8
  | .constant value => printSigned value.val
  | .binary operator left right => left.text ++ 32 :: (right.text ++ 32 :: operator.word)

def Expr.words : Expr → List (List UInt8)
  | .constant value => [printSigned value.val]
  | .binary operator left right => left.words ++ (right.words ++ [operator.word])

theorem digit_range {byte : UInt8} (printed : byte = 45 ∨ isDigit byte = true) :
    byte ≠ 0 ∧ byte ≠ 32 := by
  rcases printed with rfl | digit
  · decide
  · constructor
    · rintro rfl
      exact absurd digit (by decide)
    · rintro rfl
      exact absurd digit (by decide)

theorem word_bytes (operator : Operator) : 0 ∉ operator.word ∧ 32 ∉ operator.word := by
  cases operator <;> decide

theorem text_nul_free (expression : Expr) : 0 ∉ expression.text := by
  induction expression with
  | constant value =>
    intro member
    exact (digit_range (print_signed_bytes value.val 0 member)).1 rfl
  | binary operator left right leftIh rightIh =>
    have zero : (0 : UInt8) ≠ 32 := by decide
    simp [Expr.text, leftIh, rightIh, zero, (word_bytes operator).1]

def Expr.string (expression : Expr) : CString := ⟨expression.text, text_nul_free expression⟩

theorem tokens_text (expression : Expr) : tokens expression.text = expression.words := by
  induction expression with
  | constant value =>
    apply List.splitOn_eq_singleton
    intro member
    exact (digit_range (print_signed_bytes value.val 32 member)).2 rfl
  | binary operator left right leftIh rightIh =>
    have last : operator.word.splitOn 32 = [operator.word] :=
      List.splitOn_eq_singleton (word_bytes operator).2
    have behind : (right.text ++ 32 :: operator.word).splitOn 32 =
        right.text.splitOn 32 ++ operator.word.splitOn 32 :=
      List.splitOnP_append_cons _ _ (by simp)
    have split : (left.text ++ 32 :: (right.text ++ 32 :: operator.word)).splitOn 32 =
        left.text.splitOn 32 ++ (right.text ++ 32 :: operator.word).splitOn 32 :=
      List.splitOnP_append_cons _ _ (by simp)
    unfold tokens at leftIh rightIh ⊢
    rw [Expr.text, split, behind, leftIh, rightIh, last]
    rfl

/-! ## The words of a tree on a stack -/

variable {value : Int} {stack : LinkedStack Int} {held : List Int}

theorem number_no_operator (value : Int) (operator : Operator) :
    strcmp (printSigned value) operator.word ≠ 0 := by
  have read := strtoll_print_signed value [] (by simp)
  intro same
  have nulFree : 0 ∉ printSigned value := fun member =>
    (digit_range (print_signed_bytes value 0 member)).1 rfl
  have equal := (strcmp_eq_zero_iff ⟨printSigned value, nulFree⟩
    ⟨operator.word, (word_bytes operator).1⟩).mp same
  have bytes : printSigned value = operator.word := congrArg CString.bytes equal
  rw [List.append_nil, bytes] at read
  cases operator <;> cases read

theorem read_constant (fits : InRange value) : int32 (strtol (printSigned value)) = value := by
  have read := strtoll_print_signed value [] (by simp)
  rw [List.append_nil] at read
  obtain ⟨low, high⟩ := fits
  rw [strtol, read, Option.map_some, Option.getD_some, min_eq_right (by omega),
    max_eq_right (by omega), int32_exact value low high]

theorem take_constant (links : Links stack held) (fits : InRange value) :
    ∃ next, take stack (printSigned value) = .ok next ∧ Links next (held ++ [value]) := by
  obtain ⟨next, pushed, kept⟩ := linked_push stack held value links
  refine ⟨next, ?_, kept⟩
  have plus : ¬ strcmp (printSigned value) (bytesOf "+") = 0 := number_no_operator value .plus
  have minus : ¬ strcmp (printSigned value) (bytesOf "-") = 0 := number_no_operator value .minus
  have times : ¬ strcmp (printSigned value) (bytesOf "*") = 0 := number_no_operator value .times
  have divide : ¬ strcmp (printSigned value) (bytesOf "/") = 0 := number_no_operator value .divide
  rw [take, if_neg plus, if_neg minus, if_neg times, if_neg divide, read_constant fits, pushed]
  rfl

theorem take_operator (stack : LinkedStack Int) (operator : Operator) :
    take stack operator.word = operate stack operator := by
  cases operator <;> rfl

theorem operate_links {a b : Int} (links : Links stack (held ++ [a] ++ [b])) {operator : Operator}
    (applied : operator.apply a b = some value) :
    ∃ next, operate stack operator = .ok next ∧ Links next (held ++ [value]) := by
  have size := linked_size stack _ links
  obtain ⟨second, poppedB, secondLinks⟩ := linked_pop stack _ _ links
  obtain ⟨third, poppedA, thirdLinks⟩ := linked_pop second _ _ secondLinks
  obtain ⟨next, pushed, kept⟩ := linked_push third held value thirdLinks
  have enough : ¬ (held ++ [a] ++ [b]).length < 2 := by
    simp only [List.length_append, List.length_singleton]
    omega
  refine ⟨next, ?_, kept⟩
  simp only [operate, size, orAbort, bind, Except.bind, if_neg enough, poppedB, poppedA, applied,
    pushed]

theorem calculate_words (expression : Expr) (value : Int)
    (evaluated : expression.eval = some value) (rest : List (List UInt8))
    (stack : LinkedStack Int) (held : List Int) (links : Links stack held) :
    ∃ next, Links next (held ++ [value]) ∧
      calculate stack (expression.words ++ rest) = calculate next rest := by
  induction expression generalizing value rest stack held with
  | constant number =>
    cases evaluated
    obtain ⟨next, taken, kept⟩ := take_constant links number.property
    refine ⟨next, kept, ?_⟩
    rw [Expr.words, List.singleton_append, calculate, List.foldlM_cons, taken]
    rfl
  | binary operator left right leftIh rightIh =>
    obtain ⟨a, leftValue, behind⟩ := Option.bind_eq_some_iff.mp evaluated
    obtain ⟨b, rightValue, applied⟩ := Option.bind_eq_some_iff.mp behind
    rw [Expr.words, List.append_assoc, List.append_assoc]
    obtain ⟨second, secondLinks, leftRun⟩ :=
      leftIh a leftValue (right.words ++ ([operator.word] ++ rest)) stack held links
    obtain ⟨third, thirdLinks, rightRun⟩ :=
      rightIh b rightValue ([operator.word] ++ rest) second _ secondLinks
    obtain ⟨next, operated, kept⟩ :=
      operate_links thirdLinks applied
    refine ⟨next, kept, ?_⟩
    rw [leftRun, rightRun, List.singleton_append, calculate, List.foldlM_cons, take_operator,
      operated]
    rfl

theorem report_single (links : Links stack [value]) :
    report stack = .ok (printSigned value ++ bytesOf "\n") := by
  have size := linked_size stack _ links
  obtain ⟨next, popped, kept⟩ := linked_pop stack [] value links
  have dropped := linked_drop kept
  simp only [report, size, popped, dropped, orAbort, bind, Except.bind, List.length_singleton,
    if_true, List.append_nil]
  rfl

/-- The calculator prints the value of every tree that has one. -/
theorem calculator_prints_value (expression : Expr) (value : Int)
    (evaluated : expression.eval = some value) :
    main [expression.string] = ⟨printSigned value ++ bytesOf "\n", .success⟩ := by
  obtain ⟨next, links, run⟩ := calculate_words expression value evaluated [] LinkedStack.stackNew
    [] linked_new
  rw [List.append_nil] at run
  have ended : calculate next [] = .ok next := rfl
  have words : tokens expression.string.bytes = expression.words := tokens_text expression
  simp only [main, words, run, ended, Except.bind, report_single links]

/-- `7 -3 - 2 * -6 /` is the number -3. -/
def sample : Expr :=
  .binary .divide
    (.binary .times
      (.binary .minus (.constant ⟨7, by decide⟩) (.constant ⟨-3, by decide⟩))
      (.constant ⟨2, by decide⟩))
    (.constant ⟨-6, by decide⟩)

theorem sample_printed :
    sample.eval = some (-3) ∧ main [sample.string] = ⟨bytesOf "-3\n", .success⟩ := by
  have evaluated : sample.eval = some (-3) := by decide
  exact ⟨evaluated, calculator_prints_value sample (-3) evaluated⟩

/-! ## Every text -/

/-- The size is tested before two numbers are taken, so no pop finds the stack empty. -/
theorem operate_never_aborts (links : Links stack held) (operator : Operator) :
    (∃ next after, operate stack operator = .ok next ∧ Links next after) ∨
      operate stack operator = .error .underflow ∨ operate stack operator = .error .undefined := by
  have size := linked_size stack held links
  by_cases few : held.length < 2
  · refine Or.inr (Or.inl ?_)
    simp only [operate, size, orAbort, bind, Except.bind, if_pos few]
    rfl
  · rcases List.eq_nil_or_concat held with rfl | ⟨front, b, rfl⟩
    · exact absurd (Nat.succ_pos 1) few
    · rcases List.eq_nil_or_concat front with rfl | ⟨below, a, rfl⟩
      · exact absurd (Nat.lt_succ_self 1) few
      · simp only [List.concat_eq_append] at links size few
        cases applied : operator.apply a b with
        | some value =>
          obtain ⟨next, operated, kept⟩ :=
            operate_links links applied
          exact Or.inl ⟨next, _, operated, kept⟩
        | none =>
          obtain ⟨second, poppedB, secondLinks⟩ := linked_pop stack _ _ links
          obtain ⟨third, poppedA, _⟩ := linked_pop second _ _ secondLinks
          refine Or.inr (Or.inr ?_)
          simp only [operate, size, orAbort, bind, Except.bind, if_neg few, poppedB, poppedA,
            applied]
          rfl

theorem take_never_aborts (stack : LinkedStack Int) (held : List Int) (links : Links stack held)
    (token : List UInt8) :
    (∃ next after, take stack token = .ok next ∧ Links next after) ∨
      take stack token = .error .underflow ∨ take stack token = .error .undefined := by
  unfold take
  split_ifs
  · exact operate_never_aborts links .plus
  · exact operate_never_aborts links .minus
  · exact operate_never_aborts links .times
  · exact operate_never_aborts links .divide
  · obtain ⟨next, pushed, kept⟩ := linked_push stack held (int32 (strtol token)) links
    rw [pushed]
    exact Or.inl ⟨next, _, rfl, kept⟩

theorem calculate_never_aborts (stack : LinkedStack Int) (held : List Int)
    (links : Links stack held) (words : List (List UInt8)) :
    (∃ next after, calculate stack words = .ok next ∧ Links next after) ∨
      calculate stack words = .error .underflow ∨ calculate stack words = .error .undefined := by
  induction words generalizing stack held with
  | nil => exact Or.inl ⟨stack, held, rfl, links⟩
  | cons word rest ih =>
    rw [calculate, List.foldlM_cons]
    rcases take_never_aborts stack held links word with ⟨next, after, taken, kept⟩ | failed
    · rw [taken]
      exact ih next after kept
    · rcases failed with underflow | undefined
      · rw [underflow]
        exact Or.inr (Or.inl rfl)
      · rw [undefined]
        exact Or.inr (Or.inr rfl)

theorem report_never_fails (links : Links stack held) : ∃ output, report stack = .ok output := by
  by_cases single : held.length = 1
  · obtain ⟨value, rfl⟩ := List.length_eq_one_iff.mp single
    exact ⟨_, report_single links⟩
  · have size := linked_size stack held links
    have dropped := linked_drop links
    simp only [report, size, dropped, orAbort, bind, Except.bind, if_neg single]
    exact ⟨_, rfl⟩

theorem main_never_aborts (arguments : List CString) : (main arguments).ending ≠ .aborted := by
  unfold main
  split
  · rename_i expr
    rcases calculate_never_aborts LinkedStack.stackNew [] linked_new (tokens expr.bytes) with
      ⟨next, after, done, links⟩ | underflow | undefined
    · obtain ⟨output, reported⟩ := report_never_fails links
      simp [done, Except.bind, reported]
    · simp [underflow, Except.bind]
    · simp [undefined, Except.bind]
  · simp

end Cprogramming.Containers.Calculator
