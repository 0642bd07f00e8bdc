import Cprogramming.Library.CStrings

/-!
# The recursive descent parser

`recursive_descent.c`: the functions of a grammar over one cursor, which is the bytes
from `next` on. An alternative that has succeeded is not left again, so a term is
never more than its first digit, and an expression in brackets would have to end at
the end of the text.
-/

namespace Cprogramming.LexYacc.RecursiveDescent

open Library.CStrings

set_option autoImplicit false

/-! ## Tokens -/

def plus : UInt8 := 43

def times : UInt8 := 42

def openBracket : UInt8 := 40

def closeBracket : UInt8 := 41

/-! ## The functions of the parser -/

/-- What a function returns and where it leaves `next`. There is no result for a read
behind the end of the text, and none if the recursion goes deeper than the fuel. -/
abbrev Parser : Type := List UInt8 → Option (Bool × List UInt8)

/-- A test of `*next++`. -/
def token (test : UInt8 → Bool) : Parser
  | [] => none
  | byte :: rest => some (test byte, rest)

/-- `*next == '\0'`. -/
def atEnd : Parser
  | [] => none
  | byte :: rest => some (byte == 0, byte :: rest)

def Parser.and (first second : Parser) : Parser := fun next =>
  (first next).bind fun (matched, after) => if matched then second after else some (false, after)

/-- The operator `||` between alternatives, each of which starts where `save` is. -/
def Parser.or (first second : Parser) : Parser := fun save =>
  (first save).bind fun (matched, after) => if matched then some (true, after) else second save

def T1 : Parser := token isDigit

def T2 (T : Parser) : Parser := ((token isDigit).and (token (· == times))).and T

def T3 (E : Parser) : Parser :=
  ((token (· == openBracket)).and E).and (token (· == closeBracket))

def E1 (T : Parser) : Parser := T

def E2 (T E : Parser) : Parser := (T.and (token (· == plus))).and E

mutual

def E : Nat → Parser
  | 0 => fun _ => none
  | fuel + 1 => ((E1 (T fuel)).and atEnd).or ((E2 (T fuel) (E fuel)).and atEnd)

def T : Nat → Parser
  | 0 => fun _ => none
  | fuel + 1 => T1.or ((T2 (T fuel)).or (T3 (E fuel)))

end

def main (fuel : Nat) (text : CString) : Option Bool :=
  (((E fuel).and atEnd) text.terminated).map Prod.fst

/-! ## The grammar -/

mutual

inductive DerivesE : List UInt8 → Prop
  | term (word : List UInt8) : DerivesT word → DerivesE word
  | sum (left right : List UInt8) : DerivesT left → DerivesE right →
      DerivesE (left ++ plus :: right)

inductive DerivesT : List UInt8 → Prop
  | int (digit : UInt8) : isDigit digit = true → DerivesT [digit]
  | product (digit : UInt8) (word : List UInt8) : isDigit digit = true → DerivesT word →
      DerivesT (digit :: times :: word)
  | brackets (word : List UInt8) : DerivesE word →
      DerivesT (openBracket :: (word ++ [closeBracket]))

end

/-! ## What the parser accepts -/

variable (first second : Parser)

variable {next after word : List UInt8} {fuel : Nat}

def plainSum : List UInt8 → Bool
  | [] => false
  | [digit] => isDigit digit
  | digit :: sign :: rest => isDigit digit && sign == plus && plainSum rest

/-- The parser ends with this answer, and after a success with `next` there. -/
def Ends (result : Option (Bool × List UInt8)) (matched : Bool) (after : List UInt8) : Prop :=
  ∃ next, result = some (matched, next) ∧ (matched = true → next = after)

theorem ends_false (next after : List UInt8) : Ends (some (false, next)) false after := by
  exact ⟨next, rfl, fun impossible => by cases impossible⟩

theorem and_matched (matched : first next = some (true, after)) :
    (first.and second) next = second after := by
  simp [Parser.and, matched]

theorem and_failed (failed : first next = some (false, after)) :
    (first.and second) next = some (false, after) := by
  simp [Parser.and, failed]

theorem or_matched (matched : first next = some (true, after)) :
    (first.or second) next = some (true, after) := by
  simp [Parser.or, matched]

theorem or_failed (failed : first next = some (false, after)) :
    (first.or second) next = second next := by
  simp [Parser.or, failed]

/-- A term is one digit: the first alternative takes it, and no other can succeed. -/
theorem term_ends (fuel : Nat) (word : List UInt8)
    (inner : ∀ rest, word = openBracket :: rest → Ends (E fuel (rest ++ [0])) (plainSum rest) [0]) :
    Ends (T (fuel + 1) (word ++ [0])) (word.head?.any isDigit) (word.tail ++ [0]) := by
  cases word with
  | nil => exact ends_false _ _
  | cons byte rest =>
    rw [T]
    by_cases digit : isDigit byte = true
    · have first : T1 (byte :: rest ++ [0]) = some (true, rest ++ [0]) := by
        simp [T1, token, digit]
      rw [or_matched _ _ first]
      exact ⟨_, by simp [digit], fun _ => rfl⟩
    · have first : T1 (byte :: rest ++ [0]) = some (false, rest ++ [0]) := by
        simp [T1, token, digit]
      have second : T2 (T fuel) (byte :: rest ++ [0]) = some (false, rest ++ [0]) := by
        rw [T2]
        exact and_failed _ _ (and_failed _ _ first)
      have refused : (byte :: rest).head?.any isDigit = false := by simp [digit]
      rw [or_failed _ _ first, or_failed _ _ second, refused, T3]
      by_cases bracket : byte = openBracket
      · subst bracket
        have opened : token (· == openBracket) (openBracket :: rest ++ [0]) =
            some (true, rest ++ [0]) := by
          simp [token]
        obtain ⟨next, parsed, whole⟩ := inner rest rfl
        cases sum : plainSum rest with
        | true =>
          -- The expression has been followed to the end of the text, where no
          -- bracket closes.
          rw [sum] at parsed whole
          rw [whole rfl] at parsed
          rw [and_matched _ _ ((and_matched _ _ opened).trans parsed)]
          exact ends_false _ _
        | false =>
          rw [sum] at parsed
          rw [and_failed _ _ ((and_matched _ _ opened).trans parsed)]
          exact ends_false _ _
      · have closed : token (· == openBracket) (byte :: rest ++ [0]) =
            some (false, rest ++ [0]) := by
          simp [token, bracket]
        rw [and_failed _ _ (and_failed _ _ closed)]
        exact ends_false _ _

theorem expression_digit {digit : UInt8} {rest : List UInt8} (real : isDigit digit = true)
    (visible : ∀ byte ∈ rest, byte ≠ 0)
    (term : T fuel (digit :: rest ++ [0]) = some (true, rest ++ [0]))
    (later : ∀ sign others, rest = sign :: others →
      Ends (E fuel (others ++ [0])) (plainSum others) [0]) :
    Ends (E (fuel + 1) (digit :: rest ++ [0])) (plainSum (digit :: rest)) [0] := by
  rw [E, E1]
  cases rest with
  | nil =>
    have whole : ((T fuel).and atEnd) [digit, 0] = some (true, [0]) := by
      exact and_matched _ _ term
    rw [show digit :: [] ++ [0] = [digit, 0] from rfl, or_matched _ _ whole]
    exact ⟨[0], by simp [plainSum, real], fun _ => rfl⟩
  | cons sign others =>
    have more : ((T fuel).and atEnd) (digit :: sign :: others ++ [0]) =
        some (false, sign :: others ++ [0]) := by
      rw [and_matched _ _ term]
      simp [atEnd, visible sign List.mem_cons_self]
    rw [or_failed _ _ more, E2]
    by_cases added : sign = plus
    · subst added
      have signed : ((T fuel).and (token (· == plus))) (digit :: plus :: others ++ [0]) =
          some (true, others ++ [0]) := by
        rw [and_matched _ _ term]
        simp [token]
      have same : plainSum (digit :: plus :: others) = plainSum others := by
        simp [plainSum, real]
      obtain ⟨next, parsed, whole⟩ := later plus others rfl
      rw [same]
      cases sum : plainSum others with
      | true =>
        rw [sum] at parsed whole
        rw [whole rfl] at parsed
        rw [and_matched _ _ ((and_matched _ _ signed).trans parsed)]
        exact ⟨[0], rfl, fun _ => rfl⟩
      | false =>
        rw [sum] at parsed
        rw [and_failed _ _ ((and_matched _ _ signed).trans parsed)]
        exact ends_false _ _
    · have unsigned : ((T fuel).and (token (· == plus))) (digit :: sign :: others ++ [0]) =
          some (false, others ++ [0]) := by
        rw [and_matched _ _ term]
        simp [token, added]
      have refused : plainSum (digit :: sign :: others) = false := by
        simp [plainSum, added]
      rw [refused, and_failed _ _ (and_failed _ _ unsigned)]
      exact ends_false _ _

theorem expression_refused (term : T fuel (word ++ [0]) = some (false, next))
    (sum : plainSum word = false) : Ends (E (fuel + 1) (word ++ [0])) (plainSum word) [0] := by
  rw [E, E1, or_failed _ _ (and_failed _ _ term), E2, sum,
    and_failed _ _ (and_failed _ _ (and_failed _ _ term))]
  exact ends_false _ _

theorem plain_sum_head (first : word.head?.any isDigit = false) : plainSum word = false := by
  cases word with
  | nil => rfl
  | cons byte rest =>
    have other : isDigit byte = false := by simpa using first
    cases rest with
    | nil => exact other
    | cons sign others => simp [plainSum, other]

/-- With fuel for two calls a byte the parser ends, and accepts the plain sums. -/
theorem expression_ends (fuel : Nat) (word : List UInt8) (visible : ∀ byte ∈ word, byte ≠ 0)
    (enough : 2 * word.length + 2 ≤ fuel) : Ends (E fuel (word ++ [0])) (plainSum word) [0] := by
  -- The induction is on the length; a bracket or a plus leaves a shorter text.
  induction length : word.length using Nat.strong_induction_on generalizing fuel word with
  | _ count shorter =>
    obtain ⟨fuel, rfl⟩ : ∃ less, fuel = less + 2 := ⟨fuel - 2, by omega⟩
    have inside : ∀ (less : Nat) (rest : List UInt8), 2 * rest.length + 2 ≤ less →
        rest.length < count → (∀ byte ∈ rest, byte ∈ word) →
        Ends (E less (rest ++ [0])) (plainSum rest) [0] := by
      intro less rest room fewer among
      exact shorter rest.length fewer less rest
        (fun byte member => visible byte (among byte member)) room rfl
    have term := term_ends fuel word (by
      rintro rest rfl
      simp only [List.length_cons] at length enough
      exact inside fuel rest (by omega) (by omega)
        (fun byte member => List.mem_cons_of_mem _ member))
    obtain ⟨next, parsed, after⟩ := term
    cases first : word.head?.any isDigit with
    | false =>
      rw [first] at parsed
      exact expression_refused parsed (plain_sum_head first)
    | true =>
      cases word with
      | nil => cases first
      | cons digit rest =>
        rw [first] at parsed after
        rw [after rfl] at parsed
        refine expression_digit (by simpa using first)
          (fun byte member => visible byte (List.mem_cons_of_mem _ member)) parsed ?_
        rintro sign others rfl
        simp only [List.length_cons] at length enough
        exact inside _ others (by omega) (by omega)
          (fun byte member => List.mem_cons_of_mem _ (List.mem_cons_of_mem _ member))

theorem main_value {text : CString} (enough : 2 * text.bytes.length + 2 ≤ fuel) :
    main fuel text = some (plainSum text.bytes) := by
  have visible : ∀ byte ∈ text.bytes, byte ≠ 0 := by
    rintro byte member rfl
    exact text.nulFree member
  obtain ⟨next, parsed, whole⟩ := expression_ends fuel text.bytes visible enough
  rw [main, CString.terminated]
  cases sum : plainSum text.bytes with
  | true =>
    rw [sum] at parsed whole
    rw [whole rfl] at parsed
    rw [and_matched _ _ parsed]
    rfl
  | false =>
    rw [sum] at parsed
    rw [and_failed _ _ parsed]
    rfl

/-! ## Parser and grammar -/

/-- Neither a product nor brackets. -/
def Plain (word : List UInt8) : Prop := times ∉ word ∧ openBracket ∉ word

theorem plain_sum_derived (sum : plainSum word = true) : DerivesE word ∧ Plain word := by
  have signs : ∀ byte, isDigit byte = true → times ≠ byte ∧ openBracket ≠ byte := by
    intro byte digit
    constructor <;> rintro rfl <;> exact absurd digit (by decide)
  induction word using plainSum.induct with
  | case1 => cases sum
  | case2 digit =>
    obtain ⟨noTimes, noBracket⟩ := signs digit sum
    exact ⟨.term _ (.int digit sum), by simpa using noTimes, by simpa using noBracket⟩
  | case3 digit sign rest ih =>
    simp only [plainSum, Bool.and_eq_true, beq_iff_eq] at sum
    obtain ⟨⟨real, rfl⟩, later⟩ := sum
    obtain ⟨derived, timesLater, bracketLater⟩ := ih later
    obtain ⟨noTimes, noBracket⟩ := signs digit real
    have notPlus : times ≠ plus ∧ openBracket ≠ plus := by decide
    refine ⟨.sum [digit] rest (.int digit real) derived, ?_, ?_⟩
    · simp [noTimes, notPlus.1, timesLater]
    · simp [noBracket, notPlus.2, bracketLater]

theorem plain_term (word : List UInt8) (derived : DerivesT word) (plain : Plain word) :
    ∃ digit, word = [digit] ∧ isDigit digit = true := by
  cases derived with
  | int digit real => exact ⟨digit, rfl, real⟩
  | product digit rest real later => exact absurd (by simp) plain.1
  | brackets inner later => exact absurd List.mem_cons_self plain.2

theorem derived_plain_sum (word : List UInt8) (derived : DerivesE word) (plain : Plain word) :
    plainSum word = true := by
  induction length : word.length using Nat.strong_induction_on generalizing word with
  | _ count shorter =>
    cases derived with
    | term _ term =>
      obtain ⟨digit, rfl, real⟩ := plain_term word term plain
      exact real
    | sum left right term later =>
      have noTimes : times ∉ left ∧ times ∉ right := by
        have whole := plain.1
        simp only [List.mem_append, List.mem_cons, not_or] at whole
        exact ⟨whole.1, whole.2.2⟩
      have noBracket : openBracket ∉ left ∧ openBracket ∉ right := by
        have whole := plain.2
        simp only [List.mem_append, List.mem_cons, not_or] at whole
        exact ⟨whole.1, whole.2.2⟩
      obtain ⟨digit, rfl, real⟩ := plain_term left term ⟨noTimes.1, noBracket.1⟩
      have rest := shorter right.length (by simp at length; omega) right later
        ⟨noTimes.2, noBracket.2⟩ rfl
      simp [plainSum, real, rest]

/-- The parser ends on every text, and its verdict is the grammar's exactly if the text
is not derived or has neither products nor brackets. -/
theorem verdict_of_grammar_iff (text : CString) (fuel : Nat)
    (enough : 2 * text.bytes.length + 2 ≤ fuel) :
    ∃ verdict, main fuel text = some verdict ∧
      ((verdict = true ↔ DerivesE text.bytes) ↔ (DerivesE text.bytes → Plain text.bytes)) := by
  refine ⟨plainSum text.bytes, main_value enough, ?_⟩
  constructor
  · intro same derived
    exact (plain_sum_derived (same.mpr derived)).2
  · intro plain
    constructor
    · intro sum
      exact (plain_sum_derived sum).1
    · intro derived
      exact derived_plain_sum text.bytes derived (plain derived)

def sumText : CString := ⟨[49, 43, 50], by decide⟩

theorem sum_accepted :
    ∃ verdict, main 8 sumText = some verdict ∧ ((verdict = true ↔ DerivesE sumText.bytes) ↔
      (DerivesE sumText.bytes → Plain sumText.bytes)) := by
  exact verdict_of_grammar_iff sumText 8 (by decide)

def productText : CString := ⟨[49, 42, 50], by decide⟩

def bracketText : CString := ⟨[40, 49, 41], by decide⟩

/-- Both are derived, and the parser refuses both. -/
theorem product_and_brackets_refused :
    (main 8 productText = some false ∧ DerivesE productText.bytes) ∧
      main 8 bracketText = some false ∧ DerivesE bracketText.bytes := by
  refine ⟨⟨by decide, ?_⟩, by decide, ?_⟩
  · exact .term _ (.product 49 [50] (by decide) (.int 50 (by decide)))
  · exact .term _ (.brackets [49] (.term _ (.int 49 (by decide))))

end Cprogramming.LexYacc.RecursiveDescent
