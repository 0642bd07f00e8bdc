import Cprogramming.Containers.Stacks

/-!
# The bracket checker

`brackets.c` on the linked list stack: it pushes every opening bracket of its input
and pops one for every closing bracket. A failed assertion of `stack_pop` aborts the
program. The program is compared with the language of the properly nested texts, which
does not mention a stack.
-/

namespace Cprogramming.Containers.Brackets

open Library.CStrings Stacks

set_option autoImplicit false

/-! ## The program -/

inductive Kind where
  | round
  | square
  | curly
deriving DecidableEq

def Kind.opening : Kind → UInt8
  | .round => 40
  | .square => 91
  | .curly => 123

def Kind.closing : Kind → UInt8
  | .round => 41
  | .square => 93
  | .curly => 125

/-- The cases of the `switch`. -/
inductive Symbol where
  | opening (kind : Kind)
  | closing (kind : Kind)
  | other
deriving DecidableEq

def symbol (ch : UInt8) : Symbol :=
  if ch = 40 then .opening .round
  else if ch = 91 then .opening .square
  else if ch = 123 then .opening .curly
  else if ch = 41 then .closing .round
  else if ch = 93 then .closing .square
  else if ch = 125 then .closing .curly
  else .other

inductive Ending where
  | success
  | unmatched
  | aborted
deriving DecidableEq

structure Outcome where
  output : List UInt8
  ending : Ending

/-- `unmatched`, with what has been printed before. -/
def unmatched (output : List UInt8) (c : Int) : Outcome :=
  ⟨output ++ (bytesOf "unmatched '" ++ UInt8.ofInt c :: bytesOf "'\n"), .unmatched⟩

def finish (stack : LinkedStack Int) (output : List UInt8) : Outcome :=
  match stack.stackSize with
  | none => ⟨output, .aborted⟩
  | some size =>
    if size ≠ 0 then
      match stack.stackPop with
      | none => ⟨output, .aborted⟩
      | some (_, c) => unmatched output c
    else
      match stack.stackDrop with
      | none => ⟨output, .aborted⟩
      | some message => ⟨output ++ message, .success⟩

/-- The loop over the characters that `getchar` returns. -/
def readFrom (stack : LinkedStack Int) (output : List UInt8) : List UInt8 → Outcome
  | [] => finish stack output
  | ch :: rest =>
    match symbol ch with
    | .opening _ =>
      match stack.stackPush ch.toNat with
      | none => ⟨output, .aborted⟩
      | some next => readFrom next (output ++ [ch]) rest
    | .closing kind =>
      match stack.stackPop with
      | none => ⟨output, .aborted⟩
      | some (next, popped) =>
        if popped ≠ kind.opening.toNat then unmatched output ch.toNat
        else readFrom next (output ++ [ch]) rest
    | .other => readFrom stack (output ++ [ch]) rest

def main (input : List UInt8) : Outcome := readFrom LinkedStack.stackNew [] input

/-! ## The language -/

variable (input : List UInt8) (kind : Kind) (held : List Kind)

/-- The brackets are properly nested and matched; other characters may stand
anywhere. -/
inductive Balanced : List UInt8 → Prop
  | empty : Balanced []
  | other (ch : UInt8) (rest : List UInt8) :
      symbol ch = .other → Balanced rest → Balanced (ch :: rest)
  | nested (kind : Kind) (inside after : List UInt8) :
      Balanced inside → Balanced after →
        Balanced (kind.opening :: (inside ++ kind.closing :: after))

theorem symbol_opening : symbol kind.opening = .opening kind := by
  cases kind <;> rfl

theorem symbol_closing : symbol kind.closing = .closing kind := by
  cases kind <;> rfl

theorem symbol_cases (ch : UInt8) :
    (∃ kind : Kind, ch = kind.opening) ∨ (∃ kind : Kind, ch = kind.closing) ∨
      symbol ch = .other := by
  unfold symbol
  split_ifs with round square curly roundEnd squareEnd curlyEnd
  · exact Or.inl ⟨.round, round⟩
  · exact Or.inl ⟨.square, square⟩
  · exact Or.inl ⟨.curly, curly⟩
  · exact Or.inr (Or.inl ⟨.round, roundEnd⟩)
  · exact Or.inr (Or.inl ⟨.square, squareEnd⟩)
  · exact Or.inr (Or.inl ⟨.curly, curlyEnd⟩)
  · exact Or.inr (Or.inr rfl)

/-! ## The open brackets -/

/-- How the program ends with the open brackets, the innermost one first. -/
def ending : List Kind → List UInt8 → Ending
  | held, [] => if held = [] then .success else .unmatched
  | held, ch :: rest =>
    match symbol ch with
    | .opening kind => ending (kind :: held) rest
    | .closing kind =>
      match held with
      | [] => .aborted
      | top :: below => if top = kind then ending below rest else .unmatched
    | .other => ending held rest

def items (held : List Kind) : List Int := (held.map fun kind => (kind.opening.toNat : Int)).reverse

theorem items_cons : items (kind :: held) = items held ++ [(kind.opening.toNat : Int)] := by
  exact List.reverse_cons

theorem opening_inj (left right : Kind) :
    (left.opening.toNat : Int) = right.opening.toNat ↔ left = right := by
  cases left <;> cases right <;> decide

theorem finish_ending {stack : LinkedStack Int} {held : List Kind}
    (links : Links stack (items held)) (output : List UInt8) :
    (finish stack output).ending = ending held [] := by
  have size := linked_size stack _ links
  cases held with
  | nil =>
    have dropped := linked_drop links
    simp only [finish, size, dropped]
    rfl
  | cons kind below =>
    rw [items_cons] at links size
    obtain ⟨next, popped, _⟩ := linked_pop stack _ _ links
    simp [finish, size, popped, unmatched, ending]

theorem read_ending (stack : LinkedStack Int) (held : List Kind)
    (links : Links stack (items held)) (output input : List UInt8) :
    (readFrom stack output input).ending = ending held input := by
  induction input generalizing stack held output with
  | nil => exact finish_ending links output
  | cons ch rest ih =>
    rcases symbol_cases ch with ⟨kind, rfl⟩ | ⟨kind, rfl⟩ | other
    · obtain ⟨next, pushed, kept⟩ := linked_push stack _ (kind.opening.toNat : Int) links
      rw [← items_cons] at kept
      simp only [readFrom, ending, symbol_opening, pushed]
      exact ih next (kind :: held) kept (output ++ [kind.opening])
    · cases held with
      | nil =>
        have refused := linked_pop_empty stack links
        simp only [readFrom, ending, symbol_closing, refused]
      | cons top below =>
        rw [items_cons] at links
        obtain ⟨next, popped, kept⟩ := linked_pop stack _ _ links
        simp only [readFrom, ending, symbol_closing, popped, ne_eq, opening_inj, ite_not]
        by_cases same : top = kind
        · rw [if_pos same, if_pos same]
          exact ih next below kept (output ++ [kind.closing])
        · rw [if_neg same, if_neg same]
          rfl
    · simp only [readFrom, ending, other]
      exact ih stack held links (output ++ [ch])

theorem main_ending : (main input).ending = ending [] input := by
  exact read_ending LinkedStack.stackNew [] linked_new [] input

/-! ## Runs and nested texts -/

theorem ending_opening (kind : Kind) (rest : List UInt8) :
    ending held (kind.opening :: rest) = ending (kind :: held) rest := by
  simp only [ending, symbol_opening]

theorem ending_closing (top kind : Kind) (below : List Kind) (rest : List UInt8) :
    ending (top :: below) (kind.closing :: rest) =
      if top = kind then ending below rest else .unmatched := by
  simp only [ending, symbol_closing]

theorem ending_closing_none (rest : List UInt8) : ending [] (kind.closing :: rest) = .aborted := by
  simp only [ending, symbol_closing]

theorem ending_other {ch : UInt8} (rest : List UInt8) (other : symbol ch = .other) :
    ending held (ch :: rest) = ending held rest := by
  simp only [ending, other]

theorem ending_balanced {input : List UInt8} (balanced : Balanced input) (held : List Kind)
    (rest : List UInt8) : ending held (input ++ rest) = ending held rest := by
  induction balanced generalizing held rest with
  | empty => rfl
  | other ch text plain _ ih =>
    rw [List.cons_append, ending_other held _ plain]
    exact ih held rest
  | nested kind inside after _ _ insideIh afterIh =>
    rw [List.cons_append, ending_opening, List.append_assoc, insideIh, List.cons_append,
      ending_closing, if_pos rfl, afterIh]

/-- A run that gets past its innermost open bracket has read a nested text and the
bracket that closes it. The split is by the length of the text, since what follows
a nested part is no direct part of the text. -/
theorem open_split (bound : Nat) (input : List UInt8) (short : input.length ≤ bound) (top : Kind)
    (below : List Kind) (past : ending (top :: below) input ≠ .unmatched) :
    ∃ inside after, input = inside ++ top.closing :: after ∧ Balanced inside ∧
      ending below after = ending (top :: below) input := by
  induction bound generalizing input top below with
  | zero =>
    rw [List.eq_nil_of_length_eq_zero (Nat.le_zero.mp short)] at past
    exact absurd rfl past
  | succ bound ih =>
    cases input with
    | nil => exact absurd rfl past
    | cons ch rest =>
      have restShort : rest.length ≤ bound := Nat.le_of_succ_le_succ short
      rcases symbol_cases ch with ⟨kind, rfl⟩ | ⟨kind, rfl⟩ | plain
      · rw [ending_opening] at past ⊢
        obtain ⟨inner, tail, rfl, innerBalanced, same⟩ :=
          ih rest restShort kind (top :: below) past
        rw [← same] at past ⊢
        have tailShort : tail.length ≤ bound := by
          rw [List.length_append, List.length_cons] at restShort
          omega
        obtain ⟨inside, after, rfl, balanced, ended⟩ := ih tail tailShort top below past
        refine ⟨kind.opening :: (inner ++ kind.closing :: inside), after, ?_, ?_, ended⟩
        · rw [List.cons_append, List.append_assoc, List.cons_append]
        · exact Balanced.nested kind inner inside innerBalanced balanced
      · rw [ending_closing] at past ⊢
        by_cases same : top = kind
        · refine ⟨[], rest, ?_, Balanced.empty, (if_pos same).symm⟩
          rw [same, List.nil_append]
        · exact absurd (if_neg same) past
      · rw [ending_other _ rest plain] at past ⊢
        obtain ⟨inside, after, rfl, balanced, ended⟩ := ih rest restShort top below past
        exact ⟨ch :: inside, after, rfl, Balanced.other ch inside plain balanced, ended⟩

theorem closed_split (bound : Nat) (input : List UInt8) (short : input.length ≤ bound) :
    (ending [] input = .success → Balanced input) ∧
      (ending [] input = .aborted →
        ∃ before kind after, input = before ++ Kind.closing kind :: after ∧ Balanced before) := by
  induction bound generalizing input with
  | zero =>
    rw [List.eq_nil_of_length_eq_zero (Nat.le_zero.mp short)]
    exact ⟨fun _ => Balanced.empty, nofun⟩
  | succ bound ih =>
    cases input with
    | nil => exact ⟨fun _ => Balanced.empty, nofun⟩
    | cons ch rest =>
      have restShort : rest.length ≤ bound := Nat.le_of_succ_le_succ short
      rcases symbol_cases ch with ⟨kind, rfl⟩ | ⟨kind, rfl⟩ | plain
      · rw [ending_opening]
        by_cases stuck : ending [kind] rest = .unmatched
        · rw [stuck]
          exact ⟨nofun, nofun⟩
        · obtain ⟨inside, after, rfl, balanced, same⟩ :=
            open_split bound rest restShort kind [] stuck
          have afterShort : after.length ≤ bound := by
            rw [List.length_append, List.length_cons] at restShort
            omega
          obtain ⟨succeeds, aborts⟩ := ih after afterShort
          rw [← same]
          constructor
          · intro success
            exact Balanced.nested kind inside after balanced (succeeds success)
          · intro aborted
            obtain ⟨before, other, behind, rfl, nested⟩ := aborts aborted
            refine ⟨kind.opening :: (inside ++ kind.closing :: before), other, behind, ?_, ?_⟩
            · rw [List.cons_append, List.append_assoc, List.cons_append]
            · exact Balanced.nested kind inside before balanced nested
      · rw [ending_closing_none]
        exact ⟨nofun, fun _ => ⟨[], kind, rest, rfl, Balanced.empty⟩⟩
      · rw [ending_other _ rest plain]
        obtain ⟨succeeds, aborts⟩ := ih rest restShort
        constructor
        · intro success
          exact Balanced.other ch rest plain (succeeds success)
        · intro aborted
          obtain ⟨before, kind, after, rfl, balanced⟩ := aborts aborted
          exact ⟨ch :: before, kind, after, rfl, Balanced.other ch before plain balanced⟩

theorem success_iff : (main input).ending = .success ↔ Balanced input := by
  rw [main_ending]
  constructor
  · exact (closed_split input.length input (Nat.le_refl _)).1
  · intro balanced
    have ended := ending_balanced balanced [] []
    rw [List.append_nil] at ended
    exact ended

theorem aborted_iff : (main input).ending = .aborted ↔
      ∃ before kind after, input = before ++ Kind.closing kind :: after ∧ Balanced before := by
  rw [main_ending]
  constructor
  · exact (closed_split input.length input (Nat.le_refl _)).2
  · rintro ⟨before, kind, after, rfl, balanced⟩
    rw [ending_balanced balanced, ending_closing_none]

/-! ## The verdict -/

/-- The program succeeds on the nested texts, and on the others it reports a bracket. -/
def RightVerdict (input : List UInt8) : Prop :=
  ((main input).ending = .success ↔ Balanced input) ∧
    (¬ Balanced input → (main input).ending = .unmatched)

/-- No closing bracket follows a nested beginning of the text: it finds an open one. -/
def NoneTooMany (input : List UInt8) : Prop :=
  ∀ before kind after, input = before ++ Kind.closing kind :: after → ¬ Balanced before

theorem right_verdict_iff (input : List UInt8) : RightVerdict input ↔ NoneTooMany input := by
  have success := success_iff input
  have aborted := aborted_iff input
  constructor
  · intro right before kind after split balanced
    have aborts := aborted.mpr ⟨before, kind, after, split, balanced⟩
    by_cases nested : Balanced input
    · rw [success.mpr nested] at aborts
      cases aborts
    · rw [right.2 nested] at aborts
      cases aborts
  · intro enough
    refine ⟨success, ?_⟩
    intro unbalanced
    cases ended : (main input).ending with
    | success => exact absurd (success.mp ended) unbalanced
    | unmatched => rfl
    | aborted =>
      obtain ⟨before, kind, after, split, balanced⟩ := aborted.mp ended
      exact absurd balanced (enough before kind after split)

/-- A single closing bracket aborts the program instead of being reported. -/
theorem closing_first_aborts :
    ¬ Balanced (bytesOf ")") ∧ (main (bytesOf ")")).ending = .aborted ∧
      ¬ RightVerdict (bytesOf ")") := by
  have aborts : (main (bytesOf ")")).ending = .aborted := by rfl
  have unbalanced : ¬ Balanced (bytesOf ")") := by
    intro balanced
    rw [(success_iff _).mpr balanced] at aborts
    cases aborts
  refine ⟨unbalanced, aborts, ?_⟩
  intro right
  rw [right.2 unbalanced] at aborts
  cases aborts

end Cprogramming.Containers.Brackets
