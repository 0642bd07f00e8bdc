import Cprogramming.Library.ByteMemory
import Cprogramming.Library.Fields
import Cprogramming.Library.Runs
import Cprogramming.GameManagement.Texts

/-!
# Normalised strings

`thing_clean` over the bytes of its copy: one loop with the indices `i`, `j` and
`f`, a space and the byte behind its run copied together, the end patched and the
start shifted. Whatever the allocated memory holds, the string that comes back is
the words of the argument joined by single spaces. The indices are `int` in the source
and have no bound here: the strings are shorter than `2 ^ 31 - 2` bytes.
-/

namespace Cprogramming.GameManagement.Normalisation

open Library.ByteMemory Library.CStrings Library.Decimals Library.Fields Library.Runs
open Texts

set_option autoImplicit false

/-! ## `thing_clean` -/

def byteOf (text : CString) (index : Nat) : UInt8 := text.terminated.getD index 0

/-- The loop over `j`; `text.size` turns are enough. -/
def skipSpaces (text : CString) : Nat → Nat → Nat
  | 0, j => j
  | fuel + 1, j =>
    if byteOf text j = space ∧ j < text.size then skipSpaces text fuel (j + 1) else j

/-- The loop over `i`, with the copy and the index `f` at which it goes on. -/
def copyTurns (text : CString) : Nat → Nat → Memory → Nat → Memory × Nat
  | 0, _, copy, f => (copy, f)
  | fuel + 1, i, copy, f =>
    if i < text.size then
      if byteOf text i = space then
        let j := skipSpaces text text.size (i + 1)
        if i ≠ j - 1 then
          copyTurns text fuel (j + 1)
            (store (store copy f [byteOf text i]) (f + 1) [byteOf text j]) (f + 2)
        else copyTurns text fuel (i + 1) (store copy f [byteOf text i]) (f + 1)
      else copyTurns text fuel (i + 1) (store copy f [byteOf text i]) (f + 1)
    else (copy, f)

/-- The loop that moves the copy by one byte, from `t` on. -/
def shiftTurns : Nat → Int → Memory → Memory
  | 0, _, copy => copy
  | turns + 1, t, copy => shiftTurns turns (t + 1) (store copy t [copy (t + 1)])

/-- `t_c` at the end of `thing_clean`. `junk` is what the allocated bytes and the
bytes around them hold. -/
def cleanedCopy (text : CString) (junk : Memory) : Memory :=
  let (copy, copied) := copyTurns text text.size 0 junk 0
  let f : Int := if copy (copied - 2) = space then copied - 1 else copied
  let copy := store copy (f - 1) [0]
  if copy 0 = space then shiftTurns f.toNat 0 copy else copy

def cleaned (text : CString) (junk : Memory) : CString :=
  readString (cleanedCopy text junk) 0 text.size

/-! ## The loops -/

variable (memory : Memory) (text : CString)

variable {bytes : List UInt8}

theorem byte_of_drop {text : CString} {index : Nat} (inside : index ≤ text.bytes.length) :
    byteOf text index = (text.bytes.drop index).headD 0 := by
  rw [byteOf, CString.terminated, List.headD_eq_head?_getD, List.head?_drop]
  rcases Nat.lt_or_eq_of_le inside with before | rfl
  · rw [List.getD_eq_getElem?_getD, List.getElem?_append_left before]
  · simp

theorem drop_succ_of_cons {later : List UInt8} {i : Nat} {byte : UInt8}
    (rest : bytes.drop i = byte :: later) : i < bytes.length ∧ bytes.drop (i + 1) = later := by
  constructor
  · by_contra outside
    rw [List.drop_of_length_le (by omega)] at rest
    cases rest
  · rw [← List.drop_drop, rest]
    rfl

theorem skip_spaces_eq (fuel j : Nat) (inside : j ≤ text.bytes.length)
    (enough : text.bytes.length - j < fuel) :
    skipSpaces text fuel j ≤ text.bytes.length ∧ j ≤ skipSpaces text fuel j ∧
      text.bytes.drop (skipSpaces text fuel j) = (text.bytes.drop j).dropWhile (· = space) := by
  induction fuel generalizing j with
  | zero => omega
  | succ fuel ih =>
    have here := byte_of_drop inside
    simp only [skipSpaces]
    cases rest : text.bytes.drop j with
    | nil =>
      rw [rest] at here
      have other : ¬ (byteOf text j = space ∧ j < text.size) := by
        rw [here]
        exact fun both => absurd both.1 (by decide)
      rw [if_neg other, rest]
      exact ⟨inside, Nat.le_refl j, rfl⟩
    | cons byte later =>
      obtain ⟨before, next⟩ := drop_succ_of_cons rest
      rw [rest, List.headD_cons] at here
      by_cases blank : byte = space
      · rw [if_pos ⟨here.trans blank, by simp only [CString.size]; omega⟩]
        obtain ⟨bound, further, same⟩ := ih (j + 1) (by omega) (by omega)
        refine ⟨bound, by omega, ?_⟩
        rw [same, next, List.dropWhile_cons_of_pos (by simpa using blank)]
      · rw [if_neg (fun both => blank (here ▸ both.1)), rest,
          List.dropWhile_cons_of_neg (by simpa using blank)]
        exact ⟨inside, Nat.le_refl j, rfl⟩

theorem squeeze_after_space (text : List UInt8) :
    squeeze true text = squeeze false (text.dropWhile (· = space)) := by
  induction text with
  | nil => rfl
  | cons byte rest ih =>
    by_cases blank : byte = space
    · rw [List.dropWhile_cons_of_pos (by simpa using blank), ← ih, squeeze, if_pos blank]
      rfl
    · rw [List.dropWhile_cons_of_neg (by simpa using blank), squeeze, if_neg blank, squeeze,
        if_neg blank]

theorem store_cons (copy : Memory) (f : Nat) (byte : UInt8) (bytes : List UInt8) :
    store (store copy f [byte]) ((f + 1 : Nat) : Int) bytes = store copy f (byte :: bytes) := by
  have adjacent := store_store_adjacent copy f [byte] bytes
  rwa [Nat.cast_add]

theorem copy_turns_done {text : CString} {i : Nat} (fuel : Nat) (copy : Memory) (f : Nat)
    (done : text.size ≤ i) : copyTurns text fuel i copy f = (copy, f) := by
  cases fuel with
  | zero => rfl
  | succ fuel => rw [copyTurns, if_neg (by omega)]

theorem copy_turns_eq (fuel i : Nat) (copy : Memory) (f : Nat) (inside : i ≤ text.bytes.length)
    (enough : text.bytes.length - i < fuel) : copyTurns text fuel i copy f =
      (store copy f (squeeze false (text.bytes.drop i) ++ [0]),
        f + (squeeze false (text.bytes.drop i)).length + 1) := by
  induction fuel generalizing i copy f with
  | zero => omega
  | succ fuel ih =>
    have here := byte_of_drop inside
    rw [copyTurns, if_pos (by simp only [CString.size]; omega)]
    cases rest : text.bytes.drop i with
    | nil =>
      have ended : text.bytes.length ≤ i := List.drop_eq_nil_iff.mp rest
      rw [rest, List.headD_nil] at here
      rw [here, if_neg (by decide), copy_turns_done _ _ _ (by simp only [CString.size]; omega)]
      rfl
    | cons byte later =>
      obtain ⟨before, next⟩ := drop_succ_of_cons rest
      rw [rest, List.headD_cons] at here
      have single : copyTurns text fuel (i + 1) (store copy f [byte]) (f + 1) =
          (store copy f (byte :: squeeze false later ++ [0]),
            f + (byte :: squeeze false later).length + 1) := by
        rw [ih (i + 1) _ _ (by omega) (by omega), next, store_cons, List.cons_append,
          List.length_cons]
        congr 1
        omega
      rw [here]
      by_cases blank : byte = space
      · subst blank
        obtain ⟨bound, further, skipped⟩ :=
          skip_spaces_eq text text.size (i + 1) (by omega) (by simp only [CString.size]; omega)
        simp only [squeeze, if_true, Bool.false_eq_true, if_false, squeeze_after_space]
        rw [next] at skipped
        generalize skipSpaces text text.size (i + 1) = j at bound further skipped
        rw [← skipped]
        split_ifs with several
        · -- the byte behind the run is copied with the space
          have behind := byte_of_drop bound
          cases left : text.bytes.drop j with
          | nil =>
            have ended : text.bytes.length ≤ j := List.drop_eq_nil_iff.mp left
            rw [left, List.headD_nil] at behind
            rw [behind, copy_turns_done _ _ _ (by simp only [CString.size]; omega)]
            congr 1
            exact store_cons copy f space [0]
          | cons other others =>
            obtain ⟨_, after⟩ := drop_succ_of_cons left
            have solid : other ≠ space := by
              have ends := drop_while_ends (fun byte => decide (byte = space)) later other
                (by rw [← skipped, left]; rfl)
              simpa using ends
            rw [left, List.headD_cons] at behind
            rw [behind, ih (j + 1) _ _ (by omega) (by omega), after]
            have both := store_cons (store copy f [space]) (f + 1) other
              (squeeze false others ++ [0])
            have all := store_cons copy f space (other :: squeeze false others ++ [0])
            simp only [squeeze, solid, if_false, List.length_cons, List.cons_append]
            exact Prod.ext (both.trans all) (by simp only; omega)
        · have adjacent : j = i + 1 := by omega
          rw [adjacent, next]
          exact single
      · rw [if_neg blank, single]
        simp only [squeeze, blank, if_false]

/-! ## The ends -/

/-- The memory holds the bytes of a string and its terminator from index 0 on. -/
def Holds (memory : Memory) (bytes : List UInt8) : Prop :=
  (∀ index : Nat, index < bytes.length → memory index = bytes.getD index 0) ∧
    memory bytes.length = 0

theorem store_holds (bytes : List UInt8) : Holds (store memory 0 (bytes ++ [0])) bytes := by
  have byte (index : Nat) (inside : index < (bytes ++ [0]).length) :
      store memory 0 (bytes ++ [0]) index = (bytes ++ [0]).getD index 0 := by
    have at_index := store_at memory 0 (bytes ++ [0]) index inside
    rwa [Int.zero_add] at at_index
  constructor
  · intro index inside
    rw [byte index (by simp; omega), List.getD_append _ _ _ _ inside]
  · rw [byte bytes.length (by simp), List.getD_append_right _ _ _ _ (Nat.le_refl _)]
    simp

theorem holds_cut (nonempty : bytes ≠ []) (holds : Holds memory bytes) :
    Holds (store memory ((bytes.length : Int) - 1) [0]) bytes.dropLast := by
  have length := List.length_pos_of_ne_nil nonempty
  constructor
  · intro index inside
    rw [List.length_dropLast] at inside
    rw [store_outside _ _ _ _ (Or.inl (by omega)), holds.1 index (by omega),
      List.getD_eq_getElem _ _ (by omega), List.getD_eq_getElem _ _ (by simp; omega),
      List.getElem_dropLast]
  · rw [List.length_dropLast]
    rw [Nat.cast_sub length, Nat.cast_one, store_single]

theorem shift_turns_eq (turns : Nat) (t : Int) (copy : Memory) (address : Int) :
    shiftTurns turns t copy address =
      if t ≤ address ∧ address < t + turns then copy (address + 1) else copy address := by
  induction turns generalizing t copy with
  | zero =>
    rw [shiftTurns, if_neg (by omega)]
  | succ turns ih =>
    rw [shiftTurns, ih]
    by_cases same : address = t
    · subst same
      rw [if_neg (by omega), if_pos (by omega), store_single]
    · by_cases inside : t + 1 ≤ address ∧ address < t + 1 + turns
      · rw [if_pos inside, if_pos (by omega),
          store_outside _ _ _ _ (Or.inr (by simp only [List.length_singleton]; omega))]
      · rw [if_neg inside, if_neg (by omega)]
        apply store_outside
        simp only [List.length_singleton]
        omega

theorem holds_shift (byte : UInt8) (rest : List UInt8) (holds : Holds memory (byte :: rest))
    (turns : Nat) (enough : rest.length < turns) : Holds (shiftTurns turns 0 memory) rest := by
  constructor
  · intro index inside
    have moved := holds.1 (index + 1) (by rw [List.length_cons]; omega)
    rw [shift_turns_eq, if_pos (by omega)]
    rw [Nat.cast_add, Nat.cast_one] at moved
    rw [moved]
    rfl
  · have moved := holds.2
    rw [shift_turns_eq, if_pos (by omega)]
    exact moved

theorem holds_terminated (holds : Holds memory bytes) :
    Holds (store memory bytes.length [0]) bytes := by
  constructor
  · intro index inside
    rw [store_outside _ _ _ _ (Or.inl (by omega)), holds.1 index inside]
  · exact store_single memory bytes.length 0

theorem holds_first (holds : Holds memory bytes) : memory 0 = space ↔ bytes.head? = some space := by
  cases bytes with
  | nil =>
    have ended : memory 0 = 0 := holds.2
    rw [ended]
    exact iff_of_false (by decide) (by simp)
  | cons byte rest =>
    have first : memory 0 = byte := holds.1 0 (by simp)
    rw [first]
    simp

theorem holds_last (nonempty : bytes ≠ []) (holds : Holds memory bytes) :
    memory ((bytes.length : Int) - 1) = space ↔ bytes.getLast? = some space := by
  have length := List.length_pos_of_ne_nil nonempty
  have last := holds.1 (bytes.length - 1) (by omega)
  rw [Nat.cast_sub length, Nat.cast_one] at last
  rw [last, List.getLast?_eq_getElem?, List.getD_eq_getElem?_getD,
    List.getElem?_eq_getElem (by omega)]
  simp

/-- The byte before an empty copy decides whether the terminator is stored on it or
before it. -/
theorem holds_empty (holds : Holds memory []) {f : Int} (either : f = 0 ∨ f = 1) :
    Holds (store memory (f - 1) [0]) [] := by
  refine ⟨by simp, ?_⟩
  rcases either with rfl | rfl
  · rw [store_outside _ _ _ _ (Or.inr (by simp))]
    exact holds.2
  · rfl

theorem holds_end (holds : Holds memory bytes) {f : Int}
    (index : f = if memory ((bytes.length : Int) - 1) = space then (bytes.length : Int)
      else bytes.length + 1) : Holds (store memory (f - 1) [0])
        (if bytes.getLast? = some space then bytes.dropLast else bytes) ∧ (bytes ≠ [] →
        f = (if bytes.getLast? = some space then bytes.dropLast else bytes).length + 1) := by
  by_cases nonempty : bytes = []
  · subst nonempty
    refine ⟨holds_empty memory holds ?_, fun content => absurd rfl content⟩
    rw [index]
    split_ifs <;> simp
  · have length := List.length_pos_of_ne_nil nonempty
    rw [index]
    simp only [holds_last memory nonempty holds]
    split_ifs
    · exact ⟨holds_cut memory nonempty holds, fun _ => by rw [List.length_dropLast]; omega⟩
    · rw [Int.add_sub_cancel]
      exact ⟨holds_terminated memory holds, fun _ => rfl⟩

theorem cleaned_copy_holds (junk : Memory) :
    Holds (cleanedCopy text junk) (thingClean text.bytes) := by
  have copied := copy_turns_eq text text.size 0 junk 0 (Nat.zero_le _)
    (by simp only [CString.size]; omega)
  rw [List.drop_zero, Nat.zero_add] at copied
  have held := store_holds junk (squeeze false text.bytes)
  unfold cleanedCopy
  rw [copied, thing_clean_eq, trim]
  dsimp only
  generalize store junk 0 (squeeze false text.bytes ++ [0]) = memory at held
  generalize squeeze false text.bytes = bytes at held
  have place : ((bytes.length + 1 : Nat) : Int) - 2 = (bytes.length : Int) - 1 := by omega
  rw [place, Nat.cast_add, Nat.cast_one, Int.add_sub_cancel]
  generalize patched : (if memory ((bytes.length : Int) - 1) = space then (bytes.length : Int)
    else bytes.length + 1) = f
  obtain ⟨ended, index⟩ := holds_end memory held patched.symm
  have content : (if bytes.getLast? = some space then bytes.dropLast else bytes) ≠ [] →
      bytes ≠ [] := by
    rintro filled rfl
    exact filled rfl
  generalize store memory (f - 1) [0] = copy at ended
  generalize (if bytes.getLast? = some space then bytes.dropLast else bytes) = cut
    at ended index content
  simp only [holds_first copy ended]
  split_ifs with start
  · obtain ⟨rest, rfl⟩ := List.head?_eq_some_iff.mp start
    apply holds_shift copy space rest ended
    rw [index (content (by simp)), List.length_cons]
    omega
  · exact ended

theorem squeeze_sublist (after : Bool) (bytes : List UInt8) :
    (squeeze after bytes).Sublist bytes := by
  induction bytes generalizing after with
  | nil => exact List.Sublist.refl []
  | cons byte rest ih =>
    rw [squeeze]
    split_ifs with blank again
    · exact (ih true).cons byte
    · rw [blank]
      exact (ih true).cons_cons space
    · exact (ih false).cons_cons byte

theorem squeeze_length (after : Bool) (text : List UInt8) :
    (squeeze after text).length ≤ text.length := by
  exact (squeeze_sublist after text).length_le

theorem thing_clean_length (text : List UInt8) : (thingClean text).length ≤ text.length := by
  obtain ⟨front, back, _, _, shape, _⟩ :=
    trim_shape (squeeze_spaced false text).1
  have lengths := congrArg List.length shape
  have copied := squeeze_length false text
  rw [← thing_clean_eq, List.length_append, List.length_append] at lengths
  omega

theorem cleaned_bytes (junk : Memory) : (cleaned text junk).bytes = thingClean text.bytes := by
  obtain ⟨bytes, ended⟩ := cleaned_copy_holds text junk
  have short := thing_clean_length text.bytes
  apply scan_of_terminated
  · exact fun member => text.nulFree (mem_thing_clean text.bytes 0 member)
  · simp only [CString.size]
    omega
  · intro index inside
    rw [Int.zero_add]
    exact bytes index inside
  · rw [Int.zero_add]
    exact ended

/-! ## Words -/

/-- Copying with single spaces keeps the words, also those begun in `front`. -/
theorem fields_squeeze (text : List UInt8) :
    fields space (squeeze true text) = fields space text ∧
      ∀ front, fields space (front ++ squeeze false text) = fields space (front ++ text) := by
  induction text with
  | nil => exact ⟨rfl, fun _ => rfl⟩
  | cons byte rest ih =>
    obtain ⟨behind, inside⟩ := ih
    by_cases blank : byte = space
    · subst blank
      constructor
      · rw [fields_behind_separator, ← behind]
        rfl
      · intro front
        have copied : squeeze false (space :: rest) = space :: squeeze true rest := rfl
        rw [copied, fields_at_separator, fields_at_separator, behind]
    · have copied (after : Bool) : squeeze after (byte :: rest) = [byte] ++ squeeze false rest := by
        simp [squeeze, blank]
      constructor
      · rw [copied]
        exact inside [byte]
      · intro front
        rw [copied, ← List.append_assoc, inside (front ++ [byte]), List.append_assoc]
        rfl

theorem fields_trim {copied : List UInt8} (spaced : Spaced copied) :
    fields space (trim copied) = fields space copied := by
  obtain ⟨front, back, start, ended, shape, _⟩ := trim_shape spaced
  have cut : fields space (trim copied ++ back) = fields space (trim copied) := by
    rcases ended with rfl | rfl
    · rw [List.append_nil]
    · exact fields_before_separator space (trim copied)
  have whole : fields space (front ++ (trim copied ++ back)) =
      fields space (trim copied ++ back) := by
    rcases start with rfl | rfl
    · rfl
    · exact fields_behind_separator space (trim copied ++ back)
  rw [← cut, ← whole, ← shape]

def normalForm (text : List UInt8) : List UInt8 := [space].intercalate (fields space text)

theorem thing_clean_normal (text : List UInt8) : thingClean text = normalForm text := by
  have spaced := (squeeze_spaced false text).1
  obtain ⟨_, _, _, _, _, head, last⟩ := trim_shape spaced
  have words := (fields_squeeze text).2 []
  rw [List.nil_append, List.nil_append] at words
  rw [thing_clean_eq, normalForm, ← words, ← fields_trim spaced]
  exact (join_fields space _ (trim_spaced spaced) head last).symm

/-! ## Queues -/

/-- A call on a queue, with the memory that its copy gets. -/
inductive Operation where
  | enqueue (text : CString) (junk : Memory)
  | dequeue (junk : Memory)

/-- `list_append` keeps a normalised copy and `list_top` returns a normalised copy
of that; from an empty list it returns `NULL`. -/
def serveQueue (queue : List CString) :
    Operation → Option (List CString × Option (List UInt8))
  | .enqueue text junk => some (queue ++ [cleaned text junk], none)
  | .dequeue junk =>
    match queue with
    | [] => some ([], none)
    | text :: rest => some (rest, some (cleaned text junk).bytes)

/-- A queue that keeps the texts as they are, and returns their normal forms. -/
def normalQueue (queue : List CString) :
    Operation → Option (List CString × Option (List UInt8))
  | .enqueue text _ => some (queue ++ [text], none)
  | .dequeue _ =>
    match queue with
    | [] => some ([], none)
    | text :: rest => some (rest, some (normalForm text.bytes))

theorem enqueue_bytes (queue : List CString) (text : CString) (junk : Memory) :
    (queue ++ [cleaned text junk]).map CString.bytes =
      queueEnqueue (queue.map CString.bytes) text.bytes := by
  rw [List.map_append, queueEnqueue, List.map_singleton, cleaned_bytes]

/-- The kept copies are the normalised texts that were sent. -/
def Normalised (kept sent : List CString) : Prop :=
  kept.map CString.bytes = sent.map fun text => thingClean text.bytes

theorem queues_alike : Bisimulation serveQueue normalQueue Normalised := by
  intro kept sent operation related
  cases operation with
  | enqueue text junk =>
    refine Option.Rel.some ⟨?_, rfl⟩
    rw [Normalised, enqueue_bytes, queueEnqueue, related, List.map_append, List.map_singleton]
  | dequeue junk =>
    cases kept with
    | nil =>
      cases sent with
      | nil => exact Option.Rel.some ⟨rfl, rfl⟩
      | cons original others => cases related
    | cons text rest =>
      cases sent with
      | nil => cases related
      | cons original others =>
        obtain ⟨same, later⟩ := List.cons.inj related
        refine Option.Rel.some ⟨later, ?_⟩
        rw [cleaned_bytes, same, thing_clean_again, thing_clean_normal]

/-- `thing_clean` returns the words of its argument joined by single spaces, a
second time it changes nothing, and a queue returns the normal forms of the texts
that were put into it. -/
theorem strings_are_normalised (text : CString) (junk again : Memory)
    (operations : List Operation) :
    (cleaned text junk).bytes = normalForm text.bytes ∧
      cleaned (cleaned text junk) again = cleaned text junk ∧
        answers serveQueue [] operations = answers normalQueue [] operations := by
  refine ⟨?_, ?_, ?_⟩
  · rw [cleaned_bytes, thing_clean_normal]
  · apply cstring_ext
    rw [cleaned_bytes, cleaned_bytes, thing_clean_again]
  · exact answers_eq serveQueue normalQueue Normalised queues_alike [] [] rfl operations

end Cprogramming.GameManagement.Normalisation
