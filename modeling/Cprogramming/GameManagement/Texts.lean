import Mathlib.Data.List.SplitBy
import Cprogramming.Library.Decimals
import Cprogramming.Library.Fields

/-!
# Texts and queues

`thing.h`, `queue.c` and the formats that the game reads with `sscanf`. A text is
the bytes of a string before its terminator. A queue keeps a normalised copy of
each text and normalises it again when it gives it back.
-/

namespace Cprogramming.GameManagement.Texts

open Library.CStrings

set_option autoImplicit false

def space : UInt8 := 32

def comma : UInt8 := 44

def colon : UInt8 := 58

def newline : UInt8 := 10

/-! ## `thing.h` -/

/-- The copying loop of `thing_clean`: a run of spaces is copied as one. `after`
tells whether the byte before was a space. -/
def squeeze : Bool → List UInt8 → List UInt8
  | _, [] => []
  | after, byte :: rest =>
    if byte = space then
      if after then squeeze true rest else space :: squeeze true rest
    else byte :: squeeze false rest

/-- `thing_clean`: at most one space is left at each end, and is taken away. -/
def thingClean (text : List UInt8) : List UInt8 :=
  let copied := squeeze false text
  let cut := if copied.getLast? = some space then copied.dropLast else copied
  if cut.head? = some space then cut.tail else cut

/-- `thing_add` with a delimiter that is no NUL. -/
def thingAdd (src addon : List UInt8) (delem : UInt8) : List UInt8 := src ++ delem :: addon

def thingReplace (src : List UInt8) (old new : UInt8) : List UInt8 :=
  src.map fun byte => if byte = old then new else byte

/-! ## `queue.c` -/

variable (after : Bool) (text : List UInt8)

def queueEnqueue (queue : List (List UInt8)) (text : List UInt8) : List (List UInt8) :=
  queue ++ [thingClean text]

def queueToString (queue : List (List UInt8)) (delem : UInt8) : Option (List UInt8) :=
  match queue with
  | [] => none
  | text :: rest =>
    some (rest.foldl (fun joined next => thingAdd joined (thingClean next) delem) (thingClean text))

/-- `queue_to_queue`: the pieces between delimiters that are not empty. The byte
behind the terminator, which the last turn of the loop looks at, adds none. -/
def queueToQueue (text : List UInt8) (delem : UInt8) : List (List UInt8) :=
  ((text.splitOn delem).filter fun piece => !piece.isEmpty).foldl queueEnqueue []

theorem enqueue_all (queue texts : List (List UInt8)) :
    texts.foldl queueEnqueue queue = queue ++ texts.map thingClean := by
  induction texts generalizing queue with
  | nil => simp
  | cons text rest ih => simp [ih, queueEnqueue]

theorem queue_to_queue_eq (delem : UInt8) :
    queueToQueue text delem = (Library.Fields.fields delem text).map thingClean := by
  rw [queueToQueue, enqueue_all]
  rfl

/-! ## Streams -/

def takeLine : List UInt8 → List UInt8
  | [] => []
  | byte :: rest => if byte = newline then [byte] else byte :: takeLine rest

/-- What `fgets` stores before its terminator. -/
def fgets (size : Nat) (stream : List UInt8) : List UInt8 := (takeLine stream).take (size - 1)

theorem take_line_append (front rest : List UInt8) (single : newline ∉ front) :
    takeLine (front ++ rest) = front ++ takeLine rest := by
  induction front with
  | nil => rfl
  | cons byte front ih =>
    rw [List.mem_cons, not_or] at single
    rw [List.cons_append, takeLine, if_neg (Ne.symm single.1), ih single.2, List.cons_append]

/-! ## `sscanf` -/

/-- `%d`. The conversion of a number that is no `int` is undefined in C; it is
taken to fail. -/
def scanInt (text : List UInt8) : Option (Int × List UInt8) := do
  let (value, rest) ← strtoll text
  if -2 ^ 31 ≤ value ∧ value < 2 ^ 31 then some (value, rest) else none

/-- A line of a map: `"%c%d %c\n"` in a text of at most five bytes. -/
def readPlacement (text : List UInt8) : Option (UInt8 × Int × UInt8) :=
  match text with
  | [] => none
  | column :: tail => do
    let (row, rest) ← scanInt tail
    let direction ← (rest.dropWhile isSpace).head?
    if 6 < text.length + 1 then none else some (column, row, direction)

/-! ## Normalised texts -/

def Spaced (text : List UInt8) : Prop :=
  text.IsChain fun left right => ¬ (left = space ∧ right = space)

theorem squeeze_spaced :
    Spaced (squeeze after text) ∧ (after = true → (squeeze after text).head? ≠ some space) := by
  induction text generalizing after with
  | nil => exact ⟨List.isChain_nil, by simp [squeeze]⟩
  | cons byte rest ih =>
    by_cases blank : byte = space
    · subst blank
      cases after with
      | true => simpa [squeeze] using ih true
      | false =>
        obtain ⟨chain, head⟩ := ih true
        refine ⟨?_, by simp⟩
        refine List.isChain_cons.mpr ⟨?_, chain⟩
        intro next first both
        exact head rfl (by rw [both.2] at first; exact first)
    · obtain ⟨chain, _⟩ := ih false
      simp only [squeeze, blank, if_false]
      refine ⟨List.isChain_cons.mpr ⟨fun _ _ both => blank both.1, chain⟩, ?_⟩
      simpa using fun _ => blank

theorem squeeze_eq {text : List UInt8} (spaced : Spaced text) : squeeze false text = text := by
  induction text with
  | nil => rfl
  | cons byte rest ih =>
    obtain ⟨first, later⟩ := List.isChain_cons.mp spaced
    by_cases blank : byte = space
    · subst blank
      have same : squeeze true rest = squeeze false rest := by
        cases rest with
        | nil => rfl
        | cons next others =>
          have other : next ≠ space := fun equal => first next rfl ⟨rfl, equal⟩
          simp [squeeze, other]
      simp [squeeze, same, ih later]
    · simp [squeeze, blank, ih later]

def trim (copied : List UInt8) : List UInt8 :=
  let cut := if copied.getLast? = some space then copied.dropLast else copied
  if cut.head? = some space then cut.tail else cut

theorem thing_clean_eq : thingClean text = trim (squeeze false text) := by
  rfl

theorem trim_shape {copied : List UInt8} (spaced : Spaced copied) :
    ∃ front back, (front = [] ∨ front = [space]) ∧ (back = [] ∨ back = [space]) ∧
      copied = front ++ (trim copied ++ back) ∧ (trim copied).head? ≠ some space ∧
        (trim copied).getLast? ≠ some space := by
  have ends : ∃ cut back, (back = [] ∨ back = [space]) ∧ copied = cut ++ back ∧
      cut.getLast? ≠ some space ∧
        trim copied = if cut.head? = some space then cut.tail else cut := by
    by_cases last : copied.getLast? = some space
    · obtain ⟨init, shape⟩ := List.getLast?_eq_some_iff.mp last
      refine ⟨init, [space], Or.inr rfl, shape, ?_, by simp [trim, shape]⟩
      intro again
      obtain ⟨before, rfl⟩ := List.getLast?_eq_some_iff.mp again
      rw [Spaced, shape, List.append_assoc] at spaced
      exact (List.isChain_cons_cons.mp (List.isChain_append.mp spaced).2.1).1 ⟨rfl, rfl⟩
    · exact ⟨copied, [], Or.inl rfl, by simp, last, by simp [trim, last]⟩
  obtain ⟨cut, back, behind, shape, last, trimmed⟩ := ends
  rw [trimmed]
  by_cases head : cut.head? = some space
  · obtain ⟨tail, rfl⟩ := List.head?_eq_some_iff.mp head
    refine ⟨[space], back, Or.inr rfl, behind, by simpa using shape, ?_, ?_⟩
    · intro again
      obtain ⟨others, rfl⟩ := List.head?_eq_some_iff.mp again
      rw [Spaced, shape] at spaced
      exact (List.isChain_cons_cons.mp (List.isChain_append.mp spaced).1).1 ⟨rfl, rfl⟩
    · cases tail with
      | nil => simp
      | cons next others => rwa [List.getLast?_cons_cons] at last
  · rw [if_neg head]
    exact ⟨[], back, Or.inl rfl, behind, by simpa using shape, head, last⟩

theorem trim_eq (head : text.head? ≠ some space) (last : text.getLast? ≠ some space) :
    trim text = text := by
  simp [trim, head, last]

theorem trim_spaced {copied : List UInt8} (spaced : Spaced copied) : Spaced (trim copied) := by
  obtain ⟨front, back, _, _, shape, _⟩ := trim_shape spaced
  rw [Spaced, shape] at spaced
  exact (List.isChain_append.mp (List.isChain_append.mp spaced).2.1).1

theorem thing_clean_again : thingClean (thingClean text) = thingClean text := by
  have spaced := (squeeze_spaced false text).1
  obtain ⟨_, _, _, _, _, head, last⟩ := trim_shape spaced
  rw [thing_clean_eq, thing_clean_eq, squeeze_eq (trim_spaced spaced), trim_eq _ head last]

theorem squeeze_of_free (free : space ∉ text) : squeeze after text = text := by
  induction text generalizing after with
  | nil => rfl
  | cons byte rest ih =>
    rw [List.mem_cons, not_or] at free
    rw [squeeze, if_neg (Ne.symm free.1), ih false free.2]

theorem thing_clean_of_free (free : space ∉ text) : thingClean text = text := by
  rw [thing_clean_eq, squeeze_of_free false text free]
  refine trim_eq text ?_ ?_
  · exact fun head => free (List.mem_of_head? head)
  · exact fun last => free (List.mem_of_getLast? last)

theorem mem_squeeze (byte : UInt8) (member : byte ∈ squeeze after text) : byte ∈ text := by
  induction text generalizing after with
  | nil => exact member
  | cons first rest ih =>
    rw [List.mem_cons]
    simp only [squeeze] at member
    split_ifs at member with blank doubled
    · exact Or.inr (ih true member)
    · rcases List.mem_cons.mp member with rfl | later
      · exact Or.inl blank.symm
      · exact Or.inr (ih true later)
    · rcases List.mem_cons.mp member with rfl | later
      · exact Or.inl rfl
      · exact Or.inr (ih false later)

theorem mem_thing_clean (byte : UInt8) (member : byte ∈ thingClean text) : byte ∈ text := by
  obtain ⟨front, back, _, _, shape, _⟩ :=
    trim_shape (squeeze_spaced false text).1
  refine mem_squeeze false text byte ?_
  rw [shape, ← thing_clean_eq]
  simp [member]

/-! ### Normalising a part of a text -/

theorem squeeze_append (front back : List UInt8) :
    ∃ flag, squeeze after (front ++ back) = squeeze after front ++ squeeze flag back := by
  induction front generalizing after with
  | nil => exact ⟨after, rfl⟩
  | cons byte rest ih =>
    by_cases blank : byte = space
    · cases after with
      | true =>
        obtain ⟨flag, same⟩ := ih true
        exact ⟨flag, by simpa [squeeze, blank] using same⟩
      | false =>
        obtain ⟨flag, same⟩ := ih true
        exact ⟨flag, by simpa [squeeze, blank] using same⟩
    · obtain ⟨flag, same⟩ := ih false
      exact ⟨flag, by simpa [squeeze, blank] using same⟩

theorem trim_front {copied front back : List UInt8} (start : front = [] ∨ front = [space])
    (shape : copied = front ++ (trim copied ++ back)) (content : trim copied ≠ [])
    (head : (trim copied).head? ≠ some space) : copied.head? = some space ↔ front = [space] := by
  obtain ⟨first, others, same⟩ := List.exists_cons_of_ne_nil content
  rw [same] at shape head
  rcases start with rfl | rfl
  · rw [shape]
    simpa using head
  · simp [shape]

theorem trim_append_length {part lost : List UInt8} (partSpaced : Spaced part)
    (wholeSpaced : Spaced (part ++ lost)) : (trim part).length ≤ (trim (part ++ lost)).length := by
  obtain ⟨front, back, start, _, shape, head, last⟩ := trim_shape partSpaced
  obtain ⟨wholeFront, wholeBack, wholeStart, ended, wholeShape, wholeHead, _⟩ :=
    trim_shape wholeSpaced
  by_cases nothing : trim part = []
  · simp [nothing]
  obtain ⟨first, others, starts⟩ := List.exists_cons_of_ne_nil nothing
  have content : trim (part ++ lost) ≠ [] := by
    -- otherwise every byte is a space, the first of the trimmed part too
    intro empty
    have member : first ∈ wholeFront ++ wholeBack := by
      have present : first ∈ part ++ lost := by
        rw [shape, starts]
        simp
      rwa [wholeShape, empty, List.nil_append] at present
    have blank : ∀ byte ∈ wholeFront ++ wholeBack, byte = space := by
      rcases wholeStart with rfl | rfl <;> rcases ended with rfl | rfl <;> simp
    exact head (by rw [starts, blank first member]; rfl)
  have same : front = wholeFront := by
    have partFront := trim_front start shape nothing head
    have wholeFronts := trim_front wholeStart wholeShape content wholeHead
    have heads : (part ++ lost).head? = part.head? := by
      rw [shape, starts]
      rcases start with rfl | rfl <;> simp
    rw [heads, partFront] at wholeFronts
    rcases start with rfl | rfl <;> rcases wholeStart with rfl | rfl <;> simp at wholeFronts ⊢
  have rest : trim part ++ (back ++ lost) = trim (part ++ lost) ++ wholeBack := by
    have equal := wholeShape
    nth_rewrite 1 [shape] at equal
    simpa [same] using equal
  by_contra longer
  rcases ended with rfl | rfl
  · have lengths := congrArg List.length rest
    simp only [List.length_append, List.length_nil] at lengths
    omega
  · have lengths := congrArg List.length rest
    simp only [List.length_append, List.length_cons, List.length_nil] at lengths
    have equal : trim part = trim (part ++ lost) ++ [space] := by
      refine (List.append_inj (rest.trans (List.append_nil _).symm) ?_).1
      simp only [List.length_append, List.length_cons, List.length_nil]
      omega
    exact last (by rw [equal]; simp)

theorem thing_clean_take_length (room : Nat) :
    (thingClean (text.take room)).length ≤ (thingClean text).length := by
  obtain ⟨flag, copied⟩ := squeeze_append false (text.take room) (text.drop room)
  have wholeSpaced := (squeeze_spaced false text).1
  rw [List.take_append_drop] at copied
  rw [thing_clean_eq, thing_clean_eq, copied]
  rw [copied] at wholeSpaced
  exact trim_append_length (squeeze_spaced false (text.take room)).1 wholeSpaced

end Cprogramming.GameManagement.Texts
