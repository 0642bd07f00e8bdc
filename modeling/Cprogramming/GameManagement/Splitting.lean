import Cprogramming.GameManagement.Normalisation

/-!
# Splitting and joining

`queue_to_queue` over the bytes of its string: the absolute index `i`, the start
`str` of the present token and the index `j` in it, with delimiters overwritten by
terminators and one turn more than the string has bytes. `queue_to_string` joins
the texts of a queue again. The indices are `int` in the source and have no bound here:
the strings are shorter than `2 ^ 31 - 2` bytes.
-/

namespace Cprogramming.GameManagement.Splitting

open Library.ByteMemory Library.CStrings Library.Fields
open Normalisation Texts

set_option autoImplicit false

/-! ## `queue_to_queue` -/

structure Tokens where
  memory : Memory
  str : Nat
  j : Int
  queue : List CString

/-- `strlen` of the tokens is found in `size` bytes. -/
def splitTurn (delem : UInt8) (size : Nat) (copies : Nat → Memory) (i : Nat) (tokens : Tokens) :
    Tokens :=
  let j := tokens.j + 1
  let byte := tokens.memory (tokens.str + j)
  if byte = delem ∨ byte = 0 then
    let memory := store tokens.memory (tokens.str + j) [0]
    let token := readString memory tokens.str size
    { memory := memory
      str := i + 1
      j := -1
      queue := if 0 < token.bytes.length then tokens.queue ++ [cleaned token (copies i)]
        else tokens.queue }
  else { tokens with j := j }

def splitTurns (delem : UInt8) (size : Nat) (copies : Nat → Memory) : Nat → Nat → Tokens → Tokens
  | 0, _, tokens => tokens
  | turns + 1, i, tokens =>
    splitTurns delem size copies turns (i + 1) (splitTurn delem size copies i tokens)

/-- `junk` is what the memory around the string holds, `copies` what the copies of
the tokens are allocated over. The loop runs up to `i = strlen(str) + 1`. -/
def splitString (text : CString) (delem : UInt8) (junk : Memory) (copies : Nat → Memory) : Tokens :=
  splitTurns delem text.size copies (text.size + 1) 0 ⟨store junk 0 text.terminated, 0, -1, []⟩

def queueToQueueIn (text : CString) (delem : UInt8) (junk : Memory) (copies : Nat → Memory) :
    List CString :=
  (splitString text delem junk copies).queue

/-! ## `queue_to_string` -/

/-- `thing_add`: the delimiter is appended as a string of one character. -/
def thingAddString (src addon : CString) (delem : UInt8) : CString :=
  (src.append (CString.ofBytes [delem])).append addon

def joinTurns (delem : UInt8) (copies : Nat → Memory) : Nat → CString → List CString → CString
  | _, joined, [] => joined
  | turn, joined, next :: rest =>
    joinTurns delem copies (turn + 1)
      (thingAddString joined (cleaned next (copies turn)) delem) rest

def queueToStringIn (queue : List CString) (delem : UInt8) (copies : Nat → Memory) :
    Option CString :=
  match queue with
  | [] => none
  | text :: rest => some (joinTurns delem copies 1 (cleaned text (copies 0)) rest)

/-! ## One turn -/

/-- The state in front of `rest`, with `current` read of the present token. -/
structure Reading (delem : UInt8) (text current rest : List UInt8) (tokens : Tokens) : Prop where
  place : tokens.j = (current.length : Int) - 1
  short : (current ++ rest).length ≤ text.length
  inner : (0 : UInt8) ∉ current ++ rest
  free : delem ∉ current
  held : ∀ index : Nat, index < current.length →
    tokens.memory (tokens.str + index) = current.getD index 0
  ahead : ∀ index : Nat, index ≤ rest.length →
    tokens.memory (tokens.str + current.length + index) = (rest ++ [0]).getD index 0
  queued : tokens.queue.map CString.bytes ++ (fields delem (current ++ rest)).map thingClean =
    (fields delem text).map thingClean

theorem fields_of_free {delem : UInt8} {text : List UInt8} (free : delem ∉ text) :
    fields delem text = if 0 < text.length then [text] else [] := by
  rw [fields, List.splitOn_eq_singleton free]
  cases text with
  | nil => rfl
  | cons byte rest => rfl

theorem token_read (memory : Memory) (str size : Nat) (current : List UInt8)
    (inner : (0 : UInt8) ∉ current) (room : current.length < size)
    (held : ∀ index : Nat, index < current.length → memory (str + index) = current.getD index 0) :
    (readString (store memory (str + current.length) [0]) str size).bytes = current := by
  apply scan_of_terminated _ _ _ _ inner room
  · intro index inside
    rw [store_outside _ _ _ _ (Or.inl (by omega)), held index inside]
  · exact store_single memory (str + current.length) 0

theorem token_queued {delem : UInt8} (queue : List CString) {token : CString} (copy : Memory)
    (free : delem ∉ token.bytes) :
    (if 0 < token.bytes.length then queue ++ [cleaned token copy] else queue).map CString.bytes =
      queue.map CString.bytes ++ (fields delem token.bytes).map thingClean := by
  rw [fields_of_free free]
  split_ifs
  · rw [List.map_append, List.map_singleton, cleaned_bytes, List.map_singleton]
  · rw [List.map_nil, List.append_nil]

section Turns

variable (delem : UInt8) (text : List UInt8) (size : Nat) (copies : Nat → Memory)

theorem turn_byte (current rest : List UInt8) (tokens : Tokens)
    (reading : Reading delem text current rest tokens) :
    tokens.memory (tokens.str + (tokens.j + 1)) = (rest ++ [0]).headD 0 := by
  have here := reading.ahead 0 (Nat.zero_le _)
  rw [Nat.cast_zero, Int.add_zero] at here
  rw [reading.place, Int.sub_add_cancel, here]
  cases rest with
  | nil => rfl
  | cons byte later => rfl

theorem turn_goes_on (i : Nat) (current rest : List UInt8) (byte : UInt8) (tokens : Tokens)
    (reading : Reading delem text current (byte :: rest) tokens) (other : byte ≠ delem) :
    Reading delem text (current ++ [byte]) rest (splitTurn delem size copies i tokens) ∧
      (splitTurn delem size copies i tokens).str = tokens.str := by
  have here : tokens.memory (tokens.str + (tokens.j + 1)) = byte :=
    turn_byte delem text current (byte :: rest) tokens reading
  have inner : byte ≠ 0 := by
    rintro rfl
    exact reading.inner (by simp)
  have turned : splitTurn delem size copies i tokens = { tokens with j := tokens.j + 1 } := by
    rw [splitTurn]
    rw [here, if_neg (by simp [other, inner])]
  have same : current ++ [byte] ++ rest = current ++ byte :: rest := by simp
  rw [turned]
  refine ⟨⟨?_, ?_, ?_, ?_, ?_, ?_, ?_⟩, rfl⟩
  · simp only [reading.place, List.length_append, List.length_singleton]
    omega
  · rw [same]
    exact reading.short
  · rw [same]
    exact reading.inner
  · simp [reading.free, Ne.symm other]
  · intro index inside
    rw [List.length_append, List.length_singleton] at inside
    rcases Nat.lt_or_eq_of_le (Nat.le_of_lt_succ inside) with before | rfl
    · rw [List.getD_append _ _ _ _ before]
      exact reading.held index before
    · rw [List.getD_append_right _ _ _ _ (Nat.le_refl _), Nat.sub_self]
      have first := reading.ahead 0 (Nat.zero_le _)
      rwa [Nat.cast_zero, Int.add_zero] at first
  · intro index inside
    have later := reading.ahead (index + 1) (by rw [List.length_cons]; omega)
    rw [List.length_append, List.length_singleton]
    rw [show (tokens.str : Int) + ((current.length + 1 : Nat) : Int) + index =
      tokens.str + current.length + ((index + 1 : Nat) : Int) by omega, later]
    rfl
  · rw [same]
    exact reading.queued

theorem turn_ends (room : text.length < size) (i : Nat) (current rest : List UInt8)
    (tokens : Tokens) (reading : Reading delem text current rest tokens)
    (ends : (rest ++ [0]).headD 0 = delem ∨ (rest ++ [0]).headD 0 = 0) :
    (splitTurn delem size copies i tokens).memory =
        store tokens.memory (tokens.str + current.length) [0] ∧
      (splitTurn delem size copies i tokens).str = i + 1 ∧
        (splitTurn delem size copies i tokens).j = -1 ∧
          (splitTurn delem size copies i tokens).queue.map CString.bytes =
            tokens.queue.map CString.bytes ++ (fields delem current).map thingClean := by
  have here := turn_byte delem text current rest tokens reading
  have inner : (0 : UInt8) ∉ current := fun member => reading.inner (by simp [member])
  have short := reading.short
  rw [List.length_append] at short
  have token := token_read tokens.memory tokens.str size current inner (by omega) reading.held
  rw [splitTurn]
  rw [here, if_pos ends]
  rw [reading.place, Int.sub_add_cancel]
  refine ⟨rfl, rfl, rfl, ?_⟩
  have free : delem ∉ (readString (store tokens.memory (tokens.str + current.length) [0])
      tokens.str size).bytes := by
    rw [token]
    exact reading.free
  rw [token_queued tokens.queue (copies i) free, token]

theorem turn_at_delimiter (room : text.length < size) (i : Nat) (current rest : List UInt8)
    (tokens : Tokens) (reading : Reading delem text current (delem :: rest) tokens)
    (index : i = tokens.str + current.length) :
    Reading delem text [] rest (splitTurn delem size copies i tokens) ∧
      (splitTurn delem size copies i tokens).str = i + 1 := by
  obtain ⟨memory, str, j, queue⟩ :=
    turn_ends delem text size copies room i current (delem :: rest) tokens reading (Or.inl rfl)
  have short := reading.short
  rw [List.length_append, List.length_cons] at short
  refine ⟨⟨?_, ?_, ?_, ?_, ?_, ?_, ?_⟩, str⟩
  · rw [j]
    rfl
  · rw [List.nil_append]
    omega
  · intro member
    rw [List.nil_append] at member
    exact reading.inner (by simp [member])
  · simp
  · intro index inside
    cases inside
  · intro position inside
    have later := reading.ahead (position + 1) (by rw [List.length_cons]; omega)
    rw [memory, str, store_outside _ _ _ _ (Or.inr (by simp; omega))]
    rw [show ((i + 1 : Nat) : Int) + ((([] : List UInt8).length : Nat) : Int) + position =
      tokens.str + current.length + ((position + 1 : Nat) : Int) by simp; omega, later]
    rfl
  · rw [queue, List.nil_append, List.append_assoc, ← List.map_append, ← fields_at_separator]
    exact reading.queued

theorem split_turn_place (i : Nat) (tokens : Tokens) (place : tokens.str + (tokens.j + 1) = i) :
    (splitTurn delem size copies i tokens).str + ((splitTurn delem size copies i tokens).j + 1) =
      ((i + 1 : Nat) : Int) := by
  rw [splitTurn]
  split
  · simp
  · dsimp only
    omega

/-- A turn writes at its own index, if at all. -/
theorem split_turns_frame (turns i : Nat) (tokens : Tokens)
    (place : tokens.str + (tokens.j + 1) = i) (other : Int)
    (outside : other < i ∨ i + turns ≤ other) :
    (splitTurns delem size copies turns i tokens).memory other = tokens.memory other := by
  induction turns generalizing i tokens with
  | zero => rfl
  | succ turns ih =>
    rw [splitTurns, ih (i + 1) _ (split_turn_place delem size copies i tokens place) (by omega)]
    rw [splitTurn]
    split
    · exact store_outside _ _ _ _ (by simp only [place, List.length_singleton]; omega)
    · rfl

/-- The turn behind the terminator ends an empty token or none, whatever byte it
looks at. -/
theorem turn_behind (i : Nat) (tokens : Tokens) (start : tokens.j = -1) (room : 0 < size) :
    (splitTurn delem size copies i tokens).queue = tokens.queue := by
  rw [splitTurn]
  rw [start, neg_add_cancel, Int.add_zero]
  have token := token_read tokens.memory tokens.str size [] (by simp) room
    (fun index inside => absurd inside (Nat.not_lt_zero index))
  rw [List.length_nil, Nat.cast_zero, Int.add_zero] at token
  by_cases ends : tokens.memory tokens.str = delem ∨ tokens.memory tokens.str = 0
  · rw [if_pos ends]
    dsimp only
    rw [if_neg (by rw [token]; simp)]
  · rw [if_neg ends]

theorem split_turns_queue (room : text.length < size) (rest current : List UInt8)
    (tokens : Tokens) (i : Nat) (reading : Reading delem text current rest tokens)
    (index : i = tokens.str + current.length) :
    (splitTurns delem size copies (rest.length + 2) i tokens).queue.map CString.bytes =
      (fields delem text).map thingClean := by
  induction rest generalizing current tokens i with
  | nil =>
    obtain ⟨_, _, j, queue⟩ :=
      turn_ends delem text size copies room i current [] tokens reading (Or.inr rfl)
    have last := turn_behind delem size copies (i + 1) _ j (by omega)
    have all := reading.queued
    rw [List.append_nil, ← queue, ← last] at all
    exact all
  | cons byte rest ih =>
    by_cases same : byte = delem
    · subst same
      obtain ⟨next, str⟩ :=
        turn_at_delimiter byte text size copies room i current rest tokens reading index
      exact ih [] _ (i + 1) next (by rw [str]; rfl)
    · obtain ⟨next, str⟩ :=
        turn_goes_on delem text size copies i current rest byte tokens reading same
      refine ih (current ++ [byte]) _ (i + 1) next ?_
      rw [str, index, List.length_append]
      rfl

end Turns

theorem queue_to_queue_bytes (text : CString) (delem : UInt8) (junk : Memory)
    (copies : Nat → Memory) :
    (queueToQueueIn text delem junk copies).map CString.bytes =
      (fields delem text.bytes).map thingClean := by
  have start : Reading delem text.bytes [] text.bytes
      ⟨store junk 0 text.terminated, 0, -1, []⟩ := by
    refine ⟨rfl, by simp, text.nulFree, by simp, by simp, ?_, rfl⟩
    intro index inside
    have byte := store_at junk 0 text.terminated index
      (by rw [CString.terminated, List.length_append, List.length_singleton]; omega)
    simpa [CString.terminated] using byte
  exact split_turns_queue delem text.bytes text.size copies (Nat.lt_succ_self _) text.bytes [] _ 0
    start rfl

/-- The loop over the bytes yields the queue of the texts, and leaves all memory but
the string and the byte behind it. -/
theorem queue_to_queue_refines (text : CString) (delem : UInt8) (junk : Memory)
    (copies : Nat → Memory) :
    (queueToQueueIn text delem junk copies).map CString.bytes = queueToQueue text.bytes delem ∧
      ∀ other : Int, other < 0 ∨ text.size < other →
        (splitString text delem junk copies).memory other = junk other := by
  constructor
  · rw [queue_to_queue_bytes, queue_to_queue_eq]
  · intro other outside
    rw [splitString, split_turns_frame _ _ _ _ _ _ rfl other (by push_cast; omega)]
    refine store_outside _ _ _ _ ?_
    simp only [CString.terminated, CString.size, List.length_append,
      List.length_singleton] at outside ⊢
    omega

/-! ## Joining -/

theorem thing_add_bytes (src addon : CString) {delem : UInt8} (visible : delem ≠ 0) :
    (thingAddString src addon delem).bytes = thingAdd src.bytes addon.bytes delem := by
  simp [thingAddString, CString.append, CString.ofBytes, visible, thingAdd]

theorem join_turns_bytes {delem : UInt8} (visible : delem ≠ 0) (copies : Nat → Memory)
    (turn : Nat) (joined : CString) (rest : List CString) :
    (joinTurns delem copies turn joined rest).bytes =
      [delem].intercalate (joined.bytes :: rest.map fun text => thingClean text.bytes) := by
  induction rest generalizing turn joined with
  | nil => simp [joinTurns]
  | cons next rest ih =>
    rw [joinTurns, ih, thing_add_bytes _ _ visible, cleaned_bytes, thingAdd]
    cases rest with
    | nil => simp [List.intercalate_cons_cons]
    | cons later others => simp [List.intercalate_cons_cons]

theorem queue_to_string_refines (queue : List CString) {delem : UInt8} (visible : delem ≠ 0)
    (copies : Nat → Memory) : (queueToStringIn queue delem copies).map CString.bytes =
      queueToString (queue.map CString.bytes) delem := by
  have turns (turn : Nat) (joined : CString) (rest : List CString) :
      (joinTurns delem copies turn joined rest).bytes =
        (rest.map CString.bytes).foldl
          (fun joined next => thingAdd joined (thingClean next) delem) joined.bytes := by
    induction rest generalizing turn joined with
    | nil => rfl
    | cons next rest ih =>
      rw [joinTurns, ih, thing_add_bytes _ _ visible, cleaned_bytes]
      rfl
  cases queue with
  | nil => rfl
  | cons first rest =>
    rw [queueToStringIn, Option.map_some, turns, cleaned_bytes]
    rfl

structure Joinable (delem : UInt8) (text : CString) : Prop where
  normal : normalForm text.bytes = text.bytes
  nonempty : text.bytes ≠ []
  free : delem ∉ text.bytes

theorem joinable_kept {delem : UInt8} {queue : List CString}
    (joinable : ∀ text ∈ queue, Joinable delem text) :
    queue.map (fun text => thingClean text.bytes) = queue.map CString.bytes := by
  apply List.map_congr_left
  intro text member
  rw [thing_clean_normal, (joinable text member).normal]

theorem fields_of_joined (delem : UInt8) (texts : List (List UInt8)) (nonempty : texts ≠ [])
    (filled : ∀ text ∈ texts, text ≠ []) (free : ∀ text ∈ texts, delem ∉ text) :
    fields delem ([delem].intercalate texts) = texts := by
  rw [fields, List.splitOn_intercalate delem free nonempty, Library.Fields.filled,
    List.filter_eq_self]
  intro text member
  simpa using filled text member

theorem joined_back {delem : UInt8} (visible : delem ≠ 0) {queue : List CString}
    (nonempty : queue ≠ []) (joinable : ∀ text ∈ queue, Joinable delem text)
    (copies : Nat → Memory) : ∃ joined, queueToStringIn queue delem copies = some joined ∧
      fields delem joined.bytes = queue.map CString.bytes := by
  have same := joinable_kept joinable
  cases queue with
  | nil => exact absurd rfl nonempty
  | cons first rest =>
    refine ⟨_, rfl, ?_⟩
    rw [join_turns_bytes visible, cleaned_bytes, ← List.map_cons
      (f := fun text : CString => thingClean text.bytes), same]
    apply fields_of_joined
    · simp
    · intro bytes member
      obtain ⟨text, present, rfl⟩ := List.mem_map.mp member
      exact (joinable text present).nonempty
    · intro bytes member
      obtain ⟨text, present, rfl⟩ := List.mem_map.mp member
      exact (joinable text present).free

/-- With a delimiter that is no NUL, what `queue_to_string` joins `queue_to_queue`
splits into the same texts. With any delimiter `queue_to_queue` yields the normal
forms of the fields of the string, and nothing else. -/
theorem splitting_inverts_joining (delem : UInt8) :
    (∀ queue : List CString, delem ≠ 0 → queue ≠ [] →
      (∀ text ∈ queue, Joinable delem text) → ∀ joinCopies : Nat → Memory,
        ∃ joined, queueToStringIn queue delem joinCopies = some joined ∧
          ∀ junk copies, queueToQueueIn joined delem junk copies = queue) ∧
      ∀ (text : CString) (junk : Memory) (copies : Nat → Memory),
        (queueToQueueIn text delem junk copies).map CString.bytes =
          (fields delem text.bytes).map normalForm := by
  constructor
  · intro queue visible nonempty joinable joinCopies
    obtain ⟨joined, made, split⟩ :=
      joined_back visible nonempty joinable joinCopies
    refine ⟨joined, made, ?_⟩
    intro junk copies
    have bytes := queue_to_queue_bytes joined delem junk copies
    rw [split, List.map_map] at bytes
    have same := bytes.trans (joinable_kept joinable)
    exact List.map_injective_iff.mpr cstring_ext same
  · intro text junk copies
    rw [queue_to_queue_bytes]
    exact List.map_congr_left fun piece _ => thing_clean_normal piece

def twoTexts : List CString := [CString.ofBytes [97], CString.ofBytes [98]]

theorem two_texts_joinable (delem : UInt8) (first : delem ≠ 97) (second : delem ≠ 98) :
    ∀ text ∈ twoTexts, Joinable delem text := by
  intro text member
  simp only [twoTexts, List.mem_cons, List.not_mem_nil, or_false] at member
  rcases member with rfl | rfl
  · exact ⟨by decide, by decide, by simpa [CString.ofBytes] using first⟩
  · exact ⟨by decide, by decide, by simpa [CString.ofBytes] using second⟩

/-- Joined with NUL, the two texts become the one text "ab". -/
theorem nul_joins_without_delimiter :
    (∀ text ∈ twoTexts, Joinable 0 text) ∧
      queueToStringIn twoTexts 0 (fun _ => zeroed) = some (CString.ofBytes [97, 98]) ∧
        queueToQueueIn (CString.ofBytes [97, 98]) 0 zeroed (fun _ => zeroed) =
          [CString.ofBytes [97, 98]] ∧
          queueToQueueIn (CString.ofBytes [97, 98]) 0 zeroed (fun _ => zeroed) ≠ twoTexts := by
  refine ⟨two_texts_joinable 0 (by decide) (by decide), ?_, ?_, ?_⟩
  · decide +kernel
  · decide +kernel
  · decide +kernel

theorem two_texts_back :
    ∃ joined, queueToStringIn twoTexts comma (fun _ => zeroed) = some joined ∧
      ∀ junk copies, queueToQueueIn joined comma junk copies = twoTexts :=
  (splitting_inverts_joining comma).1 twoTexts (by decide) (by decide)
    (two_texts_joinable comma (by decide) (by decide)) fun _ => zeroed

end Cprogramming.GameManagement.Splitting
