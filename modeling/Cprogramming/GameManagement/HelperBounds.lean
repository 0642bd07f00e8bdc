import Cprogramming.GameManagement.Splitting

/-!
# The bounds of the string helpers

The indices that `thing_clean` and `queue_to_queue` read and write. The copy that
`thing_clean` allocates has as many bytes as its argument with the terminator, so one
bound serves for both arrays.
-/

namespace Cprogramming.GameManagement.HelperBounds

open Library.ByteMemory Library.CStrings
open Normalisation Splitting Texts

set_option autoImplicit false

/-! ## The accesses -/

def skipReads (text : CString) : Nat → Nat → List Int
  | 0, _ => []
  | fuel + 1, j =>
    (j : Int) :: if byteOf text j = space ∧ j < text.size then skipReads text fuel (j + 1) else []

def copyAccesses (text : CString) : Nat → Nat → Nat → List Int
  | 0, _, _ => []
  | fuel + 1, i, f =>
    if i < text.size then
      if byteOf text i = space then
        let j := skipSpaces text text.size (i + 1)
        (i : Int) :: skipReads text text.size (i + 1) ++
          if i ≠ j - 1 then
            [(f : Int), (i : Int), (f : Int) + 1, (j : Int)] ++ copyAccesses text fuel (j + 1) (f + 2)
          else [(f : Int), (i : Int)] ++ copyAccesses text fuel (i + 1) (f + 1)
      else [(i : Int), (f : Int), (i : Int)] ++ copyAccesses text fuel (i + 1) (f + 1)
    else []

def cleanAccesses (text : CString) (junk : Memory) : List Int :=
  let (copy, copied) := copyTurns text text.size 0 junk 0
  let f : Int := if copy (copied - 2) = space then copied - 1 else copied
  let ended := store copy (f - 1) [0]
  (List.range text.size).map Int.ofNat ++ copyAccesses text text.size 0 0 ++
    [(copied : Int) - 2, f - 1, 0] ++
    (if ended 0 = space then
      (List.range f.toNat).flatMap fun t : Nat => [(t : Int) + 1, (t : Int)] else []) ++
    (List.range (cleaned text junk).size).map Int.ofNat

/-- The accesses `str[j]` of `queue_to_queue`, from the start of its argument. -/
def splitAccesses (delem : UInt8) (size : Nat) (copies : Nat → Memory) :
    Nat → Nat → Tokens → List Int
  | 0, _, _ => []
  | turns + 1, i, tokens =>
    (tokens.str + (tokens.j + 1)) ::
      splitAccesses delem size copies turns (i + 1) (splitTurn delem size copies i tokens)

def queueAccesses (text : CString) (delem : UInt8) (junk : Memory) (copies : Nat → Memory) :
    List Int :=
  splitAccesses delem text.size copies (text.size + 1) 0 ⟨store junk 0 text.terminated, 0, -1, []⟩

def Inside (text : CString) (index : Int) : Prop := 0 ≤ index ∧ index < text.size

/-! ## `thing_clean` -/

variable {text : CString}

theorem place_inside {place : Nat} (inside : place ≤ text.bytes.length) : Inside text place := by
  simp only [Inside, CString.size]
  omega

theorem space_inside {index : Nat} (inside : index ≤ text.bytes.length)
    (blank : byteOf text index = space) : index < text.bytes.length := by
  apply Nat.lt_of_le_of_ne inside
  intro ended
  rw [byte_of_drop inside, ended, List.drop_length] at blank
  exact absurd blank (by decide)

theorem skip_reads_inside (fuel j : Nat) (inside : j ≤ text.bytes.length) :
    ∀ index ∈ skipReads text fuel j, Inside text index := by
  induction fuel generalizing j with
  | zero => simp [skipReads]
  | succ fuel ih =>
    intro index member
    rcases List.mem_cons.mp member with rfl | later
    · exact place_inside inside
    · split_ifs at later with blank
      · exact ih (j + 1) (space_inside inside blank.1) index later
      · exact absurd later List.not_mem_nil

theorem copy_accesses_inside (fuel i f : Nat) (behind : f ≤ i) :
    ∀ index ∈ copyAccesses text fuel i f, Inside text index := by
  induction fuel generalizing i f with
  | zero => simp [copyAccesses]
  | succ fuel ih =>
    intro index member
    rw [copyAccesses] at member
    split_ifs at member with inside blank
    · have before := space_inside (Nat.lt_succ_iff.mp inside) blank
      have reads := skip_reads_inside text.size (i + 1) before
      obtain ⟨bound, further, _⟩ :=
        skip_spaces_eq text text.size (i + 1) before (by simp only [CString.size]; omega)
      generalize skipSpaces text text.size (i + 1) = j at bound further member
      rw [List.cons_append, List.mem_cons, List.mem_append] at member
      rcases member with rfl | skipped | copied
      · exact place_inside (by omega)
      · exact reads index skipped
      · split_ifs at copied with several
        · simp only [List.cons_append, List.nil_append, List.mem_cons] at copied
          rcases copied with rfl | rfl | rfl | rfl | later
          · exact place_inside (by omega)
          · exact place_inside (by omega)
          · exact place_inside (show f + 1 ≤ _ by omega)
          · exact place_inside bound
          · exact ih (j + 1) (f + 2) (by omega) index later
        · simp only [List.cons_append, List.nil_append, List.mem_cons] at copied
          rcases copied with rfl | rfl | later
          · exact place_inside (by omega)
          · exact place_inside (by omega)
          · exact ih (i + 1) (f + 1) (by omega) index later
    · have within : i ≤ text.bytes.length := Nat.lt_succ_iff.mp inside
      simp only [List.cons_append, List.nil_append, List.mem_cons] at member
      rcases member with rfl | rfl | rfl | later
      · exact place_inside within
      · exact place_inside (by omega)
      · exact place_inside within
      · exact ih (i + 1) (f + 1) (by omega) index later
    · exact absurd member List.not_mem_nil

def cutCopy (text : CString) : List UInt8 :=
  if (squeeze false text.bytes).getLast? = some space then (squeeze false text.bytes).dropLast
  else squeeze false text.bytes

theorem squeeze_nonempty (nonempty : text.bytes ≠ []) : 0 < (squeeze false text.bytes).length := by
  cases bytes : text.bytes with
  | nil => exact absurd bytes nonempty
  | cons byte rest =>
    by_cases blank : byte = space
    · simp [squeeze, blank]
    · simp [squeeze, blank]

theorem cut_copy_length (text : CString) :
    (cutCopy text).length ≤ (squeeze false text.bytes).length := by
  rw [cutCopy]
  split_ifs
  · simp
  · exact Nat.le_refl _

/-- The accesses of a string that is not empty, with `f` one behind the terminator. -/
theorem clean_accesses_eq (nonempty : text.bytes ≠ []) (junk : Memory) :
    cleanAccesses text junk =
      (List.range text.size).map Int.ofNat ++ copyAccesses text text.size 0 0 ++
        [((squeeze false text.bytes).length : Int) - 1, (cutCopy text).length, 0] ++
        (if (cutCopy text).head? = some space then
          (List.range ((cutCopy text).length + 1)).flatMap fun t : Nat => [(t : Int) + 1, (t : Int)]
          else []) ++ (List.range (cleaned text junk).size).map Int.ofNat := by
  have copied := copy_turns_eq text text.size 0 junk 0 (Nat.zero_le _)
    (by simp only [CString.size]; omega)
  rw [List.drop_zero, Nat.zero_add] at copied
  have held := store_holds junk (squeeze false text.bytes)
  have content := List.ne_nil_of_length_pos (squeeze_nonempty nonempty)
  rw [cleanAccesses, copied]
  dsimp only
  generalize store junk 0 (squeeze false text.bytes ++ [0]) = memory at held
  have place : (((squeeze false text.bytes).length + 1 : Nat) : Int) - 2 =
      ((squeeze false text.bytes).length : Int) - 1 := by omega
  rw [place, Nat.cast_add, Nat.cast_one, Int.add_sub_cancel]
  generalize patched : (if memory (((squeeze false text.bytes).length : Int) - 1) = space then
    ((squeeze false text.bytes).length : Int) else (squeeze false text.bytes).length + 1) = f
  obtain ⟨ended, index⟩ := holds_end memory held patched.symm
  have behind : f = (cutCopy text).length + 1 := index content
  simp only [holds_first _ ended]
  rw [behind, Int.add_sub_cancel]
  rfl

theorem clean_inside_iff_cut (junk : Memory) :
    (∀ index ∈ cleanAccesses text junk, Inside text index) ↔ text.bytes ≠ [] ∧
      ((cutCopy text).head? = some space → (cutCopy text).length < text.bytes.length) := by
  by_cases empty : text.bytes = []
  · apply iff_of_false _ (fun both => both.1 empty)
    intro inside
    have copied := copy_turns_eq text text.size 0 junk 0 (Nat.zero_le _)
      (by simp only [CString.size]; omega)
    have before := inside (-1) (by simp [cleanAccesses, copied, empty, squeeze])
    exact absurd before.1 (by decide)
  · have copied := squeeze_nonempty empty
    have short := squeeze_length false text.bytes
    have cut := cut_copy_length text
    have back := thing_clean_length text.bytes
    have ranges : ∀ count ≤ text.size, ∀ index ∈ (List.range count).map Int.ofNat,
        Inside text index := by
      intro count bound index member
      obtain ⟨place, counted, rfl⟩ := List.mem_map.mp member
      have before := List.mem_range.mp counted
      exact place_inside (by simp only [CString.size] at bound; omega)
    have small : (cleaned text junk).size ≤ text.size := by
      simp only [CString.size, cleaned_bytes]
      omega
    have ends : ∀ index ∈ [((squeeze false text.bytes).length : Int) - 1, (cutCopy text).length, 0],
        Inside text index := by
      simp only [List.mem_cons, List.not_mem_nil, or_false, Inside, CString.size]
      omega
    constructor
    · intro inside
      refine ⟨empty, ?_⟩
      intro start
      have reached := inside ((cutCopy text).length + 1) (by
        rw [clean_accesses_eq empty, if_pos start]
        apply List.mem_append_left
        apply List.mem_append_right
        exact List.mem_flatMap.mpr ⟨(cutCopy text).length, by simp, by simp⟩)
      simp only [Inside, CString.size] at reached
      omega
    · intro both index member
      rw [clean_accesses_eq empty] at member
      simp only [List.mem_append] at member
      rcases member with (((source | copying) | patching) | shifting) | result
      · exact ranges text.size (Nat.le_refl _) index source
      · exact copy_accesses_inside text.size 0 0 (Nat.le_refl 0) index copying
      · exact ends index patching
      · split_ifs at shifting with start
        · have bound := both.2 start
          obtain ⟨t, counted, moved⟩ := List.mem_flatMap.mp shifting
          have before := List.mem_range.mp counted
          simp only [List.mem_cons, List.not_mem_nil, or_false] at moved
          simp only [Inside, CString.size]
          omega
        · exact absurd shifting List.not_mem_nil
      · exact ranges (cleaned text junk).size small index result

/-- The first byte is a space, the last one is not, and no two spaces are adjacent. -/
def LoneIndent (text : CString) : Prop :=
  text.bytes.head? = some space ∧ text.bytes.getLast? ≠ some space ∧ Spaced text.bytes

theorem cut_copy_short_iff (nonempty : text.bytes ≠ []) :
    ((cutCopy text).head? = some space → (cutCopy text).length < text.bytes.length) ↔
      ¬ LoneIndent text := by
  constructor
  · intro bound lone
    have whole : cutCopy text = text.bytes := by
      rw [cutCopy, squeeze_eq lone.2.2, if_neg lone.2.1]
    rw [whole] at bound
    exact Nat.lt_irrefl _ (bound lone.1)
  · intro other start
    by_contra long
    have cut := cut_copy_length text
    have whole := (squeeze_sublist false text.bytes).eq_of_length_le (by omega)
    have spaced := (squeeze_spaced false text.bytes).1
    have length := List.length_pos_of_ne_nil nonempty
    unfold cutCopy at start long
    rw [whole] at start long spaced
    split_ifs at start long with last
    · rw [List.length_dropLast] at long
      omega
    · exact other ⟨start, last, spaced⟩

/-! ## `queue_to_queue` -/

theorem split_accesses_eq (delem : UInt8) (size : Nat) (copies : Nat → Memory) (turns i : Nat)
    (tokens : Tokens) (place : tokens.str + (tokens.j + 1) = i) :
    splitAccesses delem size copies turns i tokens = (List.range' i turns).map Int.ofNat := by
  induction turns generalizing i tokens with
  | zero => rfl
  | succ turns ih =>
    have next := split_turn_place delem size copies i tokens place
    rw [splitAccesses, ih (i + 1) _ next, place]
    rfl

/-- `thing_clean` leaves its arrays for the empty string and for a lone leading space;
`queue_to_queue` looks behind the terminator of every string. -/
theorem helpers_inside_iff (text : CString) (delem : UInt8) (junk : Memory)
    (copies : Nat → Memory) :
    ((∀ index ∈ cleanAccesses text junk, Inside text index) ↔ text.bytes ≠ [] ∧ ¬ LoneIndent text) ∧
    ¬ ∀ index ∈ queueAccesses text delem junk copies, Inside text index := by
  constructor
  · rw [clean_inside_iff_cut]
    exact and_congr_right cut_copy_short_iff
  · intro inside
    have last := inside text.size (by
      rw [queueAccesses, split_accesses_eq _ _ _ _ _ _ (by simp)]
      exact List.mem_map.mpr ⟨text.size, by simp, rfl⟩)
    exact absurd last.2 (Int.lt_irrefl _)

theorem helpers_outside :
    (-1 ∈ cleanAccesses (CString.ofBytes []) (fun _ => 0) ∧ ¬ Inside (CString.ofBytes []) (-1)) ∧
    (3 ∈ cleanAccesses (CString.ofBytes [32, 97]) (fun _ => 0) ∧
      ¬ Inside (CString.ofBytes [32, 97]) 3) ∧
    2 ∈ queueAccesses (CString.ofBytes [97]) 44 (fun _ => 0) (fun _ _ => 0) ∧
      ¬ Inside (CString.ofBytes [97]) 2 := by
  unfold Inside
  decide

end Cprogramming.GameManagement.HelperBounds
