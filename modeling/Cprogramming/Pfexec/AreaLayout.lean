import Cprogramming.Pfexec.FillMbuf

/-!
# What a request area holds

For strings that fit the area together, each reference written by `fill_mbuf`
is described from the sizes alone. A string is kept whole unless it is the one
cut at the limit, which keeps its bytes up to one less than the limit. When the
bytes used are exactly half of the area the loop is stuck: every further
reference records the wrapped length and points at a NUL.
-/

namespace Cprogramming.Pfexec.AreaLayout

open Library.ByteMemory Library.CStrings Library.MachineWords Library.PackedLayout
open Protocol FillMbuf

set_option autoImplicit false

/-- Some string up to `index` starts at the exact middle of the area. -/
def Stuck (strings : List CString) (index : Nat) : Prop :=
  ∃ earlier, earlier ≤ index ∧ 2 * offsetAt (sizes strings) earlier = argMax

/-- The bytes of the string at `index` that its reference covers. -/
def keptBytes (strings : List CString) (index : Nat) (string : CString) : List UInt8 :=
  if 2 * offsetAt (sizes strings) index ≤ argMax then
    string.bytes.take (argMax - 2 * offsetAt (sizes strings) index - 1)
  else string.bytes

/-- The reference covers exactly `held`, which lies inside the area. -/
def RefHolds (area : Memory) (ref : PfexecArg) (held : List UInt8) : Prop :=
  ref.pfaLen = held.length ∧ ref.pfaOffset + held.length < argMax ∧
    ∀ index, index < held.length → area (ref.pfaOffset + index : Nat) = held.getD index 0

def Uncut (strings : List CString) : Prop :=
  ∀ index string, strings[index]? = some string → ¬ Cut (offsetAt (sizes strings) index) string.size

theorem offset_add_size_le (strings : List CString) (index : Nat) (string : CString)
    (entry : strings[index]? = some string) :
    offsetAt (sizes strings) index + string.size ≤ (sizes strings).sum := by
  rw [← offset_succ _ _ _ (size_entry strings index string entry)]
  exact offset_le_sum _ _

variable {strings : List CString} {index : Nat}

theorem split_at {string : CString} (entry : strings[index]? = some string) :
    strings = strings.take index ++ string :: strings.drop (index + 1) := by
  obtain ⟨bound, value⟩ := List.getElem?_eq_some_iff.mp entry
  rw [← value, ← List.drop_eq_getElem_cons bound, List.take_append_drop]

theorem uncut_or_split (strings : List CString) :
    Uncut strings ∨ ∃ before string after, strings = before ++ string :: after ∧
      Cut (sizes before).sum string.size := by
  by_cases uncut : Uncut strings
  · exact Or.inl uncut
  · simp only [Uncut, not_forall, not_not] at uncut
    obtain ⟨index, string, entry, cut⟩ := uncut
    refine Or.inr ⟨strings.take index, string, strings.drop (index + 1),
      split_at entry, ?_⟩
    rwa [sizes, List.map_take]

theorem uncut_of_half (strings : List CString) (half : 2 * (sizes strings).sum ≤ argMax) :
    Uncut strings := by
  intro index string entry cut
  have ends := offset_add_size_le strings index string entry
  have exceeds := cut.2
  omega

theorem uncut_all_whole (uncut : Uncut strings) (fits : (sizes strings).sum ≤ argMax) :
    AllWhole 0 strings := by
  intro index string entry
  have ends := offset_add_size_le strings index string entry
  have notCut := uncut index string entry
  unfold Cut at notCut
  unfold CopiedWhole
  omega

theorem before_middle_all_whole (before : 2 * (sizes strings).sum ≤ argMax) : AllWhole 0 strings :=
  uncut_all_whole (uncut_of_half strings before) (by omega)

theorem after_cut_all_whole {used size : Nat} (cut : Cut used size)
    (notMiddle : 2 * used ≠ argMax) (fits : used + size + (sizes strings).sum ≤ argMax) :
    AllWhole (argMax - used) strings := by
  intro index string entry
  have ends := offset_add_size_le strings index string entry
  obtain ⟨before, exceeds⟩ := cut
  exact Or.inr ⟨by omega, by omega⟩

/-! ## The three layouts -/

theorem fill_loop_stuck (strings : List CString) (state : AreaFill) (balanced : Balanced state)
    (middle : 2 * state.len = argMax) (room : state.argc + strings.length ≤ refMax) :
    fillLoop strings state =
      { argc := state.argc + strings.length
        max := state.max
        len := state.len
        refs := state.refs ++ List.replicate strings.length ⟨state.len, 2 ^ 32 - 1⟩
        stores := state.stores ++ List.replicate strings.length ⟨state.len, []⟩ } := by
  induction strings generalizing state with
  | nil => simp [fillLoop]
  | cons string rest ih =>
    have positive := size_positive string
    have areaPositive := arg_max_positive
    have half : argMax - state.len = state.len := by omega
    have running : state.argc < refMax ∧ 0 < state.max := by
      rw [balanced.2]
      simp only [List.length_cons] at room
      omega
    have step : fillOne state string =
        { argc := state.argc + 1
          max := state.max
          len := state.len
          refs := state.refs ++ [⟨state.len, 2 ^ 32 - 1⟩]
          stores := state.stores ++ [⟨state.len, []⟩] } := by
      rw [fill_one_cut state string balanced ⟨by omega, by omega⟩, if_pos middle, balanced.2, half,
        show argMax - 2 * state.len = 0 by omega, List.take_zero]
    simp only [fillLoop, if_pos running]
    rw [ih (fillOne state string) (by rw [step]; exact balanced) (by rw [step]; exact middle)
      (by rw [step]; simp only [List.length_cons] at room ⊢; omega), step]
    simp only [List.length_cons, List.replicate_succ, List.append_assoc, List.cons_append,
      List.nil_append, Nat.add_assoc, Nat.add_comm 1 rest.length]

theorem fill_area_whole (whole : AllWhole 0 strings) (room : strings.length ≤ refMax) :
    fillArea strings =
      { argc := strings.length
        max := argMax - (sizes strings).sum
        len := (sizes strings).sum
        refs := wholeRefs 0 strings
        stores := wholeStores 0 strings } := by
  have run := fill_loop_whole strings AreaFill.start ⟨Nat.zero_le _, rfl⟩
    (by simpa [AreaFill.start] using room) whole
  simpa [fillArea, AreaFill.start] using run

/-! ## The bytes behind a reference -/

theorem area_below_last (state : AreaFill) (address : Nat) (below : address < argMax - 1) :
    state.area address = replay zeroed state.stores address := by
  apply store_outside
  exact Or.inl (by omega)

theorem area_last (state : AreaFill) : state.area (argMax - 1 : Nat) = 0 := by
  exact store_single (replay zeroed state.stores) (argMax - 1 : Nat) 0

theorem ref_holds_of_chunk (state : AreaFill) (chunks : List (List UInt8))
    (memory : replay zeroed state.stores = store zeroed 0 chunks.flatten)
    (ref : PfexecArg) (index : Nat) (bytes held : List UInt8) (entry : chunks[index]? = some bytes)
    (offset : ref.pfaOffset = offsetAt (chunks.map List.length) index) (kept : held <+: bytes)
    (length : ref.pfaLen = held.length) (inside : ref.pfaOffset + held.length < argMax) :
    RefHolds state.area ref held := by
  refine ⟨length, inside, ?_⟩
  intro position bound
  obtain ⟨rest, rfl⟩ := kept
  have byte := packed_byte zeroed 0 chunks index (held ++ rest) entry position
    (by rw [List.length_append]; omega)
  rw [area_below_last _ _ (by omega), memory, offset]
  rw [Int.zero_add] at byte
  rw [byte, List.getD_append _ _ _ _ bound]

theorem nul_of_chunk {state : AreaFill} {chunks : List (List UInt8)}
    (memory : replay zeroed state.stores = store zeroed 0 chunks.flatten) {offset : Nat}
    {string : CString} (entry : chunks[index]? = some string.terminated)
    (place : offset = offsetAt (chunks.map List.length) index)
    (inside : offset + string.bytes.length < argMax) :
    state.area (offset + string.bytes.length : Nat) = 0 := by
  by_cases last : offset + string.bytes.length = argMax - 1
  · rw [last]
    exact area_last state
  · have byte := packed_byte zeroed 0 chunks index string.terminated entry string.bytes.length
      (by simp [CString.terminated])
    rw [area_below_last _ _ (by omega), memory, place]
    rw [Int.zero_add] at byte
    rw [byte, CString.terminated, List.getD_append_right _ _ _ _ (Nat.le_refl _)]
    simp

/-- A reference to a string kept whole: its bytes and the NUL behind them. -/
def HoldsWhole (state : AreaFill) (index : Nat) (string : CString) : Prop :=
  RefHolds state.area (state.refAt index) string.bytes ∧
    state.area ((state.refAt index).pfaOffset + string.bytes.length : Nat) = 0

theorem holds_whole_of_chunk (state : AreaFill) (chunks : List (List UInt8))
    (memory : replay zeroed state.stores = store zeroed 0 chunks.flatten)
    (index offset : Nat) (string : CString) (entry : chunks[index]? = some string.terminated)
    (place : offset = offsetAt (chunks.map List.length) index)
    (ref : state.refs[index]? = some ⟨offset, string.bytes.length⟩)
    (inside : offset + string.size ≤ argMax) : HoldsWhole state index string := by
  have value : state.refAt index = ⟨offset, string.bytes.length⟩ := by
    simp [AreaFill.refAt, List.getD_eq_getElem?_getD, ref]
  have below : offset + string.bytes.length < argMax := by
    simp only [CString.size] at inside
    omega
  unfold HoldsWhole
  rw [value]
  exact ⟨ref_holds_of_chunk state chunks memory _ index string.terminated string.bytes entry place
      (List.prefix_append _ _) rfl below, nul_of_chunk memory entry place below⟩

def terminatedChunks (strings : List CString) : List (List UInt8) :=
  strings.map CString.terminated

theorem terminated_chunk_lengths (strings : List CString) :
    (terminatedChunks strings).map List.length = sizes strings := by
  simp [terminatedChunks, sizes, Function.comp_def, terminated_length]

theorem terminated_flatten_length (strings : List CString) :
    (terminatedChunks strings).flatten.length = (sizes strings).sum := by
  rw [List.length_flatten, terminated_chunk_lengths]

theorem terminated_chunk_entry (strings : List CString) (index : Nat) (string : CString)
    (entry : strings[index]? = some string) :
    (terminatedChunks strings)[index]? = some string.terminated := by
  simp [terminatedChunks, entry]

theorem replay_whole_zeroed (strings : List CString) :
    replay zeroed (wholeStores 0 strings) = store zeroed 0 (terminatedChunks strings).flatten := by
  have packed := replay_whole_stores zeroed [] strings
  rwa [store_nil, List.length_nil, List.nil_append] at packed

/-! ## Every reference of a request -/

theorem piece_holds (front : List PfexecArg) (frontChunks : List (List UInt8)) {state : AreaFill}
    {base : Nat} {back : List PfexecArg} {backChunks : List (List UInt8)}
    (refs : state.refs = front ++ (wholeRefs base strings ++ back))
    (memory : replay zeroed state.stores =
      store zeroed 0 (frontChunks ++ (terminatedChunks strings ++ backChunks)).flatten)
    (aligned : frontChunks.length = front.length)
    (place : (frontChunks.map List.length).sum = base)
    (inside : base + (sizes strings).sum ≤ argMax) {string : CString}
    (entry : strings[index]? = some string) :
    HoldsWhole state (front.length + index) string := by
  have bound : index < strings.length := (List.getElem?_eq_some_iff.mp entry).1
  have ends := offset_add_size_le strings index string entry
  apply holds_whole_of_chunk _ _ memory _ (base + offsetAt (sizes strings) index) string
  · rw [← aligned, List.getElem?_append_right (by omega), Nat.add_sub_cancel_left,
      List.getElem?_append_left (by simpa [terminatedChunks] using bound)]
    exact terminated_chunk_entry strings index string entry
  · rw [List.map_append, List.map_append, terminated_chunk_lengths, ← aligned,
      ← List.length_map List.length, offset_append_right,
      offset_append_left _ _ _ (by rw [sizes_length]; omega), place]
  · rw [refs, List.getElem?_append_right (by omega), Nat.add_sub_cancel_left,
      List.getElem?_append_left (by rw [whole_refs_length]; exact bound)]
    exact whole_refs_entry base strings index string entry
  · omega

theorem first_piece_holds {state : AreaFill} {back : List PfexecArg}
    {backChunks : List (List UInt8)} (refs : state.refs = wholeRefs 0 strings ++ back)
    (memory : replay zeroed state.stores =
      store zeroed 0 (terminatedChunks strings ++ backChunks).flatten)
    (inside : (sizes strings).sum ≤ argMax) {string : CString}
    (entry : strings[index]? = some string) : HoldsWhole state index string := by
  have whole := piece_holds [] [] refs memory rfl rfl (by omega) entry
  rwa [List.length_nil, Nat.zero_add] at whole

theorem uncut_holds_whole (uncut : Uncut strings) (fits : (sizes strings).sum ≤ argMax)
    (room : strings.length ≤ refMax) {string : CString} (entry : strings[index]? = some string) :
    HoldsWhole (fillArea strings) index string := by
  have filled := fill_area_whole (uncut_all_whole uncut fits) room
  exact first_piece_holds (by rw [filled, List.append_nil])
    (by rw [filled, List.append_nil, replay_whole_zeroed]) fits entry

section CutLayout

variable (before after : List CString) (string : CString)

def cutChunks : List (List UInt8) :=
  terminatedChunks before ++
    [string.terminated.take (argMax - 2 * (sizes before).sum)] ++ terminatedChunks after

variable {before after string} (room : (before ++ string :: after).length ≤ refMax)

include room in
theorem fill_area_through_cut (cut : Cut (sizes before).sum string.size) :
    fillArea (before ++ string :: after) = fillLoop after
      { argc := before.length + 1
        max := (sizes before).sum
        len := argMax - (sizes before).sum
        refs := wholeRefs 0 before ++ [⟨(sizes before).sum,
          if 2 * (sizes before).sum = argMax then 2 ^ 32 - 1
          else argMax - 2 * (sizes before).sum - 1⟩]
        stores := wholeStores 0 before ++
          [⟨(sizes before).sum, string.terminated.take (argMax - 2 * (sizes before).sum)⟩] } := by
  have positive := arg_max_positive
  have beforeMiddle := cut.1
  simp only [List.length_append, List.length_cons] at room
  have first := fill_area_whole (before_middle_all_whole cut.1) (by omega)
  rw [fillArea] at first
  rw [fillArea, fill_loop_append, first]
  have running : before.length < refMax ∧ 0 < argMax - (sizes before).sum := by omega
  simp only [fillLoop, if_pos running]
  rw [fill_one_cut _ string ⟨by dsimp only; omega, rfl⟩ cut]

section Cut

variable (cut : Cut (sizes before).sum string.size) (notMiddle : 2 * (sizes before).sum ≠ argMax)
  (fits : (sizes (before ++ string :: after)).sum ≤ argMax)

include fits in
theorem total_fits : (sizes before).sum + string.size + (sizes after).sum ≤ argMax := by
  simp only [sizes, List.map_append, List.map_cons, List.sum_append, List.sum_cons] at fits ⊢
  omega

include room cut notMiddle fits

theorem fill_area_cut :
    (fillArea (before ++ string :: after)).argc = (before ++ string :: after).length ∧
      (fillArea (before ++ string :: after)).refs =
        wholeRefs 0 before ++ [⟨(sizes before).sum, argMax - 2 * (sizes before).sum - 1⟩] ++
          wholeRefs (argMax - (sizes before).sum) after ∧
      (fillArea (before ++ string :: after)).stores =
        wholeStores 0 before ++
          [⟨(sizes before).sum, string.terminated.take (argMax - 2 * (sizes before).sum)⟩] ++
          wholeStores (argMax - (sizes before).sum) after := by
  have beforeMiddle := cut.1
  rw [fill_area_through_cut room cut,
    fill_loop_whole after _ ⟨by dsimp only; omega, by dsimp only; omega⟩
      (by simp only [List.length_append, List.length_cons] at room ⊢; omega)
      (after_cut_all_whole cut notMiddle (total_fits fits))]
  simp only [if_neg notMiddle, List.length_append, List.length_cons]
  exact ⟨by omega, trivial, trivial⟩

theorem cut_memory :
    replay zeroed (fillArea (before ++ string :: after)).stores =
      store zeroed 0 (cutChunks before after string).flatten := by
  have beforeMiddle := cut.1
  have exceeds := cut.2
  have adjacent := store_store_adjacent zeroed 0 (terminatedChunks before).flatten
    (string.terminated.take (argMax - 2 * (sizes before).sum))
  rw [terminated_flatten_length, Int.zero_add] at adjacent
  have written : ((terminatedChunks before).flatten ++
      string.terminated.take (argMax - 2 * (sizes before).sum)).length =
        argMax - (sizes before).sum := by
    rw [List.length_append, terminated_flatten_length, List.length_take, terminated_length]
    omega
  rw [(fill_area_cut room cut notMiddle fits).2.2, replay_append, replay_append,
    replay_whole_zeroed, replay_singleton, adjacent, ← written, replay_whole_stores]
  simp only [cutChunks, terminatedChunks, List.flatten_append, List.flatten_cons, List.flatten_nil,
    List.append_nil]

theorem cut_before_holds {other : CString} (entry : before[index]? = some other) :
    HoldsWhole (fillArea (before ++ string :: after)) index other := by
  have refs := (fill_area_cut room cut notMiddle fits).2.1
  have memory := cut_memory room cut notMiddle fits
  have beforeMiddle := cut.1
  rw [List.append_assoc] at refs
  rw [cutChunks, List.append_assoc] at memory
  exact first_piece_holds refs memory (by omega) entry

theorem cut_here_holds :
    RefHolds (fillArea (before ++ string :: after)).area
      ((fillArea (before ++ string :: after)).refAt before.length)
      (string.bytes.take (argMax - 2 * (sizes before).sum - 1)) := by
  have beforeMiddle := cut.1
  have exceeds : argMax < 2 * (sizes before).sum + (string.bytes.length + 1) := cut.2
  have length : (string.bytes.take (argMax - 2 * (sizes before).sum - 1)).length =
      argMax - 2 * (sizes before).sum - 1 := by
    rw [List.length_take]
    omega
  have ref : (fillArea (before ++ string :: after)).refAt before.length =
      ⟨(sizes before).sum, argMax - 2 * (sizes before).sum - 1⟩ := by
    rw [AreaFill.refAt, (fill_area_cut room cut notMiddle fits).2.1,
      List.append_assoc, List.getD_append_right _ _ _ _ (by rw [whole_refs_length])]
    simp [whole_refs_length]
  rw [ref]
  apply ref_holds_of_chunk _ _ (cut_memory room cut notMiddle fits) _
    before.length (string.terminated.take (argMax - 2 * (sizes before).sum))
  · simp [cutChunks, terminatedChunks]
  · rw [cutChunks, List.append_assoc, List.map_append, terminated_chunk_lengths,
      offset_append_left _ _ _ (by rw [sizes_length]), ← sizes_length, offset_length]
  · rw [CString.terminated, List.take_append_of_le_length (by omega)]
    exact List.take_prefix_take_left (by omega)
  · exact length.symm
  · rw [length]
    dsimp only
    omega

theorem cut_after_holds {other : CString} (entry : after[index]? = some other) :
    HoldsWhole (fillArea (before ++ string :: after)) (before.length + 1 + index) other := by
  have beforeMiddle := cut.1
  have exceeds := cut.2
  have total := total_fits fits
  have refs := (fill_area_cut room cut notMiddle fits).2.1
  have memory := cut_memory room cut notMiddle fits
  rw [← List.append_nil (wholeRefs _ after)] at refs
  rw [cutChunks, ← List.append_nil (terminatedChunks after)] at memory
  have whole := piece_holds _ _ refs memory (by simp [terminatedChunks, whole_refs_length]) (by
      simp only [List.map_append, terminated_chunk_lengths, List.map_cons, List.map_nil,
        List.sum_append, List.sum_singleton, List.length_take, terminated_length]
      omega)
    (by omega) entry
  rwa [List.length_append, whole_refs_length] at whole

end Cut

section Middle

variable (middle : 2 * (sizes before).sum = argMax)

include room middle

theorem fill_area_middle :
    (fillArea (before ++ string :: after)).argc = (before ++ string :: after).length ∧
      (fillArea (before ++ string :: after)).refs = wholeRefs 0 before ++
        List.replicate (after.length + 1) ⟨(sizes before).sum, 2 ^ 32 - 1⟩ ∧
      (fillArea (before ++ string :: after)).stores = wholeStores 0 before ++
        List.replicate (after.length + 1) ⟨(sizes before).sum, []⟩ := by
  have positive := size_positive string
  have half : argMax - (sizes before).sum = (sizes before).sum := by omega
  rw [fill_area_through_cut room ⟨by omega, by omega⟩, if_pos middle, half,
    show argMax - 2 * (sizes before).sum = 0 by omega, List.take_zero,
    fill_loop_stuck after _ ⟨by dsimp only; omega, by dsimp only; omega⟩ middle
      (by simp only [List.length_append, List.length_cons] at room ⊢; omega)]
  simp only [List.length_append, List.length_cons, List.replicate_succ, List.append_assoc,
    List.cons_append, List.nil_append]
  exact ⟨by omega, trivial, trivial⟩

theorem middle_memory :
    replay zeroed (fillArea (before ++ string :: after)).stores =
      store zeroed 0 (terminatedChunks before).flatten := by
  rw [(fill_area_middle room middle).2.2, replay_append, replay_empty_stores, replay_whole_zeroed]

theorem middle_before_holds {other : CString} (entry : before[index]? = some other) :
    HoldsWhole (fillArea (before ++ string :: after)) index other :=
  first_piece_holds (fill_area_middle room middle).2.1
    (by rw [middle_memory room middle, List.append_nil]) (by omega) entry

/-- From the middle on every reference is the same: the wrapped length, at a NUL. -/
theorem middle_after_ref (late : before.length ≤ index)
    (bound : index < (before ++ string :: after).length) :
    (fillArea (before ++ string :: after)).refAt index = ⟨(sizes before).sum, 2 ^ 32 - 1⟩ ∧
      (fillArea (before ++ string :: after)).area (sizes before).sum = 0 := by
  constructor
  · simp only [List.length_append, List.length_cons] at bound
    rw [AreaFill.refAt, (fill_area_middle room middle).2.1,
      List.getD_append_right _ _ _ _ (by rw [whole_refs_length]; exact late),
      whole_refs_length, List.getD_replicate _ (by omega)]
  · by_cases last : (sizes before).sum = argMax - 1
    · rw [last]
      exact area_last _
    · have positive := arg_max_positive
      rw [area_below_last _ _ (by omega), middle_memory room middle]
      apply packed_beyond
      exact Int.le_of_eq (by rw [terminated_chunk_lengths])

end Middle

end CutLayout

theorem kept_bytes_whole {string : CString}
    (notCut : ¬ Cut (offsetAt (sizes strings) index) string.size) :
    keptBytes strings index string = string.bytes := by
  unfold keptBytes
  split_ifs with beforeMiddle
  · apply List.take_of_length_le
    unfold Cut CString.size at notCut
    omega
  · rfl

theorem fill_area_argc (strings : List CString) (fits : (sizes strings).sum ≤ argMax)
    (room : strings.length ≤ refMax) : (fillArea strings).argc = strings.length := by
  rcases uncut_or_split strings with uncut | ⟨before, string, after, rfl, cut⟩
  · rw [fill_area_whole (uncut_all_whole uncut fits) room]
  · by_cases middle : 2 * (sizes before).sum = argMax
    · exact (fill_area_middle room middle).1
    · exact (fill_area_cut room cut middle fits).1

theorem entry_kept (strings : List CString) (fits : (sizes strings).sum ≤ argMax)
    (room : strings.length ≤ refMax) (index : Nat) (string : CString)
    (entry : strings[index]? = some string) (free : ¬ Stuck strings index) :
    RefHolds (fillArea strings).area ((fillArea strings).refAt index)
        (keptBytes strings index string) ∧ (¬ Cut (offsetAt (sizes strings) index) string.size →
        HoldsWhole (fillArea strings) index string) := by
  have finish (notCut : ¬ Cut (offsetAt (sizes strings) index) string.size)
      (whole : HoldsWhole (fillArea strings) index string) :
      RefHolds (fillArea strings).area ((fillArea strings).refAt index)
          (keptBytes strings index string) ∧ (¬ Cut (offsetAt (sizes strings) index) string.size →
          HoldsWhole (fillArea strings) index string) := by
    rw [kept_bytes_whole notCut]
    exact ⟨whole.1, fun _ => whole⟩
  rcases uncut_or_split strings with uncut | ⟨before, cutString, after, rfl, cut⟩
  · exact finish (uncut index string entry) (uncut_holds_whole uncut fits room entry)
  · have beforeMiddle := cut.1
    have exceeds := cut.2
    have split : sizes (before ++ cutString :: after) =
        sizes before ++ cutString.size :: sizes after := by simp [sizes]
    by_cases early : index < before.length
    · have earlyEntry : before[index]? = some string := by
        rwa [List.getElem?_append_left early] at entry
      have ends := offset_add_size_le before index string earlyEntry
      have notCut : ¬ Cut (offsetAt (sizes (before ++ cutString :: after)) index) string.size := by
        rw [split, offset_append_left _ _ _ (by rw [sizes_length]; omega)]
        unfold Cut
        omega
      by_cases middle : 2 * (sizes before).sum = argMax
      · exact finish notCut (middle_before_holds room middle earlyEntry)
      · exact finish notCut (cut_before_holds room cut middle fits earlyEntry)
    · have atCut : offsetAt (sizes (before ++ cutString :: after)) before.length =
          (sizes before).sum := by
        rw [split, offset_append_left _ _ _ (by rw [sizes_length]), ← sizes_length, offset_length]
      have notMiddle : 2 * (sizes before).sum ≠ argMax := by
        intro middle
        exact free ⟨before.length, by omega, by rw [atCut]; exact middle⟩
      by_cases here : index = before.length
      · subst here
        obtain rfl : cutString = string := by simpa using entry
        unfold keptBytes
        rw [atCut, if_pos beforeMiddle]
        exact ⟨cut_here_holds room cut notMiddle fits, fun notCut => absurd cut notCut⟩
      · obtain ⟨position, rfl⟩ : ∃ position, index = before.length + 1 + position :=
          ⟨index - before.length - 1, by omega⟩
        have lateEntry : after[position]? = some string := by
          rw [List.getElem?_append_right (by omega),
            show before.length + 1 + position - before.length = position + 1 by omega] at entry
          simpa using entry
        have notCut : ¬ Cut (offsetAt (sizes (before ++ cutString :: after))
            (before.length + 1 + position)) string.size := by
          rw [split, show before.length + 1 + position = (sizes before).length + (position + 1) by
            rw [sizes_length]; omega, offset_append_right, offset_cons_succ]
          unfold Cut
          omega
        exact finish notCut (cut_after_holds room cut notMiddle fits lateEntry)

theorem entry_stuck (strings : List CString) (room : strings.length ≤ refMax) (index : Nat)
    (bound : index < strings.length) (stuck : Stuck strings index) :
    ∃ offset, (fillArea strings).refAt index = ⟨offset, 2 ^ 32 - 1⟩ ∧
      (fillArea strings).area offset = 0 := by
  obtain ⟨earlier, early, middle⟩ := stuck
  have earlierEntry : strings[earlier]? = some strings[earlier] :=
    List.getElem?_eq_getElem (by omega)
  have split := split_at earlierEntry
  have used : (sizes (strings.take earlier)).sum = offsetAt (sizes strings) earlier := by
    simp [sizes, offsetAt, List.map_take]
  have room' := room
  rw [split] at room' bound
  have both := middle_after_ref room' (by rw [used]; exact middle)
    (by rw [List.length_take]; omega) bound
  rw [← split] at both
  exact ⟨_, both⟩

end Cprogramming.Pfexec.AreaLayout
