import Cprogramming.Pfexec.AreaLayout
import Cprogramming.Pfexec.EnvironmentArea

/-!
# Round trips through the two areas

The strings of a request are read back exactly when the kernel cut none of them,
and the environment of a response exactly when the daemon cut no nonempty string.
Both conditions are about the string that crosses half of the area.
-/

namespace Cprogramming.Pfexec.RoundTrip

open Library.ByteMemory Library.CStrings Library.MachineWords Library.PackedLayout
open Protocol FillMbuf AreaLayout EnvironmentArea

set_option autoImplicit false

/-- The references denote the strings in order, with their lengths. -/
def StringsReadBack (count : Nat) (refs : Nat → PfexecArg) (area : Memory)
    (strings : List CString) : Prop :=
  count = strings.length ∧ ∀ index string, strings[index]? = some string →
    (refs index).pfaLen = string.bytes.length ∧ areaString area (refs index) = string

theorem area_string_of_holds {state : AreaFill} {index : Nat} {string : CString}
    (whole : HoldsWhole state index string) :
    areaString state.area (state.refAt index) = string := by
  obtain ⟨⟨_, inside, bytes⟩, stop⟩ := whole
  apply read_string_of_terminated
  · omega
  · intro position bound
    rw [← Int.natCast_add]
    exact bytes position bound
  · rw [← Int.natCast_add]
    exact stop

theorem uncut_not_stuck {strings : List CString} (uncut : Uncut strings) {index : Nat}
    (bound : index < strings.length) : ¬ Stuck strings index := by
  rintro ⟨earlier, early, middle⟩
  have entry : strings[earlier]? = some strings[earlier] := List.getElem?_eq_getElem (by omega)
  have positive := size_positive strings[earlier]
  exact uncut earlier _ entry ⟨by omega, by omega⟩

theorem fill_area_reads_back_iff {strings : List CString} (few : strings.length < refMax)
    (fits : (sizes strings).sum ≤ argMax - 1) :
    StringsReadBack (fillArea strings).argc (fillArea strings).refAt (fillArea strings).area
        strings ↔ Uncut strings := by
  have small := arg_max_small
  have positive := arg_max_positive
  constructor
  · rintro ⟨_, entries⟩ index string entry cut
    have length := (entries index string entry).1
    have bound : index < strings.length := (List.getElem?_eq_some_iff.mp entry).1
    have ends := offset_add_size_le strings index string entry
    have beforeMiddle := cut.1
    have exceeds := cut.2
    simp only [CString.size] at ends exceeds
    by_cases stuck : Stuck strings index
    · obtain ⟨offset, ref, _⟩ := entry_stuck strings (by omega) index bound stuck
      rw [ref] at length
      dsimp only at length
      omega
    · have kept := (entry_kept strings (by omega) (by omega) index string entry stuck).1.1
      have notMiddle : 2 * offsetAt (sizes strings) index ≠ argMax :=
        fun middle => stuck ⟨index, Nat.le_refl _, middle⟩
      rw [kept, keptBytes, if_pos beforeMiddle, List.length_take] at length
      omega
  · intro uncut
    refine ⟨fill_area_argc strings (by omega) (by omega), ?_⟩
    intro index string entry
    have bound : index < strings.length := (List.getElem?_eq_some_iff.mp entry).1
    have whole := (entry_kept strings (by omega) (by omega) index string entry
      (uncut_not_stuck uncut bound)).2 (uncut index string entry)
    exact ⟨whole.1.1, area_string_of_holds whole⟩

theorem request_args_read_back_iff (pid : UInt32) (creds : Ucred) (opts : Option PfexecveOpts)
    (path : Option CString) {argv : List CString} (envp : List CString)
    (few : argv.length < refMax) (fits : (sizes argv).sum ≤ argMax - 1) :
    StringsReadBack (fillMbuf pid creds ⟨opts, path, some argv, some envp⟩).pfrArgc
        (fillMbuf pid creds ⟨opts, path, some argv, some envp⟩).pfrArgp
        (fillMbuf pid creds ⟨opts, path, some argv, some envp⟩).pfrArgarea argv ↔
      Uncut argv :=
  fill_area_reads_back_iff few fits

/-- The strings of a request are read back exactly when no string of either list
starts in the first half of the area and reaches past the limit there. -/
theorem request_round_trip_iff (pid : UInt32) (creds : Ucred) (opts : Option PfexecveOpts)
    (path : Option CString) (argv envp : List CString)
    (fewArgs : argv.length < refMax) (argsFit : (sizes argv).sum ≤ argMax - 1)
    (fewEnvs : envp.length < refMax) (envsFit : (sizes envp).sum ≤ argMax - 1) :
    (StringsReadBack (fillMbuf pid creds ⟨opts, path, some argv, some envp⟩).pfrArgc
          (fillMbuf pid creds ⟨opts, path, some argv, some envp⟩).pfrArgp
          (fillMbuf pid creds ⟨opts, path, some argv, some envp⟩).pfrArgarea argv ∧
        StringsReadBack (fillMbuf pid creds ⟨opts, path, some argv, some envp⟩).pfrEnvc
          (fillMbuf pid creds ⟨opts, path, some argv, some envp⟩).pfrEnvp
          (fillMbuf pid creds ⟨opts, path, some argv, some envp⟩).pfrEnvarea envp) ↔
      Uncut argv ∧ Uncut envp := by
  have args := request_args_read_back_iff pid creds opts path envp fewArgs argsFit
  have envs := fill_area_reads_back_iff fewEnvs envsFit
  exact and_congr args envs

theorem short_request_round_trip :
    StringsReadBack (fillMbuf 1 nobody ⟨none, none, some [letters 2, letters 0], some []⟩).pfrArgc
      (fillMbuf 1 nobody ⟨none, none, some [letters 2, letters 0], some []⟩).pfrArgp
      (fillMbuf 1 nobody ⟨none, none, some [letters 2, letters 0], some []⟩).pfrArgarea
      [letters 2, letters 0] := by
  have both := (request_round_trip_iff 1 nobody none none [letters 2, letters 0] []
    (by decide) (by decide) (by decide) (by decide)).mpr
    ⟨uncut_of_half _ (by decide), uncut_of_half _ (by decide)⟩
  exact both.1

/-- Two strings of 200000 letters fit the area, but the second is cut. -/
theorem long_request_cut :
    [letters 200000, letters 200000].length < refMax ∧
      (sizes [letters 200000, letters 200000]).sum ≤ argMax - 1 ∧
      ¬ StringsReadBack
        (fillMbuf 1 nobody ⟨none, none, some [letters 200000, letters 200000], some []⟩).pfrArgc
        (fillMbuf 1 nobody ⟨none, none, some [letters 200000, letters 200000], some []⟩).pfrArgp
        (fillMbuf 1 nobody ⟨none, none, some [letters 200000, letters 200000], some []⟩).pfrArgarea
        [letters 200000, letters 200000] := by
  have lengths : sizes [letters 200000, letters 200000] = [200001, 200001] := by
    simp [sizes, letters_size]
  have fits : (sizes [letters 200000, letters 200000]).sum ≤ argMax - 1 := by
    rw [lengths]
    decide
  refine ⟨by simp [refMax], fits, ?_⟩
  intro readBack
  have uncut := (request_args_read_back_iff 1 nobody none none
    [] (by simp [refMax]) fits).mp readBack
  have second := uncut 1 (letters 200000) rfl
  rw [lengths] at second
  exact second (by simp [Cut, offsetAt, letters_size, argMax])

/-! ## The environment of a response -/

variable (total : Nat) (string : CString)

/-- What a cleared area holds for a string that starts at `total`: the bytes
`strlcpy` stores and zeros up to the next string. -/
def revertChunk (total : Nat) (string : CString) : List UInt8 :=
  strlcpyStored string (revertLimit total) ++
    List.replicate (string.size - (strlcpyStored string (revertLimit total)).length) 0

def revertChunks : Nat → List CString → List (List UInt8)
  | _, [] => []
  | total, string :: rest => revertChunk total string :: revertChunks (total + string.size) rest

theorem revert_chunk_length : (revertChunk total string).length = string.size := by
  rw [revertChunk, List.length_append, List.length_replicate, strlcpy_stored_length]
  omega

theorem revert_chunk_lengths (strings : List CString) :
    (revertChunks total strings).map List.length = sizes strings := by
  induction strings generalizing total with
  | nil => rfl
  | cons string rest ih =>
    rw [revertChunks, List.map_cons, ih, revert_chunk_length]
    rfl

theorem revert_chunk_entry (strings : List CString) (index : Nat) (string : CString)
    (entry : strings[index]? = some string) : (revertChunks total strings)[index]? =
      some (revertChunk (total + offsetAt (sizes strings) index) string) := by
  induction strings generalizing total index with
  | nil => simp at entry
  | cons head rest ih =>
    cases index with
    | zero =>
      obtain rfl : head = string := by simpa using entry
      simp [revertChunks, offset_zero]
    | succ index =>
      simp only [revertChunks, List.getElem?_cons_succ, sizes, List.map_cons, offset_cons_succ]
      rw [ih (total + head.size) index (by simpa using entry), Nat.add_assoc]
      rfl

/-- A string ends at its own NUL or at the NUL that cut it. -/
theorem revert_chunk_kept : revertChunk total string =
      string.bytes.take (revertLimit total - 1) ++
        List.replicate (string.size - (string.bytes.take (revertLimit total - 1)).length) 0 := by
  unfold revertChunk strlcpyStored
  split_ifs with empty
  · simp [empty]
  · have shorter : (string.bytes.take (revertLimit total - 1)).length < string.size := by
      rw [List.length_take, CString.size]
      omega
    rw [List.append_assoc, List.length_append, List.length_singleton]
    apply congrArg (string.bytes.take (revertLimit total - 1) ++ ·)
    rw [show string.size - (string.bytes.take (revertLimit total - 1)).length =
      (string.size - ((string.bytes.take (revertLimit total - 1)).length + 1)) + 1 by omega,
      List.replicate_succ, List.singleton_append]

theorem replay_revert_stores (written : List UInt8) (strings : List CString)
    (small : written.length + (sizes strings).sum < 2 ^ 31) :
    replay (store zeroed 0 written) (revertStores written.length strings) =
      store zeroed 0 (written ++ (revertChunks written.length strings).flatten) := by
  induction strings generalizing written with
  | nil => simp [revertStores, revertChunks, replay]
  | cons string rest ih =>
    have total : written.length + (string.size + (sizes rest).sum) < 2 ^ 31 := by
      rwa [sizes_sum_cons] at small
    have place : int32 (written.length : Nat) = written.length :=
      int32_exact _ (by omega) (by omega)
    have adjacent := store_store_adjacent zeroed 0 written
      (strlcpyStored string (revertLimit written.length))
    rw [Int.zero_add] at adjacent
    have padded := store_zero_padding 0
      (written ++ strlcpyStored string (revertLimit written.length))
      (string.size - (strlcpyStored string (revertLimit written.length)).length)
    rw [List.append_assoc] at padded
    have length : (written ++ revertChunk written.length string).length =
        written.length + string.size := by
      rw [List.length_append, revert_chunk_length]
    have chunk : store zeroed 0 (written ++ strlcpyStored string (revertLimit written.length)) =
        store zeroed 0 (written ++ revertChunk written.length string) := padded.symm
    rw [revertStores, ← List.singleton_append, replay_append, replay_singleton, place, adjacent,
      chunk]
    rw [← length, ih (written ++ revertChunk written.length string) (by rw [length]; omega)]
    rw [length, revertChunks, List.flatten_cons, List.append_assoc]

/-- The response as `craft_response` hands it to the environment conversion. -/
def clearedResponse : PfexecResp := { PfexecResp.zero with pfrFlags := pfrespUid }

section Environment

variable (strings : List CString)

theorem running_of_fits (fits : (sizes strings).sum ≤ argMax - 1) (index : Nat) :
    Running (0 + offsetAt (sizes strings) index) := by
  have small := arg_max_small
  have positive := arg_max_positive
  have ends := offset_le_sum (sizes strings) index
  unfold Running
  rw [int32_exact _ (by omega) (by omega)]
  omega

theorem revert_area_of_fits (few : strings.length < refMax)
    (fits : (sizes strings).sum ≤ argMax - 1) :
    (revertArea strings).envc = strings.length ∧
      (revertArea strings).refs = revertRefs 0 strings ∧
      (revertArea strings).stores = revertStores 0 strings := by
  have run := revert_loop_running strings AreaRevert.start 0 tracks_start
    (by simp only [AreaRevert.start]; omega) (fun index _ => running_of_fits strings fits index)
  simpa [revertArea, AreaRevert.start] using run

theorem revert_ref_of_fits (few : strings.length < refMax)
    (fits : (sizes strings).sum ≤ argMax - 1) (index : Nat) (string : CString)
    (entry : strings[index]? = some string) :
    (envareaDestroyRevert strings clearedResponse).pfrEnvp index =
      ⟨offsetAt (sizes strings) index, string.size⟩ := by
  have small := arg_max_small
  have ends := offset_add_size_le strings index string entry
  have ref := revert_refs_entry 0 strings index string entry
  rw [Nat.zero_add, Nat.mod_eq_of_lt (by omega), Nat.mod_eq_of_lt (by omega)] at ref
  simp only [envareaDestroyRevert, (revert_area_of_fits strings few fits).2.1,
    List.getD_eq_getElem?_getD, ref, Option.getD_some]

theorem revert_pointer_of_fits (few : strings.length < refMax)
    (fits : (sizes strings).sum ≤ argMax - 1) (index : Nat) (string : CString)
    (entry : strings[index]? = some string) :
    checkPrivEnvironment (envareaDestroyRevert strings clearedResponse) index =
      some (offsetAt (sizes strings) index) := by
  have count : (envareaDestroyRevert strings clearedResponse).pfrEnvc = strings.length :=
    (revert_area_of_fits strings few fits).1
  have bound : index < strings.length := (List.getElem?_eq_some_iff.mp entry).1
  rw [checkPrivEnvironment, count, if_pos bound,
    revert_ref_of_fits strings few fits index string entry]

theorem revert_passes_checks (few : strings.length < refMax)
    (fits : (sizes strings).sum ≤ argMax - 1) :
    processResponse (envareaDestroyRevert strings clearedResponse) = 0 := by
  have positive := arg_max_positive
  have count : (envareaDestroyRevert strings clearedResponse).pfrEnvc = strings.length :=
    (revert_area_of_fits strings few fits).1
  have refs : anyBadRef (envareaDestroyRevert strings clearedResponse).pfrEnvp
      (envareaDestroyRevert strings clearedResponse).pfrEnvc = false := by
    rw [any_bad_ref_false_iff, count]
    intro index bound
    have entry : strings[index]? = some strings[index] := List.getElem?_eq_getElem bound
    have ends := offset_add_size_le strings index _ entry
    rw [revert_ref_of_fits strings few fits index _ entry]
    dsimp only
    omega
  have groups : ¬ ngroupsMax ≤ (envareaDestroyRevert strings clearedResponse).pfrNgroups := by
    simp [envareaDestroyRevert, clearedResponse, PfexecResp.zero, ngroupsMax]
  have errno : (envareaDestroyRevert strings clearedResponse).pfrErrno = 0 := rfl
  unfold processResponse
  rw [if_neg groups, if_neg (by rw [count]; omega), refs, errno]
  decide

theorem revert_area_byte (few : strings.length < refMax)
    (fits : (sizes strings).sum ≤ argMax - 1) (index : Nat) (string : CString)
    (entry : strings[index]? = some string) (position : Nat) (bound : position < string.size) :
    (envareaDestroyRevert strings clearedResponse).pfrEnvarea
        (offsetAt (sizes strings) index + position : Nat) =
      (revertChunk (offsetAt (sizes strings) index) string).getD position 0 := by
  have small := arg_max_small
  have ends := offset_add_size_le strings index string entry
  have memory := replay_revert_stores [] strings (by rw [List.length_nil]; omega)
  rw [store_nil, List.length_nil, List.nil_append] at memory
  have chunk := revert_chunk_entry 0 strings index string entry
  rw [Nat.zero_add] at chunk
  have byte := packed_byte zeroed 0 (revertChunks 0 strings) index _ chunk position
    (by rw [revert_chunk_length]; exact bound)
  rw [revert_chunk_lengths, Int.zero_add] at byte
  have area : (envareaDestroyRevert strings clearedResponse).pfrEnvarea =
      store (replay zeroed (revertArea strings).stores) (argMax - 1 : Nat) [0] := rfl
  rw [← byte, ← memory, area, (revert_area_of_fits strings few fits).2.2,
    store_outside _ _ _ _ (Or.inl (by omega))]

theorem revert_reads_kept (few : strings.length < refMax)
    (fits : (sizes strings).sum ≤ argMax - 1) (index : Nat) (string : CString)
    (entry : strings[index]? = some string) :
    (readString (envareaDestroyRevert strings clearedResponse).pfrEnvarea
        (offsetAt (sizes strings) index) (argMax - offsetAt (sizes strings) index)).bytes =
      string.bytes.take (revertLimit (offsetAt (sizes strings) index) - 1) := by
  have ends := offset_add_size_le strings index string entry
  have positive := arg_max_positive
  have shorter : (string.bytes.take (revertLimit (offsetAt (sizes strings) index) - 1)).length <
      string.size := by
    rw [List.length_take, CString.size]
    omega
  apply scan_of_terminated
  · intro member
    exact string.nulFree (List.mem_of_mem_take member)
  · omega
  · intro position bound
    rw [← Int.natCast_add, revert_area_byte strings few fits index string entry position (by omega),
      revert_chunk_kept, List.getD_append _ _ _ _ bound]
  · rw [← Int.natCast_add, revert_area_byte strings few fits index string entry _ shorter,
      revert_chunk_kept, List.getD_append_right _ _ _ _ (Nat.le_refl _), Nat.sub_self,
      List.getD_replicate _ (by omega)]

end Environment

/-- The part below the limit is the whole string unless the string is cut; an
empty string has nothing to cut. -/
theorem limit_keeps_iff (fits : total + string.size ≤ argMax) :
    string.bytes.take (revertLimit total - 1) = string.bytes ↔
      (string.bytes ≠ [] → ¬ Cut total string.size) := by
  have small := arg_max_small
  rw [List.take_eq_self_iff]
  have limit : (revertLimit total : Int) =
      if 2 * total ≤ argMax then (argMax : Int) - 2 * total
      else 2 ^ 64 + ((argMax : Int) - 2 * total) := by
    unfold revertLimit
    rw [int32_exact _ (by omega) (by omega)]
    split_ifs with before
    · rw [size_of_nonnegative _ (by omega) (by omega)]
      omega
    · rw [size_of_negative _ (by omega) (by omega)]
  have nonempty : string.bytes ≠ [] ↔ 0 < string.bytes.length := List.length_pos_iff.symm
  rw [nonempty]
  unfold Cut
  simp only [CString.size] at fits ⊢
  split_ifs at limit with before <;> omega

theorem uncut_of_pointers_denote (environment : List CString)
    (few : environment.length < refMax) (fits : (sizes environment).sum ≤ argMax - 1)
    (denote : PointersDenote
      (checkPrivEnvironment (envareaDestroyRevert environment clearedResponse))
      (envareaDestroyRevert environment clearedResponse).pfrEnvarea environment)
    (index : Nat) (string : CString) (entry : environment[index]? = some string) :
    string.bytes ≠ [] → ¬ Cut (offsetAt (sizes environment) index) string.size := by
  have ends := offset_add_size_le environment index string entry
  obtain ⟨offset, found, reads⟩ := denote.1 index string entry
  rw [revert_pointer_of_fits environment few fits index string entry] at found
  obtain rfl := Option.some.inj found
  have kept := revert_reads_kept environment few fits index string entry
  rw [reads] at kept
  exact (limit_keeps_iff _ string (by omega)).mp kept.symm

/-- The environment survives the response exactly when no nonempty string of it
starts in the first half of the area and reaches past the limit there. -/
theorem environment_round_trip_iff (environment : List CString)
    (few : environment.length < refMax) (fits : (sizes environment).sum ≤ argMax - 1) :
    (processResponse (envareaDestroyRevert environment clearedResponse) = 0 ∧
        PointersDenote
          (checkPrivEnvironment (envareaDestroyRevert environment clearedResponse))
          (envareaDestroyRevert environment clearedResponse).pfrEnvarea environment) ↔
      ∀ index string, environment[index]? = some string → string.bytes ≠ [] →
        ¬ Cut (offsetAt (sizes environment) index) string.size := by
  have count : (envareaDestroyRevert environment clearedResponse).pfrEnvc = environment.length :=
    (revert_area_of_fits environment few fits).1
  constructor
  · rintro ⟨_, denote⟩
    exact uncut_of_pointers_denote environment few fits denote
  · intro uncut
    refine ⟨revert_passes_checks environment few fits, ?_, ?_⟩
    · intro index string entry
      have ends := offset_add_size_le environment index string entry
      refine ⟨_, revert_pointer_of_fits environment few fits index string entry, ?_⟩
      apply cstring_ext
      rw [revert_reads_kept environment few fits index string entry]
      exact (limit_keeps_iff _ string (by omega)).mpr (uncut index string entry)
    · rw [checkPrivEnvironment, count, if_neg (Nat.lt_irrefl _)]

theorem short_environment_round_trip :
    PointersDenote
      (checkPrivEnvironment (envareaDestroyRevert [letters 2, letters 0] clearedResponse))
      (envareaDestroyRevert [letters 2, letters 0] clearedResponse).pfrEnvarea
      [letters 2, letters 0] := by
  have both := (environment_round_trip_iff [letters 2, letters 0] (by decide) (by decide)).mpr
    (fun index string entry _ => uncut_of_half _ (by decide) index string entry)
  exact both.2

/-- Two variables of 200000 bytes fit the area, but the kernel reads the second
one shortened. -/
theorem long_environment_cut :
    [letters 200000, letters 200000].length < refMax ∧
      (sizes [letters 200000, letters 200000]).sum ≤ argMax - 1 ∧
      ¬ PointersDenote
        (checkPrivEnvironment
          (envareaDestroyRevert [letters 200000, letters 200000] clearedResponse))
        (envareaDestroyRevert [letters 200000, letters 200000] clearedResponse).pfrEnvarea
        [letters 200000, letters 200000] := by
  have lengths : sizes [letters 200000, letters 200000] = [200001, 200001] := by
    simp [sizes, letters_size]
  have fits : (sizes [letters 200000, letters 200000]).sum ≤ argMax - 1 := by
    rw [lengths]
    decide
  have few : [letters 200000, letters 200000].length < refMax := by simp [refMax]
  refine ⟨few, fits, ?_⟩
  intro denote
  have uncut := uncut_of_pointers_denote _ few fits denote 1 (letters 200000) rfl
  rw [lengths, letters_size] at uncut
  have nonempty : (letters 200000).bytes ≠ [] := List.replicate_succ_ne_nil
  exact uncut nonempty ⟨by decide, by decide⟩

end Cprogramming.Pfexec.RoundTrip
