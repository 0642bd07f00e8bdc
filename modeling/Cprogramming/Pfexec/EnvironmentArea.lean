import Cprogramming.Pfexec.FillMbuf

/-!
# The environment area of a response

`envarea_convert` and `envarea_destroy_revert` of the daemon, and the checks and
the pointer array of the kernel (`process_response`, `check_priv`). The daemon's
loop is the kernel's loop over `int` with `strlcpy` in place of `copyinstr`: its
counters advance by the whole string also where the string was cut, so they are
the running total of the sizes modulo `2 ^ 32`, and its recorded length counts
the NUL.
-/

namespace Cprogramming.Pfexec.EnvironmentArea

open Library.ByteMemory Library.CStrings Library.MachineWords Library.PackedLayout
open Protocol FillMbuf

set_option autoImplicit false

/-- The pointers `envarea_convert` stores, as the strings they denote. -/
def envareaConvert (req : PfexecReq) : List CString :=
  (List.range (min req.pfrEnvc refMax)).map fun index =>
    areaString req.pfrEnvarea (req.pfrEnvp index)

structure AreaRevert where
  envc : Nat
  max : Int
  len : Int
  refs : List PfexecArg
  stores : List Store

def AreaRevert.start : AreaRevert := ⟨0, argMax, 0, [], []⟩

def revertOne (state : AreaRevert) (string : CString) : AreaRevert :=
  let limit := sizeOfInt (int32 (state.max - state.len))
  let copied := int32 (int32 (strlcpyResult string) + 1)
  { envc := state.envc + 1
    max := int32 (state.max - copied)
    len := int32 (state.len + copied)
    refs := state.refs ++ [⟨uint32OfInt state.len, uint32OfInt copied⟩]
    stores := state.stores ++ [⟨state.len, strlcpyStored string limit⟩] }

def revertLoop : List CString → AreaRevert → AreaRevert
  | [], state => state
  | string :: rest, state =>
    if state.envc < refMax ∧ 0 < state.max then revertLoop rest (revertOne state string)
    else state

def revertArea (strings : List CString) : AreaRevert := revertLoop strings AreaRevert.start

def envareaDestroyRevert (strings : List CString) (resp : PfexecResp) : PfexecResp :=
  let filled := revertArea strings
  { resp with
    pfrEnvp := fun index => filled.refs.getD index (resp.pfrEnvp index)
    pfrEnvarea := store (replay resp.pfrEnvarea filled.stores) (argMax - 1 : Nat) [0]
    pfrEnvc := filled.envc }

/-- `process_response` of the kernel. -/
def processResponse (resp : PfexecResp) : Int :=
  if ngroupsMax ≤ resp.pfrNgroups then einval
  else if refMax ≤ resp.pfrEnvc then einval
  else if anyBadRef resp.pfrEnvp resp.pfrEnvc then einval
  else int32 resp.pfrErrno.toNat

/-- The array `check_priv` builds: offsets into `pfr_envarea`, and null pointers
from `pfr_envc` on. -/
def checkPrivEnvironment (resp : PfexecResp) (index : Nat) : Option Nat :=
  if index < resp.pfrEnvc then some (resp.pfrEnvp index).pfaOffset else none

/-- A null-terminated pointer array into `area` that denotes `strings`. -/
def PointersDenote (pointers : Nat → Option Nat) (area : Memory) (strings : List CString) : Prop :=
  (∀ index string, strings[index]? = some string →
    ∃ offset, pointers index = some offset ∧ readString area offset (argMax - offset) = string) ∧
  pointers strings.length = none

/-! ## The counters -/

/-- The counters after strings of `total` bytes. -/
def Tracks (state : AreaRevert) (total : Nat) : Prop :=
  state.len = int32 total ∧ state.max = int32 (argMax - total)

/-- The loop guard on the remaining space, in terms of the running total. -/
def Running (total : Nat) : Prop := 0 < int32 (argMax - total)

/-- The limit handed to `strlcpy`, in terms of the running total. -/
def revertLimit (total : Nat) : Nat := sizeOfInt (int32 (argMax - 2 * total))

def revertRefs : Nat → List CString → List PfexecArg
  | _, [] => []
  | total, string :: rest =>
    ⟨total % 2 ^ 32, string.size % 2 ^ 32⟩ :: revertRefs (total + string.size) rest

def revertStores : Nat → List CString → List Store
  | _, [] => []
  | total, string :: rest =>
    ⟨int32 total, strlcpyStored string (revertLimit total)⟩ ::
      revertStores (total + string.size) rest

theorem tracks_start : Tracks AreaRevert.start 0 := by
  have small := arg_max_small
  constructor
  · simp [AreaRevert.start, int32]
  · simp only [AreaRevert.start]
    rw [int32_exact _ (by omega) (by omega)]
    simp

theorem copied_is_size (string : CString) :
    int32 (int32 (strlcpyResult string) + 1) = int32 string.size := by
  unfold int32 strlcpyResult CString.size
  omega

theorem revert_one_tracked (state : AreaRevert) (total : Nat) (string : CString)
    (tracks : Tracks state total) :
    revertOne state string =
      { envc := state.envc + 1
        max := int32 (argMax - (total + string.size : Nat))
        len := int32 (total + string.size : Nat)
        refs := state.refs ++ [⟨total % 2 ^ 32, string.size % 2 ^ 32⟩]
        stores := state.stores ++ [⟨int32 total, strlcpyStored string (revertLimit total)⟩] } := by
  obtain ⟨used, remaining⟩ := tracks
  have limit : int32 (int32 (argMax - total) - int32 total) = int32 (argMax - 2 * total) := by
    rw [int32_sub_int32]
    apply congrArg int32
    omega
  have nextMax : int32 (int32 (argMax - total) - int32 string.size) =
      int32 (argMax - (total + string.size : Nat)) := by
    rw [int32_sub_int32]
    apply congrArg int32
    omega
  have nextLen : int32 (int32 total + int32 string.size) = int32 (total + string.size : Nat) := by
    rw [int32_add_int32]
    apply congrArg int32
    omega
  simp only [revertOne]
  rw [copied_is_size, used, remaining, limit, nextMax, nextLen, uint32_of_int32, uint32_of_int32,
    uint32_of_natural, uint32_of_natural]
  rfl

theorem revert_one_tracks (state : AreaRevert) (total : Nat) (string : CString)
    (tracks : Tracks state total) : Tracks (revertOne state string) (total + string.size) := by
  rw [revert_one_tracked state total string tracks]
  exact ⟨rfl, rfl⟩

theorem revert_loop_running (strings : List CString) (state : AreaRevert) (total : Nat)
    (tracks : Tracks state total) (room : state.envc + strings.length ≤ refMax)
    (running : ∀ index, index < strings.length → Running (total + offsetAt (sizes strings) index)) :
    (revertLoop strings state).envc = state.envc + strings.length ∧
      (revertLoop strings state).refs = state.refs ++ revertRefs total strings ∧
      (revertLoop strings state).stores = state.stores ++ revertStores total strings := by
  induction strings generalizing state total with
  | nil => simp [revertLoop, revertRefs, revertStores]
  | cons string rest ih =>
    have here : state.envc < refMax ∧ 0 < state.max := by
      constructor
      · simp only [List.length_cons] at room
        omega
      · rw [tracks.2]
        simpa [offset_zero, Running] using running 0 (by simp)
    have step := revert_one_tracked state total string tracks
    have later := ih (revertOne state string) (total + string.size)
      (revert_one_tracks state total string tracks)
      (by rw [step]; simp only [List.length_cons] at room ⊢; omega)
      (by
        intro index bound
        have next := running (index + 1) (by simpa using bound)
        simp only [sizes, List.map_cons, offset_cons_succ] at next
        rwa [Nat.add_assoc])
    simp only [revertLoop, if_pos here, revertRefs, revertStores, List.length_cons]
    rw [later.1, later.2.1, later.2.2, step]
    exact ⟨by dsimp only; omega, by simp, by simp⟩

theorem revert_refs_entry (total : Nat) (strings : List CString) (index : Nat) (string : CString)
    (entry : strings[index]? = some string) :
    (revertRefs total strings)[index]? =
      some ⟨(total + offsetAt (sizes strings) index) % 2 ^ 32, string.size % 2 ^ 32⟩ := by
  induction strings generalizing total index with
  | nil => simp at entry
  | cons head rest ih =>
    cases index with
    | zero =>
      obtain rfl : head = string := by simpa using entry
      simp [revertRefs, offset_zero]
    | succ index =>
      simp only [revertRefs, List.getElem?_cons_succ, sizes, List.map_cons, offset_cons_succ]
      rw [ih (total + head.size) index (by simpa using entry), Nat.add_assoc]
      rfl

theorem revert_loop_stores_iff (strings : List CString) (state : AreaRevert) (total : Nat)
    (tracks : Tracks state total) (write : Store) :
    write ∈ (revertLoop strings state).stores ↔ write ∈ state.stores ∨
      ∃ index string, strings[index]? = some string ∧ state.envc + index < refMax ∧
        (∀ earlier, earlier ≤ index → Running (total + offsetAt (sizes strings) earlier)) ∧
        write = ⟨int32 (total + offsetAt (sizes strings) index : Nat),
          strlcpyStored string (revertLimit (total + offsetAt (sizes strings) index))⟩ := by
  induction strings generalizing state total with
  | nil => simp [revertLoop]
  | cons head rest ih =>
    by_cases here : state.envc < refMax ∧ 0 < state.max
    · have step := revert_one_tracked state total head tracks
      have running : Running total := by
        rw [tracks.2] at here
        exact here.2
      simp only [revertLoop, if_pos here]
      rw [ih (revertOne state head) (total + head.size) (revert_one_tracks state total head tracks)]
      rw [step]
      simp only [List.mem_append, List.mem_singleton]
      constructor
      · rintro ((old | rfl) | ⟨index, string, entry, room, guards, rfl⟩)
        · exact Or.inl old
        · refine Or.inr ⟨0, head, by simp, by omega, ?_, by simp [offset_zero]⟩
          intro earlier bound
          obtain rfl : earlier = 0 := by omega
          simpa [offset_zero] using running
        · refine Or.inr ⟨index + 1, string, by simpa using entry, by omega, ?_, ?_⟩
          · intro earlier bound
            cases earlier with
            | zero => simpa [offset_zero] using running
            | succ earlier =>
              have guard := guards earlier (by omega)
              simp only [sizes, List.map_cons, offset_cons_succ]
              rwa [Nat.add_assoc] at guard
          · simp only [sizes, List.map_cons, offset_cons_succ, Nat.add_assoc]
      · rintro (old | ⟨index, string, entry, room, guards, rfl⟩)
        · exact Or.inl (Or.inl old)
        · cases index with
          | zero =>
            obtain rfl : head = string := by simpa using entry
            exact Or.inl (Or.inr (by simp [offset_zero]))
          | succ index =>
            refine Or.inr ⟨index, string, by simpa using entry, by omega, ?_, ?_⟩
            · intro earlier bound
              have guard := guards (earlier + 1) (by omega)
              simp only [sizes, List.map_cons, offset_cons_succ] at guard
              rwa [Nat.add_assoc]
            · simp only [sizes, List.map_cons, offset_cons_succ, Nat.add_assoc]
    · simp only [revertLoop, if_neg here]
      constructor
      · exact Or.inl
      · rintro (old | ⟨index, string, entry, room, guards, rfl⟩)
        · exact old
        · have guard := guards 0 (by omega)
          simp only [offset_zero, Nat.add_zero, Running] at guard
          rw [← tracks.2] at guard
          exact absurd ⟨by omega, guard⟩ here

end Cprogramming.Pfexec.EnvironmentArea
