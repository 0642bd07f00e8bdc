import Cprogramming.Library.MachineWords
import Cprogramming.Library.PackedLayout
import Cprogramming.Pfexec.Protocol

/-!
# Marshalling a request in the kernel

`fill_mbuf` copies the argument and the environment strings of the caller into
the two areas of a request. The loop keeps the remaining space in `max` and the
bytes used in `len`, and hands `copyinstr` the difference of the two: the limit
is the area less twice the bytes used, taken modulo `2 ^ 64`. A string is copied
whole while it fits below that limit, cut once when it does not, and copied
without any limit at all after the bytes used have passed the middle of the area.
-/

namespace Cprogramming.Pfexec.FillMbuf

open Library.ByteMemory Library.CStrings Library.MachineWords Library.PackedLayout
open Protocol

set_option autoImplicit false

/-- Credentials. The kernel never keeps more groups than the array holds. -/
structure Ucred where
  crUid : UInt32
  crRuid : UInt32
  crSvuid : UInt32
  crGid : UInt32
  crRgid : UInt32
  crSvgid : UInt32
  crNgroups : Nat
  crGroups : Nat → UInt32
  ngroupsBound : crNgroups ≤ ngroupsMax

def nobody : Ucred := ⟨32767, 32767, 32767, 32767, 32767, 32767, 0, fun _ => 0, by decide⟩

structure PfexecveOpts where
  pfoFlags : UInt32
  pfoUser : CString

/-- The system call arguments; `none` is a null pointer. -/
structure SysPfexecveArgs where
  opts : Option PfexecveOpts
  path : Option CString
  argp : Option (List CString)
  envp : Option (List CString)

/-- The locals of one copy loop, the references it has filled in and the bytes
it has stored. -/
structure AreaFill where
  argc : Nat
  max : Nat
  len : Nat
  refs : List PfexecArg
  stores : List Store

def AreaFill.start : AreaFill := ⟨0, argMax, 0, [], []⟩

def fillOne (state : AreaFill) (string : CString) : AreaFill :=
  let copy := copyinstr string (sizeSub state.max state.len)
  { argc := state.argc + 1
    max := sizeSub state.max copy.done
    len := sizeAdd state.len copy.done
    refs := state.refs ++ [⟨uint32OfNat state.len, uint32OfNat (sizeSub copy.done 1)⟩]
    stores := state.stores ++ [⟨state.len, copy.stored⟩] }

/-- The `while` loop over the strings up to the null pointer. -/
def fillLoop : List CString → AreaFill → AreaFill
  | [], state => state
  | string :: rest, state =>
    if state.argc < refMax ∧ 0 < state.max then fillLoop rest (fillOne state string)
    else state

def fillArea (strings : List CString) : AreaFill := fillLoop strings AreaFill.start

def AreaFill.refAt (state : AreaFill) (index : Nat) : PfexecArg :=
  state.refs.getD index PfexecArg.zero

/-- The area after the loop and the final `area[ARG_MAX - 1] = '\0'`. -/
def AreaFill.area (state : AreaFill) : Memory :=
  store (replay zeroed state.stores) (argMax - 1 : Nat) [0]

/-- A `copyinstr` into a zeroed character array of `size` bytes. -/
def copyField (string : CString) (size : Nat) : Memory :=
  store zeroed 0 (copyinstr string size).stored

/-- A null pointer faults in `copyin`, whose result is ignored: the field stays
zero. -/
def fillMbuf (pid : UInt32) (creds : Ucred) (uap : SysPfexecveArgs) : PfexecReq :=
  let args := fillArea (uap.argp.getD [])
  let envs := fillArea (uap.envp.getD [])
  { pfrPid := pid
    pfrUid := creds.crUid
    pfrGid := creds.crGid
    pfrNgroups := creds.crNgroups
    pfrGroups := fun index => if index < ngroupsMax then creds.crGroups index else 0
    pfrReqFlags := (uap.opts.map PfexecveOpts.pfoFlags).getD 0
    pfrReqUser := (uap.opts.map fun opts => copyField opts.pfoUser loginNameMax).getD zeroed
    pfrPath := (uap.path.map fun path => copyField path pathMax).getD zeroed
    pfrArgc := args.argc
    pfrArgp := args.refAt
    pfrEnvc := envs.argc
    pfrEnvp := envs.refAt
    pfrArgarea := args.area
    pfrEnvarea := envs.area }

theorem copy_field_reads_back {string : CString} {size : Nat} (fits : string.size ≤ size) :
    readString (copyField string size) 0 size = string := by
  have stored : copyField string size = store zeroed 0 string.terminated := by
    rw [copyField, copyinstr_whole string size fits]
  have byte (index : Nat) (bound : index < string.size) :
      copyField string size (0 + index) = string.terminated.getD index 0 := by
    rw [stored, store_at _ _ _ _ (by rw [terminated_length]; exact bound)]
  apply read_string_of_terminated
  · exact fits
  · intro index bound
    rw [byte index (by unfold CString.size; omega), CString.terminated,
      List.getD_append _ _ _ _ bound]
  · rw [byte string.bytes.length (by unfold CString.size; omega), CString.terminated,
      List.getD_append_right _ _ _ _ (Nat.le_refl _), Nat.sub_self]
    rfl

theorem request_path (pid : UInt32) (creds : Ucred) (uap : SysPfexecveArgs) (path : CString)
    (passed : uap.path = some path) (short : path.bytes.length < pathMax) :
    (fillMbuf pid creds uap).path = path := by
  have field : (fillMbuf pid creds uap).pfrPath = copyField path pathMax := by
    simp only [fillMbuf, passed, Option.map_some, Option.getD_some]
  rw [PfexecReq.path, field]
  exact copy_field_reads_back short

theorem request_user (pid : UInt32) (creds : Ucred) (uap : SysPfexecveArgs) (opts : PfexecveOpts)
    (passed : uap.opts = some opts) (short : opts.pfoUser.bytes.length < loginNameMax) :
    (fillMbuf pid creds uap).reqUser = opts.pfoUser := by
  have field : (fillMbuf pid creds uap).pfrReqUser = copyField opts.pfoUser loginNameMax := by
    simp only [fillMbuf, passed, Option.map_some, Option.getD_some]
  rw [PfexecReq.reqUser, field, copy_field_reads_back short]
  exact if_pos short

def sizes (strings : List CString) : List Nat := strings.map CString.size

variable (state : AreaFill) (string : CString) (strings : List CString)

theorem sizes_length : (sizes strings).length = strings.length := by
  simp [sizes]

theorem sizes_sum_cons (rest : List CString) :
    (sizes (string :: rest)).sum = string.size + (sizes rest).sum := by
  rw [sizes, List.map_cons, List.sum_cons, sizes]

theorem size_entry (index : Nat) (string : CString) (entry : strings[index]? = some string) :
    (sizes strings)[index]? = some string.size := by
  simp [sizes, entry]

theorem fill_loop_append (first second : List CString) (state : AreaFill) :
    fillLoop (first ++ second) state = fillLoop second (fillLoop first state) := by
  induction first generalizing state with
  | nil => rfl
  | cons string rest ih =>
    by_cases running : state.argc < refMax ∧ 0 < state.max
    · simp only [List.cons_append, fillLoop, if_pos running]
      exact ih (fillOne state string)
    · simp only [List.cons_append, fillLoop, if_neg running]
      cases second with
      | nil => rfl
      | cons next others => simp only [fillLoop, if_neg running]

/-! ## One step -/

/-- The two counters always add up to the area while the used bytes are inside. -/
def Balanced (state : AreaFill) : Prop :=
  state.len ≤ argMax ∧ state.max = argMax - state.len

/-- A string of `size` bytes at offset `len` is copied whole: it is below the
limit, or the limit has wrapped and the string still ends inside the area. -/
def CopiedWhole (len size : Nat) : Prop :=
  2 * len + size ≤ argMax ∨ (argMax < 2 * len ∧ len + size ≤ argMax)

/-- A string that starts before the middle and does not fit below the limit. -/
def Cut (len size : Nat) : Prop := 2 * len ≤ argMax ∧ argMax < 2 * len + size

theorem limit_before_middle {state : AreaFill} (balanced : Balanced state)
    (before : 2 * state.len ≤ argMax) : sizeSub state.max state.len = argMax - 2 * state.len := by
  have small := arg_max_small
  obtain ⟨inside, remaining⟩ := balanced
  rw [remaining, size_sub_exact _ _ (by omega) (by omega)]
  omega

/-- Past the middle the difference is negative and becomes a huge limit. -/
theorem limit_past_middle (balanced : Balanced state) (past : argMax < 2 * state.len) :
    sizeSub state.max state.len = 2 ^ 64 - (2 * state.len - argMax) := by
  have small := arg_max_small
  obtain ⟨inside, remaining⟩ := balanced
  rw [remaining, size_sub_wraps _ _ (by omega) (by omega)]
  omega

theorem fill_one_whole (balanced : Balanced state) (whole : CopiedWhole state.len string.size) :
    fillOne state string =
      { argc := state.argc + 1
        max := argMax - (state.len + string.size)
        len := state.len + string.size
        refs := state.refs ++ [⟨state.len, string.bytes.length⟩]
        stores := state.stores ++ [⟨state.len, string.terminated⟩] } := by
  have small := arg_max_small
  have positive := size_positive string
  have limit : string.size ≤ sizeSub state.max state.len := by
    rcases whole with below | ⟨past, inside⟩
    · rw [limit_before_middle balanced (by omega)]
      omega
    · rw [limit_past_middle state balanced past]
      omega
  have inside : state.len + string.size ≤ argMax := by
    unfold CopiedWhole at whole
    omega
  have length : string.size - 1 = string.bytes.length := by simp [CString.size]
  simp only [fillOne]
  rw [copyinstr_whole string _ limit, balanced.2]
  dsimp only [uint32OfNat]
  rw [size_sub_exact _ _ (by omega) (by omega), size_add_exact _ _ (by omega),
    size_sub_exact _ 1 (by omega) (by omega), length]
  rw [Nat.mod_eq_of_lt (by omega), Nat.mod_eq_of_lt (by omega), Nat.sub_sub]

/-- The cut string fills the space up to the limit without a NUL. At the exact
middle nothing is copied and the recorded length is the wrapped `0 - 1`. -/
theorem fill_one_cut (balanced : Balanced state) (cut : Cut state.len string.size) :
    fillOne state string =
      { argc := state.argc + 1
        max := state.len
        len := argMax - state.len
        refs := state.refs ++ [⟨state.len,
          if 2 * state.len = argMax then 2 ^ 32 - 1 else argMax - 2 * state.len - 1⟩]
        stores := state.stores ++
          [⟨state.len, string.terminated.take (argMax - 2 * state.len)⟩] } := by
  have small := arg_max_small
  obtain ⟨before, exceeds⟩ := cut
  have done : min (argMax - 2 * state.len) string.size = argMax - 2 * state.len :=
    Nat.min_eq_left (by omega)
  have recorded : uint32OfNat (sizeSub (argMax - 2 * state.len) 1) =
      if 2 * state.len = argMax then 2 ^ 32 - 1 else argMax - 2 * state.len - 1 := by
    split_ifs with middle
    · simp [uint32OfNat, sizeSub, middle]
    · rw [size_sub_exact _ 1 (by omega) (by omega), uint32OfNat, Nat.mod_eq_of_lt (by omega)]
  have offset : uint32OfNat state.len = state.len := Nat.mod_eq_of_lt (by omega)
  have remaining : argMax - state.len - (argMax - 2 * state.len) = state.len := by omega
  have used : state.len + (argMax - 2 * state.len) = argMax - state.len := by omega
  simp only [fillOne, copyinstr]
  rw [limit_before_middle balanced before, done, recorded, offset, balanced.2,
    size_sub_exact _ _ (by omega) (by omega), size_add_exact _ _ (by omega), remaining, used]

/-! ## Whole runs -/

def wholeRefs : Nat → List CString → List PfexecArg
  | _, [] => []
  | len, string :: rest => ⟨len, string.bytes.length⟩ :: wholeRefs (len + string.size) rest

def wholeStores : Nat → List CString → List Store
  | _, [] => []
  | len, string :: rest => ⟨len, string.terminated⟩ :: wholeStores (len + string.size) rest

/-- Every string of the list is copied whole when the first starts at `len`. -/
def AllWhole (len : Nat) (strings : List CString) : Prop :=
  ∀ index string, strings[index]? = some string →
    CopiedWhole (len + offsetAt (sizes strings) index) string.size

theorem all_whole_tail {len : Nat} {string : CString} {rest : List CString}
    (whole : AllWhole len (string :: rest)) :
    CopiedWhole len string.size ∧ AllWhole (len + string.size) rest := by
  constructor
  · have first := whole 0 string (by simp)
    simpa [sizes, offset_zero] using first
  · intro index other entry
    have next := whole (index + 1) other (by simpa using entry)
    simp only [sizes, List.map_cons, offset_cons_succ] at next
    rwa [Nat.add_assoc]

theorem fill_loop_whole (state : AreaFill) (balanced : Balanced state)
    (room : state.argc + strings.length ≤ refMax) (whole : AllWhole state.len strings) :
    fillLoop strings state =
      { argc := state.argc + strings.length
        max := argMax - (state.len + (sizes strings).sum)
        len := state.len + (sizes strings).sum
        refs := state.refs ++ wholeRefs state.len strings
        stores := state.stores ++ wholeStores state.len strings } := by
  induction strings generalizing state with
  | nil =>
    obtain ⟨_, remaining⟩ := balanced
    simp [fillLoop, sizes, wholeRefs, wholeStores, ← remaining]
  | cons string rest ih =>
    obtain ⟨first, others⟩ := all_whole_tail whole
    have positive := size_positive string
    have inside : state.len + string.size ≤ argMax := by
      unfold CopiedWhole at first
      omega
    have running : state.argc < refMax ∧ 0 < state.max := by
      rw [balanced.2]
      simp only [List.length_cons] at room
      omega
    simp only [fillLoop, if_pos running]
    rw [fill_one_whole state string balanced first]
    rw [ih _ ⟨inside, rfl⟩ (by simp only [List.length_cons] at room ⊢; omega) others]
    simp only [sizes, List.map_cons, List.sum_cons, List.length_cons, wholeRefs, wholeStores,
      List.append_assoc, List.cons_append, List.nil_append, Nat.add_assoc,
      Nat.add_comm 1 rest.length]

theorem whole_refs_length (len : Nat) (strings : List CString) :
    (wholeRefs len strings).length = strings.length := by
  induction strings generalizing len with
  | nil => rfl
  | cons string rest ih => simp [wholeRefs, ih]

theorem whole_refs_entry (len : Nat) (strings : List CString) (index : Nat) (string : CString)
    (entry : strings[index]? = some string) :
    (wholeRefs len strings)[index]? =
      some ⟨len + offsetAt (sizes strings) index, string.bytes.length⟩ := by
  induction strings generalizing len index with
  | nil => simp at entry
  | cons head rest ih =>
    cases index with
    | zero =>
      obtain rfl : head = string := by simpa using entry
      simp [wholeRefs, offset_zero]
    | succ index =>
      simp only [wholeRefs, List.getElem?_cons_succ, sizes, List.map_cons, offset_cons_succ]
      rw [ih (len + head.size) index (by simpa using entry), Nat.add_assoc]
      rfl

theorem replay_whole_stores (memory : Memory) (written : List UInt8) (strings : List CString) :
    replay (store memory 0 written) (wholeStores written.length strings) =
      store memory 0 (written ++ (strings.map CString.terminated).flatten) := by
  induction strings generalizing written with
  | nil => simp [wholeStores, replay]
  | cons string rest ih =>
    have adjacent := store_store_adjacent memory 0 written string.terminated
    simp only [Int.zero_add] at adjacent
    have length : written.length + string.size = (written ++ string.terminated).length := by
      rw [List.length_append, terminated_length]
    change replay (store (store memory 0 written) (written.length : Int) string.terminated)
      (wholeStores (written.length + string.size) rest) = _
    rw [adjacent, length, ih]
    simp

end Cprogramming.Pfexec.FillMbuf
