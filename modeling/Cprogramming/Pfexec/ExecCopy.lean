import Cprogramming.Pfexec.FillMbuf

/-!
# Copying arguments and environment for an execution

The copy loops of `sys_execve` in `kern_exec.c`. Arguments and a user environment
are copied with `copyinstr`, which stops at the end of the buffer; the kernel
environment that `pfexecve` passes is copied with `strlcpy`, whose result is the
length of the string and not of the copy. Addresses are offsets from `argp`, and
`dp` and the remaining length are taken modulo `2 ^ 64`. The fake arguments of
an interpreter script are not modelled.
-/

namespace Cprogramming.Pfexec.ExecCopy

open Library.ByteMemory Library.CStrings Library.MachineWords
open Protocol FillMbuf

set_option autoImplicit false

structure ArgBuffer where
  memory : Memory
  dp : Nat
  count : Nat

/-- One iteration over user strings; a string cut by `copyinstr` is `E2BIG`. -/
def copyinOne (buffer : ArgBuffer) (string : CString) : Except Int ArgBuffer :=
  let copy := copyinstr string (sizeSub argMax buffer.dp)
  if copy.error = enametoolong then .error e2big
  else if copy.error ≠ 0 then .error copy.error
  else .ok
    { memory := store buffer.memory buffer.dp copy.stored
      dp := sizeAdd buffer.dp copy.done
      count := buffer.count + 1 }

def copyinStrings : List CString → ArgBuffer → Except Int ArgBuffer
  | [], buffer => .ok buffer
  | string :: rest, buffer =>
    match copyinOne buffer string with
    | .error code => .error code
    | .ok next => copyinStrings rest next

def copyArgp (argp : List CString) : Except Int ArgBuffer :=
  match copyinStrings argp ⟨zeroed, 0, 0⟩ with
  | .error code => .error code
  | .ok buffer => if buffer.count = 0 then .error einval else .ok buffer

def copyEnvp (block : ArgBuffer) (envp : List CString) : Except Int ArgBuffer :=
  copyinStrings envp { block with count := 0 }

def kcopyOne (buffer : ArgBuffer) (string : CString) : ArgBuffer :=
  { memory :=
      store buffer.memory buffer.dp (strlcpyStored string (sizeSub argMax buffer.dp))
    dp := sizeAdd buffer.dp (sizeAdd (strlcpyResult string) 1)
    count := buffer.count + 1 }

def copyKenvp (block : ArgBuffer) (kenvp : List CString) : Except Int ArgBuffer :=
  .ok (kenvp.foldl kcopyOne { block with count := 0 })

/-! ## A string that fits and one that does not -/

variable (strings : List CString) (buffer : ArgBuffer)

theorem room_left (dp : Nat) (within : dp ≤ argMax) : sizeSub argMax dp = argMax - dp :=
  size_sub_exact _ _ (Nat.lt_trans arg_max_small (by decide)) within

def appended (buffer : ArgBuffer) (string : CString) : ArgBuffer where
  memory := store buffer.memory buffer.dp string.terminated
  dp := buffer.dp + string.size
  count := buffer.count + 1

theorem copyin_one_fits (string : CString) (fits : buffer.dp + string.size ≤ argMax) :
    copyinOne buffer string = .ok (appended buffer string) := by
  have small := arg_max_small
  have limit := room_left buffer.dp (by omega)
  have sum : sizeAdd buffer.dp string.size = buffer.dp + string.size :=
    size_add_exact _ _ (by omega)
  simp only [copyinOne, limit]
  rw [copyinstr_whole string (argMax - buffer.dp) (by omega)]
  dsimp only
  rw [if_neg (by decide), if_neg (by decide), sum]
  rfl

theorem copyin_one_too_big {buffer : ArgBuffer} {string : CString} (within : buffer.dp ≤ argMax)
    (exceeds : argMax < buffer.dp + string.size) : copyinOne buffer string = .error e2big := by
  have limit := room_left buffer.dp within
  have cut : (copyinstr string (argMax - buffer.dp)).error = enametoolong := by
    unfold copyinstr
    exact if_neg (by omega)
  simp only [copyinOne, limit]
  rw [if_pos cut]

theorem kcopy_one_fits (string : CString) (fits : buffer.dp + string.size ≤ argMax) :
    kcopyOne buffer string = appended buffer string := by
  have small := arg_max_small
  have limit := room_left buffer.dp (by omega)
  have length : strlcpyResult string + 1 = string.size := rfl
  have size : sizeAdd (strlcpyResult string) 1 = string.size := by
    rw [size_add_exact _ _ (by omega), length]
  have sum : sizeAdd buffer.dp string.size = buffer.dp + string.size :=
    size_add_exact _ _ (by omega)
  simp only [kcopyOne, limit, size, sum]
  rw [strlcpy_whole string (argMax - buffer.dp) (by omega)]
  rfl

/-! ## The loops -/

theorem copyin_strings_fit (fits : buffer.dp + (sizes strings).sum ≤ argMax) :
    copyinStrings strings buffer = .ok (strings.foldl appended buffer) := by
  induction strings generalizing buffer with
  | nil => rfl
  | cons string rest ih =>
    have total : buffer.dp + (string.size + (sizes rest).sum) ≤ argMax := by
      rwa [sizes_sum_cons] at fits
    rw [copyinStrings, copyin_one_fits buffer string (by omega)]
    apply ih
    simp only [appended]
    omega

theorem copyin_strings_too_big (within : buffer.dp ≤ argMax)
    (exceeds : argMax < buffer.dp + (sizes strings).sum) :
    copyinStrings strings buffer = .error e2big := by
  induction strings generalizing buffer with
  | nil =>
    simp only [sizes, List.map_nil, List.sum_nil] at exceeds
    omega
  | cons string rest ih =>
    have total : argMax < buffer.dp + (string.size + (sizes rest).sum) := by
      rwa [sizes_sum_cons] at exceeds
    by_cases fits : buffer.dp + string.size ≤ argMax
    · rw [copyinStrings, copyin_one_fits buffer string fits]
      apply ih
      · exact fits
      · simp only [appended]
        omega
    · rw [copyinStrings, copyin_one_too_big within (by omega)]

theorem kcopy_strings_fit (fits : buffer.dp + (sizes strings).sum ≤ argMax) :
    strings.foldl kcopyOne buffer = strings.foldl appended buffer := by
  induction strings generalizing buffer with
  | nil => rfl
  | cons string rest ih =>
    have total : buffer.dp + (string.size + (sizes rest).sum) ≤ argMax := by
      rwa [sizes_sum_cons] at fits
    rw [List.foldl_cons, List.foldl_cons, kcopy_one_fits buffer string (by omega)]
    apply ih
    simp only [appended]
    omega

theorem appended_dp : (strings.foldl appended buffer).dp = buffer.dp + (sizes strings).sum := by
  induction strings generalizing buffer with
  | nil => rfl
  | cons string rest ih =>
    rw [List.foldl_cons, ih, sizes_sum_cons]
    simp only [appended]
    omega

theorem copy_argp_within {argp : List CString} {block : ArgBuffer}
    (copied : copyArgp argp = .ok block) : block.dp ≤ argMax := by
  unfold copyArgp at copied
  by_cases fits : (sizes argp).sum ≤ argMax
  · have start : (⟨zeroed, 0, 0⟩ : ArgBuffer).dp + (sizes argp).sum ≤ argMax := by
      simpa using fits
    rw [copyin_strings_fit argp _ start] at copied
    dsimp only at copied
    split_ifs at copied
    rw [← Except.ok.inj copied, appended_dp]
    exact start
  · rw [copyin_strings_too_big argp _ (Nat.zero_le _) (by simpa using fits)] at copied
    cases copied

/-- Both branches agree, and stay in the buffer, exactly for an environment that
fits after the arguments. -/
theorem kernel_environment_agrees_iff (block : ArgBuffer) (within : block.dp ≤ argMax)
    (environment : List CString) :
    (copyKenvp block environment = copyEnvp block environment ∧
        ∀ copied, copyKenvp block environment = .ok copied → copied.dp ≤ argMax) ↔
      block.dp + (sizes environment).sum ≤ argMax := by
  unfold copyKenvp copyEnvp
  constructor
  · rintro ⟨same, _⟩
    by_contra exceeds
    rw [copyin_strings_too_big environment { block with count := 0 } within
      (Nat.lt_of_not_le exceeds)] at same
    cases same
  · intro fits
    rw [kcopy_strings_fit environment { block with count := 0 } fits,
      copyin_strings_fit environment { block with count := 0 } fits]
    refine ⟨rfl, ?_⟩
    intro copied done
    rw [← Except.ok.inj done, appended_dp]
    exact fits

def nearlyFull : ArgBuffer := ⟨zeroed, argMax - 4, 1⟩

theorem last_four_bytes_agree :
    copyKenvp nearlyFull [letters 3] = copyEnvp nearlyFull [letters 3] :=
  ((kernel_environment_agrees_iff nearlyFull (by decide) [letters 3]).mpr (by decide)).1

/-- One byte more: the user branch refuses the string, the kernel branch cuts it
and leaves `dp` behind the end of the buffer. -/
theorem kernel_environment_overruns :
    copyEnvp nearlyFull [letters 4] = .error e2big ∧
      ∃ copied, copyKenvp nearlyFull [letters 4] = .ok copied ∧ copied.dp = argMax + 1 :=
  ⟨rfl, _, rfl, rfl⟩

end Cprogramming.Pfexec.ExecCopy
