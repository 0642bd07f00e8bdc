import Cprogramming.Acct.Effects

/-!
# Locks held after a call

Every function of the driver drops the locks it takes, with one exception: a read
whose copy to the caller fails returns with `ac_taillock` held.
-/

namespace Cprogramming.Acct.Locks

open Library.CStrings Library.Runs
open Records Device Effects

set_option autoImplicit false

structure Held where
  tail : RwLock
  trk : RwLock
  seq : RwLock

def held (driver : Driver) : Held := ⟨driver.acTaillock, driver.acTrklock, driver.acSeqlock⟩

/-- The call is a read that gets as far as copying a record out, and the copy
fails. -/
def CopyFaults (driver : Driver) : Call → Prop
  | .read uio sleeps uiomove =>
    ¬ (driver.acctEna = 0 ∧ driver.acctFcount = 0) ∧ 0 ≤ uio.uioOffset ∧ 0 < uio.uioResid ∧
      uiomove 0 ≠ 0 ∧ ∃ holding tail, waitTail (lockTail driver) sleeps = .found holding tail
  | _ => False

variable (driver : Driver)

theorem vnoderemove_held (vnode : Vnode) :
    held (trktreeVnoderemove driver vnode).2 = held driver := by
  cases found : driver.fTracker.find (vnodeKey vnode) with
  | none => rw [vnoderemove_missing driver vnode found]
  | some node =>
    rw [vnoderemove_found driver vnode node found]
    rfl

theorem hook_held {malloc : Bool} {before after : Driver} (ends : HookEnds malloc before after) :
    held after = held before := by
  cases ends with
  | ignored => rfl
  | recorded node => rfl
  | dropped failed => rfl
  | untracked vnode => exact vnoderemove_held before vnode
  | recordedUntracked node vnode => exact vnoderemove_held (addNode before node) vnode

theorem run_hooks_held (hooks : List (HookContext × Hook)) :
    held (runHooks driver hooks) = held driver := by
  apply run_hooks_invariant (fun current => held current = held driver)
  · intro malloc before after same ends
    rw [hook_held ends]
    exact same
  · rfl

theorem lock_tail_held : held (lockTail driver) ≠ held driver := by
  intro same
  have readers := congrArg (fun locks => locks.tail.readers) same
  simp only [held, lockTail, rwEnterRead] at readers
  omega

theorem read_held_iff (uio : Uio) (sleeps : List Sleep) (uiomove : Nat → Int) :
    held (acctread driver uio sleeps uiomove).driver = held driver ↔
      ¬ CopyFaults driver (.read uio sleeps uiomove) := by
  simp only [CopyFaults]
  by_cases off : driver.acctEna = 0 ∧ driver.acctFcount = 0
  · rw [acctread, if_pos off]
    exact iff_of_true rfl (fun faults => faults.1 off)
  by_cases negative : uio.uioOffset < 0
  · rw [acctread, if_neg off, if_pos negative]
    exact iff_of_true rfl (fun faults => absurd faults.2.1 (by omega))
  rw [acctread_waits driver uio sleeps uiomove off negative]
  have waited := wait_tail_ends driver sleeps
  generalize waitTail (lockTail driver) sleeps = result at waited ⊢
  cases waited with
  | failed hooks error =>
    refine iff_of_true (run_hooks_held driver hooks) ?_
    rintro ⟨_, _, _, _, holding, tail, found⟩
    cases found
  | asleep hooks =>
    refine iff_of_true (run_hooks_held driver hooks) ?_
    rintro ⟨_, _, _, _, holding, tail, found⟩
    cases found
  | found hooks tail last =>
    have positive := ac_len_positive tail
    have leaks : held (lockTail (runHooks driver hooks)) ≠ held driver := by
      rw [← run_hooks_held driver hooks]
      exact lock_tail_held _
    dsimp only
    rw [copy_out_eq]
    by_cases room : uio.uioResid = 0 ∨ tail.acCommon.acLen = 0
    · rw [if_pos room, if_neg (by simp)]
      refine iff_of_true (run_hooks_held driver hooks) ?_
      rintro ⟨_, _, space, _⟩
      omega
    · rw [if_neg room]
      by_cases fault : uiomove 0 ≠ 0
      · rw [if_pos fault, if_pos fault]
        refine iff_of_false leaks ?_
        intro kept
        exact kept ⟨off, by omega, by omega, fault, _, tail, rfl⟩
      · rw [if_neg fault, if_neg (by simp)]
        exact iff_of_true (run_hooks_held driver hooks) (fun faults => fault faults.2.2.2.1)

def Unwritten (driver : Driver) : Prop := driver.acTrklock.writer = false

theorem writer_left {driver : Driver} (unwritten : Unwritten driver) :
    ({ driver.acTrklock with writer := false } : RwLock) = driver.acTrklock := by
  rw [← unwritten]

theorem ioctl_held (namei : CString → Option Vnode) {driver : Driver} (cmd : AcctIoc)
    (ctl : AcctCtl) (unwritten : Unwritten driver) :
    held (acctioctl namei driver cmd ctl).driver = held driver := by
  by_cases disables : cmd = .disable
  · rw [disables, disable_eq]
    simp only [held, writer_left unwritten]
  · have ends := ioctl_ends namei driver cmd ctl disables
    generalize (acctioctl namei driver cmd ctl).driver = after at ends
    cases ends with
    | masked enabled => rfl
    | tracked vnode ctl => simp only [held, writer_left unwritten]
    | untracked vnode => exact vnoderemove_held driver vnode

theorem step_held_iff (call : Call) (unwritten : Unwritten driver) :
    held (step driver call) = held driver ↔ ¬ CopyFaults driver call := by
  cases call with
  | ioctl namei cmd ctl => exact iff_of_true (ioctl_held namei cmd ctl unwritten) id
  | hook context hook =>
    exact iff_of_true (hook_held (call_hook_ends context driver hook)) id
  | read uio sleeps uiomove => exact read_held_iff driver uio sleeps uiomove
  | close => exact iff_of_true rfl id

theorem step_unwritten (call : Call) (unwritten : Unwritten driver) :
    Unwritten (step driver call) := by
  have same : (held (step driver call)).trk = (held driver).trk := by
    cases call with
    | ioctl namei cmd ctl => exact congrArg Held.trk (ioctl_held namei cmd ctl unwritten)
    | hook context hook =>
      exact congrArg Held.trk (hook_held (call_hook_ends context driver hook))
    | read uio sleeps uiomove =>
      have slept := fun hooks => congrArg Held.trk (run_hooks_held driver hooks)
      have ends := acctread_ends driver uio sleeps uiomove
      simp only [step]
      generalize (acctread driver uio sleeps uiomove).driver = after at ends
      cases ends with
      | unread hooks => exact slept hooks
      | faulted hooks => exact slept hooks
      | consumed hooks => exact slept hooks
    | close => rfl
  simp only [held] at same
  unfold Unwritten
  rw [same]
  exact unwritten

/-- In every state that calls lead to, a call leaves the locks as it found them,
unless it is a read whose copy fails. -/
theorem locks_kept_iff (calls : List Call) (call : Call) :
    held (step (run step acctattach calls) call) = held (run step acctattach calls) ↔
      ¬ CopyFaults (run step acctattach calls) call := by
  apply step_held_iff
  exact run_invariant step Unwritten step_unwritten acctattach rfl calls

def oneExec : List Call :=
  [.ioctl (fun _ => none) .enable ⟨acctEnaExec, 0, 0, CString.ofString ""⟩,
    .hook ⟨⟨⟨0, 0⟩, ⟨0, 0⟩, 100, 10000⟩, true⟩
      (.exec ⟨[115, 104], ⟨0, 0⟩, 7, 0, 0, false, none, 0⟩)]

/-- The copy of its record fails with `EFAULT`. -/
theorem fault_leaks_lock :
    held (step (run step acctattach oneExec) (.read ⟨0, 4096⟩ [] (fun _ => 14))) ≠
      held (run step acctattach oneExec) := by
  intro same
  exact (read_held_iff (run step acctattach oneExec) ⟨0, 4096⟩ [] (fun _ => 14)).mp same
    ⟨by decide, by decide, by decide, by decide, _, _, rfl⟩

end Cprogramming.Acct.Locks
