import Cprogramming.Acct.Device

/-!
# What a call of the audit driver can do

Each function of the driver is described once: a tree function by the lookup it
starts with, a hook by the record it queues and the entry it removes, a read by the
hooks that ran while it slept and its own ending. Everything about a run follows
from these descriptions.
-/

namespace Cprogramming.Acct.Effects

open Library.CStrings Library.MachineWords Library.KeyedTree Library.Runs
open Records Device

set_option autoImplicit false

/-! ## Tree functions -/

variable (namei : CString → Option Vnode) (driver : Driver) (ctl : AcctCtl) (vnode : Vnode)

theorem vnodelookup_eq :
    trktreeVnodelookup driver vnode = (driver.fTracker.find (vnodeKey vnode), driver) := by
  rfl

theorem vnoderemove_found (node : Trkvnode)
    (found : driver.fTracker.find (vnodeKey vnode) = some node) :
    trktreeVnoderemove driver vnode = (some node, { driver with
      fTracker := driver.fTracker.remove (vnodeKey vnode)
      acctFcount := driver.acctFcount - 1 }) := by
  simp only [trktreeVnoderemove, found, rw_read_section]

theorem vnoderemove_missing (missing : driver.fTracker.find (vnodeKey vnode) = none) :
    trktreeVnoderemove driver vnode = (none, driver) := by
  simp only [trktreeVnoderemove, missing, rw_read_section]

theorem same_key_iff (left right : Vnode) : vnodeKey left = vnodeKey right ↔ left = right := by
  unfold vnodeKey
  rw [UInt64.toNat_inj, Subtype.ext_iff]

theorem vnoderemove_find (file : Vnode) :
    (trktreeVnoderemove driver vnode).2.fTracker.find (vnodeKey file) =
      if file = vnode then none else driver.fTracker.find (vnodeKey file) := by
  cases found : driver.fTracker.find (vnodeKey vnode) with
  | none =>
    rw [vnoderemove_missing driver vnode found]
    split_ifs with same
    · rw [same, found]
    · rfl
  | some node =>
    simp only [vnoderemove_found driver vnode node found, find_remove, same_key_iff]

theorem vnoderemove_queue : (trktreeVnoderemove driver vnode).2.acctList = driver.acctList ∧
      (trktreeVnoderemove driver vnode).2.acSeq = driver.acSeq := by
  cases found : driver.fTracker.find (vnodeKey vnode) with
  | none => simp only [vnoderemove_missing driver vnode found, and_self]
  | some node => simp only [vnoderemove_found driver vnode node found, and_self]

theorem tracked_find (tree : Tree trkKey) (vnode : Vnode) (ctl : AcctCtl) (file : Vnode) :
    ((tree.insert (trkvnodeNew vnode ctl.acctPath)).update (vnodeKey vnode) (trackMasks ctl)
        (track_masks_key ctl)).find (vnodeKey file) =
      if file = vnode then
        some (trackMasks ctl ((tree.find (vnodeKey vnode)).getD (trkvnodeNew vnode ctl.acctPath)))
      else tree.find (vnodeKey file) := by
  have key : trkKey (trkvnodeNew vnode ctl.acctPath) = vnodeKey vnode := rfl
  rw [find_update]
  simp only [same_key_iff]
  cases found : tree.find (vnodeKey vnode) with
  | some node =>
    rw [insert_present tree (trkvnodeNew vnode ctl.acctPath) node found, found]
    rfl
  | none =>
    simp only [find_insert tree (trkvnodeNew vnode ctl.acctPath) found, key, if_true,
      Option.map_some, Option.getD_none]
    split_ifs with same here
    · rfl
    · exact absurd ((same_key_iff vnode file).mp here).symm same
    · rfl

theorem delete_vnodes_eq : trktreeDeleteVnodes driver = { driver with
      fTracker := Tree.empty, acTrklock := { driver.acTrklock with writer := false } } := by
  simp only [trktreeDeleteVnodes, remove_every_node]
  rfl

theorem and_acct_ena_all_nonzero (mask : BitVec 32) : andAcctEnaAll mask ≠ 0 := by
  intro zero
  have bit : (andAcctEnaAll mask).getLsbD 1 = true := by
    simp [andAcctEnaAll, acctEnaExec, acctEnaFork, acctEnaExit, acctEnaOpen, acctEnaClose,
      acctEnaRename, acctEnaUnlink]
  rw [zero] at bit
  exact absurd bit (by decide)

theorem disable_eq : (acctioctl namei driver .disable ctl).driver = { driver with
      acctEna := driver.acctEna &&& logicalNot ctl.acctEna
      fTracker := Tree.empty
      acTrklock := { driver.acTrklock with writer := false } } := by
  simp only [acctioctl, if_pos (and_acct_ena_all_nonzero ctl.acctEna), delete_vnodes_eq]

theorem track_resolved (resolves : pathToVnode namei ctl.acctPath = some vnode) :
    ∃ node, trkKey node = vnodeKey vnode ∧
      (driver.fTracker.find (vnodeKey vnode) = some node ∨
        driver.fTracker.find (vnodeKey vnode) = none ∧ node = trkvnodeNew vnode ctl.acctPath) ∧
      acctioctl namei driver .trackFile ctl =
        ⟨{ driver with
            fTracker := (driver.fTracker.insert (trkvnodeNew vnode ctl.acctPath)).update
              (vnodeKey vnode) (trackMasks ctl) (track_masks_key ctl)
            acctFcount := if driver.fTracker.find (vnodeKey vnode) = none
              then driver.acctFcount + 1 else driver.acctFcount
            acTrklock := { driver.acTrklock with writer := false } },
          { ctl with
            acctEna := (trackMasks ctl node).trkEna.setWidth 32
            acctCond := (trackMasks ctl node).trkFlags.setWidth 32
            acctFcount := if driver.fTracker.find (vnodeKey vnode) = none
              then driver.acctFcount + 1 else driver.acctFcount }, 0⟩ := by
  have newKey : trkKey (trkvnodeNew vnode ctl.acctPath) = vnodeKey vnode := rfl
  cases found : driver.fTracker.find (vnodeKey vnode) with
  | some node =>
    obtain ⟨_, key⟩ := find_some driver.fTracker (vnodeKey vnode) node found
    refine ⟨node, key, Or.inl rfl, ?_⟩
    simp only [acctioctl, trktreeAddPath, resolves, trktreeAddVnode, trktreeAddVnodeUnlocked,
      newKey, found, key, Tree.insert, rwEnterWrite, rwExitWrite]
    rfl
  | none =>
    refine ⟨trkvnodeNew vnode ctl.acctPath, newKey, Or.inr ⟨rfl, rfl⟩, ?_⟩
    simp only [acctioctl, trktreeAddPath, resolves, trktreeAddVnode, trktreeAddVnodeUnlocked,
      newKey, found, if_true, rwEnterWrite, rwExitWrite]

theorem track_unresolved {ctl : AcctCtl} (unresolved : pathToVnode namei ctl.acctPath = none) :
    (acctioctl namei driver .trackFile ctl).driver = driver := by
  simp only [acctioctl, trktreeAddPath, unresolved, trktreeAddVnode]

theorem untrack_eq : (acctioctl namei driver .untrackFile ctl).driver =
      match pathToVnode namei ctl.acctPath with
      | none => driver
      | some vnode => (trktreeVnoderemove driver vnode).2 := by
  simp only [acctioctl, trktreePathremove]
  cases pathToVnode namei ctl.acctPath with
  | none => rfl
  | some vnode => rfl

/-- The ways an ioctl other than `ACCT_IOC_DISABLE` can end. -/
inductive IoctlEnds (driver : Driver) : Driver → Prop
  | masked (enabled : BitVec 32) : IoctlEnds driver { driver with acctEna := enabled }
  | tracked (vnode : Vnode) (ctl : AcctCtl) : IoctlEnds driver { driver with
      fTracker := (driver.fTracker.insert (trkvnodeNew vnode ctl.acctPath)).update
        (vnodeKey vnode) (trackMasks ctl) (track_masks_key ctl)
      acctFcount := if driver.fTracker.find (vnodeKey vnode) = none
        then driver.acctFcount + 1 else driver.acctFcount
      acTrklock := { driver.acTrklock with writer := false } }
  | untracked (vnode : Vnode) : IoctlEnds driver (trktreeVnoderemove driver vnode).2

theorem ioctl_ends (cmd : AcctIoc) (ctl : AcctCtl) (notDisable : cmd ≠ .disable) :
    IoctlEnds driver (acctioctl namei driver cmd ctl).driver := by
  cases cmd with
  | disable => exact absurd rfl notDisable
  | trackFile =>
    cases resolves : pathToVnode namei ctl.acctPath with
    | none =>
      rw [track_unresolved namei driver resolves]
      exact .masked driver.acctEna
    | some vnode =>
      obtain ⟨node, _, _, tracked⟩ := track_resolved namei driver ctl vnode resolves
      rw [tracked]
      exact .tracked vnode ctl
  | untrackFile =>
    rw [untrack_eq]
    cases pathToVnode namei ctl.acctPath with
    | none => exact .masked driver.acctEna
    | some vnode => exact .untracked vnode
  | fstatus =>
    simp only [acctioctl, trktreePathlookup]
    cases pathToVnode namei ctl.acctPath with
    | none => exact .masked driver.acctEna
    | some vnode => exact .masked driver.acctEna
  | enable => exact .masked _
  | status => exact .masked driver.acctEna
  | fionread => exact .masked driver.acctEna
  | fionbio => exact .masked driver.acctEna
  | other => exact .masked driver.acctEna

/-! ## Hooks -/

theorem add_node_eq (node : AcctRecord) : addNode driver node = { driver with
      acctList := node.withSeq (uint32OfInt driver.acSeq) :: driver.acctList
      acSeq := int32 (driver.acSeq + 1) } := by
  rfl

/-- The ways a hook can end; it drops an event only for want of memory. -/
inductive HookEnds (malloc : Bool) (driver : Driver) : Driver → Prop
  | ignored : HookEnds malloc driver driver
  | recorded (node : AcctRecord) : HookEnds malloc driver (addNode driver node)
  | dropped (failed : malloc = false) : HookEnds malloc driver (updateSeq driver).2
  | untracked (vnode : Vnode) : HookEnds malloc driver (trktreeVnoderemove driver vnode).2
  | recordedUntracked (node : AcctRecord) (vnode : Vnode) :
      HookEnds malloc driver (trktreeVnoderemove (addNode driver node) vnode).2

theorem record_node_ends (malloc : Bool) (node : AcctRecord) :
    HookEnds malloc driver (recordNode driver malloc node) := by
  cases malloc with
  | true => exact HookEnds.recorded node
  | false => exact HookEnds.dropped rfl

/-- The shape of `acct_open` and `acct_close`: a record for an entry that is not
filtered. -/
theorem lookup_record_ends (malloc : Bool) (vn : Vnode) (filter : Trkvnode → Int)
    (build : Trkvnode → AcctRecord) :
    HookEnds malloc driver (match driver.fTracker.find (vnodeKey vn) with
      | none => driver
      | some node => if filter node ≠ 0 then driver else recordNode driver malloc (build node)) := by
  cases driver.fTracker.find (vnodeKey vn) with
  | none => exact HookEnds.ignored
  | some node =>
    dsimp only
    split_ifs
    · exact HookEnds.ignored
    · exact record_node_ends driver malloc (build node)

theorem record_and_untrack_ends (context : HookContext) (driver : Driver) (vn : Vnode)
    (ena : BitVec 32) (record : CString → AcctRecord) :
    HookEnds context.malloc driver (recordAndUntrack context driver vn ena record) := by
  simp only [recordAndUntrack, vnodelookup_eq]
  cases driver.fTracker.find (vnodeKey vn) with
  | none => exact HookEnds.ignored
  | some node =>
    dsimp only
    split_ifs with filtered full
    · exact HookEnds.untracked node.trkvnode
    · exact HookEnds.recordedUntracked _ node.trkvnode
    · exact HookEnds.dropped (Bool.not_eq_true _ ▸ full)

theorem call_hook_ends (context : HookContext) (driver : Driver) (hook : Hook) :
    HookEnds context.malloc driver (callHook context driver hook) := by
  cases hook with
  | fork parent child =>
    simp only [callHook, acctFork]
    split_ifs
    · exact HookEnds.ignored
    · exact record_node_ends driver context.malloc _
  | exec pr =>
    simp only [callHook, acctExec]
    split_ifs
    · exact HookEnds.ignored
    · exact record_node_ends driver context.malloc _
  | exit pr usage =>
    simp only [callHook, acctExit]
    split_ifs
    · exact HookEnds.ignored
    · exact record_node_ends driver context.malloc _
  | «open» pr vn i0 i1 =>
    exact lookup_record_ends driver context.malloc vn
      (fun node => trktreeParsepermissions driver (some node) (acctEnaOpen.setWidth 8)
        (BitVec.ofInt 8 i0))
      (fun node => openRecord context.clock pr node.trkName i0 i1)
  | rename pr vn name e0 =>
    rw [callHook, acctRename]
    exact record_and_untrack_ends context driver vn _ _
  | unlink pr vn e0 =>
    rw [callHook, acctUnlink]
    exact record_and_untrack_ends context driver vn _ _
  | close pr vn =>
    exact lookup_record_ends driver context.malloc vn
      (fun node => trktreeParsepermissions driver (some node) (acctEnaClose.setWidth 8) 0)
      (fun node => closeRecord context.clock pr node.trkName)

theorem run_hooks_append (first second : List (HookContext × Hook)) :
    runHooks driver (first ++ second) = runHooks (runHooks driver first) second := by
  exact run_append _ driver first second

theorem run_hooks_invariant (holds : Driver → Prop)
    (preserved : ∀ malloc before after, holds before → HookEnds malloc before after → holds after)
    (driver : Driver) (initial : holds driver) (hooks : List (HookContext × Hook)) :
    holds (runHooks driver hooks) := by
  apply run_invariant _ holds ?_ driver initial hooks
  intro before call held
  exact preserved call.1.malloc before _ held (call_hook_ends call.1 before call.2)

/-! ## Reading -/

def lockTail (driver : Driver) : Driver :=
  { driver with acTaillock := rwEnterRead driver.acTaillock }

/-- The ways the wait for a record can end, after the hooks that ran meanwhile. -/
inductive WaitEnds (driver : Driver) : Wait → Prop
  | found (hooks : List (HookContext × Hook)) (tail : AcctRecord)
      (last : (runHooks driver hooks).acctList.getLast? = some tail) :
      WaitEnds driver (.found (lockTail (runHooks driver hooks)) tail)
  | failed (hooks : List (HookContext × Hook)) (error : Int) :
      WaitEnds driver (.failed (runHooks driver hooks) error)
  | asleep (hooks : List (HookContext × Hook)) : WaitEnds driver (.asleep (runHooks driver hooks))

theorem wait_tail_queued (sleeps : List Sleep) (tail : AcctRecord)
    (last : driver.acctList.getLast? = some tail) :
    waitTail (lockTail driver) sleeps = .found (lockTail driver) tail := by
  rw [waitTail]
  simp only [lockTail, last]

theorem wait_tail_asleep (empty : driver.acctList.getLast? = none) :
    waitTail (lockTail driver) [] = .asleep driver := by
  rw [waitTail]
  simp only [lockTail, empty, rw_read_section]

theorem wait_tail_slept {driver : Driver} (sleep : Sleep) (rest : List Sleep)
    (empty : driver.acctList.getLast? = none) : waitTail (lockTail driver) (sleep :: rest) =
      if sleep.error ≠ ewouldblock ∧ sleep.error ≠ 0 then
        .failed (runHooks driver sleep.hooks) sleep.error
      else waitTail (lockTail (runHooks driver sleep.hooks)) rest := by
  rw [waitTail]
  simp only [lockTail, empty]
  rfl

theorem wait_ends_after {driver : Driver} {first : List (HookContext × Hook)} {result : Wait}
    (later : WaitEnds (runHooks driver first) result) : WaitEnds driver result := by
  cases later with
  | found hooks tail here =>
    rw [← run_hooks_append] at here ⊢
    exact WaitEnds.found (first ++ hooks) tail here
  | failed hooks error =>
    rw [← run_hooks_append]
    exact WaitEnds.failed (first ++ hooks) error
  | asleep hooks =>
    rw [← run_hooks_append]
    exact WaitEnds.asleep (first ++ hooks)

theorem wait_tail_ends (sleeps : List Sleep) :
    WaitEnds driver (waitTail (lockTail driver) sleeps) := by
  induction sleeps generalizing driver with
  | nil =>
    cases last : driver.acctList.getLast? with
    | some tail =>
      rw [wait_tail_queued driver [] tail last]
      exact WaitEnds.found [] tail last
    | none =>
      rw [wait_tail_asleep driver last]
      exact WaitEnds.asleep []
  | cons sleep rest ih =>
    cases last : driver.acctList.getLast? with
    | some tail =>
      rw [wait_tail_queued driver (sleep :: rest) tail last]
      exact WaitEnds.found [] tail last
    | none =>
      rw [wait_tail_slept sleep rest last]
      split_ifs
      · exact WaitEnds.failed sleep.hooks sleep.error
      · exact wait_ends_after (ih (runHooks driver sleep.hooks))

/-- One pass copies all that fits: a second one never happens. -/
theorem copy_out_eq (uiomove : Nat → Int) (acLen resid : Nat) :
    copyOut uiomove acLen resid 0 =
      if resid = 0 ∨ acLen = 0 then ([], 0)
      else if uiomove 0 ≠ 0 then ([], uiomove 0)
      else ([⟨0, min acLen resid⟩], 0) := by
  rw [copyOut]
  by_cases noRoom : resid = 0
  · simp [noRoom]
  · by_cases empty : acLen = 0
    · simp [noRoom, empty]
    · have positive : ¬ acLen ≤ 0 := by omega
      simp only [noRoom, empty, or_self, if_false, if_neg positive, Nat.sub_zero, Nat.zero_add,
        Nat.zero_mul]
      split_ifs with fault
      · rfl
      · have done : copyOut uiomove acLen (resid - min acLen resid) (min acLen resid) = ([], 0) := by
          rw [copyOut]
          by_cases full : resid - min acLen resid = 0
          · rw [if_pos full]
          · rw [if_neg full, if_pos (by omega)]
        rw [done]

theorem acctread_waits (uio : Uio) (sleeps : List Sleep) (uiomove : Nat → Int)
    (on : ¬ (driver.acctEna = 0 ∧ driver.acctFcount = 0)) (offset : ¬ uio.uioOffset < 0) :
    acctread driver uio sleeps uiomove =
      match waitTail (lockTail driver) sleeps with
      | .asleep waiting => .asleep waiting
      | .failed woken error => .returned woken error none
      | .found holding tail =>
        if (copyOut uiomove tail.acCommon.acLen uio.uioResid 0).2 ≠ 0 then
          .returned holding (copyOut uiomove tail.acCommon.acLen uio.uioResid 0).2 none
        else
          .returned { holding with
              acctList := holding.acctList.dropLast
              acTaillock := rwExitRead holding.acTaillock } 0
            (some (tail, (copyOut uiomove tail.acCommon.acLen uio.uioResid 0).1)) := by
  rw [acctread, if_neg on, if_neg offset]
  rfl

/-- The ways a read can end, after the hooks that ran while it slept. -/
inductive ReadEnds (driver : Driver) : Driver → Prop
  | unread (hooks : List (HookContext × Hook)) : ReadEnds driver (runHooks driver hooks)
  | faulted (hooks : List (HookContext × Hook)) : ReadEnds driver (lockTail (runHooks driver hooks))
  | consumed (hooks : List (HookContext × Hook)) :
      ReadEnds driver { runHooks driver hooks with
        acctList := (runHooks driver hooks).acctList.dropLast }

theorem acctread_ends (uio : Uio) (sleeps : List Sleep) (uiomove : Nat → Int) :
    ReadEnds driver (acctread driver uio sleeps uiomove).driver := by
  by_cases off : driver.acctEna = 0 ∧ driver.acctFcount = 0
  · rw [acctread, if_pos off]
    exact ReadEnds.unread []
  by_cases negative : uio.uioOffset < 0
  · rw [acctread, if_neg off, if_pos negative]
    exact ReadEnds.unread []
  rw [acctread_waits driver uio sleeps uiomove off negative]
  have waited := wait_tail_ends driver sleeps
  generalize waitTail (lockTail driver) sleeps = result at waited
  cases waited with
  | failed hooks error => exact ReadEnds.unread hooks
  | asleep hooks => exact ReadEnds.unread hooks
  | found hooks tail last =>
    dsimp only
    split_ifs with fault
    · exact ReadEnds.faulted hooks
    · exact ReadEnds.consumed hooks

end Cprogramming.Acct.Effects
