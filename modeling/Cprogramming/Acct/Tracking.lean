import Cprogramming.Acct.Effects

/-!
# Which files are tracked

The driver counts its entries in `acct_fcount`. Insertion and removal keep the
count; `ACCT_IOC_DISABLE` empties the tree, whatever its mask is, and leaves the
count. The hooks for renaming and unlinking remove the entry of a file whether or
not the operation succeeded.
-/

namespace Cprogramming.Acct.Tracking

open Library.CStrings Library.KeyedTree Library.Runs
open Records Device Effects

set_option autoImplicit false

/-! ## The count of files -/

def FileCounted (driver : Driver) : Prop :=
  driver.acctFcount.toNat = driver.fTracker.nodes.length

/-- There are fewer entries than addresses, so the 64-bit count never wraps. -/
theorem tracked_files_bound (tree : Tree trkKey) : 1 + tree.nodes.length ≤ 2 ^ 64 := by
  apply length_le_of_keys tree 1 (2 ^ 64) (by decide)
  intro node
  have nonzero : node.trkvnode.val.toNat ≠ 0 := by
    intro zero
    exact node.trkvnode.property (UInt64.toNat_inj.mp zero)
  have bound := node.trkvnode.val.toNat_lt
  simp only [trkKey, vnodeKey]
  omega

theorem vnoderemove_counted {driver : Driver} (vnode : Vnode) (counted : FileCounted driver) :
    FileCounted (trktreeVnoderemove driver vnode).2 := by
  cases found : driver.fTracker.find (vnodeKey vnode) with
  | none =>
    rw [vnoderemove_missing driver vnode found]
    exact counted
  | some node =>
    rw [vnoderemove_found driver vnode node found]
    have shorter := length_remove driver.fTracker (vnodeKey vnode) node found
    unfold FileCounted at counted ⊢
    rw [UInt64.toNat_sub_of_le _ _ (by
      rw [UInt64.le_iff_toNat_le, counted]
      exact Nat.le_of_lt_succ (by rw [← shorter]; simp))]
    simp only [UInt64.toNat_one]
    omega

theorem hook_counted (malloc : Bool) (before after : Driver) (counted : FileCounted before)
    (ends : HookEnds malloc before after) : FileCounted after := by
  cases ends with
  | ignored => exact counted
  | recorded node => exact counted
  | dropped failed => exact counted
  | untracked vnode => exact vnoderemove_counted vnode counted
  | recordedUntracked node vnode => exact vnoderemove_counted vnode counted

theorem read_counted {before after : Driver} (counted : FileCounted before)
    (ends : ReadEnds before after) : FileCounted after := by
  have slept : ∀ hooks, FileCounted (runHooks before hooks) :=
    run_hooks_invariant FileCounted hook_counted before counted
  cases ends with
  | unread hooks => exact slept hooks
  | faulted hooks => exact slept hooks
  | consumed hooks => exact slept hooks

theorem ioctl_counted {before after : Driver} (counted : FileCounted before)
    (ends : IoctlEnds before after) : FileCounted after := by
  cases ends with
  | masked enabled => exact counted
  | untracked vnode => exact vnoderemove_counted vnode counted
  | tracked vnode ctl =>
    unfold FileCounted at counted ⊢
    rw [length_update]
    cases entry : before.fTracker.find (vnodeKey vnode) with
    | some node =>
      rw [insert_present before.fTracker (trkvnodeNew vnode ctl.acctPath) node entry,
        if_neg (Option.some_ne_none node)]
      exact counted
    | none =>
      have longer := length_insert before.fTracker (trkvnodeNew vnode ctl.acctPath) entry
      have room := tracked_files_bound (before.fTracker.insert (trkvnodeNew vnode ctl.acctPath))
      rw [if_pos rfl, UInt64.toNat_add, counted, UInt64.toNat_one, longer]
      apply Nat.mod_eq_of_lt
      omega

/-- `ACCT_IOC_DISABLE` comes when no file is tracked. -/
def FindsNoFile (driver : Driver) : Call → Prop
  | .ioctl _ .disable _ => driver.fTracker.nodes = []
  | _ => True

theorem step_counted_iff (driver : Driver) (call : Call) (counted : FileCounted driver) :
    FileCounted (step driver call) ↔ FindsNoFile driver call := by
  have kept : FileCounted (step driver call) → (FileCounted (step driver call) ↔ True) :=
    fun held => iff_true_intro held
  cases call with
  | hook context hook =>
    exact kept (hook_counted context.malloc driver _ counted (call_hook_ends context driver hook))
  | read uio sleeps uiomove =>
    exact kept (read_counted counted (acctread_ends driver uio sleeps uiomove))
  | close => exact kept counted
  | ioctl namei cmd ctl =>
    by_cases disables : cmd = .disable
    · subst disables
      simp only [step, FindsNoFile, disable_eq, FileCounted, Tree.empty, List.length_nil]
      rw [counted]
      exact List.length_eq_zero_iff
    · have unmet : FindsNoFile driver (.ioctl namei cmd ctl) = True := by
        cases cmd with
        | disable => exact absurd rfl disables
        | _ => rfl
      rw [unmet]
      exact kept (ioctl_counted counted (ioctl_ends namei driver cmd ctl disables))

/-- The count is right in every state of a run exactly when no
`ACCT_IOC_DISABLE` of the run finds a tracked file. -/
theorem file_count_iff (calls : List Call) :
    Throughout step FileCounted acctattach calls ↔
      EachStep step FindsNoFile acctattach calls := by
  exact throughout_iff step FileCounted FindsNoFile step_counted_iff acctattach rfl calls

def motd : Vnode := ⟨4096, by decide⟩

def motdOnly (path : CString) : Option Vnode :=
  if path = CString.ofString "/etc/motd" then some motd else none

def motdRequest (ena cond : BitVec 32) : AcctCtl := ⟨ena, cond, 0, CString.ofString "/etc/motd"⟩

def trackMotd : Call := .ioctl motdOnly .trackFile (motdRequest acctEnaOpen 0)

/-- Disabling the file events untracks the only file and still counts it. -/
theorem disabling_loses_count :
    (run step acctattach [trackMotd, .ioctl motdOnly .disable (motdRequest fEna 0)]).acctFcount =
        1 ∧ (run step acctattach
        [trackMotd, .ioctl motdOnly .disable (motdRequest fEna 0)]).fTracker.nodes = [] := by
  decide

/-! ## Disabling events -/

/-- A request that leaves one of the file events on does not touch the tree. -/
def DisableKeepsTracking (namei : CString → Option Vnode) (driver : Driver) (ctl : AcctCtl) :
    Prop :=
  ctl.acctEna &&& fEna ≠ fEna → (acctioctl namei driver .disable ctl).driver.fTracker =
    driver.fTracker

theorem disable_keeps_tracking_iff (namei : CString → Option Vnode) (driver : Driver)
    (ctl : AcctCtl) :
    DisableKeepsTracking namei driver ctl ↔
      (ctl.acctEna &&& fEna = fEna ∨ driver.fTracker.nodes = []) := by
  have untouched : (acctioctl namei driver .disable ctl).driver.fTracker = driver.fTracker ↔
      driver.fTracker.nodes = [] := by
    rw [disable_eq]
    constructor
    · intro same
      exact (congrArg Tree.nodes same).symm
    · intro none
      exact tree_ext _ _ none.symm
  rw [DisableKeepsTracking, untouched, ne_eq, ← or_iff_not_imp_left]

theorem disabling_fork_untracks :
    (run step acctattach [trackMotd]).fTracker.nodes.length = 1 ∧
      acctEnaFork &&& fEna ≠ fEna ∧
      (acctioctl motdOnly (run step acctattach [trackMotd]) .disable
        (motdRequest acctEnaFork 0)).driver.fTracker.nodes = [] := by
  decide

/-! ## Failed operations -/

def Passes (driver : Driver) (vn : Vnode) (ena : BitVec 32) : Prop :=
  trktreeParsepermissions driver (driver.fTracker.find (vnodeKey vn)) (ena.setWidth 8) 0 = 0

def TrackingKept (before after : Driver) : Prop :=
  after.fTracker = before.fTracker ∧ after.acctFcount = before.acctFcount

def FailureKeepsTracking (context : HookContext) (driver : Driver) (pr : Process) (vn : Vnode)
    (name : CString) (e0 : Int) : Prop :=
  e0 ≠ 0 → TrackingKept driver (acctUnlink context driver pr vn e0) ∧
    TrackingKept driver (acctRename context driver pr vn name e0)

theorem vnoderemove_keeps_iff (driver : Driver) (vnode : Vnode) :
    TrackingKept driver (trktreeVnoderemove driver vnode).2 ↔
      driver.fTracker.find (vnodeKey vnode) = none := by
  constructor
  · rintro ⟨same, _⟩
    cases found : driver.fTracker.find (vnodeKey vnode) with
    | none => rfl
    | some node =>
      rw [vnoderemove_found driver vnode node found] at same
      rw [← found]
      exact (remove_eq_self_iff driver.fTracker (vnodeKey vnode)).mp same
  · intro missing
    rw [vnoderemove_missing driver vnode missing]
    exact ⟨rfl, rfl⟩

theorem record_and_untrack_keeps_iff (context : HookContext) (driver : Driver) (vn : Vnode)
    (ena : BitVec 32) (record : CString → AcctRecord) :
    TrackingKept driver (recordAndUntrack context driver vn ena record) ↔
      (driver.fTracker.find (vnodeKey vn) = none ∨
        context.malloc = false ∧ Passes driver vn ena) := by
  unfold Passes
  cases found : driver.fTracker.find (vnodeKey vn) with
  | none =>
    simp only [recordAndUntrack, vnodelookup_eq, found, true_or, iff_true]
    exact ⟨rfl, rfl⟩
  | some node =>
    obtain ⟨_, key⟩ := find_some driver.fTracker (vnodeKey vn) node found
    have present : ∀ current : Driver, current.fTracker = driver.fTracker →
        ¬ current.fTracker.find (vnodeKey node.trkvnode) = none := by
      intro current same
      rw [same, show vnodeKey node.trkvnode = vnodeKey vn from key, found]
      exact Option.some_ne_none node
    simp only [recordAndUntrack, vnodelookup_eq, found, reduceCtorEq, false_or]
    by_cases passes : trktreeParsepermissions driver (some node) (ena.setWidth 8) 0 = 0
    · simp only [passes, ne_eq, not_true_eq_false, if_false, and_true]
      cases context.malloc with
      | true =>
        simp only [if_true, Bool.true_eq_false, iff_false]
        exact fun kept => present (addNode driver (record node.trkName)) rfl
          ((vnoderemove_keeps_iff (addNode driver (record node.trkName)) node.trkvnode).mp kept)
      | false =>
        simp only [Bool.false_eq_true, if_false, iff_true]
        exact ⟨rfl, rfl⟩
    · simp only [passes, ne_eq, not_false_eq_true, if_true, and_false, iff_false]
      exact fun kept => present driver rfl ((vnoderemove_keeps_iff driver node.trkvnode).mp kept)

/-- A failure keeps the file tracked only if it was not tracked before, or if
there was no memory for either record. -/
theorem failure_keeps_tracking_iff (context : HookContext) (driver : Driver) (pr : Process)
    (vn : Vnode) (name : CString) (e0 : Int) :
    FailureKeepsTracking context driver pr vn name e0 ↔
      (e0 = 0 ∨ driver.fTracker.find (vnodeKey vn) = none ∨
        context.malloc = false ∧ Passes driver vn acctEnaUnlink ∧
          Passes driver vn acctEnaRename) := by
  unfold FailureKeepsTracking acctUnlink acctRename
  rw [record_and_untrack_keeps_iff, record_and_untrack_keeps_iff, ne_eq, ← or_iff_not_imp_left]
  tauto

def shell : Process := ⟨[115, 104], ⟨0, 0⟩, 1, 0, 0, false, none, 0⟩

def calm : HookContext := ⟨⟨⟨0, 0⟩, ⟨0, 0⟩, 100, 10000⟩, true⟩

/-- Both operations fail, with `EACCES` and `EINVAL`, and untrack the file. -/
theorem failed_operations_untrack :
    (run step acctattach [trackMotd]).fTracker.nodes.length = 1 ∧
      (acctUnlink calm (run step acctattach [trackMotd]) shell motd 13).fTracker.nodes = [] ∧
      (acctRename calm (run step acctattach [trackMotd]) shell motd (CString.ofString "/tmp/x")
        22).fTracker.nodes = [] := by
  decide

end Cprogramming.Acct.Tracking
