import Cprogramming.Acct.Records
import Cprogramming.Library.KeyedTree
import Cprogramming.Library.Runs

/-!
# The audit driver

The state of `acct.c` and its entry points: the ioctls, the hooks the kernel calls
for processes and files, `acctread` and `acctclose`. The tracking tree is an
ordered map from vnodes to entries. Locks are counted; a call that has to wait for
one goes on when it is granted. The queue is listed from its head, where records
are inserted.
-/

namespace Cprogramming.Acct.Device

open Library.CStrings Library.MachineWords Library.KeyedTree Library.Runs
open Records

set_option autoImplicit false

def enoent : Int := 2
def einval : Int := 22
def ewouldblock : Int := 35

/-! ## Locks -/

structure RwLock where
  readers : Nat
  writer : Bool
deriving DecidableEq

def rwEnterRead (lock : RwLock) : RwLock := { lock with readers := lock.readers + 1 }
def rwExitRead (lock : RwLock) : RwLock := { lock with readers := lock.readers - 1 }
def rwEnterWrite (lock : RwLock) : RwLock := { lock with writer := true }
def rwExitWrite (lock : RwLock) : RwLock := { lock with writer := false }

@[simp] theorem rw_read_section (lock : RwLock) : rwExitRead (rwEnterRead lock) = lock := by
  rfl

/-! ## State -/

/-- The address of a vnode; the null pointer is no vnode. -/
abbrev Vnode := { address : UInt64 // address ≠ 0 }

structure Trkvnode where
  trkName : CString
  trkEna : BitVec 8
  trkFlags : BitVec 8
  trkvnode : Vnode
deriving DecidableEq

def vnodeKey (vnode : Vnode) : Nat := vnode.val.toNat

def trkKey (node : Trkvnode) : Nat := vnodeKey node.trkvnode

structure Driver where
  acctList : List AcctRecord
  acSeq : Int
  acctEna : BitVec 32
  acctFcount : UInt64
  fTracker : Tree trkKey
  acTaillock : RwLock
  acTrklock : RwLock
  acSeqlock : RwLock

def acctattach : Driver := ⟨[], 0, 0, 0, Tree.empty, ⟨0, false⟩, ⟨0, false⟩, ⟨0, false⟩⟩

/-! ## The tracking tree -/

/-- `strlcpy` with a size of 49 keeps the first 48 characters. -/
def trkPathCopy (path : CString) : CString := path.take 48

def trkvnodeNew (vnode : Vnode) (path : CString) : Trkvnode := ⟨trkPathCopy path, 0, 0, vnode⟩

/-- The lookup of the kernel, `namei`, is given the shortened copy. -/
def pathToVnode (namei : CString → Option Vnode) (path : CString) : Option Vnode :=
  namei (trkPathCopy path)

def trktreeDeleteVnodes (driver : Driver) : Driver :=
  let locked := { driver with acTrklock := rwEnterWrite driver.acTrklock }
  let cleared := { locked with
    fTracker := locked.fTracker.nodes.foldl (fun left node => left.remove (trkKey node))
      locked.fTracker }
  { cleared with acTrklock := rwExitWrite cleared.acTrklock }

/-- The entry of the vnode, an older one or a new one that is counted. -/
def trktreeAddVnodeUnlocked (driver : Driver) (vnode : Vnode) (path : CString) :
    Trkvnode × Driver :=
  let trkv := trkvnodeNew vnode path
  match driver.fTracker.find (trkKey trkv) with
  | some old => (old, driver)
  | none =>
    (trkv, { driver with
      fTracker := driver.fTracker.insert trkv
      acctFcount := driver.acctFcount + 1 })

def trktreeAddVnode (driver : Driver) (vnode : Option Vnode) (path : CString) :
    Option Trkvnode × Driver :=
  match vnode with
  | none => (none, driver)
  | some vnode =>
    let locked := { driver with acTrklock := rwEnterWrite driver.acTrklock }
    let added := trktreeAddVnodeUnlocked locked vnode path
    (some added.1, { added.2 with acTrklock := rwExitWrite added.2.acTrklock })

/-- The removal takes the lock for reading. -/
def trktreeVnoderemove (driver : Driver) (vnode : Vnode) : Option Trkvnode × Driver :=
  let locked := { driver with acTrklock := rwEnterRead driver.acTrklock }
  match locked.fTracker.find (vnodeKey vnode) with
  | some found =>
    let removed := { locked with
      fTracker := locked.fTracker.remove (vnodeKey vnode)
      acctFcount := locked.acctFcount - 1 }
    (some found, { removed with acTrklock := rwExitRead removed.acTrklock })
  | none => (none, { locked with acTrklock := rwExitRead locked.acTrklock })

def trktreeVnodelookup (driver : Driver) (vnode : Vnode) : Option Trkvnode × Driver :=
  let locked := { driver with acTrklock := rwEnterRead driver.acTrklock }
  (locked.fTracker.find (vnodeKey vnode),
    { locked with acTrklock := rwExitRead locked.acTrklock })

def trktreePathremove (namei : CString → Option Vnode) (driver : Driver) (path : CString) :
    Option Trkvnode × Driver :=
  match pathToVnode namei path with
  | none => (none, driver)
  | some vnode => trktreeVnoderemove driver vnode

def trktreePathlookup (namei : CString → Option Vnode) (driver : Driver) (path : CString) :
    Option Trkvnode × Driver :=
  match pathToVnode namei path with
  | none => (none, driver)
  | some vnode => trktreeVnodelookup driver vnode

def trktreeAddPath (namei : CString → Option Vnode) (driver : Driver) (path : CString) :
    Option Trkvnode × Driver :=
  trktreeAddVnode driver (pathToVnode namei path) path

/-- 0 lets the event be recorded, 1 means an untracked file. -/
def trktreeParsepermissions (driver : Driver) (node : Option Trkvnode) (ena flags : BitVec 8) :
    Int :=
  match node with
  | none => 1
  | some node =>
    let flags := if flags = 0 then node.trkFlags else flags
    if driver.acctEna &&& ena.setWidth 32 ≠ 0 ∧ node.trkEna &&& ena ≠ 0 ∧
        (flags = 0 ∨ node.trkFlags &&& flags ≠ 0) then 0
    else 2

/-! ## Ioctls -/

structure AcctCtl where
  acctEna : BitVec 32
  acctCond : BitVec 32
  acctFcount : UInt64
  acctPath : CString

inductive AcctIoc where
  | fionread
  | fionbio
  | status
  | fstatus
  | enable
  | disable
  | trackFile
  | untrackFile
  | other
deriving DecidableEq

/-- The stores of `ACCT_IOC_TRACK_FILE` into an entry, whose fields keep eight
bits. -/
def trackMasks (ctl : AcctCtl) (node : Trkvnode) : Trkvnode :=
  { node with
    trkEna := (node.trkEna.setWidth 32 ||| (ctl.acctEna &&& fEna)).setWidth 8
    trkFlags := (node.trkFlags.setWidth 32 ||| ctl.acctCond).setWidth 8 }

theorem track_masks_key (ctl : AcctCtl) (node : Trkvnode) :
    trkKey (trackMasks ctl node) = trkKey node := by
  rfl

/-- C's `!mask`. -/
def logicalNot (mask : BitVec 32) : BitVec 32 := if mask = 0 then 1 else 0

/-- What an ioctl leaves in the driver and in the caller's structure, and its
result. -/
structure IoctlResult where
  driver : Driver
  ctl : AcctCtl
  error : Int

def acctioctl (namei : CString → Option Vnode) (driver : Driver) (cmd : AcctIoc)
    (ctl : AcctCtl) : IoctlResult :=
  match cmd with
  | .fionread => ⟨driver, ctl, 0⟩
  | .fionbio => ⟨driver, ctl, 0⟩
  | .status =>
    ⟨driver, { ctl with acctEna := driver.acctEna, acctFcount := driver.acctFcount }, 0⟩
  | .fstatus =>
    let looked := trktreePathlookup namei driver ctl.acctPath
    let filled := match looked.1 with
      | some node => { ctl with
          acctEna := node.trkEna.setWidth 32, acctCond := node.trkFlags.setWidth 32 }
      | none => ctl
    ⟨looked.2, { filled with acctFcount := looked.2.acctFcount }, 0⟩
  | .enable =>
    let enabled := { driver with acctEna := driver.acctEna ||| ctl.acctEna }
    ⟨enabled, { ctl with acctEna := enabled.acctEna }, 0⟩
  | .disable =>
    let untracked := if andAcctEnaAll ctl.acctEna ≠ 0 then trktreeDeleteVnodes driver else driver
    let disabled := { untracked with
      acctEna := untracked.acctEna &&& logicalNot ctl.acctEna }
    ⟨disabled,
      { ctl with acctEna := disabled.acctEna, acctFcount := disabled.acctFcount }, 0⟩
  | .trackFile =>
    let added := trktreeAddPath namei driver ctl.acctPath
    match added.1 with
    | some node =>
      let tracked := { added.2 with
        fTracker := added.2.fTracker.update (trkKey node) (trackMasks ctl) (track_masks_key ctl) }
      ⟨tracked, { ctl with
        acctEna := (trackMasks ctl node).trkEna.setWidth 32
        acctCond := (trackMasks ctl node).trkFlags.setWidth 32
        acctFcount := tracked.acctFcount }, 0⟩
    | none =>
      ⟨added.2,
        { ctl with acctEna := 0, acctCond := 0, acctFcount := added.2.acctFcount }, enoent⟩
  | .untrackFile =>
    let removed := trktreePathremove namei driver ctl.acctPath
    ⟨removed.2, { ctl with
      acctEna := driver.acctEna, acctCond := 0, acctFcount := removed.2.acctFcount }, 0⟩
  | .other => ⟨driver, ctl, 0⟩

/-! ## Recording an event -/

def acSeqReset (driver : Driver) : Driver :=
  let locked := { driver with acSeqlock := rwEnterRead driver.acSeqlock }
  let reset := { locked with acSeq := 0 }
  { reset with acSeqlock := rwExitRead reset.acSeqlock }

def updateSeq (driver : Driver) : Int × Driver :=
  let locked := { driver with acSeqlock := rwEnterRead driver.acSeqlock }
  let counted := { locked with acSeq := int32 (locked.acSeq + 1) }
  (locked.acSeq, { counted with acSeqlock := rwExitRead counted.acSeqlock })

/-- `add_node`; waking a sleeping reader changes nothing here. -/
def addNode (driver : Driver) (node : AcctRecord) : Driver :=
  let locked := { driver with acTaillock := rwEnterRead driver.acTaillock }
  let counted := updateSeq locked
  let queued := { counted.2 with
    acctList := node.withSeq (uint32OfInt counted.1) :: counted.2.acctList }
  { queued with acTaillock := rwExitRead queued.acTaillock }

/-- The end of every hook: the record is queued, or only counted when `malloc`
returned null. -/
def recordNode (driver : Driver) (malloc : Bool) (node : AcctRecord) : Driver :=
  if malloc then addNode driver node else (updateSeq driver).2

/-! ## Hooks -/

/-- What a hook gets from the kernel: the clocks and whether `malloc` succeeds. -/
structure HookContext where
  clock : Clock
  malloc : Bool

def acctFork (context : HookContext) (driver : Driver) (parent child : Process) : Driver :=
  if driver.acctEna &&& acctEnaFork = 0 then driver
  else recordNode driver context.malloc (forkRecord context.clock parent child)

def acctExec (context : HookContext) (driver : Driver) (pr : Process) : Driver :=
  if driver.acctEna &&& acctEnaExec = 0 then driver
  else recordNode driver context.malloc (execRecord context.clock pr)

def acctExit (context : HookContext) (driver : Driver) (pr : Process) (usage : Usage) : Driver :=
  if driver.acctEna &&& acctEnaExit = 0 then driver
  else recordNode driver context.malloc (exitRecord context.clock pr usage)

/-- A file that is not tracked fails the permission test. -/
def acctOpen (context : HookContext) (driver : Driver) (pr : Process) (vn : Vnode)
    (i0 i1 : Int) : Driver :=
  let looked := trktreeVnodelookup driver vn
  match looked.1 with
  | none => looked.2
  | some node =>
    if trktreeParsepermissions looked.2 (some node) (acctEnaOpen.setWidth 8)
        (BitVec.ofInt 8 i0) ≠ 0 then looked.2
    else recordNode looked.2 context.malloc (openRecord context.clock pr node.trkName i0 i1)

/-- The two exits of `acct_rename` and `acct_unlink`: a filtered event removes the
entry, a recorded one as well. -/
def recordAndUntrack (context : HookContext) (driver : Driver) (vn : Vnode) (ena : BitVec 32)
    (record : CString → AcctRecord) : Driver :=
  let looked := trktreeVnodelookup driver vn
  match looked.1 with
  | none => looked.2
  | some node =>
    if trktreeParsepermissions looked.2 (some node) (ena.setWidth 8) 0 ≠ 0 then
      (trktreeVnoderemove looked.2 node.trkvnode).2
    else if context.malloc then
      (trktreeVnoderemove (addNode looked.2 (record node.trkName)) node.trkvnode).2
    else (updateSeq looked.2).2

def acctRename (context : HookContext) (driver : Driver) (pr : Process) (vn : Vnode)
    (name : CString) (e0 : Int) : Driver :=
  recordAndUntrack context driver vn acctEnaRename fun trkName =>
    renameRecord context.clock pr trkName name e0

def acctUnlink (context : HookContext) (driver : Driver) (pr : Process) (vn : Vnode)
    (e0 : Int) : Driver :=
  recordAndUntrack context driver vn acctEnaUnlink fun trkName =>
    unlinkRecord context.clock pr trkName e0

def acctClose (context : HookContext) (driver : Driver) (pr : Process) (vn : Vnode) : Driver :=
  let looked := trktreeVnodelookup driver vn
  match looked.1 with
  | none => looked.2
  | some node =>
    if trktreeParsepermissions looked.2 (some node) (acctEnaClose.setWidth 8) 0 ≠ 0 then looked.2
    else recordNode looked.2 context.malloc (closeRecord context.clock pr node.trkName)

inductive Hook where
  | fork (parent child : Process)
  | exec (pr : Process)
  | exit (pr : Process) (usage : Usage)
  | open (pr : Process) (vn : Vnode) (i0 i1 : Int)
  | rename (pr : Process) (vn : Vnode) (name : CString) (e0 : Int)
  | unlink (pr : Process) (vn : Vnode) (e0 : Int)
  | close (pr : Process) (vn : Vnode)

def callHook (context : HookContext) (driver : Driver) : Hook → Driver
  | .fork parent child => acctFork context driver parent child
  | .exec pr => acctExec context driver pr
  | .exit pr usage => acctExit context driver pr usage
  | .open pr vn i0 i1 => acctOpen context driver pr vn i0 i1
  | .rename pr vn name e0 => acctRename context driver pr vn name e0
  | .unlink pr vn e0 => acctUnlink context driver pr vn e0
  | .close pr vn => acctClose context driver pr vn

/-! ## Reading and closing the device -/

structure Uio where
  uioOffset : Int
  uioResid : Nat

/-- One `tsleep_nsec` of a reader: its result and the hooks that ran meanwhile. -/
structure Sleep where
  error : Int
  hooks : List (HookContext × Hook)

def runHooks (driver : Driver) (hooks : List (HookContext × Hook)) : Driver :=
  run (fun current call => callHook call.1 current call.2) driver hooks

inductive Wait where
  | found (driver : Driver) (tail : AcctRecord)
  | failed (driver : Driver) (error : Int)
  | asleep (driver : Driver)

/-- The loop of `acctread` that waits for a record. The lock is held at its start
and when a record is found. -/
def waitTail (driver : Driver) (sleeps : List Sleep) : Wait :=
  match driver.acctList.getLast? with
  | some tail => .found driver tail
  | none =>
    let released := { driver with acTaillock := rwExitRead driver.acTaillock }
    match sleeps with
    | [] => .asleep released
    | sleep :: rest =>
      let woken := runHooks released sleep.hooks
      if sleep.error ≠ ewouldblock ∧ sleep.error ≠ 0 then .failed woken sleep.error
      else waitTail { woken with acTaillock := rwEnterRead woken.acTaillock } rest

/-- A copy out of a record: the offset from its start and the number of bytes. -/
structure Piece where
  offset : Nat
  length : Nat
deriving DecidableEq

/-- The loop of `acctread` that copies a record out. `uiomove` gives the result of
the copy made after `sent` bytes. The source address is computed on a pointer to
`struct acct_common`. -/
def copyOut (uiomove : Nat → Int) (acLen resid sent : Nat) : List Piece × Int :=
  if resid = 0 then ([], 0)
  else if acLen ≤ sent then ([], 0)
  else
    let len := min (acLen - sent) resid
    if uiomove sent ≠ 0 then ([], uiomove sent)
    else
      let rest := copyOut uiomove acLen (resid - len) (sent + len)
      (⟨sent * sizeofAcctCommon, len⟩ :: rest.1, rest.2)
  termination_by resid
  decreasing_by omega

/-- What a read leaves, its result, and the record with the pieces copied out. -/
inductive ReadResult where
  | returned (driver : Driver) (error : Int) (delivered : Option (AcctRecord × List Piece))
  | asleep (driver : Driver)

def acctread (driver : Driver) (uio : Uio) (sleeps : List Sleep) (uiomove : Nat → Int) :
    ReadResult :=
  if driver.acctEna = 0 ∧ driver.acctFcount = 0 then .returned driver einval none
  else if uio.uioOffset < 0 then .returned driver einval none
  else
    match waitTail { driver with acTaillock := rwEnterRead driver.acTaillock } sleeps with
    | .asleep waiting => .asleep waiting
    | .failed woken error => .returned woken error none
    | .found holding tail =>
      let copied := copyOut uiomove tail.acCommon.acLen uio.uioResid 0
      if copied.2 ≠ 0 then .returned holding copied.2 none
      else
        let removed := { holding with acctList := holding.acctList.dropLast }
        .returned { removed with acTaillock := rwExitRead removed.acTaillock } 0
          (some (tail, copied.1))

def acctclose (driver : Driver) : Driver :=
  let locked := { driver with acTaillock := rwEnterRead driver.acTaillock }
  let emptied := { locked with acctList := [] }
  acSeqReset { emptied with acTaillock := rwExitRead emptied.acTaillock }

/-! ## Calls -/

inductive Call where
  | ioctl (namei : CString → Option Vnode) (cmd : AcctIoc) (ctl : AcctCtl)
  | hook (context : HookContext) (hook : Hook)
  | read (uio : Uio) (sleeps : List Sleep) (uiomove : Nat → Int)
  | close

def ReadResult.driver : ReadResult → Driver
  | .returned driver _ _ => driver
  | .asleep driver => driver

/-- The driver after a call, or while a reader sleeps in it. -/
def step (driver : Driver) : Call → Driver
  | .ioctl namei cmd ctl => (acctioctl namei driver cmd ctl).driver
  | .hook context hook => callHook context driver hook
  | .read uio sleeps uiomove => (acctread driver uio sleeps uiomove).driver
  | .close => acctclose driver

end Cprogramming.Acct.Device
