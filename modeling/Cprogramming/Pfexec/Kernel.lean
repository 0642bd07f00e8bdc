import Cprogramming.Pfexec.EnvironmentArea

/-!
# The system call

`sys_pfexecve` of `kern_pfexec.c` with the steps it takes once the daemon has
answered: escalation, execution and the change of the root directory. The
services around it (allocation, the exchange with the daemon, `sys_execve`, name
lookup) are parameters. An error code travels through a local variable or through
`sys_pf_errno`; the model returns the one the caller gets to see.
-/

namespace Cprogramming.Pfexec.Kernel

open Library.CStrings Library.MachineWords
open Protocol FillMbuf EnvironmentArea

set_option autoImplicit false

def Errno : Type := { code : Int // code ≠ 0 }

structure Proc (Vnode Image : Type) where
  psUcred : Ucred
  pUcred : Ucred
  psSugid : Bool
  procCount : UInt32 → Int
  fdRdir : Option Vnode
  fdCdir : Vnode
  image : Image

/-- `namei` may answer differently at each attempt. -/
structure Services (Vnode Image : Type) where
  taskqCreate : Bool
  mallocReq : Bool
  tsleepNsec : Int
  exchange : PfexecReq → Except Errno PfexecResp
  sysExecve : Proc Vnode Image → SysPfexecveArgs → List CString → Except Errno Image
  namei : Nat → Proc Vnode Image → CString → Except Errno Vnode
  isDirectory : Vnode → Bool
  vopAccess : Vnode → Ucred → Option Errno

section Model

variable {Vnode Image : Type}

def validateArgs (uap : SysPfexecveArgs) : Int :=
  if uap.opts.isNone || uap.path.isNone || uap.argp.isNone || uap.envp.isNone then einval else 0

def kernelEnvironment (resp : PfexecResp) : List CString :=
  (List.range resp.pfrEnvc).map fun index => areaString resp.pfrEnvarea (resp.pfrEnvp index)

/-- The credentials `pfexec_escilate` builds; groups past the new count stay. -/
def newCredentials (creds : Ucred) (resp : PfexecResp) (bound : resp.pfrNgroups ≤ ngroupsMax) :
    Ucred where
  crUid := resp.pfrUid
  crRuid := resp.pfrUid
  crSvuid := resp.pfrUid
  crGid := resp.pfrGid
  crRgid := resp.pfrGid
  crSvgid := resp.pfrGid
  crNgroups := resp.pfrNgroups
  crGroups := fun index =>
    if index < resp.pfrNgroups then resp.pfrGroups index else creds.crGroups index
  ngroupsBound := bound

def chgproccnt (counts : UInt32 → Int) (uid : UInt32) (change : Int) : UInt32 → Int :=
  fun other => if other = uid then counts other + change else counts other

def pfexecEscilate (resp : PfexecResp) (proc : Proc Vnode Image) : Int × Proc Vnode Image :=
  if bound : resp.pfrNgroups ≤ ngroupsMax then
    let creds := newCredentials proc.psUcred resp bound
    (0, { proc with
      psUcred := creds
      pUcred := creds
      psSugid := true
      procCount :=
        chgproccnt (chgproccnt proc.procCount proc.psUcred.crUid (-1)) resp.pfrUid 1 })
  else (einval, proc)

def pfexPathCopy (path : CString) : CString := CString.ofBytes (path.bytes.take (pathMax - 1))

def enotdirErrno : Errno := ⟨enotdir, by decide⟩
def epipeErrno : Errno := ⟨epipe, by decide⟩

def changeDir (services : Services Vnode Image) (attempt : Nat) (proc : Proc Vnode Image)
    (path : CString) : Except Errno Vnode :=
  match services.namei attempt proc path with
  | .error code => .error code
  | .ok vnode =>
    if services.isDirectory vnode then
      match services.vopAccess vnode proc.pUcred with
      | some code => .error code
      | none => .ok vnode
    else .error enotdirErrno

def applyChroot (services : Services Vnode Image) (attempt : Nat) (proc : Proc Vnode Image)
    (path : CString) : Option Errno × Proc Vnode Image :=
  match changeDir services attempt proc path with
  | .error code => (some code, proc)
  | .ok vnode =>
    match proc.fdRdir with
    | some _ => (none, { proc with fdRdir := some vnode, fdCdir := vnode })
    | none => (none, { proc with fdRdir := some vnode })

def varEmptyPath : CString := CString.ofString "/var/empty"

/-- The two attempts of `pfexec_exec`; the result of the second is dropped. -/
def confine (services : Services Vnode Image) (resp : PfexecResp) (proc : Proc Vnode Image) :
    Proc Vnode Image :=
  if hasBit resp.pfrFlags pfrespChroot then
    match applyChroot services 0 proc (pfexPathCopy resp.chroot) with
    | (none, confined) => confined
    | (some _, unchanged) => (applyChroot services 1 unchanged (pfexPathCopy varEmptyPath)).2
  else proc

/-- `pfexec_exec` with the `sys_pf_errno` it leaves. The result of `sys_execve`
stays in a local variable. -/
def pfexecExec (services : Services Vnode Image) (uap : SysPfexecveArgs) (resp : PfexecResp)
    (proc : Proc Vnode Image) : Int × Proc Vnode Image :=
  if int32 resp.pfrErrno.toNat ≠ 0 then (0, proc)
  else
    let (errno, escalated) := pfexecEscilate resp proc
    let executed :=
      match services.sysExecve escalated uap (kernelEnvironment resp) with
      | .ok image => { escalated with image := image }
      | .error _ => escalated
    (errno, confine services resp executed)

/-- Without a task queue or a request buffer the call returns the `ret` it still
has from the argument check. -/
def sysPfexecve (services : Services Vnode Image) (pid : UInt32) (uap : SysPfexecveArgs)
    (proc : Proc Vnode Image) : Int × Proc Vnode Image :=
  if validateArgs uap ≠ 0 then (validateArgs uap, proc)
  else if ¬ services.taskqCreate then (0, proc)
  else if ¬ services.mallocReq then (0, proc)
  else if services.tsleepNsec ≠ 0 then (services.tsleepNsec, proc)
  else
    match services.exchange (fillMbuf pid proc.psUcred uap) with
    | .error code => (code.val, proc)
    | .ok resp =>
      if processResponse resp ≠ 0 then (processResponse resp, proc)
      else pfexecExec services uap resp proc

end Model

end Cprogramming.Pfexec.Kernel
