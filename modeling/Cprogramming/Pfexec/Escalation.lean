import Cprogramming.Pfexec.Decision
import Cprogramming.Pfexec.Kernel

/-!
# What a system call leaves behind

A process is changed only for a request that the last matching rule grants. Once
a response is accepted, though, the call returns zero whatever happens next: a
failed execution leaves the new credentials in place, and a new image runs
outside its root directory when neither attempt to enter one succeeds.
-/

namespace Cprogramming.Pfexec.Escalation

open Library.CStrings Library.MachineWords Library.LastMatch
open Protocol FillMbuf EnvironmentArea Rules Daemon Decision Kernel

set_option autoImplicit false

variable {Vnode Image : Type}

/-- The call got as far as a response that `process_response` accepts. -/
structure Accepted (services : Services Vnode Image) (pid : UInt32) (uap : SysPfexecveArgs)
    (proc : Proc Vnode Image) (resp : PfexecResp) : Prop where
  args : validateArgs uap = 0
  taskq : services.taskqCreate = true
  buffer : services.mallocReq = true
  woken : services.tsleepNsec = 0
  answered : services.exchange (fillMbuf pid proc.psUcred uap) = .ok resp
  valid : processResponse resp = 0

theorem process_response_zero (resp : PfexecResp) (valid : processResponse resp = 0) :
    resp.pfrNgroups ≤ ngroupsMax ∧ int32 resp.pfrErrno.toNat = 0 := by
  unfold processResponse at valid
  by_cases many : ngroupsMax ≤ resp.pfrNgroups
  · rw [if_pos many] at valid
    exact absurd valid (by decide)
  · rw [if_neg many] at valid
    refine ⟨Nat.le_of_not_le many, ?_⟩
    by_cases large : refMax ≤ resp.pfrEnvc
    · rw [if_pos large] at valid
      exact absurd valid (by decide)
    · rw [if_neg large] at valid
      by_cases bad : anyBadRef resp.pfrEnvp resp.pfrEnvc = true
      · rw [if_pos bad] at valid
        exact absurd valid (by decide)
      · rwa [if_neg bad] at valid

theorem escilate_bounded {resp : PfexecResp} (proc : Proc Vnode Image)
    (bound : resp.pfrNgroups ≤ ngroupsMax) : (pfexecEscilate resp proc).1 = 0 ∧
      (pfexecEscilate resp proc).2.psUcred = newCredentials proc.psUcred resp bound ∧
      (pfexecEscilate resp proc).2.fdRdir = proc.fdRdir := by
  unfold pfexecEscilate
  rw [dif_pos bound]
  exact ⟨rfl, rfl, rfl⟩

section Accepted

variable (services : Services Vnode Image) (pid : UInt32) (uap : SysPfexecveArgs)
  (proc : Proc Vnode Image) (resp : PfexecResp)

def continued (image : Image) : Proc Vnode Image :=
  { (pfexecEscilate resp proc).2 with image := image }

def executed : Proc Vnode Image :=
  match services.sysExecve (pfexecEscilate resp proc).2 uap (kernelEnvironment resp) with
  | .ok image => continued proc resp image
  | .error _ => (pfexecEscilate resp proc).2

theorem accepted_result (accepted : Accepted services pid uap proc resp) :
    sysPfexecve services pid uap proc =
      (0, confine services resp (executed services uap proc resp)) := by
  obtain ⟨bound, errno⟩ := process_response_zero resp accepted.valid
  have escalation := (escilate_bounded proc bound).1
  have exec : pfexecExec services uap resp proc =
      ((pfexecEscilate resp proc).1, confine services resp (executed services uap proc resp)) := by
    unfold pfexecExec
    rw [if_neg (not_not.mpr errno)]
    rfl
  unfold sysPfexecve
  rw [if_neg (not_not.mpr accepted.args), if_neg (not_not.mpr accepted.taskq),
    if_neg (not_not.mpr accepted.buffer), if_neg (not_not.mpr accepted.woken)]
  simp only [accepted.answered]
  rw [if_neg (not_not.mpr accepted.valid), exec, escalation]

theorem apply_chroot_keeps_creds (attempt : Nat) (path : CString) :
    (applyChroot services attempt proc path).2.psUcred = proc.psUcred := by
  unfold applyChroot
  cases changeDir services attempt proc path with
  | error code => rfl
  | ok vnode =>
    cases proc.fdRdir with
    | none => rfl
    | some root => rfl

theorem confine_keeps_creds : (confine services resp proc).psUcred = proc.psUcred := by
  unfold confine
  split_ifs
  · cases first : applyChroot services 0 proc (pfexPathCopy resp.chroot) with
    | mk outcome confined =>
      have creds : confined.psUcred = proc.psUcred := by
        have kept := apply_chroot_keeps_creds services proc 0 (pfexPathCopy resp.chroot)
        rwa [first] at kept
      cases outcome with
      | none => exact creds
      | some code => exact (apply_chroot_keeps_creds services confined 1 _).trans creds
  · rfl

/-- What the caller expects of a call whose execution failed. -/
def FailureAtomic (before : Proc Vnode Image) (result : Int × Proc Vnode Image) : Prop :=
  result.2.psUcred = before.psUcred ∧ result.2.fdRdir = before.fdRdir ∧ result.1 ≠ 0

/-- After a failed execution the call returns zero and the process has the
credentials of the response. -/
theorem failed_exec_escalates (accepted : Accepted services pid uap proc resp) (code : Errno)
    (failed : services.sysExecve (pfexecEscilate resp proc).2 uap (kernelEnvironment resp) =
      .error code) :
    ¬ FailureAtomic proc (sysPfexecve services pid uap proc) ∧
      (sysPfexecve services pid uap proc).1 = 0 ∧
      ∃ bound, (sysPfexecve services pid uap proc).2.psUcred =
        newCredentials proc.psUcred resp bound := by
  obtain ⟨bound, _⟩ := process_response_zero resp accepted.valid
  rw [accepted_result services pid uap proc resp accepted]
  refine ⟨fun atomic => atomic.2.2 rfl, rfl, bound, ?_⟩
  have unexecuted : executed services uap proc resp = (pfexecEscilate resp proc).2 := by
    simp only [executed, failed]
  dsimp only
  rw [confine_keeps_creds, unexecuted]
  exact (escilate_bounded proc bound).2.1

/-! ## The root directory -/

/-- A call that returns zero leaves the process in the directory of the response
or, failing that, in `/var/empty`. `running` is the process that looks them up. -/
def Confined (running : Proc Vnode Image) (result : Int × Proc Vnode Image) : Prop :=
  result.1 = 0 → ∃ vnode, result.2.fdRdir = some vnode ∧
    (changeDir services 0 running (pfexPathCopy resp.chroot) = .ok vnode ∨
      (∀ other, changeDir services 0 running (pfexPathCopy resp.chroot) ≠ .ok other) ∧
        changeDir services 1 running (pfexPathCopy varEmptyPath) = .ok vnode)

theorem apply_chroot_entered (attempt : Nat) (path : CString) (vnode : Vnode)
    (found : changeDir services attempt proc path = .ok vnode) :
    (applyChroot services attempt proc path).1 = none ∧
      (applyChroot services attempt proc path).2.fdRdir = some vnode := by
  unfold applyChroot
  rw [found]
  cases proc.fdRdir with
  | none => exact ⟨rfl, rfl⟩
  | some root => exact ⟨rfl, rfl⟩

theorem apply_chroot_refused (attempt : Nat) (path : CString) (code : Errno)
    (missing : changeDir services attempt proc path = .error code) :
    applyChroot services attempt proc path = (some code, proc) := by
  unfold applyChroot
  rw [missing]

theorem confine_first (flagged : hasBit resp.pfrFlags pfrespChroot = true) (vnode : Vnode)
    (found : changeDir services 0 proc (pfexPathCopy resp.chroot) = .ok vnode) :
    (confine services resp proc).fdRdir = some vnode := by
  have entered := apply_chroot_entered services proc 0 _ vnode found
  unfold confine
  rw [if_pos flagged]
  cases first : applyChroot services 0 proc (pfexPathCopy resp.chroot) with
  | mk outcome confined =>
    rw [first] at entered
    obtain ⟨rfl, root⟩ := entered
    exact root

theorem confine_second (flagged : hasBit resp.pfrFlags pfrespChroot = true) (code : Errno)
    (missing : changeDir services 0 proc (pfexPathCopy resp.chroot) = .error code) :
    confine services resp proc = (applyChroot services 1 proc (pfexPathCopy varEmptyPath)).2 := by
  unfold confine
  rw [if_pos flagged, apply_chroot_refused services proc 0 _ code missing]

/-- The new image is confined exactly when one of the two directories can be
entered; otherwise it keeps its old root directory with the new credentials and
the call returns zero. -/
theorem chroot_confined_iff (accepted : Accepted services pid uap proc resp)
    (flagged : hasBit resp.pfrFlags pfrespChroot = true) (image : Image)
    (replaced : services.sysExecve (pfexecEscilate resp proc).2 uap (kernelEnvironment resp) =
      .ok image) :
    (Confined services resp (continued proc resp image) (sysPfexecve services pid uap proc) ↔
        (∃ vnode, changeDir services 0 (continued proc resp image) (pfexPathCopy resp.chroot) =
          .ok vnode) ∨
        ∃ vnode, changeDir services 1 (continued proc resp image) (pfexPathCopy varEmptyPath) =
          .ok vnode) ∧
      ((∃ code, changeDir services 0 (continued proc resp image) (pfexPathCopy resp.chroot) =
          .error code) →
        (∃ code, changeDir services 1 (continued proc resp image) (pfexPathCopy varEmptyPath) =
          .error code) → sysPfexecve services pid uap proc = (0, continued proc resp image) ∧
          (continued proc resp image).psUcred.crUid = resp.pfrUid ∧
          (continued proc resp image).fdRdir = proc.fdRdir) := by
  obtain ⟨bound, _⟩ := process_response_zero resp accepted.valid
  have running : executed services uap proc resp = continued proc resp image := by
    simp only [executed, replaced]
  rw [accepted_result services pid uap proc resp accepted, running]
  cases first : changeDir services 0 (continued proc resp image) (pfexPathCopy resp.chroot) with
  | ok vnode =>
    refine ⟨?_, fun none => by simp at none⟩
    have root := confine_first services (continued proc resp image) resp flagged vnode first
    refine iff_of_true ?_ (Or.inl ⟨vnode, rfl⟩)
    intro _
    exact ⟨vnode, root, Or.inl first⟩
  | error code =>
    have second := confine_second services (continued proc resp image) resp flagged code first
    rw [second]
    cases fallback : changeDir services 1 (continued proc resp image)
        (pfexPathCopy varEmptyPath) with
    | ok vnode =>
      refine ⟨?_, fun _ none => by simp at none⟩
      have root := (apply_chroot_entered services (continued proc resp image) 1 _ vnode fallback).2
      refine iff_of_true ?_ (Or.inr ⟨vnode, rfl⟩)
      intro _
      exact ⟨vnode, root, Or.inr ⟨by simp [first], fallback⟩⟩
    | error other =>
      rw [apply_chroot_refused services (continued proc resp image) 1 _ other fallback]
      refine ⟨?_, ?_⟩
      · refine iff_of_false ?_ (by simp)
        intro confined
        obtain ⟨vnode, _, entered⟩ := confined rfl
        simp [first, fallback] at entered
      · intro _ _
        have escalation := escilate_bounded proc bound
        exact ⟨rfl, congrArg Ucred.crUid escalation.2.1, escalation.2.2⟩

end Accepted

/-! ## Both ends together -/

/-- The exchange with a running daemon; a daemon that dies or drops the client
closes the connection. -/
def daemonExchange (accounts : Accounts) (rules : List Rule) (req : PfexecReq) :
    Except Errno PfexecResp :=
  match onClientReadable accounts rules (.request req) true with
  | .answered resp _ _ => .ok resp
  | _ => .error epipeErrno

section System

variable (services : Services Vnode Image) (pid : UInt32) (uap : SysPfexecveArgs)
  (proc : Proc Vnode Image)

theorem changed_only_if_accepted
    (changed : (sysPfexecve services pid uap proc).2 ≠ proc) :
    ∃ resp, Accepted services pid uap proc resp := by
  unfold sysPfexecve at changed
  by_cases args : validateArgs uap = 0
  · rw [if_neg (not_not.mpr args)] at changed
    by_cases taskq : services.taskqCreate = true
    · rw [if_neg (not_not.mpr taskq)] at changed
      by_cases buffer : services.mallocReq = true
      · rw [if_neg (not_not.mpr buffer)] at changed
        by_cases woken : services.tsleepNsec = 0
        · rw [if_neg (not_not.mpr woken)] at changed
          cases answered : services.exchange (fillMbuf pid proc.psUcred uap) with
          | error code =>
            rw [answered] at changed
            exact absurd rfl changed
          | ok resp =>
            rw [answered] at changed
            dsimp only at changed
            by_cases valid : processResponse resp = 0
            · exact ⟨resp, args, taskq, buffer, woken, answered, valid⟩
            · rw [if_pos valid] at changed
              exact absurd rfl changed
        · rw [if_pos woken] at changed
          exact absurd rfl changed
      · rw [if_pos buffer] at changed
        exact absurd rfl changed
    · rw [if_pos taskq] at changed
      exact absurd rfl changed
  · rw [if_pos args] at changed
    exact absurd rfl changed

theorem accepted_answer_granted {accounts : Accounts} {rules : List Rule} {req : PfexecReq}
    {resp : PfexecResp} (answered : daemonExchange accounts rules req = .ok resp)
    (valid : processResponse resp = 0) :
    wellFormed req = true ∧ ∃ rule, IsLast (matchRule accounts req) rules rule ∧ Grants rule := by
  by_cases formed : wellFormed req = true
  · refine ⟨formed, ?_⟩
    by_contra refused
    obtain ⟨log, denial⟩ := (refused_answer accounts rules req formed refused).2 true
    rw [daemonExchange, denial] at answered
    rw [← Except.ok.inj answered] at valid
    exact absurd valid (by decide)
  · have rejected : processRequest accounts rules req PfexecResp.zero =
        some (einval, PfexecResp.zero) := by rw [processRequest, if_neg formed]
    simp only [daemonExchange, onClientReadable, rejected] at answered
    rw [if_neg (by decide), if_pos (by decide)] at answered
    rw [← Except.ok.inj answered] at valid
    exact absurd valid (by decide)

/-- No process is changed without a granting rule. -/
theorem changed_only_if_granted {accounts : Accounts} {rules : List Rule}
    (connected : services.exchange = daemonExchange accounts rules)
    (changed : (sysPfexecve services pid uap proc).2 ≠ proc) :
    wellFormed (fillMbuf pid proc.psUcred uap) = true ∧
      ∃ rule, IsLast (matchRule accounts (fillMbuf pid proc.psUcred uap)) rules rule ∧
        Grants rule := by
  obtain ⟨resp, accepted⟩ := changed_only_if_accepted services pid uap proc changed
  have answered := accepted.answered
  rw [connected] at answered
  exact accepted_answer_granted answered accepted.valid

end System

/-! ## A process of alice -/

def aliceProc : Proc Nat Nat where
  psUcred := aliceCreds
  pUcred := aliceCreds
  psSugid := false
  procCount _ := 1
  fdRdir := none
  fdCdir := 2
  image := 0

/-- An accepted response for root, with a root directory to enter. -/
def rootResponse : PfexecResp :=
  { PfexecResp.zero with pfrFlags := pfrespUid ||| pfrespChroot }

/-- Services that deliver this response and give the outcomes listed. -/
def fixedServices (execve : Except Errno Nat) (lookup : Nat → Except Errno Nat) :
    Services Nat Nat where
  taskqCreate := true
  mallocReq := true
  tsleepNsec := 0
  exchange _ := .ok rootResponse
  sysExecve _ _ _ := execve
  namei attempt _ _ := lookup attempt
  isDirectory _ := true
  vopAccess _ _ := none

def enoentErrno : Errno := ⟨2, by decide⟩

theorem fixed_accepted (execve : Except Errno Nat) (lookup : Nat → Except Errno Nat) :
    Accepted (fixedServices execve lookup) 1 (catAs pfexecveUser "root") aliceProc rootResponse :=
  ⟨rfl, rfl, rfl, rfl, rfl, by decide⟩

theorem failed_cat_escalates :
    ¬ FailureAtomic aliceProc (sysPfexecve
        (fixedServices (.error enoentErrno) fun _ => .error enoentErrno) 1
        (catAs pfexecveUser "root") aliceProc) ∧
      (sysPfexecve (fixedServices (.error enoentErrno) fun _ => .error enoentErrno) 1
        (catAs pfexecveUser "root") aliceProc).1 = 0 :=
  have escalates := failed_exec_escalates _ 1 (catAs pfexecveUser "root") aliceProc rootResponse
    (fixed_accepted (.error enoentErrno) fun _ => .error enoentErrno) enoentErrno rfl
  ⟨escalates.1, escalates.2.1⟩

/-- A file that does not exist: alice's process keeps running as root, and is
told that the call succeeded. -/
theorem missing_file_makes_root :
    aliceProc.psUcred.crUid = 1000 ∧
      (sysPfexecve (fixedServices (.error enoentErrno) fun _ => .error enoentErrno) 1
        (catAs pfexecveUser "root") aliceProc).1 = 0 ∧
      (sysPfexecve (fixedServices (.error enoentErrno) fun _ => .error enoentErrno) 1
        (catAs pfexecveUser "root") aliceProc).2.psUcred.crUid = 0 ∧
      (sysPfexecve (fixedServices (.error enoentErrno) fun _ => .error enoentErrno) 1
        (catAs pfexecveUser "root") aliceProc).2.image = aliceProc.image :=
  ⟨rfl, rfl, rfl, rfl⟩

theorem jail_entered :
    Confined (fixedServices (.ok 7) fun _ => .ok 3) rootResponse
      (continued aliceProc rootResponse 7)
      (sysPfexecve (fixedServices (.ok 7) fun _ => .ok 3) 1 (catAs pfexecveUser "root")
        aliceProc) :=
  (chroot_confined_iff _ 1 (catAs pfexecveUser "root") aliceProc rootResponse
    (fixed_accepted (.ok 7) fun _ => .ok 3) (by decide) 7 rfl).1.mpr (Or.inl ⟨3, rfl⟩)

/-- Neither directory exists: the new image runs as root outside any root
directory, and the call returns zero. -/
theorem jail_missing :
    (sysPfexecve (fixedServices (.ok 7) fun _ => .error enoentErrno) 1
        (catAs pfexecveUser "root") aliceProc).1 = 0 ∧
      (sysPfexecve (fixedServices (.ok 7) fun _ => .error enoentErrno) 1
        (catAs pfexecveUser "root") aliceProc).2.image = 7 ∧
      (sysPfexecve (fixedServices (.ok 7) fun _ => .error enoentErrno) 1
        (catAs pfexecveUser "root") aliceProc).2.psUcred.crUid = 0 ∧
      (sysPfexecve (fixedServices (.ok 7) fun _ => .error enoentErrno) 1
        (catAs pfexecveUser "root") aliceProc).2.fdRdir = none :=
  ⟨rfl, rfl, rfl, rfl⟩

theorem alice_changed_by_rule :
    ∃ rule, IsLast (matchRule twoAccounts (fillMbuf 1 aliceCreds (catAs pfexecveUser "root")))
      [permitAlice] rule ∧ Grants rule := by
  exact (changed_only_if_granted { fixedServices (.ok 7) fun _ => .ok 3 with
    exchange := daemonExchange twoAccounts [permitAlice] } 1 (catAs pfexecveUser "root") aliceProc
    rfl fun same => absurd (congrArg Proc.image same) (by decide)).2

end Cprogramming.Pfexec.Escalation
