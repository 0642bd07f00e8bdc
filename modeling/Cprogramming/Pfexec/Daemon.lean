import Cprogramming.Library.LastMatch
import Cprogramming.Pfexec.Environment
import Cprogramming.Pfexec.EnvironmentArea

/-!
# The daemon

`craft_response`, `process_request`, `log_request` and `on_client_readable` of
`pfexecd.c`. The daemon dies when it follows a null pointer, which is a result
of its own here: `none` for a function, `crashed` for the event handler.
-/

namespace Cprogramming.Pfexec.Daemon

open Library.ByteMemory Library.CStrings Library.MachineWords Library.LastMatch
open Protocol EnvironmentArea Rules Environment

set_option autoImplicit false

/-! ## The response -/

def littleEndian (word : UInt32) : List UInt8 :=
  [word.toUInt8, (word >>> 8).toUInt8, (word >>> 16).toUInt8, (word >>> 24).toUInt8]

/-- `resp->pfr_groups[index] = gid`. The array is followed by `pfr_chroot`, which
an index past its end overwrites. -/
def setGroup (resp : PfexecResp) (index : Nat) (gid : UInt32) : PfexecResp :=
  { resp with
    pfrGroups := fun other => if other = index then gid else resp.pfrGroups other
    pfrChroot :=
      if index < ngroupsMax then resp.pfrChroot
      else store resp.pfrChroot (4 * (index - ngroupsMax) : Nat) (littleEndian gid) }

/-- The loops of `get_groups`: the first gid of every run is stored at its own
index, the repetitions are skipped but counted. -/
def getGroupsLoop : Nat → Option UInt32 → List UInt32 → PfexecResp → PfexecResp
  | cnt, _, [], resp => { resp with pfrNgroups := cnt }
  | cnt, previous, gid :: rest, resp =>
    getGroupsLoop (cnt + 1) (some gid) rest
      (if previous = some gid then resp else setGroup resp cnt gid)

def getGroups (accounts : Accounts) (pw : Passwd) (resp : PfexecResp) : PfexecResp :=
  getGroupsLoop 0 none ((accounts.getgrouplist pw.pwName pw.pwGid).take (ngroupsMax + 1)) resp

/-- One iteration over `grplist`; an unresolvable name leaves its entry as it was. -/
def grplistEntry (accounts : Accounts) (gs : Nat) (name : CString) (resp : PfexecResp) :
    PfexecResp :=
  let parsed := parsegid accounts name
  if parsed.1 = -1 then resp
  else if gs = 0 then { setGroup resp gs parsed.2 with pfrGid := parsed.2 }
  else setGroup resp gs parsed.2

def grplistLoop (accounts : Accounts) : Nat → List CString → PfexecResp → PfexecResp
  | gs, [], resp => { resp with pfrNgroups := gs }
  | gs, name :: rest, resp =>
    if gs < ngroupsMax then
      grplistLoop accounts (gs + 1) rest (grplistEntry accounts gs name resp)
    else { resp with pfrNgroups := gs }

/-- `GRPSET` -/
def applyGrplist (accounts : Accounts) (rule : Rule) (resp : PfexecResp) : PfexecResp :=
  match rule.grplist with
  | none => resp
  | some names =>
    let filled := grplistLoop accounts 0 names resp
    { filled with pfrFlags := filled.pfrFlags ||| pfrespGid ||| pfrespGroups }

/-- `GRPKEEP` -/
def keepGroups (req : PfexecReq) (rule : Rule) (resp : PfexecResp) : PfexecResp :=
  if hasBit rule.options keepgrp then
    let gs := min req.pfrNgroups ngroupsMax
    { resp with
      pfrGroups := fun index => if index < gs then req.pfrGroups index else resp.pfrGroups index
      pfrGid := req.pfrGid
      pfrNgroups := gs }
  else resp

def defaultGroups (accounts : Accounts) (targpw : Passwd) (resp : PfexecResp) : PfexecResp :=
  if resp.pfrNgroups = 0 then
    let filled := getGroups accounts targpw resp
    { filled with pfrFlags := filled.pfrFlags ||| pfrespGid ||| pfrespGroups }
  else resp

def varEmpty : CString := CString.ofString "/var/empty"

def applyChrootOption (rule : Rule) (resp : PfexecResp) : PfexecResp :=
  if hasBit rule.options chroot then
    let stored :=
      match rule.chroot with
      | some path => strlcpyStored path pathMax
      | none => strlcpyStored varEmpty varEmpty.size
    { resp with
      pfrChroot := store resp.pfrChroot 0 stored
      pfrFlags := resp.pfrFlags ||| pfrespChroot }
  else resp

/-- `craft_response`. A target without a passwd entry is reported on stderr and
then dereferenced. -/
def craftResponse (accounts : Accounts) (req : PfexecReq) (rule : Rule) (resp : PfexecResp) :
    Option PfexecResp :=
  match accounts.getpwuidR (requestTarget accounts req) with
  | none => none
  | some targpw =>
    let resp := { resp with pfrFlags := resp.pfrFlags ||| pfrespUid }
    let resp := envareaDestroyRevert (prepenv rule targpw (envareaConvert req)) resp
    let resp := { resp with pfrUid := targpw.pwUid, pfrGid := targpw.pwGid }
    let resp := keepGroups req rule (applyGrplist accounts rule resp)
    some (applyChrootOption rule (defaultGroups accounts targpw resp))

/-! ## The decision -/

def wellFormed (req : PfexecReq) : Bool :=
  if ngroupsMax ≤ req.pfrNgroups then false
  else if hasBit req.pfrReqFlags (~~~ pfexecveAllFlags) then false
  else if req.path.bytes.length < 1 ∨ pathMax ≤ req.path.bytes.length then false
  else if refMax ≤ req.pfrArgc ∨ refMax ≤ req.pfrEnvc then false
  else if hasBit req.pfrReqFlags pfexecveUser ∧
      (req.reqUser.bytes.length < 1 ∨ loginNameMax ≤ req.reqUser.bytes.length) then false
  else if anyBadRef req.pfrArgp req.pfrArgc then false
  else !anyBadRef req.pfrEnvp req.pfrEnvc

/-- `prompt_password`, which never authenticates anyone. -/
def promptPassword (_req : PfexecReq) : Int := 0

/-- An `int` error code stored in the `uint32_t` field. -/
def errnoWord (rc : Int) : UInt32 := UInt32.ofNat (uint32OfInt rc)

def decideRequest (accounts : Accounts) (req : PfexecReq) (lastr : Option Rule) (resp : PfexecResp) :
    Option (Int × PfexecResp) :=
  match lastr with
  | none => some (eperm, { resp with pfrErrno := errnoWord eperm })
  | some rule =>
    if rule.action = .deny then some (eperm, { resp with pfrErrno := errnoWord eperm })
    else if hasBit req.pfrReqFlags pfexecveNoprompt ∧ ¬ hasBit rule.options nopass then
      some (eperm, resp)
    else if ¬ hasBit rule.options nopass ∧ promptPassword req = 0 then some (eperm, resp)
    else
      match craftResponse accounts req rule resp with
      | none => none
      | some filled =>
        some (if hasBit rule.options nolog then -1 else 0, { filled with pfrErrno := 0 })

def processRequest (accounts : Accounts) (rules : List Rule) (req : PfexecReq)
    (resp : PfexecResp) : Option (Int × PfexecResp) :=
  if wellFormed req then decideRequest accounts req (lastMatch (matchRule accounts req) rules) resp
  else some (einval, resp)

/-! ## The event handler -/

/-- The lines `log_request` writes:
"uid %d ran command %s as %s (pid %d)",
"denied escalation for pid %d (%s) as %s, run by uid %d" and
"error processing esclation request from pid %d, run by uid %d: %d: %s". -/
inductive LogEntry where
  | ran (uid : UInt32) (path requser : CString) (pid : UInt32)
  | denied (pid : UInt32) (path requser : CString) (uid : UInt32)
  | failed (pid uid errno : UInt32)

def loggedUser (req : PfexecReq) : CString :=
  if hasBit req.pfrReqFlags pfexecveUser then req.reqUser else CString.ofString "root"

def logRequest (req : PfexecReq) (resp : PfexecResp) : LogEntry :=
  if resp.pfrErrno = 0 then .ran req.pfrUid req.path (loggedUser req) req.pfrPid
  else if resp.pfrErrno = errnoWord eperm then
    .denied req.pfrPid req.path (loggedUser req) req.pfrUid
  else .failed req.pfrPid req.pfrUid resp.pfrErrno

inductive Recvmsg where
  | eagain
  | failed
  | closed
  | short
  | request (req : PfexecReq)

inductive ClientOutcome where
  | waiting
  | destroyed
  | answered (resp : PfexecResp) (log : Option LogEntry) (delivered : Bool)
  | crashed

/-- `on_client_readable`; `sends` says whether `sendmsg` succeeds. -/
def onClientReadable (accounts : Accounts) (rules : List Rule) (received : Recvmsg)
    (sends : Bool) : ClientOutcome :=
  match received with
  | .eagain => .waiting
  | .failed => .destroyed
  | .closed => .destroyed
  | .short => .destroyed
  | .request req =>
    match processRequest accounts rules req PfexecResp.zero with
    | none => .crashed
    | some (rc, resp) =>
      if rc = 0 then .answered resp (some (logRequest req resp)) sends
      else if rc ≠ -1 then
        let denial := { PfexecResp.zero with pfrErrno := errnoWord rc }
        .answered denial (some (logRequest req denial)) sends
      else .answered resp none sends

/-! ## What a crafted response holds

The steps for the groups and for the root directory leave the rest of the
response alone. -/

variable (accounts : Accounts) (resp : PfexecResp)

/-- `after` has the user, the error code and the environment of `before`. -/
structure Frame (before after : PfexecResp) : Prop where
  uid : after.pfrUid = before.pfrUid
  errno : after.pfrErrno = before.pfrErrno
  envc : after.pfrEnvc = before.pfrEnvc
  envp : after.pfrEnvp = before.pfrEnvp

theorem frame_refl : Frame resp resp := ⟨rfl, rfl, rfl, rfl⟩

theorem frame_trans {first second third : PfexecResp} (left : Frame first second)
    (right : Frame second third) : Frame first third where
  uid := right.uid.trans left.uid
  errno := right.errno.trans left.errno
  envc := right.envc.trans left.envc
  envp := right.envp.trans left.envp

theorem get_groups_loop_frame (cnt : Nat) (previous : Option UInt32) (gids : List UInt32)
    (resp : PfexecResp) : Frame resp (getGroupsLoop cnt previous gids resp) := by
  induction gids generalizing cnt previous resp with
  | nil => exact ⟨rfl, rfl, rfl, rfl⟩
  | cons gid rest ih =>
    rw [getGroupsLoop]
    refine frame_trans ?_ (ih (cnt + 1) (some gid) _)
    split_ifs
    · exact frame_refl resp
    · exact ⟨rfl, rfl, rfl, rfl⟩

theorem grplist_entry_frame (gs : Nat) (name : CString) (resp : PfexecResp) :
    Frame resp (grplistEntry accounts gs name resp) := by
  simp only [grplistEntry]
  split_ifs
  · exact frame_refl resp
  · exact ⟨rfl, rfl, rfl, rfl⟩
  · exact ⟨rfl, rfl, rfl, rfl⟩

theorem grplist_loop_frame (gs : Nat) (names : List CString) (resp : PfexecResp) :
    Frame resp (grplistLoop accounts gs names resp) := by
  induction names generalizing gs resp with
  | nil => exact ⟨rfl, rfl, rfl, rfl⟩
  | cons name rest ih =>
    rw [grplistLoop]
    split_ifs with room
    · exact frame_trans (grplist_entry_frame accounts gs name resp) (ih (gs + 1) _)
    · exact ⟨rfl, rfl, rfl, rfl⟩

theorem apply_grplist_frame (rule : Rule) (resp : PfexecResp) :
    Frame resp (applyGrplist accounts rule resp) := by
  unfold applyGrplist
  cases rule.grplist with
  | none => exact frame_refl resp
  | some names =>
    exact frame_trans (grplist_loop_frame accounts 0 names resp) ⟨rfl, rfl, rfl, rfl⟩

theorem keep_groups_frame (req : PfexecReq) (rule : Rule) (resp : PfexecResp) :
    Frame resp (keepGroups req rule resp) := by
  unfold keepGroups
  split_ifs
  · exact ⟨rfl, rfl, rfl, rfl⟩
  · exact frame_refl resp

theorem default_groups_frame (targpw : Passwd) (resp : PfexecResp) :
    Frame resp (defaultGroups accounts targpw resp) := by
  unfold defaultGroups
  split_ifs
  · exact frame_trans (get_groups_loop_frame 0 none _ resp) ⟨rfl, rfl, rfl, rfl⟩
  · exact frame_refl resp

theorem apply_chroot_option_frame (rule : Rule) (resp : PfexecResp) :
    Frame resp (applyChrootOption rule resp) := by
  unfold applyChrootOption
  split_ifs
  · exact ⟨rfl, rfl, rfl, rfl⟩
  · exact frame_refl resp

theorem craft_response_eq_none_iff (req : PfexecReq) (rule : Rule) (resp : PfexecResp) :
    craftResponse accounts req rule resp = none ↔
      accounts.getpwuidR (requestTarget accounts req) = none := by
  unfold craftResponse
  cases accounts.getpwuidR (requestTarget accounts req) with
  | none => simp
  | some targpw => simp

theorem craft_response_frame (req : PfexecReq) (rule : Rule) (resp filled : PfexecResp)
    (crafted : craftResponse accounts req rule resp = some filled) :
    ∃ targpw, accounts.getpwuidR (requestTarget accounts req) = some targpw ∧
      Frame { envareaDestroyRevert (prepenv rule targpw (envareaConvert req)) resp with
        pfrUid := requestTarget accounts req } filled := by
  unfold craftResponse at crafted
  cases found : accounts.getpwuidR (requestTarget accounts req) with
  | none => simp [found] at crafted
  | some targpw =>
    simp only [found, Option.some.injEq] at crafted
    have uid := accounts.foundByUid _ _ found
    refine ⟨targpw, rfl, ?_⟩
    rw [← crafted]
    refine frame_trans ?_ (apply_chroot_option_frame rule _)
    refine frame_trans ?_ (default_groups_frame accounts targpw _)
    refine frame_trans ?_ (keep_groups_frame req rule _)
    refine frame_trans ?_ (apply_grplist_frame accounts rule _)
    exact ⟨uid, rfl, rfl, rfl⟩

end Cprogramming.Pfexec.Daemon
