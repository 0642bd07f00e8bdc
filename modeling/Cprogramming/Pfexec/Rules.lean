import Cprogramming.Pfexec.Protocol
import Cprogramming.Library.MachineWords

/-!
# Rules of pfexecd and how a request is matched

The rule of `pfexecd.h`, the account lookups the daemon makes and `match` of
`pfexecd.c`. A rule field that may be absent is an `Option`, a null-terminated
array of strings a list. The account databases are functions: nothing is assumed
of them but that a lookup by uid finds an entry with that uid.
-/

namespace Cprogramming.Pfexec.Rules

open Library.ByteMemory Library.CStrings Library.MachineWords
open Protocol

set_option autoImplicit false

inductive Action where
  | permit
  | deny
deriving DecidableEq

def nopass : UInt32 := 0x1
def keepenv : UInt32 := 0x2
def nolog : UInt32 := 0x8
def keepgrp : UInt32 := 0x10
def chroot : UInt32 := 0x20

structure Rule where
  action : Action
  options : UInt32
  ident : CString
  target : Option CString
  cmd : Option CString
  cmdargs : Option (List CString)
  envlist : Option (List CString)
  grplist : Option (List CString)
  chroot : Option CString
deriving DecidableEq

structure Passwd where
  pwName : CString
  pwUid : UInt32
  pwGid : UInt32
  pwDir : CString
  pwShell : CString
deriving DecidableEq

/-- The password and group databases. `getgrnam` gives the gid of the entry. -/
structure Accounts where
  getpwnam : CString → Option Passwd
  getpwuidR : UInt32 → Option Passwd
  getgrnam : CString → Option UInt32
  getgrouplist : CString → UInt32 → List UInt32
  foundByUid : ∀ uid entry, getpwuidR uid = some entry → entry.pwUid = uid

/-- `UID_MAX` and `GID_MAX`. -/
def idMax : UInt32 := 0xffffffff

/-- The common body of `parseuid` and `parsegid`: the result code and the id
stored, which is zero after a failed `strtonum`. -/
def parseId (found : Option UInt32) (name : CString) : Int × UInt32 :=
  match found with
  | some id => (if id = idMax then -1 else 0, id)
  | none =>
    match strtonum name 0 (idMax.toNat - 1) with
    | some value => (0, UInt32.ofNat value.toNat)
    | none => (-1, 0)

def parseuid (accounts : Accounts) (name : CString) : Int × UInt32 :=
  parseId ((accounts.getpwnam name).map Passwd.pwUid) name

def parsegid (accounts : Accounts) (name : CString) : Int × UInt32 :=
  parseId (accounts.getgrnam name) name

def uidcheck (accounts : Accounts) (name : CString) (desired : UInt32) : Int :=
  if (parseuid accounts name).1 ≠ 0 then -1
  else if (parseuid accounts name).2 ≠ desired then -1
  else 0

/-- The loop of `match` over `cmdargs` from index `i` on and the check after it. -/
def matchArgs (req : PfexecReq) (maxArgs : Int) : Nat → List CString → Bool
  | i, [] => !decide ((i : Int) < maxArgs)
  | i, word :: rest =>
    let arg := req.pfrArgp (i + 1)
    if maxArgs < i then false
    else if strncmp req.pfrArgarea word.bytes arg.pfaOffset arg.pfaLen ≠ 0 then false
    else matchArgs req maxArgs (i + 1) rest

/-- The command and argument part of `match`. -/
def matchCommand (req : PfexecReq) (rule : Rule) : Bool :=
  match rule.cmd with
  | none => true
  | some cmd =>
    if strcmp cmd.bytes req.path.bytes ≠ 0 then false
    else
      match rule.cmdargs with
      | none => true
      | some cmdargs =>
        let maxArgs := int32 ((req.pfrArgc : Int) - 1)
        if cmdargs = [] ∧ 0 < maxArgs then false
        else matchArgs req maxArgs 0 cmdargs

/-- The uid `match` and `craft_response` take for the requested user, whatever
`parseuid` returns. -/
def requestTarget (accounts : Accounts) (req : PfexecReq) : UInt32 :=
  (parseuid accounts req.reqUser).2

/-- `match`; both of its final branches return 1. -/
def matchRule (accounts : Accounts) (req : PfexecReq) (rule : Rule) : Bool :=
  if uidcheck accounts rule.ident req.pfrUid ≠ 0 then false
  else if rule.target.any fun target =>
      decide (uidcheck accounts target (requestTarget accounts req) ≠ 0) then false
  else matchCommand req rule

end Cprogramming.Pfexec.Rules
