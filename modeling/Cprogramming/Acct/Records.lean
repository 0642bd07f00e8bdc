import Cprogramming.Library.CStrings
import Cprogramming.Library.MachineWords

/-!
# Records of the audit driver

The constants and structures of `acct.h` and the part of a record that `acct_void`
fills in for every event. A record carries the size of its structure in `ac_len`.
Masks are machine words: `acct_ena` and `acct_cond` have 32 bits, the fields of a
tracking entry are of type `u_char`.
-/

namespace Cprogramming.Acct.Records

open Library.CStrings Library.MachineWords

set_option autoImplicit false

def acctMsgFork : Nat := 0
def acctMsgExec : Nat := 1
def acctMsgExit : Nat := 2
def acctMsgOpen : Nat := 3
def acctMsgRename : Nat := 4
def acctMsgUnlink : Nat := 5
def acctMsgClose : Nat := 6

def acctEnaFork : BitVec 32 := 1 <<< 0
def acctEnaExec : BitVec 32 := 1 <<< 1
def acctEnaExit : BitVec 32 := 1 <<< 2
def acctEnaOpen : BitVec 32 := 1 <<< 3
def acctEnaClose : BitVec 32 := 1 <<< 4
def acctEnaRename : BitVec 32 := 1 <<< 5
def acctEnaUnlink : BitVec 32 := 1 <<< 6

/-- `mask & ACCT_ENA_ALL`. The macro has no parentheses, so the conjunction takes
its first bit only. -/
def andAcctEnaAll (mask : BitVec 32) : BitVec 32 :=
  (mask &&& acctEnaFork) ||| acctEnaExec ||| acctEnaExit ||| acctEnaOpen ||| acctEnaClose |||
    acctEnaRename ||| acctEnaUnlink

/-- `F_ENA`, the events of files. -/
def fEna : BitVec 32 := acctEnaOpen ||| acctEnaClose ||| acctEnaRename ||| acctEnaUnlink

def pathMax : Nat := 1024

structure Timespec where
  tvSec : Int
  tvNsec : Int
deriving DecidableEq

def timespecadd (left right : Timespec) : Timespec :=
  let nsec := left.tvNsec + right.tvNsec
  if 1000000000 ≤ nsec then ⟨left.tvSec + right.tvSec + 1, nsec - 1000000000⟩
  else ⟨left.tvSec + right.tvSec, nsec⟩

def timespecsub (left right : Timespec) : Timespec :=
  let nsec := left.tvNsec - right.tvNsec
  if nsec < 0 then ⟨left.tvSec - right.tvSec - 1, nsec + 1000000000⟩
  else ⟨left.tvSec - right.tvSec, nsec⟩

structure AcctCommon where
  acType : Nat
  acLen : Nat
  acSeq : Nat
  acComm : List UInt8
  acEtime : Timespec
  acBtime : Timespec
  acPid : Int
  acUid : UInt32
  acGid : UInt32
  acTty : Int
  acFlag : UInt32
deriving DecidableEq

/-- What the structures of the seven events add to `struct acct_common`. -/
inductive AcctBody where
  | fork (acCpid : Int)
  | exec
  | exit (acUtime acStime : Timespec) (acMem acIo : Nat)
  | open (acPath : CString) (acMode acErrno : Int)
  | rename (acPath acNew : CString) (acErrno : Int)
  | unlink (acPath : CString) (acErrno : Int)
  | close (acPath : CString)
deriving DecidableEq

/-- `sizeof(struct acct_common)` on a 64-bit machine. -/
def sizeofAcctCommon : Nat := 80

/-- `sizeof` of the seven structures, padding included. -/
def AcctBody.size : AcctBody → Nat
  | .fork _ => 88
  | .exec => 80
  | .exit _ _ _ _ => 128
  | .open _ _ _ => 1112
  | .rename _ _ _ => 2136
  | .unlink _ _ => 1112
  | .close _ => 1104

structure AcctRecord where
  acCommon : AcctCommon
  acBody : AcctBody
  sized : acCommon.acLen = acBody.size
deriving DecidableEq

theorem ac_len_positive (record : AcctRecord) : 0 < record.acCommon.acLen := by
  rw [record.sized]
  cases record.acBody <;> simp [AcctBody.size]

def AcctRecord.withSeq (record : AcctRecord) (seq : Nat) : AcctRecord :=
  ⟨{ record.acCommon with acSeq := seq }, record.acBody, record.sized⟩

/-- What the hooks read of a process. The terminal is that of its session. -/
structure Process where
  psComm : List UInt8
  psStart : Timespec
  psPid : Int
  crRuid : UInt32
  crRgid : UInt32
  psControlt : Bool
  sTtyp : Option Int
  psAcflag : UInt32

/-- The resource usage of an exiting process: the times that `calctsru` computes
and the fields of `p_ru`. -/
structure Usage where
  ut : Timespec
  st : Timespec
  ruIxrss : Int
  ruIdrss : Int
  ruIsrss : Int
  ruInblock : Int
  ruOublock : Int

structure Clock where
  nanouptime : Timespec
  nanoboottime : Timespec
  hz : Int
  tick : Int

def nodev : Int := -1

/-- `acct_void` on a zeroed record. -/
def acctVoid (clock : Clock) (acType acLen : Nat) (pr : Process) : AcctCommon where
  acType := acType
  acLen := acLen
  acSeq := 0
  acComm := pr.psComm.take 16
  acEtime := timespecsub clock.nanouptime pr.psStart
  acBtime := timespecadd clock.nanoboottime pr.psStart
  acPid := pr.psPid
  acUid := pr.crRuid
  acGid := pr.crRgid
  acTty := if pr.psControlt then pr.sTtyp.getD nodev else nodev
  acFlag := pr.psAcflag

/-- The average memory of `acct_exit`; the ticks are an `int`. -/
def averageMemory (clock : Clock) (usage : Usage) : Nat :=
  let tmp := timespecadd usage.ut usage.st
  let t := int32 (tmp.tvSec * clock.hz + tmp.tvNsec.tdiv (1000 * clock.tick))
  if t = 0 then 0
  else sizeOfInt ((usage.ruIxrss + usage.ruIdrss + usage.ruIsrss).tdiv t)

def forkRecord (clock : Clock) (parent child : Process) : AcctRecord where
  acCommon := acctVoid clock acctMsgFork 88 parent
  acBody := .fork child.psPid
  sized := rfl

def execRecord (clock : Clock) (pr : Process) : AcctRecord where
  acCommon := acctVoid clock acctMsgExec 80 pr
  acBody := .exec
  sized := rfl

def exitRecord (clock : Clock) (pr : Process) (usage : Usage) : AcctRecord where
  acCommon := acctVoid clock acctMsgExit 128 pr
  acBody := .exit usage.ut usage.st (averageMemory clock usage)
    (sizeOfInt (usage.ruInblock + usage.ruOublock))
  sized := rfl

/-- The stored path is cut by `strlcpy` to the size of `ac_path`. -/
def openRecord (clock : Clock) (pr : Process) (trkName : CString) (i0 i1 : Int) : AcctRecord where
  acCommon := acctVoid clock acctMsgOpen 1112 pr
  acBody := .open (trkName.take (pathMax - 1)) i0 i1
  sized := rfl

def renameRecord (clock : Clock) (pr : Process) (trkName name : CString) (e0 : Int) :
    AcctRecord where
  acCommon := acctVoid clock acctMsgRename 2136 pr
  acBody := .rename (trkName.take (pathMax - 1)) name e0
  sized := rfl

def unlinkRecord (clock : Clock) (pr : Process) (trkName : CString) (e0 : Int) : AcctRecord where
  acCommon := acctVoid clock acctMsgUnlink 1112 pr
  acBody := .unlink (trkName.take (pathMax - 1)) e0
  sized := rfl

def closeRecord (clock : Clock) (pr : Process) (trkName : CString) : AcctRecord where
  acCommon := acctVoid clock acctMsgClose 1104 pr
  acBody := .close (trkName.take (pathMax - 1))
  sized := rfl

end Cprogramming.Acct.Records
