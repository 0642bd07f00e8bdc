import Cprogramming.Library.CStrings

/-!
# The messages between the kernel and pfexecd

The request and the response of `pfexecvar.h`, the options of `pfexec.h` and the
limits both sides take from the system headers. An array is a function of its
index and a character array a byte memory: both ends clear the whole message
before they fill it, so an entry that was never written is zero.
-/

namespace Cprogramming.Pfexec.Protocol

open Library.ByteMemory Library.CStrings

set_option autoImplicit false

def argMax : Nat := 512 * 1024
def ngroupsMax : Nat := 16
def pathMax : Nat := 1024
def loginNameMax : Nat := 32

/-- The dimension of `pfr_argp` and of both `pfr_envp` arrays. -/
def refMax : Nat := 1024

def eperm : Int := 1
def e2big : Int := 7
def enotdir : Int := 20
def einval : Int := 22
def epipe : Int := 32

def pfexecveNoprompt : UInt32 := 1
def pfexecveUser : UInt32 := 2
def pfexecveAllFlags : UInt32 := pfexecveNoprompt ||| pfexecveUser

def pfrespUid : UInt32 := 1
def pfrespGid : UInt32 := 2
def pfrespGroups : UInt32 := 4
def pfrespChroot : UInt32 := 8

/-- A C bit test `flags & bit`. -/
def hasBit (flags bit : UInt32) : Bool := flags &&& bit != 0

theorem arg_max_small : argMax < 2 ^ 31 := by
  decide

theorem arg_max_positive : 0 < argMax := by
  decide

/-- A reference to a string in one of the areas; the length leaves out the NUL. -/
structure PfexecArg where
  pfaOffset : Nat
  pfaLen : Nat
deriving DecidableEq

def PfexecArg.zero : PfexecArg := ⟨0, 0⟩

structure PfexecReq where
  pfrPid : UInt32
  pfrUid : UInt32
  pfrGid : UInt32
  pfrNgroups : Nat
  pfrGroups : Nat → UInt32
  pfrReqFlags : UInt32
  pfrReqUser : Memory
  pfrPath : Memory
  pfrArgc : Nat
  pfrArgp : Nat → PfexecArg
  pfrEnvc : Nat
  pfrEnvp : Nat → PfexecArg
  pfrArgarea : Memory
  pfrEnvarea : Memory

structure PfexecResp where
  pfrFlags : UInt32
  pfrErrno : UInt32
  pfrUid : UInt32
  pfrGid : UInt32
  pfrNgroups : Nat
  pfrGroups : Nat → UInt32
  pfrChroot : Memory
  pfrEnvc : Nat
  pfrEnvp : Nat → PfexecArg
  pfrEnvarea : Memory

def PfexecResp.zero : PfexecResp where
  pfrFlags := 0
  pfrErrno := 0
  pfrUid := 0
  pfrGid := 0
  pfrNgroups := 0
  pfrGroups _ := 0
  pfrChroot := zeroed
  pfrEnvc := 0
  pfrEnvp _ := PfexecArg.zero
  pfrEnvarea := zeroed

/-- The string an argument reference denotes inside its area. -/
def areaString (area : Memory) (arg : PfexecArg) : CString :=
  readString area arg.pfaOffset (argMax - arg.pfaOffset)

def PfexecReq.path (req : PfexecReq) : CString := readString req.pfrPath 0 pathMax

/-- `pfr_path` follows `pfr_req_user` in the request, so a user name without a
terminator runs on into the path. -/
def PfexecReq.reqUser (req : PfexecReq) : CString :=
  let user := readString req.pfrReqUser 0 loginNameMax
  if user.bytes.length < loginNameMax then user
  else CString.ofBytes (user.bytes ++ req.path.bytes)

def PfexecResp.chroot (resp : PfexecResp) : CString := readString resp.pfrChroot 0 pathMax

/-- The three checks that both ends make of one reference; the sum is a
`uint32_t`. -/
def badRef (arg : PfexecArg) : Bool :=
  decide (argMax ≤ arg.pfaOffset) || decide (argMax ≤ arg.pfaLen) ||
    decide (argMax ≤ (arg.pfaOffset + arg.pfaLen) % 2 ^ 32)

/-- The validation loop over the first `count` references. -/
def anyBadRef (refs : Nat → PfexecArg) (count : Nat) : Bool :=
  (List.range count).any fun index => badRef (refs index)

theorem bad_ref_false_iff (arg : PfexecArg) :
    badRef arg = false ↔ arg.pfaOffset + arg.pfaLen < argMax := by
  have small := arg_max_small
  simp only [badRef, Bool.or_eq_false_iff, decide_eq_false_iff_not, Nat.not_le]
  constructor
  · rintro ⟨⟨offset, length⟩, sum⟩
    rwa [Nat.mod_eq_of_lt (by omega)] at sum
  · intro sum
    rw [Nat.mod_eq_of_lt (by omega)]
    omega

theorem any_bad_ref_false_iff (refs : Nat → PfexecArg) (count : Nat) :
    anyBadRef refs count = false ↔
      ∀ index, index < count → (refs index).pfaOffset + (refs index).pfaLen < argMax := by
  simp only [anyBadRef, List.any_eq_false, List.mem_range, Bool.not_eq_true, bad_ref_false_iff]

end Cprogramming.Pfexec.Protocol
