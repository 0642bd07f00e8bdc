import Cprogramming.Acct.TrackedPaths

/-!
# The filter of open events

An entry carries conditions on the access mode of an open. `doopenat` hands the
flags of the system call to `acct_open` as they are, which compares their low byte
with the conditions. The flags encode the access mode as a number, the conditions
as a set.
-/

namespace Cprogramming.Acct.OpenFilter

open Library.CStrings Library.KeyedTree Library.Runs
open Records Device Effects Tracking TrackedPaths

set_option autoImplicit false

def acctCondRead : BitVec 8 := 1 <<< 0
def acctCondWrite : BitVec 8 := 1 <<< 1

/-- `FFLAGS(oflags) & (FREAD | FWRITE)`: the two lowest bits of `oflags + 1`. -/
def fflagsAccess (oflags : Int) : Nat := ((oflags + 1) % 4).toNat

def opensForReading (oflags : Int) : Bool := fflagsAccess oflags % 2 == 1

def opensForWriting (oflags : Int) : Bool := fflagsAccess oflags / 2 == 1

def accessMeets (cond : BitVec 8) (oflags : Int) : Bool :=
  opensForReading oflags && cond &&& acctCondRead != 0 ||
    opensForWriting oflags && cond &&& acctCondWrite != 0

def Records (context : HookContext) (driver : Driver) (pr : Process) (vn : Vnode)
    (oflags mode : Int) : Prop :=
  ∃ record, (acctOpen context driver pr vn oflags mode).acctList = record :: driver.acctList

/-- A file is tracked for open events, with conditions on the access mode only. -/
structure WatchedOpens (driver : Driver) (vn : Vnode) (node : Trkvnode) : Prop where
  tracked : driver.fTracker.find (vnodeKey vn) = some node
  globally : driver.acctEna &&& acctEnaOpen ≠ 0
  locally : node.trkEna &&& acctEnaOpen.setWidth 8 ≠ 0
  conditions : node.trkFlags ≠ 0
  accessOnly : node.trkFlags &&& ~~~(acctCondRead ||| acctCondWrite) = 0

/-- The conditions and the flags for which the comparison of the low byte agrees
with the access mode. A low byte of zero passes every condition, and `O_WRONLY` and
`O_RDWR` are compared with the conditions of the bits 0 and 1. -/
def byteAgrees (cond low : BitVec 8) : Bool :=
  if low &&& 3 = 0 then (low == 0) == (cond &&& acctCondRead != 0)
  else if low &&& 3 = 1 then cond == acctCondRead ||| acctCondWrite
  else if low &&& 3 = 2 then cond &&& acctCondWrite != 0
  else false

/-! ## The comparison of the byte -/

/-- What the filter makes of the conditions and the byte, the enabled events apart. -/
def bytePasses (cond low : BitVec 8) : Bool :=
  if low = 0 then true else cond &&& low != 0

theorem parsepermissions_open {driver : Driver} {vn : Vnode} {node : Trkvnode}
    (watched : WatchedOpens driver vn node) (low : BitVec 8) :
    trktreeParsepermissions driver (some node) (acctEnaOpen.setWidth 8) low = 0 ↔
      bytePasses node.trkFlags low = true := by
  have widened : (acctEnaOpen.setWidth 8).setWidth 32 = acctEnaOpen := by decide
  by_cases zero : low = 0
  · have conditions : node.trkFlags &&& node.trkFlags ≠ 0 := by
      rw [BitVec.and_self]
      exact watched.conditions
    simp only [trktreeParsepermissions, bytePasses, widened, if_pos zero]
    rw [if_pos ⟨watched.globally, watched.locally, Or.inr conditions⟩]
    exact iff_true_intro rfl
  · simp only [trktreeParsepermissions, bytePasses, widened, if_neg zero, bne_iff_ne]
    constructor
    · intro passes disjoint
      rw [if_neg (fun met => met.2.2.elim zero (fun common => common disjoint))] at passes
      exact absurd passes (by decide)
    · intro common
      rw [if_pos ⟨watched.globally, watched.locally, Or.inr common⟩]

theorem access_conditions {cond : BitVec 8} (nonempty : cond ≠ 0)
    (accessOnly : cond &&& ~~~(acctCondRead ||| acctCondWrite) = 0) :
    cond = acctCondRead ∨ cond = acctCondWrite ∨ cond = acctCondRead ||| acctCondWrite := by
  revert cond
  decide

theorem access_of_byte (oflags : Int) :
    fflagsAccess oflags = ((BitVec.ofInt 8 oflags).toNat + 1) % 4 := by
  rw [fflagsAccess, BitVec.toNat_ofInt]
  omega

theorem byte_agrees_iff {cond : BitVec 8} (oflags : Int) (nonempty : cond ≠ 0)
    (accessOnly : cond &&& ~~~(acctCondRead ||| acctCondWrite) = 0) :
    (bytePasses cond (BitVec.ofInt 8 oflags) = accessMeets cond oflags) ↔
      byteAgrees cond (BitVec.ofInt 8 oflags) = true := by
  simp only [accessMeets, opensForReading, opensForWriting, access_of_byte]
  generalize BitVec.ofInt 8 oflags = low
  rcases access_conditions nonempty accessOnly with rfl | rfl | rfl
  · revert low
    decide
  · revert low
    decide
  · revert low
    decide

/-! ## Recorded opens -/

theorem records_iff {context : HookContext} {driver : Driver} (pr : Process) {vn : Vnode}
    (oflags mode : Int) {node : Trkvnode} (watched : WatchedOpens driver vn node)
    (memory : context.malloc = true) : Records context driver pr vn oflags mode ↔
      bytePasses node.trkFlags (BitVec.ofInt 8 oflags) = true := by
  rw [← parsepermissions_open watched]
  simp only [Records, acctOpen, vnodelookup_eq, watched.tracked, recordNode, memory, if_true]
  constructor
  · intro recorded
    obtain ⟨record, queued⟩ := recorded
    by_contra filtered
    rw [if_pos filtered] at queued
    exact untouched_queues_nothing driver record queued
  · intro passes
    rw [if_neg (not_not.mpr passes)]
    exact ⟨_, rfl⟩

/-- When an open is recorded exactly for the access modes of the conditions. -/
theorem open_filter_iff_byte_agrees (context : HookContext) (driver : Driver) (pr : Process)
    (vn : Vnode) (oflags mode : Int) (node : Trkvnode) (watched : WatchedOpens driver vn node)
    (memory : context.malloc = true) :
    (Records context driver pr vn oflags mode ↔ accessMeets node.trkFlags oflags = true) ↔
      byteAgrees node.trkFlags (BitVec.ofInt 8 oflags) = true := by
  rw [records_iff pr oflags mode watched memory, ← Bool.eq_iff_iff]
  exact byte_agrees_iff oflags watched.conditions watched.accessOnly

/-- The message of the day is tracked for open events with the conditions. -/
def watchMotd (cond : BitVec 8) : Driver :=
  run step acctattach [.ioctl motdOnly .enable (motdRequest acctEnaOpen 0),
    .ioctl motdOnly .trackFile (motdRequest acctEnaOpen (cond.setWidth 32))]

def motdEntry (cond : BitVec 8) : Trkvnode :=
  ⟨CString.ofString "/etc/motd", acctEnaOpen.setWidth 8, cond, motd⟩

theorem motd_opens_for_update_filtered :
    WatchedOpens (watchMotd acctCondWrite) motd (motdEntry acctCondWrite) ∧
      (Records calm (watchMotd acctCondWrite) shell motd 2 0 ↔
        accessMeets (motdEntry acctCondWrite).trkFlags 2 = true) := by
  have watched : WatchedOpens (watchMotd acctCondWrite) motd (motdEntry acctCondWrite) :=
    ⟨by decide, by decide, by decide, by decide, by decide⟩
  exact ⟨watched, (open_filter_iff_byte_agrees calm _ shell motd 2 0 _ watched rfl).mpr (by decide)⟩

/-- An open for reading only is recorded for a file that is watched for writing. -/
theorem open_for_reading_recorded_as_write :
    WatchedOpens (watchMotd acctCondWrite) motd (motdEntry acctCondWrite) ∧
      Records calm (watchMotd acctCondWrite) shell motd 0 0 ∧
      accessMeets (motdEntry acctCondWrite).trkFlags 0 = false := by
  have watched : WatchedOpens (watchMotd acctCondWrite) motd (motdEntry acctCondWrite) :=
    ⟨by decide, by decide, by decide, by decide, by decide⟩
  exact ⟨watched, (records_iff shell 0 0 watched rfl).mpr (by decide), by decide⟩

end Cprogramming.Acct.OpenFilter
