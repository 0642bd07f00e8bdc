import Cprogramming.Pfexec.Decision

/-!
# Rules for groups

`pfexecd.conf(5)` lets an identity name a group by a leading colon. The daemon
hands every identity to `uidcheck`, which looks up user names and numbers only:
an identity with a colon is neither, so its rule matches nobody.
-/

namespace Cprogramming.Pfexec.GroupIdentity

open Library.CStrings Library.LastMatch
open Protocol FillMbuf Rules Daemon Decision

set_option autoImplicit false

def groupIdentity (group : CString) : CString := (CString.ofString ":").append group

def InGroup (req : PfexecReq) (gid : UInt32) : Prop :=
  gid = req.pfrGid ∨ ∃ index, index < req.pfrNgroups ∧ req.pfrGroups index = gid

/-- The colon separates the fields of a passwd entry, so no account name has one. -/
def ColonFree (accounts : Accounts) : Prop :=
  ∀ name entry, accounts.getpwnam name = some entry → (58 : UInt8) ∉ name.bytes

theorem group_identity_bytes (group : CString) :
    (groupIdentity group).bytes = 58 :: group.bytes := by
  rfl

theorem group_identity_no_number (group : CString) (minval maxval : Int) :
    strtonum (groupIdentity group) minval maxval = none := by
  simp [strtonum, strtoll, group_identity_bytes, isSpace, isDigit]

section Identity

variable (accounts : Accounts) (colonFree : ColonFree accounts) (group : CString)

include colonFree

theorem group_identity_no_user : accounts.getpwnam (groupIdentity group) = none := by
  cases found : accounts.getpwnam (groupIdentity group) with
  | none => rfl
  | some entry =>
    have absent := colonFree _ entry found
    rw [group_identity_bytes] at absent
    exact absurd List.mem_cons_self absent

theorem uidcheck_group_identity (uid : UInt32) :
    uidcheck accounts (groupIdentity group) uid = -1 := by
  have parsed : parseuid accounts (groupIdentity group) = (-1, 0) := by
    simp only [parseuid, parseId, group_identity_no_user accounts colonFree group,
      Option.map_none, group_identity_no_number]
  simp [uidcheck, parsed]

end Identity

/-- The manual's promise for the identity `:group` and one request: the identity
test is membership, and a last rule that denies the group denies its members. -/
structure GroupHonoured (accounts : Accounts) (group : CString) (req : PfexecReq) : Prop where
  identity : ∀ gid, parsegid accounts group = (0, gid) →
    (uidcheck accounts (groupIdentity group) req.pfrUid = 0 ↔ InGroup req gid)
  denies : ∀ gid, parsegid accounts group = (0, gid) → InGroup req gid →
    ∀ rules rule, rule.action = .deny → rule.ident = groupIdentity group →
      rule.target = none → rule.cmd = none →
      ¬ Granted (processRequest accounts (rules ++ [rule]) req PfexecResp.zero)

/-- The promise is kept for exactly those who are not members. -/
theorem group_honoured_iff (accounts : Accounts) (colonFree : ColonFree accounts)
    (group : CString) (req : PfexecReq) :
    GroupHonoured accounts group req ↔
      ∀ gid, parsegid accounts group = (0, gid) → ¬ InGroup req gid := by
  have fails : uidcheck accounts (groupIdentity group) req.pfrUid ≠ 0 := by
    rw [uidcheck_group_identity accounts colonFree group]
    decide
  constructor
  · intro honoured gid resolved member
    exact fails ((honoured.identity gid resolved).mpr member)
  · intro stranger
    constructor
    · intro gid resolved
      constructor
      · intro passes
        exact absurd passes fails
      · intro member
        exact absurd member (stranger gid resolved)
    · intro gid resolved member
      exact absurd member (stranger gid resolved)

/-! ## The group wheel -/

def wheelAccounts : Accounts :=
  { twoAccounts with
    getgrnam := fun name => if name = CString.ofString "wheel" then some 0 else none }

theorem wheel_accounts_colon_free : ColonFree wheelAccounts := by
  intro name entry found
  have known : name = rootEntry.pwName ∨ name = aliceEntry.pwName := by
    simp only [wheelAccounts, twoAccounts] at found
    split_ifs at found with root alice
    · exact Or.inl root
    · exact Or.inr alice
  rcases known with rfl | rfl
  · decide
  · decide

theorem strangers_to_wheel_honoured :
    GroupHonoured wheelAccounts (CString.ofString "wheel") (catRequest pfexecveUser "root") := by
  apply (group_honoured_iff wheelAccounts wheel_accounts_colon_free (CString.ofString "wheel")
    (catRequest pfexecveUser "root")).mpr
  intro gid resolved member
  have zero : gid = 0 := (Prod.mk.inj resolved).2.symm
  subst zero
  rcases member with primary | ⟨index, inside, _⟩
  · exact absurd primary (by decide)
  · exact absurd inside (Nat.not_lt_zero index)

def wheelAlice : Ucred :=
  { aliceCreds with crNgroups := 1, ngroupsBound := by decide }

/-- `deny :wheel` -/
def denyWheel : Rule :=
  { permitAlice with action := .deny, ident := groupIdentity (CString.ofString "wheel") }

/-- A member of wheel is granted root although the last rule denies wheel. -/
theorem denied_member_granted :
    parsegid wheelAccounts (CString.ofString "wheel") = (0, 0) ∧
      InGroup (fillMbuf 1 wheelAlice (catAs pfexecveUser "root")) 0 ∧
      uidcheck wheelAccounts denyWheel.ident
        (fillMbuf 1 wheelAlice (catAs pfexecveUser "root")).pfrUid = -1 ∧
      Granted (processRequest wheelAccounts [permitAlice, denyWheel]
        (fillMbuf 1 wheelAlice (catAs pfexecveUser "root")) PfexecResp.zero) :=
  ⟨by decide, Or.inr ⟨0, by decide, by decide⟩, by decide, 0, _, rfl, Or.inl rfl, rfl⟩

end Cprogramming.Pfexec.GroupIdentity
