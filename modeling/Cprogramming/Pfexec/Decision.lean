import Cprogramming.Pfexec.CommandMatch
import Cprogramming.Pfexec.Daemon

/-!
# Who decides and for whom

The last matching rule decides a request, unless the target of a granting rule
has no passwd entry: the daemon then dies before it answers. The target is the
uid that `parseuid` left behind, whether or not it succeeded and whether or not
the client asked for a user at all.
-/

namespace Cprogramming.Pfexec.Decision

open Library.CStrings Library.LastMatch
open Protocol FillMbuf EnvironmentArea Rules Environment Daemon CommandMatch

set_option autoImplicit false

def Grants (rule : Rule) : Prop :=
  rule.action = .permit ∧ hasBit rule.options nopass = true

/-- `process_request` returned 0 or -1 with a cleared error code. -/
def Granted (outcome : Option (Int × PfexecResp)) : Prop :=
  ∃ rc resp, outcome = some (rc, resp) ∧ (rc = 0 ∨ rc = -1) ∧ resp.pfrErrno = 0

def HasPasswdEntry (accounts : Accounts) (req : PfexecReq) : Prop :=
  accounts.getpwuidR (requestTarget accounts req) ≠ none

section Decide

variable (accounts : Accounts) (req : PfexecReq) (resp : PfexecResp)

/-- Without a granting rule every exit is `EPERM`: the password prompt refuses
whoever gets that far. -/
theorem decide_refuses {lastr : Option Rule} (refuses : ∀ rule, lastr = some rule → ¬ Grants rule) :
    ∃ left, decideRequest accounts req lastr resp = some (eperm, left) := by
  cases lastr with
  | none => exact ⟨_, rfl⟩
  | some rule =>
    simp only [decideRequest]
    by_cases denied : rule.action = .deny
    · rw [if_pos denied]
      exact ⟨_, rfl⟩
    · have permits : rule.action = .permit := by
        cases action : rule.action with
        | permit => rfl
        | deny => exact absurd action denied
      have password : ¬ hasBit rule.options nopass = true :=
        fun free => refuses rule rfl ⟨permits, free⟩
      rw [if_neg denied]
      by_cases noprompt : hasBit req.pfrReqFlags pfexecveNoprompt = true ∧
          ¬ hasBit rule.options nopass = true
      · rw [if_pos noprompt]
        exact ⟨_, rfl⟩
      · rw [if_neg noprompt, if_pos ⟨password, rfl⟩]
        exact ⟨_, rfl⟩

theorem decide_grants {rule : Rule} (grants : Grants rule) :
    decideRequest accounts req (some rule) resp =
      (craftResponse accounts req rule resp).map fun filled =>
        (if hasBit rule.options nolog then -1 else 0, { filled with pfrErrno := 0 }) := by
  obtain ⟨permits, free⟩ := grants
  have allowed : ¬ rule.action = .deny := by
    rw [permits]
    decide
  simp only [decideRequest]
  rw [if_neg allowed, if_neg (fun prompt => prompt.2 free), if_neg (fun prompt => prompt.1 free)]
  cases craftResponse accounts req rule resp with
  | none => rfl
  | some filled => rfl

theorem decide_succeeds_iff (lastr : Option Rule) (rc : Int) (filled : PfexecResp) :
    (decideRequest accounts req lastr resp = some (rc, filled) ∧ (rc = 0 ∨ rc = -1)) ↔
      ∃ rule crafted, lastr = some rule ∧ Grants rule ∧
        craftResponse accounts req rule resp = some crafted ∧
        rc = (if hasBit rule.options nolog then -1 else 0) ∧
        filled = { crafted with pfrErrno := 0 } := by
  constructor
  · rintro ⟨outcome, success⟩
    by_cases grants : ∃ rule, lastr = some rule ∧ Grants rule
    · obtain ⟨rule, rfl, granting⟩ := grants
      rw [decide_grants accounts req resp granting] at outcome
      obtain ⟨crafted, made, pair⟩ := Option.map_eq_some_iff.mp outcome
      obtain ⟨code, rest⟩ := Prod.mk.inj pair
      exact ⟨rule, crafted, rfl, granting, made, code.symm, rest.symm⟩
    · obtain ⟨left, refused⟩ := decide_refuses accounts req resp
        (fun rule last granting => grants ⟨rule, last, granting⟩)
      rw [refused] at outcome
      have code : eperm = rc := (Prod.mk.inj (Option.some.inj outcome)).1
      rw [← code] at success
      exact absurd success (by decide)
  · rintro ⟨rule, crafted, rfl, granting, made, code, rest⟩
    rw [decide_grants accounts req resp granting, made, code, rest]
    refine ⟨rfl, ?_⟩
    split_ifs
    · exact Or.inr rfl
    · exact Or.inl rfl

theorem decide_code (lastr : Option Rule) (rc : Int) (filled : PfexecResp)
    (outcome : decideRequest accounts req lastr resp = some (rc, filled)) :
    rc = eperm ∨ rc = 0 ∨ rc = -1 := by
  by_cases grants : ∃ rule, lastr = some rule ∧ Grants rule
  · obtain ⟨rule, rfl, granting⟩ := grants
    rw [decide_grants accounts req resp granting] at outcome
    obtain ⟨crafted, _, pair⟩ := Option.map_eq_some_iff.mp outcome
    rw [← (Prod.mk.inj pair).1]
    split_ifs
    · exact Or.inr (Or.inr rfl)
    · exact Or.inr (Or.inl rfl)
  · obtain ⟨left, refused⟩ := decide_refuses accounts req resp
      (fun rule last granting => grants ⟨rule, last, granting⟩)
    rw [refused] at outcome
    exact Or.inl (Prod.mk.inj (Option.some.inj outcome)).1.symm

end Decide

section Requests

variable (accounts : Accounts) (rules : List Rule) (req : PfexecReq)

theorem process_request_well_formed (formed : wellFormed req = true) (resp : PfexecResp) :
    processRequest accounts rules req resp =
      decideRequest accounts req (lastMatch (matchRule accounts req) rules) resp := by
  rw [processRequest, if_pos formed]

theorem granted_iff (formed : wellFormed req = true) :
    Granted (processRequest accounts rules req PfexecResp.zero) ↔
      ∃ rule, IsLast (matchRule accounts req) rules rule ∧ Grants rule ∧
        HasPasswdEntry accounts req := by
  rw [process_request_well_formed accounts rules req formed]
  constructor
  · rintro ⟨rc, filled, outcome, success, _⟩
    obtain ⟨rule, crafted, last, granting, made, _⟩ :=
      (decide_succeeds_iff accounts req PfexecResp.zero _ rc filled).mp ⟨outcome, success⟩
    refine ⟨rule, (last_match_eq_some_iff _ _ _).mp last, granting, ?_⟩
    intro missing
    rw [(craft_response_eq_none_iff accounts req rule PfexecResp.zero).mpr missing] at made
    cases made
  · rintro ⟨rule, last, granting, entry⟩
    have answers : craftResponse accounts req rule PfexecResp.zero ≠ none :=
      fun missing => entry ((craft_response_eq_none_iff accounts req rule _).mp missing)
    obtain ⟨crafted, made⟩ := Option.ne_none_iff_exists'.mp answers
    obtain ⟨outcome, success⟩ := (decide_succeeds_iff accounts req PfexecResp.zero _ _ _).mpr
      ⟨rule, crafted, (last_match_eq_some_iff _ _ _).mpr last, granting, made, rfl, rfl⟩
    exact ⟨_, _, outcome, success, rfl⟩

/-- The claim of `pfexecd.conf(5)` that the last matching rule decides, with the
answer the client is sent otherwise. -/
structure LastRuleDecides : Prop where
  grants : Granted (processRequest accounts rules req PfexecResp.zero) ↔
    ∃ rule, IsLast (matchRule accounts req) rules rule ∧ Grants rule
  refuses : (¬ ∃ rule, IsLast (matchRule accounts req) rules rule ∧ Grants rule) →
    (∃ left, processRequest accounts rules req PfexecResp.zero = some (eperm, left)) ∧
      ∀ sends, ∃ log, onClientReadable accounts rules (.request req) sends =
        .answered { PfexecResp.zero with pfrErrno := errnoWord eperm } log sends
  edits : ∀ before rule after edited, rules = before ++ rule :: after →
    matchRule accounts req rule = true → (∀ later ∈ after, matchRule accounts req later = false) →
    processRequest accounts (edited ++ rule :: after) req PfexecResp.zero =
      processRequest accounts rules req PfexecResp.zero

theorem refused_answer (formed : wellFormed req = true)
    (refused : ¬ ∃ rule, IsLast (matchRule accounts req) rules rule ∧ Grants rule) :
    (∃ left, processRequest accounts rules req PfexecResp.zero = some (eperm, left)) ∧
      ∀ sends, ∃ log, onClientReadable accounts rules (.request req) sends =
        .answered { PfexecResp.zero with pfrErrno := errnoWord eperm } log sends := by
  obtain ⟨left, outcome⟩ := decide_refuses accounts req PfexecResp.zero (by
      intro rule last granting
      exact refused ⟨rule, (last_match_eq_some_iff _ _ _).mp last, granting⟩)
  rw [← process_request_well_formed accounts rules req formed] at outcome
  refine ⟨⟨left, outcome⟩, ?_⟩
  intro sends
  simp only [onClientReadable, outcome]
  rw [if_neg (by decide), if_pos (by decide)]
  exact ⟨_, rfl⟩

theorem edited_rules_same_outcome (before after edited : List Rule) (rule : Rule)
    (hit : matchRule accounts req rule = true)
    (quiet : ∀ later ∈ after, matchRule accounts req later = false) (resp : PfexecResp) :
    processRequest accounts (edited ++ rule :: after) req resp =
      processRequest accounts (before ++ rule :: after) req resp := by
  unfold processRequest
  rw [last_match_of_split _ edited after rule hit quiet,
    last_match_of_split _ before after rule hit quiet]

/-- The last matching rule decides, unless it grants a target that has no passwd
entry. -/
theorem last_rule_decides_iff (formed : wellFormed req = true) :
    LastRuleDecides accounts rules req ↔
      ∀ rule, IsLast (matchRule accounts req) rules rule → Grants rule →
        HasPasswdEntry accounts req := by
  constructor
  · intro decides rule last granting
    have granted := decides.grants.mpr ⟨rule, last, granting⟩
    obtain ⟨_, _, _, entry⟩ := (granted_iff accounts rules req formed).mp granted
    exact entry
  · intro entries
    refine ⟨?_, refused_answer accounts rules req formed, ?_⟩
    · rw [granted_iff accounts rules req formed]
      constructor
      · rintro ⟨rule, last, granting, _⟩
        exact ⟨rule, last, granting⟩
      · rintro ⟨rule, last, granting⟩
        exact ⟨rule, last, granting, entries rule last granting⟩
    · rintro before rule after edited rfl hit quiet
      exact edited_rules_same_outcome accounts req before after edited rule hit quiet _

/-! ## The target -/

def askedUser : CString :=
  if hasBit req.pfrReqFlags pfexecveUser then req.reqUser else CString.ofString "root"

/-- A grant is for the user asked for, and the log names that user. -/
def TargetIntegrity : Prop :=
  ∀ rc resp, processRequest accounts rules req PfexecResp.zero = some (rc, resp) →
    rc = 0 ∨ rc = -1 →
    parseuid accounts (askedUser req) = (0, resp.pfrUid) ∧
      ∃ name, logRequest req resp = .ran req.pfrUid req.path name req.pfrPid ∧
        parseuid accounts name = (0, resp.pfrUid)

/-- With `PFEXECVE_USER` the user named resolves; without it root does, to the uid
that `parseuid` leaves for the unused user field. -/
def TargetResolved : Prop :=
  (hasBit req.pfrReqFlags pfexecveUser = true → (parseuid accounts req.reqUser).1 = 0) ∧
    (hasBit req.pfrReqFlags pfexecveUser = false →
      parseuid accounts (CString.ofString "root") = (0, (parseuid accounts req.reqUser).2))

theorem target_resolved_iff :
    TargetResolved accounts req ↔
      parseuid accounts (askedUser req) = (0, requestTarget accounts req) := by
  unfold TargetResolved askedUser requestTarget
  cases hasBit req.pfrReqFlags pfexecveUser with
  | true => simp [Prod.ext_iff]
  | false => simp

theorem process_request_succeeds_iff (rc : Int) (resp : PfexecResp) :
    (processRequest accounts rules req PfexecResp.zero = some (rc, resp) ∧ (rc = 0 ∨ rc = -1)) ↔
      wellFormed req = true ∧ ∃ rule crafted,
        IsLast (matchRule accounts req) rules rule ∧ Grants rule ∧
        craftResponse accounts req rule PfexecResp.zero = some crafted ∧
        rc = (if hasBit rule.options nolog then -1 else 0) ∧
        resp = { crafted with pfrErrno := 0 } := by
  by_cases formed : wellFormed req = true
  · rw [process_request_well_formed accounts rules req formed, decide_succeeds_iff]
    simp only [formed, true_and, last_match_eq_some_iff]
  · rw [processRequest, if_neg formed]
    constructor
    · rintro ⟨outcome, success⟩
      have code : einval = rc := (Prod.mk.inj (Option.some.inj outcome)).1
      rw [← code] at success
      exact absurd success (by decide)
    · rintro ⟨wellFormed, _⟩
      exact absurd wellFormed formed

theorem granted_uid_and_log (rc : Int) (resp : PfexecResp)
    (outcome : processRequest accounts rules req PfexecResp.zero = some (rc, resp))
    (success : rc = 0 ∨ rc = -1) :
    resp.pfrUid = requestTarget accounts req ∧
      logRequest req resp = .ran req.pfrUid req.path (askedUser req) req.pfrPid := by
  obtain ⟨_, rule, crafted, _, _, made, _, rfl⟩ :=
    (process_request_succeeds_iff accounts rules req rc resp).mp ⟨outcome, success⟩
  obtain ⟨_, _, frame⟩ := craft_response_frame accounts req rule _ crafted made
  exact ⟨frame.uid, rfl⟩

/-- Whoever is granted is the user asked for exactly when that user resolves to
the uid taken from `pfr_req_user`. -/
theorem target_integrity_iff :
    TargetIntegrity accounts rules req ↔
      (wellFormed req = true → ∀ rule, IsLast (matchRule accounts req) rules rule → Grants rule →
        HasPasswdEntry accounts req → TargetResolved accounts req) := by
  rw [target_resolved_iff]
  constructor
  · intro integrity formed rule last granting entry
    obtain ⟨rc, resp, outcome, success, _⟩ :=
      (granted_iff accounts rules req formed).mpr ⟨rule, last, granting, entry⟩
    rw [← (granted_uid_and_log accounts rules req rc resp outcome success).1]
    exact (integrity rc resp outcome success).1
  · intro resolved rc resp outcome success
    obtain ⟨formed, rule, crafted, last, granting, made, _⟩ :=
      (process_request_succeeds_iff accounts rules req rc resp).mp ⟨outcome, success⟩
    have entry : HasPasswdEntry accounts req := by
      intro missing
      rw [(craft_response_eq_none_iff accounts req rule _).mpr missing] at made
      cases made
    obtain ⟨uid, log⟩ := granted_uid_and_log accounts rules req rc resp outcome success
    have asked := resolved formed rule last granting entry
    rw [← uid] at asked
    exact ⟨asked, askedUser req, log, asked⟩

end Requests

/-! ## One rule and two accounts -/

def rootEntry : Passwd :=
  ⟨CString.ofString "root", 0, 0, CString.ofString "/root", CString.ofString "/bin/ksh"⟩

def aliceEntry : Passwd :=
  ⟨CString.ofString "alice", 1000, 1000, CString.ofString "/home/alice",
    CString.ofString "/bin/ksh"⟩

def twoAccounts : Accounts where
  getpwnam name :=
    if name = rootEntry.pwName then some rootEntry
    else if name = aliceEntry.pwName then some aliceEntry
    else none
  getpwuidR uid := if uid = 0 then some rootEntry else if uid = 1000 then some aliceEntry else none
  getgrnam _ := none
  getgrouplist _ gid := [gid]
  foundByUid := by
    intro uid entry found
    split_ifs at found with root alice
    · rw [root, ← Option.some.inj found]
      rfl
    · rw [alice, ← Option.some.inj found]
      rfl

def aliceCreds : Ucred :=
  { nobody with
    crUid := 1000, crRuid := 1000, crSvuid := 1000, crGid := 1000, crRgid := 1000, crSvgid := 1000 }

/-- `permit nopass alice` -/
def permitAlice : Rule where
  action := .permit
  options := nopass
  ident := CString.ofString "alice"
  target := none
  cmd := none
  cmdargs := none
  envlist := none
  grplist := none
  chroot := none

/-- The call of `/bin/cat` with the given option flags and user. -/
def catAs (flags : UInt32) (user : String) : SysPfexecveArgs :=
  { catCall ["cat"] with opts := some ⟨flags, CString.ofString user⟩ }

def catRequest (flags : UInt32) (user : String) : PfexecReq :=
  fillMbuf 1 aliceCreds (catAs flags user)

theorem only_rule_is_last {req : PfexecReq} (hit : matchRule twoAccounts req permitAlice = true) :
    IsLast (matchRule twoAccounts req) [permitAlice] permitAlice :=
  ⟨[], [], rfl, hit, by simp⟩

theorem root_request_decided :
    LastRuleDecides twoAccounts [permitAlice] (catRequest pfexecveUser "root") := by
  apply (last_rule_decides_iff twoAccounts [permitAlice] (catRequest pfexecveUser "root")
    (by decide)).mpr
  intro rule _ _
  unfold HasPasswdEntry
  decide

/-- A granting rule and a numeric user without a passwd entry: the daemon dies. -/
theorem unknown_uid_crashes :
    wellFormed (catRequest pfexecveUser "12345") = true ∧
      (∃ rule, IsLast (matchRule twoAccounts (catRequest pfexecveUser "12345"))
        [permitAlice] rule ∧ Grants rule) ∧
      ¬ Granted (processRequest twoAccounts [permitAlice] (catRequest pfexecveUser "12345")
        PfexecResp.zero) ∧
      onClientReadable twoAccounts [permitAlice] (.request (catRequest pfexecveUser "12345")) true =
        .crashed := by
  have crash : processRequest twoAccounts [permitAlice] (catRequest pfexecveUser "12345")
      PfexecResp.zero = none := by rfl
  refine ⟨by decide, ⟨permitAlice, only_rule_is_last (by decide), rfl, by decide⟩, ?_, ?_⟩
  · rintro ⟨rc, resp, outcome, _⟩
    rw [crash] at outcome
    cases outcome
  · simp only [onClientReadable, crash]

/-- A user name that does not resolve is granted root. Without `PFEXECVE_USER`
the user is alice's choice while the log names root. -/
theorem unresolved_user_granted :
    (∃ resp, processRequest twoAccounts [permitAlice] (catRequest pfexecveUser "ghost")
        PfexecResp.zero = some (0, resp) ∧ resp.pfrUid = 0) ∧
      parseuid twoAccounts (askedUser (catRequest pfexecveUser "ghost")) = (-1, 0) ∧
      (∃ resp, processRequest twoAccounts [permitAlice] (catRequest 0 "alice")
        PfexecResp.zero = some (0, resp) ∧ resp.pfrUid = 1000) ∧
      parseuid twoAccounts (askedUser (catRequest 0 "alice")) = (0, 0) :=
  ⟨⟨_, rfl, rfl⟩, by decide, ⟨_, rfl, rfl⟩, by decide⟩

end Cprogramming.Pfexec.Decision
