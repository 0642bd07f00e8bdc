import Cprogramming.Pfexec.Decision

/-!
# The limits the two ends check

Which requests of the kernel pass the validation of the daemon and which
responses of the daemon pass the validation of the kernel. Both ends refuse a
list of `NGROUPS_MAX` groups, although credentials and rules may have that many
and `pfexec_escilate` would take them.
-/

namespace Cprogramming.Pfexec.MessageLimits

open Library.CStrings Library.MachineWords Library.PackedLayout
open Protocol FillMbuf AreaLayout EnvironmentArea Rules Environment Daemon CommandMatch Decision

set_option autoImplicit false

/-! ## Requests -/

structure DaemonLimits (uap : SysPfexecveArgs) : Prop where
  path : ∃ path, uap.path = some path ∧ 0 < path.bytes.length ∧ path.bytes.length < pathMax
  user : ∀ opts, uap.opts = some opts → opts.pfoUser.bytes.length < loginNameMax ∧
    (hasBit opts.pfoFlags pfexecveUser = true → 0 < opts.pfoUser.bytes.length)
  argc : (uap.argp.getD []).length < refMax
  args : (sizes (uap.argp.getD [])).sum ≤ argMax
  envc : (uap.envp.getD []).length < refMax
  envs : (sizes (uap.envp.getD [])).sum ≤ argMax

def requestFlags (uap : SysPfexecveArgs) : UInt32 := (uap.opts.map PfexecveOpts.pfoFlags).getD 0

/-- No string starts at the exact middle of its area. -/
def MiddleFree (strings : List CString) : Prop :=
  ∀ index, index < strings.length → 2 * offsetAt (sizes strings) index ≠ argMax

theorem fill_area_refs_good_iff {strings : List CString} (room : strings.length < refMax)
    (fits : (sizes strings).sum ≤ argMax) :
    anyBadRef (fillArea strings).refAt (fillArea strings).argc = false ↔ MiddleFree strings := by
  have small := arg_max_small
  have roomy : strings.length ≤ refMax := by omega
  rw [any_bad_ref_false_iff, fill_area_argc strings fits roomy]
  constructor
  · intro good index bound middle
    obtain ⟨offset, ref, _⟩ := entry_stuck strings roomy index bound
      ⟨index, Nat.le_refl index, middle⟩
    have sum := good index bound
    rw [ref] at sum
    dsimp only at sum
    omega
  · intro free index bound
    have entry : strings[index]? = some strings[index] := List.getElem?_eq_getElem bound
    have unstuck : ¬ Stuck strings index := by
      intro stuck
      obtain ⟨earlier, early, middle⟩ := stuck
      exact free earlier (by omega) middle
    obtain ⟨length, inside, _⟩ := (entry_kept strings fits roomy index _ entry unstuck).1
    rw [length]
    exact inside

theorem request_user_taken (pid : UInt32) (creds : Ucred) {uap : SysPfexecveArgs}
    (limits : DaemonLimits uap) : ¬ (hasBit (requestFlags uap) pfexecveUser = true ∧
      ((fillMbuf pid creds uap).reqUser.bytes.length < 1 ∨
        loginNameMax ≤ (fillMbuf pid creds uap).reqUser.bytes.length)) := by
  rintro ⟨asked, bad⟩
  cases given : uap.opts with
  | none =>
    simp only [requestFlags, given, Option.map_none, Option.getD_none] at asked
    exact absurd asked (by decide)
  | some opts =>
    obtain ⟨fitsUser, named⟩ := limits.user opts given
    simp only [requestFlags, given, Option.map_some, Option.getD_some] at asked
    rw [request_user pid creds uap opts given fitsUser] at bad
    have positive := named asked
    omega

theorem request_well_formed_iff (pid : UInt32) (creds : Ucred) {uap : SysPfexecveArgs}
    (limits : DaemonLimits uap) : wellFormed (fillMbuf pid creds uap) = true ↔
      creds.crNgroups < ngroupsMax ∧
        hasBit (requestFlags uap) (~~~ pfexecveAllFlags) = false ∧
        MiddleFree (uap.argp.getD []) ∧ MiddleFree (uap.envp.getD []) := by
  obtain ⟨path, passed, nonempty, short⟩ := limits.path
  have pathRead := request_path pid creds uap path passed short
  have groups : (fillMbuf pid creds uap).pfrNgroups = creds.crNgroups := rfl
  have flags : (fillMbuf pid creds uap).pfrReqFlags = requestFlags uap := rfl
  have argRefs : anyBadRef (fillMbuf pid creds uap).pfrArgp (fillMbuf pid creds uap).pfrArgc =
      anyBadRef (fillArea (uap.argp.getD [])).refAt (fillArea (uap.argp.getD [])).argc := rfl
  have envRefs : anyBadRef (fillMbuf pid creds uap).pfrEnvp (fillMbuf pid creds uap).pfrEnvc =
      anyBadRef (fillArea (uap.envp.getD [])).refAt (fillArea (uap.envp.getD [])).argc := rfl
  have argc : (fillMbuf pid creds uap).pfrArgc < refMax := by
    have count : (fillMbuf pid creds uap).pfrArgc = (uap.argp.getD []).length :=
      fill_area_argc _ limits.args (Nat.le_of_lt limits.argc)
    rw [count]
    exact limits.argc
  have envc : (fillMbuf pid creds uap).pfrEnvc < refMax := by
    have count : (fillMbuf pid creds uap).pfrEnvc = (uap.envp.getD []).length :=
      fill_area_argc _ limits.envs (Nat.le_of_lt limits.envc)
    rw [count]
    exact limits.envc
  have userOk := request_user_taken pid creds limits
  unfold wellFormed
  rw [groups, flags, pathRead, argRefs, envRefs]
  rw [if_neg userOk, if_neg (show ¬ (path.bytes.length < 1 ∨ pathMax ≤ path.bytes.length) by omega),
    if_neg (show ¬ (refMax ≤ (fillMbuf pid creds uap).pfrArgc ∨
      refMax ≤ (fillMbuf pid creds uap).pfrEnvc) by omega)]
  rw [← fill_area_refs_good_iff limits.argc limits.args,
    ← fill_area_refs_good_iff limits.envc limits.envs]
  by_cases many : ngroupsMax ≤ creds.crNgroups
  · simp [many, Nat.not_lt.mpr many]
  · have few : creds.crNgroups < ngroupsMax := by omega
    rw [if_neg many]
    cases hasBit (requestFlags uap) (~~~ pfexecveAllFlags) <;>
      cases anyBadRef (fillArea (uap.argp.getD [])).refAt (fillArea (uap.argp.getD [])).argc <;>
      simp [few]

/-! ## Responses -/

variable (accounts : Accounts) (strings : List CString) (state : AreaRevert)

/-- The bytes of an environment as the daemon's `int` counters see them. -/
def countedBytes (strings : List CString) : Nat :=
  (strings.map fun string => string.size % 2 ^ 32).sum

theorem running_below {total : Nat} (below : total % 2 ^ 32 < argMax) : Running total := by
  have small := arg_max_small
  unfold Running int32
  omega

theorem revert_loop_keeps_refs (ref : PfexecArg) (member : ref ∈ state.refs) :
    ref ∈ (revertLoop strings state).refs := by
  induction strings generalizing state with
  | nil => exact member
  | cons string rest ih =>
    rw [revertLoop]
    split_ifs
    · apply ih
      simp [revertOne, member]
    · exact member

theorem revert_loop_counts_refs (counted : state.refs.length = state.envc) :
    (revertLoop strings state).refs.length = (revertLoop strings state).envc := by
  induction strings generalizing state with
  | nil => exact counted
  | cons string rest ih =>
    rw [revertLoop]
    split_ifs
    · apply ih
      simp [revertOne, counted]
    · exact counted

theorem revert_loop_accepted_iff (total : Nat) (tracks : Tracks state total)
    (room : state.envc ≤ refMax) (below : total % 2 ^ 32 < argMax) :
    ((revertLoop strings state).envc < refMax ∧
        ∀ ref ∈ (revertLoop strings state).refs, ref.pfaOffset + ref.pfaLen < argMax) ↔
      (∀ ref ∈ state.refs, ref.pfaOffset + ref.pfaLen < argMax) ∧
        state.envc + strings.length < refMax ∧ total % 2 ^ 32 + countedBytes strings < argMax := by
  have small := arg_max_small
  induction strings generalizing state total with
  | nil =>
    simp only [revertLoop, countedBytes, List.map_nil, List.sum_nil, List.length_nil,
      Nat.add_zero, below, and_true]
    exact and_comm
  | cons string rest ih =>
    have counted : countedBytes (string :: rest) = string.size % 2 ^ 32 + countedBytes rest := by
      simp [countedBytes]
    rw [counted, List.length_cons]
    by_cases free : state.envc < refMax
    · have guard : state.envc < refMax ∧ 0 < state.max := by
        rw [tracks.2]
        exact ⟨free, running_below below⟩
      rw [revertLoop, if_pos guard]
      have step := revert_one_tracked state total string tracks
      by_cases inside : total % 2 ^ 32 + string.size % 2 ^ 32 < argMax
      · have next : (total + string.size) % 2 ^ 32 =
            total % 2 ^ 32 + string.size % 2 ^ 32 := by omega
        have later := ih (revertOne state string) (total + string.size)
          (revert_one_tracks state total string tracks) (by rw [step]; dsimp only; omega)
          (by omega)
        refine later.trans ?_
        rw [next, step]
        simp only [List.mem_append, List.mem_singleton, or_imp, forall_and, forall_eq, inside,
          and_true]
        rw [Nat.add_assoc, Nat.add_assoc, Nat.add_comm 1 rest.length]
      · have kept : ⟨total % 2 ^ 32, string.size % 2 ^ 32⟩ ∈
            (revertLoop rest (revertOne state string)).refs := by
          apply revert_loop_keeps_refs
          rw [step]
          simp
        constructor
        · rintro ⟨_, good⟩
          exact absurd (good _ kept) inside
        · rintro ⟨_, _, total⟩
          omega
    · rw [revertLoop, if_neg (fun guard => free guard.1)]
      constructor
      · rintro ⟨envc, _⟩
        exact absurd envc free
      · rintro ⟨_, length, _⟩
        omega

theorem environment_accepted_iff (resp : PfexecResp) :
    ((envareaDestroyRevert strings resp).pfrEnvc < refMax ∧
        anyBadRef (envareaDestroyRevert strings resp).pfrEnvp
          (envareaDestroyRevert strings resp).pfrEnvc = false) ↔
      strings.length < refMax ∧ countedBytes strings < argMax := by
  have positive := arg_max_positive
  have counted := revert_loop_counts_refs strings AreaRevert.start rfl
  have loop := revert_loop_accepted_iff strings AreaRevert.start 0 tracks_start
    (Nat.zero_le _) positive
  have start : AreaRevert.start.refs = [] := rfl
  have envc : AreaRevert.start.envc = 0 := rfl
  rw [start, envc, Nat.zero_mod, Nat.zero_add, Nat.zero_add] at loop
  simp only [List.not_mem_nil, IsEmpty.forall_iff, implies_true, true_and] at loop
  rw [← loop, any_bad_ref_false_iff]
  simp only [envareaDestroyRevert, revertArea]
  apply and_congr_right
  intro _
  constructor
  · intro good ref member
    obtain ⟨index, bound, here⟩ := List.getElem_of_mem member
    have entry := good index (by omega)
    rwa [List.getD_eq_getElem _ _ bound, here] at entry
  · intro good index bound
    rw [← counted] at bound
    rw [List.getD_eq_getElem _ _ bound]
    exact good _ (List.getElem_mem bound)

/-! ## Group lists -/

/-- The number of groups the rule and the request leave in the response. -/
def chosenGroups (req : PfexecReq) (rule : Rule) : Nat :=
  if hasBit rule.options keepgrp then min req.pfrNgroups ngroupsMax
  else
    match rule.grplist with
    | some names => min names.length ngroupsMax
    | none => 0

/-- With none left the target's own groups are taken, up to one too many. -/
def groupCount (accounts : Accounts) (req : PfexecReq) (rule : Rule) (targpw : Passwd) : Nat :=
  if chosenGroups req rule = 0 then
    min (ngroupsMax + 1) (accounts.getgrouplist targpw.pwName targpw.pwGid).length
  else chosenGroups req rule

theorem get_groups_loop_ngroups (cnt : Nat) (previous : Option UInt32) (gids : List UInt32)
    (resp : PfexecResp) :
    (getGroupsLoop cnt previous gids resp).pfrNgroups = cnt + gids.length := by
  induction gids generalizing cnt previous resp with
  | nil => rfl
  | cons gid rest ih =>
    rw [getGroupsLoop, ih, List.length_cons]
    omega

theorem grplist_loop_ngroups (gs : Nat) (names : List CString) (resp : PfexecResp)
    (room : gs ≤ ngroupsMax) :
    (grplistLoop accounts gs names resp).pfrNgroups = min (gs + names.length) ngroupsMax := by
  induction names generalizing gs resp with
  | nil => simp [grplistLoop, room]
  | cons name rest ih =>
    rw [grplistLoop, List.length_cons]
    split_ifs with free
    · rw [ih (gs + 1) _ free]
      omega
    · dsimp only
      omega

theorem kept_groups_ngroups (req : PfexecReq) (rule : Rule) (resp : PfexecResp)
    (cleared : resp.pfrNgroups = 0) :
    (keepGroups req rule (applyGrplist accounts rule resp)).pfrNgroups = chosenGroups req rule := by
  unfold keepGroups chosenGroups
  split_ifs
  · rfl
  · unfold applyGrplist
    cases rule.grplist with
    | none => exact cleared
    | some names =>
      have count := grplist_loop_ngroups accounts 0 names resp (Nat.zero_le _)
      rwa [Nat.zero_add] at count

theorem craft_response_ngroups {accounts : Accounts} {req : PfexecReq} {rule : Rule}
    {targpw : Passwd} {filled : PfexecResp}
    (found : accounts.getpwuidR (requestTarget accounts req) = some targpw)
    (crafted : craftResponse accounts req rule PfexecResp.zero = some filled) :
    filled.pfrNgroups = groupCount accounts req rule targpw := by
  have chroots (resp : PfexecResp) :
      (applyChrootOption rule resp).pfrNgroups = resp.pfrNgroups := by
    unfold applyChrootOption
    split_ifs <;> rfl
  simp only [craftResponse, found, Option.some.injEq] at crafted
  rw [← crafted, chroots]
  have kept := kept_groups_ngroups accounts req rule
    { envareaDestroyRevert (prepenv rule targpw (envareaConvert req))
        { PfexecResp.zero with pfrFlags := PfexecResp.zero.pfrFlags ||| pfrespUid } with
      pfrUid := targpw.pwUid, pfrGid := targpw.pwGid } rfl
  unfold defaultGroups groupCount
  rw [kept]
  split_ifs
  · simp only [getGroups]
    rw [get_groups_loop_ngroups, Nat.zero_add, List.length_take]
  · exact kept

theorem response_accepted_iff {accounts : Accounts} {req : PfexecReq} {rule : Rule}
    {targpw : Passwd} {filled : PfexecResp}
    (found : accounts.getpwuidR (requestTarget accounts req) = some targpw)
    (crafted : craftResponse accounts req rule PfexecResp.zero = some filled) :
    processResponse filled ≠ einval ↔
      groupCount accounts req rule targpw < ngroupsMax ∧
        (prepenv rule targpw (envareaConvert req)).length < refMax ∧
        countedBytes (prepenv rule targpw (envareaConvert req)) < argMax := by
  obtain ⟨entry, same, frame⟩ := craft_response_frame accounts req rule _ filled crafted
  obtain rfl : targpw = entry := Option.some.inj (found.symm.trans same)
  have accepted := environment_accepted_iff (prepenv rule targpw (envareaConvert req))
    PfexecResp.zero
  have errno : filled.pfrErrno = 0 := frame.errno
  rw [← accepted, ← craft_response_ngroups found crafted]
  have envc := frame.envc
  have envp := frame.envp
  dsimp only at envc envp
  rw [← envc, ← envp]
  unfold processResponse
  rw [errno]
  by_cases many : ngroupsMax ≤ filled.pfrNgroups
  · simp [many, Nat.not_lt.mpr many]
  · by_cases large : refMax ≤ filled.pfrEnvc
    · simp [many, large, Nat.not_lt.mpr large]
    · rw [if_neg many, if_neg large]
      simp only [Nat.lt_of_not_le many, Nat.lt_of_not_le large, true_and]
      cases anyBadRef filled.pfrEnvp filled.pfrEnvc with
      | false => simp [int32, einval]
      | true => simp

theorem process_request_not_einval_iff (rules : List Rule) (req : PfexecReq) :
    (∀ left, processRequest accounts rules req PfexecResp.zero ≠ some (einval, left)) ↔
      wellFormed req = true := by
  constructor
  · intro taken
    by_contra malformed
    exact taken PfexecResp.zero (by rw [processRequest, if_neg malformed])
  · intro formed left outcome
    rw [process_request_well_formed accounts rules req formed] at outcome
    exact absurd (decide_code accounts req PfexecResp.zero _ _ _ outcome) (by decide)

/-- The daemon takes a request within its other limits exactly when the
credentials have fewer than `NGROUPS_MAX` groups, the flags are known and neither
area is hit in its middle; the kernel takes a response exactly when it has fewer
than `NGROUPS_MAX` groups and its environment fits. -/
theorem message_limits_iff (pid : UInt32) (creds : Ucred) (uap : SysPfexecveArgs)
    (limits : DaemonLimits uap) (accounts : Accounts) (rules : List Rule) (req : PfexecReq)
    (rule : Rule) :
    ((∀ left, processRequest accounts rules (fillMbuf pid creds uap) PfexecResp.zero ≠
          some (einval, left)) ↔ creds.crNgroups < ngroupsMax ∧
          hasBit (requestFlags uap) (~~~ pfexecveAllFlags) = false ∧
          MiddleFree (uap.argp.getD []) ∧ MiddleFree (uap.envp.getD [])) ∧
      ((∀ filled, craftResponse accounts req rule PfexecResp.zero = some filled →
          processResponse filled ≠ einval) ↔
        ∀ targpw, accounts.getpwuidR (requestTarget accounts req) = some targpw →
          groupCount accounts req rule targpw < ngroupsMax ∧
            (prepenv rule targpw (envareaConvert req)).length < refMax ∧
            countedBytes (prepenv rule targpw (envareaConvert req)) < argMax) := by
  constructor
  · rw [process_request_not_einval_iff]
    exact request_well_formed_iff pid creds limits
  · constructor
    · intro taken targpw found
      have answers : craftResponse accounts req rule PfexecResp.zero ≠ none := by
        intro missing
        rw [craft_response_eq_none_iff, found] at missing
        cases missing
      obtain ⟨filled, crafted⟩ := Option.ne_none_iff_exists'.mp answers
      exact (response_accepted_iff found crafted).mp (taken filled crafted)
    · intro bounded filled crafted
      obtain ⟨targpw, found, _⟩ := craft_response_frame accounts req rule _ filled crafted
      exact (response_accepted_iff found crafted).mpr (bounded targpw found)

theorem cat_as_root_limits : DaemonLimits (catAs pfexecveUser "root") where
  path := ⟨CString.ofString "/bin/cat", rfl, by decide, by decide⟩
  user := by
    intro opts given
    obtain rfl := Option.some.inj given
    decide
  argc := by decide
  args := by decide
  envc := by decide
  envs := by decide

theorem cat_as_root_taken :
    (∀ left, processRequest twoAccounts [permitAlice] (catRequest pfexecveUser "root")
        PfexecResp.zero ≠ some (einval, left)) ∧
      ∀ filled, craftResponse twoAccounts (catRequest pfexecveUser "root") permitAlice
        PfexecResp.zero = some filled → processResponse filled ≠ einval := by
  have middle (strings : List CString) (total : 2 * (sizes strings).sum < argMax) :
      MiddleFree strings := by
    intro index _ half
    have bound := offset_le_sum (sizes strings) index
    omega
  have both := message_limits_iff 1 aliceCreds (catAs pfexecveUser "root") cat_as_root_limits twoAccounts
    [permitAlice] (catRequest pfexecveUser "root") permitAlice
  refine ⟨both.1.mpr ⟨by decide, by decide, middle _ (by decide), middle _ (by decide)⟩,
    both.2.mpr ?_⟩
  intro targpw found
  obtain rfl : rootEntry = targpw := Option.some.inj found
  exact ⟨by decide, by decide, by decide⟩

def sixteenGroups : Ucred :=
  ⟨1000, 1000, 1000, 1000, 1000, 1000, 16, fun index => UInt32.ofNat index, by decide⟩

/-- `permit nopass setgroups { 1 ... 16 } alice`, every group given by number. -/
def setSixteenGroups : Rule :=
  { permitAlice with
    grplist := some (["1", "2", "3", "4", "5", "6", "7", "8", "9", "10", "11", "12", "13", "14",
      "15", "16"].map CString.ofString) }

theorem sixteen_groups_rejected :
    (∃ left, processRequest twoAccounts [permitAlice] (fillMbuf 1 sixteenGroups (catAs pfexecveUser "root"))
        PfexecResp.zero = some (einval, left)) ∧
      ∃ filled, craftResponse twoAccounts (catRequest pfexecveUser "root") setSixteenGroups
        PfexecResp.zero = some filled ∧ processResponse filled = einval :=
  ⟨⟨_, rfl⟩, ⟨_, rfl, rfl⟩⟩

end Cprogramming.Pfexec.MessageLimits
