import Cprogramming.Pfexec.MessageLimits

/-!
# The groups a response grants

`craft_response` fills `pfr_groups` in one of three ways: from the names of a
`setgroups` list, from the request under `keepgroups`, or from the groups of the
target through `get_groups`. The first and the last use the position in their input as
the position in the array and count every input, so what they skip leaves a zero
that is granted with the rest. The last is also taken when the others left no group.
-/

namespace Cprogramming.Pfexec.Groups

open Library.CStrings
open Protocol FillMbuf Rules Environment EnvironmentArea Daemon Decision MessageLimits

set_option autoImplicit false

def groupList (resp : PfexecResp) : List UInt32 :=
  (List.range resp.pfrNgroups).map resp.pfrGroups

def requestGroups (req : PfexecReq) : List UInt32 :=
  (List.range req.pfrNgroups).map req.pfrGroups

/-! ## Filling the array from an index on -/

variable (accounts : Accounts) (cnt : Nat) (previous : Option UInt32) (gids : List UInt32)
  (start : Nat) (gid : UInt32)

variable {resp : PfexecResp}

/-- From `start` on the array holds the values, below `start` it is as it was. -/
def FilledFrom (before : PfexecResp) (start : Nat) (values : List UInt32) (after : PfexecResp) :
    Prop :=
  ∀ index, after.pfrGroups index =
    if index < start then before.pfrGroups index else values.getD (index - start) 0

def ClearFrom (start : Nat) (resp : PfexecResp) : Prop :=
  ∀ index, start ≤ index → resp.pfrGroups index = 0

theorem filled_from_nil {start : Nat} {after : PfexecResp} (clear : ClearFrom start resp)
    (same : after.pfrGroups = resp.pfrGroups) : FilledFrom resp start [] after := by
  intro index
  rw [same]
  split_ifs with below
  · rfl
  · rw [List.getD_nil]
    exact clear index (Nat.le_of_not_lt below)

theorem filled_from_cons (value : UInt32) (values : List UInt32) (before next after : PfexecResp)
    (here : next.pfrGroups start = value)
    (elsewhere : ∀ index, index < start → next.pfrGroups index = before.pfrGroups index)
    (rest : FilledFrom next (start + 1) values after) :
    FilledFrom before start (value :: values) after := by
  intro index
  rw [rest index]
  by_cases below : index < start
  · rw [if_pos below, if_pos (by omega), elsewhere index below]
  · by_cases equal : index = start
    · rw [equal, if_pos (by omega), if_neg (Nat.lt_irrefl start), Nat.sub_self, here,
        List.getD_cons_zero]
    · obtain ⟨offset, position⟩ : ∃ offset, index - start = offset + 1 := ⟨index - start - 1, by omega⟩
      rw [if_neg (by omega), if_neg below, position, List.getD_cons_succ]
      congr 1
      omega

theorem filled_group_list (before after : PfexecResp) (values : List UInt32)
    (filled : FilledFrom before 0 values after) (count : after.pfrNgroups = values.length) :
    groupList after = values := by
  apply List.ext_getElem
  · rw [groupList, List.length_map, List.length_range, count]
  · intro index _ bound
    simp only [groupList, List.getElem_map, List.getElem_range]
    rw [filled index, if_neg (Nat.not_lt_zero index), Nat.sub_zero, List.getD_eq_getElem _ _ bound]

theorem set_group_here (resp : PfexecResp) (index : Nat) (gid : UInt32) :
    (setGroup resp index gid).pfrGroups index = gid := by
  exact if_pos rfl

theorem set_group_elsewhere (resp : PfexecResp) (index other : Nat) (gid : UInt32)
    (apart : other ≠ index) : (setGroup resp index gid).pfrGroups other = resp.pfrGroups other := by
  exact if_neg apart

theorem clear_from_set (resp : PfexecResp) (clear : ClearFrom start resp) :
    ClearFrom (start + 1) (setGroup resp start gid) := by
  intro index above
  rw [set_group_elsewhere resp start index gid (by omega)]
  exact clear index (by omega)

theorem clear_from_later (resp : PfexecResp) (clear : ClearFrom start resp) :
    ClearFrom (start + 1) resp := by
  intro index above
  exact clear index (by omega)

/-! ## The groups of the target -/

/-- What `get_groups` leaves in the array: a repetition is a zero. -/
def storedGroups : Option UInt32 → List UInt32 → List UInt32
  | _, [] => []
  | previous, gid :: rest =>
    (if previous = some gid then 0 else gid) :: storedGroups (some gid) rest

/-- The stores of `get_groups`, each with its index. -/
def groupStores : Nat → Option UInt32 → List UInt32 → List (Nat × UInt32)
  | _, _, [] => []
  | cnt, previous, gid :: rest =>
    if previous = some gid then groupStores (cnt + 1) (some gid) rest
    else (cnt, gid) :: groupStores (cnt + 1) (some gid) rest

theorem get_groups_loop_stores (resp : PfexecResp) : getGroupsLoop cnt previous gids resp =
      { (groupStores cnt previous gids).foldl (fun left store => setGroup left store.1 store.2)
          resp with pfrNgroups := cnt + gids.length } := by
  induction gids generalizing cnt previous resp with
  | nil => rfl
  | cons gid rest ih =>
    rw [getGroupsLoop, ih, groupStores, List.length_cons, Nat.add_right_comm, Nat.add_assoc]
    split_ifs
    · rfl
    · rfl

theorem get_groups_loop_filled (resp : PfexecResp) (clear : ClearFrom cnt resp) :
    FilledFrom resp cnt (storedGroups previous gids) (getGroupsLoop cnt previous gids resp) := by
  induction gids generalizing cnt previous resp with
  | nil => exact filled_from_nil clear rfl
  | cons gid rest ih =>
    rw [getGroupsLoop, storedGroups]
    split_ifs with repeated
    · apply filled_from_cons cnt 0 _ resp resp _ (clear cnt (Nat.le_refl cnt))
      · intro index _
        rfl
      · exact ih (cnt + 1) (some gid) resp (clear_from_later cnt resp clear)
    · apply filled_from_cons cnt gid _ resp (setGroup resp cnt gid) _ (set_group_here resp cnt gid)
      · intro index below
        exact set_group_elsewhere resp cnt index gid (Nat.ne_of_lt below)
      · exact ih (cnt + 1) (some gid) _ (clear_from_set cnt gid resp clear)

theorem stored_groups_length : (storedGroups previous gids).length = gids.length := by
  induction gids generalizing previous with
  | nil => rfl
  | cons gid rest ih => rw [storedGroups, List.length_cons, List.length_cons, ih]

theorem mem_stored_groups {gids : List UInt32} {gid : UInt32} (member : gid ∈ gids) :
    previous = some gid ∨ gid ∈ storedGroups previous gids := by
  induction gids generalizing previous with
  | nil => exact absurd member List.not_mem_nil
  | cons first rest ih =>
    rw [storedGroups]
    by_cases here : gid = first
    · subst here
      by_cases repeated : previous = some gid
      · exact Or.inl repeated
      · rw [if_neg repeated]
        exact Or.inr List.mem_cons_self
    · have inside : gid ∈ rest := List.mem_of_ne_of_mem here member
      rcases ih (some first) inside with again | stored
      · exact absurd (Option.some.inj again).symm here
      · exact Or.inr (List.mem_cons_of_mem _ stored)

theorem stored_groups_sound (stored : gid ∈ storedGroups previous gids) : gid = 0 ∨ gid ∈ gids := by
  induction gids generalizing previous with
  | nil => exact absurd stored List.not_mem_nil
  | cons first rest ih =>
    rw [storedGroups] at stored
    rcases List.mem_cons.mp stored with here | later
    · split_ifs at here with repeated
      · exact Or.inl here
      · exact Or.inr (List.mem_cons.mpr (Or.inl here))
    · rcases ih (some first) later with zero | inside
      · exact Or.inl zero
      · exact Or.inr (List.mem_cons_of_mem first inside)

/-- Two equal neighbours leave a zero, and only they do. -/
theorem stored_groups_of_chain (gids : List UInt32) :
    (gid :: gids).IsChain (· ≠ ·) → storedGroups (some gid) gids = gids := by
  induction gids generalizing gid with
  | nil => exact fun _ => rfl
  | cons first rest ih =>
    intro chain
    have different := (List.isChain_cons_cons.mp chain).1
    rw [storedGroups, if_neg (fun same => different (Option.some.inj same)),
      ih first (List.isChain_cons_cons.mp chain).2]

theorem zero_of_not_chain (gids : List UInt32) :
    ¬ (gid :: gids).IsChain (· ≠ ·) → 0 ∈ storedGroups (some gid) gids := by
  induction gids generalizing gid with
  | nil => exact fun broken => absurd (List.IsChain.singleton gid) broken
  | cons first rest ih =>
    intro broken
    rw [storedGroups]
    by_cases same : gid = first
    · rw [if_pos (congrArg some same)]
      exact List.mem_cons_self
    · apply List.mem_cons_of_mem
      apply ih first
      intro chain
      exact broken (List.isChain_cons_cons.mpr ⟨same, chain⟩)

theorem stored_groups_subset_iff :
    (∀ gid ∈ storedGroups none gids, gid ∈ gids) ↔ gids.IsChain (· ≠ ·) ∨ 0 ∈ gids := by
  constructor
  · intro sound
    by_cases chain : gids.IsChain (· ≠ ·)
    · exact Or.inl chain
    · apply Or.inr
      apply sound
      cases gids with
      | nil => exact absurd List.IsChain.nil chain
      | cons first rest =>
        rw [storedGroups]
        exact List.mem_cons_of_mem _ (zero_of_not_chain first rest chain)
  · intro either gid stored
    rcases stored_groups_sound none gids gid stored with zero | inside
    · rcases either with chain | present
      · cases gids with
        | nil => exact absurd stored List.not_mem_nil
        | cons first rest =>
          rw [storedGroups, if_neg (Option.some_ne_none first).symm,
            stored_groups_of_chain first rest chain] at stored
          exact stored
      · rw [zero]
        exact present
    · exact inside

/-- The gids `getgrouplist` gives for an array with one entry more than the
response has. -/
def targetGids (accounts : Accounts) (pw : Passwd) : List UInt32 :=
  (accounts.getgrouplist pw.pwName pw.pwGid).take (ngroupsMax + 1)

theorem get_groups_list (pw : Passwd) (resp : PfexecResp) (clear : ClearFrom 0 resp) :
    groupList (getGroups accounts pw resp) = storedGroups none (targetGids accounts pw) := by
  apply filled_group_list resp
  · exact get_groups_loop_filled 0 none (targetGids accounts pw) resp clear
  · rw [getGroups, get_groups_loop_ngroups, stored_groups_length, Nat.zero_add, targetGids]

structure DefaultGroups (accounts : Accounts) (pw : Passwd) : Prop where
  inside : ∀ store ∈ groupStores 0 none (targetGids accounts pw), store.1 < ngroupsMax
  count : (getGroups accounts pw PfexecResp.zero).pfrNgroups ≤ ngroupsMax
  complete : ∀ gid ∈ (targetGids accounts pw).take ngroupsMax,
    gid ∈ groupList (getGroups accounts pw PfexecResp.zero)
  sound : ∀ gid ∈ groupList (getGroups accounts pw PfexecResp.zero), gid ∈ targetGids accounts pw

theorem group_stores_bound (store : Nat × UInt32) (member : store ∈ groupStores cnt previous gids) :
    store.1 < cnt + gids.length := by
  induction gids generalizing cnt previous with
  | nil => exact absurd member List.not_mem_nil
  | cons gid rest ih =>
    rw [groupStores] at member
    rw [List.length_cons]
    split_ifs at member with repeated
    · have later := ih (cnt + 1) (some gid) member
      omega
    · rcases List.mem_cons.mp member with rfl | inside
      · dsimp only
        omega
      · have later := ih (cnt + 1) (some gid) inside
        omega

theorem default_groups_iff (accounts : Accounts) (pw : Passwd) :
    DefaultGroups accounts pw ↔
      (targetGids accounts pw).length ≤ ngroupsMax ∧
        ((targetGids accounts pw).IsChain (· ≠ ·) ∨ 0 ∈ targetGids accounts pw) := by
  have count : (getGroups accounts pw PfexecResp.zero).pfrNgroups =
      (targetGids accounts pw).length := by
    rw [getGroups, get_groups_loop_ngroups, Nat.zero_add, targetGids]
  have groups := get_groups_list accounts pw PfexecResp.zero (fun _ _ => rfl)
  constructor
  · intro default
    have bound := default.count
    rw [count] at bound
    have sound := default.sound
    rw [groups] at sound
    exact ⟨bound, (stored_groups_subset_iff _).mp sound⟩
  · intro condition
    constructor
    · intro store member
      have bound := group_stores_bound 0 none _ store member
      omega
    · rw [count]
      exact condition.1
    · intro gid member
      rw [groups]
      rcases mem_stored_groups none (List.mem_of_mem_take member) with impossible | stored
      · exact absurd impossible.symm (Option.some_ne_none gid)
      · exact stored
    · rw [groups]
      exact (stored_groups_subset_iff _).mpr condition.2

/-- The accounts of the examples with a group list of root. -/
def groupsOfRoot (gids : List UInt32) : Accounts := { twoAccounts with getgrouplist := fun _ _ => gids }

/-- A gid that comes twice in a row grants group 0. With seventeen groups the last is
stored behind the array. -/
theorem repeated_gid_grants_zero :
    (groupList (getGroups (groupsOfRoot [100, 100, 7]) rootEntry PfexecResp.zero) = [100, 0, 7] ∧
        ¬ DefaultGroups (groupsOfRoot [100, 100, 7]) rootEntry) ∧
      (16, 17) ∈ groupStores 0 none (targetGids
        (groupsOfRoot [1, 2, 3, 4, 5, 6, 7, 8, 9, 10, 11, 12, 13, 14, 15, 16, 17]) rootEntry) ∧
      ¬ DefaultGroups (groupsOfRoot [1, 2, 3, 4, 5, 6, 7, 8, 9, 10, 11, 12, 13, 14, 15, 16, 17])
        rootEntry := by
  have stored : (16, 17) ∈ groupStores 0 none (targetGids
      (groupsOfRoot [1, 2, 3, 4, 5, 6, 7, 8, 9, 10, 11, 12, 13, 14, 15, 16, 17]) rootEntry) := by
    decide
  refine ⟨⟨by decide, ?_⟩, stored, ?_⟩
  · intro default
    exact absurd (default.sound 0 (by decide)) (by decide)
  · intro default
    exact absurd (default.inside (16, 17) stored) (by decide)

/-! ## The groups of a crafted response -/

variable {req : PfexecReq} {rule : Rule}

/-- The fields of a response that the steps for the groups are about. -/
structure SameGroups (before after : PfexecResp) : Prop where
  gid : after.pfrGid = before.pfrGid
  ngroups : after.pfrNgroups = before.pfrNgroups
  groups : after.pfrGroups = before.pfrGroups

theorem same_group_list {before after : PfexecResp} (same : SameGroups before after) :
    groupList after = groupList before := by
  rw [groupList, same.ngroups, same.groups, groupList]

theorem apply_chroot_option_groups (rule : Rule) (resp : PfexecResp) :
    SameGroups resp (applyChrootOption rule resp) := by
  unfold applyChrootOption
  split_ifs
  · exact ⟨rfl, rfl, rfl⟩
  · exact ⟨rfl, rfl, rfl⟩

/-- The response before its groups are chosen. -/
structure GrouplessFor (targpw : Passwd) (start : PfexecResp) : Prop where
  gid : start.pfrGid = targpw.pwGid
  ngroups : start.pfrNgroups = 0
  groups : ClearFrom 0 start

theorem craft_response_groups {accounts : Accounts} {filled : PfexecResp}
    (crafted : craftResponse accounts req rule PfexecResp.zero = some filled) :
    ∃ targpw start, accounts.getpwuidR (requestTarget accounts req) = some targpw ∧
      GrouplessFor targpw start ∧
      SameGroups
        (defaultGroups accounts targpw (keepGroups req rule (applyGrplist accounts rule start)))
        filled := by
  unfold craftResponse at crafted
  cases found : accounts.getpwuidR (requestTarget accounts req) with
  | none =>
    rw [found] at crafted
    exact absurd crafted.symm (Option.some_ne_none filled)
  | some targpw =>
    rw [found] at crafted
    obtain rfl := Option.some.inj crafted
    exact ⟨targpw, _, rfl, ⟨rfl, rfl, fun _ _ => rfl⟩, apply_chroot_option_groups rule _⟩

/-! ## Named groups -/

variable {gs : Nat}

def resolvedGid (accounts : Accounts) (name : CString) : Option UInt32 :=
  if (parsegid accounts name).1 = -1 then none else some (parsegid accounts name).2

theorem grplist_entry_here (name : CString) (clear : ClearFrom gs resp) :
    (grplistEntry accounts gs name resp).pfrGroups gs = (resolvedGid accounts name).getD 0 := by
  unfold grplistEntry resolvedGid
  dsimp only
  split_ifs
  · exact clear gs (Nat.le_refl gs)
  · exact set_group_here resp gs _
  · exact set_group_here resp gs _

theorem grplist_entry_elsewhere {index : Nat} (name : CString) (resp : PfexecResp)
    (apart : index ≠ gs) :
    (grplistEntry accounts gs name resp).pfrGroups index = resp.pfrGroups index := by
  unfold grplistEntry
  dsimp only
  split_ifs
  · rfl
  · exact set_group_elsewhere resp gs index _ apart
  · exact set_group_elsewhere resp gs index _ apart

theorem grplist_entry_gid (gs : Nat) (name : CString) (resp : PfexecResp) :
    (grplistEntry accounts gs name resp).pfrGid =
      if gs = 0 then (resolvedGid accounts name).getD resp.pfrGid else resp.pfrGid := by
  unfold grplistEntry resolvedGid
  dsimp only
  split_ifs
  · rfl
  · rfl
  · rfl
  · rfl

theorem grplist_loop_filled (names : List CString) (clear : ClearFrom gs resp) : FilledFrom resp gs
      ((names.take (ngroupsMax - gs)).map fun name => (resolvedGid accounts name).getD 0)
      (grplistLoop accounts gs names resp) := by
  induction names generalizing gs resp with
  | nil =>
    rw [List.take_nil, List.map_nil]
    exact filled_from_nil clear rfl
  | cons name rest ih =>
    rw [grplistLoop]
    split_ifs with room
    · obtain ⟨left, count⟩ : ∃ left, ngroupsMax - gs = left + 1 := ⟨ngroupsMax - gs - 1, by omega⟩
      have later : ngroupsMax - (gs + 1) = left := by omega
      rw [count, List.take_succ_cons, List.map_cons, ← later]
      apply filled_from_cons gs _ _ resp (grplistEntry accounts gs name resp)
      · exact grplist_entry_here accounts name clear
      · intro index below
        exact grplist_entry_elsewhere accounts name resp (Nat.ne_of_lt below)
      · apply ih
        intro index above
        rw [grplist_entry_elsewhere accounts name resp (by omega)]
        exact clear index (by omega)
    · rw [Nat.sub_eq_zero_of_le (Nat.le_of_not_lt room), List.take_zero, List.map_nil]
      exact filled_from_nil clear rfl

theorem grplist_loop_gid (gs : Nat) (names : List CString) (resp : PfexecResp) (later : gs ≠ 0) :
    (grplistLoop accounts gs names resp).pfrGid = resp.pfrGid := by
  induction names generalizing gs resp with
  | nil => rfl
  | cons name rest ih =>
    rw [grplistLoop]
    split_ifs with room
    · rw [ih (gs + 1) _ (Nat.succ_ne_zero gs), grplist_entry_gid, if_neg later]
    · rfl

theorem grplist_groups (names : List CString) {start : PfexecResp} (clear : ClearFrom 0 start) :
    groupList (grplistLoop accounts 0 names start) =
      (names.take ngroupsMax).map fun name => (resolvedGid accounts name).getD 0 := by
  apply filled_group_list start
  · exact grplist_loop_filled accounts names clear
  · rw [grplist_loop_ngroups accounts 0 names start (Nat.zero_le _), List.length_map,
      List.length_take, Nat.zero_add, Nat.min_comm]

/-- The response grants the groups the list names and takes the first as its gid. -/
structure NamedGroupsOnly (accounts : Accounts) (names : List CString) (filled : PfexecResp) :
    Prop where
  groups : groupList filled = (names.take ngroupsMax).filterMap (resolvedGid accounts)
  gid : ((names.take ngroupsMax).filterMap (resolvedGid accounts)).head? = some filled.pfrGid

theorem craft_response_named {accounts : Accounts} {name : CString} {rest : List CString}
    {filled : PfexecResp} (given : rule.grplist = some (name :: rest))
    (drops : hasBit rule.options keepgrp = false)
    (crafted : craftResponse accounts req rule PfexecResp.zero = some filled) :
    ∃ start, ClearFrom 0 start ∧
      SameGroups (grplistLoop accounts 0 (name :: rest) start) filled := by
  obtain ⟨targpw, start, _, groupless, same⟩ :=
    craft_response_groups crafted
  have counted : (applyGrplist accounts rule start).pfrNgroups ≠ 0 := by
    have count := grplist_loop_ngroups accounts 0 (name :: rest) start (Nat.zero_le _)
    simp only [applyGrplist, given, count, List.length_cons, ngroupsMax]
    omega
  have kept : keepGroups req rule (applyGrplist accounts rule start) =
      applyGrplist accounts rule start := by
    rw [keepGroups, drops, if_neg Bool.false_ne_true]
  rw [kept, defaultGroups, if_neg counted] at same
  simp only [applyGrplist, given] at same
  exact ⟨start, groupless.groups, same.gid, same.ngroups, same.groups⟩

theorem map_get_d_eq_filter_map_iff (resolve : CString → Option UInt32) (names : List CString) :
    names.map (fun name => (resolve name).getD 0) = names.filterMap resolve ↔
      ∀ name ∈ names, (resolve name).isSome := by
  constructor
  · intro same
    apply List.filterMap_length_eq_length.mp
    rw [← same, List.length_map]
  · intro resolves
    induction names with
    | nil => rfl
    | cons name rest ih =>
      obtain ⟨gid, found⟩ := Option.isSome_iff_exists.mp (resolves name List.mem_cons_self)
      rw [List.map_cons, List.filterMap_cons_some found, found, Option.getD_some,
        ih (fun other member => resolves other (List.mem_cons_of_mem name member))]

theorem named_groups_only_iff (accounts : Accounts) (req : PfexecReq) (rule : Rule)
    (names : List CString) (filled : PfexecResp) (given : rule.grplist = some names)
    (drops : hasBit rule.options keepgrp = false)
    (one : ∃ name ∈ names.take ngroupsMax, (resolvedGid accounts name).isSome)
    (crafted : craftResponse accounts req rule PfexecResp.zero = some filled) :
    NamedGroupsOnly accounts names filled ↔
      ∀ name ∈ names.take ngroupsMax, (resolvedGid accounts name).isSome := by
  cases names with
  | nil =>
    obtain ⟨name, member, _⟩ := one
    exact absurd member (by simp)
  | cons name rest =>
    obtain ⟨start, clear, same⟩ :=
      craft_response_named given drops crafted
    have groups := same_group_list same
    rw [grplist_groups accounts (name :: rest) clear] at groups
    have exactly := map_get_d_eq_filter_map_iff (resolvedGid accounts)
      ((name :: rest).take ngroupsMax)
    rw [← exactly, ← groups]
    constructor
    · intro only
      exact only.groups
    · intro named
      refine ⟨named, ?_⟩
      rw [groups] at named
      have resolves := exactly.mp named
      obtain ⟨gid, found⟩ := Option.isSome_iff_exists.mp (resolves name List.mem_cons_self)
      have primary : filled.pfrGid = gid := by
        rw [same.gid, grplistLoop, if_pos (by decide), grplist_loop_gid accounts 1 rest _ (by decide),
          grplist_entry_gid, if_pos rfl, found, Option.getD_some]
      rw [primary, ngroupsMax, List.take_succ_cons, List.filterMap_cons_some found, List.head?_cons]

def namedGroups : Accounts :=
  { twoAccounts with
    getgrnam := fun name =>
      if name = CString.ofString "staff" then some 20
      else if name = CString.ofString "users" then some 10
      else none }

/-- `permit nopass setgroups { ... } alice` -/
def setGroups (names : List String) : Rule :=
  { permitAlice with grplist := some (names.map CString.ofString) }

theorem staff_and_users_only :
    ∃ filled, craftResponse namedGroups (catRequest pfexecveUser "root")
        (setGroups ["staff", "users"]) PfexecResp.zero = some filled ∧
      NamedGroupsOnly namedGroups (["staff", "users"].map CString.ofString) filled := by
  refine ⟨_, rfl, ?_⟩
  apply (named_groups_only_iff namedGroups (catRequest pfexecveUser "root")
    (setGroups ["staff", "users"]) _ _ rfl (by decide) ⟨_, List.mem_cons_self, by decide⟩ rfl).mpr
  decide

/-- The middle name is misspelt: group 0 is granted in its place. -/
theorem misspelt_name_grants_zero :
    (resolvedGid namedGroups (CString.ofString "staff")).isSome ∧
      ∃ filled, craftResponse namedGroups (catRequest pfexecveUser "root")
          (setGroups ["staff", "usres", "users"]) PfexecResp.zero = some filled ∧
        groupList filled = [20, 0, 10] ∧
        ¬ NamedGroupsOnly namedGroups (["staff", "usres", "users"].map CString.ofString) filled :=
  ⟨by decide, _, rfl, by decide, fun only => absurd only.groups (by decide)⟩

/-! ## Kept groups -/

/-- The group and the groups of the request are those of the response. -/
structure GroupsKept (req : PfexecReq) (filled : PfexecResp) : Prop where
  gid : filled.pfrGid = req.pfrGid
  groups : groupList filled = requestGroups req

theorem keep_groups_kept (resp : PfexecResp) (keeps : hasBit rule.options keepgrp = true)
    (room : req.pfrNgroups < ngroupsMax) : GroupsKept req (keepGroups req rule resp) := by
  have count : min req.pfrNgroups ngroupsMax = req.pfrNgroups := Nat.min_eq_left (Nat.le_of_lt room)
  rw [keepGroups, if_pos keeps]
  constructor
  · rfl
  · simp only [groupList, requestGroups, count]
    apply List.map_congr_left
    intro index member
    exact if_pos (List.mem_range.mp member)

theorem get_groups_loop_gid (resp : PfexecResp) :
    (getGroupsLoop cnt previous gids resp).pfrGid = resp.pfrGid := by
  induction gids generalizing cnt previous resp with
  | nil => rfl
  | cons gid rest ih =>
    rw [getGroupsLoop, ih]
    split_ifs
    · rfl
    · rfl

theorem group_list_length (resp : PfexecResp) : (groupList resp).length = resp.pfrNgroups := by
  rw [groupList, List.length_map, List.length_range]

theorem target_gids_eq_nil_iff (pw : Passwd) :
    targetGids accounts pw = [] ↔ accounts.getgrouplist pw.pwName pw.pwGid = [] := by
  rw [targetGids, List.take_eq_nil_iff]
  constructor
  · intro either
    rcases either with impossible | empty
    · exact absurd impossible (Nat.succ_ne_zero ngroupsMax)
    · exact empty
  · exact Or.inr

/-- The groups of the target are added to none. -/
theorem default_groups_kept_iff (targpw : Passwd) {kept : PfexecResp}
    (keeps : GroupsKept req kept) : GroupsKept req (defaultGroups accounts targpw kept) ↔
      req.pfrNgroups ≠ 0 ∨ accounts.getgrouplist targpw.pwName targpw.pwGid = [] := by
  have counts : kept.pfrNgroups = req.pfrNgroups := by
    rw [← group_list_length, keeps.groups, requestGroups, List.length_map, List.length_range]
  rw [defaultGroups, counts]
  split_ifs with empty
  · have nothing : requestGroups req = [] := by
      rw [requestGroups, empty, List.range_zero, List.map_nil]
    have length : (getGroups accounts targpw kept).pfrNgroups =
        (targetGids accounts targpw).length := by
      rw [getGroups, get_groups_loop_ngroups, Nat.zero_add, targetGids]
    rw [← target_gids_eq_nil_iff]
    constructor
    · intro still
      apply Or.inr
      apply List.eq_nil_of_length_eq_zero
      rw [← length]
      have same := congrArg List.length still.groups
      rw [group_list_length, nothing, List.length_nil] at same
      exact same
    · intro either
      rcases either with grouped | target
      · exact absurd empty grouped
      · constructor
        · exact (get_groups_loop_gid 0 none _ kept).trans keeps.gid
        · rw [nothing, groupList, length, target, List.length_nil, List.range_zero, List.map_nil]
  · exact ⟨fun _ => Or.inl empty, fun _ => keeps⟩

theorem well_formed_ngroups (formed : wellFormed req = true) : req.pfrNgroups < ngroupsMax := by
  apply Nat.lt_of_not_le
  intro many
  rw [wellFormed, if_pos many] at formed
  exact absurd formed Bool.false_ne_true

theorem groups_kept_iff (accounts : Accounts) (req : PfexecReq) (rule : Rule) (targpw : Passwd)
    (filled : PfexecResp) (keeps : hasBit rule.options keepgrp = true)
    (formed : wellFormed req = true)
    (found : accounts.getpwuidR (requestTarget accounts req) = some targpw)
    (crafted : craftResponse accounts req rule PfexecResp.zero = some filled) :
    GroupsKept req filled ↔
      req.pfrNgroups ≠ 0 ∨ accounts.getgrouplist targpw.pwName targpw.pwGid = [] := by
  obtain ⟨entry, start, known, _, same⟩ := craft_response_groups crafted
  obtain rfl : targpw = entry := Option.some.inj (found.symm.trans known)
  have kept := keep_groups_kept (applyGrplist accounts rule start) keeps
    (well_formed_ngroups formed)
  rw [← default_groups_kept_iff accounts targpw kept]
  have list := same_group_list same
  constructor
  · intro still
    exact ⟨same.gid.symm.trans still.gid, list.symm.trans still.groups⟩
  · intro still
    exact ⟨same.gid.trans still.gid, list.trans still.groups⟩

/-- `permit nopass keepgroups alice` -/
def keepAlicesGroups : Rule := { permitAlice with options := nopass ||| keepgrp }

def groupedAlice : Ucred :=
  { aliceCreds with
    crNgroups := 2, crGroups := fun index => if index = 0 then 20 else 10, ngroupsBound := by decide }

theorem grouped_alice_keeps_groups :
    ∃ filled, craftResponse twoAccounts (fillMbuf 1 groupedAlice (catAs pfexecveUser "root"))
        keepAlicesGroups PfexecResp.zero = some filled ∧
      GroupsKept (fillMbuf 1 groupedAlice (catAs pfexecveUser "root")) filled := by
  refine ⟨_, rfl, ?_⟩
  apply (groups_kept_iff twoAccounts (fillMbuf 1 groupedAlice (catAs pfexecveUser "root"))
    keepAlicesGroups rootEntry _ (by decide) (by decide) rfl rfl).mpr
  exact Or.inl (by decide)

/-- Alice without supplementary groups is given those of root. -/
theorem no_groups_become_the_targets :
    wellFormed (catRequest pfexecveUser "root") = true ∧
      ∃ filled, craftResponse twoAccounts (catRequest pfexecveUser "root") keepAlicesGroups
          PfexecResp.zero = some filled ∧
        groupList filled = [0] ∧ ¬ GroupsKept (catRequest pfexecveUser "root") filled :=
  ⟨by decide, _, rfl, by decide, fun kept => absurd kept.groups (by decide)⟩

end Cprogramming.Pfexec.Groups
