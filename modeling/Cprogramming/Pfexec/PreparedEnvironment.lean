import Mathlib.Data.List.Lex
import Mathlib.Order.Lattice.Nat
import Cprogramming.Library.LastMatch
import Cprogramming.Pfexec.Decision

/-!
# What the prepared environment binds

The list `prepenv` returns, as a map from names to values. Four phases fill the tree:
fixed bindings, the copy set, under `keepenv` the caller's other variables, and the
`setenv` list. The first value wins in the third of them, the last in the fourth.
Each phase is described by what it makes of the value of one name; the list then
binds every name at most once.
-/

namespace Cprogramming.Pfexec.PreparedEnvironment

open Library.CStrings Library.OrderedTree Library.LastMatch
open Protocol Rules Environment Decision

set_option autoImplicit false

/-! ## Looking a name up in a list of strings -/

variable (rule : Rule) (targpw : Passwd) (myEnv : List CString) (entry : CString)

variable {name : CString}

/-- The value a string `name=value` has for the name. -/
def boundValue (name entry : CString) : Option CString :=
  if entry.before equalsSign = name then entry.after equalsSign else none

def bindings (name : CString) (envp : List CString) : List CString :=
  envp.filterMap (boundValue name)

def lookupName (name : CString) (envp : List CString) : Option CString :=
  (bindings name envp).head?

theorem lookup_name_cons (name entry : CString) (rest : List CString) :
    lookupName name (entry :: rest) = (boundValue name entry).or (lookupName name rest) := by
  unfold lookupName bindings
  cases bound : boundValue name entry with
  | none => rw [List.filterMap_cons_none bound, Option.none_or]
  | some value => rw [List.filterMap_cons_some bound, List.head?_cons, Option.some_or]

/-- `find_in_env` compares the name and a `=` with the start of the string. -/
theorem entry_value_eq (plain : equalsSign ∉ name.bytes) :
    entryValue name.bytes entry = boundValue name entry := by
  by_cases starts : (name.bytes ++ [equalsSign]).isPrefixOf entry.bytes = true
  · obtain ⟨back, split⟩ := List.isPrefixOf_iff_prefix.mp starts
    rw [List.append_assoc, List.singleton_append] at split
    have free := entry.nulFree
    rw [← split, List.mem_append, List.mem_cons, not_or, not_or] at free
    rw [boundValue, if_pos (before_of_split entry name equalsSign back split.symm plain),
      after_of_split entry name ⟨back, free.2.2⟩ equalsSign split.symm plain, entryValue,
      if_pos starts]
    apply congrArg some
    apply cstring_ext
    dsimp only
    rw [← split, ← List.drop_drop, List.drop_left, List.drop_succ_cons, List.drop_zero]
  · rw [entryValue, if_neg starts, boundValue]
    split_ifs with same
    · by_cases member : equalsSign ∈ entry.bytes
      · obtain ⟨back, split⟩ := split_at_byte entry equalsSign member
        apply absurd _ starts
        apply List.isPrefixOf_iff_prefix.mpr
        refine ⟨back.bytes, ?_⟩
        rw [split, same, List.append_assoc, List.singleton_append]
      · rw [CString.after, if_neg member]
    · rfl

theorem find_in_env_eq (plain : equalsSign ∉ name.bytes) (myEnv : List CString) :
    findInEnv name.bytes myEnv = lookupName name myEnv := by
  induction myEnv with
  | nil => rfl
  | cons entry rest ih =>
    rw [lookup_name_cons, ← ih, ← entry_value_eq entry plain, findInEnv, List.findSome?_cons]
    cases entryValue name.bytes entry with
    | none => rfl
    | some value => rfl

/-- The name `get_my_env` looks up ends at a `=`, as that of `getenv` does. -/
theorem get_my_env_eq (name : CString) (myEnv : List CString) :
    getMyEnv name myEnv = lookupName (name.before equalsSign) myEnv := by
  exact find_in_env_eq (before_free name equalsSign) myEnv

/-! ## The tree as a map -/

variable {env : Env}

def envKey (node : EnvNode) : List Nat := node.key.bytes.map UInt8.toNat

theorem env_key_eq_iff (left right : EnvNode) : envKey left = envKey right ↔ left.key = right.key := by
  constructor
  · intro same
    apply cstring_ext
    exact List.map_injective_iff.mpr (fun _ _ equal => UInt8.toNat_inj.mp equal) same
  · intro same
    rw [envKey, same, envKey]

theorem envcmp_compares : ComparesBy envKey envcmp where
  equal left right := by rw [envcmp, strcmp_eq_zero_iff, env_key_eq_iff]
  less left right := strcmp_neg_iff left.key right.key

/-- The node `RB_FIND` is given to search a name. -/
def probe (name : CString) : EnvNode := ⟨name, CString.ofBytes []⟩

def valueOf (env : Env) (name : CString) : Option CString :=
  (rbFind envcmp (probe name) env.root).map EnvNode.value

/-- The tree is sorted, its keys are names, and the count is that of its nodes. -/
structure Sound (env : Env) : Prop where
  ordered : Ordered envKey env.root
  plain : ∀ node ∈ env.root, equalsSign ∉ node.key.bytes
  counted : env.count = env.root.length

/-- `after` is `before` with another value, or none, for the name. -/
structure Assigned (before : Env) (name : CString) (value : Option CString) (after : Env) :
    Prop where
  sound : Sound after
  values : ∀ other, valueOf after other = if other = name then value else valueOf before other

theorem probe_key_eq_iff (name : CString) (node : EnvNode) :
    envKey (probe name) = envKey node ↔ name = node.key := by
  exact env_key_eq_iff (probe name) node

theorem value_of_eq_none_iff (env : Env) (name : CString) :
    valueOf env name = none ↔ ∀ node ∈ env.root, node.key ≠ name := by
  rw [valueOf, Option.map_eq_none_iff, rb_find_eq_none_iff envcmp_compares]
  constructor
  · intro absent node member same
    exact absent node member ((env_key_eq_iff node (probe name)).mpr same)
  · intro absent node member same
    exact absent node member ((env_key_eq_iff node (probe name)).mp same)

theorem insert_cases (sound : Sound env) (value : CString) (plain : equalsSign ∉ name.bytes) :
    (rbInsert envcmp ⟨name, value⟩ env.root = none ∧ valueOf env name ≠ none) ∨
      ∃ root, rbInsert envcmp ⟨name, value⟩ env.root = some root ∧ valueOf env name = none ∧
        Assigned env name (some value) ⟨root, env.count + 1⟩ := by
  have absent := rb_insert_eq_none_iff envcmp_compares ⟨name, value⟩ env.root sound.ordered
  cases inserted : rbInsert envcmp ⟨name, value⟩ env.root with
  | none =>
    obtain ⟨node, member, same⟩ := absent.mp inserted
    apply Or.inl
    refine ⟨rfl, ?_⟩
    intro missing
    exact (value_of_eq_none_iff env name).mp missing node member ((env_key_eq_iff _ _).mp same)
  | some root =>
    have perm := rb_insert_perm envcmp ⟨name, value⟩ env.root root inserted
    apply Or.inr
    refine ⟨root, rfl, ?_, ⟨?_, ?_, ?_⟩, ?_⟩
    · apply (value_of_eq_none_iff env name).mpr
      intro node member same
      have taken := absent.mpr ⟨node, member, (env_key_eq_iff _ _).mpr same⟩
      rw [inserted] at taken
      exact absurd taken (Option.some_ne_none root)
    · exact rb_insert_ordered envcmp_compares _ _ _ sound.ordered inserted
    · intro node member
      rcases List.mem_cons.mp (perm.mem_iff.mp member) with rfl | inside
      · exact plain
      · exact sound.plain node inside
    · rw [perm.length_eq, List.length_cons, sound.counted]
    · intro other
      rw [valueOf, rb_find_insert envcmp_compares _ (probe other) _ _ sound.ordered inserted]
      simp only [probe_key_eq_iff]
      split_ifs with same
      · rfl
      · rfl

theorem addnode_assigned (env : Env) (sound : Sound env) (name value : CString)
    (plain : equalsSign ∉ name.bytes) (absent : valueOf env name = none) :
    Assigned env name (some value) (addnode env name value) := by
  rcases insert_cases sound value plain with taken | ⟨root, inserted, _, assigned⟩
  · exact absurd absent taken.2
  · rw [addnode, inserted, Option.getD_some]
    exact assigned

theorem add_unless_present_spec (env : Env) (sound : Sound env) (name value : CString)
    (plain : equalsSign ∉ name.bytes) :
    Sound (addUnlessPresent env name value) ∧
      ∀ other, valueOf (addUnlessPresent env name value) other =
        (valueOf env other).or (if other = name then some value else none) := by
  rcases insert_cases sound value plain with taken | ⟨root, inserted, absent, assigned⟩
  · rw [addUnlessPresent, taken.1]
    refine ⟨sound, ?_⟩
    intro other
    split_ifs with same
    · obtain ⟨first, found⟩ := Option.ne_none_iff_exists'.mp taken.2
      rw [same, found, Option.some_or]
    · rw [Option.or_none]
  · rw [addUnlessPresent, inserted]
    refine ⟨assigned.sound, ?_⟩
    intro other
    rw [assigned.values other]
    split_ifs with same
    · rw [same, absent, Option.none_or]
    · rw [Option.or_none]

theorem delete_key_assigned (sound : Sound env) (name : CString) :
    Assigned env name none (deleteKey env name) := by
  unfold deleteKey
  cases found : rbFind envcmp ⟨name, ⟨[], by simp⟩⟩ env.root with
  | none =>
    have missing : rbFind envcmp (probe name) env.root = none := found
    refine ⟨sound, ?_⟩
    intro other
    split_ifs with same
    · rw [same, valueOf, missing, Option.map_none]
    · rfl
  | some node =>
    have member := rb_find_mem envcmp _ node env.root found
    have key : node.key = name := by
      have equal := List.find?_some found
      rw [decide_eq_true_eq] at equal
      exact ((env_key_eq_iff _ _).mp ((envcmp_compares.equal _ _).mp equal)).symm
    have shorter : (rbRemove envcmp node env.root).length = env.root.length - 1 := by
      apply List.length_eraseP_of_mem member
      simpa using (envcmp_compares.equal node node).mpr rfl
    refine ⟨⟨?_, ?_, ?_⟩, ?_⟩
    · exact sound.ordered.sublist (List.eraseP_sublist)
    · intro other inside
      exact sound.plain other (List.eraseP_sublist.mem inside)
    · rw [shorter, sound.counted]
    · intro other
      rw [valueOf, rb_find_remove envcmp_compares node (probe other) env.root sound.ordered]
      simp only [probe_key_eq_iff, key]
      split_ifs with same
      · rfl
      · rfl

/-! ## The setenv list -/

/-- The entry starts with the sign that only removes a variable. -/
def removes (entry : CString) : Bool :=
  decide ((entry.before equalsSign).bytes.head? = some minusSign)

def settingName (entry : CString) : CString :=
  if removes entry then (entry.before equalsSign).tail else entry.before equalsSign

/-- The entry is for the name, and its own name part is not overlong. -/
def concerns (name entry : CString) : Bool :=
  decide ((entry.before equalsSign).bytes.length ≤ nameMax) && decide (settingName entry = name)

/-- What the entry makes of its variable: absent, the caller's value of another
variable, the text after `=`, or the caller's value of the same variable. -/
def setenvValue (myEnv : List CString) (entry : CString) : Option CString :=
  if removes entry then none
  else
    match entry.after equalsSign with
    | some value =>
      if value.bytes.head? = some dollarSign then
        lookupName (value.tail.before equalsSign) myEnv
      else some value
    | none => lookupName (entry.before equalsSign) myEnv

theorem assigned_value_eq {entry : CString} (sets : removes entry = false) :
    assignedValue entry myEnv = setenvValue myEnv entry := by
  rw [assignedValue, setenvValue, sets, if_neg Bool.false_ne_true]
  cases entry.after equalsSign with
  | some value => simp only [get_my_env_eq]
  | none =>
    simp only [get_my_env_eq]
    rw [before_of_free _ equalsSign (before_free entry equalsSign)]

theorem fillenv_entry_spec (sound : Sound env) (entry : CString) :
    Sound (fillenvEntry myEnv env entry) ∧
      ∀ other, valueOf (fillenvEntry myEnv env entry) other =
        if concerns other entry then setenvValue myEnv entry else valueOf env other := by
  by_cases long : nameMax < (entry.before equalsSign).bytes.length
  · rw [fillenvEntry, if_pos long]
    refine ⟨sound, ?_⟩
    intro other
    simp [concerns, Nat.not_le.mpr long]
  · have deleted := delete_key_assigned sound (settingName entry)
    -- the previous copy is deleted in every case
    have assigned : Assigned env (settingName entry) (setenvValue myEnv entry)
        (fillenvEntry myEnv env entry) := by
      rw [fillenvEntry, if_neg long]
      cases removal : removes entry with
      | true =>
        rw [if_pos (decide_eq_true_eq.mp removal), setenvValue, removal, if_pos rfl]
        rw [settingName, removal, if_pos rfl] at deleted ⊢
        exact deleted
      | false =>
        rw [if_neg (of_decide_eq_false removal), assigned_value_eq myEnv removal]
        rw [settingName, removal, if_neg Bool.false_ne_true] at deleted ⊢
        cases setenvValue myEnv entry with
        | none => exact deleted
        | some value =>
          have absent : valueOf (deleteKey env (entry.before equalsSign))
              (entry.before equalsSign) = none := by
            rw [deleted.values, if_pos rfl]
          have added := addnode_assigned _ deleted.sound _ value (before_free entry equalsSign)
            absent
          refine ⟨added.sound, ?_⟩
          intro other
          rw [added.values other, deleted.values other]
          split_ifs
          · rfl
          · rfl
    refine ⟨assigned.sound, ?_⟩
    intro other
    rw [assigned.values other]
    simp only [concerns, Nat.le_of_not_lt long, decide_true, Bool.true_and, decide_eq_true_eq,
      @eq_comm _ other]

/-- The last entry for a name decides. -/
theorem fillenv_spec (env : Env) (sound : Sound env) (envlist : List CString) :
    Sound (fillenv env envlist myEnv) ∧
      ∀ other, valueOf (fillenv env envlist myEnv) other =
        match lastMatch (concerns other) envlist with
        | some entry => setenvValue myEnv entry
        | none => valueOf env other := by
  induction envlist using List.reverseRecOn with
  | nil => exact ⟨sound, fun _ => rfl⟩
  | append_singleton entries entry ih =>
    have step := fillenv_entry_spec myEnv ih.1 entry
    have unfolded : fillenv env (entries ++ [entry]) myEnv =
        fillenvEntry myEnv (fillenv env entries myEnv) entry := by
      rw [fillenv, List.foldl_append]
      rfl
    rw [unfolded]
    refine ⟨step.1, ?_⟩
    intro other
    rw [step.2 other]
    cases hit : concerns other entry with
    | true => rw [last_match_of_split _ entries [] entry hit (by simp), if_pos rfl]
    | false => rw [last_match_append_miss _ entries entry hit, if_neg Bool.false_ne_true, ih.2 other]

/-! ## The default environment -/

def fixedBindings (rule : Rule) (targpw : Passwd) : List (CString × CString) :=
  [(CString.ofString "PFEXEC_USER", rule.ident), (CString.ofString "HOME", targpw.pwDir),
    (CString.ofString "LOGNAME", targpw.pwName), (CString.ofString "USER", targpw.pwName),
    (CString.ofString "SHELL", targpw.pwShell)]

def fixedNames : List CString :=
  ["PFEXEC_USER", "HOME", "LOGNAME", "USER", "SHELL"].map CString.ofString

theorem fixed_bindings_names : (fixedBindings rule targpw).map Prod.fst = fixedNames := by
  rfl

theorem add_all_spec (fixed : List (CString × CString)) (env : Env) (sound : Sound env)
    (distinct : (fixed.map Prod.fst).Nodup) (plain : ∀ name ∈ fixed.map Prod.fst, equalsSign ∉ name.bytes)
    (absent : ∀ name ∈ fixed.map Prod.fst, valueOf env name = none) :
    Sound (fixed.foldl (fun filled binding => addnode filled binding.1 binding.2) env) ∧
      ∀ other, valueOf (fixed.foldl (fun filled binding => addnode filled binding.1 binding.2) env)
        other = (fixed.lookup other).or (valueOf env other) := by
  induction fixed generalizing env with
  | nil => exact ⟨sound, fun _ => rfl⟩
  | cons first rest ih =>
    obtain ⟨name, value⟩ := first
    rw [List.map_cons, List.nodup_cons] at distinct
    have added := addnode_assigned env sound name value (plain name List.mem_cons_self)
      (absent name List.mem_cons_self)
    have others := ih (addnode env name value) added.sound distinct.2
      (fun other member => plain other (List.mem_cons_of_mem name member)) (by
        intro other member
        have apart : other ≠ name := fun same => distinct.1 (same ▸ member)
        rw [added.values other, if_neg apart]
        exact absent other (List.mem_cons_of_mem name member))
    refine ⟨others.1, ?_⟩
    intro other
    rw [List.foldl_cons, others.2 other, added.values other, List.lookup_cons]
    by_cases same : other = name
    · subst same
      have missing : rest.lookup other = none := by
        apply List.lookup_eq_none_iff.mpr
        intro pair member
        have apart : other ≠ pair.1 := by
          intro equal
          exact distinct.1 (List.mem_map.mpr ⟨pair, member, equal.symm⟩)
        simpa using apart
      rw [missing, if_pos rfl, beq_self_eq_true]
      rfl
    · rw [if_neg same, beq_eq_false_iff_ne.mpr same]

/-- Names the `keepenv` loop takes over. -/
def keepable (name : CString) : Bool :=
  decide (1 ≤ name.bytes.length) && decide (name.bytes.length ≤ nameMax)

theorem keep_entry_spec (env : Env) (sound : Sound env) (entry : CString) :
    Sound (keepEntry env entry) ∧
      ∀ other, valueOf (keepEntry env entry) other =
        (valueOf env other).or (if keepable other then boundValue other entry else none) := by
  unfold keepEntry boundValue
  cases text : entry.after equalsSign with
  | none =>
    refine ⟨sound, ?_⟩
    intro other
    simp
  | some value =>
    dsimp only
    by_cases empty : (entry.before equalsSign).bytes = []
    · rw [if_pos empty]
      refine ⟨sound, ?_⟩
      intro other
      by_cases same : entry.before equalsSign = other
      · subst same
        simp [keepable, empty]
      · simp [same]
    · by_cases long : nameMax < (entry.before equalsSign).bytes.length
      · rw [if_neg empty, if_pos long]
        refine ⟨sound, ?_⟩
        intro other
        by_cases same : entry.before equalsSign = other
        · subst same
          simp [keepable, Nat.not_le.mpr long]
        · simp [same]
      · rw [if_neg empty, if_neg long]
        have added := add_unless_present_spec env sound _ value (before_free entry equalsSign)
        refine ⟨added.1, ?_⟩
        intro other
        rw [added.2 other]
        by_cases same : entry.before equalsSign = other
        · subst same
          have positive : 1 ≤ (entry.before equalsSign).bytes.length :=
            List.length_pos_iff.mpr empty
          simp [keepable, positive, Nat.le_of_not_lt long]
        · simp [same, Ne.symm same]

/-- The first entry for a name decides, unless the name has a value already. -/
theorem keep_all_spec (env : Env) (sound : Sound env) : Sound (myEnv.foldl keepEntry env) ∧
      ∀ other, valueOf (myEnv.foldl keepEntry env) other =
        (valueOf env other).or (if keepable other then lookupName other myEnv else none) := by
  induction myEnv generalizing env with
  | nil => exact ⟨sound, fun other => by simp [lookupName, bindings]⟩
  | cons entry rest ih =>
    have first := keep_entry_spec env sound entry
    have others := ih (keepEntry env entry) first.1
    refine ⟨others.1, ?_⟩
    intro other
    rw [List.foldl_cons, others.2 other, first.2 other, lookup_name_cons, Option.or_assoc]
    split_ifs
    · rfl
    · rfl

theorem bare_entry (other : CString) (plain : equalsSign ∉ entry.bytes)
    (unsigned : entry.bytes.head? ≠ some minusSign) (short : entry.bytes.length ≤ nameMax) :
    concerns other entry = decide (entry = other) ∧
      setenvValue myEnv entry = lookupName entry myEnv := by
  have whole := before_of_free entry equalsSign plain
  have sets : removes entry = false := by
    rw [removes, whole]
    exact decide_eq_false unsigned
  constructor
  · rw [concerns, settingName, sets, if_neg Bool.false_ne_true, whole, decide_eq_true short,
      Bool.true_and]
  · rw [setenvValue, sets, if_neg Bool.false_ne_true, CString.after, if_neg plain, whole]

theorem copyset_spec (sound : Sound env) : Sound (fillenv env copyset myEnv) ∧
      ∀ other, valueOf (fillenv env copyset myEnv) other =
        if other ∈ copyset then lookupName other myEnv else valueOf env other := by
  have filled := fillenv_spec myEnv env sound copyset
  refine ⟨filled.1, ?_⟩
  intro other
  have display := bare_entry myEnv (CString.ofString "DISPLAY") other (by decide) (by decide)
    (by decide)
  have term := bare_entry myEnv (CString.ofString "TERM") other (by decide) (by decide) (by decide)
  rw [filled.2 other]
  simp only [lastMatch, copyset, List.map_cons, List.map_nil, List.foldl_cons, List.foldl_nil,
    display.1, term.1, decide_eq_true_eq, List.mem_cons, List.not_mem_nil, or_false]
  by_cases second : CString.ofString "TERM" = other
  · rw [if_pos second, if_pos (Or.inr second.symm), ← second]
    exact term.2
  · rw [if_neg second]
    by_cases first : CString.ofString "DISPLAY" = other
    · rw [if_pos first, if_pos (Or.inl first.symm), ← first]
      exact display.2
    · rw [if_neg first, if_neg (not_or.mpr ⟨Ne.symm first, Ne.symm second⟩)]

/-- The value of a name before the `setenv` list is read. -/
def defaultValue (rule : Rule) (targpw : Passwd) (myEnv : List CString) (name : CString) :
    Option CString :=
  match (fixedBindings rule targpw).lookup name with
  | some value => some value
  | none =>
    if name ∈ copyset then lookupName name myEnv
    else if hasBit rule.options keepenv && keepable name then lookupName name myEnv
    else none

def fixedEnv (rule : Rule) (targpw : Passwd) : Env :=
  (fixedBindings rule targpw).foldl (fun filled binding => addnode filled binding.1 binding.2) ⟨[], 0⟩

theorem fixed_env_spec : Sound (fixedEnv rule targpw) ∧
      ∀ other, valueOf (fixedEnv rule targpw) other = (fixedBindings rule targpw).lookup other := by
  have empty : Sound ⟨[], 0⟩ := ⟨List.Pairwise.nil, by simp, rfl⟩
  have added := add_all_spec (fixedBindings rule targpw) ⟨[], 0⟩ empty
    (by rw [fixed_bindings_names]; decide) (by rw [fixed_bindings_names]; decide) (fun _ _ => rfl)
  refine ⟨added.1, ?_⟩
  intro other
  rw [fixedEnv, added.2 other]
  exact Option.or_none

theorem fixed_not_copied {rule : Rule} {targpw : Passwd} {value : CString}
    (fixed : (fixedBindings rule targpw).lookup name = some value) : name ∉ copyset := by
  intro copied
  have names : name = CString.ofString "DISPLAY" ∨ name = CString.ofString "TERM" := by
    simpa [copyset] using copied
  have missing : (fixedBindings rule targpw).lookup name = none := by
    rcases names with rfl | rfl
    · rfl
    · rfl
  rw [missing] at fixed
  exact absurd fixed.symm (Option.some_ne_none value)

/-- The tree after `keepenv` has taken effect. -/
def keptEnv (rule : Rule) (targpw : Passwd) (myEnv : List CString) : Env :=
  let env := fillenv (fixedEnv rule targpw) copyset myEnv
  if hasBit rule.options keepenv then myEnv.foldl keepEntry env else env

theorem createenv_eq : createenv rule targpw myEnv =
      addUnlessPresent (keptEnv rule targpw myEnv) (CString.ofString "SHELL") safepath := by
  rfl

theorem kept_env_spec : Sound (keptEnv rule targpw myEnv) ∧
      ∀ other, valueOf (keptEnv rule targpw myEnv) other =
        defaultValue rule targpw myEnv other := by
  have fixed := fixed_env_spec rule targpw
  have copied := copyset_spec myEnv fixed.1
  have kept : Sound (keptEnv rule targpw myEnv) ∧
      ∀ other, valueOf (keptEnv rule targpw myEnv) other =
        (valueOf (fillenv (fixedEnv rule targpw) copyset myEnv) other).or
          (if hasBit rule.options keepenv && keepable other then lookupName other myEnv
            else none) := by
    rw [keptEnv]
    cases hasBit rule.options keepenv with
    | true => exact keep_all_spec myEnv _ copied.1
    | false => exact ⟨copied.1, fun other => by simp⟩
  refine ⟨kept.1, ?_⟩
  intro other
  rw [kept.2 other, copied.2 other, fixed.2 other, defaultValue]
  cases bound : (fixedBindings rule targpw).lookup other with
  | some value => rw [if_neg (fixed_not_copied bound), Option.some_or]
  | none =>
    dsimp only
    by_cases member : other ∈ copyset
    · rw [if_pos member, if_pos member]
      cases lookupName other myEnv with
      | some value => rfl
      | none => rw [Option.none_or, ite_self]
    · rw [if_neg member, if_neg member, Option.none_or]

/-- The safe path is offered under the name `SHELL`, which has a value by then. -/
theorem createenv_spec : Sound (createenv rule targpw myEnv) ∧
      ∀ other, valueOf (createenv rule targpw myEnv) other =
        defaultValue rule targpw myEnv other := by
  have kept := kept_env_spec rule targpw myEnv
  have added := add_unless_present_spec (keptEnv rule targpw myEnv) kept.1
    (CString.ofString "SHELL") safepath (by decide)
  rw [createenv_eq]
  refine ⟨added.1, ?_⟩
  intro other
  rw [added.2 other, kept.2 other]
  by_cases shell : other = CString.ofString "SHELL"
  · have given : defaultValue rule targpw myEnv other = some targpw.pwShell := by
      rw [shell]
      rfl
    rw [given, Option.some_or]
  · rw [if_neg shell, Option.or_none]

/-! ## The list -/

theorem binding_value (name : CString) {node : EnvNode} (plain : equalsSign ∉ node.key.bytes) :
    boundValue name ((node.key.append (CString.ofBytes [equalsSign])).append node.value) =
      if node.key = name then some node.value else none := by
  have split : ((node.key.append (CString.ofBytes [equalsSign])).append node.value).bytes =
      node.key.bytes ++ equalsSign :: node.value.bytes := by
    change (node.key.bytes ++ [equalsSign]) ++ node.value.bytes = _
    rw [List.append_assoc, List.singleton_append]
  rw [boundValue, before_of_split _ node.key equalsSign node.value.bytes split plain,
    after_of_split _ node.key node.value equalsSign split plain]

theorem node_bindings {nodes : List EnvNode} (plain : ∀ node ∈ nodes, equalsSign ∉ node.key.bytes)
    (name : CString) : bindings name (nodes.map fun node =>
        (node.key.append (CString.ofBytes [equalsSign])).append node.value) =
      (nodes.filter fun node => node.key = name).map EnvNode.value := by
  induction nodes with
  | nil => rfl
  | cons node rest ih =>
    have others := ih (fun other member => plain other (List.mem_cons_of_mem node member))
    rw [bindings] at others ⊢
    rw [List.map_cons, List.filterMap_cons,
      binding_value name (plain node List.mem_cons_self), others]
    by_cases same : node.key = name
    · rw [if_pos same, List.filter_cons_of_pos (by simpa using same), List.map_cons]
    · rw [if_neg same, List.filter_cons_of_neg (by simpa using same)]

theorem flattenenv_bindings (sound : Sound env) (name : CString) :
    bindings name (flattenenv env) = (valueOf env name).toList := by
  have nodes : (env.root.filter fun node => node.key = name) =
      (rbFind envcmp (probe name) env.root).toList := by
    rw [← filter_eq_rb_find envcmp_compares (probe name) env.root sound.ordered]
    apply List.filter_congr
    intro node _
    exact decide_eq_decide.mpr (env_key_eq_iff node (probe name)).symm
  rw [flattenenv, node_bindings sound.plain, nodes, valueOf]
  cases rbFind envcmp (probe name) env.root with
  | none => rfl
  | some node => rfl

def preparedEnv (rule : Rule) (targpw : Passwd) (myEnv : List CString) : Env :=
  fillenv (createenv rule targpw myEnv) (rule.envlist.getD []) myEnv

theorem prepenv_eq : prepenv rule targpw myEnv = flattenenv (preparedEnv rule targpw myEnv) := by
  rw [prepenv, preparedEnv]
  cases rule.envlist with
  | none => rfl
  | some envlist => rfl

def expectedValue (rule : Rule) (targpw : Passwd) (myEnv : List CString) (name : CString) :
    Option CString :=
  match lastMatch (concerns name) (rule.envlist.getD []) with
  | some entry => setenvValue myEnv entry
  | none => defaultValue rule targpw myEnv name

theorem prepared_env_spec : Sound (preparedEnv rule targpw myEnv) ∧
      ∀ name, valueOf (preparedEnv rule targpw myEnv) name =
        expectedValue rule targpw myEnv name := by
  have created := createenv_spec rule targpw myEnv
  have filled := fillenv_spec myEnv _ created.1 (rule.envlist.getD [])
  refine ⟨filled.1, ?_⟩
  intro name
  rw [preparedEnv, filled.2 name, created.2 name, expectedValue]

theorem prepenv_bindings (name : CString) :
    bindings name (prepenv rule targpw myEnv) = (expectedValue rule targpw myEnv name).toList := by
  have prepared := prepared_env_spec rule targpw myEnv
  rw [prepenv_eq, flattenenv_bindings prepared.1, prepared.2 name]

/-! ## What the caller's environment can change -/

def inheritedName (entry : CString) : Option CString :=
  if nameMax < (entry.before equalsSign).bytes.length then none
  else if removes entry then none
  else
    match entry.after equalsSign with
    | some value =>
      if value.bytes.head? = some dollarSign then some (value.tail.before equalsSign) else none
    | none => some (entry.before equalsSign)

def inheritedNames (rule : Rule) : List CString :=
  (rule.envlist.getD []).filterMap inheritedName

theorem fillenv_entry_congr (env : Env) (myEnv others : List CString)
    (agree : ∀ name, inheritedName entry = some name → lookupName name myEnv = lookupName name others) :
    fillenvEntry myEnv env entry = fillenvEntry others env entry := by
  unfold fillenvEntry
  unfold inheritedName at agree
  dsimp only
  split_ifs with long removal
  · rfl
  · rfl
  · have sets : removes entry = false := decide_eq_false removal
    rw [if_neg long, sets, if_neg Bool.false_ne_true] at agree
    have same : assignedValue entry myEnv = assignedValue entry others := by
      rw [assigned_value_eq myEnv sets, assigned_value_eq others sets, setenvValue,
        setenvValue, sets, if_neg Bool.false_ne_true, if_neg Bool.false_ne_true]
      cases text : entry.after equalsSign with
      | none =>
        rw [text] at agree
        exact agree _ rfl
      | some value =>
        rw [text] at agree
        dsimp only at agree ⊢
        split_ifs at agree ⊢ with dollar
        · exact agree _ rfl
        · rfl
    rw [same]

theorem fillenv_congr {envlist : List CString} (env : Env) {myEnv others : List CString}
    (agree : ∀ name ∈ envlist.filterMap inheritedName,
      lookupName name myEnv = lookupName name others) :
    fillenv env envlist myEnv = fillenv env envlist others := by
  apply List.foldl_ext
  intro filled entry member
  apply fillenv_entry_congr
  intro name inherits
  exact agree name (List.mem_filterMap.mpr ⟨entry, member, inherits⟩)

theorem createenv_congr {rule : Rule} (targpw : Passwd) {myEnv others : List CString}
    (drops : hasBit rule.options keepenv = false)
    (agree : ∀ name ∈ copyset, lookupName name myEnv = lookupName name others) :
    createenv rule targpw myEnv = createenv rule targpw others := by
  rw [createenv_eq, createenv_eq, keptEnv, keptEnv, drops, if_neg Bool.false_ne_true,
    if_neg Bool.false_ne_true, fillenv_congr _]
  intro name member
  apply agree
  exact member

theorem prepared_environment (rule : Rule) (targpw : Passwd) (myEnv : List CString) :
    (∀ name, lookupName name (prepenv rule targpw myEnv) = expectedValue rule targpw myEnv name) ∧
      (hasBit rule.options keepenv = false →
        ∀ others, (∀ name ∈ copyset ++ inheritedNames rule,
          lookupName name myEnv = lookupName name others) →
        prepenv rule targpw myEnv = prepenv rule targpw others) := by
  constructor
  · intro name
    rw [lookupName, prepenv_bindings]
    cases expectedValue rule targpw myEnv name with
    | none => rfl
    | some value => rfl
  · intro drops others agree
    rw [prepenv_eq, prepenv_eq, preparedEnv, preparedEnv,
      createenv_congr targpw drops (fun name member => agree name (List.mem_append_left _ member)),
      fillenv_congr _ (fun name member => agree name (List.mem_append_right _ member))]

/-- `permit nopass setenv { TMPDIR -TERM EDITOR=$VISUAL } alice` -/
def setenvAlice : Rule :=
  { permitAlice with
    envlist := some (["TMPDIR", "-TERM", "EDITOR=$VISUAL"].map CString.ofString) }

/-- A variable that no entry inherits does not reach the new process. -/
theorem preloaded_library_ignored :
    hasBit setenvAlice.options keepenv = false ∧
      prepenv setenvAlice rootEntry
          (["TERM=vt220", "LD_PRELOAD=/tmp/l.so", "VISUAL=vi"].map CString.ofString) =
        prepenv setenvAlice rootEntry (["VISUAL=vi", "TERM=vt220"].map CString.ofString) := by
  refine ⟨by decide, ?_⟩
  exact (prepared_environment setenvAlice rootEntry _).2 (by decide) _ (by decide)

/-! ## The path -/

def pathName : CString := CString.ofString "PATH"

/-- The caller's path under `keepenv`, the safe path otherwise. -/
def expectedPath (rule : Rule) (myEnv : List CString) : CString :=
  if hasBit rule.options keepenv then (lookupName pathName myEnv).getD safepath else safepath

theorem path_bound_iff (rule : Rule) (targpw : Passwd) (myEnv : List CString)
    (unset : ∀ entry ∈ rule.envlist.getD [], settingName entry ≠ pathName) :
    bindings pathName (prepenv rule targpw myEnv) = [expectedPath rule myEnv] ↔
      hasBit rule.options keepenv = true ∧ (lookupName pathName myEnv).isSome = true := by
  have quiet : lastMatch (concerns pathName) (rule.envlist.getD []) = none := by
    apply last_match_none
    intro entry member
    simp [concerns, unset entry member]
  have value : defaultValue rule targpw myEnv pathName =
      if hasBit rule.options keepenv then lookupName pathName myEnv else none := by
    have unfixed : (fixedBindings rule targpw).lookup pathName = none := by rfl
    have kept : keepable pathName = true := by decide
    rw [defaultValue, unfixed, kept, Bool.and_true]
    exact if_neg (by decide)
  rw [prepenv_bindings, expectedValue, quiet]
  dsimp only
  rw [value, expectedPath]
  cases hasBit rule.options keepenv with
  | false => simp
  | true => cases lookupName pathName myEnv with
    | none => simp
    | some path => simp

/-- `permit nopass keepenv alice` -/
def keepAlicesEnv : Rule := { permitAlice with options := nopass ||| keepenv }

theorem callers_path_kept :
    bindings pathName (prepenv keepAlicesEnv rootEntry [CString.ofString "PATH=/usr/bin"]) =
      [expectedPath keepAlicesEnv [CString.ofString "PATH=/usr/bin"]] := by
  apply (path_bound_iff keepAlicesEnv rootEntry [CString.ofString "PATH=/usr/bin"] (by decide)).mpr
  decide

/-- Without `keepenv` the new process has no path at all. -/
theorem no_path_without_keepenv :
    bindings pathName (prepenv permitAlice rootEntry [CString.ofString "PATH=/usr/bin"]) = [] ∧
      expectedPath permitAlice [CString.ofString "PATH=/usr/bin"] = safepath ∧
      bindings pathName (prepenv permitAlice rootEntry [CString.ofString "PATH=/usr/bin"]) ≠
        [expectedPath permitAlice [CString.ofString "PATH=/usr/bin"]] := by
  have nothing :
      bindings pathName (prepenv permitAlice rootEntry [CString.ofString "PATH=/usr/bin"]) = [] := by
    decide
  refine ⟨nothing, by decide, ?_⟩
  rw [nothing]
  exact (List.cons_ne_nil _ _).symm

end Cprogramming.Pfexec.PreparedEnvironment
