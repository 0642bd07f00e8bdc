import Cprogramming.Pfexec.Rules

/-!
# The options of a rule

The productions `option` and `options` of `parse.y` and the rule they end up in. A
reduction merges four attributes; whether a section was there before is read off its
attribute, which is null for `chroot` without a path as well as for no `chroot`.
-/

namespace Cprogramming.Pfexec.OptionGrammar

open Library.CStrings
open Protocol Rules

set_option autoImplicit false

def persist : UInt32 := 0x4

/-- The right-hand sides of `option`; a `setgroups` section has at least one group. -/
inductive RuleOption where
  | nopass
  | nolog
  | persist
  | keepenv
  | keepgroups
  | setenv (strlist : List CString)
  | setgroups (strlist : List CString) (last : CString)
  | chroot
  | chrootPath (path : CString)
deriving DecidableEq

/-- The members of `yystype` that belong to options. -/
structure Attributes where
  options : UInt32
  envlist : Option (List CString)
  grplist : Option (List CString)
  chroot : Option CString
deriving DecidableEq

def noOptions : Attributes := ⟨0, none, none, none⟩

def reduceOption : RuleOption → Attributes
  | .nopass => ⟨nopass, none, none, none⟩
  | .nolog => ⟨nolog, none, none, none⟩
  | .persist => ⟨persist, none, none, none⟩
  | .keepenv => ⟨keepenv, none, none, none⟩
  | .keepgroups => ⟨keepgrp, none, none, none⟩
  | .setenv strlist => ⟨0, some strlist, none, none⟩
  | .setgroups strlist last => ⟨0, none, some (strlist ++ [last]), none⟩
  | .chroot => ⟨chroot, none, none, none⟩
  | .chrootPath path => ⟨chroot, none, none, some path⟩

/-- The action of `options: options option`, with the text given to `yyerror` when
it fails. -/
def mergeOption (left right : Attributes) : Except String Attributes :=
  let options := left.options ||| right.options
  if options &&& (nopass ||| persist) = nopass ||| persist then
    .error "can't combine nopass and persist"
  else if right.envlist.isSome && left.envlist.isSome then
    .error "can't have two setenv sections"
  else if right.grplist.isSome && left.grplist.isSome then
    .error "can't have two setgrp sections"
  else if right.chroot.isSome && left.chroot.isSome then
    .error "can't have two chroot sections"
  else
    .ok ⟨options, right.envlist.or left.envlist, right.grplist.or left.grplist,
      right.chroot.or left.chroot⟩

def mergeOptions : Attributes → List RuleOption → Except String Attributes
  | left, [] => .ok left
  | left, option :: rest =>
    match mergeOption left (reduceOption option) with
    | .error message => .error message
    | .ok next => mergeOptions next rest

def parseOptions (options : List RuleOption) : Except String Attributes :=
  mergeOptions noOptions options

structure RuleRest where
  ident : CString
  target : Option CString
  cmd : Option CString
  cmdargs : Option (List CString)

/-- The actions of `action` for `permit` and of `rule`. -/
def permitRule (attributes : Attributes) (rest : RuleRest) : Rule where
  action := .permit
  options := attributes.options
  ident := rest.ident
  target := rest.target
  cmd := rest.cmd
  cmdargs := rest.cmdargs
  envlist := attributes.envlist
  grplist := attributes.grplist
  chroot := attributes.chroot

def parsePermit (options : List RuleOption) (rest : RuleRest) : Except String Rule :=
  (parseOptions options).map fun attributes => permitRule attributes rest

def ruleAttributes (rule : Rule) : Attributes :=
  ⟨rule.options, rule.envlist, rule.grplist, rule.chroot⟩

/-! ## What a sequence of options writes -/

def optionBit : RuleOption → UInt32
  | .nopass => nopass
  | .nolog => nolog
  | .persist => persist
  | .keepenv => keepenv
  | .keepgroups => keepgrp
  | .setenv _ => 0
  | .setgroups _ _ => 0
  | .chroot => chroot
  | .chrootPath _ => chroot

def setenvSection : RuleOption → Option (List CString)
  | .setenv strlist => some strlist
  | _ => none

def setgroupsSection : RuleOption → Option (List CString)
  | .setgroups strlist last => some (strlist ++ [last])
  | _ => none

def chrootSection : RuleOption → Option CString
  | .chrootPath path => some path
  | _ => none

def isChroot : RuleOption → Bool
  | .chroot => true
  | .chrootPath _ => true
  | _ => false

/-- The attributes hold the bits of the options and their sections, and no more. -/
structure Written (options : List RuleOption) (attributes : Attributes) : Prop where
  bits : ∀ mask, hasBit attributes.options mask =
    options.any fun option => hasBit (optionBit option) mask
  envlist : options.filterMap setenvSection = attributes.envlist.toList
  grplist : options.filterMap setgroupsSection = attributes.grplist.toList
  chroot : options.filterMap chrootSection = attributes.chroot.toList

structure WellFormed (options : List RuleOption) : Prop where
  compatible : ¬ (.nopass ∈ options ∧ .persist ∈ options)
  setenv : (options.filterMap setenvSection).length ≤ 1
  setgroups : (options.filterMap setgroupsSection).length ≤ 1
  chroot : options.countP isChroot ≤ 1

/-- The sequences the actions accept: a `chroot` without a path is not counted. -/
structure Accepted (options : List RuleOption) : Prop where
  compatible : ¬ (.nopass ∈ options ∧ .persist ∈ options)
  setenv : (options.filterMap setenvSection).length ≤ 1
  setgroups : (options.filterMap setgroupsSection).length ≤ 1
  chroot : (options.filterMap chrootSection).length ≤ 1

theorem accepted_before {before after : List RuleOption} (accepted : Accepted (before ++ after)) :
    Accepted before where
  compatible both := accepted.compatible
    ⟨List.mem_append_left after both.1, List.mem_append_left after both.2⟩
  setenv := by
    have bound := accepted.setenv
    rw [List.filterMap_append, List.length_append] at bound
    omega
  setgroups := by
    have bound := accepted.setgroups
    rw [List.filterMap_append, List.length_append] at bound
    omega
  chroot := by
    have bound := accepted.chroot
    rw [List.filterMap_append, List.length_append] at bound
    omega

theorem accepted_perm {options others : List RuleOption} (perm : options.Perm others)
    (accepted : Accepted options) : Accepted others where
  compatible both := accepted.compatible ⟨perm.mem_iff.mpr both.1, perm.mem_iff.mpr both.2⟩
  setenv := (perm.filterMap setenvSection).length_eq ▸ accepted.setenv
  setgroups := (perm.filterMap setgroupsSection).length_eq ▸ accepted.setgroups
  chroot := (perm.filterMap chrootSection).length_eq ▸ accepted.chroot

/-! ## Words of option bits -/

variable (option : RuleOption) (word left right : UInt32)

variable {options : List RuleOption}

theorem and_or_words : word &&& (left ||| right) = (word &&& left) ||| (word &&& right) := by
  apply UInt32.toBitVec_inj.mp
  ext index
  simp [Bool.and_or_distrib_left]

theorem has_bit_or (mask : UInt32) :
    hasBit (left ||| right) mask = (hasBit left mask || hasBit right mask) := by
  rw [hasBit, hasBit, hasBit, UInt32.and_comm, and_or_words, UInt32.and_comm mask left,
    UInt32.and_comm mask right]
  apply Bool.eq_iff_iff.mpr
  simp only [bne_iff_ne, ne_eq, UInt32.or_eq_zero_iff, Bool.or_eq_true]
  tauto

theorem has_bit_two_pow {index : Nat} (bound : index < 32) :
    hasBit word ⟨BitVec.twoPow 32 index⟩ = word.toBitVec.getLsbD index := by
  apply Bool.eq_iff_iff.mpr
  rw [hasBit, bne_iff_ne, ne_eq, ← UInt32.toBitVec_inj, UInt32.toBitVec_and, BitVec.and_twoPow]
  cases word.toBitVec.getLsbD index with
  | false => simp
  | true =>
    simp only [if_true, iff_true]
    intro zero
    have bit := congrArg (fun vector => BitVec.getLsbD vector index) zero
    simp [bound] at bit

theorem options_ext (same : ∀ mask, hasBit left mask = hasBit right mask) : left = right := by
  apply UInt32.toBitVec_inj.mp
  apply BitVec.eq_of_getLsbD_eq
  intro index bound
  rw [← has_bit_two_pow left bound, same, has_bit_two_pow right bound]

theorem and_single_bit (index : Nat) : word &&& ⟨BitVec.twoPow 32 index⟩ = 0 ∨
      word &&& ⟨BitVec.twoPow 32 index⟩ = ⟨BitVec.twoPow 32 index⟩ := by
  rw [← UInt32.toBitVec_inj, ← UInt32.toBitVec_inj, UInt32.toBitVec_and, BitVec.and_twoPow]
  split_ifs
  · exact Or.inr rfl
  · exact Or.inl rfl

theorem both_bits_iff (options : UInt32) :
    options &&& (nopass ||| persist) = nopass ||| persist ↔
      hasBit options nopass = true ∧ hasBit options persist = true := by
  have first : options &&& nopass = 0 ∨ options &&& nopass = nopass := and_single_bit options 0
  have second : options &&& persist = 0 ∨ options &&& persist = persist :=
    and_single_bit options 2
  rw [and_or_words, hasBit, hasBit]
  rcases first with first | first
  · rcases second with second | second
    · rw [first, second]
      decide
    · rw [first, second]
      decide
  · rcases second with second | second
    · rw [first, second]
      decide
    · rw [first, second]
      decide

theorem option_bit_nopass : hasBit (optionBit option) nopass = true ↔ option = .nopass := by
  cases option <;>
    simp [optionBit, hasBit, nopass, nolog, persist, keepenv, keepgrp, chroot] <;> decide

theorem option_bit_persist : hasBit (optionBit option) persist = true ↔ option = .persist := by
  cases option <;>
    simp [optionBit, hasBit, nopass, nolog, persist, keepenv, keepgrp, chroot] <;> decide

theorem conflict_iff {word : UInt32}
    (bits : ∀ mask, hasBit word mask = options.any fun option => hasBit (optionBit option) mask) :
    word &&& (nopass ||| persist) = nopass ||| persist ↔
      .nopass ∈ options ∧ .persist ∈ options := by
  rw [both_bits_iff, bits, bits, List.any_eq_true, List.any_eq_true]
  simp only [option_bit_nopass, option_bit_persist, exists_eq_right]

/-! ## One reduction -/

theorem reduce_option_eq : reduceOption option =
      ⟨optionBit option, setenvSection option, setgroupsSection option, chrootSection option⟩ := by
  cases option <;> rfl

/-- A section is a second one exactly if its attribute is set already. -/
theorem merge_section {Section : Type} {seen : List Section} {left : Option Section}
    (right : Option Section) (written : seen = left.toList) :
    ((right.isSome && left.isSome) = true → 2 ≤ (seen ++ right.toList).length) ∧
      (¬ (right.isSome && left.isSome) = true → seen ++ right.toList = (right.or left).toList) := by
  subst written
  cases left with
  | none => cases right with
    | none => simp
    | some new => simp
  | some old => cases right with
    | none => simp
    | some new => simp

theorem filter_map_snoc {Item Section : Type} (pick : Item → Option Section) (items : List Item)
    (item : Item) : (items ++ [item]).filterMap pick = items.filterMap pick ++ (pick item).toList := by
  rw [List.filterMap_append]
  cases found : pick item with
  | none => rw [List.filterMap_cons_none found]; rfl
  | some part => rw [List.filterMap_cons_some found]; rfl

theorem merge_option_spec {seen : List RuleOption} {left : Attributes}
    (written : Written seen left) (option : RuleOption) :
    match mergeOption left (reduceOption option) with
    | .ok next => Accepted (seen ++ [option]) ∧ Written (seen ++ [option]) next
    | .error _ => ¬ Accepted (seen ++ [option]) := by
  have envlist := merge_section (setenvSection option) written.envlist
  have grplist := merge_section (setgroupsSection option) written.grplist
  have paths := merge_section (chrootSection option) written.chroot
  rw [← filter_map_snoc] at envlist grplist paths
  have bits (mask : UInt32) : hasBit (left.options ||| optionBit option) mask =
      (seen ++ [option]).any fun other => hasBit (optionBit other) mask := by
    rw [has_bit_or, written.bits, List.any_append, List.any_cons, List.any_nil, Bool.or_false]
  have conflict := conflict_iff bits
  rw [reduce_option_eq, mergeOption]
  dsimp only
  by_cases clash : (left.options ||| optionBit option) &&& (nopass ||| persist) = nopass ||| persist
  · rw [if_pos clash]
    exact fun accepted => accepted.compatible (conflict.mp clash)
  · rw [if_neg clash]
    by_cases environments : ((setenvSection option).isSome && left.envlist.isSome) = true
    · rw [if_pos environments]
      intro accepted
      have bound := accepted.setenv
      have second := envlist.1 environments
      omega
    · rw [if_neg environments]
      by_cases groups : ((setgroupsSection option).isSome && left.grplist.isSome) = true
      · rw [if_pos groups]
        intro accepted
        have bound := accepted.setgroups
        have second := grplist.1 groups
        omega
      · rw [if_neg groups]
        by_cases roots : ((chrootSection option).isSome && left.chroot.isSome) = true
        · rw [if_pos roots]
          intro accepted
          have bound := accepted.chroot
          have second := paths.1 roots
          omega
        · rw [if_neg roots]
          have merged : Written (seen ++ [option])
              ⟨left.options ||| optionBit option, (setenvSection option).or left.envlist,
                (setgroupsSection option).or left.grplist, (chrootSection option).or left.chroot⟩ :=
            ⟨bits, envlist.2 environments, grplist.2 groups, paths.2 roots⟩
          refine ⟨⟨fun both => clash (conflict.mpr both), ?_, ?_, ?_⟩, merged⟩
          · rw [merged.envlist]
            exact Option.length_toList_le
          · rw [merged.grplist]
            exact Option.length_toList_le
          · rw [merged.chroot]
            exact Option.length_toList_le

/-! ## A sequence of reductions -/

theorem merge_options_spec (rest seen : List RuleOption) (left : Attributes)
    (accepted : Accepted seen) (written : Written seen left) :
    match mergeOptions left rest with
    | .ok attributes => Accepted (seen ++ rest) ∧ Written (seen ++ rest) attributes
    | .error _ => ¬ Accepted (seen ++ rest) := by
  induction rest generalizing seen left with
  | nil =>
    rw [mergeOptions, List.append_nil]
    exact ⟨accepted, written⟩
  | cons option rest ih =>
    have step := merge_option_spec written option
    have split : seen ++ option :: rest = (seen ++ [option]) ++ rest := by simp
    rw [mergeOptions, split]
    cases merged : mergeOption left (reduceOption option) with
    | error message =>
      rw [merged] at step
      exact fun whole => step (accepted_before whole)
    | ok next =>
      rw [merged] at step
      exact ih (seen ++ [option]) next step.1 step.2

theorem parse_options_spec (options : List RuleOption) :
    match parseOptions options with
    | .ok attributes => Accepted options ∧ Written options attributes
    | .error _ => ¬ Accepted options := by
  apply merge_options_spec options [] noOptions
  · exact ⟨by simp, by simp, by simp, by simp⟩
  · exact ⟨fun mask => by simp [noOptions, hasBit], rfl, rfl, rfl⟩

theorem parse_options_ok {attributes : Attributes}
    (parsed : parseOptions options = .ok attributes) :
    Accepted options ∧ Written options attributes := by
  have spec := parse_options_spec options
  rw [parsed] at spec
  exact spec

theorem parse_options_accepts (accepted : Accepted options) :
    ∃ attributes, parseOptions options = .ok attributes := by
  have spec := parse_options_spec options
  cases parsed : parseOptions options with
  | error message =>
    rw [parsed] at spec
    exact absurd accepted spec
  | ok attributes => exact ⟨attributes, rfl⟩

theorem section_unique {Section : Type} (pick : RuleOption → Option Section)
    {options others : List RuleOption} (perm : options.Perm others) {left right : Option Section}
    (first : options.filterMap pick = left.toList) (second : others.filterMap pick = right.toList) :
    left = right := by
  apply Option.ext
  intro part
  rw [← Option.mem_toList, ← Option.mem_toList, ← first, ← second]
  exact (perm.filterMap pick).mem_iff

theorem written_unique {options others : List RuleOption} (perm : options.Perm others)
    {left right : Attributes} (first : Written options left) (second : Written others right) :
    left = right := by
  have bits : left.options = right.options := by
    apply options_ext
    intro mask
    rw [first.bits, second.bits]
    exact perm.any_eq
  have envlist := section_unique setenvSection perm first.envlist second.envlist
  have grplist := section_unique setgroupsSection perm first.grplist second.grplist
  have root := section_unique chrootSection perm first.chroot second.chroot
  cases left
  cases right
  simp only [Attributes.mk.injEq]
  exact ⟨bits, envlist, grplist, root⟩

/-- The options of a rule are a set: allowed sequences are accepted, and the rule holds
what was written in any order. -/
structure OptionSet (options : List RuleOption) (rest : RuleRest) : Prop where
  accepts : (∃ rule, parsePermit options rest = .ok rule) ↔ WellFormed options
  ordered : ∀ rule, parsePermit options rest = .ok rule →
    ∀ others, options.Perm others → parsePermit others rest = .ok rule
  written : ∀ rule, parsePermit options rest = .ok rule → Written options (ruleAttributes rule)

theorem parse_permit_ok {rest : RuleRest} {rule : Rule}
    (parsed : parsePermit options rest = .ok rule) :
    ∃ attributes, parseOptions options = .ok attributes ∧ rule = permitRule attributes rest := by
  rw [parsePermit] at parsed
  cases attributes : parseOptions options with
  | error message =>
    rw [attributes] at parsed
    cases parsed
  | ok found =>
    rw [attributes] at parsed
    exact ⟨found, rfl, (Except.ok.inj parsed).symm⟩

theorem accepts_iff (options : List RuleOption) (rest : RuleRest) :
    (∃ rule, parsePermit options rest = .ok rule) ↔ Accepted options := by
  constructor
  · intro parses
    obtain ⟨rule, parsed⟩ := parses
    obtain ⟨attributes, found, _⟩ := parse_permit_ok parsed
    exact (parse_options_ok found).1
  · intro accepted
    obtain ⟨attributes, found⟩ := parse_options_accepts accepted
    refine ⟨permitRule attributes rest, ?_⟩
    rw [parsePermit, found]
    rfl

theorem chroot_paths_le (options : List RuleOption) :
    (options.filterMap chrootSection).length ≤ options.countP isChroot := by
  rw [List.length_filterMap_eq_countP]
  apply List.countP_mono_left
  intro option _ named
  cases option with
  | chrootPath path => rfl
  | nopass => exact named
  | nolog => exact named
  | persist => exact named
  | keepenv => exact named
  | keepgroups => exact named
  | setenv strlist => exact named
  | setgroups strlist last => exact named
  | chroot => rfl

theorem option_set_iff (options : List RuleOption) (rest : RuleRest) :
    OptionSet options rest ↔
      options.countP isChroot ≤ 1 ∨ 2 ≤ (options.filterMap chrootSection).length ∨
        (.nopass ∈ options ∧ .persist ∈ options) ∨ 2 ≤ (options.filterMap setenvSection).length ∨
        2 ≤ (options.filterMap setgroupsSection).length := by
  have paths := chroot_paths_le options
  constructor
  · intro set
    by_contra unmet
    simp only [not_or, Nat.not_le] at unmet
    obtain ⟨many, few, compatible, environments, groups⟩ := unmet
    have accepted : Accepted options := ⟨compatible, by omega, by omega, by omega⟩
    have formed := set.accepts.mp ((accepts_iff options rest).mpr accepted)
    have bound := formed.chroot
    omega
  · intro condition
    constructor
    · rw [accepts_iff options rest]
      constructor
      · intro accepted
        refine ⟨accepted.compatible, accepted.setenv, accepted.setgroups, ?_⟩
        have first := accepted.setenv
        have second := accepted.setgroups
        have third := accepted.chroot
        rcases condition with single | twice | both | twice | twice
        · exact single
        · omega
        · exact absurd both accepted.compatible
        · omega
        · omega
      · intro formed
        have bound := formed.chroot
        exact ⟨formed.compatible, formed.setenv, formed.setgroups, by omega⟩
    · intro rule parsed others perm
      obtain ⟨attributes, found, rfl⟩ := parse_permit_ok parsed
      have spec := parse_options_ok found
      obtain ⟨again, same⟩ := parse_options_accepts (accepted_perm perm spec.1)
      have equal := written_unique perm spec.2 (parse_options_ok same).2
      rw [parsePermit, same, equal]
      rfl
    · intro rule parsed
      obtain ⟨attributes, found, rfl⟩ := parse_permit_ok parsed
      exact (parse_options_ok found).2

/-- `permit chroot { } chroot { /jail } alice` is accepted, with the path that was
written second. -/
theorem two_chroots_accepted :
    (∃ rule, parsePermit [.chroot, .chrootPath (CString.ofString "/jail")]
        ⟨CString.ofString "alice", none, none, none⟩ = .ok rule ∧
        rule.chroot = some (CString.ofString "/jail")) ∧
      ¬ OptionSet [.chroot, .chrootPath (CString.ofString "/jail")]
        ⟨CString.ofString "alice", none, none, none⟩ := by
  refine ⟨⟨_, rfl, rfl⟩, ?_⟩
  intro set
  have formed := set.accepts.mp ⟨_, rfl⟩
  exact absurd formed.chroot (by decide)

end Cprogramming.Pfexec.OptionGrammar
