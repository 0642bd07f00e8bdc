import Cprogramming.Pfexec.AreaLayout
import Cprogramming.Pfexec.Rules

/-!
# Which arguments a rule accepts

The argument loop of `match` compares every word of the rule with as many bytes
as the request recorded for the argument, and one index past the last argument
is still compared, against an unused reference of length zero. So a rule word
may be longer than the argument it is compared with, and a rule may have one
word more than the request has arguments.
-/

namespace Cprogramming.Pfexec.CommandMatch

open Library.ByteMemory Library.CStrings Library.MachineWords Library.PackedLayout
open Protocol FillMbuf AreaLayout Rules

set_option autoImplicit false

def Agrees (argv : List CString) (index : Nat) (argument word : CString) : Prop :=
  (Stuck argv index → word.bytes = []) ∧
    (¬ Stuck argv index → keptBytes argv index argument <+: word.bytes)

def AgreeThroughout (argv cmdargs : List CString) : Prop :=
  (cmdargs.length = argv.length - 1 ∨ cmdargs.length = argv.length) ∧
    ∀ index argument word, argv[index + 1]? = some argument → cmdargs[index]? = some word →
      Agrees argv (index + 1) argument word

/-! ## The loop -/

def WordAccepted (req : PfexecReq) (index : Nat) (word : CString) : Prop :=
  strncmp req.pfrArgarea word.bytes (req.pfrArgp (index + 1)).pfaOffset
    (req.pfrArgp (index + 1)).pfaLen = 0

theorem match_args_iff (req : PfexecReq) (maxArgs : Int) (start : Nat) (words : List CString) :
    matchArgs req maxArgs start words = true ↔
      (∀ index word, words[index]? = some word →
        ((start + index : Nat) : Int) ≤ maxArgs ∧ WordAccepted req (start + index) word) ∧
      maxArgs ≤ ((start + words.length : Nat) : Int) := by
  induction words generalizing start with
  | nil => simp [matchArgs]
  | cons word rest ih =>
    have later : (∀ index next, (word :: rest)[index]? = some next →
          ((start + index : Nat) : Int) ≤ maxArgs ∧ WordAccepted req (start + index) next) ↔
        ((start : Int) ≤ maxArgs ∧ WordAccepted req start word) ∧
          ∀ index next, rest[index]? = some next →
            ((start + 1 + index : Nat) : Int) ≤ maxArgs ∧
              WordAccepted req (start + 1 + index) next := by
      constructor
      · intro all
        refine ⟨all 0 word rfl, ?_⟩
        intro index next entry
        have shifted := all (index + 1) next (by simpa using entry)
        rwa [show start + (index + 1) = start + 1 + index by omega] at shifted
      · rintro ⟨first, others⟩ index next entry
        cases index with
        | zero =>
          obtain rfl : word = next := by simpa using entry
          exact first
        | succ index =>
          rw [show start + (index + 1) = start + 1 + index by omega]
          exact others index next (by simpa using entry)
    have length : start + (word :: rest).length = start + 1 + rest.length := by
      rw [List.length_cons]
      omega
    rw [later, length, and_assoc, ← ih (start + 1), matchArgs]
    simp only [WordAccepted]
    split_ifs with beyond differs
    · have outside : ¬ (start : Int) ≤ maxArgs := by omega
      simp [outside]
    · simp [differs]
    · have inside : (start : Int) ≤ maxArgs := by omega
      simp [inside, not_not.mp differs]

/-- The two count checks around the loop leave exactly two lengths. -/
theorem match_command_iff {req : PfexecReq} {rule : Rule} {cmd : CString} {cmdargs : List CString}
    (cmdSet : rule.cmd = some cmd) (argsSet : rule.cmdargs = some cmdargs)
    (positive : 0 < req.pfrArgc) (few : req.pfrArgc < refMax) : matchCommand req rule = true ↔
      req.path = cmd ∧
        (cmdargs.length = req.pfrArgc - 1 ∨ cmdargs.length = req.pfrArgc) ∧
        ∀ index word, cmdargs[index]? = some word → WordAccepted req index word := by
  have limit : int32 ((req.pfrArgc : Int) - 1) = ((req.pfrArgc - 1 : Nat) : Int) := by
    simp only [refMax] at few
    rw [int32_exact _ (by omega) (by omega)]
    omega
  have paths : strcmp cmd.bytes req.path.bytes = 0 ↔ req.path = cmd := by
    rw [strcmp_eq_zero_iff]
    exact eq_comm
  simp only [matchCommand, cmdSet, argsSet, limit]
  by_cases same : req.path = cmd
  · rw [if_neg (not_not.mpr (paths.mpr same))]
    simp only [same, true_and]
    split_ifs with extra
    · obtain ⟨rfl, more⟩ := extra
      simp only [List.length_nil, false_iff]
      omega
    · rw [match_args_iff, Nat.zero_add]
      constructor
      · rintro ⟨words, enough⟩
        refine ⟨?_, ?_⟩
        · by_cases empty : cmdargs = []
          · simp only [empty, List.length_nil, true_and] at extra ⊢
            omega
          · have nonempty : 0 < cmdargs.length := List.length_pos_iff.mpr empty
            have last := (words (cmdargs.length - 1) _ (List.getElem?_eq_getElem (by omega))).1
            omega
        · intro index word entry
          simpa using (words index word entry).2
      · rintro ⟨lengths, words⟩
        refine ⟨?_, by omega⟩
        intro index word entry
        have bound : index < cmdargs.length := (List.getElem?_eq_some_iff.mp entry).1
        rw [Nat.zero_add]
        exact ⟨by omega, words index word entry⟩
  · rw [if_pos (fun zero => same (paths.mp zero))]
    simp [same]

/-! ## Requests of the kernel -/

theorem fill_loop_refs_length (strings : List CString) {state : AreaFill}
    (counted : state.refs.length = state.argc) :
    (fillLoop strings state).refs.length = (fillLoop strings state).argc := by
  induction strings generalizing state with
  | nil => exact counted
  | cons string rest ih =>
    rw [fillLoop]
    split_ifs with running
    · apply ih
      simp [fillOne, counted]
    · exact counted

theorem ref_past_end {strings : List CString} (fits : (sizes strings).sum ≤ argMax)
    (room : strings.length ≤ refMax) :
    (fillArea strings).refAt strings.length = PfexecArg.zero := by
  have counted : (fillArea strings).refs.length = strings.length := by
    rw [← fill_area_argc strings fits room]
    exact fill_loop_refs_length strings rfl
  rw [AreaFill.refAt, List.getD_eq_default _ _ (by omega)]

theorem kept_bytes_initial (strings : List CString) (index : Nat) (string : CString) :
    keptBytes strings index string <+: string.bytes := by
  unfold keptBytes
  split_ifs
  · exact List.take_prefix _ _
  · exact List.prefix_refl _

section Request

variable (pid : UInt32) (creds : Ucred) (uap : SysPfexecveArgs) (argv : List CString)

theorem request_argc (passed : uap.argp = some argv) (fits : (sizes argv).sum ≤ argMax)
    (room : argv.length ≤ refMax) : (fillMbuf pid creds uap).pfrArgc = argv.length := by
  rw [← fill_area_argc argv fits room]
  simp only [fillMbuf, passed, Option.getD_some]

theorem word_accepted_iff (passed : uap.argp = some argv) (fits : (sizes argv).sum ≤ argMax)
    (room : argv.length ≤ refMax) (index : Nat) (argument word : CString)
    (entry : argv[index + 1]? = some argument) :
    WordAccepted (fillMbuf pid creds uap) index word ↔ Agrees argv (index + 1) argument word := by
  have bound : index + 1 < argv.length := (List.getElem?_eq_some_iff.mp entry).1
  have area : (fillMbuf pid creds uap).pfrArgarea = (fillArea argv).area := by
    simp only [fillMbuf, passed, Option.getD_some]
  have refs : (fillMbuf pid creds uap).pfrArgp = (fillArea argv).refAt := by
    simp only [fillMbuf, passed, Option.getD_some]
  rw [WordAccepted, area, refs]
  by_cases stuck : Stuck argv (index + 1)
  · obtain ⟨offset, ref, nul⟩ := entry_stuck argv room (index + 1) bound stuck
    rw [ref, strncmp_at_nul _ word _ _ (by simp) nul]
    simp [Agrees, stuck]
  · obtain ⟨length, _, holds⟩ := (entry_kept argv fits room (index + 1) argument entry stuck).1
    have free : (0 : UInt8) ∉ keptBytes argv (index + 1) argument := by
      intro member
      exact argument.nulFree ((kept_bytes_initial argv (index + 1) argument).mem member)
    rw [length, strncmp_eq_zero_iff_prefix _ _ _ _ free (by
      intro position inside
      rw [← holds position inside, Int.natCast_add])]
    simp [Agrees, stuck]

theorem word_accepted_past_end (passed : uap.argp = some argv)
    (fits : (sizes argv).sum ≤ argMax) (room : argv.length ≤ refMax) (index : Nat)
    (past : index + 1 = argv.length) (word : CString) :
    WordAccepted (fillMbuf pid creds uap) index word := by
  have refs : (fillMbuf pid creds uap).pfrArgp = (fillArea argv).refAt := by
    simp only [fillMbuf, passed, Option.getD_some]
  rw [WordAccepted, refs, past, ref_past_end fits room]
  simp [strncmp, PfexecArg.zero]

variable (rule : Rule) (cmd : CString) (cmdargs : List CString)

theorem command_accepted_iff (cmdSet : rule.cmd = some cmd)
    (argsSet : rule.cmdargs = some cmdargs) (passed : uap.argp = some argv)
    (positive : 0 < argv.length) (few : argv.length < refMax)
    (fits : (sizes argv).sum ≤ argMax) :
    matchCommand (fillMbuf pid creds uap) rule = true ↔
      (fillMbuf pid creds uap).path = cmd ∧ AgreeThroughout argv cmdargs := by
  have room : argv.length ≤ refMax := by omega
  have argc := request_argc pid creds uap argv passed fits room
  have accepted := word_accepted_iff pid creds uap argv passed fits room
  rw [match_command_iff cmdSet argsSet (by omega) (by omega), argc]
  apply and_congr_right
  intro _
  apply and_congr_right
  intro lengths
  constructor
  · intro words index argument word here entry
    exact (accepted index argument word here).mp (words index word entry)
  · intro agree index word entry
    have bound : index < cmdargs.length := (List.getElem?_eq_some_iff.mp entry).1
    by_cases inside : index + 1 < argv.length
    · have here : argv[index + 1]? = some argv[index + 1] := List.getElem?_eq_getElem inside
      exact (accepted index _ word here).mpr (agree index _ word here entry)
    · exact word_accepted_past_end pid creds uap argv passed fits room index (by omega) word

theorem agree_with_own_tail_iff :
    AgreeThroughout argv argv.tail ↔
      ∀ index argument, argv[index + 1]? = some argument → Stuck argv (index + 1) →
        argument.bytes = [] := by
  have length : argv.tail.length = argv.length - 1 := List.length_tail
  constructor
  · intro agree index argument entry stuck
    exact (agree.2 index argument argument entry (by simpa using entry)).1 stuck
  · intro free
    refine ⟨Or.inl length, ?_⟩
    intro index argument word here entry
    obtain rfl : argument = word := by
      rw [List.getElem?_tail, here] at entry
      exact Option.some.inj entry
    exact ⟨free index argument here, fun _ => kept_bytes_initial argv (index + 1) argument⟩

/-- `match` decides the command and its arguments exactly, except where a
request with other arguments agrees with the rule word by word, or where a
nonempty argument comes after the middle of the area was hit. -/
theorem exact_arguments_iff (cmdSet : rule.cmd = some cmd)
    (argsSet : rule.cmdargs = some cmdargs) (passed : uap.argp = some argv)
    (positive : 0 < argv.length) (few : argv.length < refMax)
    (fits : (sizes argv).sum ≤ argMax) :
    (matchCommand (fillMbuf pid creds uap) rule = true ↔
        (fillMbuf pid creds uap).path = cmd ∧ argv.tail = cmdargs) ↔
      ((fillMbuf pid creds uap).path = cmd →
        (argv.tail = cmdargs →
          ∀ index argument, argv[index + 1]? = some argument → Stuck argv (index + 1) →
            argument.bytes = []) ∧ (argv.tail ≠ cmdargs → ¬ AgreeThroughout argv cmdargs)) := by
  rw [command_accepted_iff pid creds uap argv rule cmd cmdargs cmdSet argsSet passed positive few
    fits]
  have self := agree_with_own_tail_iff argv
  by_cases path : (fillMbuf pid creds uap).path = cmd
  · by_cases same : argv.tail = cmdargs
    · subst same
      simp only [path, true_and, iff_true, forall_const, ne_eq, not_true, IsEmpty.forall_iff,
        and_true]
      exact self
    · simp [path, same]
  · simp [path]

end Request

/-! ## A rule with one argument -/

/-- `permit nopass alice as root cmd /bin/cat args /etc/motd` -/
def catMotd : Rule where
  action := .permit
  options := nopass
  ident := CString.ofString "alice"
  target := some (CString.ofString "root")
  cmd := some (CString.ofString "/bin/cat")
  cmdargs := some [CString.ofString "/etc/motd"]
  envlist := none
  grplist := none
  chroot := none

def catCall (words : List String) : SysPfexecveArgs where
  opts := none
  path := some (CString.ofString "/bin/cat")
  argp := some (words.map CString.ofString)
  envp := some []

theorem cat_motd_accepted :
    matchCommand (fillMbuf 1 nobody (catCall ["cat", "/etc/motd"])) catMotd = true := by
  have decided := exact_arguments_iff 1 nobody (catCall ["cat", "/etc/motd"])
    (["cat", "/etc/motd"].map CString.ofString) catMotd _ _ rfl rfl rfl (by decide) (by decide)
    (by decide)
  refine (decided.mpr ?_).mpr ⟨by decide, by decide⟩
  intro _
  refine ⟨?_, fun other => absurd (by decide) other⟩
  rintro _ index argument _ ⟨earlier, _, middle⟩
  have bound := offset_le_sum (sizes (["cat", "/etc/motd"].map CString.ofString)) earlier
  have total : (sizes (["cat", "/etc/motd"].map CString.ofString)).sum = 14 := by decide
  simp only [argMax] at middle
  omega

/-- A shorter argument and a missing argument pass the same rule. -/
theorem cat_other_accepted :
    matchCommand (fillMbuf 1 nobody (catCall ["cat", "/etc"])) catMotd = true ∧
      (["cat", "/etc"].map CString.ofString).tail ≠ [CString.ofString "/etc/motd"] ∧
      matchCommand (fillMbuf 1 nobody (catCall ["cat"])) catMotd = true ∧
      (["cat"].map CString.ofString).tail ≠ [CString.ofString "/etc/motd"] := by
  refine ⟨?_, ?_, ?_, ?_⟩ <;> decide

end Cprogramming.Pfexec.CommandMatch
