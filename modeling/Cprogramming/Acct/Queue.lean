import Cprogramming.Acct.Effects

/-!
# The order of the audit records

Records are inserted at the head of the queue and read from its tail, numbered by
a counter that `acctclose` resets together with the queue. What was delivered since
the last close, followed by what is queued, is what was recorded since then.
-/

namespace Cprogramming.Acct.Queue

open Library.CStrings Library.MachineWords Library.Runs
open Records Device Effects

set_option autoImplicit false

/-- The calls that concern the queue, one at a time: a reader that finds it empty
does not return. -/
inductive QueueCall where
  | record (node : AcctRecord)
  | ioctl (namei : CString → Option Vnode) (cmd : AcctIoc) (ctl : AcctCtl)
  | read (uio : Uio) (uiomove : Nat → Int)
  | close

/-- The driver with what was recorded and what was delivered since the last
close. -/
structure History where
  driver : Driver
  recorded : List AcctRecord
  delivered : List (AcctRecord × List Piece)

def advance (history : History) : QueueCall → History
  | .record node =>
    ⟨addNode history.driver node, history.recorded ++ [node], history.delivered⟩
  | .ioctl namei cmd ctl => { history with driver := (acctioctl namei history.driver cmd ctl).driver }
  | .read uio uiomove =>
    match acctread history.driver uio [] uiomove with
    | .returned driver _ (some reading) =>
      ⟨driver, history.recorded, history.delivered ++ [reading]⟩
    | .returned driver _ none => { history with driver := driver }
    | .asleep driver => { history with driver := driver }
  | .close => ⟨acctclose history.driver, [], []⟩

def Served (history : History) : QueueCall → Prop
  | .read uio uiomove => ∃ driver tail pieces,
      acctread history.driver uio [] uiomove = .returned driver 0 (some (tail, pieces)) ∧
        tail.acCommon.acLen ≤ uio.uioResid
  | _ => True

def numbered (records : List AcctRecord) : List AcctRecord :=
  records.mapIdx fun index record => record.withSeq (index % 2 ^ 32)

def wholeRecord (record : AcctRecord) : AcctRecord × List Piece :=
  (record, [⟨0, record.acCommon.acLen⟩])

theorem numbered_append (records : List AcctRecord) (node : AcctRecord) :
    numbered (records ++ [node]) =
      numbered records ++ [node.withSeq (records.length % 2 ^ 32)] := by
  simp [numbered, List.mapIdx_append]

theorem hook_records_one {context : HookContext} (driver : Driver) (hook : Hook)
    (room : context.malloc = true) :
    ∃ before, (before = driver ∨ ∃ node, before = addNode driver node) ∧
      (callHook context driver hook).acctList = before.acctList ∧
      (callHook context driver hook).acSeq = before.acSeq := by
  have ends := call_hook_ends context driver hook
  generalize callHook context driver hook = after at ends
  cases ends with
  | ignored => exact ⟨driver, Or.inl rfl, rfl, rfl⟩
  | recorded node => exact ⟨_, Or.inr ⟨node, rfl⟩, rfl, rfl⟩
  | dropped failed =>
    rw [room] at failed
    cases failed
  | untracked vnode => exact ⟨driver, Or.inl rfl, vnoderemove_queue driver vnode⟩
  | recordedUntracked node vnode =>
    exact ⟨_, Or.inr ⟨node, rfl⟩, vnoderemove_queue (addNode driver node) vnode⟩

/-! ## A successful read -/

theorem acctread_success {driver after : Driver} {uio : Uio} (uiomove : Nat → Int)
    {tail : AcctRecord} {pieces : List Piece}
    (success : acctread driver uio [] uiomove = .returned after 0 (some (tail, pieces))) :
    driver.acctList.getLast? = some tail ∧
      after = { driver with acctList := driver.acctList.dropLast } ∧
      copyOut uiomove tail.acCommon.acLen uio.uioResid 0 = (pieces, 0) := by
  by_cases off : driver.acctEna = 0 ∧ driver.acctFcount = 0
  · rw [acctread, if_pos off] at success
    cases success
  by_cases negative : uio.uioOffset < 0
  · rw [acctread, if_neg off, if_pos negative] at success
    cases success
  rw [acctread_waits driver uio [] uiomove off negative] at success
  cases last : driver.acctList.getLast? with
  | none =>
    rw [wait_tail_asleep driver last] at success
    cases success
  | some found =>
    rw [wait_tail_queued driver [] found last] at success
    dsimp only at success
    by_cases fault : (copyOut uiomove found.acCommon.acLen uio.uioResid 0).2 ≠ 0
    · rw [if_pos fault] at success
      simp only [ReadResult.returned.injEq, reduceCtorEq, and_false] at success
    · rw [if_neg fault] at success
      simp only [ReadResult.returned.injEq, Option.some.injEq, Prod.mk.injEq] at success
      obtain ⟨left, _, rfl, copied⟩ := success
      exact ⟨rfl, left.symm, Prod.ext copied (not_not.mp fault)⟩

theorem large_copy_whole (uiomove : Nat → Int) {record : AcctRecord} {resid : Nat}
    (large : record.acCommon.acLen ≤ resid) {pieces : List Piece}
    (copied : copyOut uiomove record.acCommon.acLen resid 0 = (pieces, 0)) :
    pieces = [⟨0, record.acCommon.acLen⟩] := by
  have positive := ac_len_positive record
  have room : ¬ (resid = 0 ∨ record.acCommon.acLen = 0) := by omega
  rw [copy_out_eq, if_neg room] at copied
  split_ifs at copied with fault
  · exact absurd (Prod.mk.inj copied).2 fault
  · rw [← (Prod.mk.inj copied).1, Nat.min_eq_left large]

theorem large_read_succeeds (driver : Driver) (uio : Uio) (uiomove : Nat → Int)
    (tail : AcctRecord) (on : ¬ (driver.acctEna = 0 ∧ driver.acctFcount = 0))
    (offset : ¬ uio.uioOffset < 0) (last : driver.acctList.getLast? = some tail)
    (large : tail.acCommon.acLen ≤ uio.uioResid) (copies : uiomove 0 = 0) :
    acctread driver uio [] uiomove =
      .returned { driver with acctList := driver.acctList.dropLast } 0
        (some (wholeRecord tail)) := by
  have positive := ac_len_positive tail
  have room : ¬ (uio.uioResid = 0 ∨ tail.acCommon.acLen = 0) := by omega
  have copied : copyOut uiomove tail.acCommon.acLen uio.uioResid 0 =
      ([⟨0, tail.acCommon.acLen⟩], 0) := by
    rw [copy_out_eq, if_neg room, if_neg (not_not.mpr copies), Nat.min_eq_left large]
  rw [acctread_waits driver uio [] uiomove on offset, wait_tail_queued driver [] tail last]
  simp only [copied, ne_eq, not_true_eq_false, if_false]
  rfl

/-! ## Runs -/

structure InOrder (history : History) : Prop where
  counted : history.driver.acSeq = int32 history.recorded.length
  queued : history.delivered ++ history.driver.acctList.reverse.map wholeRecord =
    (numbered history.recorded).map wholeRecord

theorem int32_zero : int32 ((0 : Nat) : Int) = 0 := by
  exact int32_exact 0 (by decide) (by decide)

theorem ioctl_leaves_queue (namei : CString → Option Vnode) (driver : Driver) (cmd : AcctIoc)
    (ctl : AcctCtl) :
    (acctioctl namei driver cmd ctl).driver.acctList = driver.acctList ∧
      (acctioctl namei driver cmd ctl).driver.acSeq = driver.acSeq := by
  by_cases disables : cmd = .disable
  · rw [disables, disable_eq]
    exact ⟨rfl, rfl⟩
  · have ends := ioctl_ends namei driver cmd ctl disables
    generalize (acctioctl namei driver cmd ctl).driver = after at ends
    cases ends with
    | masked enabled => exact ⟨rfl, rfl⟩
    | tracked vnode ctl => exact ⟨rfl, rfl⟩
    | untracked vnode => exact vnoderemove_queue driver vnode

theorem advance_in_order (history : History) (call : QueueCall) (ordered : InOrder history)
    (served : Served history call) : InOrder (advance history call) := by
  cases call with
  | record node =>
    have number : uint32OfInt history.driver.acSeq = history.recorded.length % 2 ^ 32 := by
      rw [ordered.counted, uint32_of_int32, uint32_of_natural]
    constructor
    · simp only [advance, add_node_eq, ordered.counted, List.length_append, List.length_cons,
        List.length_nil]
      unfold int32
      omega
    · simp only [advance, add_node_eq, number, List.reverse_cons, List.map_append, List.map_cons,
        List.map_nil, numbered_append]
      rw [← List.append_assoc, ordered.queued]
  | ioctl namei cmd ctl =>
    obtain ⟨list, seq⟩ := ioctl_leaves_queue namei history.driver cmd ctl
    constructor
    · simp only [advance, seq]
      exact ordered.counted
    · simp only [advance, list]
      exact ordered.queued
  | read uio uiomove =>
    obtain ⟨driver, tail, pieces, success, large⟩ := served
    obtain ⟨last, left, copied⟩ := acctread_success uiomove success
    have whole := large_copy_whole uiomove large copied
    have split : history.driver.acctList = history.driver.acctList.dropLast ++ [tail] :=
      (List.dropLast_append_getLast? tail last).symm
    have queued := ordered.queued
    rw [split] at queued
    constructor
    · simp only [advance, success, left]
      exact ordered.counted
    · simp only [advance, success, left, whole]
      rw [← queued]
      simp [wholeRecord]
  | close => exact ⟨int32_zero.symm, rfl⟩

def shell (pid : Int) : Process := ⟨[115, 104], ⟨0, 0⟩, pid, 0, 0, false, none, 0⟩

/-- From an empty queue on, the records delivered since the last close are the
first of those recorded since then, each one whole and with its index as its
sequence number. -/
theorem delivered_in_order (driver : Driver) (empty : driver.acctList = [])
    (reset : driver.acSeq = 0) (calls : List QueueCall)
    (served : EachStep advance Served ⟨driver, [], []⟩ calls) :
    (run advance ⟨driver, [], []⟩ calls).delivered <+:
      (numbered (run advance ⟨driver, [], []⟩ calls).recorded).map wholeRecord := by
  have start : InOrder ⟨driver, [], []⟩ := by
    constructor
    · exact reset.trans int32_zero.symm
    · simp only [empty]
      rfl
  have ordered := run_invariant_of_steps advance InOrder Served advance_in_order _ start calls served
  rw [← ordered.queued]
  exact List.prefix_append _ _

def forkAndExec : List QueueCall :=
  [.record (forkRecord ⟨⟨9, 0⟩, ⟨0, 0⟩, 100, 10000⟩ (shell 7) (shell 8)),
    .record (execRecord ⟨⟨9, 0⟩, ⟨0, 0⟩, 100, 10000⟩ (shell 8)), .read ⟨0, 4096⟩ (fun _ => 0)]

theorem fork_delivered_first :
    let history := run advance ⟨{ acctattach with acctEna := acctEnaFork ||| acctEnaExec }, [], []⟩
      forkAndExec
    history.delivered <+: (numbered history.recorded).map wholeRecord := by
  apply delivered_in_order
  · rfl
  · rfl
  · refine ⟨trivial, trivial, ⟨_, _, _, large_read_succeeds _ ⟨0, 4096⟩ (fun _ => 0)
      ((forkRecord ⟨⟨9, 0⟩, ⟨0, 0⟩, 100, 10000⟩ (shell 7) (shell 8)).withSeq 0)
      (by decide) (by decide) ?_ (by decide) rfl, by decide⟩, trivial⟩
    decide

end Cprogramming.Acct.Queue
