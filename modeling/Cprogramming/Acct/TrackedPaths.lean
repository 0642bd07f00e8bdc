import Cprogramming.Acct.Tracking

/-!
# The file tracked and the file named

A request names a file by a path of up to `PATH_MAX` bytes. The driver copies the
path into 49 bytes before it looks the file up, and again when it stores the name
that later events carry. An entry that exists keeps the name it was made with.
-/

namespace Cprogramming.Acct.TrackedPaths

open Library.CStrings Library.KeyedTree Library.Runs
open Records Device Effects Tracking

set_option autoImplicit false

/-! ## What a call does to the entry of one file -/

/-- Calls remove an entry, keep it with its name, or make one that is named by a
shortened path. -/
inductive EntryEnds (before : Option Trkvnode) : Option Trkvnode → Prop
  | gone : EntryEnds before none
  | kept (old node : Trkvnode) (present : before = some old) (name : node.trkName = old.trkName) :
      EntryEnds before (some node)
  | made (node : Trkvnode) (path : CString) (absent : before = none)
      (name : node.trkName = trkPathCopy path) : EntryEnds before (some node)

theorem entry_unchanged (entry : Option Trkvnode) : EntryEnds entry entry := by
  cases entry with
  | none => exact EntryEnds.gone
  | some node => exact EntryEnds.kept node node rfl rfl

theorem vnoderemove_entry (driver : Driver) (vnode file : Vnode) :
    EntryEnds (driver.fTracker.find (vnodeKey file))
      ((trktreeVnoderemove driver vnode).2.fTracker.find (vnodeKey file)) := by
  rw [vnoderemove_find]
  split_ifs
  · exact EntryEnds.gone
  · exact entry_unchanged _

theorem hook_entry {malloc : Bool} {before after : Driver} (file : Vnode)
    (ends : HookEnds malloc before after) :
    after.fTracker.find (vnodeKey file) = before.fTracker.find (vnodeKey file) ∨
      after.fTracker.find (vnodeKey file) = none := by
  have removed : ∀ (driver : Driver) (vnode : Vnode),
      (trktreeVnoderemove driver vnode).2.fTracker.find (vnodeKey file) =
          driver.fTracker.find (vnodeKey file) ∨
        (trktreeVnoderemove driver vnode).2.fTracker.find (vnodeKey file) = none := by
    intro driver vnode
    rw [vnoderemove_find]
    split_ifs
    · exact Or.inr rfl
    · exact Or.inl rfl
  cases ends with
  | ignored => exact Or.inl rfl
  | recorded node => exact Or.inl rfl
  | dropped failed => exact Or.inl rfl
  | untracked vnode => exact removed before vnode
  | recordedUntracked node vnode => exact removed (addNode before node) vnode

theorem hooks_entry (driver : Driver) (file : Vnode) (hooks : List (HookContext × Hook)) :
    EntryEnds (driver.fTracker.find (vnodeKey file))
      ((runHooks driver hooks).fTracker.find (vnodeKey file)) := by
  have once : (runHooks driver hooks).fTracker.find (vnodeKey file) =
        driver.fTracker.find (vnodeKey file) ∨
      (runHooks driver hooks).fTracker.find (vnodeKey file) = none := by
    apply run_hooks_invariant (fun current =>
      current.fTracker.find (vnodeKey file) = driver.fTracker.find (vnodeKey file) ∨
        current.fTracker.find (vnodeKey file) = none) ?_ driver (Or.inl rfl) hooks
    intro malloc before after held ends
    rcases hook_entry file ends with same | gone
    · rw [same]
      exact held
    · exact Or.inr gone
  rcases once with same | gone
  · rw [same]
    exact entry_unchanged _
  · rw [gone]
    exact EntryEnds.gone

theorem ioctl_entry {before after : Driver} (file : Vnode) (ends : IoctlEnds before after) :
    EntryEnds (before.fTracker.find (vnodeKey file)) (after.fTracker.find (vnodeKey file)) := by
  cases ends with
  | masked enabled => exact entry_unchanged _
  | untracked vnode => exact vnoderemove_entry before vnode file
  | tracked vnode ctl =>
    rw [tracked_find]
    split_ifs with same
    · subst same
      cases found : before.fTracker.find (vnodeKey file) with
      | some old => exact EntryEnds.kept old _ rfl rfl
      | none => exact EntryEnds.made _ ctl.acctPath rfl rfl
    · exact entry_unchanged _

theorem step_entry (driver : Driver) (call : Call) (file : Vnode) :
    EntryEnds (driver.fTracker.find (vnodeKey file))
      ((step driver call).fTracker.find (vnodeKey file)) := by
  cases call with
  | hook context hook => exact hooks_entry driver file [(context, hook)]
  | close => exact entry_unchanged _
  | read uio sleeps uiomove =>
    have ends := acctread_ends driver uio sleeps uiomove
    simp only [step]
    generalize (acctread driver uio sleeps uiomove).driver = after at ends
    cases ends with
    | unread hooks => exact hooks_entry driver file hooks
    | faulted hooks => exact hooks_entry driver file hooks
    | consumed hooks => exact hooks_entry driver file hooks
  | ioctl namei cmd ctl =>
    by_cases disables : cmd = .disable
    · rw [disables, step, disable_eq]
      exact EntryEnds.gone
    · exact ioctl_entry file (ioctl_ends namei driver cmd ctl disables)

/-! ## Names along a run -/

variable {file : Vnode} {driver : Driver}

def Tracks (driver : Driver) (file : Vnode) : Prop :=
  driver.fTracker.find (vnodeKey file) ≠ none

def EntryNamed (file : Vnode) (name : CString) (driver : Driver) : Prop :=
  ∀ node, driver.fTracker.find (vnodeKey file) = some node → node.trkName = name

theorem step_named (file : Vnode) (name : CString) (driver : Driver) (call : Call)
    (named : EntryNamed file name driver) (tracks : Tracks driver file) :
    EntryNamed file name (step driver call) := by
  intro node found
  have ends := step_entry driver call file
  rw [found] at ends
  cases ends with
  | kept old _ present same =>
    rw [same]
    exact named old present
  | made _ path absent _ => exact absurd absent tracks

theorem run_named {name : CString} {later : List Call} (named : EntryNamed file name driver)
    (tracked : EachStep step (fun current _ => Tracks current file) driver later) :
    EntryNamed file name (run step driver later) := by
  exact run_invariant_of_steps step (EntryNamed file name) (fun current _ => Tracks current file)
    (step_named file name) driver named later tracked

/-- Every name is one that `trk_path_copy` can leave. -/
def ShortNames (driver : Driver) : Prop :=
  ∀ file node, driver.fTracker.find (vnodeKey file) = some node → node.trkName.bytes.length ≤ 48

theorem step_short_names (driver : Driver) (call : Call) (short : ShortNames driver) :
    ShortNames (step driver call) := by
  intro file node found
  have ends := step_entry driver call file
  rw [found] at ends
  cases ends with
  | kept old _ present same =>
    rw [same]
    exact short file old present
  | made _ path _ same =>
    rw [same]
    exact List.length_take_le 48 path.bytes

theorem run_short_names (calls : List Call) : ShortNames (run step acctattach calls) := by
  apply run_invariant step ShortNames step_short_names acctattach
  intro file node found
  cases found

/-! ## Events on a file -/

variable {node : Trkvnode}

def hookFile : Hook → Option Vnode
  | .fork _ _ => none
  | .exec _ => none
  | .exit _ _ => none
  | .open _ vn _ _ => some vn
  | .rename _ vn _ _ => some vn
  | .unlink _ vn _ => some vn
  | .close _ vn => some vn

def eventPath : AcctBody → Option CString
  | .fork _ => none
  | .exec => none
  | .exit _ _ _ _ => none
  | .open acPath _ _ => some acPath
  | .rename acPath _ _ => some acPath
  | .unlink acPath _ => some acPath
  | .close acPath => some acPath

/-- While the file is tracked, each record that a hook queues for it carries the
path. -/
def EventsCarry (driver : Driver) (file : Vnode) (path : CString) : Prop :=
  ∀ later, EachStep step (fun current _ => Tracks current file) driver later →
    ∀ context hook record, hookFile hook = some file →
      (callHook context (run step driver later) hook).acctList =
        record :: (run step driver later).acctList → eventPath record.acBody = some path

theorem untouched_queues_nothing (driver : Driver) (record : AcctRecord) :
    driver.acctList ≠ record :: driver.acctList := by
  intro same
  exact List.cons_ne_self record driver.acctList same.symm

theorem record_node_queues (driver : Driver) (malloc : Bool) (node record : AcctRecord)
    (queued : (recordNode driver malloc node).acctList = record :: driver.acctList) :
    record.acBody = node.acBody := by
  cases malloc with
  | true =>
    have heads := (List.cons.inj queued).1
    rw [← heads]
    rfl
  | false => exact absurd queued (untouched_queues_nothing driver record)

theorem lookup_record_queues (driver : Driver) (malloc : Bool) (vn : Vnode)
    (filter : Trkvnode → Int) (build : Trkvnode → AcctRecord) (record : AcctRecord)
    (queued : (match driver.fTracker.find (vnodeKey vn) with
      | none => driver
      | some node =>
        if filter node ≠ 0 then driver
        else recordNode driver malloc (build node)).acctList = record :: driver.acctList) :
    ∃ node, driver.fTracker.find (vnodeKey vn) = some node ∧
      record.acBody = (build node).acBody := by
  cases found : driver.fTracker.find (vnodeKey vn) with
  | none =>
    rw [found] at queued
    exact absurd queued (untouched_queues_nothing driver record)
  | some node =>
    rw [found] at queued
    dsimp only at queued
    split_ifs at queued with filtered
    · exact absurd queued (untouched_queues_nothing driver record)
    · exact ⟨node, rfl, record_node_queues driver malloc (build node) record queued⟩

theorem record_and_untrack_queues (context : HookContext) (driver : Driver) (vn : Vnode)
    (ena : BitVec 32) (build : CString → AcctRecord) (record : AcctRecord)
    (queued : (recordAndUntrack context driver vn ena build).acctList =
      record :: driver.acctList) :
    ∃ node, driver.fTracker.find (vnodeKey vn) = some node ∧
      record.acBody = (build node.trkName).acBody := by
  simp only [recordAndUntrack, vnodelookup_eq] at queued
  cases found : driver.fTracker.find (vnodeKey vn) with
  | none =>
    rw [found] at queued
    exact absurd queued (untouched_queues_nothing driver record)
  | some node =>
    rw [found] at queued
    dsimp only at queued
    split_ifs at queued with filtered room
    · rw [(vnoderemove_queue driver node.trkvnode).1] at queued
      exact absurd queued (untouched_queues_nothing driver record)
    · rw [(vnoderemove_queue (addNode driver (build node.trkName)) node.trkvnode).1] at queued
      exact ⟨node, rfl, record_node_queues driver true (build node.trkName) record queued⟩
    · exact absurd queued (untouched_queues_nothing driver record)

theorem hook_event_path (context : HookContext) (driver : Driver) (hook : Hook) (file : Vnode)
    (record : AcctRecord) (called : hookFile hook = some file)
    (queued : (callHook context driver hook).acctList = record :: driver.acctList) :
    ∃ node, driver.fTracker.find (vnodeKey file) = some node ∧
      eventPath record.acBody = some (node.trkName.take (pathMax - 1)) := by
  cases hook with
  | fork parent child => cases called
  | exec pr => cases called
  | exit pr usage => cases called
  | «open» pr vn i0 i1 =>
    cases called
    obtain ⟨node, found, body⟩ := lookup_record_queues driver context.malloc file
      (fun node => trktreeParsepermissions driver (some node) (acctEnaOpen.setWidth 8)
        (BitVec.ofInt 8 i0))
      (fun node => openRecord context.clock pr node.trkName i0 i1) record queued
    exact ⟨node, found, congrArg eventPath body⟩
  | rename pr vn name e0 =>
    cases called
    obtain ⟨node, found, body⟩ := record_and_untrack_queues context driver file _ _ record queued
    exact ⟨node, found, congrArg eventPath body⟩
  | unlink pr vn e0 =>
    cases called
    obtain ⟨node, found, body⟩ := record_and_untrack_queues context driver file _ _ record queued
    exact ⟨node, found, congrArg eventPath body⟩
  | close pr vn =>
    cases called
    obtain ⟨node, found, body⟩ := lookup_record_queues driver context.malloc file
      (fun node => trktreeParsepermissions driver (some node) (acctEnaClose.setWidth 8) 0)
      (fun node => closeRecord context.clock pr node.trkName) record queued
    exact ⟨node, found, congrArg eventPath body⟩

/-- A request for the close events of every file it is sent for. -/
def closeEvents : AcctCtl := ⟨acctEnaClose, 0, 0, CString.ofBytes []⟩

/-- Two calls after which a close of the file is recorded, whatever the masks are. -/
def watchClose (file : Vnode) : List Call :=
  [.ioctl (fun _ => some file) .trackFile closeEvents,
    .ioctl (fun _ => some file) .enable closeEvents]

theorem watch_close_state (found : driver.fTracker.find (vnodeKey file) = some node) :
    (run step driver (watchClose file)).fTracker.find (vnodeKey file) =
        some (trackMasks closeEvents node) ∧
      (run step driver (watchClose file)).acctEna = driver.acctEna ||| acctEnaClose ∧
      EachStep step (fun current _ => Tracks current file) driver (watchClose file) := by
  obtain ⟨_, _, _, tracked⟩ :=
    track_resolved (fun _ => some file) driver closeEvents file rfl
  have after : (step driver (.ioctl (fun _ => some file) .trackFile closeEvents)).fTracker.find
      (vnodeKey file) = some (trackMasks closeEvents node) := by
    rw [step, tracked, tracked_find, if_pos rfl, found]
    rfl
  have mask : (step driver (.ioctl (fun _ => some file) .trackFile closeEvents)).acctEna =
      driver.acctEna := by
    rw [step, tracked]
  refine ⟨after, ?_, ?_, ?_, trivial⟩
  · rw [watchClose, run_cons, run_cons, ← mask]
    rfl
  · intro missing
    rw [found] at missing
    cases missing
  · intro missing
    rw [after] at missing
    cases missing

theorem watched_close_passes (node : Trkvnode) {enabled : BitVec 32}
    (on : driver.acctEna = enabled ||| acctEnaClose) :
    trktreeParsepermissions driver (some (trackMasks closeEvents node))
      (acctEnaClose.setWidth 8) 0 = 0 := by
  have globally : driver.acctEna &&& (acctEnaClose.setWidth 8).setWidth 32 ≠ 0 := by
    intro zero
    have bit := congrArg (fun mask => BitVec.getLsbD mask 4) zero
    rw [on] at bit
    simp [acctEnaClose] at bit
  have locally : (trackMasks closeEvents node).trkEna &&& acctEnaClose.setWidth 8 ≠ 0 := by
    intro zero
    have bit := congrArg (fun mask => BitVec.getLsbD mask 4) zero
    simp [trackMasks, closeEvents, acctEnaClose, fEna, acctEnaOpen, acctEnaRename,
      acctEnaUnlink] at bit
  have conditions : (trackMasks closeEvents node).trkFlags = 0 ∨
      (trackMasks closeEvents node).trkFlags &&& (trackMasks closeEvents node).trkFlags ≠ 0 := by
    rw [BitVec.and_self]
    exact em _
  simp only [trktreeParsepermissions, if_true]
  rw [if_pos ⟨globally, locally, conditions⟩]

theorem watched_close_recorded (found : driver.fTracker.find (vnodeKey file) = some node) :
    ∃ record, (callHook calm (run step driver (watchClose file)) (.close shell file)).acctList =
        record :: (run step driver (watchClose file)).acctList ∧
      eventPath record.acBody = some (node.trkName.take (pathMax - 1)) := by
  obtain ⟨entry, on, _⟩ := watch_close_state found
  have passes := watched_close_passes node on
  simp only [callHook, acctClose, vnodelookup_eq, entry, passes, ne_eq, not_true_eq_false, if_false]
  exact ⟨_, rfl, rfl⟩

theorem events_carry_iff (path : CString)
    (found : driver.fTracker.find (vnodeKey file) = some node) :
    EventsCarry driver file path ↔ node.trkName.take (pathMax - 1) = path := by
  constructor
  · intro carry
    obtain ⟨_, _, tracked⟩ := watch_close_state found
    obtain ⟨record, queued, carried⟩ := watched_close_recorded found
    have asked := carry (watchClose file) tracked calm (.close shell file) record rfl queued
    rw [carried] at asked
    exact Option.some.inj asked
  · intro same later tracked context hook record called queued
    have named : EntryNamed file node.trkName driver := by
      intro other here
      rw [found] at here
      cases here
      rfl
    obtain ⟨current, here, carried⟩ := hook_event_path context (run step driver later) hook file
      record called queued
    rw [carried, run_named named tracked current here, same]

/-! ## The request -/

variable (namei : CString → Option Vnode)

/-- The entry a request starts from: the file's own, or an empty one that is named
by the path of the request. -/
def entryBefore (driver : Driver) (file : Vnode) (path : CString) : Trkvnode :=
  (driver.fTracker.find (vnodeKey file)).getD ⟨path, 0, 0, file⟩

/-- `ACCT_IOC_FSTATUS` with the path answers with the masks of the entry. -/
def Reports (namei : CString → Option Vnode) (driver : Driver) (path : CString)
    (node : Trkvnode) : Prop :=
  ∀ request : AcctCtl, request.acctPath = path →
    (acctioctl namei driver .fstatus request).error = 0 ∧
      (acctioctl namei driver .fstatus request).ctl.acctEna = node.trkEna.setWidth 32 ∧
      (acctioctl namei driver .fstatus request).ctl.acctCond = node.trkFlags.setWidth 32

/-- The request works on the file that the whole path names, and later calls agree
with it on that. -/
def FileNamedTracked (namei : CString → Option Vnode) (driver : Driver) (ctl : AcctCtl) : Prop :=
  let result := acctioctl namei driver .trackFile ctl
  match namei ctl.acctPath with
  | none => result.error = enoent
  | some file =>
    result.error = 0 ∧
      result.driver.fTracker.find (vnodeKey file) =
        some (trackMasks ctl (entryBefore driver file ctl.acctPath)) ∧
      Reports namei result.driver ctl.acctPath
        (trackMasks ctl (entryBefore driver file ctl.acctPath)) ∧
      EventsCarry result.driver file ctl.acctPath

/-- The path names no file and neither does its shortened copy, or it is not
shortened and the file has no entry under another name. -/
def CopyNamesFile (namei : CString → Option Vnode) (driver : Driver) (path : CString) : Prop :=
  match namei path with
  | none => namei (trkPathCopy path) = none
  | some file => path.bytes.length ≤ 48 ∧ EntryNamed file path driver

theorem take_whole (string : CString) (count : Nat) (fits : string.bytes.length ≤ count) :
    string.take count = string := by
  apply cstring_ext
  exact List.take_of_length_le fits

theorem track_error (driver : Driver) (ctl : AcctCtl) :
    (acctioctl namei driver .trackFile ctl).error =
      if namei (trkPathCopy ctl.acctPath) = none then enoent else 0 := by
  cases resolves : namei (trkPathCopy ctl.acctPath) with
  | none => simp only [acctioctl, trktreeAddPath, pathToVnode, resolves, trktreeAddVnode, if_true]
  | some file =>
    obtain ⟨_, _, _, tracked⟩ := track_resolved namei driver ctl file resolves
    rw [tracked, if_neg (Option.some_ne_none file)]

theorem fstatus_reports {path : CString} (resolves : pathToVnode namei path = some file)
    (found : driver.fTracker.find (vnodeKey file) = some node) :
    Reports namei driver path node := by
  intro request same
  simp only [acctioctl, trktreePathlookup, same, resolves, vnodelookup_eq, found, and_self]

theorem tracked_name_fits {calls : List Call} (namei : CString → Option Vnode) {ctl : AcctCtl}
    (found : (acctioctl namei (run step acctattach calls) .trackFile ctl).driver.fTracker.find
      (vnodeKey file) = some node) : node.trkName.bytes.length ≤ 48 := by
  have names := run_short_names (calls ++ [.ioctl namei .trackFile ctl])
  rw [run_append] at names
  exact names file node found

theorem short_path_tracked (driver : Driver) (ctl : AcctCtl) (file : Vnode)
    (resolves : namei ctl.acctPath = some file) (short : ctl.acctPath.bytes.length ≤ 48)
    (named : EntryNamed file ctl.acctPath driver) : FileNamedTracked namei driver ctl := by
  have whole : trkPathCopy ctl.acctPath = ctl.acctPath := take_whole ctl.acctPath 48 short
  have lookup : pathToVnode namei ctl.acctPath = some file := by
    rw [pathToVnode, whole, resolves]
  have entry : (acctioctl namei driver .trackFile ctl).driver.fTracker.find (vnodeKey file) =
      some (trackMasks ctl (entryBefore driver file ctl.acctPath)) := by
    obtain ⟨_, _, _, tracked⟩ := track_resolved namei driver ctl file lookup
    rw [tracked, tracked_find, if_pos rfl, trkvnodeNew, whole]
    rfl
  have name : (trackMasks ctl (entryBefore driver file ctl.acctPath)).trkName = ctl.acctPath := by
    change (entryBefore driver file ctl.acctPath).trkName = ctl.acctPath
    rw [entryBefore]
    cases found : driver.fTracker.find (vnodeKey file) with
    | none => rfl
    | some old => exact named old found
  simp only [FileNamedTracked, resolves]
  refine ⟨?_, entry, fstatus_reports namei lookup entry, ?_⟩
  · rw [track_error, whole, resolves, if_neg (Option.some_ne_none file)]
  · rw [events_carry_iff ctl.acctPath entry, name]
    apply take_whole
    exact Nat.le_trans short (by decide)

/-- In every reachable state a request tracks the file that it names exactly when
the copy of its path is the path, and an older entry of the file has that name. -/
theorem file_named_tracked_iff (calls : List Call) (namei : CString → Option Vnode)
    (ctl : AcctCtl) :
    FileNamedTracked namei (run step acctattach calls) ctl ↔
      CopyNamesFile namei (run step acctattach calls) ctl.acctPath := by
  cases resolves : namei ctl.acctPath with
  | none =>
    simp only [FileNamedTracked, CopyNamesFile, resolves, track_error]
    split_ifs with missing
    · exact iff_of_true rfl missing
    · exact iff_of_false (by decide) missing
  | some file =>
    simp only [CopyNamesFile, resolves]
    constructor
    · intro tracked
      simp only [FileNamedTracked, resolves] at tracked
      obtain ⟨_, entry, _, carry⟩ := tracked
      have fits := tracked_name_fits namei entry
      have carried := (events_carry_iff ctl.acctPath entry).mp carry
      rw [take_whole _ _ (Nat.le_trans fits (by decide))] at carried
      rw [carried] at fits
      refine ⟨fits, ?_⟩
      intro old found
      rw [← carried]
      change old.trkName = (entryBefore _ file ctl.acctPath).trkName
      rw [entryBefore, found]
      rfl
    · rintro ⟨short, named⟩
      exact short_path_tracked namei _ ctl file resolves short named

example : FileNamedTracked motdOnly acctattach (motdRequest acctEnaOpen 0) := by
  apply short_path_tracked motdOnly acctattach (motdRequest acctEnaOpen 0) motd (by decide)
    (by decide)
  intro old found
  cases found

/-- A directory with a name of 48 bytes, and a file in it. -/
def logDirectory : CString := CString.ofString "/usr/local/share/examples/accounting-driver-logs"

def logFile : CString := CString.ofString "/usr/local/share/examples/accounting-driver-logs/may"

def logVnode : Vnode := ⟨8192, by decide⟩

def logsOnly (path : CString) : Option Vnode :=
  if path = logFile then some logVnode else if path = logDirectory then some motd else none

/-- The request succeeds, but it is the directory that is tracked. -/
theorem directory_tracked_instead :
    logFile.bytes.length = 52 ∧ logsOnly logFile = some logVnode ∧
      (acctioctl logsOnly acctattach .trackFile ⟨acctEnaOpen, 0, 0, logFile⟩).error = 0 ∧
      (acctioctl logsOnly acctattach .trackFile
        ⟨acctEnaOpen, 0, 0, logFile⟩).driver.fTracker.find (vnodeKey logVnode) = none ∧
      (acctioctl logsOnly acctattach .trackFile
        ⟨acctEnaOpen, 0, 0, logFile⟩).driver.fTracker.find (vnodeKey motd) =
          some ⟨logDirectory, acctEnaOpen.setWidth 8, 0, motd⟩ ∧
      ¬ FileNamedTracked logsOnly acctattach ⟨acctEnaOpen, 0, 0, logFile⟩ := by
  have resolves : logsOnly logFile = some logVnode := by decide
  have missing : (acctioctl logsOnly acctattach .trackFile
      ⟨acctEnaOpen, 0, 0, logFile⟩).driver.fTracker.find (vnodeKey logVnode) = none := by decide
  refine ⟨by decide, resolves, by decide, missing, by decide, ?_⟩
  intro tracked
  simp only [FileNamedTracked, resolves] at tracked
  exact absurd tracked.2.1.symm (Option.some_ne_none _)

end Cprogramming.Acct.TrackedPaths
