import Cprogramming.Acct.Tracking

/-!
# Events and conditions of a file

What `acct.h` promises of `ACCT_IOC_TRACK_FILE` and `ACCT_IOC_UNTRACK_FILE`: a file
has a set of events and one of conditions, the first request adds to both, the
second takes away from both, and the file is tracked while one of them is not
empty. The driver keeps eight bits of each, and its second request removes the
entry whatever the masks are and answers with the globally enabled events.
-/

namespace Cprogramming.Acct.Subscriptions

open Library.CStrings Library.KeyedTree Library.Runs
open Records Device Effects Tracking

set_option autoImplicit false

/-! ## The abstract model -/

@[ext] structure Masks where
  events : BitVec 32
  conds : BitVec 32
deriving DecidableEq

def Masks.none : Masks := ⟨0, 0⟩

abbrev FileMasks := Vnode → Masks

/-- A request for the file that its path names, with events of files only. The
driver cuts the path, and what is left names the same file. -/
structure FileRequest where
  tracks : Bool
  namei : CString → Option Vnode
  ctl : AcctCtl
  file : Vnode
  resolves : namei ctl.acctPath = some file
  uncut : pathToVnode namei ctl.acctPath = some file
  fileEvents : ctl.acctEna &&& fEna = ctl.acctEna

def FileRequest.change (request : FileRequest) (masks : Masks) : Masks :=
  if request.tracks then
    ⟨masks.events ||| request.ctl.acctEna, masks.conds ||| request.ctl.acctCond⟩
  else ⟨masks.events &&& ~~~request.ctl.acctEna, masks.conds &&& ~~~request.ctl.acctCond⟩

def FileRequest.apply (subscriptions : FileMasks) (request : FileRequest) : FileMasks :=
  fun file => if file = request.file then request.change (subscriptions file)
    else subscriptions file

/-! ## The driver beside it -/

def FileRequest.serve (driver : Driver) (request : FileRequest) : IoctlResult :=
  acctioctl request.namei driver (if request.tracks then .trackFile else .untrackFile) request.ctl

def next (state : Driver × FileMasks) (request : FileRequest) : Driver × FileMasks :=
  ((request.serve state.1).driver, request.apply state.2)

def entryMasks (node : Trkvnode) : Masks :=
  ⟨node.trkEna.setWidth 32, node.trkFlags.setWidth 32⟩

/-- The tree holds the entries of the subscribed files, with their masks. -/
def Agrees (state : Driver × FileMasks) : Prop :=
  ∀ file, (state.1.fTracker.find (vnodeKey file)).map entryMasks =
    if state.2 file = Masks.none then none else some (state.2 file)

def Answers (state : Driver × FileMasks) (request : FileRequest) : Prop :=
  (request.serve state.1).ctl.acctEna = (request.apply state.2 request.file).events ∧
    (request.serve state.1).ctl.acctCond = (request.apply state.2 request.file).conds

/-- A file is tracked with conditions of eight bits, and with some event or
condition if it is new; it is untracked with all its events and conditions, while
no event is enabled. -/
def Plain (state : Driver × FileMasks) (request : FileRequest) : Prop :=
  if request.tracks then
    request.ctl.acctCond.toNat < 2 ^ 8 ∧
      ¬ (state.2 request.file = Masks.none ∧ request.ctl.acctEna = 0 ∧ request.ctl.acctCond = 0)
  else
    state.1.acctEna = 0 ∧ (state.2 request.file).events &&& ~~~request.ctl.acctEna = 0 ∧
      (state.2 request.file).conds &&& ~~~request.ctl.acctCond = 0

/-! ## Masks of eight bits -/

/-- What is left of a mask in a `u_char`. -/
def low8 (mask : BitVec 32) : BitVec 32 := (mask.setWidth 8).setWidth 32

theorem low8_bit (mask : BitVec 32) (bit : Nat) :
    (low8 mask).getLsbD bit = (decide (bit < 8) && mask.getLsbD bit) := by
  unfold low8
  by_cases small : bit < 8
  · have wide : bit < 32 := by omega
    simp [small, wide]
  · simp [small]

theorem low8_or (left right : BitVec 32) : low8 (left ||| right) = low8 left ||| low8 right := by
  apply BitVec.eq_of_getLsbD_eq
  intro bit _
  simp only [low8_bit, BitVec.getLsbD_or]
  cases decide (bit < 8) <;> simp

theorem low8_byte (byte : BitVec 8) : low8 (byte.setWidth 32) = byte.setWidth 32 := by
  apply BitVec.eq_of_getLsbD_eq
  intro bit _
  rw [low8_bit]
  by_cases small : bit < 8
  · simp [small]
  · simp [small, BitVec.getLsbD_setWidth, BitVec.getLsbD_of_ge byte bit (by omega)]

theorem low8_eq_self_iff (mask : BitVec 32) : low8 mask = mask ↔ mask.toNat < 2 ^ 8 := by
  unfold low8
  rw [← BitVec.toNat_inj]
  simp only [BitVec.toNat_setWidth]
  have bound := mask.isLt
  omega

theorem low8_file_events {mask : BitVec 32} (files : mask &&& fEna = mask) : low8 mask = mask := by
  apply BitVec.eq_of_getLsbD_eq
  intro bit inside
  rw [low8_bit]
  by_cases small : bit < 8
  · simp [small]
  · have outside : fEna.getLsbD bit = false := by
      have table : ∀ index : Fin 32, 8 ≤ index.val → fEna.getLsbD index.val = false := by decide
      exact table ⟨bit, inside⟩ (Nat.le_of_not_lt small)
    rw [← files]
    simp [outside]

theorem or_low8_eq_iff (byte : BitVec 8) (mask : BitVec 32) :
    byte.setWidth 32 ||| low8 mask = byte.setWidth 32 ||| mask ↔ low8 mask = mask := by
  constructor
  · intro same
    apply BitVec.eq_of_getLsbD_eq
    intro bit _
    by_cases small : bit < 8
    · simp [low8_bit, small]
    · have bits := congrArg (fun word => word.getLsbD bit) same
      simpa [low8_bit, small, BitVec.getLsbD_setWidth, BitVec.getLsbD_of_ge byte bit (by omega)]
        using bits
  · intro same
    rw [same]

theorem track_masks_entry {ctl : AcctCtl} (files : ctl.acctEna &&& fEna = ctl.acctEna)
    (node : Trkvnode) : entryMasks (trackMasks ctl node) =
      ⟨(entryMasks node).events ||| ctl.acctEna, (entryMasks node).conds ||| low8 ctl.acctCond⟩ := by
  have events : low8 (node.trkEna.setWidth 32 ||| ctl.acctEna) =
      node.trkEna.setWidth 32 ||| ctl.acctEna := by
    rw [low8_or, low8_byte, low8_file_events files]
  have conds : low8 (node.trkFlags.setWidth 32 ||| ctl.acctCond) =
      node.trkFlags.setWidth 32 ||| low8 ctl.acctCond := by
    rw [low8_or, low8_byte]
  unfold low8 at events conds
  simp only [entryMasks, trackMasks, files, events, conds]
  rfl

/-! ## One request -/

section Request

variable (state : Driver × FileMasks) (request : FileRequest)

/-- The entry that a request to track works on: the file's own or a new one. -/
def EntryOf (driver : Driver) (node : Trkvnode) : Prop :=
  driver.fTracker.find (vnodeKey request.file) = some node ∨
    driver.fTracker.find (vnodeKey request.file) = none ∧
      node = trkvnodeNew request.file request.ctl.acctPath

theorem entry_or_new (driver : Driver) (node : Trkvnode) (entry : EntryOf request driver node) :
    (driver.fTracker.find (vnodeKey request.file)).getD
      (trkvnodeNew request.file request.ctl.acctPath) = node := by
  rcases entry with found | ⟨missing, rfl⟩
  · rw [found]
    rfl
  · rw [missing]
    rfl

theorem serve_track (driver : Driver) (tracks : request.tracks = true) :
    ∃ node, EntryOf request driver node ∧
      (∀ file, (request.serve driver).driver.fTracker.find (vnodeKey file) =
        if file = request.file then some (trackMasks request.ctl node)
        else driver.fTracker.find (vnodeKey file)) ∧
      (request.serve driver).ctl.acctEna = (entryMasks (trackMasks request.ctl node)).events ∧
      (request.serve driver).ctl.acctCond = (entryMasks (trackMasks request.ctl node)).conds := by
  obtain ⟨node, _, entry, served⟩ := track_resolved request.namei driver request.ctl
    request.file request.uncut
  have serve : request.serve driver = acctioctl request.namei driver .trackFile request.ctl := by
    simp only [FileRequest.serve, tracks, if_true]
  refine ⟨node, entry, ?_, ?_, ?_⟩
  · intro file
    rw [serve, served, tracked_find, entry_or_new request driver node entry]
  · rw [serve, served]
    rfl
  · rw [serve, served]
    rfl

theorem serve_untrack (driver : Driver) (untracks : request.tracks = false) :
    (∀ file, (request.serve driver).driver.fTracker.find (vnodeKey file) =
        if file = request.file then none else driver.fTracker.find (vnodeKey file)) ∧
      (request.serve driver).ctl.acctEna = driver.acctEna ∧
      (request.serve driver).ctl.acctCond = 0 := by
  have serve : request.serve driver = acctioctl request.namei driver .untrackFile request.ctl := by
    simp only [FileRequest.serve, untracks, Bool.false_eq_true, if_false]
  refine ⟨?_, ?_, ?_⟩
  · intro file
    rw [serve, untrack_eq, request.uncut]
    exact vnoderemove_find driver request.file file
  · rw [serve]
    rfl
  · rw [serve]
    rfl

theorem agrees_next_iff (agrees : Agrees state) (entry : Option Trkvnode)
    (found : ∀ file, (request.serve state.1).driver.fTracker.find (vnodeKey file) =
      if file = request.file then entry else state.1.fTracker.find (vnodeKey file)) :
    Agrees (next state request) ↔
      entry.map entryMasks =
        if request.change (state.2 request.file) = Masks.none then none
        else some (request.change (state.2 request.file)) := by
  constructor
  · intro after
    have here := after request.file
    simp only [next, FileRequest.apply, found, if_true] at here
    exact here
  · intro here file
    by_cases same : file = request.file
    · simp only [next, FileRequest.apply, found, if_pos same]
      rw [same]
      exact here
    · simp only [next, FileRequest.apply, found, if_neg same]
      exact agrees file

theorem masks_before (agrees : Agrees state) (node : Trkvnode)
    (entry : EntryOf request state.1 node) : entryMasks node = state.2 request.file := by
  have here := agrees request.file
  rcases entry with found | ⟨missing, rfl⟩
  · rw [found] at here
    by_cases empty : state.2 request.file = Masks.none
    · rw [if_pos empty] at here
      cases here
    · rw [if_neg empty] at here
      exact Option.some.inj here
  · rw [missing] at here
    by_cases empty : state.2 request.file = Masks.none
    · rw [empty]
      rfl
    · rw [if_neg empty] at here
      cases here

theorem track_plain_iff (agrees : Agrees state) (tracks : request.tracks = true) :
    (Agrees (next state request) ∧ Answers state request) ↔ Plain state request := by
  obtain ⟨node, entry, found, events, conds⟩ := serve_track request state.1 tracks
  have before := masks_before state request agrees node entry
  have added := track_masks_entry request.fileEvents node
  rw [before] at added
  have enough : (state.2 request.file).conds ||| low8 request.ctl.acctCond =
      (state.2 request.file).conds ||| request.ctl.acctCond ↔
        request.ctl.acctCond.toNat < 2 ^ 8 := by
    rw [← low8_eq_self_iff, ← before]
    exact or_low8_eq_iff node.trkFlags request.ctl.acctCond
  have nothing : (⟨(state.2 request.file).events ||| request.ctl.acctEna,
        (state.2 request.file).conds ||| request.ctl.acctCond⟩ : Masks) = Masks.none ↔
      state.2 request.file = Masks.none ∧ request.ctl.acctEna = 0 ∧ request.ctl.acctCond = 0 := by
    simp only [Masks.none, Masks.ext_iff, BitVec.ofNat_eq_ofNat, BitVec.or_eq_zero_iff]
    tauto
  rw [agrees_next_iff state request agrees _ found]
  simp only [Answers, Plain, FileRequest.apply, FileRequest.change, tracks, if_true, events, conds,
    added, Option.map_some, ← enough, ← nothing]
  constructor
  · rintro ⟨stored, _⟩
    split_ifs at stored with empty
    exact ⟨congrArg Masks.conds (Option.some.inj stored), empty⟩
  · rintro ⟨whole, some⟩
    rw [if_neg some, whole]
    exact ⟨rfl, trivial, rfl⟩

theorem untrack_plain_iff (agrees : Agrees state) (untracks : request.tracks = false) :
    (Agrees (next state request) ∧ Answers state request) ↔ Plain state request := by
  obtain ⟨found, events, conds⟩ := serve_untrack request state.1 untracks
  rw [agrees_next_iff state request agrees _ found]
  simp only [Answers, Plain, FileRequest.apply, FileRequest.change, untracks, Bool.false_eq_true,
    if_false, if_true, events, conds, Option.map_none, Masks.none, Masks.mk.injEq]
  constructor
  · rintro ⟨removed, answered, _⟩
    split_ifs at removed with empty
    exact ⟨answered.trans empty.1, empty⟩
  · rintro ⟨off, empty⟩
    rw [if_pos empty, off, empty.1, empty.2]
    exact ⟨rfl, rfl, rfl⟩

end Request

/-- The subscriptions requested are those stored, in every state, and every
request is answered with what is left. -/
def FollowsAlgebra (driver : Driver) (requests : List FileRequest) : Prop :=
  Throughout next Agrees (driver, fun _ => Masks.none) requests ∧
    EachStep next Answers (driver, fun _ => Masks.none) requests

theorem follows_algebra_iff (driver : Driver) (untracked : driver.fTracker.nodes = [])
    (requests : List FileRequest) :
    FollowsAlgebra driver requests ↔
      EachStep next Plain (driver, fun _ => Masks.none) requests := by
  apply throughout_and_each_step_iff next Agrees Answers Plain
  · intro state request agrees
    cases tracks : request.tracks with
    | true => exact track_plain_iff state request agrees tracks
    | false => exact untrack_plain_iff state request agrees tracks
  · intro file
    rw [if_pos rfl, Tree.find, untracked]
    rfl

def motdFile (tracks : Bool) (ena : BitVec 32) (fileEvents : ena &&& fEna = ena) : FileRequest :=
  ⟨tracks, motdOnly, motdRequest ena 0, motd, rfl, rfl, fileEvents⟩

theorem tracked_and_untracked :
    FollowsAlgebra acctattach
      [motdFile true acctEnaOpen (by decide), motdFile false acctEnaOpen (by decide)] := by
  apply (follows_algebra_iff acctattach rfl _).mpr
  unfold EachStep EachStep EachStep Plain
  decide

/-- Untracking the open event of a file tracked for two loses the other one too. -/
theorem partial_untrack_untracks :
    let requests := [motdFile true (acctEnaOpen ||| acctEnaUnlink) (by decide),
      motdFile false acctEnaOpen (by decide)]
    let state := run next (acctattach, fun _ => Masks.none) requests
    state.1.fTracker.nodes = [] ∧ state.2 motd = ⟨acctEnaUnlink, 0⟩ := by
  decide

end Cprogramming.Acct.Subscriptions
