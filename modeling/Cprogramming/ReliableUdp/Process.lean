import Cprogramming.Library.CStrings
import Cprogramming.ReliableUdp.Header

/-!
# The server's answer to one packet

`rprocess_request` of `RProcess.h` and the connection state it works on
(`RState.h`, `RQueue.h`). The queue of packets received so far is not kept: of
it the code reads the newest packet, which is the argument here, and the request
that opened the transfer.
-/

namespace Cprogramming.ReliableUdp.Process

open Library.CStrings Header

set_option autoImplicit false

/-- What the server asks of its file system: whether `stat` succeeds, and the
bytes behind a successful `fopen`. -/
structure FileSystem where
  stat : CString → Bool
  fopen : CString → Option (List UInt8)

/-- The state of one connection. `mys` holds the entries sent, the newest
first; `request` is the payload of the packet that asked for the file. -/
structure RState where
  mys : List RHdr
  request : Option Msg
  ack : UInt16
  seq : UInt16
  chksum : Bool
deriving DecidableEq

/-- `RSTATE_INIT` does not touch `ack`. -/
def rstateInit (state : RState) : RState := ⟨[], none, state.ack, 1, false⟩

def rstateDestroy : RState := ⟨[], none, 0, 0, false⟩

/-- A connection in zeroed memory, initialised. -/
def rstateFresh : RState := rstateInit rstateDestroy

/-- `rhead_peak_entry` of the sent entries; `rprocess_request` stores it in
`curr` first, and again whenever it appends. -/
def RState.curr (state : RState) : Option RHdr := state.mys.head?

/-- The entry that `rhead_append` adds. -/
def rheadAppend : List RHdr → RHdr
  | [] => { rhdrInit with seqn := 1 }
  | last :: _ => { rhdrInit with seqn := last.seqn + 1 }

/-- The values `rprocess_request` returns: 0, 1, 2 and 3. -/
inductive Verdict where
  | returnFalse
  | returnTrue
  | badChk
  | worseChk
deriving DecidableEq

/-! ## Files -/

def hostingRoot : List UInt8 := [46, 47]

/-- `fname` as `set_fname` builds it: its last byte is overwritten with NUL. -/
def fnameOf (msg : Msg) : CString :=
  CString.ofBytes ((hostingRoot ++ msg.bytes.take (msgSiz - 2)).take (msgSiz - 1))

def setFname (files : FileSystem) (msg : Msg) : Option CString :=
  if files.stat (fnameOf msg) then some (fnameOf msg) else none

def openResource (files : FileSystem) (msg : Msg) : Option (List UInt8) :=
  (setFname files msg).bind files.fopen

/-! ## The labels at the end of the function -/

def retPkt (state : RState) : Verdict × RState :=
  if state.curr.isNone then (.worseChk, state) else (.returnTrue, state)

/-- `SND_PKT`: the current entry gets its checksum if the connection asks for
one and the entry has none yet. -/
def markCurr (state : RState) : RState :=
  match state.mys with
  | entry :: older =>
    if state.chksum && !flagValidate entry CHK then { state with mys := markChk entry :: older }
    else state
  | [] => state

def sndPkt (state : RState) : Verdict × RState := retPkt (markCurr state)

def invalidNak (state : RState) (hdr : RHdr) : Verdict × RState :=
  if flagValidate hdr NAK then sndPkt state
  else if state.curr.isNone then (.worseChk, state)
  else (.badChk, state)

/-! ## The three answers -/

def appendEntry (state : RState) (entry : RHdr) : RState :=
  { state with mys := entry :: state.mys, ack := state.ack + 1, seq := state.seq + 1 }

def answerGet (files : FileSystem) (state : RState) (hdr : RHdr) : Verdict × RState :=
  match openResource files hdr.msg with
  | none => (.returnFalse, state)
  | some resource =>
    let entry := { flagSet (rheadAppend state.mys) DAT with msg := Msg.ofBytes resource }
    sndPkt { appendEntry state entry with request := some hdr.msg }

/-- The entry for the bytes from `offset` on; no bytes left make it a `FIN`.
`feof` is not yet set when the code asks for it, right after `fseek`. -/
def fileEntry (mys : List RHdr) (resource : List UInt8) (offset : Nat) : RHdr :=
  if resource.drop offset = [] then flagSet (rheadAppend mys) FIN
  else { flagSet (rheadAppend mys) DAT with msg := Msg.ofBytes (resource.drop offset) }

def answerAck (files : FileSystem) (state : RState) : Verdict × RState :=
  match state.request.bind (openResource files) with
  | none => (.returnFalse, state)
  | some resource =>
    sndPkt (appendEntry state (fileEntry state.mys resource (state.ack.toNat * msgSiz)))

/-- The last entry. The packet is exactly `ACK|FIN` here, so the tests for an
exact `CHK` or `ENC` that the code makes fail. -/
def answerFin (state : RState) : Verdict × RState :=
  let entry := { flagSet (flagSet (rheadAppend state.mys) ACK) FIN with ackn := state.seq }
  (.returnFalse, appendEntry state (if state.chksum then markChk entry else entry))

def finSent (state : RState) : Bool :=
  state.curr.any fun entry => flagCheck entry FIN || flagCheck entry (FIN ||| CHK)

/-! ## The function -/

/-- The checksum test: the packet goes on without its `CHK` flag, or the
function returns. -/
def checkChksum (state : RState) (hdr : RHdr) : Except (Verdict × RState) (RState × RHdr) :=
  if flagValidate hdr CHK || state.chksum then
    if state.curr.isNone then
      let demanding := { state with chksum := true }
      if validChksum hdr then .ok (demanding, flagUnset hdr CHK)
      else .error (.worseChk, demanding)
    else if flagValidate hdr CHK && clientChksum hdr then .ok (state, flagUnset hdr CHK)
    else .error (.badChk, state)
  else .ok (state, hdr)

def answer (files : FileSystem) (state : RState) (hdr : RHdr) : Verdict × RState :=
  if state.curr.isSome && !flagValidate hdr NAK &&
      !(hdr.seqn == state.seq && hdr.ackn == state.ack) then retPkt state
  else if state.curr.isNone && !(hdr.seqn == 1 && hdr.ackn == 0) then (.returnFalse, state)
  else if (flagCheck hdr (DAT ||| NAK) || flagValidate hdr NAK) && state.curr.isSome then
    if state.ack == hdr.ackn then retPkt { state with seq := state.seq + 1 }
    else invalidNak state hdr
  else if flagCheck hdr GET && state.curr.isNone then answerGet files state hdr
  else if flagCheck hdr (ACK ||| DAT) && state.curr.isSome then answerAck files state
  else if flagCheck hdr (ACK ||| FIN) && state.curr.isSome && finSent state then answerFin state
  else invalidNak state hdr

def rprocessRequest (files : FileSystem) (state : RState) (hdr : RHdr) : Verdict × RState :=
  if !flagConfirm hdr then invalidNak state hdr
  else if state.curr.isSome && hdr.msg != emptyBuf then (.badChk, state)
  else
    match checkChksum state hdr with
    | .error result => result
    | .ok (checked, stripped) => answer files checked stripped

def processed (files : FileSystem) (state : RState) (hdr : RHdr) : RState :=
  (rprocessRequest files state hdr).2

/-! ## Equations

What the function computes, for a connection that has sent nothing yet and for
one that has. -/

variable (files : FileSystem) (hdr : RHdr)

variable {state : RState} {entry : RHdr} {older : List RHdr}

/-- The connection asks for checksums, or the packet brings the first one. -/
def demands (state : RState) (hdr : RHdr) : Bool := flagValidate hdr CHK || state.chksum

def strip (state : RState) (hdr : RHdr) : RHdr :=
  if demands state hdr then flagUnset hdr CHK else hdr

theorem strip_seqn (state : RState) (hdr : RHdr) : (strip state hdr).seqn = hdr.seqn := by
  unfold strip
  split_ifs <;> rfl

theorem strip_msg (state : RState) (hdr : RHdr) : (strip state hdr).msg = hdr.msg := by
  unfold strip
  split_ifs <;> rfl

theorem strip_ackn (state : RState) (hdr : RHdr) : (strip state hdr).ackn = hdr.ackn := by
  unfold strip
  split_ifs <;> rfl

theorem strip_nak (state : RState) (hdr : RHdr) :
    flagValidate (strip state hdr) NAK = flagValidate hdr NAK := by
  have mask : ~~~(CHK &&& flagOffset) &&& (NAK ||| rVersion) = NAK ||| rVersion := by decide
  unfold strip
  split_ifs
  · simp only [flagValidate, flagUnset, UInt16.and_assoc, mask]
  · rfl

theorem strip_check {hdr : RHdr} {flag : UInt16}
    (other : (flag ||| rVersion) &&& ~~~(CHK &&& flagOffset) = flag ||| rVersion)
    (exact : flagCheck (strip state hdr) flag = true) : plainFlags hdr = flag ||| rVersion := by
  rw [flag_check_iff] at exact
  unfold strip at exact
  split_ifs at exact
  · exact exact
  · rw [plainFlags, flagUnset, exact, other]

/-- A later packet gets past the tests of its payload and its checksum. -/
def admitted (state : RState) (hdr : RHdr) : Bool :=
  hdr.msg == emptyBuf && (!demands state hdr || flagValidate hdr CHK && clientChksum hdr)

theorem nak_of_exact {hdr : RHdr} (exact : flagCheck hdr (DAT ||| NAK) = true) :
    flagValidate hdr NAK = true := by
  rw [flag_check_iff] at exact
  simp only [flagValidate, exact]
  decide

theorem curr_empty (state : RState) (empty : state.mys = []) : state.curr = none := by
  simp [RState.curr, empty]

theorem curr_open (state : RState) (entry : RHdr) (older : List RHdr)
    (sent : state.mys = entry :: older) : state.curr = some entry := by
  simp [RState.curr, sent]

theorem ret_pkt_open (sent : state.mys = entry :: older) : retPkt state = (.returnTrue, state) := by
  simp [retPkt, curr_open state entry older sent]

/-- The entry that `SND_PKT` leaves at the head of the queue. -/
def sendable (chksum : Bool) (entry : RHdr) : RHdr :=
  if chksum && !flagValidate entry CHK then markChk entry else entry

theorem mark_curr_open (state : RState) (entry : RHdr) (older : List RHdr)
    (sent : state.mys = entry :: older) :
    markCurr state = { state with mys := sendable state.chksum entry :: older } := by
  simp only [markCurr, sent, sendable]
  split_ifs with missing
  · rfl
  · rw [← sent]

theorem snd_pkt_open (state : RState) (entry : RHdr) (older : List RHdr)
    (sent : state.mys = entry :: older) : sndPkt state = (.returnTrue, markCurr state) := by
  apply ret_pkt_open
  rw [mark_curr_open state entry older sent]

theorem invalid_nak_empty (empty : state.mys = []) : invalidNak state hdr = (.worseChk, state) := by
  simp [invalidNak, sndPkt, markCurr, retPkt, RState.curr, empty]

theorem invalid_nak_open (sent : state.mys = entry :: older) : invalidNak state hdr =
      if flagValidate hdr NAK then (.returnTrue, markCurr state) else (.badChk, state) := by
  simp [invalidNak, snd_pkt_open state entry older sent, curr_open state entry older sent]

theorem answer_first (state : RState) (hdr : RHdr) (empty : state.mys = []) :
    answer files state hdr =
      if hdr.seqn = 1 ∧ hdr.ackn = 0 then
        if flagCheck hdr GET then answerGet files state hdr else (.worseChk, state)
      else (.returnFalse, state) := by
  simp only [answer, curr_empty state empty, invalid_nak_empty hdr empty]
  by_cases opening : hdr.seqn = 1 ∧ hdr.ackn = 0
  · simp [opening]
  · simp only [if_neg opening]
    simp only [not_and_or] at opening
    simp [opening]

theorem answer_next (state : RState) (hdr entry : RHdr) (older : List RHdr)
    (sent : state.mys = entry :: older) : answer files state hdr =
      if flagValidate hdr NAK then
        if state.ack = hdr.ackn then (.returnTrue, { state with seq := state.seq + 1 })
        else (.returnTrue, markCurr state)
      else if hdr.seqn = state.seq ∧ hdr.ackn = state.ack then
        if flagCheck hdr (ACK ||| DAT) then answerAck files state
        else if flagCheck hdr (ACK ||| FIN) && finSent state then answerFin state
        else (.badChk, state)
      else (.returnTrue, state) := by
  have advanced : retPkt { state with seq := state.seq + 1 } =
      (.returnTrue, { state with seq := state.seq + 1 }) := ret_pkt_open sent
  simp only [answer, curr_open state entry older sent, ret_pkt_open sent,
    advanced, invalid_nak_open hdr sent]
  cases nak : flagValidate hdr NAK with
  | true => simp
  | false =>
    have other : flagCheck hdr (DAT ||| NAK) = false := by
      cases check : flagCheck hdr (DAT ||| NAK) with
      | true => exact absurd (nak_of_exact check) (by simp [nak])
      | false => rfl
    by_cases current : hdr.seqn = state.seq ∧ hdr.ackn = state.ack
    · simp [other, current]
    · simp only [if_neg current]
      simp only [not_and_or] at current
      simp [current]

theorem process_first (state : RState) (hdr : RHdr) (empty : state.mys = []) :
    rprocessRequest files state hdr =
      if flagConfirm hdr = false then (.worseChk, state)
      else if demands state hdr && !validChksum hdr then
        (.worseChk, { state with chksum := true })
      else answer files { state with chksum := demands state hdr } (strip state hdr) := by
  simp only [rprocessRequest, invalid_nak_empty hdr empty, curr_empty state empty]
  cases flagConfirm hdr with
  | false => simp
  | true =>
    cases demanded : demands state hdr with
    | true =>
      have test : (flagValidate hdr CHK || state.chksum) = true := demanded
      cases valid : validChksum hdr <;>
        simp [checkChksum, strip, test, demanded, valid, curr_empty state empty]
    | false =>
      have test : (flagValidate hdr CHK || state.chksum) = false := demanded
      have same : { state with chksum := false } = state := by
        rw [← (Bool.or_eq_false_iff.mp test).2]
      simp [checkChksum, strip, test, demanded, same]

theorem process_next (state : RState) (hdr entry : RHdr) (older : List RHdr)
    (sent : state.mys = entry :: older) : rprocessRequest files state hdr =
      if flagConfirm hdr = false then
        if flagValidate hdr NAK then (.returnTrue, markCurr state) else (.badChk, state)
      else if admitted state hdr then answer files state (strip state hdr)
      else (.badChk, state) := by
  simp only [rprocessRequest, invalid_nak_open hdr sent]
  cases flagConfirm hdr with
  | false => simp
  | true =>
    by_cases blank : hdr.msg = emptyBuf
    · cases demanded : demands state hdr with
      | true =>
        have test : (flagValidate hdr CHK || state.chksum) = true := demanded
        cases passed : flagValidate hdr CHK && clientChksum hdr <;>
          simp [checkChksum, admitted, strip, test, demanded, passed, blank,
            curr_open state entry older sent]
      | false =>
        have test : (flagValidate hdr CHK || state.chksum) = false := demanded
        simp [checkChksum, admitted, strip, test, demanded, blank]
    · simp [admitted, blank, curr_open state entry older sent]

/-! ## Inversion -/

/-- What a packet can do to the entries sent, to `ack` and to `request`, with
what is known of the packet then. -/
inductive ProcessEnds (files : FileSystem) (state : RState) (hdr : RHdr) : RState → Prop
  | kept (next : RState) (mys : next.mys = state.mys) (ack : next.ack = state.ack)
      (request : next.request = state.request) : ProcessEnds files state hdr next
  | marked : ProcessEnds files state hdr (markCurr state)
  | opened (chksum : Bool) (resource : List UInt8) (empty : state.mys = [])
      (flags : plainFlags hdr = GET ||| rVersion)
      (found : openResource files hdr.msg = some resource) :
      ProcessEnds files state hdr (markCurr
        { appendEntry { state with chksum := chksum }
            { flagSet (rheadAppend state.mys) DAT with msg := Msg.ofBytes resource } with
          request := some hdr.msg })
  | continued (resource : List UInt8) (sent : state.mys ≠ [])
      (flags : plainFlags hdr = ACK ||| DAT ||| rVersion) (current : hdr.ackn = state.ack)
      (found : state.request.bind (openResource files) = some resource) :
      ProcessEnds files state hdr (markCurr
        (appendEntry state (fileEntry state.mys resource (state.ack.toNat * msgSiz))))
  | closed (flags : plainFlags hdr = ACK ||| FIN ||| rVersion) (current : hdr.ackn = state.ack)
      (fin : finSent state = true) : ProcessEnds files state hdr (answerFin state).2

theorem process_first_ends (empty : state.mys = []) :
    ProcessEnds files state hdr (processed files state hdr) := by
  rw [processed, process_first files state hdr empty]
  split_ifs with foreign invalid
  · exact .kept _ rfl rfl rfl
  · exact .kept _ rfl rfl rfl
  · rw [answer_first files { state with chksum := demands state hdr } (strip state hdr) empty]
    split_ifs with opening get
    · cases found : openResource files (strip state hdr).msg with
      | none =>
        simp only [answerGet, found]
        exact .kept _ rfl rfl rfl
      | some resource =>
        simp only [answerGet, found]
        rw [snd_pkt_open _ _ _ rfl, strip_msg]
        rw [strip_msg] at found
        exact .opened (demands state hdr) resource empty (strip_check (by decide) get) found
    · exact .kept _ rfl rfl rfl
    · exact .kept _ rfl rfl rfl

theorem process_next_ends (sent : state.mys = entry :: older) :
    ProcessEnds files state hdr (processed files state hdr) := by
  rw [processed, process_next files state hdr entry older sent,
    answer_next files state (strip state hdr) entry older sent, strip_seqn, strip_ackn]
  split_ifs with foreign nak admits nak current fresh data last
  · exact .marked
  · exact .kept _ rfl rfl rfl
  · exact .kept _ rfl rfl rfl
  · exact .marked
  · cases found : state.request.bind (openResource files) with
    | none =>
      rw [answerAck, found]
      exact .kept _ rfl rfl rfl
    | some resource =>
      rw [answerAck, found]
      simp only [snd_pkt_open (appendEntry state
        (fileEntry state.mys resource (state.ack.toNat * msgSiz))) _ state.mys rfl]
      exact .continued resource (by simp [sent]) (strip_check (by decide) data) fresh.2 found
  · obtain ⟨flags, fin⟩ := Bool.and_eq_true_iff.mp last
    exact .closed (strip_check (by decide) flags) fresh.2 fin
  · exact .kept _ rfl rfl rfl
  · exact .kept _ rfl rfl rfl
  · exact .kept _ rfl rfl rfl

theorem process_ends (state : RState) (hdr : RHdr) :
    ProcessEnds files state hdr (processed files state hdr) := by
  cases sent : state.mys with
  | nil => exact process_first_ends files hdr sent
  | cons entry older => exact process_next_ends files hdr sent

end Cprogramming.ReliableUdp.Process
