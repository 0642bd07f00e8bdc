import Cprogramming.Library.Runs
import Cprogramming.ReliableUdp.Server

/-!
# The lock of a port

`rhandle_port` takes the lock of a port and hands it to the thread that runs
`csock_send`, or releases it itself when `rprocess_request` turns the packet
down. The main loop serves the datagrams and the retransmissions of a port one
after the other, and its sending threads run in between.
-/

namespace Cprogramming.ReliableUdp.PortLock

open Library.Runs Header Process Server

set_option autoImplicit false

/-! ## The events at one port -/

/-- What `recvfrom` hands on: at most one header. -/
abbrev Datagram := { buf : List UInt8 // buf.length ≤ rhdrSiz }

inductive Event where
  | datagram (call : ServerCall) (buf : Datagram)
  /-- another port of the same address becomes known -/
  | neighbour
  | sender
  | retransmit (call : ServerCall)

def step (addr : Option RAddr) : Event → Option RAddr
  | .datagram call buf => rhandleServ call addr buf.val
  | .neighbour => some (addr.getD ⟨none⟩)
  | .sender => addr.map fun known => ⟨known.port.map runSender⟩
  | .retransmit call => addr.map fun known => ⟨known.port.map (rhandleRetransmit call)⟩

/-- The lock is free, or one `csock_send` owns it and releases it. -/
def Released (port : RMsg) : Prop :=
  port.lock = .free ∨ port.lock = .sending ∧ (csockSend port).1.lock = .free

/-- With its sending thread done, a further datagram gets past the lock. -/
def Receptive (port : RMsg) : Prop :=
  ∀ (call : ServerCall) (buf : Datagram),
    (rhandlePort call (some (runSender port)) buf.val).isSome = true

def LockSafe (addr : Option RAddr) : Prop :=
  ∀ port, addr.bind RAddr.port = some port → Released port ∧ Receptive port

/-! ## When the code releases the lock -/

/-- The packets that `rprocess_request` turns down, so that no thread is asked
for. -/
def refuses (state : RState) (hdr : RHdr) : Bool :=
  if state.curr.isNone then
    !flagConfirm hdr || (demands state hdr && !validChksum hdr) ||
      (hdr.seqn == 1 && hdr.ackn == 0 && !flagCheck (strip state hdr) GET)
  else if flagConfirm hdr && admitted state hdr then
    !flagValidate hdr NAK && hdr.seqn == state.seq && hdr.ackn == state.ack &&
      !flagCheck (strip state hdr) (ACK ||| DAT) &&
      !(flagCheck (strip state hdr) (ACK ||| FIN) && finSent state)
  else flagConfirm hdr || !flagValidate hdr NAK

/-- The message that a datagram completes. A shorter datagram of a port whose
message is complete adds nothing, and the old message is taken once more. -/
def message (found : Option RMsg) (buf : List UInt8) : List UInt8 :=
  match found with
  | none => copyInto (List.replicate rhdrSiz 0) 0 buf
  | some port => if rhdrSiz ≤ buf.length then copyInto port.msg 0 buf else port.msg

/-- `rhandle_retransmit` starts a thread for the port. -/
def due (call : ServerCall) (port : RMsg) : Bool :=
  decide (maxTimeout ≤ call.now - port.updateMys) && port.ona && !port.clr && port.lock == .free

/-- The events that leave the lock free or with a sending thread: the first
datagram of a port is a whole header, and `pthread_create` does not fail where
it is called. -/
def Releases (addr : Option RAddr) : Event → Prop
  | .datagram call buf =>
    let found := addr.bind RAddr.port
    (found.isNone = true → buf.val.length = rhdrSiz) ∧
      (call.spawns = true ∨
        refuses (foundState found) (ofWire (message found buf.val)) = true)
  | .retransmit call =>
    call.spawns = true ∨ (addr.bind RAddr.port).any (due call) = false
  | .neighbour => True
  | .sender => True

/-! ## The verdict of `rprocess_request` -/

variable (call : ServerCall) (found : Option RMsg) (buf : List UInt8) (files : FileSystem)

variable {state : RState}

theorem answer_get_ends (state : RState) (hdr : RHdr) :
    (answerGet files state hdr = (.returnFalse, state)) ∨
      (answerGet files state hdr).1 = .returnTrue ∧ (answerGet files state hdr).2.mys ≠ [] := by
  cases found : openResource files hdr.msg with
  | none => exact Or.inl (by rw [answerGet, found])
  | some resource =>
    right
    simp only [answerGet, found]
    rw [snd_pkt_open _ _ _ rfl, mark_curr_open _ _ _ rfl]
    simp

theorem answer_ack_ends (state : RState) : (answerAck files state = (.returnFalse, state)) ∨
      (answerAck files state).1 = .returnTrue ∧ (answerAck files state).2.mys ≠ [] := by
  cases found : state.request.bind (openResource files) with
  | none => exact Or.inl (by rw [answerAck, found])
  | some resource =>
    right
    simp only [answerAck, found]
    rw [snd_pkt_open _ _ _ rfl, mark_curr_open _ _ _ rfl]
    simp

theorem mark_curr_mys (sent : state.mys ≠ []) : (markCurr state).mys ≠ [] := by
  obtain ⟨entry, older, shape⟩ := List.exists_cons_of_ne_nil sent
  rw [mark_curr_open state entry older shape]
  simp

/-- What a verdict says: whether the packet was refused, and that every verdict
but two leaves an entry to send. -/
structure VerdictFacts (state : RState) (hdr : RHdr) (result : Verdict × RState) : Prop where
  refused : refuses state hdr = true ↔ result.1 = .badChk ∨ result.1 = .worseChk
  current : result.1 = .badChk ∨ result.1 = .returnTrue → result.2.mys ≠ []

theorem process_first_verdict (hdr : RHdr) (empty : state.mys = []) :
    VerdictFacts state hdr (rprocessRequest files state hdr) := by
  rw [process_first files state hdr empty,
    answer_first files { state with chksum := demands state hdr } (strip state hdr) empty]
  have turned : refuses state hdr = (!flagConfirm hdr || (demands state hdr && !validChksum hdr) ||
      (hdr.seqn == 1 && hdr.ackn == 0 && !flagCheck (strip state hdr) GET)) := by
    simp [refuses, curr_empty state empty]
  rw [strip_seqn, strip_ackn]
  split_ifs with foreign invalid opening get
  · exact ⟨by simp [turned, foreign], by simp⟩
  · exact ⟨by simp [turned, invalid], by simp⟩
  · have accepted : refuses state hdr = false := by
      simp [turned, foreign, invalid, opening, get]
    rcases answer_get_ends files { state with chksum := demands state hdr } (strip state hdr) with
      missing | ⟨sent, entries⟩
    · rw [missing]
      exact ⟨by simp [accepted], by simp⟩
    · exact ⟨by simp [accepted, sent], fun _ => entries⟩
  · exact ⟨by simp [turned, opening, get], by simp⟩
  · have accepted : refuses state hdr = false := by
      rw [turned]
      grind
    exact ⟨by simp [accepted], by simp⟩

theorem process_next_verdict {entry : RHdr} (hdr : RHdr) {older : List RHdr}
    (sent : state.mys = entry :: older) :
    VerdictFacts state hdr (rprocessRequest files state hdr) := by
  have known : state.mys ≠ [] := by simp [sent]
  have marked := mark_curr_mys known
  rw [process_next files state hdr entry older sent,
    answer_next files state (strip state hdr) entry older sent, strip_seqn, strip_ackn, strip_nak]
  have present : state.curr.isNone = false := by simp [curr_open state entry older sent]
  split_ifs with foreign nak admits nak current fresh data last
  · exact ⟨by simp [refuses, present, foreign, nak], fun _ => marked⟩
  · exact ⟨by simp [refuses, present, foreign, nak], fun _ => known⟩
  · exact ⟨by simp [refuses, present, foreign, admits, nak], fun _ => known⟩
  · exact ⟨by simp [refuses, present, foreign, admits, nak], fun _ => marked⟩
  · have accepted : refuses state hdr = false := by
      simp [refuses, present, foreign, admits, nak, data]
    rcases answer_ack_ends files state with missing | ⟨answered, entries⟩
    · rw [missing]
      exact ⟨by simp [accepted], by simp⟩
    · exact ⟨by simp [accepted, answered], fun _ => entries⟩
  · obtain ⟨flags, fin⟩ := Bool.and_eq_true_iff.mp last
    exact ⟨by simp [refuses, present, foreign, admits, flags, fin, answerFin], by simp [answerFin]⟩
  · exact ⟨by simp [refuses, present, foreign, admits, nak, fresh, data, last], fun _ => known⟩
  · have accepted : refuses state hdr = false := by
      simp only [refuses, present]
      grind
    exact ⟨by simp [accepted], fun _ => known⟩
  · exact ⟨by simp [refuses, present, foreign, admits], fun _ => known⟩

theorem process_verdict (state : RState) (hdr : RHdr) :
    VerdictFacts state hdr (rprocessRequest files state hdr) := by
  cases sent : state.mys with
  | nil => exact process_first_verdict files hdr sent
  | cons entry older => exact process_next_verdict files hdr sent

/-! ## The lock across an event -/

variable {port : RMsg}

theorem handle_message_lock (oldTime : Int) (port : RMsg) :
    (handleMessage call oldTime port).1 = !refuses port.state (ofWire port.msg) ∧
      (handleMessage call oldTime port).2.lock =
        if refuses port.state (ofWire port.msg) then .free else spawned call := by
  have facts := (process_verdict call.files port.state (ofWire port.msg)).refused
  unfold handleMessage
  generalize rprocessRequest call.files port.state (ofWire port.msg) = result at facts ⊢
  obtain ⟨verdict, state⟩ := result
  cases verdict <;> simp_all

/-- A port holds a whole message and, while it is active, an entry to send. -/
structure Ready (port : RMsg) : Prop where
  left : port.left = 0
  written : port.written = rhdrSiz
  current : port.ona = true → port.state.mys ≠ []

theorem handle_message_ready (oldTime : Int) (left : port.left = 0)
    (written : port.written = rhdrSiz) : Ready (handleMessage call oldTime port).2 := by
  have facts := (process_verdict call.files port.state (ofWire port.msg)).current
  unfold handleMessage
  generalize rprocessRequest call.files port.state (ofWire port.msg) = result at facts ⊢
  obtain ⟨verdict, state⟩ := result
  cases verdict with
  | returnFalse =>
    refine ⟨left, written, ?_⟩
    cases entries : state.mys <;> simp [RState.curr, entries]
  | returnTrue => exact ⟨left, written, fun _ => facts (Or.inr rfl)⟩
  | badChk => exact ⟨left, written, fun _ => facts (Or.inl rfl)⟩
  | worseChk => exact ⟨left, written, by simp⟩

theorem csock_send_releases (ready : Ready port) :
    (csockSend port).1.lock = .free ∧ Ready (csockSend port).1 := by
  obtain ⟨left, written, current⟩ := ready
  unfold csockSend
  split_ifs with off
  · exact ⟨rfl, left, written, by simp [off]⟩
  · obtain ⟨entry, older, sent⟩ := List.exists_cons_of_ne_nil (current (by simpa using off))
    rw [curr_open port.state entry older sent]
    exact ⟨rfl, left, written, by simp [sent]⟩

theorem run_sender_releases (ready : Ready port) (unstuck : port.lock ≠ .stuck) :
    (runSender port).lock = .free ∧ Ready (runSender port) := by
  unfold runSender
  split_ifs with sending
  · exact csock_send_releases ready
  · refine ⟨?_, ready⟩
    cases lock : port.lock with
    | free => rfl
    | sending => exact absurd lock sending
    | stuck => exact absurd lock unstuck

theorem run_sender_msg (port : RMsg) : (runSender port).msg = port.msg := by
  unfold runSender csockSend
  split_ifs
  · rfl
  · cases port.state.curr <;> rfl
  · rfl

/-- The only ports that are not ready are those whose lock was left taken. -/
def Settled (addr : Option RAddr) : Prop :=
  ∀ port, addr.bind RAddr.port = some port → port.lock = .stuck ∨ Ready port

/-- What `rhandle_port` works on once it has the lock. -/
def taken (call : ServerCall) (found : Option RMsg) (buf : List UInt8) : RMsg :=
  reopen (match found.map runSender with
    | none => newPort call buf
    | some port => storeInto call port buf)

theorem rhandle_port_eq : rhandlePort call found buf =
      if (taken call found buf).lock ≠ .free then none
      else if (taken call found buf).left = 0 ∧ (taken call found buf).written = rhdrSiz then
        some (handleMessage call (found.elim 0 RMsg.updateHis) (taken call found buf))
      else some (true, { taken call found buf with lock := .stuck }) := by
  cases found <;> rfl

theorem taken_lock (port : RMsg) (buf : List UInt8) :
    (taken call (some port) buf).lock = (runSender port).lock := by
  simp only [taken, Option.map_some, reopen, storeInto]
  split_ifs <;> rfl

theorem taken_whole (ready : ∀ port, found = some port → Ready port)
    (unstuck : ∀ port, found = some port → port.lock ≠ .stuck)
    (whole : found.isNone = true → buf.length = rhdrSiz) :
    (taken call found buf).left = 0 ∧ (taken call found buf).written = rhdrSiz ∧
      (taken call found buf).state = foundState found ∧
      (taken call found buf).msg = message found buf := by
  cases found with
  | none =>
    have full := whole rfl
    simp [taken, reopen, newPort, full, foundState, message]
  | some port =>
    obtain ⟨-, left, written, _⟩ := run_sender_releases (ready port rfl) (unstuck port rfl)
    rw [← found_state_waited]
    simp only [taken, reopen, storeInto, left, written, foundState, message, Option.map_some,
      ← run_sender_msg port]
    split_ifs <;> simp_all [copyInto]

theorem rhandle_port_whole (ready : ∀ port, found = some port → Ready port)
    (unstuck : ∀ port, found = some port → port.lock ≠ .stuck)
    (whole : found.isNone = true → buf.length = rhdrSiz) : rhandlePort call found buf =
      some (handleMessage call (found.elim 0 RMsg.updateHis) (taken call found buf)) := by
  obtain ⟨left, written, -, -⟩ := taken_whole call found buf ready unstuck whole
  have lock : (taken call found buf).lock = .free := by
    cases found with
    | none => rfl
    | some port =>
      rw [taken_lock]
      exact (run_sender_releases (ready port rfl) (unstuck port rfl)).1
  rw [rhandle_port_eq, if_neg (not_not.mpr lock), if_pos ⟨left, written⟩]

theorem rhandle_port_held (port : RMsg) (buf : List UInt8) (held : port.lock = .stuck) :
    rhandlePort call (some port) buf = none := by
  rw [rhandle_port_eq, if_pos (by simp [taken_lock, runSender, held])]

theorem rhandle_port_short (short : buf.length ≠ rhdrSiz) :
    rhandlePort call none buf = some (true, { newPort call buf with lock := .stuck }) := by
  have incomplete : ¬((taken call none buf).left = 0 ∧ (taken call none buf).written = rhdrSiz) :=
    fun complete => short complete.2
  have fresh : (taken call none buf).lock = .free := rfl
  rw [rhandle_port_eq, if_neg (not_not.mpr fresh), if_neg incomplete]
  rfl

theorem retransmit_ready (ready : Ready port) : Ready (rhandleRetransmit call port) := by
  obtain ⟨left, written, current⟩ := ready
  unfold rhandleRetransmit
  split_ifs with destroyed resent
  · exact ⟨left, written, by simp⟩
  · simp only [Bool.and_eq_true] at resent
    exact ⟨left, written, fun _ => current resent.1.1.2⟩
  · exact ⟨left, written, current⟩

theorem retransmit_lock (port : RMsg) :
    (rhandleRetransmit call port).lock = if due call port then spawned call else port.lock := by
  unfold rhandleRetransmit due
  split_ifs with destroyed resent <;> simp_all

theorem lock_safe_iff {addr : Option RAddr} (settled : Settled addr) :
    LockSafe addr ↔ ∀ port, addr.bind RAddr.port = some port → port.lock ≠ .stuck := by
  constructor
  · intro safe port found stuck
    obtain ⟨released, -⟩ := safe port found
    simp [Released, stuck] at released
  · intro unstuck port found
    have ready : Ready port := (settled port found).resolve_left (unstuck port found)
    obtain ⟨unlocked, whole⟩ := run_sender_releases ready (unstuck port found)
    have receptive : Receptive port := by
      intro call buf
      rw [rhandle_port_whole call (some (runSender port)) buf.val (by simpa using whole)
        (by simp [unlocked]) (by simp)]
      rfl
    cases lock : port.lock with
    | free => exact ⟨Or.inl lock, receptive⟩
    | sending => exact ⟨Or.inr ⟨lock, (csock_send_releases ready).1⟩, receptive⟩
    | stuck => exact absurd lock (unstuck port found)

/-! ## Steps -/

theorem step_settled (addr : Option RAddr) (event : Event) (settled : Settled addr) :
    Settled (step addr event) := by
  intro next found
  cases event with
  | datagram call buf =>
    rcases rhandle_serv_port call addr buf.val next found with same | ⟨handled, result⟩
    · exact settled next same
    · by_cases whole : (addr.bind RAddr.port).isNone = true → buf.val.length = rhdrSiz
      · have unstuck (port : RMsg) (known : addr.bind RAddr.port = some port) :
            port.lock ≠ .stuck := by
          intro held
          rw [known, rhandle_port_held call port buf.val held] at result
          simp at result
        have ready (port : RMsg) (known : addr.bind RAddr.port = some port) : Ready port :=
          (settled port known).resolve_left (unstuck port known)
        rw [rhandle_port_whole call _ buf.val ready unstuck whole] at result
        obtain ⟨left, written, -, -⟩ := taken_whole call _ buf.val ready unstuck whole
        have outcome := handle_message_ready call
          ((addr.bind RAddr.port).elim 0 RMsg.updateHis) left written
        rw [Option.some.inj result] at outcome
        exact Or.inr outcome
      · obtain ⟨unknown, short⟩ := Classical.not_imp.mp whole
        rw [Option.isNone_iff_eq_none.mp unknown, rhandle_port_short call buf.val short] at result
        left
        rw [← (Prod.mk.inj (Option.some.inj result)).2]
  | neighbour =>
    cases addr with
    | none => simp [step] at found
    | some known => exact settled next found
  | sender =>
    cases addr with
    | none => simp [step] at found
    | some known =>
      obtain ⟨port, present, rfl⟩ := Option.map_eq_some_iff.mp found
      unfold runSender
      split_ifs with sending
      · have ready := (settled port present).resolve_left (by simp [sending])
        exact Or.inr (csock_send_releases ready).2
      · exact settled port present
  | retransmit call =>
    cases addr with
    | none => simp [step] at found
    | some known =>
      obtain ⟨port, present, rfl⟩ := Option.map_eq_some_iff.mp found
      rcases settled port present with stuck | ready
      · left
        rw [retransmit_lock, if_neg (by simp [due, stuck]), stuck]
      · exact Or.inr (retransmit_ready call ready)

theorem spawned_not_stuck : spawned call ≠ .stuck ↔ call.spawns = true := by
  cases asked : call.spawns <;> simp [spawned, asked]

theorem whole_datagram_lock (addr : Option RAddr) (buf : List UInt8)
    (ready : ∀ port, addr.bind RAddr.port = some port → Ready port)
    (unstuck : ∀ port, addr.bind RAddr.port = some port → port.lock ≠ .stuck)
    (whole : (addr.bind RAddr.port).isNone = true → buf.length = rhdrSiz) :
    (∀ port, (rhandleServ call addr buf).bind RAddr.port = some port → port.lock ≠ .stuck) ↔
      call.spawns = true ∨
        refuses (foundState (addr.bind RAddr.port)) (ofWire (message (addr.bind RAddr.port) buf)) =
          true := by
  obtain ⟨-, -, state, msg⟩ := taken_whole call _ buf ready unstuck whole
  obtain ⟨handled, lock⟩ := handle_message_lock call
    ((addr.bind RAddr.port).elim 0 RMsg.updateHis) (taken call (addr.bind RAddr.port) buf)
  rw [state, msg] at handled lock
  simp only [rhandleServ, rhandle_port_whole call _ buf ready unstuck whole]
  cases refused : refuses (foundState (addr.bind RAddr.port))
      (ofWire (message (addr.bind RAddr.port) buf)) with
  | true =>
    simp only [refused, Bool.not_true, if_true] at handled lock
    simp only [handled, Bool.or_false, or_true, iff_true]
    intro port found
    split_ifs at found with known
    · rw [← Option.some.inj found, lock]
      decide
    · rw [Bool.not_eq_true, Option.isSome_eq_false_iff, Option.isNone_iff_eq_none] at known
      simp [known] at found
  | false =>
    simp only [refused, Bool.not_false, Bool.false_eq_true, if_false] at handled lock
    simp [handled, lock, spawned_not_stuck]

theorem step_lock_safe_iff (addr : Option RAddr) (event : Event) (settled : Settled addr)
    (safe : LockSafe addr) : LockSafe (step addr event) ↔ Releases addr event := by
  rw [lock_safe_iff (step_settled addr event settled)]
  rw [lock_safe_iff settled] at safe
  have ready (port : RMsg) (found : addr.bind RAddr.port = some port) : Ready port :=
    (settled port found).resolve_left (safe port found)
  cases event with
  | datagram call buf =>
    simp only [step, Releases]
    by_cases whole : (addr.bind RAddr.port).isNone = true → buf.val.length = rhdrSiz
    · rw [whole_datagram_lock call addr buf.val ready safe whole]
      exact (and_iff_right whole).symm
    · obtain ⟨unknown, short⟩ := Classical.not_imp.mp whole
      simp only [rhandleServ, Option.isNone_iff_eq_none.mp unknown,
        rhandle_port_short call buf.val short]
      simp [short]
  | neighbour =>
    cases addr with
    | none => simp [step, Releases]
    | some known => simpa [step, Releases] using safe
  | sender =>
    simp only [Releases, iff_true]
    cases addr with
    | none => simp [step]
    | some known =>
      intro next found
      obtain ⟨port, present, rfl⟩ := Option.map_eq_some_iff.mp found
      unfold runSender
      split_ifs
      · rw [(csock_send_releases (ready port present)).1]
        decide
      · exact safe port present
  | retransmit call =>
    cases addr with
    | none => simp [step, Releases]
    | some known =>
      cases present : known.port with
      | none => simp [step, Releases, present]
      | some port =>
        have kept := safe port present
        simp only [step, Releases, Option.map_some, Option.bind_some, present,
          Option.some.injEq, forall_eq', retransmit_lock, Option.any_some]
        cases wanted : due call port with
        | true => simp [spawned_not_stuck]
        | false => simpa using kept

/-- Along every run of a server the lock of a port stays free or with a sender
exactly when every event releases it. -/
theorem lock_safe_throughout_iff (events : List Event) :
    Throughout step LockSafe none events ↔ EachStep step Releases none events := by
  exact throughout_iff_of_invariant step Settled LockSafe Releases step_settled step_lock_safe_iff
    none (by simp [Settled]) (by simp [LockSafe]) events

/-- One datagram shorter than a header, from a new port, is enough. -/
theorem short_datagram_leaks_lock :
    ¬ Throughout step LockSafe none
      [.datagram ⟨⟨fun _ => false, fun _ => none⟩, 0, true⟩ ⟨[0], by decide⟩] := by
  intro held
  obtain ⟨released, -⟩ := held.2 _ rfl
  rcases released with free | ⟨sending, -⟩
  · exact absurd free (by decide)
  · exact absurd sending (by decide)

end Cprogramming.ReliableUdp.PortLock
