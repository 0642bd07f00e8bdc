import Cprogramming.ReliableUdp.Process

/-!
# The server's side of a connection

`RHandleServ.h` for one client: the message buffer and the state kept for its
port, the thread that sends the current entry, the retransmission pass and the
handling of a datagram. The main loop of `RUSHBSvr.c` runs the pass and the
handling in one thread; a sending thread holds the lock of its port from its
creation to its end.
-/

namespace Cprogramming.ReliableUdp.Server

open Header Process

set_option autoImplicit false

def maxTimeout : Int := 4

def deadTimeout : Int := 1000

/-- Who holds the mutex of a port: nobody, a sending thread that will release
it, or code that has returned without releasing it. -/
inductive Lock where
  | free
  | sending
  | stuck
deriving DecidableEq

structure RMsg where
  msg : List UInt8
  written : Nat
  left : Nat
  updateHis : Int
  updateMys : Int
  state : RState
  ona : Bool
  clr : Bool
  lock : Lock

structure ServerCall where
  files : FileSystem
  now : Int
  spawns : Bool

def spawned (call : ServerCall) : Lock := if call.spawns then .sending else .stuck

/-! ## Sending -/

/-- `csock_send`: the entry it sends, if any. `curr` is not null while `ona` is
set, because `rhandle_port` clears `ona` when a message leaves no entry. -/
def csockSend (port : RMsg) : RMsg × Option RHdr :=
  if port.ona = false then ({ port with lock := .free }, none)
  else
    match port.state.curr with
    | none => (port, none)
    | some entry =>
      let switchOff := flagCheck entry (FIN ||| ACK) || flagCheck entry (FIN ||| ACK ||| CHK)
      ({ port with ona := !switchOff, lock := .free }, some entry)

def runSender (port : RMsg) : RMsg := if port.lock = .sending then (csockSend port).1 else port

def rhandleRetransmit (call : ServerCall) (port : RMsg) : RMsg :=
  if !port.ona && !port.clr && port.lock == .free then
    { port with state := rstateDestroy, ona := false, clr := true }
  else if decide (maxTimeout ≤ call.now - port.updateMys) && port.ona && !port.clr &&
      port.lock == .free then
    { port with
      ona := !decide (deadTimeout ≤ call.now - port.updateHis)
      updateMys := call.now
      lock := spawned call }
  else port

/-! ## Receiving -/

def copyInto (buffer : List UInt8) (offset : Nat) (bytes : List UInt8) : List UInt8 :=
  buffer.take offset ++ bytes ++ buffer.drop (offset + bytes.length)

def newPort (call : ServerCall) (buf : List UInt8) : RMsg where
  msg := copyInto (List.replicate rhdrSiz 0) 0 buf
  written := buf.length
  left := rhdrSiz - buf.length
  updateHis := call.now
  updateMys := call.now
  state := rstateFresh
  ona := true
  clr := false
  lock := .free

def storeInto (call : ServerCall) (port : RMsg) (buf : List UInt8) : RMsg :=
  if rhdrSiz ≤ buf.length then
    { port with
      msg := copyInto port.msg 0 buf
      left := 0
      written := rhdrSiz
      updateHis := call.now
      updateMys := call.now }
  else
    let space := if port.left < buf.length then port.left else buf.length
    { port with
      msg := copyInto port.msg port.written (buf.take space)
      left := port.left - space
      written := port.written + space
      updateHis := call.now
      updateMys := call.now }

def reopen (port : RMsg) : RMsg :=
  if port.clr then { port with state := rstateInit port.state, ona := true, clr := false }
  else port

/-- The complete message in the buffer is processed under the lock. The result
is what `rhandle_port` returns. -/
def handleMessage (call : ServerCall) (oldTime : Int) (port : RMsg) : Bool × RMsg :=
  match rprocessRequest call.files port.state (ofWire port.msg) with
  | (.badChk, state) =>
    (false, { port with state := state, updateHis := oldTime, updateMys := oldTime, lock := .free })
  | (.worseChk, state) =>
    (false, { port with state := state, ona := false, clr := false, lock := .free })
  | (verdict, state) =>
    let failed := verdict == .returnFalse && state.curr.isNone
    (true, { port with
      state := state
      ona := !failed && port.ona
      clr := !failed && port.clr
      lock := spawned call })

/-- `rhandle_port`. The main thread waits for the sending thread, which reads
nothing that is stored before. There is no result while it sleeps for a lock that
nobody releases. A datagram that does not complete a message leaves the lock
taken. -/
def rhandlePort (call : ServerCall) (found : Option RMsg) (buf : List UInt8) :
    Option (Bool × RMsg) :=
  let stored := match found.map runSender with
    | none => newPort call buf
    | some port => storeInto call port buf
  -- `old_time` is not set for a new port, which never fails with `badChk`
  let oldTime := match found with
    | none => 0
    | some port => port.updateHis
  let port := reopen stored
  if port.lock ≠ .free then none
  else if port.left = 0 ∧ port.written = rhdrSiz then some (handleMessage call oldTime port)
  else some (true, { port with lock := .stuck })

structure RAddr where
  port : Option RMsg

/-- `rhandle_serv`: a new address is only kept if the port's handling returns
true. -/
def rhandleServ (call : ServerCall) (addr : Option RAddr) (buf : List UInt8) : Option RAddr :=
  match rhandlePort call (addr.bind RAddr.port) buf with
  | none => addr
  | some (handled, port) => if addr.isSome || handled then some ⟨some port⟩ else addr

/-! ## What the calls do to the connection -/

def foundState : Option RMsg → RState
  | none => rstateFresh
  | some port => if port.clr then rstateInit port.state else port.state

theorem csock_send_state (port : RMsg) :
    (csockSend port).1.state = port.state ∧ (csockSend port).1.clr = port.clr ∧
      ∀ entry, (csockSend port).2 = some entry → port.state.curr = some entry := by
  unfold csockSend
  split_ifs
  · simp
  · cases curr : port.state.curr <;> simp

theorem run_sender_state (port : RMsg) :
    (runSender port).state = port.state ∧ (runSender port).clr = port.clr := by
  obtain ⟨state, clear, _⟩ := csock_send_state port
  unfold runSender
  split_ifs
  · exact ⟨state, clear⟩
  · exact ⟨rfl, rfl⟩

theorem found_state_waited (found : Option RMsg) :
    foundState (found.map runSender) = foundState found := by
  cases found with
  | none => rfl
  | some port =>
    obtain ⟨state, clear⟩ := run_sender_state port
    simp only [Option.map_some, foundState, state, clear]

theorem full_datagram (call : ServerCall) (found : Option RMsg) (buf : List UInt8)
    (full : buf.length = rhdrSiz) (handled : Bool) (next : RMsg)
    (result : rhandlePort call found buf = some (handled, next)) :
    ∃ oldTime port rest, handleMessage call oldTime port = (handled, next) ∧
      port.msg = buf ++ rest ∧ port.state = foundState found ∧ port.clr = false := by
  simp only [rhandlePort] at result
  rw [← found_state_waited]
  generalize found.map runSender = waited at result ⊢
  split_ifs at result with locked complete
  · refine ⟨_, _, ?_, Option.some.inj result, ?_⟩
    · exact match waited with
        | none => (List.replicate rhdrSiz 0).drop (0 + buf.length)
        | some port => port.msg.drop (0 + buf.length)
    · cases waited with
      | none => simp [reopen, newPort, copyInto, foundState]
      | some port =>
        simp only [reopen, storeInto, full, Nat.le_refl, if_true, copyInto, foundState]
        split_ifs with cleared <;> simp_all
  · exfalso
    apply complete
    cases waited with
    | none => simp [reopen, newPort, full]
    | some port =>
      simp only [reopen, storeInto, full, Nat.le_refl, if_true]
      split_ifs <;> simp

theorem handle_message_state (call : ServerCall) (oldTime : Int) (port : RMsg) :
    (handleMessage call oldTime port).2.state =
        processed call.files port.state (ofWire port.msg) ∧
      ((handleMessage call oldTime port).2.clr = true → port.clr = true) := by
  unfold handleMessage processed
  rcases rprocessRequest call.files port.state (ofWire port.msg) with ⟨verdict, state⟩
  cases verdict <;> simp

theorem retransmit_state (call : ServerCall) (port : RMsg) :
    ((rhandleRetransmit call port).state = rstateDestroy) ∨
      ((rhandleRetransmit call port).state = port.state ∧
        (rhandleRetransmit call port).clr = port.clr) := by
  unfold rhandleRetransmit
  split_ifs
  · exact Or.inl rfl
  · exact Or.inr ⟨rfl, rfl⟩
  · exact Or.inr ⟨rfl, rfl⟩

theorem rhandle_serv_port (call : ServerCall) (addr : Option RAddr) (buf : List UInt8)
    (port : RMsg) (found : (rhandleServ call addr buf).bind RAddr.port = some port) :
    addr.bind RAddr.port = some port ∨
      ∃ handled, rhandlePort call (addr.bind RAddr.port) buf = some (handled, port) := by
  unfold rhandleServ at found
  cases result : rhandlePort call (addr.bind RAddr.port) buf with
  | none =>
    rw [result] at found
    exact Or.inl found
  | some pair =>
    rw [result] at found
    dsimp only at found
    split_ifs at found with kept
    · have same : pair.2 = port := by simpa using found
      exact Or.inr ⟨pair.1, by rw [← same]⟩
    · exact Or.inl found

end Cprogramming.ReliableUdp.Server
