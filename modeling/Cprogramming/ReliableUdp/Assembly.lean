import Mathlib.Data.Nat.Find
import Cprogramming.ReliableUdp.PortLock
import Cprogramming.ReliableUdp.Transfer

/-!
# Messages in several datagrams

`rhandle_port` copies a datagram behind what it has of a message and counts in
`written` and `left`, so a message may arrive in pieces. A datagram that leaves a
message incomplete leaves the lock of the port taken as well: no datagram after it
gets past the lock. And the counters of a complete message are not set back, so the
next short datagram finds the old message complete.
-/

namespace Cprogramming.ReliableUdp.Assembly

open Header Server Client Transfer
open PortLock (Ready taken taken_lock taken_whole rhandle_port_eq rhandle_port_held
  rhandle_port_short)

set_option autoImplicit false

/-! ## Datagrams at one port -/

structure Arrival where
  call : ServerCall
  buf : List UInt8

def handedOn (call : ServerCall) (found : Option RMsg) (buf : List UInt8) : Option (List UInt8) :=
  let port := taken call found buf
  if port.lock = .free ∧ port.left = 0 ∧ port.written = rhdrSiz then some (port.msg.take rhdrSiz)
  else none

/-- The port when the next datagram arrives: its sending thread has ended. -/
def deliver (found : Option RMsg) (arrival : Arrival) : Option RMsg :=
  match rhandlePort arrival.call found arrival.buf with
  | none => found
  | some (_, port) => some (runSender port)

def processings : Option RMsg → List Arrival → List (Option (List UInt8))
  | _, [] => []
  | found, arrival :: rest =>
    handedOn arrival.call found arrival.buf :: processings (deliver found arrival) rest

/-- What a datagram should make `rhandle_port` hand on: the last `rhdrSiz` bytes, if
its own bytes complete a message. -/
def expected (datagrams : List (List UInt8)) (index : Nat) : Option (List UInt8) :=
  let before := (datagrams.take index).flatten
  let received := (datagrams.take (index + 1)).flatten
  if before.length < received.length ∧ rhdrSiz ∣ received.length then
    some (received.drop (received.length - rhdrSiz))
  else none

def Assembles (found : Option RMsg) (arrivals : List Arrival) : Prop :=
  ∀ index < arrivals.length,
    (processings found arrivals)[index]? = some (expected (arrivals.map Arrival.buf) index)

/-- The datagrams carry whole messages, and each ends with a datagram. -/
structure EndAtDatagrams (datagrams : List (List UInt8)) : Prop where
  whole : rhdrSiz ∣ datagrams.flatten.length
  boundary : ∀ count, count * rhdrSiz ≤ datagrams.flatten.length →
    ∃ index, (datagrams.take index).flatten.length = count * rhdrSiz

/-! ## What the code processes -/

variable {port : RMsg} {arrivals : List Arrival}

theorem rhandle_port_handed (call : ServerCall) (found : Option RMsg) (buf : List UInt8) :
    rhandlePort call found buf =
      if (handedOn call found buf).isSome then
        some (handleMessage call (found.elim 0 RMsg.updateHis) (taken call found buf))
      else if (taken call found buf).lock = .free then
        some (true, { taken call found buf with lock := .stuck })
      else none := by
  rw [rhandle_port_eq, handedOn]
  by_cases free : (taken call found buf).lock = .free
  · by_cases complete : (taken call found buf).left = 0 ∧ (taken call found buf).written = rhdrSiz
    · simp [free, complete]
    · simp [free, complete]
  · simp [free]

theorem processings_held (held : port.lock = .stuck) (arrivals : List Arrival) :
    processings (some port) arrivals = List.replicate arrivals.length none := by
  induction arrivals with
  | nil => rfl
  | cons arrival rest ih =>
    have asleep : rhandlePort arrival.call (some port) arrival.buf = none :=
      rhandle_port_held arrival.call port arrival.buf held
    have same : deliver (some port) arrival = some port := by rw [deliver, asleep]
    have nothing : handedOn arrival.call (some port) arrival.buf = none := by
      simp [handedOn, taken_lock, runSender, held]
    rw [processings, nothing, same, ih, List.length_cons, List.replicate_succ]

theorem processings_new (short : ∀ arrival ∈ arrivals, arrival.buf.length < rhdrSiz) :
    processings none arrivals = List.replicate arrivals.length none := by
  cases arrivals with
  | nil => rfl
  | cons arrival rest =>
    have first : arrival.buf.length ≠ rhdrSiz :=
      Nat.ne_of_lt (short arrival List.mem_cons_self)
    have nothing : handedOn arrival.call none arrival.buf = none :=
      if_neg (fun complete => first complete.2.2)
    have stuck : deliver none arrival =
        some { newPort arrival.call arrival.buf with lock := .stuck } := by
      rw [deliver, rhandle_port_short arrival.call arrival.buf first]
      rfl
    rw [processings, nothing, stuck, processings_held rfl, List.length_cons, List.replicate_succ]

theorem handed_on_again (call : ServerCall) {buf : List UInt8} (ready : Ready port)
    (unlocked : port.lock = .free) (short : buf.length < rhdrSiz) :
    handedOn call (some port) buf = some (port.msg.take rhdrSiz) := by
  obtain ⟨left, written, _, msg⟩ := taken_whole call (some port) buf
    (fun known same => by rw [← Option.some.inj same]; exact ready) (by simp [unlocked]) (by simp)
  have kept : PortLock.message (some port) buf = port.msg := if_neg (Nat.not_le.mpr short)
  rw [handedOn]
  simp [taken_lock, runSender, unlocked, left, written, msg, kept]

/-! ## What it should process -/

theorem flatten_take_le (datagrams : List (List UInt8)) (index : Nat) :
    (datagrams.take index).flatten.length ≤ datagrams.flatten.length := by
  conv_rhs => rw [← List.take_append_drop index datagrams, List.flatten_append, List.length_append]
  exact Nat.le_add_right _ _

theorem expected_of_no_bytes {datagrams : List (List UInt8)} (empty : datagrams.flatten = [])
    (index : Nat) : expected datagrams index = none := by
  have bound := flatten_take_le datagrams (index + 1)
  rw [empty, List.length_nil] at bound
  exact if_neg (fun grows => by omega)

theorem expected_of_bytes {datagrams : List (List UInt8)}
    (whole : rhdrSiz ∣ datagrams.flatten.length) (bytes : datagrams.flatten ≠ []) :
    ∃ index < datagrams.length, (expected datagrams index).isSome = true := by
  have positive := List.length_pos_iff.mpr bytes
  have reached : ∃ count, (datagrams.take count).flatten.length = datagrams.flatten.length :=
    ⟨datagrams.length, by rw [List.take_length]⟩
  have all := Nat.find_spec reached
  have inside : Nat.find reached ≤ datagrams.length :=
    Nat.find_min' reached (by rw [List.take_length])
  cases count : Nat.find reached with
  | zero =>
    rw [count, List.take_zero, List.flatten_nil, List.length_nil] at all
    omega
  | succ index =>
    rw [count] at all inside
    have missing : (datagrams.take index).flatten.length ≠ datagrams.flatten.length :=
      Nat.find_min reached (by omega)
    have bound := flatten_take_le datagrams index
    refine ⟨index, inside, ?_⟩
    rw [expected, if_pos ⟨by omega, by rw [all]; exact whole⟩]
    rfl

/-! ## Assembly -/

theorem not_assembles_known (ready : Ready port) (unlocked : port.lock = .free)
    (present : arrivals ≠ []) (short : ∀ arrival ∈ arrivals, arrival.buf.length < rhdrSiz) :
    ¬ Assembles (some port) arrivals := by
  intro assembles
  cases arrivals with
  | nil => exact present rfl
  | cons arrival rest =>
    have size := short arrival List.mem_cons_self
    have first := assembles 0 (by simp)
    have incomplete : expected ((arrival :: rest).map Arrival.buf) 0 = none := by
      simp only [expected, List.map_cons, List.take_zero, List.flatten_nil, List.length_nil,
        Nat.zero_add, List.take_succ_cons, List.flatten_cons, List.append_nil]
      exact if_neg (fun ⟨grows, divides⟩ => Nat.not_le.mpr size (Nat.le_of_dvd grows divides))
    rw [processings, handed_on_again arrival.call ready unlocked size, incomplete] at first
    simp at first

theorem assembles_iff_of_nothing {found : Option RMsg}
    (nothing : processings found arrivals = List.replicate arrivals.length none)
    (whole : rhdrSiz ∣ (arrivals.map Arrival.buf).flatten.length) :
    Assembles found arrivals ↔ (arrivals.map Arrival.buf).flatten = [] := by
  have silent (index : Nat) (inside : index < arrivals.length) :
      (processings found arrivals)[index]? = some none := by
    rw [nothing, List.getElem?_replicate, if_pos inside]
  constructor
  · intro assembles
    by_contra bytes
    obtain ⟨index, inside, completes⟩ := expected_of_bytes whole bytes
    rw [List.length_map] at inside
    have result := assembles index inside
    rw [silent index inside, Option.some.injEq] at result
    rw [← result] at completes
    cases completes
  · intro empty index inside
    rw [silent index inside, expected_of_no_bytes empty index]

/-- Messages that come in short datagrams are never assembled. The code is right
only where it has nothing to do: without datagrams, or without bytes at a port that
is new or whose lock is taken for good. -/
theorem assembles_iff_no_message (found : Option RMsg) (arrivals : List Arrival)
    (between : ∀ port, found = some port → port.lock = .stuck ∨ Ready port ∧ port.lock = .free)
    (short : ∀ arrival ∈ arrivals, arrival.buf.length < rhdrSiz)
    (messages : EndAtDatagrams (arrivals.map Arrival.buf)) :
    Assembles found arrivals ↔ arrivals = [] ∨
      (∀ port, found = some port → port.lock = .stuck) ∧
        (arrivals.map Arrival.buf).flatten = [] := by
  by_cases absent : arrivals = []
  · have assembles : Assembles found arrivals := by
      intro index inside
      rw [absent] at inside
      exact absurd inside (Nat.not_lt_zero index)
    exact ⟨fun _ => Or.inl absent, fun _ => assembles⟩
  · simp only [absent, false_or]
    cases found with
    | none =>
      rw [assembles_iff_of_nothing (processings_new short) messages.whole]
      simp
    | some port =>
      cases between port rfl with
      | inl stuck =>
        rw [assembles_iff_of_nothing (processings_held stuck arrivals) messages.whole]
        simp [stuck]
      | inr known =>
        have fails := not_assembles_known known.1 known.2 absent short
        simp [fails, known.2]

theorem empty_datagram_assembles : Assembles none [⟨hosting [], []⟩] := by
  refine (assembles_iff_no_message none [⟨hosting [], []⟩] (by simp) (by decide) ⟨by decide, ?_⟩).mpr
    (Or.inr ⟨by simp, rfl⟩)
  intro count fits
  exact ⟨0, by simpa using fits.antisymm (Nat.zero_le _)⟩

def halved (message : List UInt8) : List Arrival :=
  [⟨hosting [104], message.take 736⟩, ⟨hosting [104], message.drop 736⟩]

theorem halved_short (message : List UInt8) (length : message.length = rhdrSiz) :
    ∀ arrival ∈ halved message, arrival.buf.length < rhdrSiz := by
  intro arrival member
  simp only [halved, List.mem_cons, List.not_mem_nil, or_false] at member
  cases member with
  | inl first =>
    rw [first, List.length_take, rhdrSiz]
    omega
  | inr second =>
    rw [second, List.length_drop, length, rhdrSiz]
    omega

theorem halved_whole (message : List UInt8) :
    ((halved message).map Arrival.buf).flatten = message := by
  simp [halved]

theorem halved_ends {message : List UInt8} (length : message.length = rhdrSiz) :
    EndAtDatagrams ((halved message).map Arrival.buf) := by
  refine ⟨by rw [halved_whole, length], ?_⟩
  intro count fits
  rw [halved_whole, length, rhdrSiz] at fits
  have few : count = 0 ∨ count = 1 := by omega
  cases few with
  | inl zero => exact ⟨0, by simp [zero]⟩
  | inr one =>
    refine ⟨2, ?_⟩
    rw [List.take_of_length_le (by simp [halved]), halved_whole, length, one, Nat.one_mul]

/-- The first half of a request takes the lock, and the request is never
processed. -/
theorem halved_request_not_assembled :
    (∀ arrival ∈ halved (toWire (clientStart plainClient).mys), arrival.buf.length < rhdrSiz) ∧
      EndAtDatagrams ((halved (toWire (clientStart plainClient).mys)).map Arrival.buf) ∧
      ¬ Assembles none (halved (toWire (clientStart plainClient).mys)) := by
  have length := to_wire_length (clientStart plainClient).mys
  generalize toWire (clientStart plainClient).mys = message at length ⊢
  refine ⟨halved_short message length, halved_ends length, ?_⟩
  rw [assembles_iff_of_nothing
    (processings_new (halved_short message length))
    (halved_ends length).whole, halved_whole]
  intro empty
  rw [empty] at length
  cases length

end Cprogramming.ReliableUdp.Assembly
