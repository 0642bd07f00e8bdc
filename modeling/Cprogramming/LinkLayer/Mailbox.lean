import Mathlib.Data.List.Flatten
import Cprogramming.Library.Runs
import Cprogramming.LinkLayer.Packets

/-!
# Mailboxes

`RStr.h`: the packets that wait for a client, and how a message is cut into
packets when it is queued. The mode of the last packet is chosen by looking at
the whole mailbox.
-/

namespace Cprogramming.LinkLayer.Mailbox

open Library.Runs Packets

set_option autoImplicit false

def udpBufMaxSz : Nat := 1500

def fragment (stamp : List UInt8) (skipSz : Nat) (buf : List UInt8) : List UInt8 :=
  let bytes := stamp ++ buf.take (skipSz - stamp.length)
  setMode (bytes ++ List.replicate (skipSz - bytes.length) 0) .moreFragments

/-- The loop of `RStr_lst_buf_add`: at least one packet, and further ones while
bytes are left. A round takes bytes as long as the stamp is shorter than a
packet, so that one more round than there are bytes is enough. -/
def fragments (stamp : List UInt8) (skipSz : Nat) : Nat → List UInt8 → List (List UInt8)
  | 0, _ => []
  | fuel + 1, buf =>
    fragment stamp skipSz buf ::
      if skipSz - stamp.length < buf.length then
        fragments stamp skipSz fuel (buf.drop (skipSz - stamp.length))
      else []

/-- The last lines of `RStr_lst_buf_add`: `head->next` decides. -/
def closeMessage (mailbox : List (List UInt8)) : List (List UInt8) :=
  match mailbox with
  | [only] => [setMode only .dataPayload]
  | _ =>
    mailbox.dropLast ++ (mailbox.getLast?.map fun packet => setMode packet .lastFragment).toList

def rstrLstBufAdd (mailbox : List (List UInt8)) (buf stamp : List UInt8) (skipSz : Nat) :
    List (List UInt8) :=
  closeMessage (mailbox ++ fragments stamp skipSz (buf.length + 1) buf)

/-- `rsSrvUdp_fragment`: what follows the header of a long datagram is queued
behind the stamp. -/
def rsSrvUdpFragment (mailbox : List (List UInt8)) (excess stamp : List UInt8) :
    List (List UInt8) :=
  rstrLstBufAdd mailbox (excess.drop rsPktSize) stamp udpBufMaxSz

/-! ## Messages and frames -/

/-- The arguments of one call; both callers' stamps are shorter than a packet. -/
structure Message where
  buf : List UInt8
  stamp : List UInt8
  room : stamp.length < udpBufMaxSz

def queue (mailbox : List (List UInt8)) (message : Message) : List (List UInt8) :=
  rstrLstBufAdd mailbox message.buf message.stamp udpBufMaxSz

def packetsOf (message : Message) : List (List UInt8) :=
  fragments message.stamp udpBufMaxSz (message.buf.length + 1) message.buf

def spansPackets (message : Message) : Bool :=
  decide (udpBufMaxSz - message.stamp.length < message.buf.length)

/-- The modes that mark one message: a single payload, or a run of fragments
and the last one. -/
def IsFrame (modes : List UInt8) : Prop :=
  modes = [RsMode.dataPayload.code] ∨
    ∃ more, 0 < more ∧
      modes = List.replicate more RsMode.moreFragments.code ++ [RsMode.lastFragment.code]

def Framed (messages : List Message) (mailbox : List (List UInt8)) : Prop :=
  ∃ frames : List (List UInt8),
    frames.map List.length = messages.map (fun message => (packetsOf message).length) ∧
      (∀ frame ∈ frames, IsFrame frame) ∧ mailbox.map modeOf = frames.flatten

def MarksFrame (mailbox : List (List UInt8)) (message : Message) : Prop :=
  mailbox = [] ∨ spansPackets message = true

/-! ## The modes that a call leaves -/

variable (mailbox : List (List UInt8)) (messages : List Message) (alone : Bool) (message : Message)
  (stamp : List UInt8) (skipSz : Nat)

theorem fragment_length (buf : List UInt8) (room : stamp.length < skipSz) :
    (fragment stamp skipSz buf).length = skipSz := by
  simp only [fragment, setMode, List.length_set, List.length_append, List.length_replicate,
    List.length_take]
  omega

theorem fragment_mode {stamp : List UInt8} {skipSz : Nat} (buf : List UInt8)
    (room : stamp.length < skipSz) (long : modeOffset < skipSz) :
    modeOf (fragment stamp skipSz buf) = RsMode.moreFragments.code := by
  have size := fragment_length stamp skipSz buf room
  simp only [fragment, setMode, List.length_set] at size
  exact mode_of_set_mode _ _ (by rw [size]; exact long)

theorem fragments_all (fuel : Nat) (buf packet : List UInt8)
    (member : packet ∈ fragments stamp skipSz fuel buf) :
    ∃ part, packet = fragment stamp skipSz part := by
  induction fuel generalizing buf with
  | zero => simp [fragments] at member
  | succ fuel ih =>
    simp only [fragments, List.mem_cons] at member
    rcases member with first | later
    · exact ⟨buf, first⟩
    · split_ifs at later with more
      · exact ih (buf.drop (skipSz - stamp.length)) later
      · simp at later

theorem fragments_nonempty (fuel : Nat) (buf : List UInt8) :
    fragments stamp skipSz (fuel + 1) buf ≠ [] := by
  simp [fragments]

theorem packets_single_iff : (packetsOf message).length = 1 ↔ spansPackets message = false := by
  simp only [packetsOf, fragments, spansPackets, decide_eq_false_iff_not]
  split_ifs with more
  · obtain ⟨fuel, size⟩ : ∃ fuel, message.buf.length = fuel + 1 :=
      Nat.exists_eq_succ_of_ne_zero (by omega)
    have further := List.length_pos_of_ne_nil (fragments_nonempty message.stamp udpBufMaxSz fuel
      (message.buf.drop (udpBufMaxSz - message.stamp.length)))
    rw [size, List.length_cons]
    omega
  · simp [more]

/-- The modes of a message: it is a payload if it is alone in the mailbox and
one packet long, and otherwise ends with a last fragment. -/
def frameOf (alone : Bool) (message : Message) : List UInt8 :=
  List.replicate ((packetsOf message).length - 1) RsMode.moreFragments.code ++
    [if alone && !spansPackets message then RsMode.dataPayload.code
      else RsMode.lastFragment.code]

theorem frame_of_length : (frameOf alone message).length = (packetsOf message).length := by
  have positive := List.length_pos_of_ne_nil
    (fragments_nonempty message.stamp udpBufMaxSz message.buf.length message.buf)
  simp only [frameOf, packetsOf, List.length_append, List.length_replicate, List.length_singleton]
  omega

theorem frame_of_is_frame_iff :
    IsFrame (frameOf alone message) ↔ alone = true ∨ spansPackets message = true := by
  have single := packets_single_iff message
  have size := frame_of_length alone message
  cases spans : spansPackets message with
  | false =>
    have one : (packetsOf message).length = 1 := single.mpr spans
    cases alone with
    | true => simp [IsFrame, frameOf, one, spans]
    | false =>
      simp only [Bool.false_eq_true, or_self, iff_false]
      rintro (payload | ⟨more, positive, run⟩)
      · simp only [frameOf, one, Bool.false_and] at payload
        exact absurd payload (by decide)
      · rw [run, one] at size
        simp only [List.length_append, List.length_replicate, List.length_singleton] at size
        omega
  | true =>
    have several : (packetsOf message).length ≠ 1 := by simp [single, spans]
    have positive := List.length_pos_of_ne_nil
      (fragments_nonempty message.stamp udpBufMaxSz message.buf.length message.buf)
    simp only [or_true, iff_true]
    right
    refine ⟨(packetsOf message).length - 1, ?_, by simp [frameOf, spans]⟩
    simp only [packetsOf] at several ⊢
    omega

theorem close_message_concat (front : List (List UInt8)) (last : List UInt8)
    (earlier : front ≠ []) :
    closeMessage (front ++ [last]) = front ++ [setMode last .lastFragment] := by
  obtain ⟨first, rest, rfl⟩ := List.exists_cons_of_ne_nil earlier
  have whole : closeMessage (first :: rest ++ [last]) = (first :: rest ++ [last]).dropLast ++
      ((first :: rest ++ [last]).getLast?.map fun packet => setMode packet .lastFragment).toList := by
    cases rest <;> rfl
  rw [whole, List.dropLast_concat, List.getLast?_concat]
  rfl

theorem queue_modes :
    (queue mailbox message).map modeOf = mailbox.map modeOf ++ frameOf mailbox.isEmpty message := by
  obtain ⟨front, last, shape⟩ : ∃ front last, packetsOf message = front ++ [last] :=
    ⟨_, _, (List.dropLast_append_getLast (fragments_nonempty message.stamp udpBufMaxSz
      message.buf.length message.buf)).symm⟩
  have made (packet : List UInt8) (member : packet ∈ packetsOf message) :
      packet.length = udpBufMaxSz ∧ modeOf packet = RsMode.moreFragments.code := by
    obtain ⟨part, rfl⟩ := fragments_all _ _ _ _ _ member
    exact ⟨fragment_length _ _ _ message.room, fragment_mode _ message.room (by decide)⟩
  have frontModes : front.map modeOf = List.replicate front.length RsMode.moreFragments.code := by
    refine List.eq_replicate_iff.mpr ⟨by simp, ?_⟩
    intro mode member
    obtain ⟨packet, present, rfl⟩ := List.mem_map.mp member
    exact (made packet (by simp [shape, present])).2
  have lastLong : modeOffset < last.length := by
    rw [(made last (by simp [shape])).1]
    decide
  have count : (packetsOf message).length - 1 = front.length := by simp [shape]
  have single := packets_single_iff message
  have unfolded : queue mailbox message = closeMessage (mailbox ++ front ++ [last]) := by
    rw [List.append_assoc, ← shape]
    rfl
  rw [unfolded, frameOf, count]
  by_cases first : mailbox ++ front = []
  · obtain ⟨rfl, rfl⟩ := List.append_eq_nil_iff.mp first
    have alone : spansPackets message = false := single.mp (by simp [shape])
    simp [closeMessage, alone, mode_of_set_mode last .dataPayload lastLong]
  · have marked : (mailbox.isEmpty && !spansPackets message) = false := by
      cases mailbox with
      | cons packet rest => rfl
      | nil =>
        have several : front ≠ [] := by simpa using first
        have notOne : (packetsOf message).length ≠ 1 := by simpa [shape] using several
        rw [Ne, single] at notOne
        simpa using notOne
    rw [close_message_concat _ last first, marked]
    simp [frontModes, mode_of_set_mode last .lastFragment lastLong]

/-! ## Every sequence of messages -/

def framesFrom : Bool → List Message → List (List UInt8)
  | _, [] => []
  | alone, message :: rest => frameOf alone message :: framesFrom false rest

theorem queue_nonempty : (queue mailbox message).isEmpty = false := by
  have modes := congrArg List.length (queue_modes mailbox message)
  have size := frame_of_length mailbox.isEmpty message
  have positive := List.length_pos_of_ne_nil
    (fragments_nonempty message.stamp udpBufMaxSz message.buf.length message.buf)
  cases queued : queue mailbox message with
  | nil =>
    simp only [packetsOf] at size
    simp only [queued, List.map_nil, List.length_nil, List.length_append, size] at modes
    omega
  | cons packet rest => rfl

theorem run_modes : (run queue mailbox messages).map modeOf =
      mailbox.map modeOf ++ (framesFrom mailbox.isEmpty messages).flatten := by
  induction messages generalizing mailbox with
  | nil => simp [run, framesFrom]
  | cons message rest ih =>
    rw [run_cons, ih (queue mailbox message), queue_modes, queue_nonempty]
    simp [framesFrom]

theorem frames_from_lengths (messages : List Message) :
    (framesFrom alone messages).map List.length =
      messages.map fun message => (packetsOf message).length := by
  induction messages generalizing alone with
  | nil => rfl
  | cons message rest ih => simp [framesFrom, frame_of_length, ih]

theorem framed_iff_frames : Framed messages (run queue [] messages) ↔
      ∀ frame ∈ framesFrom true messages, IsFrame frame := by
  have modes := run_modes [] messages
  simp only [List.map_nil, List.isEmpty_nil, List.nil_append] at modes
  have lengths := frames_from_lengths true messages
  constructor
  · rintro ⟨frames, sizes, framed, flat⟩
    have same : frames = framesFrom true messages :=
      List.eq_iff_flatten_eq.mpr ⟨by rw [← flat, modes], by rw [sizes, lengths]⟩
    rw [← same]
    exact framed
  · intro framed
    exact ⟨framesFrom true messages, lengths, framed, modes⟩

theorem frames_iff_each_step : (∀ frame ∈ framesFrom mailbox.isEmpty messages, IsFrame frame) ↔
      EachStep queue MarksFrame mailbox messages := by
  induction messages generalizing mailbox with
  | nil => simp [framesFrom, EachStep]
  | cons message rest ih =>
    have later := ih (queue mailbox message)
    rw [queue_nonempty] at later
    rw [framesFrom, List.forall_mem_cons, frame_of_is_frame_iff, EachStep, later, MarksFrame,
      List.isEmpty_iff]

/-- The packets queued in a mailbox mark the messages exactly when every message
that finds the mailbox in use fills several packets. -/
theorem mailbox_framed_iff (messages : List Message) :
    Framed messages (run queue [] messages) ↔ EachStep queue MarksFrame [] messages := by
  rw [framed_iff_frames, ← frames_iff_each_step]
  rfl

/-- The `RData_t` that a handler fills and queues without a stamp. -/
def dataMessage : Message :=
  ⟨setMode (List.replicate udpBufMaxSz 0) .dataPayload, [], by decide⟩

/-- Two messages of one packet each: the second is marked as the last fragment
of a run that has no other fragment. -/
theorem second_short_message_misframed :
    (run queue [] [dataMessage, dataMessage]).map modeOf =
        [RsMode.dataPayload.code, RsMode.lastFragment.code] ∧
      ¬ Framed [dataMessage, dataMessage] (run queue [] [dataMessage, dataMessage]) := by
  have fits : spansPackets dataMessage = false := by
    simp [spansPackets, dataMessage, setMode]
  have one : (packetsOf dataMessage).length = 1 := (packets_single_iff dataMessage).mpr fits
  constructor
  · rw [run_modes]
    simp [framesFrom, frameOf, one, fits]
  · rw [framed_iff_frames]
    intro framed
    have second := framed (frameOf false dataMessage) (by simp [framesFrom])
    simp [frame_of_is_frame_iff, fits] at second

end Cprogramming.LinkLayer.Mailbox
