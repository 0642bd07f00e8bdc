import Cprogramming.Library.MachineWords
import Cprogramming.LinkLayer.Mailbox

/-!
# Cutting a payload into packets

The loop of `RStr_lst_buf_add` with its pointer into the payload and its remaining
size, which it updates with mixed signed and unsigned arithmetic. A read beyond
the payload ends the loop without a result. There is none: the packets carry the
payload, and behind it only zeros.
-/

namespace Cprogramming.LinkLayer.Fragments

open Library.MachineWords Mailbox Packets

set_option autoImplicit false

/-! ## The loop -/

/-- `buf`, as an offset into the payload, and `buf_sz`. -/
structure Cursor where
  offset : Nat
  bufSz : Int

def readFrom (payload : List UInt8) (offset count : Nat) : Option (List UInt8) :=
  (List.range count).mapM fun index => payload[offset + index]?

def copyTo (buffer : List UInt8) (offset : Nat) (bytes : List UInt8) : List UInt8 :=
  buffer.take offset ++ overwrite (buffer.drop offset) bytes

def turn (payload stamp : List UInt8) (skipSz : Nat) (cursor : Cursor) :
    Option (List UInt8 × Cursor) := do
  let room := sizeSub skipSz stamp.length
  let count := if cursor.bufSz < ssizeOfSize room then sizeOfInt cursor.bufSz else room
  let copied ← readFrom payload cursor.offset count
  let buffer := copyTo (List.replicate skipSz 0) 0 stamp
  let packet := setMode (copyTo buffer stamp.length copied) .moreFragments
  some (packet, ⟨cursor.offset + room, ssizeOfSize (sizeSub (sizeOfInt cursor.bufSz) room)⟩)

def turns (payload stamp : List UInt8) (skipSz : Nat) :
    Nat → Cursor → Option (List (List UInt8))
  | 0, _ => none
  | fuel + 1, cursor => do
    let (packet, next) ← turn payload stamp skipSz cursor
    if 0 < next.bufSz then
      let later ← turns payload stamp skipSz fuel next
      some (packet :: later)
    else some [packet]

/-- `RStr_lst_buf_add`; the loop has a turn for each byte and one more. -/
def rstrLstBufAddReading (mailbox : List (List UInt8)) (payload stamp : List UInt8)
    (skipSz : Nat) : Option (List (List UInt8)) :=
  (turns payload stamp skipSz (payload.length + 1) ⟨0, payload.length⟩).map fun packets =>
    closeMessage (mailbox ++ packets)

/-! ## Every read is inside the payload -/

variable (mailbox : List (List UInt8)) (payload stamp : List UInt8) (skipSz fuel : Nat)

theorem read_from_inside {payload : List UInt8} {offset count : Nat}
    (inside : offset + count ≤ payload.length) :
    readFrom payload offset count = some ((payload.drop offset).take count) := by
  induction count with
  | zero => simp [readFrom]
  | succ count ih =>
    have before := ih (by omega)
    have bound : offset + count < payload.length := by omega
    unfold readFrom at before ⊢
    rw [List.range_succ, List.mapM_append, before, List.take_add_one, List.getElem?_drop]
    simp [List.getElem?_eq_getElem bound]

theorem copy_behind_stamp (bytes : List UInt8) (skipSz : Nat) :
    copyTo (copyTo (List.replicate skipSz 0) 0 stamp) stamp.length bytes =
      stamp ++ bytes ++ List.replicate (skipSz - (stamp ++ bytes).length) 0 := by
  simp [copyTo, overwrite, Nat.sub_sub]

theorem turn_inside {payload stamp : List UInt8} {skipSz offset : Nat}
    (room : stamp.length < skipSz) (small : skipSz < 2 ^ 32) (short : payload.length < 2 ^ 63)
    (inside : offset ≤ payload.length) :
    turn payload stamp skipSz ⟨offset, (payload.length : Int) - offset⟩ =
      some (fragment stamp skipSz (payload.drop offset),
        ⟨offset + (skipSz - stamp.length),
          (payload.length : Int) - offset - ((skipSz - stamp.length : Nat) : Int)⟩) := by
  have space : sizeSub skipSz stamp.length = skipSz - stamp.length :=
    size_sub_exact _ _ (by omega) (by omega)
  have signed : ssizeOfSize (skipSz - stamp.length) = ((skipSz - stamp.length : Nat) : Int) :=
    ssize_of_size_exact _ (by omega)
  have left : sizeOfInt ((payload.length : Int) - offset) = payload.length - offset := by
    rw [size_of_nonnegative _ (by omega) (by omega)]
    omega
  have next := ssize_of_size_sub ((payload.length : Int) - offset) (skipSz - stamp.length)
    (by omega) (by omega) (by omega)
  have count : (if (payload.length : Int) - offset < ((skipSz - stamp.length : Nat) : Int) then
      payload.length - offset else skipSz - stamp.length) =
        min (skipSz - stamp.length) (payload.length - offset) := by
    split_ifs <;> omega
  have taken : (payload.drop offset).take (min (skipSz - stamp.length) (payload.length - offset)) =
      (payload.drop offset).take (skipSz - stamp.length) := by
    rw [List.take_eq_take_iff, List.length_drop]
    omega
  rw [left] at next
  simp only [turn, space, signed, left, next, count]
  rw [read_from_inside (by omega), taken]
  simp only [Option.bind_eq_bind, Option.bind_some, fragment, copy_behind_stamp stamp _ skipSz]

theorem turns_inside (offset : Nat) (room : stamp.length < skipSz) (small : skipSz < 2 ^ 32)
    (short : payload.length < 2 ^ 63) (inside : offset ≤ payload.length)
    (enough : payload.length - offset < fuel) :
    turns payload stamp skipSz fuel ⟨offset, (payload.length : Int) - offset⟩ =
      some (fragments stamp skipSz fuel (payload.drop offset)) := by
  induction fuel generalizing offset with
  | zero => omega
  | succ fuel ih =>
    rw [turns, turn_inside room small short inside]
    simp only [Option.bind_eq_bind, Option.bind_some, fragments, List.length_drop]
    by_cases more : skipSz - stamp.length < payload.length - offset
    · have later := ih (offset + (skipSz - stamp.length)) (by omega) (by omega)
      have position : (payload.length : Int) - ((offset + (skipSz - stamp.length) : Nat) : Int) =
          (payload.length : Int) - offset - ((skipSz - stamp.length : Nat) : Int) := by omega
      rw [position] at later
      rw [if_pos (by omega), if_pos more, later, List.drop_drop]
      rfl
    · rw [if_neg (by omega), if_neg more]

theorem reading_eq (room : stamp.length < skipSz) (small : skipSz < 2 ^ 32)
    (short : payload.length < 2 ^ 63) : rstrLstBufAddReading mailbox payload stamp skipSz =
      some (rstrLstBufAdd mailbox payload stamp skipSz) := by
  have all := turns_inside payload stamp skipSz (payload.length + 1) 0 room small short
    (Nat.zero_le _) (by omega)
  simp only [Int.natCast_zero, Int.sub_zero, List.drop_zero] at all
  rw [rstrLstBufAddReading, all]
  rfl

/-! ## What the packets carry -/

theorem set_mode_take (packet : List UInt8) (mode : RsMode) :
    (setMode packet mode).take 8 = packet.take 8 := by
  rw [setMode, List.take_set_of_le (by decide)]

theorem set_mode_drop (packet : List UInt8) (mode : RsMode) :
    (setMode packet mode).drop rsPktSize = packet.drop rsPktSize := by
  rw [setMode, List.drop_set_of_lt (by decide)]

theorem fragment_take (buf : List UInt8) (skipSz : Nat) (header : rsPktSize ≤ stamp.length) :
    (fragment stamp skipSz buf).take 8 = stamp.take 8 := by
  have long : 8 ≤ stamp.length := Nat.le_trans (by decide) header
  rw [fragment, set_mode_take, List.append_assoc, List.take_append_of_le_length long]

theorem fragment_drop (buf : List UInt8) (skipSz : Nat) (header : stamp.length = rsPktSize) :
    (fragment stamp skipSz buf).drop rsPktSize = buf.take (skipSz - rsPktSize) ++
      List.replicate (skipSz - rsPktSize - buf.length) 0 := by
  rw [fragment, set_mode_drop, List.append_assoc, ← header, List.drop_left]
  congr 2
  rw [List.length_append, List.length_take]
  omega

theorem fragments_length (buf : List UInt8) (room : stamp.length < skipSz)
    (enough : buf.length < fuel) : (fragments stamp skipSz fuel buf).length =
      max 1 ((buf.length + (skipSz - stamp.length - 1)) / (skipSz - stamp.length)) := by
  induction fuel generalizing buf with
  | zero => omega
  | succ fuel ih =>
    simp only [fragments, List.length_cons]
    generalize space : skipSz - stamp.length = width at ih ⊢
    have positive : 0 < width := by omega
    by_cases more : width < buf.length
    · have later := ih (buf.drop width) (by rw [List.length_drop]; omega)
      rw [List.length_drop] at later
      have one : 1 ≤ (buf.length - width + (width - 1)) / width :=
        (Nat.one_le_div_iff positive).mpr (by omega)
      have split : (buf.length + (width - 1)) / width =
          (buf.length - width + (width - 1)) / width + 1 := by
        rw [← Nat.add_div_right _ positive]
        congr 1
        omega
      rw [if_pos more, later, split, Nat.max_eq_right one, Nat.max_eq_right (by omega)]
    · have few : (buf.length + (width - 1)) / width ≤ 1 := by
        rw [← Nat.lt_succ_iff, Nat.div_lt_iff_lt_mul positive]
        omega
      rw [if_neg more, List.length_nil, Nat.max_eq_left few]

theorem fragments_joined (buf : List UInt8) (header : stamp.length = rsPktSize)
    (room : rsPktSize < skipSz) (enough : buf.length < fuel) :
    ∃ zeros, (fragments stamp skipSz fuel buf).flatMap (fun packet => packet.drop rsPktSize) =
      buf ++ List.replicate zeros 0 := by
  induction fuel generalizing buf with
  | zero => omega
  | succ fuel ih =>
    simp only [fragments, List.flatMap_cons, fragment_drop stamp buf skipSz header, header]
    by_cases more : skipSz - rsPktSize < buf.length
    · obtain ⟨zeros, later⟩ := ih (buf.drop (skipSz - rsPktSize))
        (by rw [List.length_drop]; omega)
      have full : skipSz - rsPktSize - buf.length = 0 := by omega
      refine ⟨zeros, ?_⟩
      rw [if_pos more, later, full, List.replicate_zero, List.append_nil, ← List.append_assoc,
        List.take_append_drop]
    · refine ⟨skipSz - rsPktSize - buf.length, ?_⟩
      rw [if_neg more, List.flatMap_nil, List.append_nil, List.take_of_length_le (by omega)]

/-! ## The packets that a call appends -/

theorem close_message_append (front : List (List UInt8)) (last : List UInt8) :
    ∃ mode, closeMessage (mailbox ++ (front ++ [last])) =
      mailbox ++ (front ++ [setMode last mode]) := by
  simp only [← List.append_assoc]
  by_cases first : mailbox ++ front = []
  · rw [first]
    exact ⟨.dataPayload, rfl⟩
  · exact ⟨.lastFragment, close_message_concat _ last first⟩

theorem buf_add_append :
    ∃ front last mode, fragments stamp skipSz (payload.length + 1) payload = front ++ [last] ∧
      rstrLstBufAdd mailbox payload stamp skipSz = mailbox ++ (front ++ [setMode last mode]) := by
  have packets := fragments_nonempty stamp skipSz payload.length payload
  have shape := (List.dropLast_append_getLast packets).symm
  obtain ⟨mode, closed⟩ := close_message_append mailbox
    (fragments stamp skipSz (payload.length + 1) payload).dropLast
    ((fragments stamp skipSz (payload.length + 1) payload).getLast packets)
  rw [← shape] at closed
  exact ⟨_, _, mode, shape, closed⟩

/-- A payload of any length is appended as `max 1 ⌈length / (skip - 12)⌉` packets
that start with the stamp's addresses and carry the payload and then zeros, and no
byte beyond the payload is read. -/
theorem fragmentation_loses_nothing (mailbox : List (List UInt8)) (payload stamp : List UInt8)
    (skipSz : Nat) (header : stamp.length = 12) (room : 12 < skipSz) (small : skipSz < 2 ^ 32)
    (short : payload.length < 2 ^ 63) :
    ∃ packets, rstrLstBufAddReading mailbox payload stamp skipSz = some (mailbox ++ packets) ∧
      packets.length = max 1 ((payload.length + (skipSz - 12 - 1)) / (skipSz - 12)) ∧
      (∀ packet ∈ packets, packet.length = skipSz ∧ packet.take 8 = stamp.take 8) ∧
      ∃ zeros, packets.flatMap (fun packet => packet.drop 12) =
        payload ++ List.replicate zeros 0 := by
  have stampRoom : stamp.length < skipSz := by omega
  obtain ⟨front, last, mode, shape, appended⟩ := buf_add_append mailbox payload stamp skipSz
  have count := fragments_length stamp skipSz (payload.length + 1) payload stampRoom (by omega)
  obtain ⟨zeros, joined⟩ := fragments_joined stamp skipSz (payload.length + 1) payload header room
    (by omega)
  have made (packet : List UInt8) (member : packet ∈ front ++ [last]) :
      packet.length = skipSz ∧ packet.take 8 = stamp.take 8 := by
    rw [← shape] at member
    obtain ⟨part, rfl⟩ := fragments_all _ _ _ _ _ member
    exact ⟨fragment_length _ _ _ stampRoom, fragment_take _ _ _ (by rw [header]; decide)⟩
  refine ⟨front ++ [setMode last mode], ?_, ?_, ?_, zeros, ?_⟩
  · rw [reading_eq mailbox payload stamp skipSz stampRoom small short, appended]
  · rw [shape, header] at count
    simpa using count
  · intro packet member
    rcases List.mem_append.mp member with earlier | final
    · exact made packet (List.mem_append_left _ earlier)
    · have source := made last (by simp)
      rw [List.mem_singleton.mp final, set_mode_take]
      exact ⟨by simpa [setMode] using source.1, source.2⟩
  · rw [shape] at joined
    rw [List.flatMap_append, List.flatMap_singleton] at joined ⊢
    change _ ++ (setMode last mode).drop rsPktSize = _
    rw [set_mode_drop]
    exact joined

theorem five_bytes_in_three_packets :
    ∃ packets, rstrLstBufAddReading [[0]] [1, 2, 3, 4, 5] (List.replicate 12 7) 14 =
        some ([[0]] ++ packets) ∧ packets.length = 3 ∧
      (∀ packet ∈ packets, packet.length = 14 ∧ packet.take 8 = (List.replicate 12 7).take 8) ∧
      ∃ zeros, packets.flatMap (fun packet => packet.drop 12) =
        [1, 2, 3, 4, 5] ++ List.replicate zeros 0 := by
  exact fragmentation_loses_nothing [[0]] [1, 2, 3, 4, 5] (List.replicate 12 7) 14 (by decide)
    (by decide) (by decide) (by decide)

end Cprogramming.LinkLayer.Fragments
