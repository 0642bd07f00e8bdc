import Mathlib.Data.List.Induction
import Cprogramming.Library.OnesComplement
import Cprogramming.ReliableUdp.Header

/-!
# What the checksum covers

`rhdr_computer_chksum` adds the words of a payload up to the first byte of even
index that is NUL, the first byte of each word as a signed character. It is
compared with the Internet checksum of the bytes before that index, and with the
corruption that a checksum is there to detect.
-/

namespace Cprogramming.ReliableUdp.Checksum

open Library.OnesComplement Header

set_option autoImplicit false

/-! ## The words -/

variable {c1 : UInt8}

/-- The first even index with a NUL, or the length of an even number of bytes. -/
def stopIndex : List UInt8 → Nat
  | c1 :: _ :: rest => if c1 = 0 then 0 else stopIndex rest + 2
  | _ => 0

def covered (bytes : List UInt8) : List UInt8 := bytes.take (stopIndex bytes)

def wordsOf (word : UInt8 → UInt8 → Nat) : List UInt8 → List Nat
  | c1 :: c2 :: rest => word c1 c2 :: wordsOf word rest
  | _ => []

/-- The little-endian word of two unsigned bytes. -/
def unsignedWord (c1 c2 : UInt8) : Nat := c1.toNat + 256 * c2.toNat

def signedWord (c1 c2 : UInt8) : Nat := (computerChksum c1 c2).toNat

def wordSum (bytes : List UInt8) : Nat := (wordsOf signedWord (covered bytes)).sum

theorem stop_index_stopped (c2 : UInt8) (rest : List UInt8) : stopIndex (0 :: c2 :: rest) = 0 := by
  rfl

theorem stop_index_cons (c2 : UInt8) (rest : List UInt8) (more : c1 ≠ 0) :
    stopIndex (c1 :: c2 :: rest) = stopIndex rest + 2 := by
  rw [stopIndex, if_neg more]

theorem covered_stopped (c2 : UInt8) (rest : List UInt8) : covered (0 :: c2 :: rest) = [] := by
  rfl

theorem covered_cons (c1 c2 : UInt8) (rest : List UInt8) (more : c1 ≠ 0) :
    covered (c1 :: c2 :: rest) = c1 :: c2 :: covered rest := by
  rw [covered, stop_index_cons c2 rest more]
  rfl

theorem word_sum_stopped (c2 : UInt8) (rest : List UInt8) : wordSum (0 :: c2 :: rest) = 0 := by
  rfl

theorem word_sum_cons (c1 c2 : UInt8) (rest : List UInt8) (more : c1 ≠ 0) :
    wordSum (c1 :: c2 :: rest) = signedWord c1 c2 + wordSum rest := by
  rw [wordSum, covered_cons c1 c2 rest more, wordsOf, List.sum_cons]
  rfl

theorem stop_index_spec {bytes : List UInt8} (even : bytes.length % 2 = 0) :
    stopIndex bytes ≤ bytes.length ∧ stopIndex bytes % 2 = 0 ∧
      (∀ index, index % 2 = 0 → index < stopIndex bytes → bytes.getD index 0 ≠ 0) ∧
      (stopIndex bytes < bytes.length → bytes.getD (stopIndex bytes) 0 = 0) := by
  induction bytes using List.twoStepInduction with
  | nil => simp [stopIndex]
  | singleton byte => simp at even
  | cons_cons c1 c2 rest ih _ =>
    simp only [List.length_cons] at even
    obtain ⟨within, evenStop, before, here⟩ := ih (by omega)
    by_cases stopped : c1 = 0
    · rw [stopped, stop_index_stopped]
      simp
    · rw [stop_index_cons c2 rest stopped, List.length_cons, List.length_cons]
      refine ⟨by omega, by omega, ?_, ?_⟩
      · intro index evenIndex inside
        match index with
        | 0 => exact stopped
        | 1 => exact absurd evenIndex (by decide)
        | index + 2 => exact before index (by omega) (by omega)
      · intro inside
        exact here (by omega)

/-! ## Machine words as numbers -/

variable (before : Nat) (bytes : List UInt8)

variable {c2 : UInt8}

theorem carry_around_add_value (sum val : UInt16) :
    (carryAroundAdd sum val).toNat = endAround 65535 sum.toNat val.toNat := by
  have sumBound := sum.toNat_lt
  have valBound := val.toNat_lt
  have total : (sum.toUInt32 + val.toUInt32).toNat = sum.toNat + val.toNat := by
    rw [UInt32.toNat_add, UInt16.toNat_toUInt32, UInt16.toNat_toUInt32]
    omega
  have mask : (sum.toNat + val.toNat) &&& 65535 % 2 ^ 32 = (sum.toNat + val.toNat) % 2 ^ 16 :=
    Nat.and_two_pow_sub_one_eq_mod _ 16
  have shift : 16 % 2 ^ 32 % 32 = 16 := rfl
  simp only [carryAroundAdd, UInt32.toNat_toUInt16, UInt32.toNat_add, UInt32.toNat_and,
    UInt32.toNat_shiftRight, total, UInt32.toNat_ofNat, Nat.shiftRight_eq_div_pow, mask, shift,
    endAround]
  split_ifs <;> omega

theorem sign_extended_value (byte : UInt8) :
    byte.toInt8.toInt16.toUInt16.toNat =
      if byte.toNat < 128 then byte.toNat else byte.toNat + 65280 := by
  obtain ⟨bits⟩ := byte
  revert bits
  decide

/-- A first byte above 127 takes 256 from the word, or goes round at zero. -/
theorem signed_word_value (c1 c2 : UInt8) :
    signedWord c1 c2 = if c1.toNat < 128 then unsignedWord c1 c2
      else if c2.toNat = 0 then unsignedWord c1 c2 + 65280 else unsignedWord c1 c2 - 256 := by
  have first := c1.toNat_lt
  have second := c2.toNat_lt
  have shift : UInt16.toNat 8 % 16 = 8 := rfl
  simp only [signedWord, computerChksum, UInt16.toNat_add, UInt16.toNat_shiftLeft,
    sign_extended_value, shift, Nat.shiftLeft_eq, unsignedWord]
  split_ifs <;> omega

theorem signed_word_bounds (c2 : UInt8) (more : c1 ≠ 0) :
    1 ≤ signedWord c1 c2 ∧ signedWord c1 c2 ≤ 65535 := by
  have first := c1.toNat_lt
  have second := c2.toNat_lt
  have nonzero : c1.toNat ≠ 0 := fun zero => more (UInt8.toNat_inj.mp zero)
  rw [signed_word_value, unsignedWord]
  split_ifs <;> omega

theorem signed_word_injective {d1 d2 : UInt8} (same : signedWord c1 c2 = signedWord d1 d2) :
    c1 = d1 ∧ c2 = d2 := by
  have bounds := c1.toNat_lt
  have bounds2 := c2.toNat_lt
  have bounds3 := d1.toNat_lt
  have bounds4 := d2.toNat_lt
  rw [← UInt8.toNat_inj, ← UInt8.toNat_inj]
  rw [signed_word_value, signed_word_value, unsignedWord, unsignedWord] at same
  split_ifs at same <;> omega

theorem signed_words_fit (word : Nat) (member : word ∈ wordsOf signedWord bytes) :
    word ≤ 65535 := by
  induction bytes using List.twoStepInduction with
  | nil => cases member
  | singleton byte => cases member
  | cons_cons c1 c2 rest ih _ =>
    rcases List.mem_cons.mp member with rfl | later
    · have bound := (computerChksum c1 c2).toNat_lt
      unfold signedWord
      omega
    · exact ih later

/-! ## The loop -/

theorem chksum_loop_words (accum : UInt16) : (chksumLoop accum bytes).toNat =
      (wordsOf signedWord (covered bytes)).foldl (endAround 65535) accum.toNat := by
  induction bytes using List.twoStepInduction generalizing accum with
  | nil => rfl
  | singleton byte => rfl
  | cons_cons c1 c2 rest ih _ =>
    by_cases stopped : c1 = 0
    · rw [stopped, covered_stopped, chksumLoop, if_pos rfl]
      rfl
    · rw [chksumLoop, if_neg stopped, ih, carry_around_add_value, covered_cons c1 c2 rest stopped,
        wordsOf, List.foldl_cons, signedWord]

theorem chksum_loop_value : (chksumLoop 0 bytes).toNat = folded 65535 (wordSum bytes) := by
  rw [chksum_loop_words]
  exact ones_sum_eq 65535 _ (by decide) (signed_words_fit _)

theorem chksum_eq_iff (left right : RHdr) :
    rhdrComputerChksum left = rhdrComputerChksum right ↔
      folded 65535 (wordSum left.msg.bytes) = folded 65535 (wordSum right.msg.bytes) := by
  rw [rhdrComputerChksum, rhdrComputerChksum, UInt16.not_inj, ← UInt16.toNat_inj,
    chksum_loop_value, chksum_loop_value]

/-! ## The Internet checksum -/

def internetChecksum (bytes : List UInt8) : UInt16 :=
  ~~~ UInt16.ofNat (onesSum 65535 (wordsOf unsignedWord bytes))

/-- What the sign of the first byte takes from a word, up to the limit. -/
def signLoss (c1 c2 : UInt8) : Nat :=
  if c1.toNat < 128 then 0 else if c2.toNat = 0 then 255 else 256

theorem unsigned_words_fit (word : Nat) (member : word ∈ wordsOf unsignedWord bytes) :
    word ≤ 65535 := by
  induction bytes using List.twoStepInduction with
  | nil => cases member
  | singleton byte => cases member
  | cons_cons c1 c2 rest ih _ =>
    rcases List.mem_cons.mp member with rfl | later
    · have first := c1.toNat_lt
      have second := c2.toNat_lt
      unfold unsignedWord
      omega
    · exact ih later

theorem sign_loss_word (c1 c2 : UInt8) :
    signedWord c1 c2 + signLoss c1 c2 ≡ unsignedWord c1 c2 [MOD 65535] := by
  have second := c2.toNat_lt
  rw [signed_word_value, signLoss]
  unfold Nat.ModEq unsignedWord
  split_ifs <;> omega

theorem sign_loss_sum : (wordsOf signedWord bytes).sum + (wordsOf signLoss bytes).sum ≡
      (wordsOf unsignedWord bytes).sum [MOD 65535] := by
  induction bytes using List.twoStepInduction with
  | nil => rfl
  | singleton byte => rfl
  | cons_cons c1 c2 rest ih _ =>
    simp only [wordsOf, List.sum_cons]
    rw [Nat.add_add_add_comm]
    exact Nat.ModEq.add (sign_loss_word c1 c2) ih

theorem covered_sums_zero : wordSum bytes = 0 ↔ (wordsOf unsignedWord (covered bytes)).sum = 0 := by
  match bytes with
  | [] => rfl
  | [_] => rfl
  | c1 :: c2 :: rest =>
    by_cases stopped : c1 = 0
    · rw [stopped, word_sum_stopped, covered_stopped]
      exact iff_of_true rfl rfl
    · have bounds := signed_word_bounds c2 stopped
      have nonzero : c1.toNat ≠ 0 := fun zero => stopped (UInt8.toNat_inj.mp zero)
      rw [word_sum_cons c1 c2 rest stopped, covered_cons c1 c2 rest stopped]
      simp only [wordsOf, List.sum_cons, unsignedWord]
      omega

/-- The checksum of a payload is the Internet checksum of its covered bytes exactly
when the signs of the first bytes take a multiple of 65535 from the sum. -/
theorem chksum_is_internet_checksum_iff (hdr : RHdr) :
    rhdrComputerChksum hdr = internetChecksum (covered hdr.msg.bytes) ↔
      (wordsOf signLoss (covered hdr.msg.bytes)).sum % 65535 = 0 := by
  have loss : wordSum hdr.msg.bytes + (wordsOf signLoss (covered hdr.msg.bytes)).sum ≡
      (wordsOf unsignedWord (covered hdr.msg.bytes)).sum [MOD 65535] :=
    sign_loss_sum (covered hdr.msg.bytes)
  have value := ones_sum_eq 65535 (wordsOf unsignedWord (covered hdr.msg.bytes)) (by decide)
    (unsigned_words_fit _)
  have bound := folded_le 65535 (wordsOf unsignedWord (covered hdr.msg.bytes)).sum (by decide)
  rw [rhdrComputerChksum, internetChecksum, UInt16.not_inj, ← UInt16.toNat_inj, chksum_loop_value,
    value, UInt16.toNat_ofNat_of_lt' (by simp only [UInt16.size]; omega), folded_eq_iff,
    and_iff_right (covered_sums_zero hdr.msg.bytes), ← add_congruent_iff 65535 (wordSum hdr.msg.bytes)]
  constructor
  · intro same
    exact loss.trans same.symm
  · intro same
    exact same.symm.trans loss

/-- A payload of one word whose first byte has its top bit set. -/
def highByte : RHdr :=
  ⟨1, 0, 0, rVersion, ⟨128 :: List.replicate 1463 0, by rw [List.length_cons, List.length_replicate]; rfl⟩⟩

theorem high_byte_sum_is_no_internet_checksum :
    rhdrComputerChksum highByte ≠ internetChecksum (covered highByte.msg.bytes) := by
  decide

/-! ## Changes of one byte -/

variable {value : UInt8}

def corrupt (hdr : RHdr) (index : Nat) (value : UInt8) : RHdr :=
  { hdr with msg := ⟨hdr.msg.bytes.set index value, by rw [List.length_set, hdr.msg.full]⟩ }

/-- The words from the changed byte on, of the payload in which that byte is not NUL. -/
def movedSum (bytes : List UInt8) (index : Nat) (value : UInt8) : Nat :=
  wordSum ((if value = 0 then bytes else bytes.set index value).drop index)

/-- The change replaces a byte before the stop and does not make a stop there, or it
moves the stop, and the words it cuts off or adds count. -/
def detectable (bytes : List UInt8) (index : Nat) (value : UInt8) : Bool :=
  (decide (index < stopIndex bytes) && (index % 2 == 1 || value != 0)) ||
    (decide (index ≤ stopIndex bytes) && index % 2 == 0 &&
      (index == stopIndex bytes || value == 0) &&
      (index == 0 || movedSum bytes index value % 65535 != 0))

/-- The same with words before the bytes. -/
def DetectableAfter (before : Nat) (bytes : List UInt8) (index : Nat) (value : UInt8) : Prop :=
  (index < stopIndex bytes ∧ (index % 2 = 1 ∨ value ≠ 0)) ∨
    (index ≤ stopIndex bytes ∧ index % 2 = 0 ∧ (index = stopIndex bytes ∨ value = 0) ∧
      (before = 0 ∧ index = 0 ∨ movedSum bytes index value % 65535 ≠ 0))

theorem detectable_iff (index : Nat) (value : UInt8) :
    detectable bytes index value = true ↔ DetectableAfter 0 bytes index value := by
  simp only [detectable, DetectableAfter, Bool.or_eq_true, Bool.and_eq_true, decide_eq_true_eq,
    beq_iff_eq, bne_iff_ne, true_and, and_assoc]

theorem changed_word_detected (after : Nat) (c1 c2 d1 d2 : UInt8) (more : c1 ≠ 0)
    (moreOther : d1 ≠ 0) (different : ¬ (d1 = c1 ∧ d2 = c2)) :
    folded 65535 (before + (signedWord d1 d2 + after)) ≠
      folded 65535 (before + (signedWord c1 c2 + after)) := by
  intro same
  have bounds := signed_word_bounds c2 more
  have boundsOther := signed_word_bounds d2 moreOther
  rw [Nat.add_comm (signedWord d1 d2), Nat.add_comm (signedWord c1 c2), ← Nat.add_assoc,
    ← Nat.add_assoc] at same
  exact different (signed_word_injective
    (folded_add_word_injective 65535 (before + after) _ _ boundsOther.1 boundsOther.2 bounds.1
      bounds.2 same))

theorem moved_stop_detected (c2 : UInt8) (rest : List UInt8) (more : c1 ≠ 0) :
    folded 65535 (before + wordSum (c1 :: c2 :: rest)) ≠ folded 65535 before ↔
      before = 0 ∨ wordSum (c1 :: c2 :: rest) % 65535 ≠ 0 := by
  have bounds := signed_word_bounds c2 more
  have positive : 0 < wordSum (c1 :: c2 :: rest) := by
    rw [word_sum_cons c1 c2 rest more]
    omega
  rw [ne_eq, folded_add_eq_iff 65535 before _ positive, not_and_or, not_not]

/-- Behind a stop nothing is noticed, and a byte in its place starts a sum there. -/
theorem detected_at_stop_iff {rest : List UInt8} {index : Nat}
    (different : (0 :: c2 :: rest).getD index 0 ≠ value) :
    folded 65535 (before + wordSum ((0 :: c2 :: rest).set index value)) ≠
        folded 65535 (before + wordSum (0 :: c2 :: rest)) ↔
      DetectableAfter before (0 :: c2 :: rest) index value := by
  match index with
  | 0 =>
    have more : value ≠ 0 := fun zero => different zero.symm
    have moved := moved_stop_detected before c2 rest more
    simp only [List.set_cons_zero, word_sum_stopped, Nat.add_zero, DetectableAfter,
      stop_index_stopped, movedSum, if_neg more, List.drop_zero]
    rw [moved]
    simp
  | 1 => simp [word_sum_stopped, DetectableAfter, stop_index_stopped]
  | index + 2 => simp [word_sum_stopped, DetectableAfter, stop_index_stopped]

/-- A change of the first byte of a covered pair makes a stop there or another
word. -/
theorem detected_first_iff (c2 : UInt8) (rest : List UInt8) (more : c1 ≠ 0)
    (different : c1 ≠ value) : folded 65535 (before + wordSum (value :: c2 :: rest)) ≠
        folded 65535 (before + wordSum (c1 :: c2 :: rest)) ↔
      DetectableAfter before (c1 :: c2 :: rest) 0 value := by
  by_cases zero : value = 0
  · subst zero
    have moved := moved_stop_detected before c2 rest more
    simp only [word_sum_stopped, Nat.add_zero, DetectableAfter, stop_index_cons c2 rest more,
      movedSum, if_true, List.drop_zero]
    rw [ne_comm, moved]
    simp
  · have changed := changed_word_detected before (wordSum rest) c1 c2 value c2 more zero
      (fun same => different same.1.symm)
    simp only [word_sum_cons c1 c2 rest more, word_sum_cons value c2 rest zero, DetectableAfter,
      stop_index_cons c2 rest more]
    exact iff_of_true changed (Or.inl ⟨by omega, Or.inr zero⟩)

theorem second_detected (rest : List UInt8) (more : c1 ≠ 0) (different : c2 ≠ value) :
    folded 65535 (before + wordSum (c1 :: value :: rest)) ≠
        folded 65535 (before + wordSum (c1 :: c2 :: rest)) := by
  rw [word_sum_cons c1 c2 rest more, word_sum_cons c1 value rest more]
  exact changed_word_detected before (wordSum rest) c1 c2 c1 value more more
    (fun same => different same.2.symm)

theorem detectable_after_pair (c1 c2 : UInt8) (rest : List UInt8) (index : Nat) (value : UInt8)
    (more : c1 ≠ 0) : DetectableAfter (before + signedWord c1 c2) rest index value ↔
      DetectableAfter before (c1 :: c2 :: rest) (index + 2) value := by
  have bounds := signed_word_bounds c2 more
  have moved : movedSum (c1 :: c2 :: rest) (index + 2) value = movedSum rest index value := by
    unfold movedSum
    split_ifs <;> rfl
  have below : index + 2 < stopIndex rest + 2 ↔ index < stopIndex rest := by omega
  have upTo : index + 2 ≤ stopIndex rest + 2 ↔ index ≤ stopIndex rest := by omega
  have atStop : index + 2 = stopIndex rest + 2 ↔ index = stopIndex rest := by omega
  have first : (before + signedWord c1 c2 = 0 ∧ index = 0) ↔ (before = 0 ∧ index + 2 = 0) := by
    omega
  simp only [DetectableAfter, stop_index_cons c2 rest more, moved, Nat.add_mod_right, below,
    upTo, atStop, first]

theorem detected_after_iff (index : Nat) (value : UInt8) (even : bytes.length % 2 = 0)
    (inside : index < bytes.length) (different : bytes.getD index 0 ≠ value) :
    folded 65535 (before + wordSum (bytes.set index value)) ≠ folded 65535 (before + wordSum bytes) ↔
      DetectableAfter before bytes index value := by
  -- by pairs, as the loop takes them; the words of the pairs passed are in `before`
  induction bytes using List.twoStepInduction generalizing before index with
  | nil => exact absurd inside (Nat.not_lt_zero _)
  | singleton byte => simp at even
  | cons_cons c1 c2 rest ih _ =>
    simp only [List.length_cons] at even inside
    by_cases stopped : c1 = 0
    · subst stopped
      exact detected_at_stop_iff before different
    · match index with
      | 0 => exact detected_first_iff before c2 rest stopped different
      | 1 =>
        apply iff_of_true (second_detected before rest stopped different)
        rw [DetectableAfter, stop_index_cons c2 rest stopped]
        exact Or.inl ⟨by omega, Or.inl rfl⟩
      | index + 2 =>
        have later := ih (before + signedWord c1 c2) index (by omega) (by omega) different
        rw [← detectable_after_pair before c1 c2 rest index value stopped, ← later]
        simp only [List.set_cons_succ, word_sum_cons c1 c2 _ stopped, Nat.add_assoc]

/-- When the change of one byte of a payload changes its checksum, so that the
packet is refused. -/
theorem single_byte_change_detected_iff (hdr : RHdr) (index : Nat) (value : UInt8)
    (inside : index < msgSiz) (different : hdr.msg.bytes.getD index 0 ≠ value) :
    (rhdrComputerChksum (corrupt hdr index value) ≠ rhdrComputerChksum hdr ∧
        validChksum { corrupt hdr index value with chks := rhdrComputerChksum hdr } = false) ↔
      detectable hdr.msg.bytes index value = true := by
  have full := hdr.msg.full
  have detected := detected_after_iff 0 hdr.msg.bytes index value (by rw [full]; decide)
    (by rw [full]; exact inside) different
  rw [Nat.zero_add, Nat.zero_add] at detected
  have changed : rhdrComputerChksum (corrupt hdr index value) ≠ rhdrComputerChksum hdr ↔
      detectable hdr.msg.bytes index value = true := by
    rw [detectable_iff, ← detected, ne_eq, chksum_eq_iff]
    rfl
  rw [← changed]
  constructor
  · intro both
    exact both.1
  · intro differs
    refine ⟨differs, ?_⟩
    have unequal : (rhdrComputerChksum (corrupt hdr index value) == rhdrComputerChksum hdr) = false :=
      beq_eq_false_iff_ne.mpr differs
    rw [validChksum, Bool.and_eq_false_iff]
    exact Or.inr unequal

def emptyPacket : RHdr := ⟨1, 0, 0, rVersion, ⟨List.replicate 1464 0, List.length_replicate⟩⟩

theorem first_byte_change_detected :
    emptyPacket.msg.bytes.getD 0 0 ≠ 65 ∧
      rhdrComputerChksum (corrupt emptyPacket 0 65) ≠ rhdrComputerChksum emptyPacket ∧
      validChksum { corrupt emptyPacket 0 65 with
        chks := rhdrComputerChksum emptyPacket } = false := by
  have different : emptyPacket.msg.bytes.getD 0 0 ≠ 65 := by decide
  exact ⟨different,
    (single_byte_change_detected_iff emptyPacket 0 65 (by decide) different).mpr (by decide)⟩

/-- A byte behind the first NUL is not covered. -/
theorem change_behind_nul_undetected :
    emptyPacket.msg.bytes.getD 1 0 ≠ 65 ∧
      rhdrComputerChksum (corrupt emptyPacket 1 65) = rhdrComputerChksum emptyPacket := by
  decide

end Cprogramming.ReliableUdp.Checksum
