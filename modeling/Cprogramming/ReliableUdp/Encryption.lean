import Cprogramming.ReliableUdp.Checksum

/-!
# Encryption of payloads

`encrypt` and `decrypt` raise the bytes of a payload to a power modulo 249
(`RKey.h`). They go through the loop of the checksum, `rhdr_computer_internal`,
and store into the payload that the loop tests for its end.
-/

namespace Cprogramming.ReliableUdp.Encryption

open Header Checksum

set_option autoImplicit false

/-! ## Powers -/

def N : Nat := 249
def D : Nat := 15
def E : Nat := 11

/-- The loop of `powr` for an exponent of `left + 1`; for bytes no product comes near
to 64 bits. -/
def powrLoop (x m : Nat) : Nat → Nat → Nat
  | 0, z => z
  | left + 1, z => powrLoop x m left (z % m * x)

def powr (x y m : Nat) : Nat := powrLoop x m (y - 1) x % m

def computeCrypt (ch : UInt8) (po num : Nat) : UInt8 := UInt8.ofNat (powr ch.toNat po num)

theorem powr_loop_mod (x m left z : Nat) : powrLoop x m left z % m = z * x ^ left % m := by
  induction left generalizing z with
  | zero => rw [powrLoop, Nat.pow_zero, Nat.mul_one]
  | succ left ih =>
    rw [powrLoop, ih, Nat.pow_succ', ← Nat.mul_assoc, Nat.mul_assoc (z % m), Nat.mod_mul_mod,
      ← Nat.mul_assoc]

theorem powr_eq {y : Nat} (x m : Nat) (positive : 0 < y) : powr x y m = x ^ y % m := by
  rw [powr, powr_loop_mod, ← Nat.pow_succ', show (y - 1).succ = y by omega]

/-! ## The loop of the payload -/

/-- `rhdr_computer_internal` from the index `i` on, for at most `pairs` rounds. The
function may store into the payload. -/
def computerInternalLoop (computeFunc : List UInt8 → Nat → UInt8 → UInt8 → List UInt8 × UInt16) :
    Nat → Nat → UInt16 → List UInt8 → List UInt8 × UInt16
  | 0, _, accum, msg => (msg, accum)
  | pairs + 1, i, accum, msg =>
    if msg.getD i 0 = 0 then (msg, accum)
    else
      let computed := computeFunc msg i (msg.getD i 0) (msg.getD (i + 1) 0)
      computerInternalLoop computeFunc pairs (i + 2) (carryAroundAdd accum computed.2) computed.1

/-- The payload it leaves, and its result. -/
def rhdrComputerInternal (computeFunc : List UInt8 → Nat → UInt8 → UInt8 → List UInt8 × UInt16)
    (msg : List UInt8) : List UInt8 × UInt16 :=
  let ended := computerInternalLoop computeFunc (msgSiz / 2) 0 0 msg
  (ended.1, ~~~ ended.2)

/-- `computer_chksum` as the loop gets it. -/
def computerChksum_ (msg : List UInt8) (_ : Nat) (c1 c2 : UInt8) : List UInt8 × UInt16 :=
  (msg, computerChksum c1 c2)

/-- The two functions that store: `encrypt_` and `decrypt_`. -/
def crypt_ (po : Nat) (msg : List UInt8) (pos : Nat) (c1 c2 : UInt8) : List UInt8 × UInt16 :=
  ((msg.set pos (computeCrypt c1 po N)).set (pos + 1) (computeCrypt c2 po N), 0)

def encrypt_ : List UInt8 → Nat → UInt8 → UInt8 → List UInt8 × UInt16 := crypt_ E

def decrypt_ : List UInt8 → Nat → UInt8 → UInt8 → List UInt8 × UInt16 := crypt_ D

/-! ## Pair by pair -/

/-- The pairs before the stop are changed. -/
def mapPairs (change : UInt8 → UInt8) : List UInt8 → List UInt8
  | c1 :: c2 :: rest =>
    if c1 = 0 then c1 :: c2 :: rest else change c1 :: change c2 :: mapPairs change rest
  | rest => rest

theorem map_pairs_length (change : UInt8 → UInt8) (bytes : List UInt8) :
    (mapPairs change bytes).length = bytes.length := by
  induction bytes using List.twoStepInduction with
  | nil => rfl
  | singleton byte => rfl
  | cons_cons c1 c2 rest ih _ =>
    rw [mapPairs]
    split_ifs
    · rfl
    · simp only [List.length_cons, ih]

/-- A function that acts on the pair it is given makes the loop act on every pair
before the stop. -/
theorem internal_loop_pairs (computeFunc : List UInt8 → Nat → UInt8 → UInt8 → List UInt8 × UInt16)
    (change : UInt8 → UInt8) (acts : ∀ front c1 c2 back,
      (computeFunc (front ++ c1 :: c2 :: back) front.length c1 c2).1 =
        front ++ change c1 :: change c2 :: back)
    (pairs : Nat) (front back : List UInt8) (full : back.length = 2 * pairs) (accum : UInt16) :
    (computerInternalLoop computeFunc pairs front.length accum (front ++ back)).1 =
      front ++ mapPairs change back := by
  induction pairs generalizing front back accum with
  | zero =>
    rw [List.length_eq_zero_iff.mp full]
    rfl
  | succ pairs ih =>
    match back, full with
    | c1 :: c2 :: rest, full =>
      have first : (front ++ c1 :: c2 :: rest).getD front.length 0 = c1 := by simp
      have second : (front ++ c1 :: c2 :: rest).getD (front.length + 1) 0 = c2 := by simp
      rw [computerInternalLoop, first, second, mapPairs]
      by_cases stopped : c1 = 0
      · rw [if_pos stopped, if_pos stopped]
      · rw [if_neg stopped, if_neg stopped]
        have regrouped : front ++ change c1 :: change c2 :: rest =
            (front ++ [change c1, change c2]) ++ rest := by simp
        have place : (front ++ [change c1, change c2]).length = front.length + 2 := by simp
        have left : rest.length = 2 * pairs := by
          simp only [List.length_cons] at full
          omega
        dsimp only
        rw [acts, regrouped, ← place, ih _ _ left]
        simp

theorem internal_loop_chksum (pairs : Nat) (front back : List UInt8)
    (full : back.length = 2 * pairs) (accum : UInt16) :
    (computerInternalLoop computerChksum_ pairs front.length accum (front ++ back)).2 =
      chksumLoop accum back := by
  induction pairs generalizing front back accum with
  | zero =>
    rw [List.length_eq_zero_iff.mp full]
    rfl
  | succ pairs ih =>
    match back, full with
    | c1 :: c2 :: rest, full =>
      have first : (front ++ c1 :: c2 :: rest).getD front.length 0 = c1 := by simp
      have second : (front ++ c1 :: c2 :: rest).getD (front.length + 1) 0 = c2 := by simp
      rw [computerInternalLoop, first, second, chksumLoop]
      by_cases stopped : c1 = 0
      · rw [if_pos stopped, if_pos stopped]
      · have regrouped : front ++ c1 :: c2 :: rest = (front ++ [c1, c2]) ++ rest := by simp
        have place : (front ++ [c1, c2]).length = front.length + 2 := by simp
        have left : rest.length = 2 * pairs := by
          simp only [List.length_cons] at full
          omega
        rw [if_neg stopped, if_neg stopped, ← ih (front ++ [c1, c2]) rest left, place, regrouped]
        rfl

theorem chksum_of_internal (hdr : RHdr) :
    rhdrComputerChksum hdr = (rhdrComputerInternal computerChksum_ hdr.msg.bytes).2 := by
  have loop := internal_loop_chksum (msgSiz / 2) [] hdr.msg.bytes (by rw [hdr.msg.full]; rfl) 0
  rw [List.length_nil, List.nil_append] at loop
  rw [rhdrComputerChksum, rhdrComputerInternal, loop]

theorem crypt_acts (po : Nat) (front : List UInt8) (c1 c2 : UInt8) (back : List UInt8) :
    (crypt_ po (front ++ c1 :: c2 :: back) front.length c1 c2).1 =
      front ++ computeCrypt c1 po N :: computeCrypt c2 po N :: back := by
  simp [crypt_]

theorem crypt_internal (po : Nat) (msg : Msg) :
    (rhdrComputerInternal (crypt_ po) msg.bytes).1 =
      mapPairs (fun byte => computeCrypt byte po N) msg.bytes := by
  have loop := internal_loop_pairs (crypt_ po) _ (crypt_acts po) (msgSiz / 2) [] msg.bytes
    (by rw [msg.full]; rfl) 0
  rw [List.length_nil, List.nil_append, List.nil_append] at loop
  rw [rhdrComputerInternal]
  exact loop

theorem crypt_full (po : Nat) (msg : Msg) :
    (rhdrComputerInternal (crypt_ po) msg.bytes).1.length = msgSiz := by
  rw [crypt_internal, map_pairs_length, msg.full]

def encrypt (hdr : RHdr) : RHdr :=
  { hdr with msg := ⟨(rhdrComputerInternal encrypt_ hdr.msg.bytes).1, crypt_full E hdr.msg⟩ }

def decrypt (hdr : RHdr) : RHdr :=
  { hdr with msg := ⟨(rhdrComputerInternal decrypt_ hdr.msg.bytes).1, crypt_full D hdr.msg⟩ }

theorem encrypt_bytes (hdr : RHdr) :
    (encrypt hdr).msg.bytes = mapPairs (fun byte => computeCrypt byte E N) hdr.msg.bytes := by
  have function : encrypt_ = crypt_ E := rfl
  rw [← crypt_internal E hdr.msg, ← function, encrypt]

theorem decrypt_bytes (hdr : RHdr) :
    (decrypt hdr).msg.bytes = mapPairs (fun byte => computeCrypt byte D N) hdr.msg.bytes := by
  have function : decrypt_ = crypt_ D := rfl
  rw [← crypt_internal D hdr.msg, ← function, decrypt]

/-! ## The two passes -/

theorem power_law : ∀ number < N, number ^ (E * D) % N = number := by
  decide +kernel

theorem crypt_twice (byte : UInt8) :
    (computeCrypt (computeCrypt byte E N) D N).toNat = byte.toNat ^ (E * D) % N := by
  have small : ∀ number, number % N < 256 := fun number =>
    (Nat.mod_lt number (by decide)).trans (by decide)
  have once : (computeCrypt byte E N).toNat = byte.toNat ^ E % N := by
    rw [computeCrypt, powr_eq _ _ (by decide), UInt8.toNat_ofNat_of_lt' (small _)]
  rw [computeCrypt, powr_eq _ _ (by decide), UInt8.toNat_ofNat_of_lt' (small _), once,
    ← Nat.pow_mod, Nat.pow_mul]

theorem crypt_twice_iff (byte : UInt8) :
    computeCrypt (computeCrypt byte E N) D N = byte ↔ byte.toNat < N := by
  rw [← UInt8.toNat_inj, crypt_twice]
  constructor
  · intro same
    rw [← same]
    exact Nat.mod_lt _ (by decide)
  · intro small
    exact power_law byte.toNat small

theorem map_pairs_twice_iff {bytes : List UInt8} (even : bytes.length % 2 = 0) :
    mapPairs (fun byte => computeCrypt byte D N) (mapPairs (fun byte => computeCrypt byte E N) bytes) =
        bytes ↔ ∀ byte ∈ covered bytes, byte.toNat < N := by
  induction bytes using List.twoStepInduction with
  | nil => simp [mapPairs, covered]
  | singleton byte => simp at even
  | cons_cons c1 c2 rest ih _ =>
    have evenRest : rest.length % 2 = 0 := by
      simp only [List.length_cons] at even
      omega
    by_cases stopped : c1 = 0
    · rw [stopped, covered_stopped]
      simp [mapPairs]
    · rw [mapPairs, if_neg stopped, covered_cons c1 c2 rest stopped, List.forall_mem_cons,
        List.forall_mem_cons, ← ih evenRest, ← crypt_twice_iff c1, ← crypt_twice_iff c2, mapPairs]
      by_cases stops : computeCrypt c1 E N = 0
      · -- the first byte was 249, and the second pass ends before it
        rw [if_pos stops]
        apply iff_of_false
        · intro same
          exact stopped ((List.cons.inj same).1.symm.trans stops)
        · intro restored
          rw [stops] at restored
          exact stopped (restored.1.symm.trans (by decide))
      · rw [if_neg stops, List.cons.injEq, List.cons.injEq]

/-- Decrypting an encrypted packet gives it back exactly when every byte before the
stop is below the modulus. -/
theorem decrypt_encrypt_iff (hdr : RHdr) :
    decrypt (encrypt hdr) = hdr ↔ ∀ byte ∈ covered hdr.msg.bytes, byte.toNat < N := by
  have twice := map_pairs_twice_iff (by rw [hdr.msg.full]; rfl)
  have passes : (decrypt (encrypt hdr)).msg.bytes =
      mapPairs (fun byte => computeCrypt byte D N)
        (mapPairs (fun byte => computeCrypt byte E N) hdr.msg.bytes) := by
    rw [decrypt_bytes, encrypt_bytes]
  rw [← twice, ← passes]
  constructor
  · intro same
    rw [same]
  · intro same
    have payload : (decrypt (encrypt hdr)).msg = hdr.msg := msg_ext _ _ same
    calc decrypt (encrypt hdr) = { hdr with msg := (decrypt (encrypt hdr)).msg } := rfl
      _ = hdr := by rw [payload]

end Cprogramming.ReliableUdp.Encryption
