import Mathlib.Data.List.Basic
import Mathlib.Tactic.Common

/-!
# Packets of the reliable UDP transfer

A packet is four 16-bit words and a payload of exactly `msgSiz` bytes
(`RHdr.h`). The last word holds the flags in its upper seven bits and the
protocol version in the rest. On the wire the words are in network order.
-/

namespace Cprogramming.ReliableUdp.Header

set_option autoImplicit false

def rVersion : UInt16 := 0x0002

def msgSiz : Nat := 1464

def rhdrSiz : Nat := 1472

def flagOffset : UInt16 := 0xFE00

def emptyChecksumPrecompute : UInt16 := 65535

def ACK : UInt16 := 0x8000
def NAK : UInt16 := 0x4000
def GET : UInt16 := 0x2000
def DAT : UInt16 := 0x1000
def FIN : UInt16 := 0x0800
def CHK : UInt16 := 0x0400

/-- The bytes of a payload; there are always `msgSiz` of them. -/
structure Msg where
  bytes : List UInt8
  full : bytes.length = msgSiz
deriving DecidableEq

/-- Copy at most `msgSiz` bytes into a payload of zeros. -/
def Msg.ofBytes (bytes : List UInt8) : Msg where
  bytes := (bytes ++ List.replicate msgSiz 0).take msgSiz
  full := by simp

def emptyBuf : Msg := Msg.ofBytes []

theorem msg_ext (left right : Msg) (same : left.bytes = right.bytes) : left = right := by
  cases left
  cases right
  simp only [Msg.mk.injEq]
  exact same

theorem of_bytes_append (msg : Msg) (rest : List UInt8) : Msg.ofBytes (msg.bytes ++ rest) = msg := by
  apply msg_ext
  simp only [Msg.ofBytes, List.append_assoc]
  rw [← msg.full, List.take_left]

structure RHdr where
  seqn : UInt16
  ackn : UInt16
  chks : UInt16
  flgv : UInt16
  msg : Msg
deriving DecidableEq

def rhdrInit : RHdr := ⟨0, 0, 0, rVersion, emptyBuf⟩

def flagSet (hdr : RHdr) (flag : UInt16) : RHdr :=
  { hdr with flgv := hdr.flgv ||| (flag &&& flagOffset) }

def flagUnset (hdr : RHdr) (flag : UInt16) : RHdr :=
  { hdr with flgv := hdr.flgv &&& ~~~(flag &&& flagOffset) }

def flagCheck (hdr : RHdr) (flag : UInt16) : Bool := hdr.flgv == (flag ||| rVersion)

def flagValidate (hdr : RHdr) (flag : UInt16) : Bool :=
  hdr.flgv &&& (flag ||| rVersion) == flag ||| rVersion

def flagConfirm (hdr : RHdr) : Bool := hdr.flgv &&& 0x03FF == rVersion

def plainFlags (hdr : RHdr) : UInt16 := (flagUnset hdr CHK).flgv

theorem flag_check_iff (hdr : RHdr) (flag : UInt16) :
    flagCheck hdr flag = true ↔ hdr.flgv = flag ||| rVersion := by
  simp [flagCheck]

/-! ## Checksum -/

def carryAroundAdd (sum val : UInt16) : UInt16 :=
  let total : UInt32 := sum.toUInt32 + val.toUInt32
  ((total &&& (0xffff : UInt32)) + (total >>> (16 : UInt32))).toUInt16

/-- `Data` is a signed `char`: both bytes are sign extended before they are
added. -/
def computerChksum (c1 c2 : UInt8) : UInt16 :=
  c1.toInt8.toInt16.toUInt16 + (c2.toInt8.toInt16.toUInt16 <<< 8)

/-- The loop of `rhdr_computer_internal`: it takes the bytes in pairs and stops
at a pair whose first byte is NUL. -/
def chksumLoop (accum : UInt16) : List UInt8 → UInt16
  | c1 :: c2 :: rest =>
    if c1 = 0 then accum else chksumLoop (carryAroundAdd accum (computerChksum c1 c2)) rest
  | _ => accum

def rhdrComputerChksum (hdr : RHdr) : UInt16 := ~~~ chksumLoop 0 hdr.msg.bytes

def validChksum (hdr : RHdr) : Bool :=
  flagValidate hdr CHK && rhdrComputerChksum hdr == hdr.chks

def clientChksum (hdr : RHdr) : Bool :=
  flagValidate hdr CHK &&
    ((flagCheck hdr GET || flagCheck hdr (GET ||| CHK)) ||
      hdr.chks == emptyChecksumPrecompute) &&
    validChksum hdr

/-- Set the flag and fill in the checksum, as both sides do before they send. -/
def markChk (hdr : RHdr) : RHdr :=
  let marked := flagSet hdr CHK
  { marked with chks := rhdrComputerChksum marked }

theorem mark_chk_twice (hdr : RHdr) : markChk (markChk hdr) = markChk hdr := by
  simp only [markChk, flagSet, rhdrComputerChksum, UInt16.or_assoc, UInt16.or_self]

theorem or_and_not (word mask : UInt16) : (word ||| mask) &&& ~~~mask = word &&& ~~~mask := by
  apply UInt16.eq_of_toBitVec_eq
  simp only [UInt16.toBitVec_and, UInt16.toBitVec_or, UInt16.toBitVec_not]
  ext bit inside
  simp only [BitVec.getElem_and, BitVec.getElem_or, BitVec.getElem_not]
  cases word.toBitVec[bit] <;> cases mask.toBitVec[bit] <;> rfl

theorem plain_flags_mark (hdr : RHdr) : plainFlags (markChk hdr) = plainFlags hdr := by
  exact or_and_not hdr.flgv (CHK &&& flagOffset)

/-! ## Wire format -/

/-- `htons` for one word: the bytes in network order. -/
def wordBytes (word : UInt16) : List UInt8 := [(word >>> 8).toUInt8, word.toUInt8]

def bytesWord (high low : UInt8) : UInt16 := high.toUInt16 * 256 + low.toUInt16

theorem bytes_word_bytes (word : UInt16) : bytesWord (word >>> 8).toUInt8 word.toUInt8 = word := by
  apply UInt16.toNat_inj.mp
  have small := word.toNat_lt
  simp only [bytesWord, UInt16.toNat_add, UInt16.toNat_mul, UInt8.toNat_toUInt16,
    UInt16.toNat_toUInt8, UInt16.toNat_shiftRight, UInt16.toNat_ofNat, Nat.shiftRight_eq_div_pow,
    Nat.reduceMod, Nat.reducePow]
  omega

def toWire (hdr : RHdr) : List UInt8 :=
  wordBytes hdr.seqn ++ wordBytes hdr.ackn ++ wordBytes hdr.chks ++ wordBytes hdr.flgv ++
    hdr.msg.bytes

/-- The packet in a receive buffer after `convert_bytes`. -/
def ofWire : List UInt8 → RHdr
  | s1 :: s0 :: a1 :: a0 :: c1 :: c0 :: f1 :: f0 :: msg =>
    ⟨bytesWord s1 s0, bytesWord a1 a0, bytesWord c1 c0, bytesWord f1 f0, Msg.ofBytes msg⟩
  | _ => rhdrInit

theorem to_wire_length (hdr : RHdr) : (toWire hdr).length = rhdrSiz := by
  simp [toWire, wordBytes, hdr.msg.full, msgSiz, rhdrSiz]

theorem of_wire_to_wire (hdr : RHdr) (rest : List UInt8) : ofWire (toWire hdr ++ rest) = hdr := by
  simp only [toWire, wordBytes, List.cons_append, List.nil_append, ofWire, bytes_word_bytes,
    of_bytes_append]

theorem of_wire_whole (hdr : RHdr) : ofWire (toWire hdr) = hdr := by
  rw [← List.append_nil (toWire hdr), of_wire_to_wire]

end Cprogramming.ReliableUdp.Header
