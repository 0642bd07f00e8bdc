import Cprogramming.LinkLayer.Addresses

/-!
# Packets

`RSPkt.h`, `RGreet.h` and `RDstPkt.h`: the header of every packet and what
follows it, as the bytes of a buffer. Addresses stand in network byte order, so
an address is its four octets.
-/

namespace Cprogramming.LinkLayer.Packets

open Addresses

set_option autoImplicit false

inductive RsMode where
  | discovery
  | offer
  | request
  | acknowledge
  | dataPayload
  | queryPacket
  | queryAccept
  | locationSend
  | locationBroadcast
  | moreFragments
  | lastFragment
deriving DecidableEq

def RsMode.code : RsMode → UInt8
  | .discovery => 0x01
  | .offer => 0x02
  | .request => 0x03
  | .acknowledge => 0x04
  | .dataPayload => 0x05
  | .queryPacket => 0x06
  | .queryAccept => 0x07
  | .locationSend => 0x08
  | .locationBroadcast => 0x09
  | .moreFragments => 0x0a
  | .lastFragment => 0x0b

def udpMaxPkt : Nat := 1500

/-- `sizeof(RSPkt_t)`. -/
def rsPktSize : Nat := 12

def modeOffset : Nat := 11

/-! ## Reading -/

def byteAt (packet : List UInt8) (offset : Nat) : UInt8 := packet.getD offset 0

def ipAt (packet : List UInt8) (offset : Nat) : RIPsingle :=
  ⟨byteAt packet offset, byteAt packet (offset + 1), byteAt packet (offset + 2),
    byteAt packet (offset + 3)⟩

def srcIp (packet : List UInt8) : RIPsingle := ipAt packet 0

def destIp (packet : List UInt8) : RIPsingle := ipAt packet 4

def modeOf (packet : List UInt8) : UInt8 := byteAt packet modeOffset

/-- The field behind the header: `assign_ip` of a greeting, `target_ip` of a
broadcast. -/
def assignIp (packet : List UInt8) : RIPsingle := ipAt packet 12

def rspktModeChk (packet : List UInt8) (mode : RsMode) : Bool := modeOf packet == mode.code

def ntohs (packet : List UInt8) (offset : Nat) : UInt16 :=
  (byteAt packet offset).toUInt16 <<< 8 ||| (byteAt packet (offset + 1)).toUInt16

def ntohl (packet : List UInt8) (offset : Nat) : UInt32 :=
  (byteAt packet offset).toUInt32 <<< 24 ||| (byteAt packet (offset + 1)).toUInt32 <<< 16 |||
    (byteAt packet (offset + 2)).toUInt32 <<< 8 ||| (byteAt packet (offset + 3)).toUInt32

/-! ## Writing -/

def ipBytes (ip : RIPsingle) : List UInt8 := [ip.fst, ip.snd, ip.thd, ip.frt]

def htons (number : UInt16) : List UInt8 := [(number >>> 8).toUInt8, number.toUInt8]

def htonl (number : UInt32) : List UInt8 :=
  [(number >>> 24).toUInt8, (number >>> 16).toUInt8, (number >>> 8).toUInt8, number.toUInt8]

/-- `uint16_t` as an x86 keeps it. -/
def hostShort (number : UInt16) : List UInt8 := [number.toUInt8, (number >>> 8).toUInt8]

def rsPkt (src dest : RIPsingle) (mode : RsMode) : List UInt8 :=
  ipBytes src ++ ipBytes dest ++ [0, 0, 0, mode.code]

def rGreet (src dest : RIPsingle) (mode : RsMode) (assign : RIPsingle) : List UInt8 :=
  rsPkt src dest mode ++ ipBytes assign

/-- `memcpy` to the front of a buffer. -/
def overwrite (buffer bytes : List UInt8) : List UInt8 := bytes ++ buffer.drop bytes.length

def setMode (packet : List UInt8) (mode : RsMode) : List UInt8 := packet.set modeOffset mode.code

theorem mode_of_set_mode (packet : List UInt8) (mode : RsMode)
    (long : modeOffset < packet.length) : modeOf (setMode packet mode) = mode.code := by
  simp [modeOf, byteAt, setMode, List.getD_eq_getElem?_getD, long]

end Cprogramming.LinkLayer.Packets
