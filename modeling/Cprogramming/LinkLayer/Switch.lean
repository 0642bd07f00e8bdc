import Cprogramming.LinkLayer.DistanceMap
import Cprogramming.LinkLayer.Mailbox

/-!
# The switch

`RSrvUdp.h`, `RSrvTcp.h` and `RTabel.h`: what a switch keeps of its clients and
of the other switches, and how it finds them. A pointer to a switch is the list
it was appended to and its place there; nothing is ever taken out of a list. A
use of a pointer that is null is a fault.
-/

namespace Cprogramming.LinkLayer.Switch

open Addresses DistanceMap Mailbox Packets

set_option autoImplicit false

/-- `inet_addr` of the C library. It reads a printed address back; its value on
other text is left open. -/
structure Resolver where
  inetAddr : List UInt8 → RIPsingle
  reads : ∀ ip, inetAddr (rIpopOpToStr ip) = ip

def plainResolver : Resolver := ⟨rIpopStrToOp, str_to_op_of_op_to_str⟩

/-- A client of the poll table: its place there, its descriptor, its address as
the bytes of a `sockaddr_in`, and the buffer that a packet is read into. -/
structure RSock where
  slot : Nat
  fd : Int
  addr : List UInt8
  buf : List UInt8

structure RAdaptor where
  addr : List UInt8
  ipBox : RIPsingle
  ipName : List UInt8
  buf : List UInt8
  mailbox : List (List UInt8)

structure RSrvUdp where
  ipOp : RIPop
  adaptors : List RAdaptor
  name : List UInt8
  host : List UInt8

structure RSwitch where
  slot : Nat
  fd : Int
  ipBox : RIPsingle
  ipName : List UInt8
  buf : List UInt8
  mailbox : List (List UInt8)
  assign : List UInt8
  distance : UInt32
  conlist : Bool

structure SwitchRef where
  conlist : Bool
  index : Nat
deriving DecidableEq

/-- `head` lists the switches that connected to this one, `headCon` those that
this one connected to; the host is that of `tbox`, which is null unless the
global side is on. -/
structure RSrvTcp where
  ipOp : RIPop
  head : List RSwitch
  headCon : List RSwitch
  name : List UInt8
  host : Option (List UInt8)
  x : UInt16
  y : UInt16
  map : RMap
  tabel : List (RIPsingle × SwitchRef)

structure RTUp where
  sudp : RSrvUdp
  stcp : RSrvTcp
  localOn : Bool

inductive Output where
  | tcp (slot : Nat) (bytes : List UInt8)
  | udp (addr bytes : List UInt8)
  | shown (source : RIPsingle) (payload : List UInt8)

structure Handled where
  answer : Bool
  tup : RTUp
  sent : List Output

inductive Fault where
  | absent
  | noServer
deriving DecidableEq

def present {Item : Type} : Option Item → Except Fault Item
  | some item => .ok item
  | none => .error .absent

/-! ## Initialisation -/

def noAddress : RIPsingle := ⟨0, 0, 0, 0⟩

def rSvrUdpInit (name : List UInt8) (subnet : Int) : Option RSrvUdp :=
  if subnet < 0 ∨ ipMaxSpace < subnet then none
  else if rIpopStrValidateGood name then
    let op := allocator name subnet.toNat
    some ⟨op, [], name, rIpopOpToStr op.ipBox⟩
  else none

def zeroedUdp : RSrvUdp := ⟨⟨noAddress, noAddress, noAddress, 0⟩, [], [], rIpopOpToStr noAddress⟩

/-- `rSvrTcp_init` makes the same tests as `rSvrUdp_init`; its answer is not
looked at, so that a side that was refused stays zeroed. -/
def rSvrTcpInit (name : List UInt8) (subnet : Int) (x y : UInt16) : RSrvTcp :=
  let side := (rSvrUdpInit name subnet).getD zeroedUdp
  ⟨side.ipOp, [], [], side.name, some side.host, x, y, [], []⟩

def rTupStdSetup (localSide globalSide : Option (List UInt8 × Int)) (x y : UInt16) : RTUp :=
  { sudp := match localSide with
      | some (name, subnet) => (rSvrUdpInit name subnet).getD zeroedUdp
      | none => zeroedUdp
    stcp := match globalSide with
      | some (name, subnet) => rSvrTcpInit name subnet x y
      | none => ⟨zeroedUdp.ipOp, [], [], [], none, x, y, [], []⟩
    localOn := localSide.isSome }

/-! ## Adaptors -/

def rSrvUdpAdaptorAppend (sup : RSrvUdp) (client : RSock) : RSrvUdp :=
  let assigned := rIpopAssignIp sup.ipOp true
  { sup with
    ipOp := assigned.2.2
    adaptors := sup.adaptors ++
      [⟨client.addr, assigned.2.1, rIpopOpToStr assigned.2.1, client.buf, []⟩] }

def rsSvrUdpFindAdaptorIp (adaptors : List RAdaptor) (ip : RIPsingle) : Option Nat :=
  adaptors.findIdx? fun adaptor => adaptor.ipName == rIpopOpToStr ip

/-! ## Switches -/

def rsSvrTcpFindSwitchIp (switches : List RSwitch) (ip : RIPsingle) : Option Nat :=
  switches.findIdx? fun sw => sw.ipName == rIpopOpToStr ip

/-- `rsSvrTcp_find_switch_ip` with a connection: the buffer of the switch starts
with the address of the client. -/
def rsSvrTcpFindSwitchCon (switches : List RSwitch) (client : RSock) : Option Nat :=
  switches.findIdx? fun sw => sw.buf.take client.addr.length == client.addr

def lastIndex {Item : Type} (picks : Item → Bool) (items : List Item) : Option Nat :=
  ((items.zipIdx.filter fun pair => picks pair.1).getLast?).map Prod.snd

def emptyBuffer : List UInt8 := List.replicate udpMaxPkt 0

def rSrvTcpSwitchAppend (stp : RSrvTcp) (client : RSock) (con : Bool) (buf : List UInt8) :
    RSrvTcp :=
  let zeroed := List.replicate 16 0
  if con then
    { stp with
      headCon := stp.headCon ++
        [⟨client.slot, client.fd, noAddress, [], overwrite emptyBuffer buf, [], zeroed, 0, true⟩] }
  else
    let assigned := rIpopAssignIp stp.ipOp true
    { stp with
      ipOp := assigned.2.2
      head := stp.head ++
        [⟨client.slot, client.fd, assigned.2.1, rIpopOpToStr assigned.2.1,
          overwrite emptyBuffer buf, [], zeroed, 0, false⟩] }

def RSrvTcp.switchAt (stp : RSrvTcp) (ref : SwitchRef) : Option RSwitch :=
  if ref.conlist then stp.headCon[ref.index]? else stp.head[ref.index]?

def RSrvTcp.changeSwitch (stp : RSrvTcp) (ref : SwitchRef) (change : RSwitch → RSwitch) : RSrvTcp :=
  if ref.conlist then { stp with headCon := stp.headCon.modify ref.index change }
  else { stp with head := stp.head.modify ref.index change }

/-! ## The learned table -/

def rTabelFind (tabel : List (RIPsingle × SwitchRef)) (dst : RIPsingle) : Option SwitchRef :=
  (tabel.find? fun entry => entry.1 == dst).map Prod.snd

def rTabelAppend (tabel : List (RIPsingle × SwitchRef)) (client : Option SwitchRef)
    (dst : RIPsingle) : List (RIPsingle × SwitchRef) :=
  match client with
  | none => tabel
  | some ref => if (rTabelFind tabel dst).isSome then tabel else tabel ++ [(dst, ref)]

/-! ## Queueing -/

def dataHeader (pkt : List UInt8) : List UInt8 := rsPkt (srcIp pkt) (destIp pkt) .dataPayload

/-- A payload is queued as one packet, a datagram longer than the buffer in
fragments. -/
def queueData (mailbox : List (List UInt8)) (pkt : List UInt8) (excess : Option (List UInt8)) :
    List (List UInt8) :=
  match excess with
  | some whole => rsSrvUdpFragment mailbox whole (dataHeader pkt)
  | none =>
    rstrLstBufAdd mailbox
      (dataHeader pkt ++ (pkt.drop rsPktSize).take (udpMaxPkt - rsPktSize)) [] udpBufMaxSz

section

variable (resolver : Resolver)

/-! ## Routing -/

def rsSvrTcpForMe (tup : RTUp) (dest : RIPsingle) : Bool :=
  dest == resolver.inetAddr tup.stcp.name ||
    (tup.localOn && dest == resolver.inetAddr tup.sudp.name) ||
    tup.stcp.headCon.any fun sw => assignIp sw.assign == dest

def conRef (index : Nat) : SwitchRef := ⟨true, index⟩

def headRef (index : Nat) : SwitchRef := ⟨false, index⟩

def headOrCon (head con : Option Nat) : Option SwitchRef :=
  match head with
  | some index => some (headRef index)
  | none => con.map conRef

def routeByMap (stp : RSrvTcp) (dest : RIPsingle) : Option SwitchRef :=
  let found := rMapShortestAndLongestMatchingPrefixTo stp.map dest
  if found = noAddress then none
  else
    headOrCon (stp.head.findIdx? fun sw => resolver.inetAddr sw.ipName == found)
      (stp.headCon.findIdx? fun sw => srcIp sw.assign == found)

def preferLonger (best : Nat × Option SwitchRef) (matched : Nat) (ref : SwitchRef) :
    Nat × Option SwitchRef :=
  if best.1 < matched then (matched, some ref) else best

/-- The neighbour that shares the longest run of leading bits; `head_con` is
where the search starts from. -/
def routeByPrefix (stp : RSrvTcp) (dest : RIPsingle) : Option SwitchRef :=
  let start : Nat × Option SwitchRef := (0, if stp.headCon = [] then none else some (conRef 0))
  let overCon := stp.headCon.zipIdx.foldl (fun best pair =>
    preferLonger best (rmapLongestPrefixMathing (srcIp pair.1.assign) dest) (conRef pair.2)) start
  (stp.head.zipIdx.foldl (fun best pair =>
    preferLonger best (rmapLongestPrefixMathing (resolver.inetAddr pair.1.ipName) dest)
      (headRef pair.2)) overCon).2

def routeTo (stp : RSrvTcp) (dest : RIPsingle) : Option SwitchRef :=
  match rTabelFind stp.tabel dest with
  | some ref => some ref
  | none =>
    match routeByMap resolver stp dest with
    | some ref => some ref
    | none => routeByPrefix resolver stp dest

/-- `SND_PKT` of `rsSvrTcp_route_handle`: ask the switch whether it is ready and
queue the packet for it. `origin` is the place of the TCP client whose buffer
holds the packet. -/
def forwardTo (tup : RTUp) (origin : Option Nat) (ref : SwitchRef) (pkt : List UInt8)
    (excess : Option (List UInt8)) : Except Fault Handled := do
  let sw ← present (tup.stcp.switchAt ref)
  let query :=
    if sw.conlist then rsPkt (destIp sw.assign) (srcIp sw.assign) .queryPacket
    else rsPkt (resolver.inetAddr tup.stcp.name) (resolver.inetAddr sw.ipName) .queryPacket
  -- the question to the client itself is put into the buffer of the packet
  let queued := if origin = some sw.slot then overwrite pkt query else pkt
  let stcp := tup.stcp.changeSwitch ref fun sw =>
    { sw with mailbox := queueData sw.mailbox queued excess }
  .ok ⟨false, { tup with stcp := stcp }, [.tcp sw.slot query]⟩

def rsSvrTcpRouteHandle (tup : RTUp) (origin : Option Nat) (pkt : List UInt8)
    (excess : Option (List UInt8)) : Except Fault Handled :=
  if rsSvrTcpForMe resolver tup (destIp pkt) then
    .ok ⟨false, tup, [.shown (srcIp pkt) ((excess.getD pkt).drop rsPktSize)]⟩
  else
    match routeTo resolver tup.stcp (destIp pkt) with
    | none => .ok ⟨false, tup, []⟩
    | some ref => forwardTo resolver tup origin ref pkt excess

end

end Cprogramming.LinkLayer.Switch
