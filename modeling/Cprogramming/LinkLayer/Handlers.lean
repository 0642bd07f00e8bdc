import Cprogramming.LinkLayer.Switch

/-!
# Handling packets

`rsSvrUdp_handle` of `RSrvUHandle.h` and `rsSvrTcp_handle` of `RSrvTHandle.h`:
what the switch does with a packet of a client and with one of another switch.
-/

namespace Cprogramming.LinkLayer.Handlers

open Addresses DistanceMap Mailbox Packets Switch

set_option autoImplicit false

def acknowledged (buf : List UInt8) : List UInt8 :=
  setMode (buf.take 4 ++ ipBytes (assignIp buf) ++ buf.drop 8) .acknowledge

def locationKept (src dest : RIPsingle) (x y : UInt16) : List UInt8 :=
  rsPkt src dest .locationSend ++ hostShort x ++ hostShort y

def locationSent (src dest : RIPsingle) (x y : UInt16) : List UInt8 :=
  rsPkt src dest .locationSend ++ htons x ++ htons y

def broadcastSent (src dest target : RIPsingle) (distance : UInt32) : List UInt8 :=
  rsPkt src dest .locationBroadcast ++ ipBytes target ++ htonl distance

/-- `rDst_calc_dist`: the square root in double precision is exact enough for
its integer part, since the sum stays below 2 ^ 34. -/
def rDstCalcDist (x1 x2 y1 y2 : UInt16) : UInt32 :=
  let gap (left right : UInt16) : Nat := max left.toNat right.toNat - min left.toNat right.toNat
  UInt32.ofNat (Nat.sqrt (gap x1 x2 * gap x1 x2 + gap y1 y2 * gap y1 y2))

def shortWrite (buf : List UInt8) : List UInt8 :=
  buf.take rsPktSize ++ ((buf.drop rsPktSize).takeWhile (· != 0))

section

variable (resolver : Resolver)

/-! ## The local side -/

def udpDiscovery (tup : RTUp) (client : RSock) (excess : Option (List UInt8)) : Except Fault Handled :=
  let pkt := excess.getD client.buf
  let host := resolver.inetAddr tup.sudp.host
  let assign := resolver.inetAddr (rIpopOpToStr (rIpopAssignIp tup.sudp.ipOp false).2.1)
  -- the destination is filled in after the packet has been sent
  let kept :=
    if excess.isSome then client.buf else overwrite pkt (rGreet host assign .offer assign)
  .ok
    { answer := false
      tup := { tup with sudp := rSrvUdpAdaptorAppend tup.sudp { client with buf := kept } }
      sent := [.udp client.addr (overwrite pkt (rGreet host noAddress .offer assign))] }

def udpRequest (tup : RTUp) (client : RSock) (pkt : List UInt8) : Except Fault Handled :=
  match rsSvrUdpFindAdaptorIp tup.sudp.adaptors (assignIp pkt) with
  | none => .ok ⟨false, tup, []⟩
  | some index => do
    let adaptor ← present tup.sudp.adaptors[index]?
    let greet := acknowledged adaptor.buf
    let adaptors := tup.sudp.adaptors.modify index fun adaptor => { adaptor with buf := greet }
    .ok ⟨true, { tup with sudp := { tup.sudp with adaptors := adaptors } },
      [.udp client.addr (overwrite pkt (greet.take 16))]⟩

def deliverLocally (tup : RTUp) (index : Nat) (pkt : List UInt8) (excess : Option (List UInt8)) :
    Except Fault Handled := do
  let adaptor ← present tup.sudp.adaptors[index]?
  let adaptors := tup.sudp.adaptors.modify index fun adaptor =>
    { adaptor with mailbox := queueData adaptor.mailbox pkt excess }
  let query := rsPkt (resolver.inetAddr tup.sudp.name) (destIp pkt) .queryPacket
  .ok ⟨false, { tup with sudp := { tup.sudp with adaptors := adaptors } },
    [.udp adaptor.addr query]⟩

def udpDataPayload (tup : RTUp) (pkt : List UInt8) (excess : Option (List UInt8)) :
    Except Fault Handled :=
  match rsSvrUdpFindAdaptorIp tup.sudp.adaptors (destIp pkt) with
  | none => rsSvrTcpRouteHandle resolver tup none pkt excess
  | some index => deliverLocally resolver tup index pkt excess

/-- The mailbox is sent and emptied. Its first packet is used without a test. -/
def udpQueryAccept (tup : RTUp) (pkt : List UInt8) : Except Fault Handled :=
  match rsSvrUdpFindAdaptorIp tup.sudp.adaptors (srcIp pkt) with
  | none => .ok ⟨false, tup, []⟩
  | some index => do
    let adaptor ← present tup.sudp.adaptors[index]?
    let _ ← present adaptor.mailbox.head?
    let adaptors := tup.sudp.adaptors.modify index fun adaptor => { adaptor with mailbox := [] }
    .ok ⟨true, { tup with sudp := { tup.sudp with adaptors := adaptors } },
      adaptor.mailbox.map fun packet => .udp adaptor.addr packet⟩

def rsSvrUdpHandle (tup : RTUp) (client : RSock) (excess : Option (List UInt8)) :
    Except Fault Handled :=
  let pkt := excess.getD client.buf
  if rspktModeChk pkt .discovery then udpDiscovery resolver tup client excess
  else if rspktModeChk pkt .request then udpRequest tup client pkt
  else if rspktModeChk pkt .dataPayload then udpDataPayload resolver tup pkt excess
  else if rspktModeChk pkt .queryAccept then udpQueryAccept tup pkt
  else .ok ⟨false, tup, []⟩

/-! ## The side of the switches -/

def tboxHost (stp : RSrvTcp) : Except Fault (List UInt8) :=
  match stp.host with
  | some host => .ok host
  | none => .error .noServer

def tcpDiscovery (tup : RTUp) (client : RSock) : Except Fault Handled := do
  let host := resolver.inetAddr (← tboxHost tup.stcp)
  let assign := resolver.inetAddr (rIpopOpToStr (rIpopAssignIp tup.stcp.ipOp false).2.1)
  .ok
    { answer := true
      tup := { tup with
        stcp := rSrvTcpSwitchAppend tup.stcp client false (rGreet host assign .offer assign) }
      sent := [.tcp client.slot (rGreet host noAddress .offer assign)] }

def tcpOffer (tup : RTUp) (client : RSock) : Except Fault Handled := do
  let index ← present (rsSvrTcpFindSwitchCon tup.stcp.headCon client)
  let assigned := assignIp client.buf
  let stcp := tup.stcp.changeSwitch (conRef index) fun sw =>
    { sw with ipName := rIpopOpToStr assigned, ipBox := rIpopStrToOp (rIpopOpToStr assigned) }
  .ok ⟨false, { tup with stcp := stcp },
    [.tcp client.slot (rGreet noAddress (srcIp client.buf) .request assigned)]⟩

/-- The switch that is found is used without a test, and its buffer, which it
is found by, is overwritten. -/
def tcpAcknowledge (tup : RTUp) (client : RSock) : Except Fault Handled := do
  let index ← present (rsSvrTcpFindSwitchCon tup.stcp.headCon client)
  let pkt := client.buf
  let stcp := tup.stcp.changeSwitch (conRef index) fun sw =>
    { sw with
      assign := pkt.take 16
      buf := overwrite sw.buf (locationKept (destIp pkt) (srcIp pkt) tup.stcp.x tup.stcp.y) }
  .ok ⟨true, { tup with stcp := stcp },
    [.tcp client.slot (locationSent (destIp pkt) (srcIp pkt) tup.stcp.x tup.stcp.y)]⟩

def announceCon (stp : RSrvTcp) (target : RIPsingle) (distance : UInt32) : List Output :=
  stp.headCon.filterMap fun sw =>
    if srcIp sw.assign = target then none
    else if modeOf sw.assign = RsMode.acknowledge.code then
      some (.tcp sw.slot
        (broadcastSent (destIp sw.assign) (srcIp sw.assign) target (distance + sw.distance)))
    else none

def announceHead (stp : RSrvTcp) (target : RIPsingle) (distance : UInt32) :
    Except Fault (List Output) := do
  let others := stp.head.filter fun sw => srcIp sw.assign != target
  if others.isEmpty then .ok []
  else
    let host ← tboxHost stp
    .ok ((others.filter fun sw => resolver.inetAddr sw.ipName != target).map fun sw =>
      .tcp sw.slot (broadcastSent (resolver.inetAddr host) (resolver.inetAddr sw.ipName) target
        (distance + sw.distance)))

/-- The switch whose location came in: among those that connected to this one by
its name, else the last of the con list that assigned an address under it. -/
def locatedSwitch (stp : RSrvTcp) (ip : RIPsingle) : Option SwitchRef :=
  headOrCon (rsSvrTcpFindSwitchIp stp.head ip)
    (lastIndex (fun sw => srcIp sw.assign == ip) stp.headCon)

def replyLocation (tup : RTUp) (client : RSock) : RSrvTcp × List Output :=
  let pkt := client.buf
  match rsSvrTcpFindSwitchIp tup.stcp.head (srcIp pkt) with
  | none => (tup.stcp, [])
  | some index =>
    if (tup.stcp.head[index]?).any fun sw => !rspktModeChk sw.buf .locationSend then
      (tup.stcp.changeSwitch (headRef index) fun sw =>
          { sw with
            buf := overwrite sw.buf (locationKept (destIp pkt) (srcIp pkt) tup.stcp.x tup.stcp.y) },
        [.tcp client.slot (locationSent (destIp pkt) (srcIp pkt) tup.stcp.x tup.stcp.y)])
    else (tup.stcp, [])

def locationDistance (stp : RSrvTcp) (pkt : List UInt8) : UInt32 :=
  rDstCalcDist stp.x (ntohs pkt 12) stp.y (ntohs pkt 14)

def recordLocation (stp : RSrvTcp) (ref : SwitchRef) (pkt : List UInt8) (distance : UInt32) :
    RSrvTcp :=
  let located := stp.changeSwitch ref fun sw => { sw with distance := distance }
  { located with map := (rMapAppend located.map (destIp pkt) (srcIp pkt) distance).2 }

def tcpLocationSend (tup : RTUp) (client : RSock) : Except Fault Handled := do
  let pkt := client.buf
  let distance := locationDistance tup.stcp pkt
  let ref ← present (locatedSwitch tup.stcp (srcIp pkt))
  let stcp := recordLocation (replyLocation tup client).1 ref pkt distance
  let forLocal := tup.localOn && !stcp.name.isEmpty
  let target := if forLocal then resolver.inetAddr tup.sudp.name else srcIp pkt
  let toClient := if forLocal then
      [Output.tcp client.slot (broadcastSent (destIp pkt) (srcIp pkt) target distance)]
    else []
  let toHead ← announceHead resolver stcp target distance
  .ok ⟨true, { tup with stcp := stcp },
    (replyLocation tup client).2 ++ toClient ++ announceCon stcp target distance ++ toHead⟩

structure RDstPktB where
  src : RIPsingle
  dest : RIPsingle
  target : RIPsingle
  distance : UInt32

def swapLong (value : UInt32) : UInt32 := ntohl (htonl value).reverse 0

/-- One switch of the loops over the neighbours. An announcement to the client
itself is put into the buffer that the next ones are made from. -/
def relay (slot : Nat) (mine his : RSwitch → RIPsingle) (state : RDstPktB × List Output)
    (sw : RSwitch) : RDstPktB × List Output :=
  let (got, sent) := state
  if his sw = got.target ∨ his sw = got.dest ∨ his sw = got.src then state
  else
    let distance := got.distance + sw.distance
    let output := Output.tcp sw.slot (broadcastSent (mine sw) (his sw) got.target distance)
    let kept := if sw.slot = slot then ⟨mine sw, his sw, got.target, swapLong distance⟩ else got
    (kept, sent ++ [output])

def tcpLocationBroadcast (tup : RTUp) (client : RSock) : Except Fault Handled :=
  let pkt := client.buf
  let got : RDstPktB := ⟨srcIp pkt, destIp pkt, assignIp pkt, ntohl pkt 16⟩
  let appended := rMapAppend tup.stcp.map got.src got.target got.distance
  let stcp := { tup.stcp with map := appended.2 }
  if appended.1 then
    let named (sw : RSwitch) := resolver.inetAddr sw.ipName
    let overHead := stcp.head.foldl
      (relay client.slot (fun _ => resolver.inetAddr stcp.name) named) (got, [])
    let overCon := stcp.headCon.foldl (relay client.slot named fun sw => srcIp sw.assign) overHead
    .ok ⟨false, { tup with stcp := stcp }, overCon.2⟩
  else .ok ⟨false, { tup with stcp := stcp }, []⟩

def tcpRequest (tup : RTUp) (client : RSock) : Except Fault Handled :=
  match rsSvrTcpFindSwitchIp tup.stcp.head (assignIp client.buf) with
  | none => .ok ⟨false, tup, []⟩
  | some index => do
    let sw ← present tup.stcp.head[index]?
    let greet := acknowledged sw.buf
    let stcp := tup.stcp.changeSwitch (headRef index) fun sw => { sw with buf := greet }
    .ok ⟨true, { tup with stcp := stcp }, [.tcp client.slot (greet.take 16)]⟩

def acceptingSwitch (stp : RSrvTcp) (pkt : List UInt8) : Option SwitchRef :=
  headOrCon (rsSvrTcpFindSwitchIp stp.head (srcIp pkt))
    (rsSvrTcpFindSwitchIp stp.headCon (destIp pkt))

/-- The mailbox is sent and emptied; its first packet is used without a test.
The packets are put into the buffer of the switch that was found and the buffer
of the client is sent. -/
def tcpQueryAccept (tup : RTUp) (client : RSock) : Except Fault Handled :=
  match acceptingSwitch tup.stcp client.buf with
  | none => .ok ⟨false, tup, []⟩
  | some ref => do
    let sw ← present (tup.stcp.switchAt ref)
    let _ ← present sw.mailbox.head?
    let stcp := tup.stcp.changeSwitch ref fun sw => { sw with mailbox := [] }
    let written := sw.mailbox.map fun packet =>
      if sw.slot = client.slot then shortWrite packet else shortWrite client.buf
    .ok ⟨true, { tup with stcp := stcp }, written.map fun bytes => .tcp client.slot bytes⟩

def senderSwitch (stp : RSrvTcp) (client : RSock) : Option SwitchRef :=
  headOrCon (lastIndex (fun sw => sw.fd == client.fd) stp.head)
    (lastIndex (fun sw => sw.fd == client.fd) stp.headCon)

def tcpDataPayload (tup : RTUp) (client : RSock) : Except Fault Handled :=
  let pkt := client.buf
  let found := if tup.localOn then rsSvrUdpFindAdaptorIp tup.sudp.adaptors (destIp pkt) else none
  match found with
  | some index => deliverLocally resolver tup index pkt none
  | none =>
    let tabel := rTabelAppend tup.stcp.tabel (senderSwitch tup.stcp client) (srcIp pkt)
    rsSvrTcpRouteHandle resolver { tup with stcp := { tup.stcp with tabel := tabel } }
      (some client.slot) pkt none

def rsSvrTcpHandle (tup : RTUp) (client : RSock) : Except Fault Handled :=
  let pkt := client.buf
  if rspktModeChk pkt .discovery then tcpDiscovery resolver tup client
  else if rspktModeChk pkt .offer then tcpOffer tup client
  else if rspktModeChk pkt .acknowledge then tcpAcknowledge tup client
  else if rspktModeChk pkt .locationSend then tcpLocationSend resolver tup client
  else if rspktModeChk pkt .locationBroadcast then tcpLocationBroadcast resolver tup client
  else if rspktModeChk pkt .request then tcpRequest tup client
  else if rspktModeChk pkt .queryAccept then tcpQueryAccept tup client
  else if rspktModeChk pkt .queryPacket then
    .ok ⟨false, tup, [.tcp client.slot (rsPkt (destIp pkt) (srcIp pkt) .queryAccept)]⟩
  else if rspktModeChk pkt .dataPayload then tcpDataPayload resolver tup client
  else .ok ⟨false, tup, []⟩

/-- `rsSvrTcp_establish`: the greeting to a switch that this one has connected
to; `written` tells whether it could be sent. -/
def rsSvrTcpEstablish (tup : RTUp) (client : RSock) (written : Bool) : Handled :=
  let greet := rGreet noAddress noAddress .discovery noAddress
  if written then
    ⟨true, { tup with stcp := rSrvTcpSwitchAppend tup.stcp client true client.addr },
      [.tcp client.slot greet]⟩
  else ⟨false, tup, [.tcp client.slot greet]⟩

end

end Cprogramming.LinkLayer.Handlers
