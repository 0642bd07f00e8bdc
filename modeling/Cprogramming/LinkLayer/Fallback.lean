import Cprogramming.LinkLayer.Fragments
import Cprogramming.LinkLayer.RouteChoice

/-!
# Forwarding without a route

`rsSvrTcp_route_handle` for a packet that neither the learned table nor the map has
a route for: one scan over both lists of neighbours, which starts from the first
switch of the con list and takes a later one only if it shares more leading bits
with the destination.
-/

namespace Cprogramming.LinkLayer.Fallback

open Addresses DistanceMap Fragments Mailbox Packets Switch

set_option autoImplicit false

/-! ## The scan over the neighbours -/

structure Neighbour where
  ref : SwitchRef
  address : RIPsingle
deriving DecidableEq

def sharedBits (dest : RIPsingle) (neighbour : Neighbour) : Nat :=
  rmapLongestPrefixMathing neighbour.address dest

def preferNeighbour (dest : RIPsingle) (best : Nat × Option SwitchRef) (neighbour : Neighbour) :
    Nat × Option SwitchRef :=
  preferLonger best (sharedBits dest neighbour) neighbour.ref

theorem scan_longest (dest : RIPsingle) (items : List Neighbour)
    (best : Nat × Option SwitchRef) :
    (items.foldl (preferNeighbour dest) best = best ∧
        ∀ neighbour ∈ items, sharedBits dest neighbour ≤ best.1) ∨
      ∃ neighbour, items.argmax (sharedBits dest) = some neighbour ∧
        best.1 < sharedBits dest neighbour ∧
        items.foldl (preferNeighbour dest) best =
          (sharedBits dest neighbour, some neighbour.ref) := by
  induction items generalizing best with
  | nil => exact Or.inl ⟨rfl, by simp⟩
  | cons item rest ih =>
    rw [List.foldl_cons, List.argmax_cons, List.forall_mem_cons]
    by_cases longer : best.1 < sharedBits dest item
    · have taken : preferNeighbour dest best item = (sharedBits dest item, some item.ref) :=
        if_pos longer
      rw [taken]
      right
      rcases ih (sharedBits dest item, some item.ref) with ⟨kept, bound⟩ | ⟨later, most, more, found⟩
      · refine ⟨item, ?_, longer, kept⟩
        cases most : rest.argmax (sharedBits dest) with
        | none => rfl
        | some later => exact if_neg (Nat.not_lt.mpr (bound later (List.argmax_mem most)))
      · refine ⟨later, ?_, Nat.lt_trans longer more, found⟩
        rw [most]
        exact if_pos more
    · have kept : preferNeighbour dest best item = best := if_neg longer
      rw [kept]
      rcases ih best with ⟨same, bound⟩ | ⟨later, most, more, found⟩
      · exact Or.inl ⟨same, Nat.not_lt.mp longer, bound⟩
      · refine Or.inr ⟨later, ?_, more, found⟩
        rw [most]
        exact if_pos (Nat.lt_of_le_of_lt (Nat.not_lt.mp longer) more)

section

variable (resolver : Resolver)

def conNeighbours (stp : RSrvTcp) : List Neighbour :=
  stp.headCon.zipIdx.map fun pair => ⟨conRef pair.2, srcIp pair.1.assign⟩

def headNeighbours (stp : RSrvTcp) : List Neighbour :=
  stp.head.zipIdx.map fun pair => ⟨headRef pair.2, resolver.inetAddr pair.1.ipName⟩

/-- The switches of both lists, under the addresses they are compared by. -/
def neighbours (stp : RSrvTcp) : List Neighbour := conNeighbours stp ++ headNeighbours resolver stp

theorem route_by_prefix_scan (stp : RSrvTcp) (dest : RIPsingle) :
    routeByPrefix resolver stp dest =
      ((neighbours resolver stp).foldl (preferNeighbour dest)
        (0, if stp.headCon = [] then none else some (conRef 0))).2 := by
  rw [neighbours, List.foldl_append, conNeighbours, headNeighbours, List.foldl_map, List.foldl_map]
  rfl

variable {stp : RSrvTcp}

theorem route_with_con (dest : RIPsingle) (con : stp.headCon ≠ []) :
    ∃ neighbour, (neighbours resolver stp).argmax (sharedBits dest) = some neighbour ∧
      routeByPrefix resolver stp dest = some neighbour.ref := by
  rw [route_by_prefix_scan, if_neg con]
  rcases scan_longest dest (neighbours resolver stp) (0, some (conRef 0)) with
    ⟨kept, bound⟩ | ⟨neighbour, most, _, found⟩
  · obtain ⟨first, rest, shape⟩ := List.exists_cons_of_ne_nil con
    obtain ⟨others, listed⟩ : ∃ others, neighbours resolver stp =
        ⟨conRef 0, srcIp first.assign⟩ :: others := by
      simp [neighbours, conNeighbours, shape]
    refine ⟨⟨conRef 0, srcIp first.assign⟩, ?_, by rw [kept]⟩
    rw [listed, List.forall_mem_cons] at bound
    rw [listed, List.argmax_cons]
    cases most : others.argmax (sharedBits dest) with
    | none => rfl
    | some later =>
      have zero := bound.2 later (List.argmax_mem most)
      exact if_neg (by omega)
  · exact ⟨neighbour, most, by rw [found]⟩

theorem route_without_con (dest : RIPsingle) (con : stp.headCon = []) :
    (routeByPrefix resolver stp dest = none ∧
        ∀ neighbour ∈ neighbours resolver stp, sharedBits dest neighbour = 0) ∨
      ∃ neighbour, (neighbours resolver stp).argmax (sharedBits dest) = some neighbour ∧
        0 < sharedBits dest neighbour ∧ routeByPrefix resolver stp dest = some neighbour.ref := by
  rw [route_by_prefix_scan, if_pos con]
  rcases scan_longest dest (neighbours resolver stp) (0, none) with
    ⟨kept, bound⟩ | ⟨neighbour, most, more, found⟩
  · exact Or.inl ⟨by rw [kept], fun neighbour member => Nat.le_zero.mp (bound neighbour member)⟩
  · exact Or.inr ⟨neighbour, most, more, by rw [found]⟩

def HasCandidate (stp : RSrvTcp) (dest : RIPsingle) : Prop :=
  stp.headCon ≠ [] ∨ ∃ neighbour ∈ neighbours resolver stp, 0 < sharedBits dest neighbour

theorem route_of_candidate (stp : RSrvTcp) (dest : RIPsingle)
    (candidate : HasCandidate resolver stp dest) :
    ∃ neighbour, (neighbours resolver stp).argmax (sharedBits dest) = some neighbour ∧
      routeByPrefix resolver stp dest = some neighbour.ref := by
  by_cases con : stp.headCon = []
  · rcases route_without_con resolver dest con with ⟨_, zero⟩ | ⟨neighbour, most, _, found⟩
    · rcases candidate with list | ⟨neighbour, member, bits⟩
      · exact absurd con list
      · rw [zero neighbour member] at bits
        exact absurd bits (Nat.lt_irrefl 0)
    · exact ⟨neighbour, most, found⟩
  · exact route_with_con resolver dest con

theorem no_route_of_no_candidate (stp : RSrvTcp) (dest : RIPsingle)
    (alone : ¬ HasCandidate resolver stp dest) : routeByPrefix resolver stp dest = none := by
  rw [HasCandidate, not_or, not_not] at alone
  rcases route_without_con resolver dest alone.1 with ⟨dropped, _⟩ | ⟨neighbour, most, bits, _⟩
  · exact dropped
  · exact absurd ⟨neighbour, List.argmax_mem most, bits⟩ alone.2

/-! ## The switches that neighbours refer to -/

theorem neighbour_present (stp : RSrvTcp) (neighbour : Neighbour)
    (member : neighbour ∈ neighbours resolver stp) : ∃ sw, stp.switchAt neighbour.ref = some sw := by
  rcases List.mem_append.mp member with con | head
  · obtain ⟨⟨sw, index⟩, listed, rfl⟩ := List.mem_map.mp con
    exact ⟨sw, List.mem_zipIdx_iff_getElem?.mp listed⟩
  · obtain ⟨⟨sw, index⟩, listed, rfl⟩ := List.mem_map.mp head
    exact ⟨sw, List.mem_zipIdx_iff_getElem?.mp listed⟩

theorem switch_at_change (stp : RSrvTcp) (ref other : SwitchRef) (change : RSwitch → RSwitch) :
    (stp.changeSwitch ref change).switchAt other =
      if other = ref then (stp.switchAt other).map change else stp.switchAt other := by
  cases ref with
  | mk conlist index =>
    cases other with
    | mk otherList otherIndex =>
      by_cases same : otherIndex = index
      · cases conlist <;> cases otherList <;>
          simp [RSrvTcp.changeSwitch, RSrvTcp.switchAt, same]
      · cases conlist <;> cases otherList <;>
          simp [RSrvTcp.changeSwitch, RSrvTcp.switchAt, same, Ne.symm same]

/-! ## What is queued -/

theorem buf_add_first (mailbox : List (List UInt8)) (payload stamp : List UInt8) (skipSz : Nat) :
    ∃ packet rest, rstrLstBufAdd mailbox payload stamp skipSz = mailbox ++ packet :: rest ∧
      packet.take 8 = (fragment stamp skipSz payload).take 8 := by
  obtain ⟨front, last, mode, shape, appended⟩ := buf_add_append mailbox payload stamp skipSz
  rw [fragments] at shape
  cases front with
  | nil =>
    have only := (List.cons.inj shape).1
    exact ⟨_, _, appended, by rw [set_mode_take, only]⟩
  | cons packet others =>
    have same := (List.cons.inj shape).1
    exact ⟨_, _, appended, by rw [same]⟩

theorem queue_data_first (mailbox : List (List UInt8)) (pkt : List UInt8)
    (excess : Option (List UInt8)) :
    ∃ packet rest, queueData mailbox pkt excess = mailbox ++ packet :: rest ∧
      packet.take 8 = ipBytes (srcIp pkt) ++ ipBytes (destIp pkt) := by
  cases excess with
  | some whole =>
    obtain ⟨packet, rest, appended, start⟩ := buf_add_first mailbox (whole.drop rsPktSize)
      (dataHeader pkt) udpBufMaxSz
    rw [fragment_take _ _ _ (Nat.le_refl _)] at start
    exact ⟨packet, rest, appended, start⟩
  | none =>
    obtain ⟨packet, rest, appended, start⟩ := buf_add_first mailbox
      (dataHeader pkt ++ (pkt.drop rsPktSize).take (udpMaxPkt - rsPktSize)) [] udpBufMaxSz
    refine ⟨packet, rest, appended, ?_⟩
    rw [start, fragment, set_mode_take]
    rfl

theorem ip_bytes_append_inj {src dest otherSrc otherDest : RIPsingle}
    (same : ipBytes src ++ ipBytes dest = ipBytes otherSrc ++ ipBytes otherDest) :
    src = otherSrc ∧ dest = otherDest := by
  cases src
  cases dest
  cases otherSrc
  cases otherDest
  simp only [ipBytes, List.cons_append, List.nil_append, List.cons.injEq] at same
  simp [same]

theorem queue_overwritten_iff (mailbox : List (List UInt8)) (pkt : List UInt8)
    (excess : Option (List UInt8)) (src dest : RIPsingle) (mode : RsMode) :
    queueData mailbox (overwrite pkt (rsPkt src dest mode)) excess = queueData mailbox pkt excess ↔
      srcIp pkt = src ∧ destIp pkt = dest := by
  have newSrc : srcIp (overwrite pkt (rsPkt src dest mode)) = src := rfl
  have newDest : destIp (overwrite pkt (rsPkt src dest mode)) = dest := rfl
  have behind : (overwrite pkt (rsPkt src dest mode)).drop rsPktSize = pkt.drop rsPktSize := by
    rw [overwrite]
    rfl
  constructor
  · intro same
    obtain ⟨first, rest, queued, start⟩ :=
      queue_data_first mailbox (overwrite pkt (rsPkt src dest mode)) excess
    obtain ⟨other, others, plain, otherStart⟩ := queue_data_first mailbox pkt excess
    rw [queued, plain, List.append_cancel_left_eq, List.cons.injEq] at same
    rw [same.1, otherStart, newSrc, newDest] at start
    exact ip_bytes_append_inj start
  · rintro ⟨rfl, rfl⟩
    cases excess with
    | some whole => simp only [queueData, dataHeader, newSrc, newDest]
    | none => simp only [queueData, dataHeader, newSrc, newDest, behind]

/-! ## Forwarding -/

def queryTo (tup : RTUp) (sw : RSwitch) : RIPsingle × RIPsingle :=
  if sw.conlist then (destIp sw.assign, srcIp sw.assign)
  else (resolver.inetAddr tup.stcp.name, resolver.inetAddr sw.ipName)

/-- The outcome is that the neighbour is asked and the packet is queued for it. -/
def Forwards (tup : RTUp) (pkt : List UInt8) (excess : Option (List UInt8))
    (outcome : Except Fault Handled) (neighbour : Neighbour) : Prop :=
  ∃ sw, tup.stcp.switchAt neighbour.ref = some sw ∧
    outcome = .ok
      ⟨false,
        { tup with
          stcp := tup.stcp.changeSwitch neighbour.ref fun sw =>
            { sw with mailbox := queueData sw.mailbox pkt excess } }, [.tcp sw.slot
          (rsPkt (queryTo resolver tup sw).1 (queryTo resolver tup sw).2 .queryPacket)]⟩

def ForwardsToLongest (tup : RTUp) (pkt : List UInt8) (excess : Option (List UInt8))
    (outcome : Except Fault Handled) : Prop :=
  ∃ neighbour ∈ neighbours resolver tup.stcp,
    (∀ other ∈ neighbours resolver tup.stcp,
      sharedBits (destIp pkt) other ≤ sharedBits (destIp pkt) neighbour) ∧
    Forwards resolver tup pkt excess outcome neighbour

/-- If the first neighbour with the most bits is the client whose buffer holds the
packet, the packet carries the addresses of the question already. -/
def Undisturbed (tup : RTUp) (origin : Option Nat) (pkt : List UInt8) : Prop :=
  ∀ neighbour sw,
    (neighbours resolver tup.stcp).argmax (sharedBits (destIp pkt)) = some neighbour →
    tup.stcp.switchAt neighbour.ref = some sw → origin = some sw.slot →
      srcIp pkt = (queryTo resolver tup sw).1 ∧ destIp pkt = (queryTo resolver tup sw).2

def queuedPacket (tup : RTUp) (origin : Option Nat) (pkt : List UInt8) (sw : RSwitch) :
    List UInt8 :=
  if origin = some sw.slot then
    overwrite pkt (rsPkt (queryTo resolver tup sw).1 (queryTo resolver tup sw).2 .queryPacket)
  else pkt

theorem forward_to_eq {tup : RTUp} (origin : Option Nat) {ref : SwitchRef} (pkt : List UInt8)
    (excess : Option (List UInt8)) {sw : RSwitch} (there : tup.stcp.switchAt ref = some sw) :
    forwardTo resolver tup origin ref pkt excess = .ok
      ⟨false,
        { tup with
          stcp := tup.stcp.changeSwitch ref fun item =>
            { item with
              mailbox := queueData item.mailbox (queuedPacket resolver tup origin pkt sw) excess } },
        [.tcp sw.slot
          (rsPkt (queryTo resolver tup sw).1 (queryTo resolver tup sw).2 .queryPacket)]⟩ := by
  have asked : (if sw.conlist then rsPkt (destIp sw.assign) (srcIp sw.assign) .queryPacket
      else rsPkt (resolver.inetAddr tup.stcp.name) (resolver.inetAddr sw.ipName) .queryPacket) =
        rsPkt (queryTo resolver tup sw).1 (queryTo resolver tup sw).2 .queryPacket := by
    unfold queryTo
    split_ifs <;> rfl
  unfold forwardTo
  rw [there]
  simp only [present, bind, Except.bind, asked]
  rfl

theorem queued_packet_iff (tup : RTUp) (origin : Option Nat) (pkt : List UInt8) (sw : RSwitch)
    (mailbox : List (List UInt8)) (excess : Option (List UInt8)) :
    queueData mailbox (queuedPacket resolver tup origin pkt sw) excess =
        queueData mailbox pkt excess ↔ (origin = some sw.slot →
        srcIp pkt = (queryTo resolver tup sw).1 ∧ destIp pkt = (queryTo resolver tup sw).2) := by
  unfold queuedPacket
  split_ifs with own
  · rw [queue_overwritten_iff]
    exact ⟨fun same _ => same, fun same => same own⟩
  · simp [own]

/-- What is queued for a switch tells to whom it was queued and in which form. -/
theorem change_mailbox_inj {ref other : SwitchRef} {sw : RSwitch} {queued pkt : List UInt8}
    {excess : Option (List UInt8)} (there : stp.switchAt ref = some sw)
    (same : stp.changeSwitch ref (fun sw =>
      { sw with mailbox := queueData sw.mailbox queued excess }) =
      stp.changeSwitch other (fun sw =>
      { sw with mailbox := queueData sw.mailbox pkt excess })) :
    queueData sw.mailbox queued excess = queueData sw.mailbox pkt excess := by
  have seen := congrArg (fun side => side.switchAt ref) same
  simp only [switch_at_change, if_true, there, Option.map_some] at seen
  split_ifs at seen with here
  · exact (RSwitch.mk.inj (Option.some.inj seen)).2.2.2.2.2.1
  · -- the other switch leaves this mailbox as it is, but a packet has been added
    have mailbox := (RSwitch.mk.inj (Option.some.inj seen)).2.2.2.2.2.1
    obtain ⟨packet, rest, appended, _⟩ := queue_data_first sw.mailbox queued excess
    have grown := congrArg List.length (appended.symm.trans mailbox)
    simp at grown

/-- Without a learned and a mapped route, a packet for another switch is forwarded
to a neighbour with the most leading bits exactly if there is a con list or a
neighbour that shares a bit, and the packet is not disturbed by the question. -/
theorem fallback_forwards_iff (tup : RTUp) (origin : Option Nat) (pkt : List UInt8)
    (excess : Option (List UInt8)) (elsewhere : rsSvrTcpForMe resolver tup (destIp pkt) = false)
    (unlearned : rTabelFind tup.stcp.tabel (destIp pkt) = none)
    (unmapped : routeByMap resolver tup.stcp (destIp pkt) = none) :
    ForwardsToLongest resolver tup pkt excess
        (rsSvrTcpRouteHandle resolver tup origin pkt excess) ↔
      HasCandidate resolver tup.stcp (destIp pkt) ∧ Undisturbed resolver tup origin pkt := by
  have routed : routeTo resolver tup.stcp (destIp pkt) =
      routeByPrefix resolver tup.stcp (destIp pkt) := by
    simp only [routeTo, unlearned, unmapped]
  rw [rsSvrTcpRouteHandle, if_neg (by rw [elsewhere]; decide), routed]
  by_cases candidate : HasCandidate resolver tup.stcp (destIp pkt)
  · obtain ⟨best, most, found⟩ := route_of_candidate resolver tup.stcp (destIp pkt) candidate
    obtain ⟨sw, there⟩ := neighbour_present resolver tup.stcp best (List.argmax_mem most)
    rw [found]
    dsimp only
    rw [forward_to_eq resolver origin pkt excess there]
    constructor
    · rintro ⟨other, _, _, otherSwitch, _, outcome⟩
      refine ⟨candidate, ?_⟩
      intro neighbour switch same at_ref
      rw [most, Option.some.injEq] at same
      rw [← same, there, Option.some.injEq] at at_ref
      rw [← at_ref]
      have states := (Handled.mk.inj (Except.ok.inj outcome)).2.1
      have lists := congrArg RTUp.stcp states
      exact (queued_packet_iff resolver tup origin pkt sw sw.mailbox excess).mp
        (change_mailbox_inj there lists)
    · rintro ⟨_, undisturbed⟩
      have plain (mailbox : List (List UInt8)) :=
        (queued_packet_iff resolver tup origin pkt sw mailbox excess).mpr
          (undisturbed best sw most there)
      refine ⟨best, List.argmax_mem most, ?_, sw, there, ?_⟩
      · intro other member
        exact List.le_of_mem_argmax member most
      · simp only [plain]
  · have dropped := no_route_of_no_candidate resolver tup.stcp (destIp pkt) candidate
    rw [dropped]
    constructor
    · rintro ⟨_, _, _, _, _, outcome⟩
      have sent := (Handled.mk.inj (Except.ok.inj outcome)).2.2
      cases sent
    · rintro ⟨present, _⟩
      exact absurd present candidate

end

/-- A switch of both kinds that one other switch, 10.0.0.2, has connected to. -/
def oneIncoming : RTUp :=
  let tup := rTupStdSetup (some (rIpopOpToStr ⟨192, 168, 1, 1⟩, 24))
    (some (rIpopOpToStr ⟨10, 0, 0, 1⟩, 24)) 0 0
  { tup with stcp := rSrvTcpSwitchAppend tup.stcp ⟨1, 5, [], []⟩ false [] }

def payloadFor (dest : RIPsingle) : List UInt8 :=
  rsPkt ⟨192, 168, 1, 2⟩ dest .dataPayload ++ [104, 105]

/-- A packet of a local client for 192.168.0.1, which shares no leading bit with the
only neighbour, is dropped. -/
theorem packet_dropped_beside_neighbour :
    neighbours plainResolver oneIncoming.stcp = [⟨headRef 0, ⟨10, 0, 0, 2⟩⟩] ∧
      rsSvrTcpForMe plainResolver oneIncoming ⟨192, 168, 0, 1⟩ = false ∧
      rTabelFind oneIncoming.stcp.tabel ⟨192, 168, 0, 1⟩ = none ∧
      routeByMap plainResolver oneIncoming.stcp ⟨192, 168, 0, 1⟩ = none ∧
      rsSvrTcpRouteHandle plainResolver oneIncoming none (payloadFor ⟨192, 168, 0, 1⟩) none =
        .ok ⟨false, oneIncoming, []⟩ ∧
      ¬ ForwardsToLongest plainResolver oneIncoming (payloadFor ⟨192, 168, 0, 1⟩) none
        (rsSvrTcpRouteHandle plainResolver oneIncoming none (payloadFor ⟨192, 168, 0, 1⟩) none) := by
  have listed : neighbours plainResolver oneIncoming.stcp = [⟨headRef 0, ⟨10, 0, 0, 2⟩⟩] := by
    decide
  have elsewhere : rsSvrTcpForMe plainResolver oneIncoming ⟨192, 168, 0, 1⟩ = false := by decide
  have unrouted : routeTo plainResolver oneIncoming.stcp ⟨192, 168, 0, 1⟩ = none := by decide
  have dropped : rsSvrTcpRouteHandle plainResolver oneIncoming none
      (payloadFor ⟨192, 168, 0, 1⟩) none = .ok ⟨false, oneIncoming, []⟩ := by
    have address : destIp (payloadFor ⟨192, 168, 0, 1⟩) = ⟨192, 168, 0, 1⟩ := rfl
    rw [rsSvrTcpRouteHandle, address, elsewhere, unrouted]
    rfl
  refine ⟨listed, elsewhere, rfl, rfl, dropped, ?_⟩
  rw [dropped]
  rintro ⟨_, _, _, _, _, outcome⟩
  have sent := (Handled.mk.inj (Except.ok.inj outcome)).2.2
  cases sent

/-- For 11.0.0.1 the same switch has a neighbour to forward to. -/
theorem packet_forwarded_to_incoming :
    ForwardsToLongest plainResolver oneIncoming (payloadFor ⟨11, 0, 0, 1⟩) none
      (rsSvrTcpRouteHandle plainResolver oneIncoming none (payloadFor ⟨11, 0, 0, 1⟩) none) := by
  have shares : 0 < sharedBits ⟨11, 0, 0, 1⟩ ⟨headRef 0, ⟨10, 0, 0, 2⟩⟩ := by decide
  apply (fallback_forwards_iff plainResolver oneIncoming none (payloadFor ⟨11, 0, 0, 1⟩) none
    (by decide) rfl rfl).mpr
  refine ⟨Or.inr ⟨⟨headRef 0, ⟨10, 0, 0, 2⟩⟩, by decide, shares⟩, ?_⟩
  intro neighbour sw _ _ own
  cases own

end Cprogramming.LinkLayer.Fallback
