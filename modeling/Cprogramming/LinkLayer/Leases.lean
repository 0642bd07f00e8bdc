import Mathlib.Tactic.Common
import Cprogramming.Library.Runs
import Cprogramming.LinkLayer.Handlers

/-!
# Leases

A client asks with a DISCOVERY packet, is offered an address and is recorded as
an adaptor under an address. The offer is made without the test of the range and
the record with it, and a record that fails is kept with the address 0.0.0.0.
-/

namespace Cprogramming.LinkLayer.Leases

open Library.Runs
open Addresses Handlers Packets Switch

set_option autoImplicit false

structure Discovery where
  client : RSock
  excess : Option (List UInt8)
  asks : rspktModeChk (excess.getD client.buf) .discovery = true

/-- The switch and the offers it has sent: to which address of a client, and
which address. -/
structure Desk where
  tup : RTUp
  offers : List (List UInt8 × RIPsingle)

def offerOf : Output → Option (List UInt8 × RIPsingle)
  | .udp addr bytes => some (addr, assignIp bytes)
  | _ => none

def step (resolver : Resolver) (desk : Desk) (packet : Discovery) : Desk :=
  match rsSvrUdpHandle resolver desk.tup packet.client packet.excess with
  | .ok handled => ⟨handled.tup, desk.offers ++ handled.sent.filterMap offerOf⟩
  | .error _ => desk

/-- The leases are distinct addresses of the block, each is what its client was
offered, and a REQUEST for an offer finds its adaptor. -/
structure LeasesSound (name : List UInt8) (subnet : Nat) (desk : Desk) : Prop where
  distinct : (desk.tup.sudp.adaptors.map RAdaptor.ipName).Nodup
  inside : ∀ adaptor ∈ desk.tup.sudp.adaptors, ∃ ip, adaptor.ipName = rIpopOpToStr ip ∧
    sameBlock subnet ip (rIpopStrToOp name) = true
  offered : desk.tup.sudp.adaptors.map (fun adaptor => (adaptor.addr, adaptor.ipName)) =
    desk.offers.map fun offer => (offer.1, rIpopOpToStr offer.2)
  requested : ∀ index offer, desk.offers[index]? = some offer →
    rsSvrUdpFindAdaptorIp desk.tup.sudp.adaptors offer.2 = some index

def Available (desk : Desk) (_ : Discovery) : Prop :=
  desk.tup.sudp.ipOp.ipCur ≠ lastAddress ∧
    inRange (following desk.tup.sudp.ipOp.ipCur) desk.tup.sudp.ipOp.ipMax = true

/-! ## One packet -/

def recorded (op : RIPop) : RIPsingle :=
  if inRange (following op.ipCur) op.ipMax then following op.ipCur else noAddress

theorem udp_discovery_offer (resolver : Resolver) (desk : Desk) (packet : Discovery) :
    (step resolver desk packet).offers =
      desk.offers ++ [(packet.client.addr, following desk.tup.sudp.ipOp.ipCur)] := by
  simp only [step, rsSvrUdpHandle, packet.asks, if_true, udpDiscovery, List.filterMap_cons, offerOf,
    List.filterMap_nil, rIpopAssignIp, resolver.reads]
  rfl

theorem udp_discovery_adaptors (resolver : Resolver) (desk : Desk) (packet : Discovery) :
    ∃ buf, (step resolver desk packet).tup.sudp.adaptors = desk.tup.sudp.adaptors ++
      [⟨packet.client.addr, recorded desk.tup.sudp.ipOp,
        rIpopOpToStr (recorded desk.tup.sudp.ipOp), buf, []⟩] := by
  simp only [step, rsSvrUdpHandle, packet.asks, if_true, udpDiscovery, rSrvUdpAdaptorAppend,
    rIpopAssignIp, recorded, noAddress]
  split_ifs <;> exact ⟨_, rfl⟩

theorem udp_discovery_op (resolver : Resolver) (desk : Desk) (packet : Discovery) :
    (step resolver desk packet).tup.sudp.ipOp =
      if inRange (following desk.tup.sudp.ipOp.ipCur) desk.tup.sudp.ipOp.ipMax then
        { desk.tup.sudp.ipOp with ipCur := following desk.tup.sudp.ipOp.ipCur }
      else desk.tup.sudp.ipOp := by
  simp only [step, rsSvrUdpHandle, packet.asks, if_true, udpDiscovery, rSrvUdpAdaptorAppend,
    rIpopAssignIp]
  split_ifs <;> rfl

/-! ## The allocator and the adaptors -/

/-- What holds of the allocator whether or not its block is exhausted. -/
structure Handed (name : List UInt8) (subnet : Nat) (desk : Desk) : Prop where
  limit : desk.tup.sudp.ipOp.ipMax = (allocator name subnet).ipMax
  above : (rIpopStrToOp name).number ≤ desk.tup.sudp.ipOp.ipCur.number
  named : ∀ adaptor ∈ desk.tup.sudp.adaptors, adaptor.ipName = rIpopOpToStr adaptor.ipBox
  below : ∀ adaptor ∈ desk.tup.sudp.adaptors, adaptor.ipBox.number ≤ desk.tup.sudp.ipOp.ipCur.number
  latest : desk.tup.sudp.ipOp.ipCur = rIpopStrToOp name ∨
    ∃ adaptor ∈ desk.tup.sudp.adaptors, adaptor.ipBox = desk.tup.sudp.ipOp.ipCur

theorem following_not_zero (cur : RIPsingle) : following cur ≠ noAddress := by
  intro zero
  by_cases last : cur = lastAddress
  · rw [last, following_last] at zero
    exact absurd zero (by decide)
  · have above := following_above cur last
    rw [zero] at above
    exact absurd above (Nat.not_lt_zero _)

section

variable (resolver : Resolver) (name : List UInt8) (subnet : Nat)

variable (desk : Desk) (packet : Discovery)

theorem step_handed (handed : Handed name subnet desk) :
    Handed name subnet (step resolver desk packet) := by
  obtain ⟨limit, above, named, below, latest⟩ := handed
  obtain ⟨buf, adaptors⟩ := udp_discovery_adaptors resolver desk packet
  have op := udp_discovery_op resolver desk packet
  have climbs := following_not_below desk.tup.sudp.ipOp.ipCur
  have nextNamed : ∀ adaptor ∈ (step resolver desk packet).tup.sudp.adaptors,
      adaptor.ipName = rIpopOpToStr adaptor.ipBox := by
    intro adaptor member
    rw [adaptors, List.mem_append, List.mem_singleton] at member
    rcases member with old | rfl
    · exact named adaptor old
    · rfl
  cases ranged : inRange (following desk.tup.sudp.ipOp.ipCur) desk.tup.sudp.ipOp.ipMax with
  | true =>
    rw [ranged, if_pos rfl] at op
    have box : recorded desk.tup.sudp.ipOp = following desk.tup.sudp.ipOp.ipCur := if_pos ranged
    refine ⟨by rw [op, limit], ?_, nextNamed, ?_, Or.inr ?_⟩
    · rw [op]
      exact above.trans climbs
    · intro adaptor member
      rw [adaptors, List.mem_append, List.mem_singleton] at member
      rw [op]
      rcases member with old | rfl
      · exact (below adaptor old).trans climbs
      · dsimp only
        rw [box]
    · rw [adaptors, op]
      exact ⟨_, List.mem_append_right _ (List.mem_singleton.mpr rfl), box⟩
  | false =>
    rw [ranged, if_neg (by decide)] at op
    have box : recorded desk.tup.sudp.ipOp = noAddress := by simp [recorded, ranged]
    refine ⟨by rw [op, limit], by simpa only [op] using above, nextNamed, ?_, ?_⟩
    · intro adaptor member
      rw [adaptors, List.mem_append, List.mem_singleton] at member
      rw [op]
      rcases member with old | rfl
      · exact below adaptor old
      · dsimp only
        rw [box]
        exact Nat.zero_le _
    · rw [op, adaptors]
      exact latest.imp_right fun ⟨adaptor, member, same⟩ =>
        ⟨adaptor, List.mem_append_left _ member, same⟩

/-! ## The leases -/

theorem find_of_distinct {adaptors : List RAdaptor} {index : Nat} {adaptor : RAdaptor}
    {ip : RIPsingle} (distinct : (adaptors.map RAdaptor.ipName).Nodup)
    (at_index : adaptors[index]? = some adaptor) (names : adaptor.ipName = rIpopOpToStr ip) :
    rsSvrUdpFindAdaptorIp adaptors ip = some index := by
  obtain ⟨bound, same⟩ := List.getElem?_eq_some_iff.mp at_index
  rw [rsSvrUdpFindAdaptorIp, List.findIdx?_eq_some_iff_getElem]
  refine ⟨bound, by simp [same, names], ?_⟩
  intro earlier before found
  have twice : (adaptors.map RAdaptor.ipName)[earlier]? = (adaptors.map RAdaptor.ipName)[index]? := by
    rw [List.getElem?_map, List.getElem?_map, at_index,
      List.getElem?_eq_getElem (before.trans bound), Option.map_some, Option.map_some, names]
    exact congrArg some (beq_iff_eq.mp found)
  have equal := (List.getElem?_inj (by simpa using before.trans bound) distinct).mp twice
  omega

theorem find_offered {desk : Desk} {index : Nat} {offer : List UInt8 × RIPsingle}
    (distinct : (desk.tup.sudp.adaptors.map RAdaptor.ipName).Nodup)
    (offered : desk.tup.sudp.adaptors.map (fun adaptor => (adaptor.addr, adaptor.ipName)) =
      desk.offers.map fun offer => (offer.1, rIpopOpToStr offer.2))
    (sent : desk.offers[index]? = some offer) :
    rsSvrUdpFindAdaptorIp desk.tup.sudp.adaptors offer.2 = some index := by
  have both := congrArg (fun pairs => pairs[index]?) offered
  simp only [List.getElem?_map, sent, Option.map_some] at both
  obtain ⟨adaptor, found, same⟩ := Option.map_eq_some_iff.mp both
  exact find_of_distinct distinct found (congrArg Prod.snd same)

theorem step_leases_sound (handed : Handed name subnet desk)
    (sound : LeasesSound name subnet desk) (available : Available desk packet) :
    LeasesSound name subnet (step resolver desk packet) := by
  obtain ⟨buf, adaptors⟩ := udp_discovery_adaptors resolver desk packet
  have offers := udp_discovery_offer resolver desk packet
  have box : recorded desk.tup.sudp.ipOp = following desk.tup.sudp.ipOp.ipCur :=
    if_pos available.2
  rw [box] at adaptors
  have climbs := following_above desk.tup.sudp.ipOp.ipCur available.1
  have distinct : ((step resolver desk packet).tup.sudp.adaptors.map RAdaptor.ipName).Nodup := by
    rw [adaptors, List.map_append, List.map_singleton]
    refine List.nodup_append.mpr ⟨sound.distinct, by simp, ?_⟩
    intro leased member fresh new same
    obtain ⟨adaptor, old, rfl⟩ := List.mem_map.mp member
    rw [List.mem_singleton.mp new, handed.named adaptor old] at same
    have bound := handed.below adaptor old
    rw [op_to_str_injective same] at bound
    omega
  have offered : (step resolver desk packet).tup.sudp.adaptors.map
      (fun adaptor => (adaptor.addr, adaptor.ipName)) =
        (step resolver desk packet).offers.map fun offer => (offer.1, rIpopOpToStr offer.2) := by
    rw [adaptors, offers, List.map_append, List.map_append, sound.offered]
    rfl
  refine ⟨distinct, ?_, offered, fun index offer => find_offered distinct offered⟩
  intro adaptor member
  rw [adaptors, List.mem_append, List.mem_singleton] at member
  rcases member with old | rfl
  · exact sound.inside adaptor old
  · refine ⟨_, rfl, allocated_in_block name subnet _ ?_ ?_⟩
    · rw [← handed.limit]
      exact available.2
    · exact handed.above.trans (Nat.le_of_lt climbs)

/-- A packet that finds no address left is offered one that is not recorded, or
one that another client has. -/
theorem available_of_step_leases_sound (handed : Handed name subnet desk)
    (good : rIpopStrValidateGood name = true) (sound : LeasesSound name subnet desk)
    (next : LeasesSound name subnet (step resolver desk packet)) : Available desk packet := by
  obtain ⟨buf, adaptors⟩ := udp_discovery_adaptors resolver desk packet
  have offers := udp_discovery_offer resolver desk packet
  have ranged : inRange (following desk.tup.sudp.ipOp.ipCur) desk.tup.sudp.ipOp.ipMax = true := by
    by_contra outside
    have box : recorded desk.tup.sudp.ipOp = noAddress := if_neg outside
    have offered := next.offered
    rw [adaptors, offers, List.map_append, List.map_append, sound.offered,
      List.append_cancel_left_eq, box] at offered
    simp only [List.map_cons, List.map_nil, List.cons.injEq, Prod.mk.injEq, and_true] at offered
    exact following_not_zero _ (op_to_str_injective offered.2).symm
  refine ⟨?_, ranged⟩
  intro last
  have box : recorded desk.tup.sudp.ipOp = lastAddress := by
    rw [recorded, if_pos ranged, last, following_last]
  rcases handed.latest with base | ⟨adaptor, member, same⟩
  · exact accepted_not_last name good (base.symm.trans last)
  · have distinct := next.distinct
    rw [adaptors, List.map_append, List.map_singleton, box] at distinct
    refine (List.nodup_append.mp distinct).2.2 _ (List.mem_map_of_mem member) _
      (List.mem_singleton.mpr rfl) ?_
    rw [handed.named adaptor member, same, last]

end

/-- Along every run of DISCOVERY packets of an accepted configuration the leases
are sound exactly when each packet finds an address left. -/
theorem leases_sound_throughout_iff (resolver : Resolver) (name : List UInt8) (subnet : Int)
    (tup : RTUp) (accepted : rSvrUdpInit name subnet = some tup.sudp)
    (packets : List Discovery) :
    Throughout (step resolver) (LeasesSound name subnet.toNat) ⟨tup, []⟩ packets ↔
      EachStep (step resolver) Available ⟨tup, []⟩ packets := by
  simp only [rSvrUdpInit] at accepted
  split_ifs at accepted with bounds good
  obtain ⟨⟩ := tup
  cases accepted
  refine throughout_iff_of_invariant (step resolver) (Handed name subnet.toNat) _ _
    (step_handed resolver name subnet.toNat) ?_ _ ?_ ?_ packets
  · intro desk packet handed sound
    exact ⟨available_of_step_leases_sound resolver name subnet.toNat desk packet handed good sound,
      step_leases_sound resolver name subnet.toNat desk packet handed sound⟩
  · exact ⟨rfl, Nat.le_refl _, by simp, by simp, Or.inl (allocator_cur name subnet.toNat)⟩
  · exact ⟨List.nodup_nil, by simp, rfl, by simp⟩

def asking : Discovery where
  client := ⟨1, 4, [2, 0, 31, 144, 127, 0, 0, 1], rGreet noAddress noAddress .discovery noAddress⟩
  excess := none
  asks := rfl

/-- A switch whose local side is 192.168.0.1 with a prefix of the given length. -/
def home (subnet : Int) : RTUp :=
  rTupStdSetup (some ([49, 57, 50, 46, 49, 54, 56, 46, 48, 46, 49], subnet)) none 0 0

theorem two_leases_sound :
    Throughout (step plainResolver)
      (LeasesSound [49, 57, 50, 46, 49, 54, 56, 46, 48, 46, 49] 24) ⟨home 24, []⟩ [asking, asking] := by
  refine (leases_sound_throughout_iff plainResolver _ 24 (home 24) rfl [asking, asking]).mpr ?_
  exact ⟨⟨by decide +kernel, by decide +kernel⟩, ⟨by decide +kernel, by decide +kernel⟩, trivial⟩

/-- In a block of one address the first client is offered 192.168.0.2 and is
recorded under 0.0.0.0. -/
theorem exhausted_block_offers :
    rSvrUdpInit [49, 57, 50, 46, 49, 54, 56, 46, 48, 46, 49] 32 = some (home 32).sudp ∧
      ¬ Throughout (step plainResolver)
        (LeasesSound [49, 57, 50, 46, 49, 54, 56, 46, 48, 46, 49] 32) ⟨home 32, []⟩ [asking] := by
  refine ⟨rfl, ?_⟩
  intro held
  exact absurd held.2.offered (by decide +kernel)

end Cprogramming.LinkLayer.Leases
