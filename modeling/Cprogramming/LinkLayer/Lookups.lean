import Mathlib.Tactic.Common
import Cprogramming.Library.Runs
import Cprogramming.LinkLayer.Handlers

/-!
# Lookups

The handlers look for a switch, an adaptor or the first packet of a mailbox and
use what they find, some of them without a test. A run of packets is free of the
use of an absent result exactly when every packet of it can be answered.
-/

namespace Cprogramming.LinkLayer.Lookups

open Library.Runs
open Addresses Handlers Packets Switch

set_option autoImplicit false

/-- What the main loop hands to the switch: a packet of another switch, a
datagram of a client, a connection that it has opened. -/
inductive Event where
  | tcp (client : RSock)
  | udp (client : RSock) (excess : Option (List UInt8))
  | establish (client : RSock) (written : Bool)

def handle (resolver : Resolver) (tup : RTUp) : Event → Except Fault Handled
  | .tcp client => rsSvrTcpHandle resolver tup client
  | .udp client excess =>
    -- there is no socket to read a datagram from unless the local side is on
    if tup.localOn then rsSvrUdpHandle resolver tup client excess else .ok ⟨false, tup, []⟩
  | .establish client written => .ok (rsSvrTcpEstablish tup client written)

def step (resolver : Resolver) (state : Except Fault RTUp) (event : Event) : Except Fault RTUp := do
  let handled ← handle resolver (← state) event
  .ok handled.tup

/-- No absent result of a lookup has been used. -/
def LookupsPresent (state : Except Fault RTUp) : Prop := state ≠ .error .absent

def accepter (stp : RSrvTcp) (pkt : List UInt8) : Option RSwitch :=
  (stp.head.find? fun sw => sw.ipName == rIpopOpToStr (srcIp pkt)).or
    (stp.headCon.find? fun sw => sw.ipName == rIpopOpToStr (destIp pkt))

/-- An OFFER or ACKNOWLEDGE comes from an address that a connection of this
switch is still recorded under, a LOCATION_SEND from a switch that is known, and
a QUERY_ACCEPT from one that packets wait for. -/
structure TcpAnswerable (stp : RSrvTcp) (client : RSock) : Prop where
  greeted : rspktModeChk client.buf .offer = true ∨ rspktModeChk client.buf .acknowledge = true →
    ∃ sw ∈ stp.headCon, sw.buf.take client.addr.length = client.addr
  located : rspktModeChk client.buf .locationSend = true →
    (∃ sw ∈ stp.head, sw.ipName = rIpopOpToStr (srcIp client.buf)) ∨
      ∃ sw ∈ stp.headCon, srcIp sw.assign = srcIp client.buf
  waiting : rspktModeChk client.buf .queryAccept = true →
    ∀ sw, accepter stp client.buf = some sw → sw.mailbox ≠ []

/-- A QUERY_ACCEPT comes from a client that packets wait for. -/
def UdpAnswerable (sup : RSrvUdp) (pkt : List UInt8) : Prop :=
  rspktModeChk pkt .queryAccept = true →
    ∀ adaptor, (sup.adaptors.find? fun adaptor => adaptor.ipName == rIpopOpToStr (srcIp pkt)) =
      some adaptor → adaptor.mailbox ≠ []

def Answerable (tup : RTUp) : Event → Prop
  | .tcp client => TcpAnswerable tup.stcp client
  | .udp client excess => tup.localOn = true → UdpAnswerable tup.sudp (excess.getD client.buf)
  | .establish _ _ => True

def Answered (state : Except Fault RTUp) (event : Event) : Prop :=
  ∀ tup, state = .ok tup → Answerable tup event

/-! ## Switches are not taken away -/

def Linked (stp : RSrvTcp) : Prop := ∀ entry ∈ stp.tabel, (stp.switchAt entry.2).isSome

/-- The lists only grow, and what is learned points into them. -/
structure Grows (old new : RSrvTcp) : Prop where
  head : old.head.length ≤ new.head.length
  headCon : old.headCon.length ≤ new.headCon.length
  tabel : ∀ entry ∈ new.tabel, entry ∈ old.tabel ∨ (old.switchAt entry.2).isSome

theorem switch_at_is_some (stp : RSrvTcp) (ref : SwitchRef) :
    (stp.switchAt ref).isSome ↔
      ref.index < if ref.conlist then stp.headCon.length else stp.head.length := by
  unfold RSrvTcp.switchAt
  split_ifs <;> simp

theorem Grows.switch_at {old new : RSrvTcp} (grows : Grows old new) (ref : SwitchRef)
    (there : (old.switchAt ref).isSome) : (new.switchAt ref).isSome := by
  rw [switch_at_is_some] at there ⊢
  have head := grows.head
  have headCon := grows.headCon
  split_ifs at there ⊢ <;> omega

theorem Grows.linked {old new : RSrvTcp} (grows : Grows old new) (linked : Linked old) :
    Linked new := by
  intro entry member
  rcases grows.tabel entry member with known | learned
  · exact grows.switch_at entry.2 (linked entry known)
  · exact grows.switch_at entry.2 learned

theorem grows_of_same {old new : RSrvTcp} (head : new.head.length = old.head.length)
    (headCon : new.headCon.length = old.headCon.length) (tabel : new.tabel = old.tabel) :
    Grows old new := by
  exact ⟨Nat.le_of_eq head.symm, Nat.le_of_eq headCon.symm,
    fun entry member => Or.inl (tabel ▸ member)⟩

theorem grows_refl (stp : RSrvTcp) : Grows stp stp := by
  exact grows_of_same rfl rfl rfl

theorem Grows.trans {first second third : RSrvTcp} (early : Grows first second)
    (late : Grows second third) (kept : second.head.length = first.head.length)
    (keptCon : second.headCon.length = first.headCon.length) : Grows first third := by
  refine ⟨early.head.trans late.head, early.headCon.trans late.headCon, ?_⟩
  intro entry member
  rcases late.tabel entry member with known | learned
  · exact early.tabel entry known
  · right
    rw [switch_at_is_some] at learned ⊢
    rwa [← kept, ← keptCon]

theorem change_switch_lengths (stp : RSrvTcp) (ref : SwitchRef) (change : RSwitch → RSwitch) :
    (stp.changeSwitch ref change).head.length = stp.head.length ∧
      (stp.changeSwitch ref change).headCon.length = stp.headCon.length ∧
        (stp.changeSwitch ref change).tabel = stp.tabel := by
  unfold RSrvTcp.changeSwitch
  split_ifs <;> simp

theorem grows_change_switch (stp : RSrvTcp) (ref : SwitchRef) (change : RSwitch → RSwitch) :
    Grows stp (stp.changeSwitch ref change) := by
  obtain ⟨head, headCon, tabel⟩ := change_switch_lengths stp ref change
  exact grows_of_same head headCon tabel

theorem grows_append (stp : RSrvTcp) (client : RSock) (con : Bool) (buf : List UInt8) :
    Grows stp (rSrvTcpSwitchAppend stp client con buf) := by
  unfold rSrvTcpSwitchAppend
  split_ifs <;> exact ⟨by simp, by simp, fun _ member => Or.inl member⟩

/-! ## What a handler does -/

/-- A handler uses no absent result exactly under the condition, and its switches
stay. -/
structure Outcome (tup : RTUp) (result : Except Fault Handled) (condition : Prop) : Prop where
  present : result ≠ .error .absent ↔ condition
  grows : ∀ handled, result = .ok handled → Grows tup.stcp handled.tup.stcp

theorem outcome_ok (tup : RTUp) (handled : Handled) (grows : Grows tup.stcp handled.tup.stcp) :
    Outcome tup (.ok handled) True := by
  refine ⟨by simp, ?_⟩
  rintro other same
  cases same
  exact grows

theorem outcome_present {Item : Type} (tup : RTUp) (found : Option Item)
    (rest : Item → Except Fault Handled) (condition : Prop)
    (absent : found = none → ¬ condition)
    (use : ∀ item, found = some item → Outcome tup (rest item) condition) :
    Outcome tup (present found >>= rest) condition := by
  cases found with
  | none =>
    refine ⟨?_, ?_⟩
    · exact ⟨fun other => absurd rfl other, fun holds => absurd holds (absent rfl)⟩
    · intro handled same
      cases same
  | some item => exact use item rfl

theorem outcome_host {tup : RTUp} (stp : RSrvTcp) (rest : List UInt8 → Except Fault Handled)
    (use : ∀ host, Outcome tup (rest host) True) : Outcome tup (tboxHost stp >>= rest) True := by
  unfold tboxHost
  cases stp.host with
  | none =>
    refine ⟨⟨fun _ => trivial, ?_⟩, ?_⟩
    · intro _ same
      cases same
    · intro handled same
      cases same
  | some host => exact use host

theorem Outcome.congr {tup : RTUp} {result : Except Fault Handled} {left right : Prop}
    (outcome : Outcome tup result left) (same : left ↔ right) : Outcome tup result right := by
  exact ⟨outcome.present.trans same, outcome.grows⟩

/-! ## What a lookup finds is there -/

variable {index : Nat} {stp : RSrvTcp} {ref : SwitchRef}

theorem find_idx_bound {Item : Type} (picks : Item → Bool) {items : List Item}
    (found : items.findIdx? picks = some index) : index < items.length := by
  exact (List.findIdx?_eq_some_iff_getElem.mp found).1

theorem find_idx_none {Item : Type} (picks : Item → Bool) {items : List Item}
    (absent : items.findIdx? picks = none) : ¬ ∃ item ∈ items, picks item = true := by
  rintro ⟨item, member, picked⟩
  exact absurd picked (by simp [List.findIdx?_eq_none_iff.mp absent item member])

theorem get_find_idx {Item : Type} (picks : Item → Bool) (items : List Item) :
    ((items.findIdx? picks).bind fun index => items[index]?) = items.find? picks := by
  induction items with
  | nil => rfl
  | cons item rest ih =>
    rw [List.findIdx?_cons, List.find?_cons]
    cases picks item with
    | true => rfl
    | false =>
      rw [← ih]
      cases rest.findIdx? picks <;> simp

theorem last_index_spec {Item : Type} (picks : Item → Bool) {items : List Item}
    (found : lastIndex picks items = some index) :
    index < items.length ∧ ∃ item ∈ items, picks item = true := by
  obtain ⟨pair, last, rfl⟩ := Option.map_eq_some_iff.mp found
  obtain ⟨member, picked⟩ := List.mem_filter.mp (List.mem_of_getLast? last)
  have at_index := List.mk_mem_zipIdx_iff_getElem?.mp member
  exact ⟨(List.getElem?_eq_some_iff.mp at_index).1, pair.1, List.mem_of_getElem? at_index, picked⟩

theorem last_index_none {Item : Type} (picks : Item → Bool) {items : List Item}
    (absent : lastIndex picks items = none) : ¬ ∃ item ∈ items, picks item = true := by
  rintro ⟨item, member, picked⟩
  obtain ⟨index, at_index⟩ := List.getElem?_of_mem member
  rw [lastIndex, Option.map_eq_none_iff, List.getLast?_eq_none_iff, List.filter_eq_nil_iff] at absent
  exact absent (item, index) (List.mk_mem_zipIdx_iff_getElem?.mpr at_index) picked

theorem con_ref_present (bound : index < stp.headCon.length) :
    (stp.switchAt (conRef index)).isSome := by
  rw [switch_at_is_some]
  simpa [conRef] using bound

theorem head_ref_present (bound : index < stp.head.length) :
    (stp.switchAt (headRef index)).isSome := by
  rw [switch_at_is_some]
  simpa [headRef] using bound

theorem head_or_con_present {head con : Option Nat}
    (headBound : ∀ index, head = some index → index < stp.head.length)
    (conBound : ∀ index, con = some index → index < stp.headCon.length)
    (found : headOrCon head con = some ref) : (stp.switchAt ref).isSome := by
  cases head with
  | some index =>
    cases found
    exact head_ref_present (headBound index rfl)
  | none =>
    obtain ⟨index, in_con, rfl⟩ := Option.map_eq_some_iff.mp found
    exact con_ref_present (conBound index in_con)

theorem sender_switch_present {client : RSock} (found : senderSwitch stp client = some ref) :
    (stp.switchAt ref).isSome := by
  exact head_or_con_present (fun index same => (last_index_spec _ same).1)
    (fun index same => (last_index_spec _ same).1) found

theorem accepting_switch_at (stp : RSrvTcp) (pkt : List UInt8) :
    (acceptingSwitch stp pkt).bind stp.switchAt = accepter stp pkt := by
  rw [acceptingSwitch, accepter, rsSvrTcpFindSwitchIp, rsSvrTcpFindSwitchIp,
    ← get_find_idx _ stp.head, ← get_find_idx _ stp.headCon]
  cases found : stp.head.findIdx? fun sw => sw.ipName == rIpopOpToStr (srcIp pkt) with
  | some index =>
    have bound := find_idx_bound _ found
    simp [headOrCon, RSrvTcp.switchAt, headRef, bound]
  | none =>
    cases stp.headCon.findIdx? fun sw => sw.ipName == rIpopOpToStr (destIp pkt) <;>
      simp [headOrCon, RSrvTcp.switchAt, conRef]

theorem accepting_switch_present {pkt : List UInt8} (found : acceptingSwitch stp pkt = some ref) :
    (stp.switchAt ref).isSome := by
  exact head_or_con_present (fun index => find_idx_bound _) (fun index => find_idx_bound _) found

/-! ## Routing -/

section

variable (resolver : Resolver)

theorem prefer_longer_fold (items : List (RSwitch × Nat)) (matched : RSwitch → Nat)
    (toRef : Nat → SwitchRef) (best : Nat × Option SwitchRef) (ref : SwitchRef)
    (found : (items.foldl (fun best pair => preferLonger best (matched pair.1) (toRef pair.2))
      best).2 = some ref) : best.2 = some ref ∨ ∃ pair ∈ items, ref = toRef pair.2 := by
  induction items generalizing best with
  | nil => exact Or.inl found
  | cons pair rest ih =>
    rcases ih _ found with earlier | ⟨other, member, same⟩
    · simp only [preferLonger] at earlier
      split_ifs at earlier
      · cases earlier
        exact Or.inr ⟨pair, by simp, rfl⟩
      · exact Or.inl earlier
    · exact Or.inr ⟨other, by simp [member], same⟩

theorem mem_zip_idx_bound {Item : Type} {items : List Item} {pair : Item × Nat}
    (member : pair ∈ items.zipIdx) : pair.2 < items.length := by
  exact (List.getElem?_eq_some_iff.mp (List.mk_mem_zipIdx_iff_getElem?.mp member)).1

theorem route_by_prefix_present (stp : RSrvTcp) (dest : RIPsingle) (ref : SwitchRef)
    (found : routeByPrefix resolver stp dest = some ref) : (stp.switchAt ref).isSome := by
  rcases prefer_longer_fold stp.head.zipIdx
    (fun sw => DistanceMap.rmapLongestPrefixMathing (resolver.inetAddr sw.ipName) dest) headRef _ ref
    found with fromCon | ⟨pair, member, rfl⟩
  · rcases prefer_longer_fold stp.headCon.zipIdx
      (fun sw => DistanceMap.rmapLongestPrefixMathing (srcIp sw.assign) dest) conRef _ ref
      fromCon with start | ⟨pair, member, rfl⟩
    · dsimp only at start
      split_ifs at start with empty
      cases start
      exact con_ref_present (List.length_pos_iff.mpr empty)
    · exact con_ref_present (mem_zip_idx_bound member)
  · exact head_ref_present (mem_zip_idx_bound member)

theorem route_by_map_present (stp : RSrvTcp) (dest : RIPsingle) (ref : SwitchRef)
    (found : routeByMap resolver stp dest = some ref) : (stp.switchAt ref).isSome := by
  simp only [routeByMap] at found
  split_ifs at found
  exact head_or_con_present (fun index => find_idx_bound _) (fun index => find_idx_bound _) found

theorem route_to_present (stp : RSrvTcp) (linked : Linked stp) (dest : RIPsingle) (ref : SwitchRef)
    (found : routeTo resolver stp dest = some ref) : (stp.switchAt ref).isSome := by
  unfold routeTo at found
  split at found
  next learned known =>
    cases found
    obtain ⟨entry, first, rfl⟩ := Option.map_eq_some_iff.mp known
    exact linked entry (List.mem_of_find?_eq_some first)
  next =>
    split at found
    next mapped known =>
      cases found
      exact route_by_map_present resolver stp dest ref known
    next => exact route_by_prefix_present resolver stp dest ref found

theorem route_handle_outcome (tup : RTUp) (linked : Linked tup.stcp) (origin : Option Nat)
    (pkt : List UInt8) (excess : Option (List UInt8)) :
    Outcome tup (rsSvrTcpRouteHandle resolver tup origin pkt excess) True := by
  unfold rsSvrTcpRouteHandle
  split_ifs
  · exact outcome_ok tup _ (grows_refl tup.stcp)
  · split
    next => exact outcome_ok tup _ (grows_refl tup.stcp)
    next ref found =>
      have there := route_to_present resolver tup.stcp linked _ ref found
      refine outcome_present tup _ _ True ?_ ?_
      · intro absent
        simp [absent] at there
      · intro sw _
        exact outcome_ok tup _ (grows_change_switch tup.stcp ref _)

/-! ## The handlers, one by one -/

variable {tup : RTUp}

theorem deliver_locally_outcome {index : Nat} (bound : index < tup.sudp.adaptors.length)
    (pkt : List UInt8) (excess : Option (List UInt8)) :
    Outcome tup (deliverLocally resolver tup index pkt excess) True := by
  refine outcome_present tup _ _ True ?_ ?_
  · intro absent
    rw [List.getElem?_eq_none_iff] at absent
    omega
  · intro adaptor _
    exact outcome_ok tup _ (grows_refl tup.stcp)

theorem udp_discovery_outcome (tup : RTUp) (client : RSock) (excess : Option (List UInt8)) :
    Outcome tup (udpDiscovery resolver tup client excess) True := by
  exact outcome_ok tup _ (grows_refl tup.stcp)

theorem udp_request_outcome (tup : RTUp) (client : RSock) (pkt : List UInt8) :
    Outcome tup (udpRequest tup client pkt) True := by
  unfold udpRequest
  split
  next => exact outcome_ok tup _ (grows_refl tup.stcp)
  next index found =>
    have bound := find_idx_bound _ found
    refine outcome_present tup _ _ True ?_ ?_
    · intro absent
      rw [List.getElem?_eq_none_iff] at absent
      omega
    · intro adaptor _
      exact outcome_ok tup _ (grows_refl tup.stcp)

theorem udp_data_payload_outcome (linked : Linked tup.stcp) (pkt : List UInt8)
    (excess : Option (List UInt8)) : Outcome tup (udpDataPayload resolver tup pkt excess) True := by
  unfold udpDataPayload
  split
  next => exact route_handle_outcome resolver tup linked none pkt excess
  next index found =>
    exact deliver_locally_outcome resolver (find_idx_bound _ found) pkt excess

theorem outcome_mailbox (mailbox : List (List UInt8)) {handled : Handled}
    (grows : Grows tup.stcp handled.tup.stcp) :
    Outcome tup (present mailbox.head? >>= fun _ => .ok handled) (mailbox ≠ []) := by
  refine outcome_present tup _ _ _ ?_ ?_
  · intro absent
    simpa using absent
  · intro packet first
    refine (outcome_ok tup handled grows).congr ?_
    refine ⟨fun _ empty => ?_, fun _ => trivial⟩
    simp [empty] at first

theorem udp_query_accept_outcome (tup : RTUp) (pkt : List UInt8) :
    Outcome tup (udpQueryAccept tup pkt) (∀ adaptor, (tup.sudp.adaptors.find? fun adaptor =>
        adaptor.ipName == rIpopOpToStr (srcIp pkt)) = some adaptor → adaptor.mailbox ≠ []) := by
  unfold udpQueryAccept rsSvrUdpFindAdaptorIp
  rw [← get_find_idx]
  cases found : tup.sudp.adaptors.findIdx? fun adaptor =>
      adaptor.ipName == rIpopOpToStr (srcIp pkt) with
  | none => exact (outcome_ok tup _ (grows_refl tup.stcp)).congr (by simp)
  | some index =>
    have bound := find_idx_bound _ found
    simp only [Option.bind_some, List.getElem?_eq_getElem bound, Option.some.injEq, forall_eq']
    exact outcome_mailbox _ (grows_refl tup.stcp)

theorem tcp_discovery_outcome (tup : RTUp) (client : RSock) :
    Outcome tup (tcpDiscovery resolver tup client) True := by
  refine outcome_host tup.stcp _ ?_
  intro host
  exact outcome_ok tup _ (grows_append tup.stcp client false _)

/-- The two greetings look for the address of the client in the con list. -/
theorem outcome_greeted (client : RSock) (rest : Nat → Except Fault Handled)
    (use : ∀ index, Outcome tup (rest index) True) :
    Outcome tup (present (rsSvrTcpFindSwitchCon tup.stcp.headCon client) >>= rest)
      (∃ sw ∈ tup.stcp.headCon, sw.buf.take client.addr.length = client.addr) := by
  refine outcome_present tup _ _ _ ?_ ?_
  · intro absent
    simpa using find_idx_none _ absent
  · intro index found
    obtain ⟨bound, same, _⟩ := List.findIdx?_eq_some_iff_getElem.mp found
    refine (use index).congr ⟨fun _ => ?_, fun _ => trivial⟩
    exact ⟨_, List.getElem_mem bound, by simpa using same⟩

theorem tcp_offer_outcome (tup : RTUp) (client : RSock) :
    Outcome tup (tcpOffer tup client)
      (∃ sw ∈ tup.stcp.headCon, sw.buf.take client.addr.length = client.addr) := by
  exact outcome_greeted client _
    fun index => outcome_ok tup _ (grows_change_switch tup.stcp (conRef index) _)

theorem tcp_acknowledge_outcome (tup : RTUp) (client : RSock) :
    Outcome tup (tcpAcknowledge tup client)
      (∃ sw ∈ tup.stcp.headCon, sw.buf.take client.addr.length = client.addr) := by
  exact outcome_greeted client _
    fun index => outcome_ok tup _ (grows_change_switch tup.stcp (conRef index) _)

theorem reply_location_lengths (tup : RTUp) (client : RSock) :
    (replyLocation tup client).1.head.length = tup.stcp.head.length ∧
      (replyLocation tup client).1.headCon.length = tup.stcp.headCon.length ∧
        (replyLocation tup client).1.tabel = tup.stcp.tabel := by
  simp only [replyLocation]
  split
  next => exact ⟨rfl, rfl, rfl⟩
  next index _ =>
    split_ifs
    · exact change_switch_lengths tup.stcp (headRef index) _
    · exact ⟨rfl, rfl, rfl⟩

theorem record_location_lengths (stp : RSrvTcp) (ref : SwitchRef) (pkt : List UInt8)
    (distance : UInt32) :
    (recordLocation stp ref pkt distance).head.length = stp.head.length ∧
      (recordLocation stp ref pkt distance).headCon.length = stp.headCon.length ∧
        (recordLocation stp ref pkt distance).tabel = stp.tabel := by
  exact change_switch_lengths stp ref _

theorem outcome_announce (stp : RSrvTcp) (target : RIPsingle) (distance : UInt32)
    (rest : List Output → Except Fault Handled) (use : ∀ outputs, Outcome tup (rest outputs) True) :
    Outcome tup (announceHead resolver stp target distance >>= rest) True := by
  simp only [announceHead]
  split_ifs
  · exact use []
  · rw [bind_assoc]
    exact outcome_host stp _ fun host => use _

theorem located_switch_none {stp : RSrvTcp} {ip : RIPsingle}
    (absent : locatedSwitch stp ip = none) :
    ¬ ((∃ sw ∈ stp.head, sw.ipName = rIpopOpToStr ip) ∨ ∃ sw ∈ stp.headCon, srcIp sw.assign = ip) := by
  unfold locatedSwitch headOrCon at absent
  split at absent
  next => cases absent
  next unnamed =>
    rw [Option.map_eq_none_iff] at absent
    have named := find_idx_none _ unnamed
    have assigned := last_index_none _ absent
    simp only [beq_iff_eq] at named assigned
    exact not_or.mpr ⟨named, assigned⟩

theorem located_switch_some {stp : RSrvTcp} {ip : RIPsingle} {ref : SwitchRef}
    (found : locatedSwitch stp ip = some ref) :
    (∃ sw ∈ stp.head, sw.ipName = rIpopOpToStr ip) ∨ ∃ sw ∈ stp.headCon, srcIp sw.assign = ip := by
  unfold locatedSwitch headOrCon at found
  split at found
  next index named =>
    obtain ⟨bound, same, _⟩ := List.findIdx?_eq_some_iff_getElem.mp named
    exact Or.inl ⟨_, List.getElem_mem bound, by simpa using same⟩
  next =>
    obtain ⟨index, assigned, _⟩ := Option.map_eq_some_iff.mp found
    have known := (last_index_spec _ assigned).2
    simp only [beq_iff_eq] at known
    exact Or.inr known

theorem tcp_location_send_outcome (tup : RTUp) (client : RSock) :
    Outcome tup (tcpLocationSend resolver tup client)
      ((∃ sw ∈ tup.stcp.head, sw.ipName = rIpopOpToStr (srcIp client.buf)) ∨
        ∃ sw ∈ tup.stcp.headCon, srcIp sw.assign = srcIp client.buf) := by
  refine outcome_present tup _ _ _ (located_switch_none) ?_
  intro ref found
  refine Outcome.congr ?_ ⟨fun _ => located_switch_some found, fun _ => trivial⟩
  refine outcome_announce resolver _ _ _ _ ?_
  intro outputs
  obtain ⟨head, headCon, tabel⟩ := reply_location_lengths tup client
  obtain ⟨nextHead, nextCon, nextTabel⟩ := record_location_lengths (replyLocation tup client).1 ref
    client.buf (locationDistance tup.stcp client.buf)
  exact outcome_ok tup _ (grows_of_same (nextHead.trans head) (nextCon.trans headCon)
    (nextTabel.trans tabel))

theorem tcp_location_broadcast_outcome (tup : RTUp) (client : RSock) :
    Outcome tup (tcpLocationBroadcast resolver tup client) True := by
  simp only [tcpLocationBroadcast]
  split_ifs <;> exact outcome_ok tup _ (grows_of_same rfl rfl rfl)

theorem tcp_request_outcome (tup : RTUp) (client : RSock) :
    Outcome tup (tcpRequest tup client) True := by
  unfold tcpRequest
  split
  next => exact outcome_ok tup _ (grows_refl tup.stcp)
  next index found =>
    have bound := find_idx_bound _ found
    refine outcome_present tup _ _ True ?_ ?_
    · intro absent
      rw [List.getElem?_eq_none_iff] at absent
      omega
    · intro sw _
      exact outcome_ok tup _ (grows_change_switch tup.stcp (headRef index) _)

theorem tcp_query_accept_outcome (tup : RTUp) (client : RSock) :
    Outcome tup (tcpQueryAccept tup client)
      (∀ sw, accepter tup.stcp client.buf = some sw → sw.mailbox ≠ []) := by
  unfold tcpQueryAccept
  rw [← accepting_switch_at]
  cases found : acceptingSwitch tup.stcp client.buf with
  | none => exact (outcome_ok tup _ (grows_refl tup.stcp)).congr (by simp)
  | some ref =>
    obtain ⟨sw, there⟩ := Option.isSome_iff_exists.mp (accepting_switch_present found)
    simp only [Option.bind_some, there, Option.some.injEq, forall_eq']
    exact outcome_mailbox _ (grows_change_switch tup.stcp ref _)

theorem grows_learned (stp : RSrvTcp) (client : RSock) (dst : RIPsingle) :
    Grows stp { stp with tabel := rTabelAppend stp.tabel (senderSwitch stp client) dst } := by
  refine ⟨Nat.le_refl _, Nat.le_refl _, ?_⟩
  intro entry member
  dsimp only at member
  cases found : senderSwitch stp client with
  | none =>
    rw [found] at member
    exact Or.inl member
  | some ref =>
    rw [found, rTabelAppend] at member
    split_ifs at member
    · exact Or.inl member
    · rcases List.mem_append.mp member with known | learned
      · exact Or.inl known
      · rw [List.mem_singleton.mp learned]
        exact Or.inr (sender_switch_present found)

theorem tcp_data_payload_outcome (linked : Linked tup.stcp) (client : RSock) :
    Outcome tup (tcpDataPayload resolver tup client) True := by
  simp only [tcpDataPayload]
  split
  next index found =>
    refine deliver_locally_outcome resolver ?_ client.buf none
    split_ifs at found
    exact find_idx_bound _ found
  next =>
    have learned := grows_learned tup.stcp client (srcIp client.buf)
    have routed := route_handle_outcome resolver
      { tup with stcp := { tup.stcp with
          tabel := rTabelAppend tup.stcp.tabel (senderSwitch tup.stcp client) (srcIp client.buf) } }
      (learned.linked linked) (some client.slot) client.buf none
    exact ⟨routed.present, fun handled done => learned.trans (routed.grows handled done) rfl rfl⟩

/-! ## A packet -/

theorem mode_only {pkt : List UInt8} {mode : RsMode} (is : rspktModeChk pkt mode = true)
    (other : RsMode) : rspktModeChk pkt other = decide (other = mode) := by
  have code : modeOf pkt = mode.code := by simpa [rspktModeChk] using is
  rw [rspktModeChk, code]
  cases mode <;> cases other <;> rfl

theorem udp_handle_outcome (linked : Linked tup.stcp) (client : RSock)
    (excess : Option (List UInt8)) : Outcome tup (rsSvrUdpHandle resolver tup client excess)
      (UdpAnswerable tup.sudp (excess.getD client.buf)) := by
  unfold rsSvrUdpHandle UdpAnswerable
  dsimp only
  generalize packet : excess.getD client.buf = pkt
  by_cases discovery : rspktModeChk pkt .discovery = true
  · simpa [mode_only discovery] using udp_discovery_outcome resolver tup client excess
  by_cases request : rspktModeChk pkt .request = true
  · simpa [mode_only request] using udp_request_outcome tup client pkt
  by_cases dataPayload : rspktModeChk pkt .dataPayload = true
  · simpa [mode_only dataPayload] using udp_data_payload_outcome resolver linked pkt excess
  by_cases queryAccept : rspktModeChk pkt .queryAccept = true
  · simpa [mode_only queryAccept] using udp_query_accept_outcome tup pkt
  · simpa [discovery, request, dataPayload, queryAccept] using
      outcome_ok tup _ (grows_refl tup.stcp)

theorem Outcome.answerable {tup : RTUp} {result : Except Fault Handled} {client : RSock}
    (outcome : Outcome tup result True) (mode : RsMode)
    (is : rspktModeChk client.buf mode = true) (offer : mode ≠ .offer)
    (acknowledge : mode ≠ .acknowledge) (locationSend : mode ≠ .locationSend)
    (queryAccept : mode ≠ .queryAccept) : Outcome tup result (TcpAnswerable tup.stcp client) := by
  refine outcome.congr ⟨fun _ => ?_, fun _ => trivial⟩
  constructor <;> intro other <;> rw [mode_only is] at other
  · rw [mode_only is, decide_eq_true_eq, decide_eq_true_eq] at other
    rcases other with same | same
    · exact absurd same.symm offer
    · exact absurd same.symm acknowledge
  · exact absurd (of_decide_eq_true other).symm locationSend
  · exact absurd (of_decide_eq_true other).symm queryAccept

theorem tcp_handle_outcome (linked : Linked tup.stcp) (client : RSock) :
    Outcome tup (rsSvrTcpHandle resolver tup client) (TcpAnswerable tup.stcp client) := by
  unfold rsSvrTcpHandle
  dsimp only
  by_cases discovery : rspktModeChk client.buf .discovery = true
  · rw [if_pos discovery]
    exact (tcp_discovery_outcome resolver tup client).answerable .discovery discovery
      (by decide) (by decide) (by decide) (by decide)
  by_cases offer : rspktModeChk client.buf .offer = true
  · rw [if_neg discovery, if_pos offer]
    refine (tcp_offer_outcome tup client).congr ⟨fun known => ⟨fun _ => known, ?_, ?_⟩,
      fun answerable => answerable.greeted (Or.inl offer)⟩ <;>
      simp [mode_only offer]
  by_cases acknowledge : rspktModeChk client.buf .acknowledge = true
  · rw [if_neg discovery, if_neg offer, if_pos acknowledge]
    refine (tcp_acknowledge_outcome tup client).congr ⟨fun known => ⟨fun _ => known, ?_, ?_⟩,
      fun answerable => answerable.greeted (Or.inr acknowledge)⟩ <;>
      simp [mode_only acknowledge]
  by_cases locationSend : rspktModeChk client.buf .locationSend = true
  · rw [if_neg discovery, if_neg offer, if_neg acknowledge, if_pos locationSend]
    refine (tcp_location_send_outcome resolver tup client).congr
      ⟨fun known => ⟨?_, fun _ => known, ?_⟩, fun answerable => answerable.located locationSend⟩ <;>
      simp [mode_only locationSend]
  rw [if_neg discovery, if_neg offer, if_neg acknowledge, if_neg locationSend]
  by_cases locationBroadcast : rspktModeChk client.buf .locationBroadcast = true
  · rw [if_pos locationBroadcast]
    exact (tcp_location_broadcast_outcome resolver tup client).answerable .locationBroadcast
      locationBroadcast (by decide) (by decide) (by decide) (by decide)
  by_cases request : rspktModeChk client.buf .request = true
  · rw [if_neg locationBroadcast, if_pos request]
    exact (tcp_request_outcome tup client).answerable .request request
      (by decide) (by decide) (by decide) (by decide)
  by_cases queryAccept : rspktModeChk client.buf .queryAccept = true
  · rw [if_neg locationBroadcast, if_neg request, if_pos queryAccept]
    refine (tcp_query_accept_outcome tup client).congr
      ⟨fun known => ⟨?_, ?_, fun _ => known⟩, fun answerable => answerable.waiting queryAccept⟩ <;>
      simp [mode_only queryAccept]
  rw [if_neg locationBroadcast, if_neg request, if_neg queryAccept]
  by_cases queryPacket : rspktModeChk client.buf .queryPacket = true
  · rw [if_pos queryPacket]
    exact (outcome_ok tup _ (grows_refl tup.stcp)).answerable .queryPacket queryPacket
      (by decide) (by decide) (by decide) (by decide)
  by_cases dataPayload : rspktModeChk client.buf .dataPayload = true
  · rw [if_neg queryPacket, if_pos dataPayload]
    exact (tcp_data_payload_outcome resolver linked client).answerable .dataPayload dataPayload
      (by decide) (by decide) (by decide) (by decide)
  · rw [if_neg queryPacket, if_neg dataPayload]
    refine (outcome_ok tup _ (grows_refl tup.stcp)).congr ⟨fun _ => ⟨?_, ?_, ?_⟩, fun _ => trivial⟩ <;>
      simp [offer, acknowledge, locationSend, queryAccept]

theorem handle_outcome (linked : Linked tup.stcp) (event : Event) :
    Outcome tup (handle resolver tup event) (Answerable tup event) := by
  cases event with
  | tcp client => exact tcp_handle_outcome resolver linked client
  | udp client excess =>
    simp only [handle, Answerable]
    split_ifs with on
    · exact (udp_handle_outcome resolver linked client excess).congr (by simp [on])
    · exact (outcome_ok tup _ (grows_refl tup.stcp)).congr (by simp [on])
  | establish client written =>
    refine outcome_ok tup _ ?_
    unfold rsSvrTcpEstablish
    cases written with
    | false => exact grows_refl tup.stcp
    | true => exact grows_append tup.stcp client true client.addr

/-! ## Runs -/

def LinkedState (state : Except Fault RTUp) : Prop := ∀ tup, state = .ok tup → Linked tup.stcp

theorem step_linked (state : Except Fault RTUp) (event : Event) (linked : LinkedState state) :
    LinkedState (step resolver state event) := by
  intro next done
  cases state with
  | error fault => cases done
  | ok tup =>
    have outcome := handle_outcome resolver (linked tup rfl) event
    change (handle resolver tup event >>= fun handled => .ok handled.tup) = .ok next at done
    cases result : handle resolver tup event with
    | error fault =>
      rw [result] at done
      cases done
    | ok handled =>
      rw [result] at done
      cases done
      exact (outcome.grows handled result).linked (linked tup rfl)

theorem step_lookups_present_iff (state : Except Fault RTUp) (event : Event)
    (linked : LinkedState state) (sound : LookupsPresent state) :
    LookupsPresent (step resolver state event) ↔ Answered state event := by
  cases state with
  | error fault =>
    refine ⟨fun _ tup other => ?_, fun _ => sound⟩
    cases other
  | ok tup =>
    have outcome := handle_outcome resolver (linked tup rfl) event
    have here : Answered (.ok tup) event ↔ Answerable tup event := by simp [Answered]
    rw [here, ← outcome.present]
    change (handle resolver tup event >>= fun handled => .ok handled.tup) ≠ .error .absent ↔ _
    cases handle resolver tup event with
    | error fault => simp [bind, Except.bind]
    | ok handled => simp [bind, Except.bind]

end

/-- From every set-up and along every run of packets no absent result of a lookup
is used exactly when every packet can be answered. -/
theorem lookups_present_throughout_iff (resolver : Resolver)
    (localSide globalSide : Option (List UInt8 × Int)) (x y : UInt16) (events : List Event) :
    Throughout (step resolver) LookupsPresent (.ok (rTupStdSetup localSide globalSide x y)) events ↔
      EachStep (step resolver) Answered (.ok (rTupStdSetup localSide globalSide x y)) events := by
  refine throughout_iff_of_invariant (step resolver) LinkedState LookupsPresent Answered
    (step_linked resolver) (step_lookups_present_iff resolver) _ ?_ (by simp [LookupsPresent]) events
  intro tup same entry member
  cases same
  cases globalSide with
  | none => cases member
  | some side => cases member

/-- An OFFER from a client that the switch 10.0.0.1/24 has not connected to. -/
theorem unexpected_offer_faults :
    ¬ Throughout (step plainResolver) LookupsPresent
      (.ok (rTupStdSetup none (some ([49, 48, 46, 48, 46, 48, 46, 49], 24)) 0 0))
      [.tcp ⟨3, 5, [2, 0, 31, 144, 127, 0, 0, 1], rGreet noAddress noAddress .offer noAddress⟩] := by
  intro held
  exact held.2 rfl

end Cprogramming.LinkLayer.Lookups
