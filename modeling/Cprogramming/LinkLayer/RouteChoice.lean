import Mathlib.Data.List.MinMax
import Mathlib.Data.Prod.Lex
import Cprogramming.LinkLayer.Switch

/-!
# The choice of a route

`rMap_shortest_and_longest_matching_prefix_to` on a map that was built by calls of
`rMap_append`. The nested traversal is one scan over the entries for the
destination, and keeps the first one of least cost: a shorter distance first, and
then more leading bits in common with the destination.
-/

namespace Cprogramming.LinkLayer.RouteChoice

open Library.Runs Addresses DistanceMap
open Switch (noAddress)

set_option autoImplicit false

/-! ## The traversal as one scan -/

variable {toIp : RIPsingle}

abbrev Candidate := RIPsingle × UInt32

def candidates (map : RMap) (toIp : RIPsingle) : List Candidate :=
  map.flatMap fun elem => (entriesOf elem toIp).map fun distance => (elem.fromIp, distance)

/-- The leading bits that are missing come after the distance. -/
def cost (toIp : RIPsingle) (candidate : Candidate) : Nat ×ₗ Nat :=
  toLex (candidate.2.toNat, 32 - rmapLongestPrefixMathing toIp candidate.1)

def prefer (toIp : RIPsingle) (best candidate : Candidate) : Candidate :=
  if best.1 = noAddress then candidate
  else if cost toIp candidate < cost toIp best then candidate
  else best

theorem matching_bits (left right : RIPsingle) : rmapLongestPrefixMathing left right ≤ 32 := by
  have shorter := (List.takeWhile_sublist (fun index =>
    left.number.testBit (31 - index) == right.number.testBit (31 - index))
    (l := List.range 32)).length_le
  rw [List.length_range] at shorter
  exact shorter

theorem cost_lt_iff (toIp : RIPsingle) (left right : Candidate) :
    cost toIp left < cost toIp right ↔ left.2 < right.2 ∨ left.2 = right.2 ∧
      rmapLongestPrefixMathing toIp right.1 < rmapLongestPrefixMathing toIp left.1 := by
  have leftBits := matching_bits toIp left.1
  have rightBits := matching_bits toIp right.1
  rw [cost, cost, Prod.Lex.toLex_lt_toLex, UInt32.lt_iff_toNat_lt, UInt32.toNat_inj]
  constructor
  · rintro (shorter | ⟨same, bits⟩)
    · exact Or.inl shorter
    · exact Or.inr ⟨same, by dsimp only at bits; omega⟩
  · rintro (shorter | ⟨same, bits⟩)
    · exact Or.inl shorter
    · exact Or.inr ⟨same, by dsimp only; omega⟩

theorem prefer_entry_eq (fromIp : RIPsingle) (best : Candidate) {dist : RMDist}
    (wanted : dist.toIp = toIp) :
    preferEntry toIp fromIp best dist = prefer toIp best (fromIp, dist.distance) := by
  unfold preferEntry prefer
  rw [if_pos wanted]
  by_cases none : best.1 = noAddress
  · rw [if_pos none, if_pos (by exact none)]
  · rw [if_neg none, if_neg (by exact none)]
    by_cases shorter : dist.distance < best.2
    · rw [if_pos shorter, if_pos ((cost_lt_iff _ _ _).mpr (Or.inl shorter))]
    · have tie := cost_lt_iff toIp (fromIp, dist.distance) best
      simp only [shorter, false_or] at tie
      simp only [shorter, if_false, tie]

theorem scan_element (toIp fromIp : RIPsingle) (dists : List RMDist) (best : Candidate) :
    dists.foldl (preferEntry toIp fromIp) best =
      ((entriesOf ⟨fromIp, dists⟩ toIp).map fun distance => (fromIp, distance)).foldl
        (prefer toIp) best := by
  induction dists generalizing best with
  | nil => rfl
  | cons dist rest ih =>
    rw [List.foldl_cons, ih]
    by_cases wanted : dist.toIp = toIp
    · simp [entriesOf, wanted, prefer_entry_eq fromIp best wanted]
    · simp [entriesOf, wanted, preferEntry]

theorem candidates_cons (elem : RMElem) (rest : RMap) (toIp : RIPsingle) :
    candidates (elem :: rest) toIp =
      ((entriesOf elem toIp).map fun distance => (elem.fromIp, distance)) ++
        candidates rest toIp := by
  rfl

theorem scan_map (map : RMap) (toIp : RIPsingle) (best : Candidate) :
    map.foldl (fun best elem => elem.dists.foldl (preferEntry toIp elem.fromIp) best) best =
      (candidates map toIp).foldl (prefer toIp) best := by
  induction map generalizing best with
  | nil => rfl
  | cons elem rest ih =>
    rw [List.foldl_cons, ih, scan_element, candidates_cons, List.foldl_append]

theorem scan_from_route (toIp : RIPsingle) (items : List Candidate) (best : Candidate)
    (route : best.1 ≠ noAddress) (routes : ∀ item ∈ items, item.1 ≠ noAddress) :
    items.foldl (List.argAux fun left right => cost toIp left < cost toIp right) (some best) =
      some (items.foldl (prefer toIp) best) := by
  induction items generalizing best with
  | nil => rfl
  | cons item rest ih =>
    rw [List.forall_mem_cons] at routes
    rw [List.foldl_cons, List.foldl_cons, prefer, if_neg route]
    by_cases cheaper : cost toIp item < cost toIp best
    · rw [if_pos cheaper, ← ih item routes.1 routes.2]
      simp [List.argAux, cheaper]
    · rw [if_neg cheaper, ← ih best route routes.2]
      simp [List.argAux, cheaper]

theorem scan_argmin (toIp : RIPsingle) {items : List Candidate} (distance : UInt32)
    (routes : ∀ item ∈ items, item.1 ≠ noAddress) :
    items.foldl (prefer toIp) (noAddress, distance) =
      (items.argmin (cost toIp)).getD (noAddress, distance) := by
  cases items with
  | nil => rfl
  | cons item rest =>
    rw [List.forall_mem_cons] at routes
    have kept := scan_from_route toIp rest item routes.1 routes.2
    rw [List.argmin, List.foldl_cons, List.foldl_cons]
    change _ = (rest.foldl _ (some item)).getD _
    rw [kept, Option.getD_some, prefer, if_pos rfl]

/-! ## Candidates and calls -/

variable {distance : UInt32}

theorem mem_candidates (map : RMap) (fromIp toIp : RIPsingle) (distance : UInt32) :
    (fromIp, distance) ∈ candidates map toIp ↔ distance ∈ entries map fromIp toIp := by
  simp only [candidates, entries, List.mem_flatMap, List.mem_map, List.mem_filter, beq_iff_eq,
    Prod.mk.injEq]
  constructor
  · rintro ⟨elem, member, value, listed, rfl, rfl⟩
    exact ⟨elem, ⟨member, rfl⟩, listed⟩
  · rintro ⟨elem, ⟨member, rfl⟩, listed⟩
    exact ⟨elem, member, distance, listed, rfl, rfl⟩

/-- The entries of a pair are distances that were appended, and no distance that
was appended is below all of them. -/
structure Lists (history : History) : Prop where
  first : FirstHolds history.map
  appended : ∀ fromIp toIp, ∀ distance ∈ entries history.map fromIp toIp,
    distance ∈ given history fromIp toIp
  reached : ∀ fromIp toIp, ∀ distance ∈ given history fromIp toIp,
    ∃ listed ∈ entries history.map fromIp toIp, listed ≤ distance

theorem mem_recorded {other : UInt32} {listed : List UInt32}
    (member : other ∈ recorded distance listed) : other = distance ∨ other ∈ listed := by
  cases listed with
  | nil => simpa [recorded] using member
  | cons first rest =>
    simp only [recorded] at member
    split_ifs at member with smaller
    · rcases List.mem_cons.mp member with same | later
      · exact Or.inl same
      · exact Or.inr (List.mem_cons_of_mem _ later)
    · rcases List.mem_append.mp member with old | new
      · exact Or.inr old
      · exact Or.inl (List.mem_singleton.mp new)

theorem distance_recorded (distance : UInt32) (listed : List UInt32) :
    distance ∈ recorded distance listed := by
  cases listed with
  | nil => simp [recorded]
  | cons first rest =>
    simp only [recorded]
    split_ifs <;> simp

theorem recorded_below {other : UInt32} (distance : UInt32) {listed : List UInt32}
    (member : other ∈ listed) : ∃ kept ∈ recorded distance listed, kept ≤ other := by
  cases listed with
  | nil => simp at member
  | cons first rest =>
    simp only [recorded]
    split_ifs with smaller
    · rcases List.mem_cons.mp member with rfl | later
      · exact ⟨distance, by simp, UInt32.le_of_lt smaller⟩
      · exact ⟨other, by simp [later], UInt32.le_refl _⟩
    · exact ⟨other, List.mem_append_left _ member, UInt32.le_refl _⟩

theorem lists_step (history : History) (call : Append) (lists : Lists history) :
    Lists (step history call) := by
  have changed := append_entries history.map call.fromIp call.toIp call.distance lists.first
  constructor
  · exact append_first_holds history.map call.fromIp call.toIp call.distance lists.first
  · intro fromIp toIp distance member
    rw [given_step, List.mem_append]
    change distance ∈ entries (rMapAppend _ _ _ _).2 _ _ at member
    rw [changed] at member
    split_ifs at member ⊢ with pair
    · rcases mem_recorded member with rfl | old
      · simp
      · rw [pair.1, pair.2]
        exact Or.inr (lists.appended _ _ _ old)
    · exact Or.inr (lists.appended _ _ _ member)
  · intro fromIp toIp distance member
    rw [given_step, List.mem_append] at member
    change ∃ listed ∈ entries (rMapAppend _ _ _ _).2 _ _, _
    rw [changed]
    split_ifs at member ⊢ with pair
    · rcases member with new | old
      · rw [List.mem_singleton.mp new]
        exact ⟨call.distance, distance_recorded _ _, UInt32.le_refl _⟩
      · rw [pair.1, pair.2] at old
        obtain ⟨listed, present, below⟩ := lists.reached _ _ _ old
        obtain ⟨kept, recording, smaller⟩ := recorded_below call.distance present
        exact ⟨kept, recording, UInt32.le_trans smaller below⟩
    · rcases member with new | old
      · simp at new
      · exact lists.reached _ _ _ old

theorem lists_run (calls : List Append) : Lists (run step ⟨[], []⟩ calls) := by
  apply run_invariant step Lists lists_step
  exact ⟨List.Pairwise.nil, by simp [entries], by simp [given]⟩

theorem appended_run (history : History) (calls : List Append) :
    (run step history calls).appended = calls.reverse ++ history.appended := by
  induction calls generalizing history with
  | nil => rfl
  | cons call rest ih => simp [run_cons, ih, step]

theorem mem_given_run (calls : List Append) (fromIp toIp : RIPsingle) (distance : UInt32) :
    distance ∈ given (run step ⟨[], []⟩ calls) fromIp toIp ↔
      ∃ call ∈ calls, call.fromIp = fromIp ∧ call.toIp = toIp ∧ call.distance = distance := by
  simp [given, appended_run, and_assoc]

/-! ## The place of a switch in the list -/

def place (map : RMap) (fromIp : RIPsingle) : Nat := (map.map RMElem.fromIp).idxOf fromIp

theorem place_of_candidates {map : RMap} {left right : RIPsingle} (holds : FirstHolds map)
    (leftListed : (left, distance) ∈ candidates map toIp)
    (rightListed : (right, distance) ∈ candidates map toIp)
    (ordered : (candidates map toIp).idxOf (left, distance) ≤
      (candidates map toIp).idxOf (right, distance)) : place map left ≤ place map right := by
  induction map with
  | nil => simp [candidates] at leftListed
  | cons elem rest ih =>
    have tail : FirstHolds rest := (List.pairwise_cons.mp holds).2
    by_cases atLeft : elem.fromIp = left
    · simp [place, atLeft]
    -- the element is of another switch, so its candidates all come before that of `left`
    have leftLater : (left, distance) ∉
        (entriesOf elem toIp).map fun distance => (elem.fromIp, distance) := by
      simp [atLeft]
    rw [candidates_cons, List.idxOf_append_of_notMem leftLater] at ordered
    rw [candidates_cons, List.mem_append] at leftListed rightListed
    have leftRest := leftListed.resolve_left leftLater
    by_cases atRight : elem.fromIp = right
    · have onlyHere : entries rest right toIp = [] := by
        apply entries_empty_dists
        intro other member same
        exact (List.pairwise_cons.mp holds).1 other member (atRight.trans same)
      have notRest : (right, distance) ∉ candidates rest toIp := by
        simp [mem_candidates, onlyHere]
      have here := rightListed.resolve_right notRest
      have before := List.idxOf_lt_length_of_mem here
      rw [List.idxOf_append_of_mem here] at ordered
      omega
    · have rightLater : (right, distance) ∉
          (entriesOf elem toIp).map fun distance => (elem.fromIp, distance) := by
        simp [atRight]
      rw [List.idxOf_append_of_notMem rightLater] at ordered
      have later := ih tail leftRest (rightListed.resolve_left rightLater) (by omega)
      simp only [place] at later
      simp [place, List.idxOf_cons_ne, atLeft, atRight, later]

/-! ## The best route -/

variable {calls : List Append}

def Shortest (calls : List Append) (fromIp toIp : RIPsingle) (distance : UInt32) : Prop :=
  (∃ call ∈ calls, call.fromIp = fromIp ∧ call.toIp = toIp ∧ call.distance = distance) ∧
    ∀ call ∈ calls, call.fromIp = fromIp → call.toIp = toIp → distance ≤ call.distance

/-- No from address is nearer to the destination; among those as near, none has
more leading bits in common with it, and of those with as many the map lists this
one first. -/
def BestRoute (calls : List Append) (map : RMap) (toIp chosen : RIPsingle) : Prop :=
  ∃ distance, Shortest calls chosen toIp distance ∧
    ∀ other further, Shortest calls other toIp further → distance ≤ further ∧
      (further = distance →
        rmapLongestPrefixMathing toIp other ≤ rmapLongestPrefixMathing toIp chosen ∧
          (rmapLongestPrefixMathing toIp other = rmapLongestPrefixMathing toIp chosen →
            place map chosen ≤ place map other))

theorem shortest_listed {fromIp : RIPsingle} (shortest : Shortest calls fromIp toIp distance) :
    (fromIp, distance) ∈ candidates (run step ⟨[], []⟩ calls).map toIp := by
  have lists := lists_run calls
  obtain ⟨listed, present, below⟩ :=
    lists.reached fromIp toIp distance ((mem_given_run calls _ _ _).mpr shortest.1)
  obtain ⟨call, member, starts, ends, rfl⟩ :=
    (mem_given_run calls _ _ _).mp (lists.appended fromIp toIp listed present)
  have same : call.distance = distance :=
    UInt32.le_antisymm below (shortest.2 call member starts ends)
  rw [mem_candidates, ← same]
  exact present

theorem candidate_called {candidate : Candidate}
    (member : candidate ∈ candidates (run step ⟨[], []⟩ calls).map toIp) :
    ∃ call ∈ calls, call.fromIp = candidate.1 ∧ call.toIp = toIp ∧ call.distance = candidate.2 := by
  apply (mem_given_run calls candidate.1 toIp candidate.2).mp
  apply (lists_run calls).appended
  exact (mem_candidates _ _ _ _).mp member

theorem argmin_best_route {candidate : Candidate} (least : candidate ∈
      (candidates (run step ⟨[], []⟩ calls).map toIp).argmin (cost toIp)) :
    BestRoute calls (run step ⟨[], []⟩ calls).map toIp candidate.1 := by
  have lists := lists_run calls
  obtain ⟨member, cheapest, first⟩ := List.mem_argmin_iff.mp least
  have near (other : Candidate)
      (listed : other ∈ candidates (run step ⟨[], []⟩ calls).map toIp) :
      candidate.2 ≤ other.2 ∧ (other.2 = candidate.2 →
        rmapLongestPrefixMathing toIp other.1 ≤ rmapLongestPrefixMathing toIp candidate.1) := by
    have cheap := cheapest other listed
    rw [← not_lt, cost_lt_iff, not_or, not_and, UInt32.not_lt] at cheap
    exact ⟨cheap.1, fun same => Nat.not_lt.mp (cheap.2 same)⟩
  refine ⟨candidate.2, ⟨candidate_called member, ?_⟩, ?_⟩
  · intro call called starts ends
    obtain ⟨listed, present, below⟩ := lists.reached candidate.1 toIp call.distance
      ((mem_given_run calls _ _ _).mpr ⟨call, called, starts, ends, rfl⟩)
    exact UInt32.le_trans (near (candidate.1, listed) ((mem_candidates _ _ _ _).mpr present)).1 below
  · intro other further shortest
    have listed := shortest_listed shortest
    have nearer := near (other, further) listed
    refine ⟨nearer.1, fun tie => ⟨nearer.2 tie, fun bits => ?_⟩⟩
    subst tie
    have ordered := first (other, candidate.2) listed (by simp only [cost, bits, le_refl])
    apply place_of_candidates lists.first member listed
    convert ordered

/-- After any calls with nonzero addresses the map answers 0.0.0.0 for a
destination that no call had, and otherwise the best route. -/
theorem route_choice (calls : List Append)
    (nonzero : ∀ call ∈ calls, call.fromIp ≠ noAddress ∧ call.toIp ≠ noAddress) (toIp : RIPsingle) :
    let map := (run step ⟨[], []⟩ calls).map
    ((∀ call ∈ calls, call.toIp ≠ toIp) →
        rMapShortestAndLongestMatchingPrefixTo map toIp = noAddress) ∧
      ((∃ call ∈ calls, call.toIp = toIp) →
        BestRoute calls map toIp (rMapShortestAndLongestMatchingPrefixTo map toIp)) := by
  intro map
  have routes : ∀ item ∈ candidates map toIp, item.1 ≠ noAddress := by
    intro item member
    obtain ⟨call, called, starts, _⟩ := candidate_called member
    rw [← starts]
    exact (nonzero call called).1
  have scanned : rMapShortestAndLongestMatchingPrefixTo map toIp =
      (((candidates map toIp).argmin (cost toIp)).getD (noAddress, 0)).1 := by
    rw [← scan_argmin toIp 0 routes, ← scan_map]
    rfl
  rw [scanned]
  cases least : (candidates map toIp).argmin (cost toIp) with
  | none =>
    have empty : candidates map toIp = [] := List.argmin_eq_none.mp least
    refine ⟨fun _ => rfl, ?_⟩
    rintro ⟨call, called, ends⟩
    obtain ⟨listed, present, _⟩ := (lists_run calls).reached call.fromIp toIp call.distance
      ((mem_given_run calls _ _ _).mpr ⟨call, called, rfl, ends, rfl⟩)
    have member := (mem_candidates map _ _ _).mpr present
    rw [empty] at member
    cases member
  | some candidate =>
    refine ⟨?_, fun _ => argmin_best_route least⟩
    intro never
    obtain ⟨call, called, _, ends, _⟩ :=
      candidate_called (List.argmin_mem least)
    exact absurd ends (never call called)

/-- Of two switches that are as near as each other the one with more leading bits
is chosen, though the other is listed first. -/
theorem route_choice_by_bits :
    let toIp : RIPsingle := ⟨10, 0, 0, 1⟩
    let calls : List Append :=
      [⟨⟨192, 0, 0, 1⟩, toIp, 5⟩, ⟨⟨10, 0, 0, 2⟩, toIp, 9⟩, ⟨⟨10, 0, 0, 2⟩, toIp, 5⟩,
        ⟨⟨192, 0, 0, 1⟩, toIp, 7⟩]
    rMapShortestAndLongestMatchingPrefixTo (run step ⟨[], []⟩ calls).map toIp = ⟨10, 0, 0, 2⟩ ∧
      BestRoute calls (run step ⟨[], []⟩ calls).map toIp ⟨10, 0, 0, 2⟩ := by
  intro toIp calls
  have chosen : rMapShortestAndLongestMatchingPrefixTo (run step ⟨[], []⟩ calls).map toIp =
      ⟨10, 0, 0, 2⟩ := by decide
  have best := (route_choice calls (by decide) toIp).2 ⟨_, List.mem_cons_self, rfl⟩
  rw [chosen] at best
  exact ⟨chosen, best⟩

end Cprogramming.LinkLayer.RouteChoice
