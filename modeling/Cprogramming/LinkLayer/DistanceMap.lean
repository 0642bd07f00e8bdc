import Cprogramming.Library.Runs
import Cprogramming.LinkLayer.Addresses

/-!
# The map of distances

`RMap.h`: a list of switches, each with the list of distances announced from
it. An element is found by the first match in its list.
-/

namespace Cprogramming.LinkLayer.DistanceMap

open Library.Runs Addresses

set_option autoImplicit false

/-- `holder` is the place of the element of `toIp` in the list of switches. -/
structure RMDist where
  toIp : RIPsingle
  distance : UInt32
  holder : Nat
deriving DecidableEq

structure RMElem where
  fromIp : RIPsingle
  dists : List RMDist
deriving DecidableEq

abbrev RMap := List RMElem

def changeFirst {Item : Type} (picks : Item → Bool) (change : Item → Item) : List Item → List Item
  | [] => []
  | item :: rest => if picks item then change item :: rest else item :: changeFirst picks change rest

def rMapFindFromIp (map : RMap) (fromIp : RIPsingle) : Option RMElem :=
  map.find? fun elem => elem.fromIp == fromIp

def rMapFindToIp (elem : RMElem) (toIp : RIPsingle) : Option RMDist :=
  elem.dists.find? fun dist => dist.toIp == toIp

/-- The place that `holder` gets: the element of `toIp`, or the one that is
appended for it. -/
def holderOf (map : RMap) (toIp : RIPsingle) : Nat :=
  (map.findIdx? fun elem => elem.fromIp == toIp).getD map.length

/-- The element for `toIp` that is appended if there is none yet. -/
def missingElem (map : RMap) (toIp : RIPsingle) : RMap :=
  match rMapFindFromIp map toIp with
  | some _ => []
  | none => [⟨toIp, []⟩]

/-- `rMap_append`. An entry that is found but not larger is not told apart from
one that is not found. -/
def rMapAppend (map : RMap) (fromIp toIp : RIPsingle) (distance : UInt32) : Bool × RMap :=
  match map with
  | [] => (true, [⟨fromIp, [⟨toIp, distance, 1⟩]⟩, ⟨toIp, []⟩])
  | _ :: _ =>
    match rMapFindFromIp map fromIp with
    | some found =>
      if (rMapFindToIp found toIp).any (fun dist => decide (distance < dist.distance)) then
        (true, changeFirst (fun elem => elem.fromIp == fromIp)
          (fun elem => { elem with
            dists := changeFirst (fun dist => dist.toIp == toIp)
              (fun dist => { dist with distance := distance }) elem.dists }) map)
      else
        (true, changeFirst (fun elem => elem.fromIp == fromIp)
          (fun elem => { elem with
            dists := elem.dists ++ [⟨toIp, distance, holderOf map toIp⟩] }) map ++
          missingElem map toIp)
    | none =>
      -- the new element is in the list when `toIp` is looked for
      let holder := holderOf (map ++ [⟨fromIp, []⟩]) toIp
      let grown := map ++ [⟨fromIp, [⟨toIp, distance, holder⟩]⟩]
      (true, grown ++ missingElem grown toIp)

/-! ## The choice of a route -/

/-- `rmap_longest_prefix_mathing`: the leading bits in which two addresses
agree. -/
def rmapLongestPrefixMathing (left right : RIPsingle) : Nat :=
  ((List.range 32).takeWhile fun index =>
    left.number.testBit (31 - index) == right.number.testBit (31 - index)).length

/-- One entry of the map against the best one so far; the address 0.0.0.0
stands for none. -/
def preferEntry (toIp : RIPsingle) (fromIp : RIPsingle) (best : RIPsingle × UInt32)
    (dist : RMDist) : RIPsingle × UInt32 :=
  if dist.toIp = toIp then
    if best.1 = ⟨0, 0, 0, 0⟩ then (fromIp, dist.distance)
    else if dist.distance < best.2 then (fromIp, dist.distance)
    else if dist.distance = best.2 ∧
        rmapLongestPrefixMathing toIp best.1 < rmapLongestPrefixMathing toIp fromIp then
      (fromIp, dist.distance)
    else best
  else best

def rMapShortestAndLongestMatchingPrefixTo (map : RMap) (toIp : RIPsingle) : RIPsingle :=
  (map.foldl (fun best elem => elem.dists.foldl (preferEntry toIp elem.fromIp) best)
    (⟨0, 0, 0, 0⟩, 0)).1

/-! ## The entries of a pair -/

def entriesOf (elem : RMElem) (toIp : RIPsingle) : List UInt32 :=
  (elem.dists.filter fun dist => dist.toIp == toIp).map RMDist.distance

def entries (map : RMap) (fromIp toIp : RIPsingle) : List UInt32 :=
  (map.filter fun elem => elem.fromIp == fromIp).flatMap fun elem => entriesOf elem toIp

structure Append where
  fromIp : RIPsingle
  toIp : RIPsingle
  distance : UInt32

structure History where
  map : RMap
  appended : List Append

def step (history : History) (call : Append) : History where
  map := (rMapAppend history.map call.fromIp call.toIp call.distance).2
  appended := call :: history.appended

def given (history : History) (fromIp toIp : RIPsingle) : List UInt32 :=
  (history.appended.filter fun call => call.fromIp == fromIp && call.toIp == toIp).map
    Append.distance

/-- Each pair has at most one entry, the smallest distance appended for it. -/
def KeepsBest (history : History) : Prop :=
  ∀ fromIp toIp, (given history fromIp toIp = [] ∧ entries history.map fromIp toIp = []) ∨
    ∃ least ∈ given history fromIp toIp, entries history.map fromIp toIp = [least] ∧
      ∀ other ∈ given history fromIp toIp, least ≤ other

/-- The call returns true if and only if the pair is new or the distance is
below the one recorded. -/
def Reports (history : History) (call : Append) : Prop :=
  (rMapAppend history.map call.fromIp call.toIp call.distance).1 = true ↔
    given history call.fromIp call.toIp = [] ∨
      ∃ recorded ∈ entries history.map call.fromIp call.toIp, call.distance < recorded

def Improves (history : History) (call : Append) : Prop :=
  ∀ recorded ∈ entries history.map call.fromIp call.toIp, call.distance < recorded

/-! ## The element that is found -/

variable {map : RMap} {fromIp : RIPsingle} {found : RMElem}

theorem entries_append (front rest : RMap) (fromIp toIp : RIPsingle) :
    entries (front ++ rest) fromIp toIp = entries front fromIp toIp ++ entries rest fromIp toIp := by
  simp [entries]

theorem entries_cons (elem : RMElem) (rest : RMap) (fromIp toIp : RIPsingle) :
    entries (elem :: rest) fromIp toIp =
      (if elem.fromIp = fromIp then entriesOf elem toIp else []) ++ entries rest fromIp toIp := by
  by_cases same : elem.fromIp = fromIp <;> simp [entries, same]

theorem entries_absent (toIp : RIPsingle) (absent : ∀ elem ∈ map, elem.fromIp ≠ fromIp) :
    entries map fromIp toIp = [] := by
  have nothing : (map.filter fun elem => elem.fromIp == fromIp) = [] :=
    List.filter_eq_nil_iff.mpr (by simpa using absent)
  simp [entries, nothing]

theorem missing_elem_entries (map : RMap) (other fromIp toIp : RIPsingle) :
    entries (missingElem map other) fromIp toIp = [] := by
  unfold missingElem
  cases rMapFindFromIp map other with
  | some elem => rfl
  | none => by_cases same : other = fromIp <;> simp [entries, entriesOf, same]

theorem found_split (search : rMapFindFromIp map fromIp = some found) :
    found.fromIp = fromIp ∧ ∃ before after, map = before ++ found :: after ∧
      ∀ elem ∈ before, elem.fromIp ≠ fromIp := by
  obtain ⟨same, before, after, shape, others⟩ := List.find?_eq_some_iff_append.mp search
  exact ⟨by simpa using same, before, after, shape, by simpa using others⟩

theorem not_found (map : RMap) (fromIp : RIPsingle) (search : rMapFindFromIp map fromIp = none) :
    ∀ elem ∈ map, elem.fromIp ≠ fromIp := by
  simpa [rMapFindFromIp] using search

theorem change_first_split {Item : Type} (picks : Item → Bool) (change : Item → Item)
    {before : List Item} (after : List Item) {item : Item}
    (others : ∀ other ∈ before, picks other = false) (picked : picks item = true) :
    changeFirst picks change (before ++ item :: after) = before ++ change item :: after := by
  induction before with
  | nil => simp [changeFirst, picked]
  | cons first rest ih =>
    have tail := ih (fun other member => others other (by simp [member]))
    simp [changeFirst, others first (by simp), tail]

def FirstHolds (map : RMap) : Prop :=
  map.Pairwise fun earlier later => earlier.fromIp = later.fromIp → later.dists = []

theorem entries_empty_dists (map : RMap) (fromIp toIp : RIPsingle)
    (empty : ∀ elem ∈ map, fromIp = elem.fromIp → elem.dists = []) :
    entries map fromIp toIp = [] := by
  simp only [entries, List.flatMap_eq_nil_iff, List.mem_filter, beq_iff_eq]
  rintro elem ⟨member, same⟩
  simp [entriesOf, empty elem member same.symm]

theorem first_holds_after {before after : RMap} (holds : FirstHolds (before ++ found :: after))
    (toIp : RIPsingle) : entries after found.fromIp toIp = [] := by
  have parts := (List.pairwise_append.mp holds).2.1
  exact entries_empty_dists after found.fromIp toIp (List.pairwise_cons.mp parts).1

theorem entries_change (change : RMElem → RMElem)
    (kept : ∀ elem, (change elem).fromIp = elem.fromIp) (holds : FirstHolds map)
    (search : rMapFindFromIp map fromIp = some found) (other toIp : RIPsingle) :
    entries (changeFirst (fun elem => elem.fromIp == fromIp) change map) other toIp =
      if other = fromIp then entriesOf (change found) toIp else entries map other toIp := by
  obtain ⟨same, before, after, rfl, others⟩ := found_split search
  rw [change_first_split _ _ after (by simpa using others) (by simpa using same),
    entries_append, entries_append, entries_cons, entries_cons, kept, same]
  by_cases here : other = fromIp
  · have tail := first_holds_after holds toIp
    rw [same] at tail
    rw [if_pos here, here, if_pos rfl, entries_absent toIp others, tail]
    simp
  · have elsewhere : ¬ fromIp = other := fun equal => here equal.symm
    rw [if_neg here, if_neg elsewhere, if_neg elsewhere]

theorem entries_found (holds : FirstHolds map) (search : rMapFindFromIp map fromIp = some found)
    (toIp : RIPsingle) : entries map fromIp toIp = entriesOf found toIp := by
  obtain ⟨same, before, after, rfl, others⟩ := found_split search
  have tail := first_holds_after holds toIp
  rw [same] at tail
  rw [entries_append, entries_cons, entries_absent toIp others, if_pos same, tail]
  simp

theorem first_holds_change (change : RMElem → RMElem)
    (kept : ∀ elem, (change elem).fromIp = elem.fromIp) (holds : FirstHolds map)
    (search : rMapFindFromIp map fromIp = some found) :
    FirstHolds (changeFirst (fun elem => elem.fromIp == fromIp) change map) := by
  obtain ⟨same, before, after, rfl, others⟩ := found_split search
  rw [change_first_split _ _ after (by simpa using others) (by simpa using same)]
  unfold FirstHolds at holds ⊢
  rw [List.pairwise_append, List.pairwise_cons] at holds ⊢
  obtain ⟨front, ⟨next, rest⟩, across⟩ := holds
  refine ⟨front, ⟨by simpa [kept] using next, rest⟩, ?_⟩
  intro earlier member later laterMember equal
  rcases List.mem_cons.mp laterMember with rfl | deeper
  · rw [kept, same] at equal
    exact absurd equal (others earlier member)
  · exact across earlier member later (by simp [deeper]) equal

theorem first_holds_missing (map grown : RMap) (toIp : RIPsingle) (holds : FirstHolds map) :
    FirstHolds (map ++ missingElem grown toIp) := by
  unfold FirstHolds missingElem
  rw [List.pairwise_append]
  cases rMapFindFromIp grown toIp <;> simp [FirstHolds] at holds ⊢ <;> exact holds

/-! ## One call -/

theorem append_first_holds (map : RMap) (fromIp toIp : RIPsingle) (distance : UInt32)
    (holds : FirstHolds map) : FirstHolds (rMapAppend map fromIp toIp distance).2 := by
  cases map with
  | nil => simp [rMapAppend, FirstHolds]
  | cons first rest =>
    simp only [rMapAppend]
    cases search : rMapFindFromIp (first :: rest) fromIp with
    | some found =>
      dsimp only
      split_ifs with smaller
      · exact first_holds_change _ (fun _ => rfl) holds search
      · exact first_holds_missing _ _ _ (first_holds_change _ (fun _ => rfl) holds search)
    | none =>
      apply first_holds_missing
      have others := not_found _ fromIp search
      refine List.pairwise_append.mpr ⟨holds, by simp, ?_⟩
      intro earlier member later last equal
      rw [List.mem_singleton.mp last] at equal
      exact absurd equal (others earlier member)

theorem dists_smaller {dists : List RMDist} {toIp : RIPsingle} (other : RIPsingle)
    (distance : UInt32) (present : (dists.filter fun dist => dist.toIp == toIp) ≠ []) :
    ((changeFirst (fun dist => dist.toIp == toIp) (fun dist => { dist with distance := distance })
        dists).filter fun dist => dist.toIp == other).map RMDist.distance =
      if other = toIp then
        distance :: ((dists.filter fun dist => dist.toIp == toIp).map RMDist.distance).tail
      else (dists.filter fun dist => dist.toIp == other).map RMDist.distance := by
  induction dists with
  | nil => simp at present
  | cons dist rest ih =>
    by_cases picked : dist.toIp = toIp
    · by_cases here : other = toIp
      · simp [changeFirst, picked, here]
      · have elsewhere : ¬ toIp = other := fun equal => here equal.symm
        simp [changeFirst, picked, here, elsewhere]
    · have tail := ih (by simpa [picked] using present)
      by_cases here : dist.toIp = other
      · have different : ¬ other = toIp := fun equal => picked (here.trans equal)
        simp only [different, if_false] at tail
        simp [changeFirst, here, different, tail]
      · simp [changeFirst, picked, here, tail]

theorem entries_of_extended (elem : RMElem) (dist : RMDist) (toIp : RIPsingle) :
    entriesOf { elem with dists := elem.dists ++ [dist] } toIp =
      entriesOf elem toIp ++ if dist.toIp = toIp then [dist.distance] else [] := by
  by_cases same : dist.toIp = toIp <;> simp [entriesOf, same]

theorem entries_single (fromIp : RIPsingle) (dist : RMDist) (other otherTo : RIPsingle) :
    entries [⟨fromIp, [dist]⟩] other otherTo =
      if other = fromIp ∧ otherTo = dist.toIp then [dist.distance] else [] := by
  by_cases here : fromIp = other
  · by_cases there : dist.toIp = otherTo
    · simp [entries, entriesOf, here, there]
    · have elsewhere : ¬ otherTo = dist.toIp := fun equal => there equal.symm
      simp [entries, entriesOf, there, elsewhere]
  · have elsewhere : ¬ other = fromIp := fun equal => here equal.symm
    simp [entries, here, elsewhere]

/-- What a call makes of the entries of its pair: only the first one is compared. -/
def recorded (distance : UInt32) : List UInt32 → List UInt32
  | [] => [distance]
  | first :: rest => if distance < first then distance :: rest else first :: rest ++ [distance]

/-- The test of `rMap_append`, on the entries of the pair. -/
theorem found_smaller (found : RMElem) (toIp : RIPsingle) (distance : UInt32) :
    (rMapFindToIp found toIp).any (fun dist => decide (distance < dist.distance)) =
      (entriesOf found toIp).head?.any (fun first => decide (distance < first)) := by
  rw [entriesOf, List.head?_map, List.head?_filter, Option.any_map]
  rfl

theorem found_recorded (found : RMElem) (toIp otherTo : RIPsingle) (distance : UInt32)
    (holder : Nat) :
    entriesOf
      (if (rMapFindToIp found toIp).any (fun dist => decide (distance < dist.distance)) then
        { found with
          dists := changeFirst (fun dist => dist.toIp == toIp)
            (fun dist => { dist with distance := distance }) found.dists }
      else { found with dists := found.dists ++ [⟨toIp, distance, holder⟩] }) otherTo =
      if otherTo = toIp then recorded distance (entriesOf found toIp)
      else entriesOf found otherTo := by
  rw [found_smaller]
  cases listed : entriesOf found toIp with
  | nil =>
    rw [List.head?_nil, Option.any_none, if_neg (by decide), entries_of_extended]
    by_cases there : otherTo = toIp
    · simp [there, listed, recorded]
    · have elsewhere : ¬ toIp = otherTo := fun equal => there equal.symm
      simp [there, elsewhere]
  | cons first rest =>
    rw [List.head?_cons, Option.any_some]
    by_cases smaller : distance < first
    · have present : (found.dists.filter fun dist => dist.toIp == toIp) ≠ [] := by
        intro none
        simp [entriesOf, none] at listed
      have changed := dists_smaller otherTo distance present
      have tail : ((found.dists.filter fun dist => dist.toIp == toIp).map RMDist.distance).tail =
          rest := by
        rw [entriesOf] at listed
        rw [listed, List.tail_cons]
      rw [if_pos (by simpa using smaller), entriesOf, changed, tail]
      simp [recorded, smaller, entriesOf]
    · rw [if_neg (by simpa using smaller), entries_of_extended]
      by_cases there : otherTo = toIp
      · simp [there, listed, recorded, smaller]
      · have elsewhere : ¬ toIp = otherTo := fun equal => there equal.symm
        simp [there, elsewhere]

theorem entries_change_recorded {toIp : RIPsingle} {distance : UInt32} (change : RMElem → RMElem)
    (kept : ∀ elem, (change elem).fromIp = elem.fromIp) (holds : FirstHolds map)
    (search : rMapFindFromIp map fromIp = some found)
    (changed : ∀ otherTo, entriesOf (change found) otherTo =
      if otherTo = toIp then recorded distance (entriesOf found toIp)
      else entriesOf found otherTo) (other otherTo : RIPsingle) :
    entries (changeFirst (fun elem => elem.fromIp == fromIp) change map) other otherTo =
      if other = fromIp ∧ otherTo = toIp then recorded distance (entries map fromIp toIp)
      else entries map other otherTo := by
  have known := entries_found holds search
  rw [entries_change change kept holds search, changed, known toIp]
  by_cases here : other = fromIp
  · by_cases there : otherTo = toIp
    · simp [here, there]
    · simp [here, there, known otherTo]
  · simp [here]

theorem append_entries (map : RMap) (fromIp toIp : RIPsingle) (distance : UInt32)
    (holds : FirstHolds map) (other otherTo : RIPsingle) :
    entries (rMapAppend map fromIp toIp distance).2 other otherTo =
      if other = fromIp ∧ otherTo = toIp then recorded distance (entries map fromIp toIp)
      else entries map other otherTo := by
  cases map with
  | nil =>
    have bare : entries [⟨toIp, []⟩] other otherTo = [] :=
      entries_empty_dists _ other otherTo (by simp)
    change entries ([_] ++ [_]) other otherTo = _
    rw [entries_append, entries_single, bare]
    simp [entries, recorded]
  | cons first rest =>
    simp only [rMapAppend]
    cases search : rMapFindFromIp (first :: rest) fromIp with
    | some found =>
      have changed (otherTo : RIPsingle) :=
        found_recorded found toIp otherTo distance (holderOf (first :: rest) toIp)
      dsimp only
      by_cases smaller :
          (rMapFindToIp found toIp).any (fun dist => decide (distance < dist.distance)) = true
      · simp only [if_pos smaller] at changed ⊢
        apply entries_change_recorded _ _ holds search changed
        simp
      · simp only [if_neg smaller] at changed ⊢
        rw [entries_append, missing_elem_entries, List.append_nil]
        apply entries_change_recorded _ _ holds search changed
        simp
    | none =>
      have others := not_found _ fromIp search
      dsimp only
      rw [entries_append, missing_elem_entries, List.append_nil, entries_append, entries_single,
        entries_absent toIp others]
      by_cases here : other = fromIp
      · rw [here, entries_absent otherTo others]
        simp [recorded]
      · simp [here]

theorem append_returns_true (map : RMap) (fromIp toIp : RIPsingle) (distance : UInt32) :
    (rMapAppend map fromIp toIp distance).1 = true := by
  unfold rMapAppend
  cases map with
  | nil => rfl
  | cons first rest =>
    cases rMapFindFromIp (first :: rest) fromIp with
    | none => rfl
    | some found =>
      dsimp only
      split_ifs <;> rfl

/-! ## Every sequence of calls -/

theorem given_step (history : History) (call : Append) (fromIp toIp : RIPsingle) :
    given (step history call) fromIp toIp =
      (if fromIp = call.fromIp ∧ toIp = call.toIp then [call.distance] else []) ++
        given history fromIp toIp := by
  by_cases here : call.fromIp = fromIp ∧ call.toIp = toIp
  · obtain ⟨rfl, rfl⟩ := here
    simp [given, step]
  · have elsewhere : ¬(fromIp = call.fromIp ∧ toIp = call.toIp) :=
      fun equal => here ⟨equal.1.symm, equal.2.symm⟩
    simp [given, step, here, elsewhere]

theorem best_kept {history : History} {call : Append} (holds : FirstHolds history.map)
    (best : KeepsBest history) (improves : Improves history call) :
    KeepsBest (step history call) := by
  have changed (fromIp toIp : RIPsingle) : entries (step history call).map fromIp toIp =
      if fromIp = call.fromIp ∧ toIp = call.toIp then [call.distance]
      else entries history.map fromIp toIp := by
    have once := append_entries history.map call.fromIp call.toIp call.distance holds fromIp toIp
    have single : recorded call.distance (entries history.map call.fromIp call.toIp) =
        [call.distance] := by
      rcases best call.fromIp call.toIp with ⟨-, fresh⟩ | ⟨least, -, only, -⟩
      · rw [fresh, recorded]
      · rw [only, recorded, if_pos (improves least (by simp [only]))]
    rw [single] at once
    exact once
  intro fromIp toIp
  rw [changed, given_step]
  by_cases here : fromIp = call.fromIp ∧ toIp = call.toIp
  · obtain ⟨rfl, rfl⟩ := here
    refine Or.inr ⟨call.distance, by simp, by simp, ?_⟩
    intro other member
    simp only [and_self, if_true, List.singleton_append, List.mem_cons] at member
    rcases member with rfl | earlier
    · exact UInt32.le_refl _
    · rcases best call.fromIp call.toIp with ⟨nothing, -⟩ | ⟨least, -, only, smallest⟩
      · simp [nothing] at earlier
      · have below : call.distance < least := improves least (by simp [only])
        exact UInt32.le_trans (UInt32.le_of_lt below) (smallest other earlier)
  · simpa [here] using best fromIp toIp

theorem reports_iff {history : History} (call : Append) (best : KeepsBest history) :
    Reports history call ↔ Improves history call := by
  simp only [Reports, append_returns_true, true_iff, Improves]
  rcases best call.fromIp call.toIp with ⟨nothing, fresh⟩ | ⟨least, present, only, -⟩
  · simp [nothing, fresh]
  · have announced : given history call.fromIp call.toIp ≠ [] := List.ne_nil_of_mem present
    simp [announced, only]

/-- Along every sequence of calls, the map holds the smallest distance of each
pair once and every call reports an improvement, exactly when every call brings
a new pair or a smaller distance. -/
theorem best_distance_throughout_iff (calls : List Append) :
    (Throughout step KeepsBest ⟨[], []⟩ calls ∧ EachStep step Reports ⟨[], []⟩ calls) ↔
      EachStep step Improves ⟨[], []⟩ calls := by
  refine throughout_and_each_step_iff_of_invariant step (fun history => FirstHolds history.map)
    KeepsBest Reports Improves ?_ ?_ ⟨[], []⟩ ?_ ?_ calls
  · intro history call holds
    exact append_first_holds history.map call.fromIp call.toIp call.distance holds
  · intro history call holds best
    rw [reports_iff call best]
    exact ⟨fun both => both.2, fun improves => ⟨best_kept holds best improves, improves⟩⟩
  · exact List.Pairwise.nil
  · simp [KeepsBest, given, entries]

/-- The same distance announced twice is recorded twice, and reported as an
improvement both times. -/
theorem repeated_distance_recorded_twice :
    let call : Append := ⟨⟨1, 0, 0, 0⟩, ⟨2, 0, 0, 0⟩, 5⟩
    entries (run step ⟨[], []⟩ [call, call]).map call.fromIp call.toIp = [5, 5] ∧
      (rMapAppend (run step ⟨[], []⟩ [call]).map call.fromIp call.toIp call.distance).1 = true ∧
      ¬(Throughout step KeepsBest ⟨[], []⟩ [call, call] ∧
        EachStep step Reports ⟨[], []⟩ [call, call]) := by
  refine ⟨by decide, by decide, ?_⟩
  rintro ⟨kept, -⟩
  rcases kept.2.2 ⟨1, 0, 0, 0⟩ ⟨2, 0, 0, 0⟩ with ⟨nothing, -⟩ | ⟨least, -, only, -⟩
  · exact absurd nothing (by decide)
  · have two : entries (run step ⟨[], []⟩ [⟨⟨1, 0, 0, 0⟩, ⟨2, 0, 0, 0⟩, 5⟩,
        ⟨⟨1, 0, 0, 0⟩, ⟨2, 0, 0, 0⟩, 5⟩]).map ⟨1, 0, 0, 0⟩ ⟨2, 0, 0, 0⟩ = [5, 5] := by decide
    exact absurd (congrArg List.length (two.symm.trans only)) (by simp)

end Cprogramming.LinkLayer.DistanceMap
