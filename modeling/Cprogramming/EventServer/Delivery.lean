import Cprogramming.Library.Runs
import Mathlib.Data.List.Basic

/-!
# The sending of a response

`event_write` of `main.c`: each call sends what is left of the header, then of the
body, and adds what `send` returns to `header_sent` or `body_sent`. It adds the `-1` of
a failed `send` too, so that a byte that has been sent counts as unsent again.
-/

namespace Cprogramming.EventServer.Delivery

open Library.Runs

set_option autoImplicit false

/-! ## The callback -/

inductive Part where
  | header
  | body
deriving DecidableEq

/-- `send` fails or takes some bytes, at most what it is given. -/
inductive SendResult where
  | failed
  | sent (count : Nat)

/-- The value of `send` for that many bytes. -/
def SendResult.sendd (result : SendResult) (asked : Int) : Int :=
  match result with
  | .failed => -1
  | .sent count => min count asked

/-- `Message` with the places that have been handed over and whether the request has
been freed. -/
structure Response where
  header : List UInt8
  body : List UInt8
  headerSent : Int
  bodySent : Int
  handed : List (Part × Int)
  freed : Bool

def places (part : Part) (offset sendd : Int) : List (Part × Int) :=
  (List.range sendd.toNat).map fun index : Nat => (part, offset + index)

/-- The event is added only when `done` is set, and deleted with the request. -/
def eventWrite (response : Response) (result : SendResult) : Response :=
  let headerLeft := response.header.length - response.headerSent
  let bodyLeft := response.body.length - response.bodySent
  if response.freed then response
  else if headerLeft > 0 then
    { response with
      headerSent := response.headerSent + result.sendd headerLeft
      handed := response.handed ++ places .header response.headerSent (result.sendd headerLeft) }
  else if bodyLeft > 0 then
    { response with
      bodySent := response.bodySent + result.sendd bodyLeft
      handed := response.handed ++ places .body response.bodySent (result.sendd bodyLeft) }
  else if bodyLeft + headerLeft ≤ 0 then { response with freed := true }
  else response

def newResponse (header body : List UInt8) : Response := ⟨header, body, 0, 0, [], false⟩

/-! ## In order and once -/

def allPlaces (response : Response) : List (Part × Int) :=
  places .header 0 response.header.length ++ places .body 0 response.body.length

structure InOrder (response : Response) : Prop where
  handed : response.handed = (allPlaces response).take response.handed.length
  headerSent : 0 ≤ response.headerSent ∧ response.headerSent ≤ response.header.length
  bodySent : 0 ≤ response.bodySent ∧ response.bodySent ≤ response.body.length
  freed : response.freed = true → response.handed = allPlaces response

/-- A send fails only behind the first byte of its part, and takes bytes only if all
bytes that have been handed over are counted as sent. -/
def Counts (sent counted : Int) (handed : Nat) : SendResult → Prop
  | .failed => 0 < sent
  | .sent count => 0 < count → counted = handed

instance (sent counted : Int) (handed : Nat) :
    (result : SendResult) → Decidable (Counts sent counted handed result)
  | .failed => inferInstanceAs (Decidable (_ < _))
  | .sent _ => inferInstanceAs (Decidable (_ → _))

def Unspoiled (response : Response) (result : SendResult) : Prop :=
  response.freed = false →
    if response.headerSent < response.header.length then
      Counts response.headerSent response.headerSent response.handed.length result
    else response.bodySent < response.body.length →
      Counts response.bodySent (response.headerSent + response.bodySent) response.handed.length
        result

instance (response : Response) (result : SendResult) : Decidable (Unspoiled response result) :=
  inferInstanceAs (Decidable (_ → ite _ _ _))

/-! ## Places -/

variable {part : Part} {response : Response}

theorem places_length (part : Part) (offset sendd : Int) :
    (places part offset sendd).length = sendd.toNat := by
  simp [places]

theorem places_some {offset sendd : Int} {index : Nat} {place : Part × Int}
    (here : (places part offset sendd)[index]? = some place) : place = (part, offset + index) := by
  rw [places, List.getElem?_map] at here
  obtain ⟨position, found, rfl⟩ := Option.map_eq_some_iff.mp here
  obtain ⟨_, same⟩ := List.getElem?_eq_some_iff.mp found
  rw [List.getElem_range] at same
  rw [same]

theorem places_append (part : Part) {first more : Int} (firstPositive : 0 ≤ first)
    (morePositive : 0 ≤ more) :
    places part 0 first ++ places part first more = places part 0 (first + more) := by
  have split : (first + more).toNat = first.toNat + more.toNat := by omega
  rw [places, places, places, split, List.range_add, List.map_append, List.map_map]
  congr 1
  refine List.map_congr_left fun index _ => ?_
  refine Prod.ext rfl ?_
  simp only [Function.comp_apply]
  omega

theorem take_places (part : Part) {count size : Nat} (within : count ≤ size) :
    (places part 0 size).take count = places part 0 count := by
  simp [places, ← List.map_take, List.take_range, Nat.min_eq_left within]

theorem all_places_some {index : Nat} {place : Part × Int}
    (here : (allPlaces response)[index]? = some place) : place = (.header, (index : Int)) ∨
      place = (.body, (index : Int) - response.header.length) := by
  rw [allPlaces, List.getElem?_append] at here
  split at here
  · have same := places_some here
    rw [Int.zero_add] at same
    exact Or.inl same
  · have behind : ¬ index < (places .header 0 response.header.length).length := by assumption
    have same := places_some here
    rw [places_length] at same behind
    refine Or.inr (same.trans (Prod.ext rfl ?_))
    omega

theorem all_places_end (response : Response) :
    (allPlaces response).length = response.header.length + response.body.length := by
  simp [allPlaces, places_length]

/-! ### The bytes -/

def byteAt (response : Response) : Part × Int → Option UInt8
  | (.header, offset) => response.header[offset.toNat]?
  | (.body, offset) => response.body[offset.toNat]?

theorem places_bytes {bytes : List UInt8} (byte : Part × Int → Option UInt8)
    (reads : ∀ offset, byte (part, offset) = bytes[offset.toNat]?) :
    (places part 0 bytes.length).map byte = bytes.map some := by
  refine List.ext_getElem (by simp [places_length]) fun index bound _ => ?_
  have within : index < bytes.length := by
    simpa [places_length] using bound
  simp [places, reads, within]

/-- Bytes that are handed over in order are the first bytes of header and body. -/
theorem in_order_bytes (ordered : InOrder response) : response.handed.map (byteAt response) =
      ((response.header ++ response.body).map some).take response.handed.length := by
  have all : (allPlaces response).map (byteAt response) =
      (response.header ++ response.body).map some := by
    rw [allPlaces, List.map_append, List.map_append,
      places_bytes _ fun _ => rfl, places_bytes _ fun _ => rfl]
  rw [← all, ← List.map_take, ← ordered.handed]

/-! ## The invariant -/

variable {headerCount bodyCount : Nat}

/-- Some of the header has been handed over, or all of it and some of the body. -/
structure HandedOver (response : Response) (headerCount bodyCount : Nat) : Prop where
  handed : response.handed = places .header 0 headerCount ++ places .body 0 bodyCount
  header : headerCount ≤ response.header.length
  body : bodyCount ≤ response.body.length
  ordered : bodyCount = 0 ∨ headerCount = response.header.length

theorem handed_length (handed : HandedOver response headerCount bodyCount) :
    response.handed.length = headerCount + bodyCount := by
  simp [handed.handed, places_length]

theorem handed_over_take (handed : HandedOver response headerCount bodyCount) :
    response.handed = (allPlaces response).take response.handed.length := by
  rw [handed_length handed, handed.handed, allPlaces, List.take_append, places_length]
  have whole : (response.header.length : Int).toNat = response.header.length := by omega
  rw [whole]
  rcases handed.ordered with rfl | rfl
  · rw [Nat.add_zero, take_places .header handed.header,
      Nat.sub_eq_zero_of_le handed.header]
    rfl
  · rw [List.take_of_length_le (by rw [places_length]; omega), Nat.add_sub_cancel_left,
      take_places .body handed.body]

/-- Where the sending is. A failed send may have been counted since the last byte. -/
inductive Stage (response : Response) (headerCount bodyCount : Nat) : Prop
  | header (left : response.headerSent < response.header.length) (untouched : response.bodySent = 0)
      (nothing : bodyCount = 0) (positive : 0 ≤ response.headerSent)
      (counted : response.headerSent ≤ headerCount) (alive : response.freed = false)
  | body (whole : headerCount = response.header.length)
      (complete : response.headerSent = response.header.length) (positive : 0 ≤ response.bodySent)
      (counted : response.bodySent ≤ bodyCount)
      (freed : response.freed = true → response.bodySent = response.body.length)

structure Known (response : Response) (headerCount bodyCount : Nat) : Prop where
  handed : HandedOver response headerCount bodyCount
  stage : Stage response headerCount bodyCount

theorem known_in_order (known : Known response headerCount bodyCount) : InOrder response := by
  obtain ⟨handed, stage⟩ := known
  have take := handed_over_take handed
  have bodyBound := handed.body
  cases stage with
  | header left untouched nothing positive counted alive =>
    refine ⟨take, ⟨positive, by omega⟩, ⟨by omega, by omega⟩, ?_⟩
    rw [alive]
    rintro ⟨⟩
  | body whole complete positive counted freed =>
    refine ⟨take, ⟨by omega, by omega⟩, ⟨positive, by omega⟩, ?_⟩
    intro gone
    have all := freed gone
    rw [take, handed_length handed]
    refine List.take_of_length_le ?_
    rw [all_places_end]
    omega

/-! ## One call -/

variable {result : SendResult}

theorem sendd_bound (result : SendResult) (asked : Int) (positive : 0 < asked) :
    -1 ≤ result.sendd asked ∧ result.sendd asked ≤ asked := by
  cases result with
  | failed => exact ⟨Int.le_refl _, by rw [SendResult.sendd]; omega⟩
  | sent count =>
    rw [SendResult.sendd]
    omega

theorem write_header (result : SendResult) (alive : response.freed = false)
    (left : response.headerSent < response.header.length) : eventWrite response result =
      { response with
        headerSent := response.headerSent +
          result.sendd (response.header.length - response.headerSent)
        handed := response.handed ++ places .header response.headerSent
          (result.sendd (response.header.length - response.headerSent)) } := by
  rw [eventWrite, alive, if_neg Bool.false_ne_true, if_pos (by omega)]

theorem write_body (result : SendResult) (alive : response.freed = false)
    (complete : response.headerSent = response.header.length)
    (left : response.bodySent < response.body.length) : eventWrite response result =
      { response with
        bodySent := response.bodySent + result.sendd (response.body.length - response.bodySent)
        handed := response.handed ++ places .body response.bodySent
          (result.sendd (response.body.length - response.bodySent)) } := by
  rw [eventWrite, alive, if_neg Bool.false_ne_true, if_neg (by omega), if_pos (by omega)]

theorem write_end (result : SendResult) (alive : response.freed = false)
    (complete : response.headerSent = response.header.length)
    (whole : response.bodySent = response.body.length) :
    eventWrite response result = { response with freed := true } := by
  rw [eventWrite, alive, if_neg Bool.false_ne_true, if_neg (by omega), if_neg (by omega),
    if_pos (by omega)]

theorem counted_send (part : Part) (result : SendResult) (sent counted : Int) (asked : Int)
    (count handed : Nat) (positive : 0 ≤ sent) (within : sent ≤ count) (some' : 0 < asked)
    (counts : Counts sent counted handed result) (same : counted = handed → sent = count) :
    0 ≤ sent + result.sendd asked ∧
      ∃ more : Nat, places part 0 count ++ places part sent (result.sendd asked) =
          places part 0 ((count + more : Nat) : Int) ∧ sent + result.sendd asked ≤ count + more ∧
        (more = 0 ∨ sent + result.sendd asked = count + more) := by
  cases result with
  | failed =>
    have first : 0 < sent := counts
    refine ⟨by rw [SendResult.sendd]; omega, 0, ?_, by rw [SendResult.sendd]; omega, Or.inl rfl⟩
    exact List.append_nil _
  | sent number =>
    have takes : (SendResult.sent number).sendd asked = ((min number asked.toNat : Nat) : Int) := by
      rw [SendResult.sendd]
      omega
    rw [takes]
    by_cases nothing : min number asked.toNat = 0
    · rw [nothing]
      exact ⟨by omega, 0, List.append_nil _, by omega, Or.inl rfl⟩
    · have exact_ : sent = count := same (counts (by omega))
      refine ⟨by omega, min number asked.toNat, ?_, by omega, Or.inr (by omega)⟩
      rw [exact_, places_append part (by omega) (by omega)]
      rfl

theorem known_header_write (handed : HandedOver response headerCount 0)
    (left : response.headerSent < response.header.length) (untouched : response.bodySent = 0)
    (positive : 0 ≤ response.headerSent) (counted : response.headerSent ≤ headerCount)
    (alive : response.freed = false)
    (counts : Counts response.headerSent response.headerSent response.handed.length result) :
    ∃ header, Known (eventWrite response result) header 0 := by
  have size := handed_length handed
  have headerBound := handed.header
  obtain ⟨still, more, grown, bound, exactly⟩ := counted_send .header result response.headerSent
    response.headerSent (response.header.length - response.headerSent) headerCount
    response.handed.length positive counted (by omega) counts (fun same => by omega)
  have takes := sendd_bound result (response.header.length - response.headerSent) (by omega)
  have nowHanded : response.handed ++ places .header response.headerSent
      (result.sendd (response.header.length - response.headerSent)) =
        places .header 0 ((headerCount + more : Nat) : Int) ++ places .body 0 (0 : Nat) := by
    rw [handed.handed, ← grown]
    simp [places]
  rw [write_header result alive left]
  refine ⟨headerCount + more, ⟨nowHanded, ?_, Nat.zero_le _, Or.inl rfl⟩, ?_⟩
  · show headerCount + more ≤ response.header.length
    omega
  · by_cases last : response.headerSent +
        result.sendd (response.header.length - response.headerSent) < response.header.length
    · exact .header last untouched rfl still bound alive
    · have complete : response.headerSent +
          result.sendd (response.header.length - response.headerSent) =
            response.header.length := by omega
      refine .body (by show headerCount + more = response.header.length; omega) complete
        (Int.le_of_eq untouched.symm) (Int.le_of_eq untouched) ?_
      intro gone
      rw [alive] at gone
      cases gone

theorem known_body_write (handed : HandedOver response headerCount bodyCount)
    (whole : headerCount = response.header.length)
    (complete : response.headerSent = response.header.length)
    (left : response.bodySent < response.body.length) (positive : 0 ≤ response.bodySent)
    (counted : response.bodySent ≤ bodyCount) (alive : response.freed = false)
    (counts : Counts response.bodySent (response.headerSent + response.bodySent)
      response.handed.length result) :
    ∃ body, Known (eventWrite response result) headerCount body := by
  have size := handed_length handed
  have bodyBound := handed.body
  obtain ⟨still, more, grown, bound, exactly⟩ := counted_send .body result response.bodySent
    (response.headerSent + response.bodySent) (response.body.length - response.bodySent) bodyCount
    response.handed.length positive counted (by omega) counts (fun same => by omega)
  have takes := sendd_bound result (response.body.length - response.bodySent) (by omega)
  rw [write_body result alive complete left]
  refine ⟨bodyCount + more, ⟨?_, handed.header, ?_, Or.inr whole⟩,
    .body whole complete still bound ?_⟩
  · show response.handed ++ _ = _
    rw [handed.handed, List.append_assoc, grown]
  · show bodyCount + more ≤ response.body.length
    omega
  · intro impossible
    rw [alive] at impossible
    cases impossible

theorem unspoiled_known (known : Known response headerCount bodyCount)
    (unspoiled : Unspoiled response result) :
    ∃ header body, Known (eventWrite response result) header body := by
  obtain ⟨handed, stage⟩ := known
  have bodyBound := handed.body
  cases stage with
  | header left untouched nothing positive counted alive =>
    have counts := unspoiled alive
    rw [if_pos left] at counts
    subst nothing
    obtain ⟨header, kept⟩ := known_header_write handed left untouched positive counted alive counts
    exact ⟨header, 0, kept⟩
  | body whole complete positive counted freed =>
    cases gone : response.freed with
    | true =>
      have same : eventWrite response result = response := by
        rw [eventWrite, gone, if_pos rfl]
      rw [same]
      exact ⟨headerCount, bodyCount, handed, .body whole complete positive counted freed⟩
    | false =>
      by_cases left : response.bodySent < response.body.length
      · have counts := unspoiled gone
        rw [if_neg (by omega)] at counts
        obtain ⟨body, kept⟩ := known_body_write handed
          whole complete left positive counted gone (counts left)
        exact ⟨headerCount, body, kept⟩
      · have all : response.bodySent = response.body.length := by omega
        rw [write_end result gone complete all]
        exact ⟨headerCount, bodyCount,
          ⟨handed.handed, handed.header, bodyBound, handed.ordered⟩,
          .body whole complete positive counted fun _ => all⟩

theorem in_order_next {earlier : List (Part × Int)} {offset sendd : Int} (positive : 0 < sendd)
    (next : response.handed = earlier ++ places part offset sendd) (ordered : InOrder response) :
    (allPlaces response)[earlier.length]? = some (part, offset) := by
  obtain ⟨count, size⟩ : ∃ count, sendd.toNat = count + 1 := ⟨sendd.toNat - 1, by omega⟩
  have here : response.handed[earlier.length]? = some (part, offset) := by
    rw [next, List.getElem?_append_right (Nat.le_refl _), Nat.sub_self, places, size,
      List.range_succ_eq_map, List.map_cons, Int.natCast_zero, Int.add_zero]
    rfl
  rw [ordered.handed, List.getElem?_take] at here
  split at here
  · exact here
  · cases here

theorem spoiled_out_of_order (known : Known response headerCount bodyCount)
    (spoiled : ¬ Unspoiled response result) : ¬ InOrder (eventWrite response result) := by
  obtain ⟨handed, stage⟩ := known
  have size := handed_length handed
  have headerBound := handed.header
  have bodyBound := handed.body
  rw [Unspoiled, Classical.not_imp] at spoiled
  obtain ⟨alive, violated⟩ := spoiled
  intro ordered
  by_cases left : response.headerSent < response.header.length
  · rw [if_pos left] at violated
    rw [write_header result alive left] at ordered
    cases stage with
    | body whole complete positive counted freed => omega
    | header _ untouched nothing positive counted _ =>
      cases result with
      | failed =>
        have first : ¬ 0 < response.headerSent := violated
        have bound := ordered.headerSent.1
        simp only [SendResult.sendd] at bound
        omega
      | sent count =>
        simp only [Counts, Classical.not_imp] at violated
        obtain ⟨positiveCount, uncounted⟩ := violated
        have next := in_order_next (by rw [SendResult.sendd]; omega) rfl ordered
        rcases all_places_some next with same | impossible
        · exact uncounted (Prod.mk.inj same).2
        · cases impossible
  · rw [if_neg left, Classical.not_imp] at violated
    obtain ⟨bodyLeft, violated⟩ := violated
    cases stage with
    | header left' untouched nothing positive counted _ => exact left left'
    | body whole complete positive counted freed =>
      rw [write_body result alive complete bodyLeft] at ordered
      cases result with
      | failed =>
        have first : ¬ 0 < response.bodySent := violated
        have bound := ordered.bodySent.1
        simp only [SendResult.sendd] at bound
        omega
      | sent count =>
        simp only [Counts, Classical.not_imp] at violated
        obtain ⟨positiveCount, uncounted⟩ := violated
        have next := in_order_next (by rw [SendResult.sendd]; omega) rfl ordered
        rcases all_places_some next with impossible | same
        · cases impossible
        · have offset := (Prod.mk.inj same).2
          simp only at offset
          omega

/-! ## Whole runs -/

/-- For every header and body and every results of `send`: the bytes are handed over
in order and once in every state of a run exactly when no send takes bytes after a
failure has been counted and none fails before the first byte of its part. -/
theorem response_in_order_iff (header body : List UInt8) (results : List SendResult) :
    Throughout eventWrite InOrder (newResponse header body) results ↔
      EachStep eventWrite Unspoiled (newResponse header body) results := by
  refine throughout_iff_of_good_steps eventWrite
    (fun response => ∃ headerCount bodyCount, Known response headerCount bodyCount) InOrder
    Unspoiled ?_ ?_ ?_ _ ?_ results
  · rintro response ⟨headerCount, bodyCount, known⟩
    exact known_in_order known
  · rintro response result ⟨headerCount, bodyCount, known⟩ unspoiled
    exact unspoiled_known known unspoiled
  · rintro response result ⟨headerCount, bodyCount, known⟩ spoiled
    exact spoiled_out_of_order known spoiled
  · refine ⟨0, 0, ⟨rfl, Nat.zero_le _, Nat.zero_le _, Or.inl rfl⟩, ?_⟩
    by_cases empty : header.length = 0
    · exact .body empty.symm (by rw [newResponse, empty]; rfl) (Int.le_refl 0) (Int.le_refl 0)
        (by rintro ⟨⟩)
    · exact .header (by show (0 : Int) < header.length; omega) rfl rfl (Int.le_refl 0)
        (Int.le_refl 0) rfl

/-- A send of a hundred bytes takes fifty, the next one fails, and the third one hands the
last of the fifty over again. -/
theorem failed_send_repeats_byte :
    (run eventWrite (newResponse (List.replicate 100 65) [])
        [.sent 50, .failed, .sent 51]).handed.count (.header, 49) = 2 ∧
      ¬ Throughout eventWrite InOrder (newResponse (List.replicate 100 65) [])
        [.sent 50, .failed, .sent 51] := by
  refine ⟨by decide +kernel, fun ordered => ?_⟩
  exact absurd (throughout_run eventWrite InOrder _ _ ordered).handed (by decide +kernel)

end Cprogramming.EventServer.Delivery
