import Mathlib.Algebra.Group.Nat.Defs
import Mathlib.Data.List.Nodup
import Mathlib.Data.List.Perm.Subperm
import Cprogramming.EventServer.Metrics
import Cprogramming.Library.Runs

/-!
# The list of stale values

Before and after a collection the list `old_values` of a metric should hold exactly the
values that are not marked as updated, each once. The first loop of `registry_collect`
puts every value on the list. That is right if the list is empty. If a value is left on
it from the last collection, because a collector failed or returned early, the list
leads back into itself from then on: `metric_clear_old_values` uses a freed value, and
nothing that a collector can do makes the list end.
-/

namespace Cprogramming.EventServer.StaleValues

open Library.IntrusiveList Library.OrderedTree Library.Runs Metrics

set_option autoImplicit false

variable {Labels Double : Type}

/-! ## The property -/

/-- The list holds the values that are not updated, each once. -/
structure Listed (metric : Metric Labels Double) (stale : List Nat) : Prop where
  holds : Holds metric.oldValues stale
  exactly : ∀ id, id ∈ stale ↔ ∃ value ∈ metric.values, value.id = id ∧ value.updated = false

/-- The list is right, and clearing the old values takes out exactly those that are not
updated. -/
def Right (metric : Metric Labels Double) : Prop :=
  (∃ stale, Listed metric stale) ∧
    ∃ after, metricClearOldValues metric = some after ∧
      after.values = metric.values.filter fun value => value.updated

def AllRight : Option (Registry Labels Double) → Prop
  | none => False
  | some registry => ∀ metric ∈ registry, Right metric

def AllUpdated (registry : Option (Registry Labels Double)) (_ : Call Labels Double) : Prop :=
  ∀ current, registry = some current →
    ∀ metric ∈ current, ∀ value ∈ metric.values, value.updated = true

/-! ## Metrics with a right list -/

variable {metric : Metric Labels Double} {value : MetricVal Labels Double}

/-- The values are different allocations that have not been freed. -/
structure Sound (metric : Metric Labels Double) : Prop where
  distinct : (metric.values.map MetricVal.id).Nodup
  old : ∀ value ∈ metric.values, value.id < metric.fresh
  live : ∀ value ∈ metric.values, metric.oldValues.live value.id = true
  listed : ∃ stale, Listed metric stale

theorem value_of_id (distinct : (metric.values.map MetricVal.id).Nodup)
    {left right : MetricVal Labels Double} (leftIn : left ∈ metric.values)
    (rightIn : right ∈ metric.values) (same : left.id = right.id) : left = right := by
  exact List.inj_on_of_nodup_map distinct leftIn rightIn same

theorem stale_iff {stale : List Nat} (distinct : (metric.values.map MetricVal.id).Nodup)
    (listed : Listed metric stale) (member : value ∈ metric.values) :
    value.id ∈ stale ↔ value.updated = false := by
  rw [listed.exactly]
  constructor
  · rintro ⟨other, inside, same, old⟩
    obtain rfl := value_of_id distinct inside member same
    exact old
  · intro old
    exact ⟨value, member, rfl, old⟩

theorem sound_new (valType : MetricValType) : Sound (metricNew valType : Metric Labels Double) where
  distinct := List.nodup_nil
  old := by
    intro value member
    cases member
  live := by
    intro value member
    cases member
  listed := ⟨[], holds_init, by simp [metricNew]⟩

/-! ## Taking a value off the list -/

variable (compareLabelVals : Labels → Labels → Int) (links : Links Nat)

theorem remove_old_holds (stale : List Nat) (value : MetricVal Labels Double)
    (holds : Holds links stale) (exactly : value.id ∈ stale ↔ value.updated = false) :
    ∃ after, removeOld links value = some after ∧ after.live = links.live ∧
      Holds after (stale.erase value.id) := by
  cases flag : value.updated with
  | true =>
    have absent : value.id ∉ stale := by
      rw [exactly, flag]
      decide
    rw [List.erase_of_not_mem absent]
    exact ⟨links, by simp [removeOld, flag], rfl, holds⟩
  | false =>
    obtain ⟨after, removed, held⟩ := holds_remove links stale value.id holds (exactly.mpr flag)
    obtain ⟨_, _, alive, _⟩ := remove_fields links after value.id removed
    exact ⟨after, by simpa [removeOld, flag] using removed, alive, held⟩

theorem remove_old_looped (after : Links Nat) (inner : Nat → Prop)
    (value : MetricVal Labels Double) (looped : Looped links inner)
    (inside : value.updated = false → inner value.id)
    (removed : removeOld links value = some after) : Looped after inner := by
  rw [removeOld] at removed
  split_ifs at removed with flag
  · obtain rfl := Option.some.inj removed
    exact looped
  · exact looped_remove links after inner looped value.id (inside (by simpa using flag)) removed

/-! ## New values -/

theorem insert_values (metric : Metric Labels Double) (labels : Labels) (reading : Reading Double) :
    (metric.insert compareLabelVals labels reading).values = metric.values ∨
      (metric.insert compareLabelVals labels reading).values.Perm
        (metric.newVal labels reading :: metric.values) := by
  rw [Metric.insert]
  cases inserted : rbInsert (compareMetricVals compareLabelVals) (metric.newVal labels reading)
      metric.values with
  | none => exact .inl rfl
  | some tree => exact .inr (rb_insert_perm _ _ _ _ inserted)

theorem mem_insert_values {labels : Labels} {reading : Reading Double}
    (member : value ∈ (metric.insert compareLabelVals labels reading).values) :
    value = metric.newVal labels reading ∨ value ∈ metric.values := by
  rcases insert_values compareLabelVals metric labels reading with same | added
  · rw [same] at member
    exact .inr member
  · exact List.mem_cons.mp (added.mem_iff.mp member)

theorem insert_values_old (labels : Labels) (reading : Reading Double)
    (member : value ∈ metric.values) :
    value ∈ (metric.insert compareLabelVals labels reading).values := by
  rcases insert_values compareLabelVals metric labels reading with same | added
  · rw [same]
    exact member
  · exact added.mem_iff.mpr (List.mem_cons_of_mem _ member)

theorem sound_insert (sound : Sound metric) (labels : Labels) (reading : Reading Double) :
    Sound (metric.insert compareLabelVals labels reading) where
  distinct := by
    rcases insert_values compareLabelVals metric labels reading with same | added
    · rw [same]
      exact sound.distinct
    · rw [(added.map MetricVal.id).nodup_iff, List.map_cons, List.nodup_cons]
      refine ⟨?_, sound.distinct⟩
      intro taken
      obtain ⟨value, member, same⟩ := List.mem_map.mp taken
      have below := sound.old value member
      have equal : value.id = metric.fresh := same
      omega
  old := by
    intro value member
    rcases mem_insert_values compareLabelVals member with rfl | before
    · exact Nat.lt_succ_self metric.fresh
    · exact Nat.lt_succ_of_lt (sound.old value before)
  live := by
    intro value member
    rcases mem_insert_values compareLabelVals member with rfl | before
    · exact Function.update_self metric.fresh true metric.oldValues.live
    · have below := sound.old value before
      have apart : value.id ≠ metric.fresh := by omega
      exact (Function.update_of_ne apart true metric.oldValues.live).trans (sound.live value before)
  listed := by
    obtain ⟨stale, listed⟩ := sound.listed
    refine ⟨stale, holds_allocate _ stale _ ?_ listed.holds, ?_⟩
    · intro inside
      obtain ⟨value, member, same, _⟩ := (listed.exactly metric.fresh).mp inside
      have below := sound.old value member
      omega
    · intro id
      rw [listed.exactly]
      constructor
      · rintro ⟨value, member, same, old⟩
        exact ⟨value, insert_values_old compareLabelVals labels reading member, same, old⟩
      · rintro ⟨value, member, same, old⟩
        rcases mem_insert_values compareLabelVals member with
          rfl | before
        · cases old
        · exact ⟨value, before, same, old⟩

/-! ## Updates -/

theorem touched_id (value : MetricVal Labels Double) (change : Reading Double → Reading Double)
    (other : MetricVal Labels Double) : (touched value change other).id = other.id := by
  rw [touched]
  split_ifs <;> rfl

theorem touched_stale (value : MetricVal Labels Double)
    (change : Reading Double → Reading Double) (other : MetricVal Labels Double) :
    (touched value change other).updated = false ↔ other.id ≠ value.id ∧ other.updated = false := by
  rw [touched]
  split_ifs with same
  · simp [same]
  · simp [same]

theorem sound_touch (sound : Sound metric) (member : value ∈ metric.values)
    (change : Reading Double → Reading Double) :
    ∃ after, metric.touch value change = some after ∧ Sound after := by
  obtain ⟨stale, listed⟩ := sound.listed
  obtain ⟨links, removed, alive, holds⟩ := remove_old_holds metric.oldValues stale value
    listed.holds (stale_iff sound.distinct listed member)
  have ids : (metric.values.map (touched value change)).map MetricVal.id =
      metric.values.map MetricVal.id := by
    rw [List.map_map]
    exact List.map_congr_left fun other _ => touched_id value change other
  have origin : ∀ other ∈ metric.values.map (touched value change),
      ∃ before ∈ metric.values, before.id = other.id := by
    intro other inside
    obtain ⟨before, found, rfl⟩ := List.mem_map.mp inside
    exact ⟨before, found, (touched_id value change before).symm⟩
  refine ⟨{ metric with values := metric.values.map (touched value change), oldValues := links },
    ?_, ?_⟩
  · rw [Metric.touch, removed]
    rfl
  · constructor
    · exact ids ▸ sound.distinct
    · intro other inside
      obtain ⟨before, found, same⟩ := origin other inside
      exact same ▸ sound.old before found
    · intro other inside
      obtain ⟨before, found, same⟩ := origin other inside
      rw [← same]
      exact (congrFun alive before.id).trans (sound.live before found)
    · refine ⟨stale.erase value.id, holds, ?_⟩
      intro id
      rw [listed.holds.once.mem_erase_iff, listed.exactly]
      constructor
      · rintro ⟨apart, other, inside, rfl, old⟩
        exact ⟨touched value change other, List.mem_map_of_mem inside,
          touched_id value change other, (touched_stale value change other).mpr ⟨apart, old⟩⟩
      · rintro ⟨other, inside, rfl, old⟩
        obtain ⟨before, found, rfl⟩ := List.mem_map.mp inside
        obtain ⟨apart, flag⟩ := (touched_stale value change before).mp old
        rw [touched_id]
        exact ⟨apart, before, found, rfl, flag⟩

/-! ## Clearing a metric -/

theorem clear_from_holds (values : List (MetricVal Labels Double)) (stale : List Nat)
    (holds : Holds links stale) (distinct : (values.map MetricVal.id).Nodup)
    (exactly : ∀ id, id ∈ stale ↔ ∃ value ∈ values, value.id = id ∧ value.updated = false) :
    ∃ after, clearFrom links values = some after ∧ Holds after [] := by
  induction values generalizing links stale with
  | nil =>
    have empty : stale = [] := List.eq_nil_iff_forall_not_mem.mpr (by simp [exactly])
    subst empty
    exact ⟨links, rfl, holds⟩
  | cons value rest ih =>
    obtain ⟨outside, later⟩ := List.nodup_cons.mp distinct
    have others : ∀ other ∈ rest, other.id ≠ value.id := by
      intro other inside same
      exact outside (same ▸ List.mem_map_of_mem inside)
    have here : value.id ∈ stale ↔ value.updated = false := by
      rw [exactly]
      constructor
      · rintro ⟨other, member, same, old⟩
        rcases List.mem_cons.mp member with rfl | inside
        · exact old
        · exact absurd same (others other inside)
      · intro old
        exact ⟨value, List.mem_cons_self, rfl, old⟩
    obtain ⟨removed, one, _, held⟩ := remove_old_holds links stale value holds here
    have gone : value.id ∉ stale.erase value.id := holds.once.not_mem_erase
    obtain ⟨after, all, empty⟩ := ih (removed.free value.id) (stale.erase value.id)
      (holds_free removed _ value.id gone held) later (by
        intro id
        rw [holds.once.mem_erase_iff, exactly]
        constructor
        · rintro ⟨apart, other, member, same, old⟩
          rcases List.mem_cons.mp member with rfl | inside
          · exact absurd same.symm apart
          · exact ⟨other, inside, same, old⟩
        · rintro ⟨other, inside, same, old⟩
          exact ⟨same ▸ others other inside, other, List.mem_cons_of_mem value inside, same, old⟩)
    refine ⟨after, ?_, empty⟩
    rw [clearFrom, one]
    exact all

theorem sound_clear (sound : Sound metric) :
    ∃ after, metricClear metric = some after ∧ Sound after := by
  obtain ⟨stale, listed⟩ := sound.listed
  obtain ⟨links, cleared, empty⟩ := clear_from_holds metric.oldValues metric.values stale
    listed.holds sound.distinct listed.exactly
  refine ⟨{ metric with values := [], oldValues := links }, ?_, ?_⟩
  · rw [metricClear, cleared]
    rfl
  · refine ⟨List.nodup_nil, ?_, ?_, [], empty, by simp⟩
    · intro value member
      cases member
    · intro value member
      cases member

/-! ## Clearing the old values -/

theorem clear_old_from (fuel : Nat) (metric : Metric Labels Double) (stale : List Nat)
    (holds : Holds metric.oldValues stale) (enough : stale.length < fuel) :
    ∃ after, clearOldFrom fuel metric = some after ∧ after.fresh = metric.fresh ∧
      after.values = metric.values.filter (fun value => value.id ∉ stale) ∧
      Holds after.oldValues [] ∧
      ∀ id, id ∉ stale → after.oldValues.live id = metric.oldValues.live id := by
  induction stale generalizing fuel metric with
  | nil =>
    obtain ⟨fuel, rfl⟩ := Nat.exists_eq_succ_of_ne_zero (Nat.ne_of_gt enough)
    refine ⟨metric, ?_, rfl, by simp, holds, fun _ _ => rfl⟩
    rw [clearOldFrom, show metric.oldValues.target .first = none from holds.linked]
  | cons first rest ih =>
    obtain ⟨fuel, rfl⟩ := Nat.exists_eq_succ_of_ne_zero (Nat.ne_of_gt (Nat.zero_lt_of_lt enough))
    obtain ⟨links, removed, held⟩ := holds_remove metric.oldValues (first :: rest) first holds
      List.mem_cons_self
    obtain ⟨_, _, alive, _⟩ := remove_fields metric.oldValues links first removed
    rw [List.erase_cons_head] at held
    have absent := (List.nodup_cons.mp holds.once).1
    obtain ⟨after, cleared, same, values, empty, living⟩ := ih fuel
      { metric with
        values := metric.values.filter fun value => value.id ≠ first
        oldValues := links.free first }
      (holds_free links rest first absent held) (Nat.lt_of_succ_lt_succ enough)
    refine ⟨after, ?_, same, ?_, empty, ?_⟩
    · simp only [clearOldFrom, holds.linked.1, removed, Option.bind_some]
      exact cleared
    · rw [values, List.filter_filter]
      apply List.filter_congr
      intro value _
      simp [Bool.and_comm]
    · intro id outside
      obtain ⟨apart, later⟩ := List.ne_and_not_mem_of_not_mem_cons outside
      rw [living id later, ← alive]
      exact Function.update_of_ne apart false links.live

theorem stale_length {stale : List Nat} (listed : Listed metric stale) :
    stale.length ≤ metric.values.length := by
  have inside : stale ⊆ metric.values.map MetricVal.id := by
    intro id member
    obtain ⟨value, found, same, _⟩ := (listed.exactly id).mp member
    exact same ▸ List.mem_map_of_mem found
  have bounded := (listed.holds.once.subperm inside).length_le
  rwa [List.length_map] at bounded

theorem clear_old_values (sound : Sound metric) :
    ∃ after, metricClearOldValues metric = some after ∧
      after.values = metric.values.filter (fun value => value.updated) ∧ Sound after := by
  obtain ⟨stale, listed⟩ := sound.listed
  obtain ⟨after, cleared, fresh, values, empty, living⟩ := clear_old_from
    (metric.values.length + 1) metric stale listed.holds
    (Nat.lt_succ_of_le (stale_length listed))
  have flags : ∀ value ∈ metric.values, value.id ∉ stale ↔ value.updated = true := by
    intro value member
    rw [stale_iff sound.distinct listed member, Bool.not_eq_false]
  have kept : after.values = metric.values.filter fun value => value.updated := by
    rw [values]
    apply List.filter_congr
    intro value member
    rw [Bool.eq_iff_iff, decide_eq_true_iff]
    exact flags value member
  have origin : ∀ value ∈ after.values, value ∈ metric.values ∧ value.updated = true := by
    intro value member
    rw [kept] at member
    exact List.mem_filter.mp member
  refine ⟨after, cleared, kept, ?_⟩
  constructor
  · rw [kept]
    exact (List.filter_sublist.map MetricVal.id).nodup sound.distinct
  · intro value member
    rw [fresh]
    exact sound.old value (origin value member).1
  · intro value member
    obtain ⟨before, flag⟩ := origin value member
    rw [living value.id ((flags value before).mpr flag)]
    exact sound.live value before
  · refine ⟨[], empty, ?_⟩
    intro id
    constructor
    · intro none
      cases none
    · rintro ⟨value, member, _, old⟩
      rw [(origin value member).2] at old
      cases old

theorem right_of_sound (sound : Sound metric) : Right metric := by
  obtain ⟨after, cleared, values, _⟩ := clear_old_values sound
  exact ⟨sound.listed, after, cleared, values⟩

theorem sound_apply [One Double] [Add Double] (compareLabelVals : Labels → Labels → Int)
    (sound : Sound metric) (op : Op Labels Double) :
    ∃ after, metric.apply compareLabelVals op = some after ∧ Sound after := by
  rcases apply_cases compareLabelVals metric op with
    same | ⟨labels, reading, added⟩ | ⟨value, member, change, touched⟩ | cleared | cleared
  · exact ⟨metric, same, sound⟩
  · exact ⟨_, added, sound_insert compareLabelVals sound labels reading⟩
  · rw [touched]
    exact sound_touch sound member change
  · rw [cleared]
    exact sound_clear sound
  · obtain ⟨after, clears, _, kept⟩ := clear_old_values sound
    exact ⟨after, cleared.trans clears, kept⟩

/-- A collection that finds every value updated finds the list empty. -/
theorem sound_mark (sound : Sound metric)
    (updated : ∀ value ∈ metric.values, value.updated = true) :
    ∃ after, metric.mark = some after ∧ Sound after := by
  obtain ⟨stale, listed⟩ := sound.listed
  have none : ∀ id, id ∉ stale := by
    intro id inside
    obtain ⟨value, member, _, old⟩ := (listed.exactly id).mp inside
    rw [updated value member] at old
    cases old
  have empty := List.eq_nil_iff_forall_not_mem.mpr none
  subst empty
  obtain ⟨links, inserted, alive, holds⟩ := holds_inserted metric.oldValues []
    (metric.values.map MetricVal.id) listed.holds sound.distinct (fun id _ => none id) (by
      intro id member
      obtain ⟨value, found, rfl⟩ := List.mem_map.mp member
      exact sound.live value found)
  refine ⟨_, by rw [Metric.mark, inserted]; rfl, ?_⟩
  constructor
  · rw [List.map_map]
    exact sound.distinct
  · intro value member
    obtain ⟨before, found, rfl⟩ := List.mem_map.mp member
    exact sound.old before found
  · intro value member
    obtain ⟨before, found, rfl⟩ := List.mem_map.mp member
    exact (congrFun alive before.id).trans (sound.live before found)
  · refine ⟨_, holds, ?_⟩
    intro id
    simp

/-! ## Metrics whose list never ends -/

variable {after : Metric Labels Double}

/-- The list leads back into itself, and every value that is not updated is inside. -/
structure Spoiled (metric : Metric Labels Double) (inner : Nat → Prop) : Prop where
  looped : Looped metric.oldValues inner
  old : ∀ id, inner id → id < metric.fresh
  stale : ∀ value ∈ metric.values, value.updated = false → inner value.id

theorem spoiled_not_right (inner : Nat → Prop) (spoiled : Spoiled metric inner) :
    ¬ Right metric := by
  rintro ⟨⟨stale, listed⟩, _⟩
  exact looped_not_holds metric.oldValues inner spoiled.looped stale listed.holds

theorem spoiled_insert (inner : Nat → Prop) (spoiled : Spoiled metric inner) (labels : Labels)
    (reading : Reading Double) : Spoiled (metric.insert compareLabelVals labels reading) inner where
  looped := looped_allocate metric.oldValues inner spoiled.looped metric.fresh
    (fun inside => Nat.lt_irrefl metric.fresh (spoiled.old metric.fresh inside))
  old := fun id inside => Nat.lt_succ_of_lt (spoiled.old id inside)
  stale := by
    intro value member flag
    rcases mem_insert_values compareLabelVals member with rfl | before
    · cases flag
    · exact spoiled.stale value before flag

theorem spoiled_touch (inner : Nat → Prop) (spoiled : Spoiled metric inner)
    (member : value ∈ metric.values) (change : Reading Double → Reading Double)
    (touches : metric.touch value change = some after) : Spoiled after inner := by
  obtain ⟨links, removed, rfl⟩ := Option.map_eq_some_iff.mp touches
  refine ⟨?_, spoiled.old, ?_⟩
  · exact remove_old_looped metric.oldValues links inner value spoiled.looped
      (spoiled.stale value member) removed
  · intro other inside flag
    obtain ⟨before, found, rfl⟩ := List.mem_map.mp inside
    have untouched := (touched_stale value change before).mp flag
    have kept := spoiled.stale before found untouched.2
    exact (touched_id value change before).symm ▸ kept

theorem clear_from_looped (after : Links Nat) (inner : Nat → Prop)
    (values : List (MetricVal Labels Double)) (looped : Looped links inner)
    (stale : ∀ value ∈ values, value.updated = false → inner value.id)
    (cleared : clearFrom links values = some after) : Looped after inner := by
  induction values generalizing links with
  | nil =>
    obtain rfl := Option.some.inj cleared
    exact looped
  | cons value rest ih =>
    obtain ⟨removed, one, others⟩ := Option.bind_eq_some_iff.mp cleared
    have still := remove_old_looped links removed inner value looped
      (stale value List.mem_cons_self) one
    exact ih (removed.free value.id) (looped_free removed inner still value.id)
      (fun other member => stale other (List.mem_cons_of_mem value member)) others

theorem clear_old_endless (fuel : Nat) (inner : Nat → Prop)
    (looped : Looped metric.oldValues inner) : clearOldFrom fuel metric = none := by
  induction fuel generalizing metric with
  | zero => rfl
  | succ fuel ih =>
    obtain ⟨first, leads, inside⟩ := looped.first
    simp only [clearOldFrom, leads]
    cases removed : metric.oldValues.remove first with
    | none => rfl
    | some links =>
      apply ih
      exact looped_free links inner
        (looped_remove metric.oldValues links inner looped first inside removed) first

theorem spoiled_apply [One Double] [Add Double] (compareLabelVals : Labels → Labels → Int)
    (inner : Nat → Prop) (spoiled : Spoiled metric inner) {op : Op Labels Double}
    (applied : metric.apply compareLabelVals op = some after) : Spoiled after inner := by
  rcases apply_cases compareLabelVals metric op with
    same | ⟨labels, reading, added⟩ | ⟨value, member, change, touched⟩ | cleared | cleared
  · obtain rfl := Option.some.inj (same.symm.trans applied)
    exact spoiled
  · obtain rfl := Option.some.inj (added.symm.trans applied)
    exact spoiled_insert compareLabelVals inner spoiled labels reading
  · exact spoiled_touch inner spoiled member change (touched.symm.trans applied)
  · obtain ⟨links, clears, rfl⟩ := Option.map_eq_some_iff.mp (cleared.symm.trans applied)
    refine ⟨?_, spoiled.old, ?_⟩
    · exact clear_from_looped metric.oldValues links inner metric.values spoiled.looped
        spoiled.stale clears
    · intro value member
      cases member
  · have never := clear_old_endless (metric.values.length + 1) inner spoiled.looped
    have returns := cleared.symm.trans applied
    exact absurd (returns.symm.trans never) (Option.some_ne_none after)

theorem spoiled_mark (sound : Sound metric) (member : value ∈ metric.values)
    (old : value.updated = false) (marked : metric.mark = some after) :
    Spoiled after (· ∈ metric.values.map MetricVal.id) := by
  obtain ⟨stale, listed⟩ := sound.listed
  obtain ⟨links, inserted, rfl⟩ := Option.map_eq_some_iff.mp marked
  have first : ∃ id, metric.oldValues.target .first = some id ∧
      id ∈ metric.values.map MetricVal.id := by
    cases stale with
    | nil => cases (listed.exactly value.id).mpr ⟨value, member, rfl, old⟩
    | cons head rest =>
      obtain ⟨other, inside, same, _⟩ := (listed.exactly head).mp List.mem_cons_self
      exact ⟨head, listed.holds.linked.1, same ▸ List.mem_map_of_mem inside⟩
  constructor
  · exact looped_of_inserted metric.oldValues links _ (metric.values.map MetricVal.id)
      (fun _ inside => inside) first (fun id inside absent => absurd inside absent) inserted
  · intro id inside
    obtain ⟨other, found, rfl⟩ := List.mem_map.mp inside
    exact sound.old other found
  · intro other inside _
    obtain ⟨before, found, rfl⟩ := List.mem_map.mp inside
    exact List.mem_map.mpr ⟨before, found, rfl⟩

/-! ## Calls -/

def AllSound : Option (Registry Labels Double) → Prop
  | none => False
  | some registry => ∀ metric ∈ registry, Sound metric

/-- Unless a freed value was used, a metric is spoiled. -/
def SomeSpoiled (registry : Option (Registry Labels Double)) : Prop :=
  ∀ current, registry = some current →
    ∃ (index : Nat) (metric : Metric Labels Double) (inner : Nat → Prop),
      current[index]? = some metric ∧ Spoiled metric inner

theorem all_sound_new (types : List MetricValType) :
    AllSound (some (registryNew types : Registry Labels Double)) := by
  intro metric member
  obtain ⟨valType, _, rfl⟩ := List.mem_map.mp member
  exact sound_new valType

theorem all_right_of_sound (registry : Option (Registry Labels Double))
    (sound : AllSound registry) : AllRight registry := by
  cases registry with
  | none => exact sound
  | some current =>
    intro metric member
    exact right_of_sound (sound metric member)

theorem spoiled_not_all_right {registry : Option (Registry Labels Double)}
    (spoiled : SomeSpoiled registry) : ¬ AllRight registry := by
  cases registry with
  | none => exact fun right => right
  | some current =>
    obtain ⟨index, metric, inner, found, looped⟩ := spoiled current rfl
    intro right
    exact spoiled_not_right inner looped (right metric (List.mem_of_getElem? found))

theorem all_sound_apply [One Double] [Add Double] (compareLabelVals : Labels → Labels → Int)
    (registry : Registry Labels Double) (action : Nat × Op Labels Double)
    (sound : AllSound (some registry)) : AllSound (applyAt compareLabelVals registry action) := by
  rw [applyAt]
  cases found : registry[action.1]? with
  | none => exact sound
  | some metric =>
    obtain ⟨after, applied, kept⟩ := sound_apply compareLabelVals
      (sound metric (List.mem_of_getElem? found)) action.2
    simp only [applied, Option.map_some]
    intro other member
    rcases List.mem_or_eq_of_mem_set member with before | rfl
    · exact sound other before
    · exact kept

theorem spoiled_apply_at [One Double] [Add Double] (compareLabelVals : Labels → Labels → Int)
    (registry : Registry Labels Double) (action : Nat × Op Labels Double)
    (spoiled : SomeSpoiled (some registry)) :
    SomeSpoiled (applyAt compareLabelVals registry action) := by
  rw [applyAt]
  cases found : registry[action.1]? with
  | none => exact spoiled
  | some metric =>
    intro current applied
    obtain ⟨after, one, rfl⟩ := Option.map_eq_some_iff.mp applied
    obtain ⟨index, other, inner, place, looped⟩ := spoiled registry rfl
    by_cases same : action.1 = index
    · subst same
      obtain rfl := Option.some.inj (found.symm.trans place)
      refine ⟨action.1, after, inner, ?_, spoiled_apply compareLabelVals inner looped one⟩
      rw [List.getElem?_set_self (List.getElem?_eq_some_iff.mp found).1]
    · refine ⟨index, other, inner, ?_, looped⟩
      rw [List.getElem?_set_ne same]
      exact place

theorem all_sound_mark {registry : Registry Labels Double} (sound : AllSound (some registry))
    (updated : ∀ metric ∈ registry, ∀ value ∈ metric.values, value.updated = true) :
    AllSound (markAll registry) := by
  induction registry with
  | nil => exact sound
  | cons metric rest ih =>
    obtain ⟨marked, one, kept⟩ := sound_mark (sound metric List.mem_cons_self)
      (updated metric List.mem_cons_self)
    have others := ih (fun other member => sound other (List.mem_cons_of_mem metric member))
      (fun other member => updated other (List.mem_cons_of_mem metric member))
    rw [markAll, one, Option.bind_some]
    cases all : markAll rest with
    | none =>
      rw [all] at others
      exact others
    | some after =>
      rw [all] at others
      intro other member
      rcases List.mem_cons.mp member with rfl | inside
      · exact kept
      · exact others other inside

theorem spoiled_mark_all {registry : Registry Labels Double} (sound : AllSound (some registry))
    (within : metric ∈ registry) (member : value ∈ metric.values) (old : value.updated = false) :
    SomeSpoiled (markAll registry) := by
  induction registry with
  | nil => cases within
  | cons head rest ih =>
    intro current marked
    obtain ⟨first, one, others⟩ := Option.bind_eq_some_iff.mp marked
    obtain ⟨after, all, rfl⟩ := Option.map_eq_some_iff.mp others
    rcases List.mem_cons.mp within with rfl | inside
    · exact ⟨0, first, _, rfl, spoiled_mark (sound metric List.mem_cons_self) member old one⟩
    · obtain ⟨index, other, inner, place, looped⟩ := ih
        (fun other member => sound other (List.mem_cons_of_mem head member)) inside after all
      exact ⟨index + 1, other, inner, place, looped⟩

/-- The lists are right before and after every collection exactly when each collection
finds no value that the last one left stale. -/
theorem stale_lists_right_iff [One Double] [Add Double]
    (compareLabelVals : Labels → Labels → Int) (types : List MetricValType)
    (calls : List (Call Labels Double)) :
    Throughout (collect compareLabelVals) AllRight (some (registryNew types)) calls ↔
      EachStep (collect compareLabelVals) AllUpdated (some (registryNew types)) calls := by
  apply throughout_iff_of_good_steps (collect compareLabelVals) AllSound AllRight AllUpdated
    all_right_of_sound _ _ _ (all_sound_new types) calls
  · intro registry call sound updated
    cases registry with
    | none => exact sound
    | some current =>
      exact call_keeps compareLabelVals AllSound (all_sound_apply compareLabelVals) current call
        (all_sound_mark sound (updated current rfl))
  · intro registry call sound left
    cases registry with
    | none => exact sound.elim
    | some current =>
      have found : ∃ metric ∈ current, ∃ value ∈ metric.values, value.updated = false := by
        by_contra missing
        apply left
        intro other same metric within value member
        obtain rfl := Option.some.inj same
        by_contra old
        exact missing ⟨metric, within, value, member, by simpa using old⟩
      obtain ⟨metric, within, value, member, old⟩ := found
      exact spoiled_not_all_right (call_keeps compareLabelVals SomeSpoiled
        (spoiled_apply_at compareLabelVals) current call
        (spoiled_mark_all sound within member old))

/-- An interface is reported once, and the next two collections get no answer from the
kernel. -/
def unanswered : List (Call Nat Nat) :=
  [⟨[some ⟨[(0, .update 7 (.uint64 1)), (0, .clearOldValues)], 0⟩], [none]⟩,
    ⟨[some ⟨[], 0⟩], [none]⟩, ⟨[some ⟨[], 0⟩], [none]⟩]

theorem unanswered_twice :
    ¬ Throughout (collect (fun (left right : Nat) => (left : Int) - right)) AllRight
      (some (registryNew [.uint64])) unanswered := by
  intro held
  have last := throughout_run _ _ _ _ held
  have self : ((run (collect (fun (left right : Nat) => (left : Int) - right))
      (some (registryNew [.uint64])) unanswered).bind fun registry => registry[0]?).map
        (fun metric => (metric.oldValues.target .first, metric.oldValues.target (.next 0))) =
      some (some 0, some 0) := by
    decide
  obtain ⟨metric, found, links⟩ := Option.map_eq_some_iff.mp self
  obtain ⟨registry, result, member⟩ := Option.bind_eq_some_iff.mp found
  obtain ⟨first, next⟩ := Prod.mk.inj links
  rw [result] at last
  obtain ⟨⟨stale, listed⟩, _⟩ := last metric (List.mem_of_getElem? member)
  apply looped_not_holds metric.oldValues (· = 0) _ stale listed.holds
  constructor
  · exact ⟨0, first, rfl⟩
  · rintro node rfl
    exact ⟨0, next, rfl⟩

end Cprogramming.EventServer.StaleValues
