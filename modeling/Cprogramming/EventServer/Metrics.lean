import Cprogramming.Library.IntrusiveList
import Cprogramming.Library.OrderedTree

/-!
# The metric registry

The values of a metric in `metrics.c` and `registry_collect`. A value is in the tree of
its metric, in the order of the labels, and on the list `old_values` of the metric while
the collection under way has not updated it. The list shares the memory of the values.

A value is the number of its allocation within the metric, so a pointer to a freed value
stays one. There is no result where a freed value is used through the list or where
a loop does not end.
-/

namespace Cprogramming.EventServer.Metrics

open Library.IntrusiveList Library.OrderedTree

set_option autoImplicit false

inductive MetricValType where
  | string
  | int64
  | uint64
  | double
deriving DecidableEq

inductive Reading (Double : Type) where
  | string (bytes : List UInt8)
  | int64 (number : BitVec 64)
  | uint64 (number : BitVec 64)
  | double (number : Double)

structure MetricVal (Labels Double : Type) where
  id : Nat
  updated : Bool
  labels : Labels
  reading : Reading Double

/-- `values` is the tree and `oldValues` the list with the link fields of the values. -/
structure Metric (Labels Double : Type) where
  valType : MetricValType
  values : List (MetricVal Labels Double)
  oldValues : Links Nat
  fresh : Nat

variable {Labels Double : Type}

def metricNew (valType : MetricValType) : Metric Labels Double :=
  ⟨valType, [], Links.init, 0⟩

def Reading.one [One Double] : MetricValType → Option (Reading Double)
  | .string => none
  | .int64 => some (.int64 1)
  | .uint64 => some (.uint64 1)
  | .double => some (.double 1)

def Reading.increment [One Double] [Add Double] : Reading Double → Reading Double
  | .string bytes => .string bytes
  | .int64 number => .int64 (number + 1)
  | .uint64 number => .uint64 (number + 1)
  | .double number => .double (number + 1)

/-! ## One metric -/

def compareMetricVals (compareLabelVals : Labels → Labels → Int)
    (left right : MetricVal Labels Double) : Int :=
  compareLabelVals left.labels right.labels

def removeOld (links : Links Nat) (value : MetricVal Labels Double) : Option (Links Nat) :=
  if value.updated then some links else links.remove value.id

def Metric.newVal (metric : Metric Labels Double) (labels : Labels) (reading : Reading Double) :
    MetricVal Labels Double :=
  ⟨metric.fresh, true, labels, reading⟩

/-- `RB_INSERT` of a new value. It stays outside of the tree if its labels are taken. -/
def Metric.insert (compareLabelVals : Labels → Labels → Int) (metric : Metric Labels Double)
    (labels : Labels) (reading : Reading Double) : Metric Labels Double :=
  { metric with
    values := (rbInsert (compareMetricVals compareLabelVals) (metric.newVal labels reading)
      metric.values).getD metric.values
    oldValues := metric.oldValues.allocate metric.fresh
    fresh := metric.fresh + 1 }

def touched (value : MetricVal Labels Double) (change : Reading Double → Reading Double)
    (other : MetricVal Labels Double) : MetricVal Labels Double :=
  if other.id = value.id then { other with updated := true, reading := change other.reading }
  else other

def Metric.touch (metric : Metric Labels Double) (value : MetricVal Labels Double)
    (change : Reading Double → Reading Double) : Option (Metric Labels Double) :=
  (removeOld metric.oldValues value).map fun links =>
    { metric with values := metric.values.map (touched value change), oldValues := links }

def metricPush (compareLabelVals : Labels → Labels → Int) (metric : Metric Labels Double)
    (labels : Labels) (reading : Reading Double) : Metric Labels Double :=
  metric.insert compareLabelVals labels reading

def metricUpdate (compareLabelVals : Labels → Labels → Int) (metric : Metric Labels Double)
    (labels : Labels) (reading : Reading Double) : Option (Metric Labels Double) :=
  match rbFind (compareMetricVals compareLabelVals) (metric.newVal labels reading)
      metric.values with
  | some old => metric.touch old fun _ => reading
  | none => some (metric.insert compareLabelVals labels reading)

def metricInc [One Double] [Add Double] (compareLabelVals : Labels → Labels → Int)
    (metric : Metric Labels Double) (labels : Labels) : Option (Metric Labels Double) :=
  match Reading.one metric.valType with
  | none => some metric
  | some one =>
    match rbFind (compareMetricVals compareLabelVals) (metric.newVal labels one) metric.values with
    | some old => metric.touch old Reading.increment
    | none => some (metric.insert compareLabelVals labels one)

def clearFrom (links : Links Nat) : List (MetricVal Labels Double) → Option (Links Nat)
  | [] => some links
  | value :: rest =>
    (removeOld links value).bind fun removed => clearFrom (removed.free value.id) rest

def metricClear (metric : Metric Labels Double) : Option (Metric Labels Double) :=
  (clearFrom metric.oldValues metric.values).map fun links =>
    { metric with values := [], oldValues := links }

/-- The loop of `metric_clear_old_values`, for at most that many turns. -/
def clearOldFrom : Nat → Metric Labels Double → Option (Metric Labels Double)
  | 0, _ => none
  | fuel + 1, metric =>
    match metric.oldValues.target .first with
    | none => some metric
    | some first =>
      (metric.oldValues.remove first).bind fun links =>
        clearOldFrom fuel
          { metric with
            values := metric.values.filter fun value => value.id ≠ first
            oldValues := links.free first }

def metricClearOldValues (metric : Metric Labels Double) : Option (Metric Labels Double) :=
  clearOldFrom (metric.values.length + 1) metric

inductive Op (Labels Double : Type) where
  | push (labels : Labels) (reading : Reading Double)
  | inc (labels : Labels)
  | update (labels : Labels) (reading : Reading Double)
  | clear
  | clearOldValues

def Metric.apply [One Double] [Add Double] (compareLabelVals : Labels → Labels → Int)
    (metric : Metric Labels Double) : Op Labels Double → Option (Metric Labels Double)
  | .push labels reading => some (metricPush compareLabelVals metric labels reading)
  | .inc labels => metricInc compareLabelVals metric labels
  | .update labels reading => metricUpdate compareLabelVals metric labels reading
  | .clear => metricClear metric
  | .clearOldValues => metricClearOldValues metric

/-! ## The registry -/

abbrev Registry (Labels Double : Type) : Type := List (Metric Labels Double)

def registryNew (types : List MetricValType) : Registry Labels Double := types.map metricNew

/-- Every value of the tree is put on the list, whether it is there or not. -/
def Metric.mark (metric : Metric Labels Double) : Option (Metric Labels Double) :=
  ((metric.values.map MetricVal.id).foldlM Links.insertHead metric.oldValues).map fun links =>
    { metric with
      values := metric.values.map fun value => { value with updated := false }
      oldValues := links }

def markAll : Registry Labels Double → Option (Registry Labels Double)
  | [] => some []
  | metric :: rest =>
    metric.mark.bind fun marked => (markAll rest).map fun others => marked :: others

/-- A collector holds pointers to metrics of the registry only. -/
def applyAt [One Double] [Add Double] (compareLabelVals : Labels → Labels → Int)
    (registry : Registry Labels Double) (action : Nat × Op Labels Double) :
    Option (Registry Labels Double) :=
  match registry[action.1]? with
  | none => some registry
  | some metric => (metric.apply compareLabelVals action.2).map (registry.set action.1)

structure Collector (Labels Double : Type) where
  actions : List (Nat × Op Labels Double)
  rc : Int

/-- The loops over the collectors: a module or a metric without one is passed over, and
the first that fails ends the collection. -/
def runCollectors [One Double] [Add Double] (compareLabelVals : Labels → Labels → Int) :
    Registry Labels Double → List (Option (Collector Labels Double)) →
      Option (Registry Labels Double × Int)
  | registry, [] => some (registry, 0)
  | registry, none :: rest => runCollectors compareLabelVals registry rest
  | registry, some collector :: rest =>
    (collector.actions.foldlM (applyAt compareLabelVals) registry).bind fun next =>
      if collector.rc ≠ 0 then some (next, collector.rc)
      else runCollectors compareLabelVals next rest

structure Call (Labels Double : Type) where
  modules : List (Option (Collector Labels Double))
  metrics : List (Option (Collector Labels Double))

def registryCollect [One Double] [Add Double] (compareLabelVals : Labels → Labels → Int)
    (registry : Registry Labels Double) (call : Call Labels Double) :
    Option (Registry Labels Double × Int) :=
  (markAll registry).bind fun marked =>
    (runCollectors compareLabelVals marked call.modules).bind fun (next, rc) =>
      if rc ≠ 0 then some (next, rc) else runCollectors compareLabelVals next call.metrics

def collect [One Double] [Add Double] (compareLabelVals : Labels → Labels → Int)
    (registry : Option (Registry Labels Double)) (call : Call Labels Double) :
    Option (Registry Labels Double) :=
  registry.bind fun current => (registryCollect compareLabelVals current call).map Prod.fst

/-! ## What an operation can do -/

theorem apply_cases [One Double] [Add Double] (compareLabelVals : Labels → Labels → Int)
    (metric : Metric Labels Double) (op : Op Labels Double) :
    metric.apply compareLabelVals op = some metric ∨
      (∃ labels reading, metric.apply compareLabelVals op =
        some (metric.insert compareLabelVals labels reading)) ∨ (∃ value ∈ metric.values, ∃ change,
        metric.apply compareLabelVals op = metric.touch value change) ∨
      metric.apply compareLabelVals op = metricClear metric ∨
      metric.apply compareLabelVals op = metricClearOldValues metric := by
  cases op with
  | push labels reading => exact .inr (.inl ⟨labels, reading, rfl⟩)
  | inc labels =>
    simp only [Metric.apply, metricInc]
    split
    next => exact .inl rfl
    next one _ =>
      split
      next old found =>
        exact .inr (.inr (.inl ⟨old, rb_find_mem _ _ _ _ found, Reading.increment, rfl⟩))
      next => exact .inr (.inl ⟨labels, one, rfl⟩)
  | update labels reading =>
    simp only [Metric.apply, metricUpdate]
    split
    next old found =>
      exact .inr (.inr (.inl ⟨old, rb_find_mem _ _ _ _ found, fun _ => reading, rfl⟩))
    next => exact .inr (.inl ⟨labels, reading, rfl⟩)
  | clear => exact .inr (.inr (.inr (.inl rfl)))
  | clearOldValues => exact .inr (.inr (.inr (.inr rfl)))

/-! ## What holds after every operation holds after a call

The conditions are on the possible result, so that one rule covers the properties that
rule a fault out and those that do not. -/

section Rules

variable [One Double] [Add Double] (compareLabelVals : Labels → Labels → Int)
variable (holds : Option (Registry Labels Double) → Prop)
variable (kept : ∀ registry action, holds (some registry) →
  holds (applyAt compareLabelVals registry action))

include kept

variable (registry : Registry Labels Double)

theorem actions_keep (initial : holds (some registry)) (actions : List (Nat × Op Labels Double)) :
    holds (actions.foldlM (applyAt compareLabelVals) registry) := by
  induction actions generalizing registry with
  | nil => exact initial
  | cons action rest ih =>
    have one := kept registry action initial
    rw [List.foldlM_cons, Option.bind_eq_bind]
    cases result : applyAt compareLabelVals registry action with
    | none =>
      rw [result] at one
      exact one
    | some next =>
      rw [result] at one
      exact ih next one

theorem collectors_keep (initial : holds (some registry))
    (collectors : List (Option (Collector Labels Double))) :
    holds ((runCollectors compareLabelVals registry collectors).map Prod.fst) := by
  induction collectors generalizing registry with
  | nil => exact initial
  | cons collector rest ih =>
    cases collector with
    | none => exact ih registry initial
    | some collector =>
      have acted := actions_keep compareLabelVals holds kept registry initial collector.actions
      rw [runCollectors]
      cases result : collector.actions.foldlM (applyAt compareLabelVals) registry with
      | none =>
        rw [result] at acted
        exact acted
      | some next =>
        rw [result] at acted
        split_ifs with failed
        · exact acted
        · exact ih next acted

theorem call_keeps (call : Call Labels Double) (marked : holds (markAll registry)) :
    holds (collect compareLabelVals (some registry) call) := by
  rw [collect, Option.bind_some, registryCollect]
  cases start : markAll registry with
  | none =>
    rw [start] at marked
    exact marked
  | some first =>
    rw [start] at marked
    have acted := collectors_keep compareLabelVals holds kept first marked call.modules
    rw [Option.bind_some]
    cases result : runCollectors compareLabelVals first call.modules with
    | none =>
      rw [result] at acted
      exact acted
    | some outcome =>
      obtain ⟨next, rc⟩ := outcome
      rw [result] at acted
      simp only [Option.bind_some]
      split_ifs with failed
      · exact acted
      · exact collectors_keep compareLabelVals holds kept next acted call.metrics

end Rules

end Cprogramming.EventServer.Metrics
