import Mathlib.Data.List.Basic
import Mathlib.Tactic.Common

/-!
# Runs of a step function

A run applies a list of actions one after the other. What holds in every state
of a run is settled by its steps: if a property survives a step exactly when the
step meets a condition on the state it starts from, then it holds throughout a
run exactly when every step of the run meets the condition.

A step may also answer, or fail and end the run. Two such machines are compared by
a relation of their states that their steps keep.
-/

namespace Cprogramming.Library.Runs

set_option autoImplicit false

variable {State Action : Type} (step : State → Action → State)

def run (start : State) (actions : List Action) : State := actions.foldl step start

/-- `holds` in the first state of the run and after each of its steps. -/
def Throughout (holds : State → Prop) : State → List Action → Prop
  | start, [] => holds start
  | start, action :: rest => holds start ∧ Throughout holds (step start action) rest

/-- Every step of the run `meets` a condition on its start and its action. -/
def EachStep (meets : State → Action → Prop) : State → List Action → Prop
  | _, [] => True
  | start, action :: rest => meets start action ∧ EachStep meets (step start action) rest

instance decidableEachStep (meets : State → Action → Prop)
    [∀ state action, Decidable (meets state action)] :
    (start : State) → (actions : List Action) → Decidable (EachStep step meets start actions)
  | _, [] => .isTrue trivial
  | start, action :: rest =>
    have := decidableEachStep meets (step start action) rest
    inferInstanceAs (Decidable (meets start action ∧ EachStep step meets _ rest))

variable (invariant holds : State → Prop) (right meets : State → Action → Prop) (start : State)

theorem run_cons (action : Action) (rest : List Action) :
    run step start (action :: rest) = run step (step start action) rest := by
  rfl

theorem run_append (before after : List Action) :
    run step start (before ++ after) = run step (run step start before) after := by
  exact List.foldl_append

theorem run_invariant (preserved : ∀ state action, holds state → holds (step state action))
    (start : State) (initial : holds start) (actions : List Action) :
    holds (run step start actions) := by
  induction actions generalizing start with
  | nil => exact initial
  | cons action rest ih => exact ih (step start action) (preserved start action initial)

/-- An invariant that a step keeps whenever it meets the condition. -/
theorem run_invariant_of_steps
    (preserved : ∀ state action, holds state → meets state action → holds (step state action))
    (start : State) (initial : holds start) (actions : List Action)
    (met : EachStep step meets start actions) : holds (run step start actions) := by
  induction actions generalizing start with
  | nil => exact initial
  | cons action rest ih =>
    exact ih (step start action) (preserved start action initial met.1) met.2

theorem throughout_run (actions : List Action) (held : Throughout step holds start actions) :
    holds (run step start actions) := by
  induction actions generalizing start with
  | nil => exact held
  | cons action rest ih => exact ih (step start action) held.2

theorem each_step_of_mem (actions : List Action)
    (always : ∀ state, ∀ action ∈ actions, meets state action) :
    EachStep step meets start actions := by
  induction actions generalizing start with
  | nil => trivial
  | cons action rest ih =>
    refine ⟨always start action (by simp), ih (step start action) ?_⟩
    intro state other member
    exact always state other (by simp [member])

/-- A property of states and one of steps hold along a run exactly when every
step meets the condition that decides both for one step. The decision may rely
on an invariant that only the steps that meet the condition keep. -/
theorem throughout_and_each_step_iff_of_good_steps
    (sound : ∀ state, invariant state → holds state)
    (good : ∀ state action, invariant state → meets state action →
      invariant (step state action) ∧ right state action)
    (bad : ∀ state action, invariant state → ¬ meets state action →
      ¬ (holds (step state action) ∧ right state action)) (start : State)
    (reached : invariant start) (actions : List Action) :
    (Throughout step holds start actions ∧ EachStep step right start actions) ↔
      EachStep step meets start actions := by
  induction actions generalizing start with
  | nil => simp [Throughout, EachStep, sound start reached]
  | cons action rest ih =>
    simp only [Throughout, EachStep]
    constructor
    · rintro ⟨⟨_, later⟩, answered, answers⟩
      have next : holds (step start action) := by
        cases rest with
        | nil => exact later
        | cons other others => exact later.1
      have met : meets start action := by
        by_contra unmet
        exact bad start action reached unmet ⟨next, answered⟩
      exact ⟨met, (ih (step start action) (good start action reached met).1).mp ⟨later, answers⟩⟩
    · rintro ⟨met, others⟩
      obtain ⟨kept, answered⟩ := good start action reached met
      obtain ⟨later, answers⟩ := (ih (step start action) kept).mpr others
      exact ⟨⟨sound start reached, later⟩, answered, answers⟩

theorem throughout_iff_of_good_steps (sound : ∀ state, invariant state → holds state)
    (good : ∀ state action, invariant state → meets state action → invariant (step state action))
    (bad : ∀ state action, invariant state → ¬ meets state action → ¬ holds (step state action))
    (start : State) (reached : invariant start) (actions : List Action) :
    Throughout step holds start actions ↔ EachStep step meets start actions := by
  have both := throughout_and_each_step_iff_of_good_steps step invariant holds (fun _ _ => True)
    meets sound (fun state action known met => ⟨good state action known met, trivial⟩)
    (fun state action known unmet held => bad state action known unmet held.1) start reached actions
  rw [← both]
  exact ⟨fun held => ⟨held, each_step_of_mem step _ start actions (fun _ _ _ => trivial)⟩,
    fun held => held.1⟩

theorem throughout_and_each_step_iff_of_invariant
    (kept : ∀ state action, invariant state → invariant (step state action))
    (exactly : ∀ state action, invariant state → holds state →
      ((holds (step state action) ∧ right state action) ↔ meets state action)) (start : State)
    (reached : invariant start) (initial : holds start) (actions : List Action) :
    (Throughout step holds start actions ∧ EachStep step right start actions) ↔
      EachStep step meets start actions := by
  refine throughout_and_each_step_iff_of_good_steps step
    (fun state => invariant state ∧ holds state) holds right meets (fun _ known => known.2) ?_ ?_
    start ⟨reached, initial⟩ actions
  · rintro state action ⟨known, held⟩ met
    obtain ⟨next, answered⟩ := (exactly state action known held).mpr met
    exact ⟨⟨kept state action known, next⟩, answered⟩
  · rintro state action ⟨known, held⟩ unmet both
    exact unmet ((exactly state action known held).mp both)

theorem throughout_and_each_step_iff (exactly : ∀ state action, holds state →
      ((holds (step state action) ∧ right state action) ↔ meets state action)) (start : State)
    (initial : holds start) (actions : List Action) :
    (Throughout step holds start actions ∧ EachStep step right start actions) ↔
      EachStep step meets start actions := by
  exact throughout_and_each_step_iff_of_invariant step (fun _ => True) holds right meets
    (fun _ _ _ => trivial) (fun state action _ => exactly state action) start trivial initial actions

theorem each_step_forall_iff (meets : Action → Prop) (start : State) (actions : List Action) :
    EachStep step (fun _ action => meets action) start actions ↔
      ∀ action ∈ actions, meets action := by
  induction actions generalizing start with
  | nil => simp [EachStep]
  | cons action rest ih => rw [EachStep, ih, List.forall_mem_cons]

theorem each_step_iff_of_invariant
    (kept : ∀ state action, invariant state → invariant (step state action))
    (exactly : ∀ state action, invariant state → (right state action ↔ meets state action))
    (start : State) (reached : invariant start) (actions : List Action) :
    EachStep step right start actions ↔ EachStep step meets start actions := by
  induction actions generalizing start with
  | nil => exact Iff.rfl
  | cons action rest ih =>
    exact and_congr (exactly start action reached)
      (ih (step start action) (kept start action reached))

theorem each_step_iff (exactly : ∀ state action, right state action ↔ meets state action)
    (start : State) (actions : List Action) :
    EachStep step right start actions ↔ EachStep step meets start actions := by
  exact each_step_iff_of_invariant step (fun _ => True) right meets (fun _ _ _ => trivial)
    (fun state action _ => exactly state action) start trivial actions

theorem each_step_append (before after : List Action) :
    EachStep step meets start (before ++ after) ↔
      EachStep step meets start before ∧ EachStep step meets (run step start before) after := by
  induction before generalizing start with
  | nil => simp [EachStep, run]
  | cons action rest ih =>
    rw [List.cons_append, EachStep, EachStep, ih, run_cons, and_assoc]

theorem throughout_iff_of_invariant
    (kept : ∀ state action, invariant state → invariant (step state action))
    (exactly : ∀ state action, invariant state → holds state →
      (holds (step state action) ↔ meets state action)) (start : State)
    (reached : invariant start) (initial : holds start) (actions : List Action) :
    Throughout step holds start actions ↔ EachStep step meets start actions := by
  refine throughout_iff_of_good_steps step (fun state => invariant state ∧ holds state) holds meets
    (fun _ known => known.2) ?_ ?_ start ⟨reached, initial⟩ actions
  · rintro state action ⟨known, held⟩ met
    exact ⟨kept state action known, (exactly state action known held).mpr met⟩
  · rintro state action ⟨known, held⟩ unmet next
    exact unmet ((exactly state action known held).mp next)

theorem throughout_iff
    (exactly : ∀ state action, holds state → (holds (step state action) ↔ meets state action))
    (start : State) (initial : holds start) (actions : List Action) :
    Throughout step holds start actions ↔ EachStep step meets start actions := by
  exact throughout_iff_of_invariant step (fun _ => True) holds meets (fun _ _ _ => trivial)
    (fun state action _ => exactly state action) start trivial initial actions

/-! ## Steps that answer or fail -/

section Answers

variable {Answer Other : Type} (serve : State → Action → Option (State × Answer))
  (other : Other → Action → Option (Other × Answer))

/-- The answers of a run; there are none if one of its steps fails. -/
def answers : State → List Action → Option (List Answer)
  | _, [] => some []
  | state, action :: rest =>
    (serve state action).bind fun done => (answers done.1 rest).map (done.2 :: ·)

/-- From related states the two machines fail together or answer alike, and the
states stay related. -/
def Bisimulation (related : State → Other → Prop) : Prop :=
  ∀ left right action, related left right →
    Option.Rel (fun one two => related one.1 two.1 ∧ one.2 = two.2)
      (serve left action) (other right action)

theorem answers_eq (related : State → Other → Prop) (alike : Bisimulation serve other related)
    (left : State) (right : Other) (start : related left right) (actions : List Action) :
    answers serve left actions = answers other right actions := by
  induction actions generalizing left right with
  | nil => rfl
  | cons action rest ih =>
    have once := alike left right action start
    simp only [answers]
    generalize serve left action = one at once
    generalize other right action = two at once
    cases once with
    | none => rfl
    | some done =>
      obtain ⟨kept, same⟩ := done
      simp only [Option.bind_some]
      rw [ih _ _ kept, same]

end Answers

end Cprogramming.Library.Runs
