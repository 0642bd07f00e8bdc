import Cprogramming.Library.Runs
import Mathlib.Data.List.Basic
import Mathlib.Logic.Function.Basic

/-!
# Threads that are created and joined in turn

A main thread creates a number of threads, each with a job of its own, and then joins
them in the order of their creation, taking their results together. Who goes on next is
up to the schedule: a thread may finish while the main one still creates others, and the
main one waits at a thread that has not finished. Whatever the schedule does, the results
that have been taken are those of the jobs, in the order of creation.
-/

namespace Cprogramming.Library.ForkJoin

open Library.Runs

set_option autoImplicit false

/-- A created thread has its job and, once it has finished, its result. -/
structure System (Job Result Total : Type) where
  created : Nat
  data : Nat → Option (Job × Option Result)
  joined : Nat
  total : Total

inductive Event where
  | main
  | thread (number : Nat)

variable {Job Result Total : Type}

def System.result (system : System Job Result Total) (number : Nat) : Option Result :=
  (system.data number).bind Prod.snd

def begin (first : Total) : System Job Result Total := ⟨0, fun _ => none, 0, first⟩

def System.create (system : System Job Result Total) (given : Job) : System Job Result Total :=
  { system with
    created := system.created + 1
    data := Function.update system.data system.created (some (given, none)) }

def System.finish (system : System Job Result Total) (number : Nat) (given : Job)
    (found : Result) : System Job Result Total :=
  { system with data := Function.update system.data number (some (given, some found)) }

def System.join (system : System Job Result Total) (total : Total) : System Job Result Total :=
  { system with joined := system.joined + 1, total := total }

section Steps

variable (count : Nat) (job : Nat → Job) (work : Job → Option Result)
  (collect : Total → Result → Total)

def mainStep (system : System Job Result Total) : System Job Result Total :=
  if system.created < count then system.create (job system.created)
  else if system.joined < count then
    match system.result system.joined with
    | none => system
    | some found => system.join (collect system.total found)
  else system

def threadStep (system : System Job Result Total) (number : Nat) :
    Option (System Job Result Total) :=
  match system.data number with
  | some (given, none) => (work given).map (system.finish number given)
  | _ => some system

/-- Work that goes wrong ends the whole system. -/
def step (state : Option (System Job Result Total)) :
    Event → Option (System Job Result Total)
  | .main => state.map (mainStep count job collect)
  | .thread number => state.bind fun system => threadStep work system number

end Steps

/-! ## Every schedule -/

section Invariant

variable {count : Nat} {job : Nat → Job} {work : Job → Option Result}
  {collect : Total → Result → Total} {result : Nat → Result} {first : Total}

structure Kept (count : Nat) (job : Nat → Job) (collect : Total → Result → Total)
    (result : Nat → Result) (first : Total) (system : System Job Result Total) : Prop where
  createdBound : system.created ≤ count
  absent : ∀ number, system.created ≤ number → system.data number = none
  present : ∀ number, number < system.created →
    system.data number = some (job number, none) ∨
      system.data number = some (job number, some (result number))
  joinedBound : system.joined ≤ count
  createdFirst : system.joined = 0 ∨ system.created = count
  taken : system.total = ((List.range system.joined).map result).foldl collect first

theorem begin_kept : Kept count job collect result first (begin first) := by
  exact ⟨Nat.zero_le _, fun _ _ => rfl, fun _ below => absurd below (Nat.not_lt_zero _),
    Nat.zero_le _, Or.inl rfl, rfl⟩

theorem Kept.result_eq {system : System Job Result Total}
    (kept : Kept count job collect result first system) (number : Nat) (found : Result)
    (finished : system.result number = some found) :
    number < system.created ∧ found = result number := by
  rw [System.result] at finished
  by_cases below : number < system.created
  · refine ⟨below, ?_⟩
    rcases kept.present number below with working | done
    · rw [working] at finished
      cases finished
    · rw [done] at finished
      exact (Option.some.inj finished).symm
  · rw [kept.absent number (Nat.le_of_not_lt below)] at finished
    cases finished

theorem create_kept {system : System Job Result Total}
    (kept : Kept count job collect result first system) (more : system.created < count) :
    Kept count job collect result first (system.create (job system.created)) := by
  constructor
  case createdBound => exact more
  case absent =>
    intro number above
    have later : system.created < number := above
    exact (Function.update_of_ne (Nat.ne_of_gt later) _ _).trans
      (kept.absent number (Nat.le_of_lt later))
  case present =>
    intro number below
    have upTo : number ≤ system.created := Nat.le_of_lt_succ below
    rcases Nat.lt_or_eq_of_le upTo with earlier | rfl
    · have same : (system.create (job system.created)).data number = system.data number :=
        Function.update_of_ne (Nat.ne_of_lt earlier) _ _
      rw [same]
      exact kept.present number earlier
    · exact Or.inl (Function.update_self _ _ _)
  case joinedBound => exact kept.joinedBound
  case createdFirst => exact Or.inl (kept.createdFirst.resolve_right (Nat.ne_of_lt more))
  case taken => exact kept.taken

variable (system : System Job Result Total)

theorem join_kept (kept : Kept count job collect result first system)
    (all : system.created = count) (more : system.joined < count) (found : Result)
    (finished : system.result system.joined = some found) :
    Kept count job collect result first (system.join (collect system.total found)) := by
  constructor
  case createdBound => exact kept.createdBound
  case absent => exact kept.absent
  case present => exact kept.present
  case joinedBound => exact more
  case createdFirst => exact Or.inr all
  case taken =>
    have joined : (system.join (collect system.total found)).joined = system.joined + 1 := rfl
    rw [joined, List.range_succ, List.map_append, List.foldl_append, ← kept.taken,
      (kept.result_eq system.joined found finished).2]
    rfl

theorem main_kept (kept : Kept count job collect result first system) :
    Kept count job collect result first (mainStep count job collect system) := by
  rw [mainStep]
  by_cases creating : system.created < count
  · rw [if_pos creating]
    exact create_kept kept creating
  rw [if_neg creating]
  by_cases joining : system.joined < count
  · rw [if_pos joining]
    cases finished : system.result system.joined with
    | none => exact kept
    | some found =>
      have all : system.created = count := by
        have bound := kept.createdBound
        omega
      exact join_kept system kept all joining found finished
  · rw [if_neg joining]
    exact kept

theorem finish_data_other {number other : Nat} (given : Job) (found : Result)
    (apart : other ≠ number) :
    (system.finish number given found).data other = system.data other := by
  exact Function.update_of_ne apart _ _

theorem finish_result (number : Nat) (given : Job) (found : Result) :
    (system.finish number given found).result number = some found := by
  have here : (system.finish number given found).data number = some (given, some found) :=
    Function.update_self _ _ _
  rw [System.result, here]
  rfl

theorem finish_kept {system : System Job Result Total}
    (kept : Kept count job collect result first system) {number : Nat}
    (below : number < system.created) :
    Kept count job collect result first (system.finish number (job number) (result number)) := by
  constructor
  case createdBound => exact kept.createdBound
  case absent =>
    intro other above
    have later : system.created ≤ other := above
    rw [finish_data_other system _ _ (by omega)]
    exact kept.absent other above
  case present =>
    intro other earlier
    by_cases same : other = number
    · subst same
      exact Or.inr (Function.update_self _ _ _)
    · rw [finish_data_other system _ _ same]
      exact kept.present other earlier
  case joinedBound => exact kept.joinedBound
  case createdFirst => exact kept.createdFirst
  case taken => exact kept.taken

theorem thread_kept (works : ∀ number, number < count → work (job number) = some (result number))
    (system : System Job Result Total) (kept : Kept count job collect result first system)
    (number : Nat) :
    ∃ next, threadStep work system number = some next ∧
      Kept count job collect result first next ∧ next.created = system.created ∧
      (number < system.created → next.result number ≠ none) ∧
      ∀ other, system.result other ≠ none → next.result other ≠ none := by
  by_cases below : number < system.created
  · rcases kept.present number below with working | done
    · have worked := works number (Nat.lt_of_lt_of_le below kept.createdBound)
      have own : (system.finish number (job number) (result number)).result number ≠ none := by
        rw [finish_result]
        exact Option.some_ne_none _
      refine ⟨system.finish number (job number) (result number), ?_,
        finish_kept kept below, rfl, fun _ => own, ?_⟩
      · rw [threadStep, working]
        simp only [worked, Option.map_some]
      · intro other finished
        by_cases same : other = number
        · rw [same]
          exact own
        · rw [System.result, finish_data_other system _ _ same]
          exact finished
    · refine ⟨system, ?_, kept, rfl, ?_, fun _ finished => finished⟩
      · rw [threadStep, done]
      · intro _
        rw [System.result, done]
        exact Option.some_ne_none _
  · refine ⟨system, ?_, kept, rfl, fun early => absurd early below, fun _ finished => finished⟩
    rw [threadStep, kept.absent number (Nat.le_of_not_lt below)]

def KeptState (count : Nat) (job : Nat → Job) (collect : Total → Result → Total)
    (result : Nat → Result) (first : Total) (state : Option (System Job Result Total)) : Prop :=
  ∃ system, state = some system ∧ Kept count job collect result first system

theorem run_kept (works : ∀ number, number < count → work (job number) = some (result number))
    (state : Option (System Job Result Total))
    (kept : KeptState count job collect result first state) (schedule : List Event) :
    KeptState count job collect result first
      (run (step count job work collect) state schedule) := by
  apply run_invariant _ (KeptState count job collect result first) _ state kept
  intro before event ⟨system, same, systemKept⟩
  subst same
  cases event with
  | main => exact ⟨_, rfl, main_kept system systemKept⟩
  | thread number =>
    obtain ⟨next, done, nextKept, _⟩ := thread_kept works system systemKept number
    exact ⟨next, done, nextKept⟩

/-! ## A schedule that ends -/

theorem main_replicate (turns : Nat) :
    run (step count job work collect) (some system) (List.replicate (turns + 1) .main) =
      run (step count job work collect) (some (mainStep count job collect system))
        (List.replicate turns .main) := by
  rfl

theorem created_all (work : Job → Option Result) (system : System Job Result Total)
    (kept : Kept count job collect result first system) (turns : Nat)
    (enough : count ≤ system.created + turns) :
    ∃ next, run (step count job work collect) (some system) (List.replicate turns .main) =
        some next ∧ Kept count job collect result first next ∧ next.created = count := by
  induction turns generalizing system with
  | zero => exact ⟨system, rfl, kept, Nat.le_antisymm kept.createdBound enough⟩
  | succ turns ih =>
    rw [main_replicate]
    apply ih (mainStep count job collect system) (main_kept system kept)
    rw [mainStep]
    by_cases creating : system.created < count
    · rw [if_pos creating]
      change count ≤ system.created + 1 + turns
      omega
    rw [if_neg creating]
    by_cases joining : system.joined < count
    · rw [if_pos joining]
      cases system.result system.joined with
      | none => exact Nat.le_add_right_of_le (Nat.le_of_not_lt creating)
      | some found => exact Nat.le_add_right_of_le (Nat.le_of_not_lt creating)
    · rw [if_neg joining]
      exact Nat.le_add_right_of_le (Nat.le_of_not_lt creating)

theorem finished_all
    (works : ∀ number, number < count → work (job number) = some (result number))
    (system : System Job Result Total) (kept : Kept count job collect result first system)
    (all : system.created = count) (order : List Nat) :
    ∃ next, run (step count job work collect) (some system) (order.map .thread) = some next ∧
      Kept count job collect result first next ∧ next.created = count ∧
      ∀ number, number < count → (number ∈ order ∨ system.result number ≠ none) →
        next.result number ≠ none := by
  induction order generalizing system with
  | nil =>
    refine ⟨system, rfl, kept, all, ?_⟩
    intro number _ either
    exact either.resolve_left List.not_mem_nil
  | cons head rest ih =>
    obtain ⟨middle, done, middleKept, created, own, others⟩ := thread_kept works system kept head
    obtain ⟨next, ran, nextKept, nextCreated, results⟩ :=
      ih middle middleKept (created.trans all)
    refine ⟨next, ?_, nextKept, nextCreated, ?_⟩
    · rw [List.map_cons, run_cons, step, Option.bind_some, done, ran]
    · intro number below either
      apply results number below
      rcases either with listed | finished
      · rcases List.mem_cons.mp listed with rfl | later
        · exact Or.inr (own (all ▸ below))
        · exact Or.inl later
      · exact Or.inr (others number finished)

theorem joined_all (work : Job → Option Result) (system : System Job Result Total)
    (kept : Kept count job collect result first system) (all : system.created = count)
    (finished : ∀ number, number < count → system.result number ≠ none) (turns : Nat)
    (enough : count ≤ system.joined + turns) :
    ∃ next, run (step count job work collect) (some system) (List.replicate turns .main) =
      some next ∧ next.joined = count := by
  induction turns generalizing system with
  | zero => exact ⟨system, rfl, Nat.le_antisymm kept.joinedBound enough⟩
  | succ turns ih =>
    rw [main_replicate]
    by_cases joining : system.joined < count
    · obtain ⟨found, here⟩ := Option.ne_none_iff_exists'.mp (finished system.joined joining)
      have after : mainStep count job collect system =
          system.join (collect system.total found) := by
        rw [mainStep, if_neg (by omega), if_pos joining, here]
      rw [after]
      apply ih _ (join_kept system kept all joining found here) all finished
      change count ≤ system.joined + 1 + turns
      omega
    · have after : mainStep count job collect system = system := by
        rw [mainStep, if_neg (by omega), if_neg joining]
      rw [after]
      exact ih system kept all finished (by omega)

/-- The threads finish in this order, between their creation and the joins. -/
def finishIn (count : Nat) (order : List Nat) : List Event :=
  List.replicate count .main ++ order.map .thread ++ List.replicate count .main

theorem finish_in_ends (collect : Total → Result → Total) (first : Total)
    (works : ∀ number, number < count → work (job number) = some (result number))
    (order : List Nat) (complete : ∀ number, number < count → number ∈ order) :
    ∃ system, run (step count job work collect) (some (begin first)) (finishIn count order) =
      some system ∧ system.joined = count := by
  have kept : Kept count job collect result first (begin first) := begin_kept
  obtain ⟨ready, created, readyKept, all⟩ :=
    created_all work (begin first) kept count (Nat.le_add_left count 0)
  obtain ⟨worked, ran, workedKept, workedAll, results⟩ :=
    finished_all works ready readyKept all order
  have finished : ∀ number, number < count → worked.result number ≠ none := by
    intro number below
    exact results number below (Or.inl (complete number below))
  obtain ⟨ended, joined, last⟩ :=
    joined_all work worked workedKept workedAll finished count (Nat.le_add_left count _)
  refine ⟨ended, ?_, last⟩
  rw [finishIn, run_append, run_append, created, ran, joined]

end Invariant

end Cprogramming.Library.ForkJoin
