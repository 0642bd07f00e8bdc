import Cprogramming.Library.Allocations
import Cprogramming.Library.Runs
import Mathlib.Algebra.BigOperators.Group.List.Basic
import Mathlib.Algebra.Order.Ring.Int

/-!
# The buffer of the interface collector

`collect_if.c` of the event server: `if_collect` asks the kernel for the size of the
interface list, replaces its buffer if that is too small, and has the list written into a
buffer that it walks message by message. The kernel's answers and those of `malloc` are
the input of a call. The address of the buffer is taken before it is replaced.

The records that the walk hands to the metrics are left out: a message is its length.
-/

namespace Cprogramming.EventServer.InterfaceBuffer

open Library.Allocations Library.Runs

set_option autoImplicit false

structure Priv where
  buf : Nat
  bsize : Nat

structure State where
  heap : Heap
  priv : Priv

/-- The answers that one call gets. A failed `sysctl` gives none; the second one writes
whole messages, at most as many bytes as it is given. -/
structure Call where
  need : Option Nat
  allocated : Bool
  messages : Option (List Nat)
  within : ∀ size lengths, need = some size → messages = some lengths → lengths.sum ≤ size

def firstSize : Nat := 64 * 1024

def ifRegister : State := ⟨Heap.empty.malloc firstSize, ⟨0, firstSize⟩⟩

/-- The buffer is replaced if it is too small; `none` is the return where `malloc`
fails. -/
def expand (state : State) (need : Nat) (allocated : Bool) : Option State :=
  if state.priv.bsize < need then
    if allocated then
      some ⟨(state.heap.malloc need).free state.priv.buf, ⟨state.heap.next, need⟩⟩
    else none
  else some state

def walk (buf : Nat) : Nat → List Nat → List Access
  | _, [] => []
  | next, msglen :: rest => ⟨buf, next, msglen⟩ :: walk buf (next + msglen) rest

def ifCollect (state : State) (call : Call) : State × List Access :=
  let buf := state.priv.buf
  match call.need with
  | none => (state, [])
  | some need =>
    match expand state need call.allocated with
    | none => (state, [])
    | some expanded =>
      match call.messages with
      | none => (expanded, [⟨buf, 0, need⟩])
      | some lengths => (expanded, ⟨buf, 0, need⟩ :: walk buf 0 lengths)

def step (state : State) (call : Call) : State := (ifCollect state call).1

def ifFree (state : State) : Heap := state.heap.free state.priv.buf

/-! ## What is asked of the buffer -/

def TouchesLive (state : State) (call : Call) : Prop :=
  ∀ access ∈ (ifCollect state call).2, access.Live (step state call).heap

def SizeRight (state : State) : Prop := state.heap.size state.priv.buf = some state.priv.bsize

def Fits (call : Call) : Prop :=
  ∀ need, call.need = some need → need ≤ firstSize ∨ call.allocated = false

/-! ## Calls -/

variable (state : State) (call : Call)

variable {need : Nat}

def Kept (state : State) : Prop := Owns state.heap state.priv.buf state.priv.bsize

theorem register_kept : Kept ifRegister := by
  exact first_owns firstSize

theorem expand_kept {state expanded : State} {allocated : Bool} (kept : Kept state)
    (done : expand state need allocated = some expanded) : Kept expanded := by
  rw [expand] at done
  by_cases small : state.priv.bsize < need
  · rw [if_pos small] at done
    cases allocated with
    | false => cases done
    | true =>
      cases done
      exact replace_owns state.heap state.priv.buf state.priv.bsize need kept
  · rw [if_neg small] at done
    cases done
    exact kept

/-- The second `sysctl` is given the buffer that the call began with, and the loop walks
it. -/
theorem collect_expanded {state expanded : State} {call : Call} (needed : call.need = some need)
    (done : expand state need call.allocated = some expanded) : ifCollect state call =
      (expanded, ⟨state.priv.buf, 0, need⟩ :: walk state.priv.buf 0 (call.messages.getD [])) := by
  simp only [ifCollect, needed, done]
  cases call.messages with
  | none => rfl
  | some lengths => rfl

theorem collect_cases : ifCollect state call = (state, []) ∨
      ∃ need expanded, call.need = some need ∧
        expand state need call.allocated = some expanded := by
  cases needed : call.need with
  | none =>
    left
    simp only [ifCollect, needed]
  | some need =>
    cases done : expand state need call.allocated with
    | none =>
      left
      simp only [ifCollect, needed, done]
    | some expanded => exact Or.inr ⟨need, expanded, rfl, done⟩

theorem collect_kept (kept : Kept state) : Kept (step state call) := by
  rw [step]
  rcases collect_cases state call with early | ⟨need, expanded, needed, done⟩
  · rw [early]
    exact kept
  · rw [collect_expanded needed done]
    exact expand_kept kept done

theorem walk_inside (buf : Nat) (lengths : List Nat) (next : Nat) (access : Access)
    (member : access ∈ walk buf next lengths) :
    access.pointer = buf ∧ access.offset + access.bytes ≤ next + lengths.sum := by
  induction lengths generalizing next with
  | nil => cases member
  | cons msglen rest ih =>
    rw [List.sum_cons]
    rcases List.mem_cons.mp member with rfl | later
    · exact ⟨rfl, by simp only; omega⟩
    · obtain ⟨pointer, bound⟩ := ih (next + msglen) later
      exact ⟨pointer, by omega⟩

theorem messages_within {call : Call} (needed : call.need = some need) :
    (call.messages.getD []).sum ≤ need := by
  cases written : call.messages with
  | none => exact Nat.zero_le _
  | some lengths => exact call.within need lengths needed written

/-! ## Runs -/

theorem fitting_call (kept : Kept state ∧ state.priv.bsize = firstSize) (fits : Fits call) :
    (Kept (step state call) ∧ (step state call).priv.bsize = firstSize) ∧
      TouchesLive state call := by
  rw [TouchesLive, step]
  rcases collect_cases state call with early | ⟨need, expanded, needed, done⟩
  · rw [early]
    exact ⟨kept, fun access member => by cases member⟩
  · rw [collect_expanded needed done]
    rw [expand] at done
    by_cases small : state.priv.bsize < need
    · have refused := (fits need needed).resolve_left (by have := kept.2; omega)
      rw [if_pos small, refused] at done
      cases done
    · rw [if_neg small] at done
      cases done
      refine ⟨kept, ?_⟩
      have total := messages_within needed
      intro access member
      rcases List.mem_cons.mp member with rfl | walked
      · exact ⟨state.priv.bsize, kept.1.live, by simp only; omega⟩
      · obtain ⟨pointer, bound⟩ := walk_inside _ _ 0 access walked
        refine ⟨state.priv.bsize, ?_, by omega⟩
        rw [pointer]
        exact kept.1.live

/-- A call that replaces the buffer goes on with the one that it has freed. -/
theorem replacing_call (kept : Kept state ∧ state.priv.bsize = firstSize) (large : ¬ Fits call) :
    ¬ TouchesLive state call := by
  intro live
  rw [Fits] at large
  simp only [not_forall, not_or] at large
  obtain ⟨need, needed, above, granted⟩ := large
  have small : state.priv.bsize < need := by
    have size := kept.2
    omega
  have done : expand state need call.allocated =
      some ⟨(state.heap.malloc need).free state.priv.buf, ⟨state.heap.next, need⟩⟩ := by
    rw [expand, if_pos small, if_pos (by simpa using granted)]
  have went := collect_expanded needed done
  rw [TouchesLive, step, went] at live
  obtain ⟨size, found, _⟩ := live ⟨state.priv.buf, 0, need⟩ List.mem_cons_self
  rw [freed_size] at found
  cases found

/-- Whatever the kernel answers, `bsize` is right and all buffers are freed once; only
live memory is used exactly if the buffer is never replaced. -/
theorem collector_live_iff (calls : List Call) :
    (EachStep step TouchesLive ifRegister calls ∧ Throughout step SizeRight ifRegister calls ∧
        (ifFree (run step ifRegister calls)).FreedOnce) ↔ ∀ call ∈ calls, Fits call := by
  have runs := throughout_and_each_step_iff_of_good_steps step
    (fun state => Kept state ∧ state.priv.bsize = firstSize) SizeRight TouchesLive
    (fun _ call => Fits call) (fun state kept => kept.1.live) fitting_call
    (fun state call kept large held => replacing_call state call kept large held.2)
    ifRegister ⟨register_kept, rfl⟩ calls
  have kept := run_invariant step Kept collect_kept ifRegister register_kept calls
  have freed : (ifFree (run step ifRegister calls)).FreedOnce := free_all _ _ _ kept
  rw [each_step_forall_iff] at runs
  rw [← runs]
  exact ⟨fun right => ⟨right.2.1, right.1⟩, fun right => ⟨right.2, right.1, freed⟩⟩

def grown : Call where
  need := some (firstSize + 1)
  allocated := true
  messages := some [firstSize + 1]
  within := by
    intro size lengths sized written
    cases sized
    cases written
    exact Nat.le_refl _

/-- The old buffer has been freed when the kernel is given it. -/
theorem grown_buffer_freed :
    (ifCollect ifRegister grown).2 = [⟨0, 0, firstSize + 1⟩, ⟨0, 0, firstSize + 1⟩] ∧
      (step ifRegister grown).heap.size 0 = none ∧ (step ifRegister grown).priv.buf = 1 ∧
      ¬ EachStep step TouchesLive ifRegister [grown] := by
  have accesses : (ifCollect ifRegister grown).2 =
      [⟨0, 0, firstSize + 1⟩, ⟨0, 0, firstSize + 1⟩] := by decide
  have freed : (step ifRegister grown).heap.size 0 = none := by decide
  refine ⟨accesses, freed, by decide, ?_⟩
  intro steps
  have first : ⟨0, 0, firstSize + 1⟩ ∈ (ifCollect ifRegister grown).2 := by
    exact List.mem_cons_self
  obtain ⟨size, found, _⟩ := steps.1 _ first
  cases found

end Cprogramming.EventServer.InterfaceBuffer
