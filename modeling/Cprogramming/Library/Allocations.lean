import Mathlib.Logic.Function.Basic
import Mathlib.Tactic.Common

/-!
# Allocations with one owner

A heap that knows the size of what is allocated and counts how often each allocation has
been freed. A pointer is the number of its allocation, so a pointer to freed memory stays
one. The owner of one allocation may replace it by a larger one; at the end every
allocation has been freed once.
-/

namespace Cprogramming.Library.Allocations

set_option autoImplicit false

structure Heap where
  size : Nat → Option Nat
  frees : Nat → Nat
  next : Nat

def Heap.empty : Heap := ⟨fun _ => none, fun _ => 0, 0⟩

/-- An allocation that succeeds; its number is the old `next`. -/
def Heap.malloc (heap : Heap) (bytes : Nat) : Heap :=
  { heap with size := Function.update heap.size heap.next (some bytes), next := heap.next + 1 }

def Heap.free (heap : Heap) (pointer : Nat) : Heap :=
  { heap with
    size := Function.update heap.size pointer none
    frees := Function.update heap.frees pointer (heap.frees pointer + 1) }

structure Access where
  pointer : Nat
  offset : Nat
  bytes : Nat
  deriving DecidableEq

def Access.Live (access : Access) (heap : Heap) : Prop :=
  ∃ size, heap.size access.pointer = some size ∧ access.offset + access.bytes ≤ size

/-- Every allocation so far has been freed once. -/
def Heap.FreedOnce (heap : Heap) : Prop := ∀ pointer, pointer < heap.next → heap.frees pointer = 1

/-- The only live allocation is that of the owner. -/
structure Owns (heap : Heap) (pointer bytes : Nat) : Prop where
  old : pointer < heap.next
  live : heap.size pointer = some bytes
  kept : heap.frees pointer = 0
  others : ∀ other, other < heap.next → other ≠ pointer →
    heap.size other = none ∧ heap.frees other = 1
  unused : ∀ other, heap.next ≤ other → heap.frees other = 0

variable (heap : Heap) (pointer bytes : Nat)

theorem first_owns : Owns (Heap.empty.malloc bytes) 0 bytes := by
  constructor
  case old => exact Nat.one_pos
  case live => rfl
  case kept => rfl
  case others =>
    intro other below apart
    exact absurd (Nat.lt_one_iff.mp below) apart
  case unused =>
    intro other _
    rfl

theorem freed_size : (heap.free pointer).size pointer = none := by
  exact Function.update_self _ _ _

theorem free_other {pointer other : Nat} (apart : other ≠ pointer) :
    (heap.free pointer).size other = heap.size other ∧
      (heap.free pointer).frees other = heap.frees other := by
  exact ⟨Function.update_of_ne apart _ _, Function.update_of_ne apart _ _⟩

theorem malloc_other {heap : Heap} {other : Nat} (bytes : Nat) (apart : other ≠ heap.next) :
    (heap.malloc bytes).size other = heap.size other := by
  exact Function.update_of_ne apart _ _

theorem replace_owns (more : Nat) (owns : Owns heap pointer bytes) :
    Owns ((heap.malloc more).free pointer) heap.next more := by
  have apart : heap.next ≠ pointer := Nat.ne_of_gt owns.old
  constructor
  case old => exact Nat.lt_succ_self _
  case live =>
    rw [(free_other _ apart).1]
    exact Function.update_self _ _ _
  case kept =>
    rw [(free_other _ apart).2]
    exact owns.unused _ (Nat.le_refl _)
  case others =>
    intro other below different
    have earlier : other < heap.next :=
      Nat.lt_of_le_of_ne (Nat.le_of_lt_succ below) different
    by_cases own : other = pointer
    · subst own
      have count : ((heap.malloc more).free other).frees other = heap.frees other + 1 :=
        Function.update_self _ _ _
      rw [count, owns.kept]
      exact ⟨freed_size _ other, rfl⟩
    · have same := free_other (heap.malloc more) own
      rw [same.1, same.2, malloc_other more different]
      exact owns.others other earlier own
  case unused =>
    intro other above
    have later : heap.next + 1 ≤ other := above
    rw [(free_other _ (by have := owns.old; omega)).2]
    exact owns.unused other (by omega)

theorem free_all (owns : Owns heap pointer bytes) : (heap.free pointer).FreedOnce := by
  intro other below
  by_cases own : other = pointer
  · subst own
    have count : (heap.free other).frees other = heap.frees other + 1 := Function.update_self _ _ _
    rw [count, owns.kept]
  · rw [(free_other heap own).2]
    exact (owns.others other below own).2

end Cprogramming.Library.Allocations
