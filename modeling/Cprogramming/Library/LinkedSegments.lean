import Mathlib.Data.List.Nodup
import Mathlib.Logic.Function.Basic
import Mathlib.Tactic.Common

/-!
# Segments of a linked list

Nodes in a memory, each with a pointer to the next. A segment is a list of addresses
and items that the memory holds in this order; its last node points to a given
pointer, so two segments make one where the first leads to the second. A store
outside a segment leaves it alone.
-/

namespace Cprogramming.Library.LinkedSegments

set_option autoImplicit false

variable {Item : Type}

structure Node (Item : Type) where
  data : Item
  next : Option Nat

/-- The nodes that are allocated. A pointer is the number of the allocation it comes
from, so a pointer to a freed node stays one. -/
abbrev Memory (Item : Type) : Type := Nat → Option (Node Item)

/-- The pointer to the first of the nodes, or the one behind them. -/
def entry (nodes : List (Nat × Item)) (exit : Option Nat) : Option Nat :=
  match nodes with
  | [] => exit
  | node :: _ => some node.1

/-- The nodes hold their items, each points to the next and the last one to
`exit`. -/
def Segment (memory : Memory Item) : List (Nat × Item) → Option Nat → Prop
  | [], _ => True
  | node :: rest, exit =>
    memory node.1 = some ⟨node.2, entry rest exit⟩ ∧ Segment memory rest exit

/-- The number of nodes from a pointer on, counted in at most that many turns. -/
def sizeFrom (memory : Memory Item) : Nat → Option Nat → Nat → Option Nat
  | 0, _, _ => none
  | _ + 1, none, count => some count
  | turns + 1, some address, count =>
    (memory address).bind fun node => sizeFrom memory turns node.next (count + 1)

variable (memory : Memory Item) (front : List (Nat × Item))

theorem entry_append (back : List (Nat × Item)) (exit : Option Nat) :
    entry (front ++ back) exit = entry front (entry back exit) := by
  cases front with
  | nil => rfl
  | cons node rest => rfl

theorem entry_concat (last : Nat × Item) (exit : Option Nat) :
    entry (front ++ [last]) exit ≠ none := by
  rw [entry_append]
  cases front with
  | nil => exact Option.some_ne_none _
  | cons node rest => exact Option.some_ne_none _

theorem segment_append (back : List (Nat × Item)) (exit : Option Nat) :
    Segment memory (front ++ back) exit ↔
      Segment memory front (entry back exit) ∧ Segment memory back exit := by
  induction front with
  | nil => exact (iff_of_eq (true_and _)).symm
  | cons node rest ih =>
    simp only [List.cons_append, Segment, ih, entry_append, and_assoc]

theorem segment_single (node : Nat × Item) (exit : Option Nat) :
    Segment memory [node] exit ↔ memory node.1 = some ⟨node.2, exit⟩ := by
  exact iff_of_eq (and_true _)

theorem segment_congr (other : Memory Item) (nodes : List (Nat × Item)) (exit : Option Nat)
    (same : ∀ address ∈ nodes.map Prod.fst, other address = memory address)
    (segment : Segment memory nodes exit) : Segment other nodes exit := by
  induction nodes with
  | nil => trivial
  | cons node rest ih =>
    obtain ⟨here, later⟩ := segment
    rw [List.map_cons, List.forall_mem_cons] at same
    refine ⟨?_, ih same.2 later⟩
    rw [same.1]
    exact here

theorem segment_update (nodes : List (Nat × Item)) (exit : Option Nat) (address : Nat)
    (stored : Option (Node Item)) (apart : address ∉ nodes.map Prod.fst)
    (segment : Segment memory nodes exit) :
    Segment (Function.update memory address stored) nodes exit := by
  apply segment_congr memory _ nodes exit _ segment
  intro other member
  exact Function.update_of_ne (ne_of_mem_of_not_mem member apart) stored memory

theorem size_segment (nodes : List (Nat × Item)) (segment : Segment memory nodes none)
    (turns : Nat) (enough : nodes.length < turns) (count : Nat) :
    sizeFrom memory turns (entry nodes none) count = some (count + nodes.length) := by
  induction nodes generalizing turns count with
  | nil =>
    obtain ⟨turns, rfl⟩ := Nat.exists_eq_add_of_lt enough
    rfl
  | cons node rest ih =>
    obtain ⟨here, later⟩ := segment
    cases turns with
    | zero => exact absurd enough (Nat.not_lt_zero _)
    | succ turns =>
      have counted := ih later turns (Nat.lt_of_succ_lt_succ enough) (count + 1)
      change sizeFrom memory (turns + 1) (some node.1) count = _
      simp only [sizeFrom, Option.bind_some, here, counted, List.length_cons]
      rw [Nat.add_assoc, Nat.add_comm 1]

theorem distinct_concat (last : Nat × Item) : ((front ++ [last]).map Prod.fst).Nodup ↔
      (front.map Prod.fst).Nodup ∧ last.1 ∉ front.map Prod.fst := by
  rw [List.map_append, List.map_singleton, List.nodup_append_comm, List.singleton_append,
    List.nodup_cons, and_comm]

end Cprogramming.Library.LinkedSegments
