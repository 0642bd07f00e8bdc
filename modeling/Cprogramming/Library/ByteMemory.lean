import Mathlib.Algebra.BigOperators.Group.List.Basic
import Mathlib.Algebra.Order.Ring.Int
import Mathlib.Data.List.GetD
import Mathlib.Data.List.TakeWhile
import Mathlib.Tactic.Common

/-!
# Byte memory

A flat byte memory indexed by integers, so that an address before the start of
an object is as visible as one past its end. A C store of consecutive bytes is
kept as a value: a run is the list of its stores, and the memory it leaves is
their replay. Stores that follow one another without a gap are one store.
-/

namespace Cprogramming.Library.ByteMemory

set_option autoImplicit false

abbrev Memory := Int → UInt8

def zeroed : Memory := fun _ => 0

structure Store where
  start : Int
  bytes : List UInt8
deriving DecidableEq

def store (memory : Memory) (start : Int) (bytes : List UInt8) : Memory :=
  fun address =>
    if start ≤ address ∧ address < start + bytes.length then
      bytes.getD (address - start).toNat 0
    else memory address

def replay (memory : Memory) (stores : List Store) : Memory :=
  stores.foldl (fun current write => store current write.start write.bytes) memory

/-- Every byte of the store has an index in `[0, bound)`. -/
def Store.Inside (bound : Nat) (write : Store) : Prop :=
  ∀ index : Nat, index < write.bytes.length → 0 ≤ write.start + index ∧ write.start + index < bound

variable (memory : Memory) (start : Int) (bytes : List UInt8)

theorem store_nil : store memory start [] = memory := by
  funext address
  have empty : ¬(start ≤ address ∧ address < start + (([] : List UInt8).length : Int)) := by
    simp only [List.length_nil]
    omega
  simp only [store, if_neg empty]

theorem store_at (index : Nat) (bound : index < bytes.length) :
    store memory start bytes (start + index) = bytes.getD index 0 := by
  have inside : start ≤ start + (index : Int) ∧
      start + (index : Int) < start + bytes.length := by omega
  simp only [store, if_pos inside]
  rw [show (start + (index : Int) - start).toNat = index by omega]

theorem store_single (address : Int) (byte : UInt8) :
    store memory address [byte] address = byte := by
  have first := store_at memory address [byte] 0 (by simp)
  rwa [Nat.cast_zero, Int.add_zero] at first

theorem store_outside (address : Int) (outside : address < start ∨ start + bytes.length ≤ address) :
    store memory start bytes address = memory address := by
  have notInside : ¬(start ≤ address ∧ address < start + bytes.length) := by omega
  simp only [store, if_neg notInside]

theorem store_store_adjacent (left right : List UInt8) :
    store (store memory start left) (start + left.length) right =
      store memory start (left ++ right) := by
  funext address
  by_cases before : address < start
  · rw [store_outside _ _ _ _ (Or.inl (by omega)), store_outside _ _ _ _ (Or.inl before),
      store_outside _ _ _ _ (Or.inl before)]
  · obtain ⟨index, rfl⟩ : ∃ index : Nat, address = start + index :=
      ⟨(address - start).toNat, by omega⟩
    by_cases inLeft : index < left.length
    · rw [store_outside _ _ _ _ (Or.inl (by omega)), store_at _ _ _ _ inLeft,
        store_at _ _ _ _ (by rw [List.length_append]; omega), List.getD_append _ _ _ _ inLeft]
    · obtain ⟨offset, rfl⟩ : ∃ offset : Nat, index = left.length + offset :=
        ⟨index - left.length, by omega⟩
      by_cases inRight : offset < right.length
      · have split : start + ((left.length + offset : Nat) : Int) =
            start + left.length + (offset : Int) := by omega
        rw [store_at memory start (left ++ right) _ (by rw [List.length_append]; omega),
          split, store_at _ _ _ _ inRight, List.getD_append_right _ _ _ _ (by omega)]
        rw [show left.length + offset - left.length = offset by omega]
      · rw [store_outside _ _ _ _ (Or.inr (by omega)), store_outside _ _ _ _ (Or.inr (by omega)),
          store_outside _ _ _ _ (Or.inr (by rw [List.length_append]; omega))]

theorem store_zero_padding (count : Nat) :
    store zeroed start (bytes ++ List.replicate count 0) = store zeroed start bytes := by
  rw [← store_store_adjacent]
  funext address
  by_cases outside : address < start + bytes.length ∨
      start + bytes.length + (List.replicate count (0 : UInt8)).length ≤ address
  · rw [store_outside _ _ _ _ outside]
  · obtain ⟨index, rfl⟩ : ∃ index : Nat, address = start + bytes.length + index :=
      ⟨(address - (start + bytes.length)).toNat, by omega⟩
    have bound : index < (List.replicate count (0 : UInt8)).length := by omega
    rw [store_at _ _ _ _ bound, store_outside _ _ _ _ (Or.inr (by omega)),
      List.getD_replicate _ (by simpa using bound)]
    rfl

theorem replay_append (first second : List Store) :
    replay memory (first ++ second) = replay (replay memory first) second := by
  simp only [replay, List.foldl_append]

theorem replay_singleton : replay memory [⟨start, bytes⟩] = store memory start bytes := rfl

theorem replay_empty_stores (count : Nat) :
    replay memory (List.replicate count ⟨start, []⟩) = memory := by
  induction count with
  | zero => rfl
  | succ count ih =>
    rw [List.replicate_succ, ← List.singleton_append, replay_append, replay_singleton, store_nil]
    exact ih

theorem inside_iff_ends (bound : Nat) (start : Int) (bytes : List UInt8) (nonempty : bytes ≠ []) :
    Store.Inside bound ⟨start, bytes⟩ ↔ 0 ≤ start ∧ start + bytes.length ≤ bound := by
  have positive : 0 < bytes.length := List.length_pos_iff.mpr nonempty
  constructor
  · intro inside
    have first := inside 0 positive
    have last := inside (bytes.length - 1) (by dsimp only; omega)
    dsimp only at first last
    omega
  · intro ends index indexBound
    dsimp only at indexBound ⊢
    omega

end Cprogramming.Library.ByteMemory
