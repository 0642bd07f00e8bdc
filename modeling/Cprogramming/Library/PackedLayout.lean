import Cprogramming.Library.ByteMemory

/-!
# Chunks packed one after another

The offset of a chunk is the sum of the sizes before it. Chunks stored in
sequence occupy the concatenation of their bytes, and any byte of any chunk is
found again at its offset.
-/

namespace Cprogramming.Library.PackedLayout

open ByteMemory

set_option autoImplicit false

def offsetAt (sizes : List Nat) (index : Nat) : Nat := (sizes.take index).sum

variable (sizes : List Nat)

theorem offset_zero : offsetAt sizes 0 = 0 := by
  simp [offsetAt]

theorem offset_cons_succ (size : Nat) (sizes : List Nat) (index : Nat) :
    offsetAt (size :: sizes) (index + 1) = size + offsetAt sizes index := by
  simp [offsetAt]

theorem offset_succ (index size : Nat) (entry : sizes[index]? = some size) :
    offsetAt sizes (index + 1) = offsetAt sizes index + size := by
  simp [offsetAt, List.take_add_one, entry]

theorem offset_length : offsetAt sizes sizes.length = sizes.sum := by
  simp [offsetAt]

theorem offset_le_sum (index : Nat) : offsetAt sizes index ≤ sizes.sum := by
  rw [← List.sum_take_add_sum_drop sizes index]
  exact Nat.le_add_right _ _

theorem offset_append_left (left right : List Nat) (index : Nat) (bound : index ≤ left.length) :
    offsetAt (left ++ right) index = offsetAt left index := by
  rw [offsetAt, List.take_append_of_le_length bound, offsetAt]

theorem offset_append_right (left right : List Nat) (index : Nat) :
    offsetAt (left ++ right) (left.length + index) = left.sum + offsetAt right index := by
  have whole : left.take (left.length + index) = left := List.take_of_length_le (by omega)
  simp [offsetAt, List.take_append, whole]

theorem packed_byte (memory : Memory) (start : Int) (chunks : List (List UInt8)) (chunk : Nat)
    (bytes : List UInt8) (entry : chunks[chunk]? = some bytes) (index : Nat)
    (bound : index < bytes.length) :
    store memory start chunks.flatten
        (start + (offsetAt (chunks.map List.length) chunk + index : Nat)) = bytes.getD index 0 := by
  have location : offsetAt (chunks.map List.length) chunk + index < chunks.flatten.length ∧
      chunks.flatten.getD (offsetAt (chunks.map List.length) chunk + index) 0 =
        bytes.getD index 0 := by
    induction chunks generalizing chunk with
    | nil => simp at entry
    | cons head tail ih =>
      cases chunk with
      | zero =>
        obtain rfl : head = bytes := by simpa using entry
        simp only [offset_zero, Nat.zero_add, List.flatten_cons, List.length_append]
        exact ⟨by omega, List.getD_append _ _ _ _ bound⟩
      | succ chunk =>
        obtain ⟨inside, value⟩ := ih chunk (by simpa using entry)
        simp only [List.map_cons, offset_cons_succ, List.flatten_cons, List.length_append]
        refine ⟨by omega, ?_⟩
        rw [List.getD_append_right _ _ _ _ (by omega), ← value]
        apply congrArg (fun position => tail.flatten.getD position 0)
        omega
  rw [store_at _ _ _ _ location.1, location.2]

theorem packed_beyond (chunks : List (List UInt8)) (address : Int)
    (beyond : (chunks.map List.length).sum ≤ address) :
    store zeroed 0 chunks.flatten address = 0 := by
  rw [store_outside _ _ _ _ (Or.inr (by simpa using beyond))]
  rfl

end Cprogramming.Library.PackedLayout
