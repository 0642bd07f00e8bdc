import Mathlib.Algebra.Order.Ring.Int
import Mathlib.Tactic.Common

/-!
# Machine words

`size_t` is a natural number below `2 ^ 64`, `ssize_t` an integer in
`[-2 ^ 63, 2 ^ 63)` and `int` one in `[-2 ^ 31, 2 ^ 31)`; every operation wraps. A
negative `int` that becomes a `size_t` is sign extended first.
-/

namespace Cprogramming.Library.MachineWords

set_option autoImplicit false

def sizeAdd (left right : Nat) : Nat := (left + right) % 2 ^ 64

def sizeSub (left right : Nat) : Nat := (left + (2 ^ 64 - right % 2 ^ 64)) % 2 ^ 64

def uint32OfNat (value : Nat) : Nat := value % 2 ^ 32

def int32 (value : Int) : Int := (value + 2 ^ 31) % 2 ^ 32 - 2 ^ 31

def uint32OfInt (value : Int) : Nat := (value % 2 ^ 32).toNat

def sizeOfInt (value : Int) : Nat := (value % 2 ^ 64).toNat

def ssizeOfSize (value : Nat) : Int := ((value : Int) + 2 ^ 63) % 2 ^ 64 - 2 ^ 63

variable (value : Int) (left right : Nat)

theorem size_add_exact (small : left + right < 2 ^ 64) : sizeAdd left right = left + right := by
  exact Nat.mod_eq_of_lt small

theorem size_sub_exact (small : left < 2 ^ 64) (ordered : right ≤ left) :
    sizeSub left right = left - right := by
  unfold sizeSub
  omega

theorem size_sub_wraps (small : right < 2 ^ 64) (below : left < right) :
    sizeSub left right = 2 ^ 64 - (right - left) := by
  unfold sizeSub
  omega

theorem int32_exact (lower : -2 ^ 31 ≤ value) (upper : value < 2 ^ 31) : int32 value = value := by
  unfold int32
  omega

theorem int32_add_int32 (left right : Int) :
    int32 (int32 left + int32 right) = int32 (left + right) := by
  unfold int32
  omega

theorem int32_sub_int32 (left right : Int) :
    int32 (int32 left - int32 right) = int32 (left - right) := by
  unfold int32
  omega

theorem uint32_of_int32 : uint32OfInt (int32 value) = uint32OfInt value := by
  unfold uint32OfInt int32
  omega

theorem uint32_of_natural (value : Nat) : uint32OfInt value = value % 2 ^ 32 := by
  unfold uint32OfInt
  omega

theorem size_of_nonnegative (lower : 0 ≤ value) (upper : value < 2 ^ 64) :
    sizeOfInt value = value.toNat := by
  unfold sizeOfInt
  omega

theorem size_of_negative (negative : value < 0) (lower : -2 ^ 64 ≤ value) :
    (sizeOfInt value : Int) = 2 ^ 64 + value := by
  unfold sizeOfInt
  omega

theorem ssize_of_size_exact (value : Nat) (small : value < 2 ^ 63) : ssizeOfSize value = value := by
  unfold ssizeOfSize
  omega

theorem ssize_of_size_sub (left : Int) (right : Nat) (nonnegative : 0 ≤ left)
    (leftSmall : left < 2 ^ 63) (rightSmall : right < 2 ^ 63) :
    ssizeOfSize (sizeSub (sizeOfInt left) right) = left - right := by
  unfold ssizeOfSize sizeSub sizeOfInt
  omega

end Cprogramming.Library.MachineWords
