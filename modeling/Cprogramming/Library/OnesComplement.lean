import Mathlib.Algebra.BigOperators.Group.List.Basic
import Mathlib.Algebra.Order.Ring.Int
import Mathlib.Data.Nat.ModEq
import Mathlib.Tactic.Common

/-!
# Ones'-complement sums

Addition of words up to `limit` in which a carry out of the top is added at the
bottom. A sum of words is the residue of the unbounded sum, with the two
representations of zero told apart: `0` is only the sum of zeros.
-/

namespace Cprogramming.Library.OnesComplement

set_option autoImplicit false

def endAround (limit sum word : Nat) : Nat :=
  if sum + word ≤ limit then sum + word else sum + word - limit

def onesSum (limit : Nat) (words : List Nat) : Nat := words.foldl (endAround limit) 0

/-- The word that stands for an unbounded sum. -/
def folded (limit total : Nat) : Nat := if total = 0 then 0 else (total - 1) % limit + 1

variable (limit total : Nat)

theorem folded_zero : folded limit 0 = 0 := by
  rfl

theorem folded_le (positive : 0 < limit) : folded limit total ≤ limit := by
  unfold folded
  have small := Nat.mod_lt (total - 1) positive
  split_ifs
  · exact Nat.zero_le limit
  · omega

theorem end_around_folded {limit word : Nat} (total : Nat) (positive : 0 < limit)
    (fits : word ≤ limit) :
    endAround limit (folded limit total) word = folded limit (total + word) := by
  by_cases empty : total = 0
  · rw [empty, folded_zero, Nat.zero_add, endAround, Nat.zero_add, if_pos fits, folded]
    split_ifs with zero
    · exact zero
    · rw [Nat.mod_eq_of_lt (by omega)]
      omega
  · have split := Nat.mod_add_div (total - 1) limit
    have small := Nat.mod_lt (total - 1) positive
    have residue : (total + word - 1) % limit = ((total - 1) % limit + word) % limit := by
      have regrouped : total + word - 1 =
          (total - 1) % limit + word + limit * ((total - 1) / limit) := by omega
      rw [regrouped, Nat.add_mul_mod_self_left]
    rw [folded, if_neg empty, folded, if_neg (by omega), residue, endAround]
    clear residue split
    generalize (total - 1) % limit = low at small
    by_cases carry : low + word < limit
    · rw [if_pos (by omega), Nat.mod_eq_of_lt carry]
      omega
    · rw [if_neg (by omega), Nat.mod_eq_sub_mod (by omega), Nat.mod_eq_of_lt (by omega)]
      omega

theorem ones_sum_from {limit : Nat} (total : Nat) {words : List Nat} (positive : 0 < limit)
    (fit : ∀ word ∈ words, word ≤ limit) :
    words.foldl (endAround limit) (folded limit total) = folded limit (total + words.sum) := by
  induction words generalizing total with
  | nil => rfl
  | cons word rest ih =>
    rw [List.foldl_cons, end_around_folded total positive (fit word List.mem_cons_self),
      ih _ (fun other member => fit other (List.mem_cons_of_mem _ member)), List.sum_cons,
      Nat.add_assoc]

theorem ones_sum_eq (words : List Nat) (positive : 0 < limit) (fit : ∀ word ∈ words, word ≤ limit) :
    onesSum limit words = folded limit words.sum := by
  have sum := ones_sum_from 0 positive fit
  rw [Nat.zero_add] at sum
  exact sum

theorem folded_eq_iff (left right : Nat) : folded limit left = folded limit right ↔
      (left = 0 ↔ right = 0) ∧ left ≡ right [MOD limit] := by
  by_cases leftZero : left = 0
  · by_cases rightZero : right = 0
    · rw [leftZero, rightZero]
      exact iff_of_true rfl ⟨Iff.rfl, Nat.ModEq.refl 0⟩
    · apply iff_of_false
      · rw [leftZero, folded_zero, folded, if_neg rightZero]
        omega
      · intro same
        exact rightZero (same.1.mp leftZero)
  · by_cases rightZero : right = 0
    · apply iff_of_false
      · rw [rightZero, folded_zero, folded, if_neg leftZero]
        omega
      · intro same
        exact leftZero (same.1.mpr rightZero)
    · have leftSucc : left - 1 + 1 = left := by omega
      have rightSucc : right - 1 + 1 = right := by omega
      rw [folded, if_neg leftZero, folded, if_neg rightZero, Nat.add_right_cancel_iff,
        and_iff_right (iff_of_false leftZero rightZero)]
      constructor
      · intro residues
        have next := Nat.ModEq.add_right 1 residues
        rwa [leftSucc, rightSucc] at next
      · intro congruent
        apply Nat.ModEq.add_right_cancel' 1
        rwa [leftSucc, rightSucc]

theorem folded_add_word_injective (left right : Nat) (leftPositive : 0 < left)
    (leftFits : left ≤ limit) (rightPositive : 0 < right) (rightFits : right ≤ limit)
    (same : folded limit (total + left) = folded limit (total + right)) : left = right := by
  have congruent : left ≡ right [MOD limit] :=
    Nat.ModEq.add_left_cancel' total ((folded_eq_iff limit _ _).mp same).2
  have residues : left % limit = right % limit := congruent
  rcases Nat.lt_or_eq_of_le leftFits with leftSmall | rfl
  · rcases Nat.lt_or_eq_of_le rightFits with rightSmall | rfl
    · rwa [Nat.mod_eq_of_lt leftSmall, Nat.mod_eq_of_lt rightSmall] at residues
    · rw [Nat.mod_eq_of_lt leftSmall, Nat.mod_self] at residues
      omega
  · rcases Nat.lt_or_eq_of_le rightFits with rightSmall | rfl
    · rw [Nat.mod_eq_of_lt rightSmall, Nat.mod_self] at residues
      omega
    · rfl

theorem add_congruent_iff (added : Nat) :
    total + added ≡ total [MOD limit] ↔ added % limit = 0 := by
  constructor
  · intro same
    rw [← Nat.add_zero total, Nat.add_assoc, Nat.zero_add] at same
    exact Nat.ModEq.add_left_cancel' total same
  · intro multiple
    have zero : added ≡ 0 [MOD limit] := multiple
    exact Nat.ModEq.add_left total zero

theorem folded_add_eq_iff (added : Nat) (positive : 0 < added) :
    folded limit (total + added) = folded limit total ↔ total ≠ 0 ∧ added % limit = 0 := by
  rw [folded_eq_iff, add_congruent_iff]
  constructor
  · intro same
    exact ⟨fun empty => by have none := same.1.mpr empty; omega, same.2⟩
  · intro same
    exact ⟨⟨fun none => by omega, fun empty => absurd empty same.1⟩, same.2⟩

end Cprogramming.Library.OnesComplement
