import Mathlib.Data.List.Basic
import Mathlib.Tactic.Common

/-!
# Numbered delivery in order

A script of items is delivered by packets that carry the position of their item
modulo a modulus; a receiver counts what it has taken modulo the same modulus
and takes the item whose number equals its count. As long as the script has
fewer items than there are numbers, what it takes is the script from its start,
whatever the network does with the packets; a packet numbered one past the last
item tells it that it has everything.
-/

namespace Cprogramming.Library.InOrder

set_option autoImplicit false

variable {Item : Type} (script accepted : List Item) (modulus : Nat)

theorem number_of_residue (left right : Nat) (leftBelow : left < modulus)
    (rightBelow : right < modulus) (same : left % modulus = right % modulus) : left = right := by
  rwa [Nat.mod_eq_of_lt leftBelow, Nat.mod_eq_of_lt rightBelow] at same

theorem count_below (inOrder : accepted <+: script) (few : script.length < modulus) :
    accepted.length < modulus := by
  have atMost := inOrder.length_le
  omega

theorem take_in_order (number : Nat) (item : Item) (inOrder : accepted <+: script)
    (few : script.length < modulus) (numbered : script[number]? = some item)
    (expected : number % modulus = accepted.length % modulus) :
    accepted ++ [item] <+: script := by
  obtain ⟨inside, _⟩ := List.getElem?_eq_some_iff.mp numbered
  have next : number = accepted.length :=
    number_of_residue modulus number accepted.length (by omega)
      (count_below script accepted modulus inOrder few) expected
  obtain ⟨rest, split⟩ := inOrder
  subst split
  rw [next, List.getElem?_append_right (Nat.le_refl _), Nat.sub_self] at numbered
  cases rest with
  | nil => simp at numbered
  | cons head tail =>
    have same : head = item := by simpa using numbered
    exact ⟨tail, by simp [same]⟩

theorem complete_of_end (inOrder : accepted <+: script) (few : script.length < modulus)
    (expected : script.length % modulus = accepted.length % modulus) : accepted = script := by
  have all : script.length = accepted.length :=
    number_of_residue modulus script.length accepted.length few
      (count_below script accepted modulus inOrder few) expected
  exact inOrder.eq_of_length all.symm

end Cprogramming.Library.InOrder
