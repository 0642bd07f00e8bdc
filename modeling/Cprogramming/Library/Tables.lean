import Mathlib.Data.List.Basic

/-!
# A table with one changed entry

What `List.modify` does to the other entries of a table and to the number of its
entries with a property.
-/

namespace Cprogramming.Library.Tables

set_option autoImplicit false

variable {Item : Type}

variable (items : List Item) (index : Nat)

theorem modify_same (change : Item → Item) (item : Item) (present : items[index]? = some item) :
    (items.modify index change)[index]? = some (change item) := by
  simp [present]

theorem modify_other (other : Nat) (change : Item → Item) (apart : other ≠ index) :
    (items.modify index change)[other]? = items[other]? := by
  simp [Ne.symm apart]

theorem modify_some (other : Nat) (change : Item → Item) (after : Item)
    (present : (items.modify index change)[other]? = some after) :
    ∃ before, items[other]? = some before ∧
      (other = index ∧ after = change before ∨ other ≠ index ∧ after = before) := by
  by_cases same : other = index
  · subst same
    rw [List.getElem?_modify_eq] at present
    obtain ⟨before, found, rfl⟩ := Option.map_eq_some_iff.mp present
    exact ⟨before, found, Or.inl ⟨rfl, rfl⟩⟩
  · rw [modify_other items index other change same] at present
    exact ⟨after, present, Or.inr ⟨same, rfl⟩⟩

theorem map_modify {Field : Type} (items : List Item) (index : Nat) (change : Item → Item)
    (field : Item → Field) (keeps : ∀ item, field (change item) = field item) :
    (items.modify index change).map field = items.map field := by
  refine List.ext_getElem? fun position => ?_
  simp only [List.getElem?_map, List.getElem?_modify]
  cases items[position]? with
  | none => rfl
  | some item =>
    simp only [Option.map_eq_map, Option.map_some]
    split
    · rw [keeps]
    · rfl

theorem count_modify (change : Item → Item) (item : Item) (present : items[index]? = some item)
    (holds : Item → Bool) :
    (items.modify index change).countP holds + (if holds item then 1 else 0) =
      items.countP holds + (if holds (change item) then 1 else 0) := by
  induction items generalizing index with
  | nil => cases present
  | cons first rest ih =>
    cases index with
    | zero =>
      cases present
      simp only [List.modify_zero_cons, List.countP_cons]
      omega
    | succ index =>
      have later := ih index (by simpa using present)
      simp only [List.modify_succ_cons, List.countP_cons] at later ⊢
      omega

end Cprogramming.Library.Tables
