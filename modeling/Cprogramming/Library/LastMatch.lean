import Mathlib.Data.List.Basic
import Mathlib.Tactic.Common

/-!
# Last match wins

A left-to-right scan that overwrites its verdict at every match keeps the match
of greatest index. What stands before that match cannot be seen in the result.
-/

namespace Cprogramming.Library.LastMatch

set_option autoImplicit false

variable {Item : Type}

def lastMatch (hits : Item → Bool) (items : List Item) : Option Item :=
  items.foldl (fun last item => if hits item then some item else last) none

/-- `item` matches and no item after it does. -/
def IsLast (hits : Item → Bool) (items : List Item) (item : Item) : Prop :=
  ∃ before after, items = before ++ item :: after ∧ hits item = true ∧
    ∀ later ∈ after, hits later = false

private theorem scan_no_match (hits : Item → Bool) (items : List Item)
    (start : Option Item) (quiet : ∀ item ∈ items, hits item = false) :
    items.foldl (fun last item => if hits item then some item else last) start = start := by
  induction items generalizing start with
  | nil => rfl
  | cons item items ih =>
    have head : hits item = false := quiet item (by simp)
    simp only [List.foldl_cons, head, Bool.false_eq_true, if_false]
    exact ih start (by intro later member; exact quiet later (by simp [member]))

variable (hits : Item → Bool) (items : List Item)

theorem last_match_of_split (before after : List Item) (item : Item) (hit : hits item = true)
    (rest : ∀ later ∈ after, hits later = false) :
    lastMatch hits (before ++ item :: after) = some item := by
  simp only [lastMatch, List.foldl_append, List.foldl_cons, hit, if_true]
  exact scan_no_match hits after (some item) rest

theorem last_match_append_miss (item : Item) (miss : hits item = false) :
    lastMatch hits (items ++ [item]) = lastMatch hits items := by
  simp only [lastMatch, List.foldl_append, List.foldl_cons, List.foldl_nil, miss,
    Bool.false_eq_true, if_false]

theorem last_match_none (quiet : ∀ item ∈ items, hits item = false) : lastMatch hits items = none :=
  scan_no_match hits items none quiet

theorem none_or_last : (∀ item ∈ items, hits item = false) ∨ ∃ item, IsLast hits items item := by
  induction items with
  | nil => exact Or.inl (by simp)
  | cons item items ih =>
    rcases ih with quiet | ⟨last, before, after, split, hit, rest⟩
    · cases head : hits item with
      | false =>
        refine Or.inl ?_
        intro other member
        rcases List.mem_cons.mp member with rfl | later
        · exact head
        · exact quiet other later
      | true => exact Or.inr ⟨item, [], items, rfl, head, quiet⟩
    · exact Or.inr ⟨last, item :: before, after, by rw [split]; rfl, hit, rest⟩

theorem last_match_eq_some_iff (item : Item) :
    lastMatch hits items = some item ↔ IsLast hits items item := by
  constructor
  · intro found
    rcases none_or_last hits items with quiet | ⟨last, before, after, split, hit, rest⟩
    · rw [last_match_none hits items quiet] at found
      exact absurd found (by simp)
    · have same := last_match_of_split hits before after last hit rest
      rw [← split, found] at same
      obtain rfl := Option.some.inj same
      exact ⟨before, after, split, hit, rest⟩
  · rintro ⟨before, after, rfl, hit, rest⟩
    exact last_match_of_split hits before after item hit rest

end Cprogramming.Library.LastMatch
