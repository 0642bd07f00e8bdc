import Mathlib.Data.List.Basic
import Mathlib.Logic.Function.Iterate
import Mathlib.Order.Lattice

/-!
# Exchange sort with a fixed number of passes

Neighbours in the wrong order are exchanged, from the front to the end of an array;
there are as many such passes as items behind the first. A pass carries a greatest
item to the end, and later passes leave it there.
-/

namespace Cprogramming.Library.ExchangeSort

set_option autoImplicit false

variable {Item : Type} (compare : Item → Item → Int)

def exchange (items : List Item) (place : Nat) : List Item :=
  match items[place - 1]?, items[place]? with
  | some before, some item =>
    if 0 < compare before item then (items.set (place - 1) item).set place before else items
  | _, _ => items

def pass (items : List Item) : List Item :=
  (List.range' 1 (items.length - 1)).foldl (exchange compare) items

def exchangeSort (items : List Item) : List Item :=
  (List.range' 1 (items.length - 1)).foldl (fun sorted _ => pass compare sorted) items

/-- A pass without places: the greater of two neighbours is carried on. -/
def carry (item : Item) : List Item → List Item
  | [] => [item]
  | other :: rest =>
    if 0 < compare item other then other :: carry item rest else item :: carry other rest

theorem exchange_append (front rest : List Item) (item other : Item) :
    exchange compare (front ++ item :: other :: rest) (front.length + 1) =
      front ++ (if 0 < compare item other then other :: item :: rest
        else item :: other :: rest) := by
  have before : (front ++ item :: other :: rest)[front.length]? = some item := by simp
  have here : (front ++ item :: other :: rest)[front.length + 1]? = some other := by simp
  simp only [exchange, Nat.add_sub_cancel, before, here]
  split_ifs
  · rw [List.set_append_right _ _ (Nat.le_refl _), List.set_append_right _ _ (Nat.le_succ _)]
    simp
  · rfl

theorem exchanges_eq_carry (front rest : List Item) (item : Item) :
    (List.range' (front.length + 1) rest.length).foldl (exchange compare) (front ++ item :: rest) =
      front ++ carry compare item rest := by
  induction rest generalizing front item with
  | nil => rfl
  | cons other rest ih =>
    rw [List.length_cons, List.range'_succ, List.foldl_cons, exchange_append, carry]
    split_ifs with greater
    · have later := ih (front ++ [other]) item
      simpa using later
    · have later := ih (front ++ [item]) other
      simpa using later

theorem pass_cons (item : Item) (rest : List Item) :
    pass compare (item :: rest) = carry compare item rest := by
  exact exchanges_eq_carry compare [] rest item

theorem carry_perm (item : Item) (rest : List Item) :
    (carry compare item rest).Perm (item :: rest) := by
  induction rest generalizing item with
  | nil => exact List.Perm.refl [item]
  | cons other rest ih =>
    rw [carry]
    split_ifs with greater
    · exact ((ih item).cons other).trans (List.Perm.swap item other rest)
    · exact (ih other).cons item

theorem pass_perm (items : List Item) : (pass compare items).Perm items := by
  cases items with
  | nil => exact List.Perm.refl []
  | cons item rest =>
    rw [pass_cons]
    exact carry_perm compare item rest

theorem carry_filter (keep : Item → Bool)
    (alike : ∀ left right, keep left = true → keep right = true → compare left right ≤ 0)
    (item : Item) (rest : List Item) :
    (carry compare item rest).filter keep = (item :: rest).filter keep := by
  induction rest generalizing item with
  | nil => rfl
  | cons other rest ih =>
    rw [carry]
    split_ifs with greater
    · have apart : keep item = false ∨ keep other = false := by
        by_contra both
        simp only [not_or, Bool.not_eq_false] at both
        have atMost := alike item other both.1 both.2
        omega
      rw [List.filter_cons, ih item]
      rcases apart with dropped | dropped <;> simp [List.filter_cons, dropped]
    · rw [List.filter_cons, ih other]
      simp only [List.filter_cons]

theorem pass_filter (keep : Item → Bool)
    (alike : ∀ left right, keep left = true → keep right = true → compare left right ≤ 0)
    (items : List Item) : (pass compare items).filter keep = items.filter keep := by
  cases items with
  | nil => rfl
  | cons item rest =>
    rw [pass_cons]
    exact carry_filter compare keep alike item rest

theorem carry_concat (item largest : Item) (rest : List Item)
    (below : ∀ other ∈ item :: rest, compare other largest ≤ 0) :
    carry compare item (rest ++ [largest]) = carry compare item rest ++ [largest] := by
  induction rest generalizing item with
  | nil =>
    have last : ¬ 0 < compare item largest := Int.not_lt.mpr (below item (by simp))
    simp [carry, last]
  | cons other rest ih =>
    rw [List.cons_append, carry, carry]
    split_ifs with greater
    · rw [ih item (by grind), List.cons_append]
    · rw [ih other (by grind), List.cons_append]

theorem pass_concat (items : List Item) (largest : Item)
    (below : ∀ other ∈ items, compare other largest ≤ 0) :
    pass compare (items ++ [largest]) = pass compare items ++ [largest] := by
  cases items with
  | nil => rfl
  | cons item rest =>
    rw [List.cons_append, pass_cons, pass_cons]
    exact carry_concat compare item largest rest below

theorem passes_concat (count : Nat) (items : List Item) (largest : Item)
    (below : ∀ other ∈ items, compare other largest ≤ 0) :
    (pass compare)^[count] (items ++ [largest]) = (pass compare)^[count] items ++ [largest] := by
  induction count generalizing items with
  | zero => rfl
  | succ count ih =>
    rw [Function.iterate_succ_apply, Function.iterate_succ_apply,
      pass_concat compare items largest below]
    apply ih
    intro other member
    exact below other ((pass_perm compare items).mem_iff.mp member)

theorem passes_perm (count : Nat) (items : List Item) :
    ((pass compare)^[count] items).Perm items := by
  induction count generalizing items with
  | zero => exact List.Perm.refl items
  | succ count ih => exact (ih (pass compare items)).trans (pass_perm compare items)

theorem exchange_sort_eq_passes (items : List Item) :
    exchangeSort compare items = (pass compare)^[items.length - 1] items := by
  rw [exchangeSort, List.foldl_const, List.length_range']

theorem exchange_sort_perm (items : List Item) : (exchangeSort compare items).Perm items := by
  rw [exchange_sort_eq_passes]
  exact passes_perm compare (items.length - 1) items

theorem exchange_sort_filter (keep : Item → Bool)
    (alike : ∀ left right, keep left = true → keep right = true → compare left right ≤ 0)
    (items : List Item) : (exchangeSort compare items).filter keep = items.filter keep := by
  rw [exchange_sort_eq_passes]
  generalize items.length - 1 = count
  induction count generalizing items with
  | zero => rfl
  | succ count ih =>
    rw [Function.iterate_succ_apply, ih]
    exact pass_filter compare keep alike items

/-! ## Items ordered by a key -/

section Keys

variable {Key : Type} [LinearOrder Key] (key : Item → Key) (Fit : Item → Prop)
  (orders : ∀ left right, Fit left → Fit right → (0 < compare left right ↔ key right < key left))

include orders

theorem carry_last (item : Item) (rest : List Item) (fit : ∀ other ∈ item :: rest, Fit other) :
    ∃ front largest, carry compare item rest = front ++ [largest] ∧
      ∀ other ∈ item :: rest, key other ≤ key largest := by
  induction rest generalizing item with
  | nil => exact ⟨[], item, rfl, by simp⟩
  | cons other rest ih =>
    have order := orders item other (fit item (by simp)) (fit other (by simp))
    rw [carry]
    split_ifs with greater
    · obtain ⟨front, largest, carried, above⟩ := ih item (by grind)
      refine ⟨other :: front, largest, by rw [carried, List.cons_append], ?_⟩
      have item_le := above item (by simp)
      have other_le := le_trans (le_of_lt (order.mp greater)) item_le
      grind
    · obtain ⟨front, largest, carried, above⟩ := ih other (by grind)
      refine ⟨item :: front, largest, by rw [carried, List.cons_append], ?_⟩
      have other_le := above other (by simp)
      have item_le := le_trans (le_of_not_gt (fun less => greater (order.mpr less))) other_le
      grind

theorem passes_sorted (count : Nat) (items : List Item) (fit : ∀ other ∈ items, Fit other)
    (short : items.length ≤ count + 1) :
    ((pass compare)^[count] items).Pairwise fun left right => compare left right ≤ 0 := by
  induction count generalizing items with
  | zero =>
    match items, short with
    | [], _ => exact List.Pairwise.nil
    | [item], _ => exact List.pairwise_singleton _ item
  | succ count ih =>
    cases items with
    | nil =>
      have empty := passes_perm compare (count + 1) ([] : List Item)
      rw [empty.eq_nil]
      exact List.Pairwise.nil
    | cons item rest =>
      obtain ⟨front, largest, carried, above⟩ :=
        carry_last compare key Fit orders item rest fit
      have same := carry_perm compare item rest
      rw [carried] at same
      have below : ∀ other ∈ front, compare other largest ≤ 0 := by
        intro other member
        have inside := same.mem_iff.mp (List.mem_append_left [largest] member)
        have order := orders other largest (fit other inside)
          (fit largest (same.mem_iff.mp (by simp)))
        exact Int.not_lt.mp fun greater =>
          absurd (order.mp greater) (not_lt.mpr (above other inside))
      have length := same.length_eq
      simp only [List.length_append, List.length_cons, List.length_nil] at length short
      rw [Function.iterate_succ_apply, pass_cons, carried,
        passes_concat compare count front largest below, List.pairwise_append]
      refine ⟨ih front ?_ (by omega), List.pairwise_singleton _ largest, ?_⟩
      · intro other member
        exact fit other (same.mem_iff.mp (List.mem_append_left [largest] member))
      · intro other member last isLast
        rw [List.mem_singleton.mp isLast]
        exact below other ((passes_perm compare count front).mem_iff.mp member)

theorem exchange_sort_sorted (items : List Item) (fit : ∀ other ∈ items, Fit other) :
    (exchangeSort compare items).Pairwise fun left right => compare left right ≤ 0 := by
  rw [exchange_sort_eq_passes]
  exact passes_sorted compare key Fit orders (items.length - 1) items fit (by omega)

end Keys

end Cprogramming.Library.ExchangeSort
