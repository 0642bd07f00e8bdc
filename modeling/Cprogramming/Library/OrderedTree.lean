import Mathlib.Data.List.Basic
import Mathlib.Order.Lattice
import Mathlib.Tactic.Common

/-!
# Search trees ordered by a comparison function

The tree macros of the C library, on the list of nodes in the order of the
comparison. A comparison is negative, zero or positive as in C.
-/

namespace Cprogramming.Library.OrderedTree

set_option autoImplicit false

variable {Node : Type}

def rbFind (compare : Node → Node → Int) (target : Node) (tree : List Node) : Option Node :=
  tree.find? fun node => compare target node = 0

/-- `none` when a node that compares equal is in the tree already. -/
def rbInsert (compare : Node → Node → Int) (node : Node) : List Node → Option (List Node)
  | [] => some [node]
  | other :: rest =>
    if compare node other = 0 then none
    else if compare node other < 0 then some (node :: other :: rest)
    else (rbInsert compare node rest).map (other :: ·)

def rbRemove (compare : Node → Node → Int) (target : Node) (tree : List Node) : List Node :=
  tree.eraseP fun node => compare target node = 0

theorem rb_find_mem (compare : Node → Node → Int) (target found : Node) (tree : List Node)
    (finds : rbFind compare target tree = some found) : found ∈ tree := by
  exact List.mem_of_find?_eq_some finds

theorem rb_insert_perm (compare : Node → Node → Int) (node : Node) (tree after : List Node)
    (inserted : rbInsert compare node tree = some after) : after.Perm (node :: tree) := by
  induction tree generalizing after with
  | nil =>
    obtain rfl := Option.some.inj inserted
    exact List.Perm.refl [node]
  | cons other rest ih =>
    rw [rbInsert] at inserted
    split_ifs at inserted with equal smaller
    · obtain rfl := Option.some.inj inserted
      exact List.Perm.refl (node :: other :: rest)
    · obtain ⟨later, found, rfl⟩ := Option.map_eq_some_iff.mp inserted
      exact ((ih later found).cons other).trans (List.Perm.swap node other rest)

private theorem option_eq_of_perm {left right : Option Node}
    (same : left.toList.Perm right.toList) : left = right := by
  cases right with
  | none => exact Option.toList_eq_nil_iff.mp (List.perm_nil.mp same)
  | some node => exact Option.toList_eq_singleton_iff.mp (List.perm_singleton.mp same)

/-! ## Comparisons of keys

A comparison that orders the nodes by a key keeps the tree sorted, and a key then
finds at most one node. -/

section Keys

variable {Key : Type} [LinearOrder Key]

/-- The comparison has the sign of the order of the keys. -/
structure ComparesBy (key : Node → Key) (compare : Node → Node → Int) : Prop where
  equal : ∀ left right, compare left right = 0 ↔ key left = key right
  less : ∀ left right, compare left right < 0 ↔ key left < key right

def Ordered (key : Node → Key) (tree : List Node) : Prop :=
  tree.Pairwise fun left right => key left < key right

variable {key : Node → Key} {compare : Node → Node → Int} (compares : ComparesBy key compare)

include compares

variable (target node : Node) (tree : List Node)

theorem rb_insert_eq_none_iff (ordered : Ordered key tree) :
    rbInsert compare node tree = none ↔ ∃ other ∈ tree, key other = key node := by
  induction tree with
  | nil => simp [rbInsert]
  | cons head rest ih =>
    obtain ⟨first, later⟩ := List.pairwise_cons.mp ordered
    rw [rbInsert]
    split_ifs with equal smaller
    · have same := (compares.equal node head).mp equal
      simp only [List.mem_cons, true_iff]
      exact ⟨head, Or.inl rfl, same.symm⟩
    · have below := (compares.less node head).mp smaller
      simp only [List.mem_cons, false_iff]
      intro present
      obtain ⟨other, member, same⟩ := present
      rcases member with rfl | inside
      · exact absurd same.symm (ne_of_lt below)
      · exact absurd same.symm (ne_of_lt (lt_trans below (first other inside)))
    · have different : key head ≠ key node := by
        intro same
        exact equal ((compares.equal node head).mpr same.symm)
      rw [Option.map_eq_none_iff, ih later]
      simp only [List.mem_cons, exists_eq_or_imp, different, false_or]

theorem rb_insert_ordered (after : List Node) (ordered : Ordered key tree)
    (inserted : rbInsert compare node tree = some after) : Ordered key after := by
  induction tree generalizing after with
  | nil =>
    obtain rfl := Option.some.inj inserted
    exact List.pairwise_singleton _ node
  | cons head rest ih =>
    obtain ⟨first, later⟩ := List.pairwise_cons.mp ordered
    rw [rbInsert] at inserted
    split_ifs at inserted with equal smaller
    · obtain rfl := Option.some.inj inserted
      have below := (compares.less node head).mp smaller
      apply List.pairwise_cons.mpr
      refine ⟨?_, ordered⟩
      intro other member
      rcases List.mem_cons.mp member with rfl | inside
      · exact below
      · exact lt_trans below (first other inside)
    · obtain ⟨longer, found, rfl⟩ := Option.map_eq_some_iff.mp inserted
      have above : key head < key node := by
        apply lt_of_le_of_ne
        · exact le_of_not_gt (fun below => smaller ((compares.less node head).mpr below))
        · exact fun same => equal ((compares.equal node head).mpr same.symm)
      apply List.pairwise_cons.mpr
      refine ⟨?_, ih longer later found⟩
      intro other member
      rcases List.mem_cons.mp ((rb_insert_perm compare node rest longer found).mem_iff.mp member)
        with rfl | inside
      · exact above
      · exact first other inside

theorem filter_eq_rb_find (ordered : Ordered key tree) :
    (tree.filter fun node => key node = key target) = (rbFind compare target tree).toList := by
  induction tree with
  | nil => rfl
  | cons head rest ih =>
    obtain ⟨first, later⟩ := List.pairwise_cons.mp ordered
    rw [rbFind, List.find?_cons]
    by_cases here : key head = key target
    · have others : (rest.filter fun node => key node = key target) = [] := by
        apply List.filter_eq_nil_iff.mpr
        intro other inside
        have above := first other inside
        rw [here] at above
        simpa using (ne_of_lt above).symm
      rw [List.filter_cons_of_pos (by simpa using here), others]
      simp [(compares.equal target head).mpr here.symm]
    · have differ : ¬ compare target head = 0 := by
        intro equal
        exact here ((compares.equal target head).mp equal).symm
      rw [List.filter_cons_of_neg (by simpa using here), ih later]
      simp [differ, rbFind]

theorem rb_find_eq_none_iff :
    rbFind compare target tree = none ↔ ∀ node ∈ tree, key node ≠ key target := by
  simp only [rbFind, List.find?_eq_none, decide_eq_true_eq, compares.equal]
  constructor
  · intro absent node member same
    exact absent node member same.symm
  · intro absent node member same
    exact absent node member same.symm

theorem rb_find_insert (target : Node) (tree after : List Node) (ordered : Ordered key tree)
    (inserted : rbInsert compare node tree = some after) : rbFind compare target after =
      if key target = key node then some node else rbFind compare target tree := by
  have afterwards := rb_insert_ordered compares node tree after ordered inserted
  have nodes := (rb_insert_perm compare node tree after inserted).filter
    (fun other => decide (key other = key target))
  rw [filter_eq_rb_find compares target after afterwards] at nodes
  apply option_eq_of_perm
  split_ifs with same
  · have absent : rbFind compare target tree = none := by
      apply (rb_find_eq_none_iff compares target tree).mpr
      intro other member equal
      have taken := (rb_insert_eq_none_iff compares node tree ordered).mpr
        ⟨other, member, equal.trans same⟩
      rw [inserted] at taken
      exact absurd taken (Option.some_ne_none after)
    rw [List.filter_cons_of_pos (by simpa using same.symm),
      filter_eq_rb_find compares target tree ordered, absent] at nodes
    exact nodes
  · rw [List.filter_cons_of_neg (by simpa using fun equal => same equal.symm),
      filter_eq_rb_find compares target tree ordered] at nodes
    exact nodes

theorem rb_remove_eq_filter {tree : List Node} (ordered : Ordered key tree) :
    rbRemove compare target tree = tree.filter fun node => key node ≠ key target := by
  induction tree with
  | nil => rfl
  | cons head rest ih =>
    obtain ⟨first, later⟩ := List.pairwise_cons.mp ordered
    by_cases here : key head = key target
    · have others : (rest.filter fun node => key node ≠ key target) = rest := by
        apply List.filter_eq_self.mpr
        intro other inside
        have above := first other inside
        rw [here] at above
        simpa using (ne_of_lt above).symm
      rw [rbRemove, List.eraseP_cons_of_pos (by simpa using (compares.equal target head).mpr here.symm),
        List.filter_cons_of_neg (by simpa using here), others]
    · have differ : ¬ compare target head = 0 := by
        intro equal
        exact here ((compares.equal target head).mp equal).symm
      rw [rbRemove, List.eraseP_cons_of_neg (by simpa using differ),
        List.filter_cons_of_pos (by simpa using here), ← ih later, rbRemove]

theorem rb_find_remove (removed target : Node) (tree : List Node) (ordered : Ordered key tree) :
    rbFind compare target (rbRemove compare removed tree) =
      if key target = key removed then none else rbFind compare target tree := by
  rw [rb_remove_eq_filter compares removed ordered]
  split_ifs with same
  · apply (rb_find_eq_none_iff compares target _).mpr
    intro node member equal
    have kept := (List.mem_filter.mp member).2
    rw [equal, same] at kept
    simp at kept
  · rw [rbFind, List.find?_filter, rbFind]
    congr 1
    funext node
    by_cases hit : compare target node = 0
    · have found := (compares.equal target node).mp hit
      simp [hit, ← found, same]
    · simp [hit]

end Keys

end Cprogramming.Library.OrderedTree
