import Mathlib.Data.List.Basic
import Mathlib.Tactic.Common

/-!
# Search trees as ordered maps

A balanced tree whose comparison function is a correct order on the keys, as the
list of its nodes in increasing order of the key. Distinct nodes have distinct
keys, so a key finds at most one node.
-/

namespace Cprogramming.Library.KeyedTree

set_option autoImplicit false

variable {Node : Type}

structure Tree (key : Node → Nat) where
  nodes : List Node
  ordered : nodes.Pairwise fun left right => key left < key right

variable {key : Node → Nat}

def Tree.empty : Tree key := ⟨[], List.Pairwise.nil⟩

def Tree.find (tree : Tree key) (target : Nat) : Option Node :=
  tree.nodes.find? fun node => decide (key node = target)

def insertSorted (key : Node → Nat) (node : Node) : List Node → List Node
  | [] => [node]
  | other :: rest =>
    if key node < key other then node :: other :: rest
    else other :: insertSorted key node rest

variable (tree : Tree key) (target : Nat) (node : Node)

theorem mem_insert_sorted (other : Node) (nodes : List Node) :
    other ∈ insertSorted key node nodes ↔ other = node ∨ other ∈ nodes := by
  induction nodes with
  | nil => simp [insertSorted]
  | cons head rest ih =>
    simp only [insertSorted]
    split_ifs with smaller
    · simp only [List.mem_cons]
    · simp only [List.mem_cons, ih]
      tauto

theorem insert_sorted_ordered {node : Node} {nodes : List Node}
    (ordered : nodes.Pairwise fun left right => key left < key right)
    (absent : ∀ other ∈ nodes, key other ≠ key node) :
    (insertSorted key node nodes).Pairwise fun left right => key left < key right := by
  induction nodes with
  | nil => simp [insertSorted]
  | cons head rest ih =>
    obtain ⟨first, later⟩ := List.pairwise_cons.mp ordered
    simp only [insertSorted]
    split_ifs with smaller
    · refine List.pairwise_cons.mpr ⟨?_, ordered⟩
      intro other member
      rcases List.mem_cons.mp member with rfl | inside
      · exact smaller
      · exact Nat.lt_trans smaller (first other inside)
    · have above : key head < key node := by
        have different := absent head List.mem_cons_self
        omega
      refine List.pairwise_cons.mpr
        ⟨?_, ih later (fun other member => absent other (List.mem_cons_of_mem head member))⟩
      intro other member
      rcases (mem_insert_sorted node other rest).mp member with rfl | inside
      · exact above
      · exact first other inside

theorem find_none_iff : tree.find target = none ↔ ∀ node ∈ tree.nodes, key node ≠ target := by
  simp [Tree.find]

theorem find_some (found : tree.find target = some node) :
    node ∈ tree.nodes ∧ key node = target := by
  exact ⟨List.mem_of_find?_eq_some found, by simpa using List.find?_some found⟩

def Tree.insert (tree : Tree key) (node : Node) : Tree key :=
  if absent : tree.find (key node) = none then
    ⟨insertSorted key node tree.nodes,
      insert_sorted_ordered tree.ordered ((find_none_iff tree _).mp absent)⟩
  else tree

def Tree.remove (tree : Tree key) (target : Nat) : Tree key :=
  ⟨tree.nodes.filter fun node => decide (key node ≠ target), tree.ordered.filter _⟩

/-- A store through a pointer to the node of the key; it leaves the key alone. -/
def Tree.update (tree : Tree key) (target : Nat) (change : Node → Node)
    (keeps : ∀ node, key (change node) = key node) : Tree key :=
  ⟨tree.nodes.map fun node => if key node = target then change node else node, by
    refine List.pairwise_map.mpr (tree.ordered.imp ?_)
    intro left right below
    have same : ∀ node, key (if key node = target then change node else node) = key node := by
      intro node
      split_ifs
      · exact keeps node
      · rfl
    rw [same left, same right]
    exact below⟩

theorem tree_ext (left right : Tree key) (same : left.nodes = right.nodes) :
    left = right := by
  cases left
  cases right
  simp only [Tree.mk.injEq]
  exact same

/-! ## Lookups after an operation -/

private theorem find_insert_sorted (node : Node) (nodes : List Node) (target : Nat)
    (absent : ∀ other ∈ nodes, key other ≠ key node) :
    (insertSorted key node nodes).find? (fun other => decide (key other = target)) =
      if key node = target then some node
      else nodes.find? fun other => decide (key other = target) := by
  induction nodes with
  | nil =>
    simp only [insertSorted, List.find?_cons, List.find?_nil]
    split_ifs with same <;> simp [same]
  | cons head rest ih =>
    have later := ih (fun other member => absent other (List.mem_cons_of_mem head member))
    have different := absent head List.mem_cons_self
    simp only [insertSorted]
    split_ifs with smaller same same
    · simp [same]
    · simp [List.find?_cons, same]
    · have other : key head ≠ target := fun equal => different (equal.trans same.symm)
      simp only [List.find?_cons, other, decide_false, later, if_pos same]
    · simp only [List.find?_cons, later, if_neg same]

theorem insert_present (old : Node) (found : tree.find (key node) = some old) :
    tree.insert node = tree := by
  rw [Tree.insert, dif_neg]
  rw [found]
  exact Option.some_ne_none old

theorem find_insert (absent : tree.find (key node) = none) (target : Nat) :
    (tree.insert node).find target =
      if key node = target then some node else tree.find target := by
  rw [Tree.insert, dif_pos absent]
  exact find_insert_sorted node tree.nodes target ((find_none_iff tree _).mp absent)

theorem find_remove (removed target : Nat) : (tree.remove removed).find target =
      if target = removed then none else tree.find target := by
  split_ifs with same
  · apply (find_none_iff _ _).mpr
    intro node member
    have kept := (List.mem_filter.mp member).2
    rw [same]
    simpa using kept
  · unfold Tree.remove Tree.find
    rw [List.find?_filter]
    congr 1
    funext node
    by_cases here : key node = target
    · simp [here, same]
    · simp [here]

theorem find_update (change : Node → Node) (keeps : ∀ node, key (change node) = key node)
    (other : Nat) : (tree.update target change keeps).find other =
      if other = target then (tree.find target).map change else tree.find other := by
  have changed : ∀ node, key (if key node = target then change node else node) = key node := by
    intro node
    split_ifs
    · exact keeps node
    · rfl
  simp only [Tree.update, Tree.find]
  induction tree.nodes with
  | nil => simp
  | cons node rest ih =>
    simp only [List.map_cons, List.find?_cons, changed]
    by_cases here : key node = other
    · by_cases same : other = target
      · simp [here, same]
      · simp [here, same]
    · by_cases same : other = target
      · have elsewhere : key node ≠ target := fun equal => here (equal.trans same.symm)
        simp only [here, elsewhere, decide_false]
        exact ih
      · rw [if_neg same] at ih
        simp only [here, decide_false, if_neg same]
        exact ih

/-- Removing the nodes of a list one after the other, as a safe traversal does. -/
theorem find_remove_all (nodes : List Node) (target : Nat) :
    (nodes.foldl (fun left node => left.remove (key node)) tree).find target =
      if target ∈ nodes.map key then none else tree.find target := by
  induction nodes generalizing tree with
  | nil => simp
  | cons node rest ih =>
    simp only [List.foldl_cons, ih, find_remove, List.map_cons, List.mem_cons]
    by_cases later : target ∈ rest.map key
    · simp [later]
    · simp [later]

theorem remove_every_node :
    tree.nodes.foldl (fun left node => left.remove (key node)) tree = Tree.empty := by
  apply tree_ext
  apply List.eq_nil_iff_forall_not_mem.mpr
  intro node member
  have gone := find_remove_all tree tree.nodes (key node)
  have missing : (tree.nodes.foldl (fun left node => left.remove (key node)) tree).find
      (key node) = none := by
    rw [gone]
    split_ifs with inside
    · rfl
    · apply (find_none_iff tree (key node)).mpr
      intro other otherMember same
      exact inside (List.mem_map.mpr ⟨other, otherMember, same⟩)
  exact (find_none_iff _ _).mp missing node member rfl

/-! ## Sizes -/

theorem length_insert (absent : tree.find (key node) = none) :
    (tree.insert node).nodes.length = tree.nodes.length + 1 := by
  rw [Tree.insert, dif_pos absent]
  simp only
  induction tree.nodes with
  | nil => rfl
  | cons head rest ih =>
    simp only [insertSorted]
    split_ifs
    · rfl
    · simp only [List.length_cons, ih]

theorem remove_absent {tree : Tree key} {target : Nat} (absent : tree.find target = none) :
    tree.remove target = tree := by
  apply tree_ext
  apply List.filter_eq_self.mpr
  intro node member
  simpa using (find_none_iff tree target).mp absent node member

theorem remove_eq_self_iff : tree.remove target = tree ↔ tree.find target = none := by
  constructor
  · intro same
    have gone := find_remove tree target target
    rw [same, if_pos rfl] at gone
    exact gone
  · exact remove_absent

private theorem filter_length (nodes : List Node) (target : Nat)
    (ordered : nodes.Pairwise fun left right => key left < key right) (node : Node)
    (member : node ∈ nodes) (here : key node = target) :
    (nodes.filter fun other => decide (key other ≠ target)).length + 1 = nodes.length := by
  induction nodes with
  | nil => simp at member
  | cons head rest ih =>
    obtain ⟨first, later⟩ := List.pairwise_cons.mp ordered
    by_cases hit : key head = target
    · have others : rest.filter (fun other => decide (key other ≠ target)) = rest := by
        apply List.filter_eq_self.mpr
        intro other inside
        have above := first other inside
        simp only [decide_eq_true_eq]
        omega
      rw [List.filter_cons_of_neg (by simp [hit]), others, List.length_cons]
    · have inside : node ∈ rest := by
        rcases List.mem_cons.mp member with rfl | inside
        · exact absurd here hit
        · exact inside
      rw [List.filter_cons_of_pos (by simp [hit]), List.length_cons, List.length_cons,
        ih later inside]

theorem length_remove (found : tree.find target = some node) :
    (tree.remove target).nodes.length + 1 = tree.nodes.length := by
  obtain ⟨member, here⟩ := find_some tree target node found
  exact filter_length tree.nodes target tree.ordered node member here

theorem length_update (change : Node → Node) (keeps : ∀ node, key (change node) = key node) :
    (tree.update target change keeps).nodes.length = tree.nodes.length := by
  exact List.length_map _

private theorem ordered_length (nodes : List Node) (low high : Nat)
    (ordered : nodes.Pairwise fun left right => key left < key right)
    (bounds : ∀ node ∈ nodes, low ≤ key node ∧ key node < high) (lowHigh : low ≤ high) :
    low + nodes.length ≤ high := by
  induction nodes generalizing low with
  | nil => simpa using lowHigh
  | cons head rest ih =>
    obtain ⟨first, later⟩ := List.pairwise_cons.mp ordered
    obtain ⟨above, below⟩ := bounds head List.mem_cons_self
    have rest := ih (key head + 1) later (fun node member =>
        ⟨first node member, (bounds node (List.mem_cons_of_mem head member)).2⟩)
      below
    simp only [List.length_cons]
    omega

theorem length_le_of_keys (low high : Nat) (lowHigh : low ≤ high)
    (bounds : ∀ node, low ≤ key node ∧ key node < high) : low + tree.nodes.length ≤ high := by
  exact ordered_length tree.nodes low high tree.ordered (fun node _ => bounds node) lowHigh

end Cprogramming.Library.KeyedTree
