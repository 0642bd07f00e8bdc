import Mathlib.Data.List.Basic
import Mathlib.Data.List.Nodup
import Mathlib.Logic.Function.Basic
import Mathlib.Tactic.Common

/-!
# Intrusive lists

The list macros of the C library. A node holds its successor and the address of the
pointer that leads to it, which is the head of the list or the successor field of
another node. A macro has no result when it follows a null pointer or uses a node that
is not allocated.

The macros know nothing of membership. On a list without repetition an insertion of an
absent node and the removal of a present one are what they should be. If every node of
a non-empty list is inserted again, the last one leads back into the list and no
removal makes it end.
-/

namespace Cprogramming.Library.IntrusiveList

set_option autoImplicit false

inductive Cell (Node : Type) where
  | first
  | next (node : Node)
  deriving DecidableEq

structure Links (Node : Type) where
  target : Cell Node → Option Node
  prev : Node → Option (Cell Node)
  live : Node → Bool

variable {Node : Type}

/-- The list of a cleared head; no node is allocated. -/
def Links.init : Links Node := ⟨fun _ => none, fun _ => none, fun _ => false⟩

def Links.liveCell (links : Links Node) : Cell Node → Bool
  | .first => true
  | .next node => links.live node

/-! ## Lists of nodes -/

variable (links after : Links Node) (node : Node) (inner : Node → Prop) (cell : Cell Node)
  (nodes : List Node)

/-- The pointer in the cell leads to these nodes, each allocated and pointing back. -/
def Linked (links : Links Node) : Cell Node → List Node → Prop
  | cell, [] => links.target cell = none
  | cell, node :: rest =>
    links.target cell = some node ∧ links.prev node = some cell ∧ links.live node = true ∧
      Linked links (.next node) rest

structure Holds (links : Links Node) (nodes : List Node) : Prop where
  linked : Linked links .first nodes
  once : nodes.Nodup

theorem holds_init : Holds (Links.init : Links Node) [] := by
  exact ⟨rfl, List.nodup_nil⟩

theorem linked_live (linked : Linked links cell nodes) (node : Node) (member : node ∈ nodes) :
    links.live node = true := by
  induction nodes generalizing cell with
  | nil => cases member
  | cons head rest ih =>
    obtain ⟨_, _, alive, later⟩ := linked
    rcases List.mem_cons.mp member with rfl | inside
    · exact alive
    · exact ih (.next head) later inside

theorem linked_prev (linked : Linked links cell nodes) (node : Node) (member : node ∈ nodes) :
    ∃ back ∈ cell :: nodes.map .next, links.prev node = some back := by
  induction nodes generalizing cell with
  | nil => cases member
  | cons head rest ih =>
    obtain ⟨_, back, _, later⟩ := linked
    rcases List.mem_cons.mp member with rfl | inside
    · exact ⟨cell, List.mem_cons_self, back⟩
    · obtain ⟨found, position, here⟩ := ih (.next head) later inside
      exact ⟨found, List.mem_cons_of_mem cell position, here⟩

theorem linked_next (linked : Linked links cell nodes) (node : Node) (member : node ∈ nodes) :
    ∀ after, links.target (.next node) = some after → after ∈ nodes := by
  induction nodes generalizing cell with
  | nil => cases member
  | cons head rest ih =>
    obtain ⟨_, _, _, later⟩ := linked
    intro after leads
    rcases List.mem_cons.mp member with rfl | inside
    · cases rest with
      | nil =>
        rw [show links.target (.next node) = none from later] at leads
        cases leads
      | cons second others =>
        rw [later.1] at leads
        obtain rfl := Option.some.inj leads
        simp
    · exact List.mem_cons_of_mem head (ih (.next head) later inside after leads)

theorem linked_frame (other : Links Node) (cell : Cell Node) (nodes : List Node)
    (targets : ∀ place ∈ cell :: nodes.map .next, other.target place = links.target place)
    (backs : ∀ node ∈ nodes, other.prev node = links.prev node)
    (alive : ∀ node ∈ nodes, other.live node = links.live node) (linked : Linked links cell nodes) :
    Linked other cell nodes := by
  induction nodes generalizing cell with
  | nil =>
    exact (targets cell List.mem_cons_self).trans linked
  | cons head rest ih =>
    obtain ⟨here, back, living, later⟩ := linked
    refine ⟨(targets cell List.mem_cons_self).trans here,
      (backs head List.mem_cons_self).trans back, (alive head List.mem_cons_self).trans living, ?_⟩
    exact ih (.next head)
      (fun place member => targets place (List.mem_cons_of_mem cell member))
      (fun node member => backs node (List.mem_cons_of_mem head member))
      (fun node member => alive node (List.mem_cons_of_mem head member)) later

theorem cells_nodup (once : nodes.Nodup) : (Cell.first :: nodes.map Cell.next).Nodup := by
  refine List.nodup_cons.mpr ⟨by simp, once.map ?_⟩
  intro left right same
  exact Cell.next.inj same

/-! ## Lists that lead back into themselves -/

/-- The list leads to an inner node, and so does every inner node. -/
structure Looped (links : Links Node) (inner : Node → Prop) : Prop where
  first : ∃ node, links.target .first = some node ∧ inner node
  closed : ∀ node, inner node → ∃ after, links.target (.next node) = some after ∧ inner after

theorem looped_not_linked (looped : Looped links inner) (cell : Cell Node) (nodes : List Node)
    (entered : ∃ node, links.target cell = some node ∧ inner node) : ¬ Linked links cell nodes := by
  induction nodes generalizing cell with
  | nil =>
    obtain ⟨node, leads, _⟩ := entered
    intro linked
    rw [show links.target cell = none from linked] at leads
    cases leads
  | cons head rest ih =>
    obtain ⟨node, leads, inside⟩ := entered
    rintro ⟨here, _, _, later⟩
    obtain rfl := Option.some.inj (here.symm.trans leads)
    exact ih (.next head) (looped.closed head inside) later

theorem looped_not_holds (looped : Looped links inner) (nodes : List Node) :
    ¬ Holds links nodes := by
  intro holds
  exact looped_not_linked links inner looped .first nodes looped.first holds.linked

/-! ## The macros -/

variable [DecidableEq Node]

def Links.allocate (links : Links Node) (node : Node) : Links Node where
  target := Function.update links.target (.next node) none
  prev := Function.update links.prev node none
  live := Function.update links.live node true

def Links.free (links : Links Node) (node : Node) : Links Node :=
  { links with live := Function.update links.live node false }

/-- A store to the back pointer of a node that may be null. -/
def Links.setPrev (links : Links Node) (node : Option Node) (cell : Cell Node) : Links Node :=
  match node with
  | none => links
  | some target => { links with prev := Function.update links.prev target (some cell) }

def Links.setTarget (links : Links Node) (cell : Cell Node) (node : Option Node) : Links Node :=
  { links with target := Function.update links.target cell node }

/-- `LIST_INSERT_HEAD` -/
def Links.insertHead (links : Links Node) (node : Node) : Option (Links Node) :=
  let first := links.target .first
  if links.live node && first.all links.live then
    some ((((links.setTarget (.next node) first).setPrev first (.next node)).setTarget
      .first (some node)).setPrev (some node) .first)
  else none

/-- `LIST_REMOVE` -/
def Links.remove (links : Links Node) (node : Node) : Option (Links Node) :=
  let after := links.target (.next node)
  match links.prev node with
  | none => none
  | some cell =>
    if links.live node && after.all links.live && links.liveCell cell then
      some ((links.setPrev after cell).setTarget cell after)
    else none

/-! ## Effects on the fields -/

theorem set_prev_target (node : Option Node) (cell : Cell Node) :
    (links.setPrev node cell).target = links.target := by
  cases node with
  | none => rfl
  | some target => rfl

theorem set_prev_live (node : Option Node) (cell : Cell Node) :
    (links.setPrev node cell).live = links.live := by
  cases node with
  | none => rfl
  | some target => rfl

theorem set_prev_other (node : Option Node) (cell : Cell Node) (other : Node)
    (apart : node ≠ some other) : (links.setPrev node cell).prev other = links.prev other := by
  cases node with
  | none => rfl
  | some target =>
    apply Function.update_of_ne
    rintro rfl
    exact apart rfl

theorem set_prev_same : (links.setPrev (some node) cell).prev node = some cell := by
  exact Function.update_self node (some cell) links.prev

theorem insert_head_fields (inserted : links.insertHead node = some after) :
    after.live = links.live ∧ after.target .first = some node ∧
      after.target (.next node) = links.target .first ∧
      ∀ other, other ≠ node → after.target (.next other) = links.target (.next other) := by
  simp only [Links.insertHead] at inserted
  split_ifs at inserted with usable
  obtain rfl := Option.some.inj inserted
  refine ⟨?_, ?_, ?_, ?_⟩
  · simp only [set_prev_live, Links.setTarget]
  · simp [set_prev_target, Links.setTarget]
  · simp [set_prev_target, Links.setTarget]
  · intro other apart
    simp [set_prev_target, Links.setTarget, apart]

theorem remove_fields (removed : links.remove node = some after) :
    ∃ cell, links.prev node = some cell ∧ after.live = links.live ∧
      after.target = Function.update links.target cell (links.target (.next node)) := by
  simp only [Links.remove] at removed
  split at removed
  next => cases removed
  next cell back =>
    split_ifs at removed with usable
    obtain rfl := Option.some.inj removed
    refine ⟨cell, back, ?_, ?_⟩
    · simp only [Links.setTarget, set_prev_live]
    · simp only [Links.setTarget, set_prev_target]

/-! ## Allocation -/

theorem holds_allocate (node : Node) (absent : node ∉ nodes) (holds : Holds links nodes) :
    Holds (links.allocate node) nodes := by
  refine ⟨linked_frame links _ .first nodes ?_ ?_ ?_ holds.linked, holds.once⟩
  · intro place member
    apply Function.update_of_ne
    rintro rfl
    simp only [List.mem_cons, reduceCtorEq, List.mem_map, Cell.next.injEq, exists_eq_right,
      false_or] at member
    exact absent member
  · intro other member
    exact Function.update_of_ne (ne_of_mem_of_not_mem member absent) _ _
  · intro other member
    exact Function.update_of_ne (ne_of_mem_of_not_mem member absent) _ _

theorem holds_free (node : Node) (absent : node ∉ nodes) (holds : Holds links nodes) :
    Holds (links.free node) nodes := by
  refine ⟨linked_frame links _ .first nodes (fun _ _ => rfl) (fun _ _ => rfl) ?_ holds.linked,
    holds.once⟩
  intro other member
  exact Function.update_of_ne (ne_of_mem_of_not_mem member absent) _ _

/-! ## Insertion of an absent node -/

theorem holds_insert_head (node : Node) (holds : Holds links nodes) (absent : node ∉ nodes)
    (allocated : links.live node = true) :
    ∃ after, links.insertHead node = some after ∧ Holds after (node :: nodes) := by
  have usable : (links.live node && (links.target .first).all links.live) = true := by
    cases nodes with
    | nil => simp [allocated, show links.target .first = none from holds.linked]
    | cons head rest => simp [allocated, holds.linked.1, holds.linked.2.2.1]
  refine ⟨_, if_pos usable, ?_, List.nodup_cons.mpr ⟨absent, holds.once⟩⟩
  refine ⟨?_, set_prev_same _ node .first, ?_, ?_⟩
  · simp [set_prev_target, Links.setTarget]
  · simp only [set_prev_live, Links.setTarget]
    exact allocated
  · cases nodes with
    | nil =>
      have ends : links.target .first = none := holds.linked
      simp [Linked, set_prev_target, Links.setTarget, ends]
    | cons head rest =>
      obtain ⟨here, _, living, later⟩ := holds.linked
      obtain ⟨notFirst, notLater⟩ := List.ne_and_not_mem_of_not_mem_cons absent
      obtain ⟨headOnce, _⟩ := List.nodup_cons.mp holds.once
      refine ⟨?_, ?_, ?_, ?_⟩
      · simp [set_prev_target, Links.setTarget, here]
      · rw [set_prev_other _ _ _ head (by simpa using notFirst), here]
        exact set_prev_same _ head (.next node)
      · simp only [set_prev_live, Links.setTarget]
        exact living
      · apply linked_frame links _ (.next head) rest _ _ _ later
        · intro place member
          have apart : place ≠ .first ∧ place ≠ .next node := by
            simp only [List.mem_cons, List.mem_map] at member
            rcases member with rfl | ⟨other, inside, rfl⟩
            · exact ⟨by simp, by simpa using Ne.symm notFirst⟩
            · refine ⟨by simp, ?_⟩
              intro same
              exact notLater (Cell.next.inj same ▸ inside)
          simp [set_prev_target, Links.setTarget, apart.1, apart.2]
        · intro other inside
          rw [set_prev_other, here]
          · exact set_prev_other _ (some head) _ other
              (fun same => headOnce (Option.some.inj same ▸ inside))
          · exact fun same => notLater (Option.some.inj same ▸ inside)
        · intro other inside
          simp only [set_prev_live, Links.setTarget]

/-! ## Removal of a present node -/

theorem linked_unlink (back cell : Cell Node) (nodes : List Node)
    (linked : Linked links cell nodes) (cells : (cell :: nodes.map Cell.next).Nodup)
    (member : node ∈ nodes) (here : links.prev node = some back) :
    Linked ((links.setPrev (links.target (.next node)) back).setTarget back
      (links.target (.next node))) cell (nodes.erase node) := by
  induction nodes generalizing cell with
  | nil => cases member
  | cons head rest ih =>
    obtain ⟨leads, prev, living, later⟩ := linked
    obtain ⟨outside, inner⟩ := List.nodup_cons.mp cells
    by_cases same : head = node
    · -- The cell is the one that led to the node; it now leads past it.
      subst same
      have reached : back = cell := Option.some.inj (here.symm.trans prev)
      subst reached
      rw [List.erase_cons_head]
      cases rest with
      | nil =>
        exact (Function.update_self back _ _).trans later
      | cons second others =>
        obtain ⟨next, _, alive, rest⟩ := later
        rw [next]
        refine ⟨Function.update_self back _ _, set_prev_same links second back, ?_, ?_⟩
        · simp only [Links.setTarget, set_prev_live]
          exact alive
        · apply linked_frame links _ (.next second) others _ _ _ rest
          · intro place member
            simp only [Links.setTarget, set_prev_target]
            apply Function.update_of_ne
            rintro rfl
            exact outside (List.mem_cons_of_mem _ member)
          · intro other inside
            apply set_prev_other links (some second) back other
            intro equal
            obtain rfl := Option.some.inj equal
            simp only [List.map_cons, List.nodup_cons, List.mem_map] at inner
            exact inner.2.1 ⟨second, inside, rfl⟩
          · intro other inside
            simp only [Links.setTarget, set_prev_live]
    · -- The stores are behind the first node.
      have inside : node ∈ rest := List.mem_of_ne_of_mem (Ne.symm same) member
      obtain ⟨found, position, prevOf⟩ := linked_prev links (.next head) rest later node inside
      have backFound : back = found := Option.some.inj (here.symm.trans prevOf)
      subst backFound
      rw [List.erase_cons_tail (by simpa using same)]
      refine ⟨?_, ?_, ?_, ih (.next head) later inner inside⟩
      · simp only [Links.setTarget, set_prev_target]
        rw [Function.update_of_ne _ _ _]
        · exact leads
        · rintro rfl
          exact outside position
      · refine (set_prev_other links _ back head ?_).trans prev
        intro target
        have successor := linked_next links (.next head) rest later node inside head target
        exact (List.nodup_cons.mp inner).1 (List.mem_map_of_mem successor)
      · simp only [Links.setTarget, set_prev_live]
        exact living

theorem holds_remove (node : Node) (holds : Holds links nodes) (member : node ∈ nodes) :
    ∃ after, links.remove node = some after ∧ Holds after (nodes.erase node) := by
  have cells := cells_nodup nodes holds.once
  obtain ⟨back, position, here⟩ := linked_prev links .first nodes holds.linked node member
  have alive := linked_live links .first nodes holds.linked
  have reachable : links.liveCell back = true := by
    rcases List.mem_cons.mp position with rfl | inside
    · rfl
    · obtain ⟨other, within, rfl⟩ := List.mem_map.mp inside
      exact alive other within
  have successor : (links.target (.next node)).all links.live = true := by
    rw [Option.all_eq_true]
    intro after leads
    exact alive after (linked_next links .first nodes holds.linked node member after leads)
  refine ⟨(links.setPrev (links.target (.next node)) back).setTarget back
    (links.target (.next node)), ?_, ?_, holds.once.erase node⟩
  · simp only [Links.remove, here, alive node member, reachable, successor, Bool.and_self, if_true]
  · exact linked_unlink links node back .first nodes holds.linked cells member here

/-! ## Operations on a looped list -/

theorem looped_free (looped : Looped links inner) (node : Node) :
    Looped (links.free node) inner := by
  exact ⟨looped.first, looped.closed⟩

theorem looped_allocate (looped : Looped links inner) (node : Node) (outer : ¬ inner node) :
    Looped (links.allocate node) inner := by
  constructor
  · obtain ⟨head, leads, inside⟩ := looped.first
    refine ⟨head, ?_, inside⟩
    simpa [Links.allocate] using leads
  · intro other inside
    obtain ⟨after, leads, within⟩ := looped.closed other inside
    refine ⟨after, (Function.update_of_ne ?_ _ _).trans leads, within⟩
    intro same
    exact outer (Cell.next.inj same ▸ inside)

/-- A removal stores the successor of an inner node, which is one, whatever it takes for
the way to the node. -/
theorem looped_remove (looped : Looped links inner) (node : Node) (inside : inner node)
    (removed : links.remove node = some after) : Looped after inner := by
  obtain ⟨cell, _, _, targets⟩ := remove_fields links after node removed
  have stored : ∀ place, (∃ found, links.target place = some found ∧ inner found) →
      ∃ found, after.target place = some found ∧ inner found := by
    intro place before
    rw [targets]
    by_cases same : place = cell
    · subst same
      rw [Function.update_self]
      exact looped.closed node inside
    · rw [Function.update_of_ne same]
      exact before
  exact ⟨stored .first looped.first,
    fun other within => stored (.next other) (looped.closed other within)⟩

/-- A non-empty list of inner nodes leads back into itself once all of them have been
inserted again. -/
theorem looped_of_inserted (members : ∀ node ∈ nodes, inner node)
    (first : ∃ node, links.target .first = some node ∧ inner node)
    (closed : ∀ node, inner node → node ∉ nodes →
      ∃ found, links.target (.next node) = some found ∧ inner found)
    (inserted : nodes.foldlM Links.insertHead links = some after) : Looped after inner := by
  induction nodes generalizing links with
  | nil =>
    obtain rfl := Option.some.inj inserted
    exact ⟨first, fun node inside => closed node inside List.not_mem_nil⟩
  | cons node rest ih =>
    rw [List.foldlM_cons, Option.bind_eq_bind, Option.bind_eq_some_iff] at inserted
    obtain ⟨next, one, others⟩ := inserted
    obtain ⟨_, atFirst, atNode, elsewhere⟩ := insert_head_fields links next node one
    apply ih next (fun other member => members other (List.mem_cons_of_mem node member))
      ⟨node, atFirst, members node List.mem_cons_self⟩ _ others
    intro other inside absent
    by_cases same : other = node
    · subst same
      rw [atNode]
      exact first
    · rw [elsewhere other same]
      exact closed other inside (by simp [same, absent])

theorem holds_inserted (held nodes : List Node) (holds : Holds links held) (once : nodes.Nodup)
    (absent : ∀ node ∈ nodes, node ∉ held) (allocated : ∀ node ∈ nodes, links.live node = true) :
    ∃ after, nodes.foldlM Links.insertHead links = some after ∧ after.live = links.live ∧
      Holds after (nodes.reverse ++ held) := by
  induction nodes generalizing links held with
  | nil => exact ⟨links, rfl, rfl, holds⟩
  | cons node rest ih =>
    obtain ⟨outside, later⟩ := List.nodup_cons.mp once
    obtain ⟨next, one, held⟩ := holds_insert_head links held node holds
      (absent node List.mem_cons_self) (allocated node List.mem_cons_self)
    have living := (insert_head_fields links next node one).1
    obtain ⟨after, others, alive, all⟩ := ih next _ held later (by
        intro other member
        refine List.not_mem_cons_of_ne_of_not_mem ?_
          (absent other (List.mem_cons_of_mem node member))
        rintro rfl
        exact outside member)
      (by
        intro other member
        rw [living]
        exact allocated other (List.mem_cons_of_mem node member))
    refine ⟨after, ?_, alive.trans living, ?_⟩
    · rw [List.foldlM_cons, Option.bind_eq_bind, one]
      exact others
    · rw [List.reverse_cons, List.append_assoc]
      exact all

end Cprogramming.Library.IntrusiveList
