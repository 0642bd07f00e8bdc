import Cprogramming.Library.CStrings
import Cprogramming.Library.LinkedSegments
import Cprogramming.Library.Runs
import Mathlib.Data.List.Perm.Subperm

/-!
# The two stacks

`stack_array.c` and `stack_linked_list.c`, which both implement `stack.h`. Where an
assertion fails or a freed node is used an operation has no result; `malloc` does
not fail. Both stacks are compared with a list that lists the items from the bottom
and can have a limit: the linked list has none, and the array stops one short of the
places it has.
-/

namespace Cprogramming.Containers.Stacks

open Library.CStrings Library.LinkedSegments Library.Runs

set_option autoImplicit false

variable {Item : Type}

/-! ## The interface -/

inductive Op (Item : Type) where
  | push (item : Item)
  | pop
  | size
deriving DecidableEq

inductive Answer (Item : Type) where
  | pushed
  | item (item : Item)
  | size (count : Nat)
deriving DecidableEq

/-- What a stack is for. A pop fails when there is no item, a push when the limit is
reached. -/
def lifo (limit : Option Nat) (held : List Item) : Op Item → Option (List Item × Answer Item)
  | .push item =>
    if limit.all (held.length < ·) then some (held ++ [item], .pushed) else none
  | .pop => held.getLast?.map fun item => (held.dropLast, .item item)
  | .size => some (held, .size held.length)

/-- The operations never pop an empty stack and never hold more items than the
limit. -/
def Within (limit : Option Nat) : Nat → List (Op Item) → Prop
  | _, [] => True
  | held, .push _ :: rest => limit.all (held < ·) ∧ Within limit (held + 1) rest
  | held, .pop :: rest => 0 < held ∧ Within limit (held - 1) rest
  | held, .size :: rest => Within limit held rest

/-! ## The array -/

def maxSize : Nat := 10

structure ArrayStack (Item : Type) where
  items : Vector Item maxSize
  nItems : Nat
  fits : nItems ≤ maxSize

def ArrayStack.stackNew [OfNat Item 0] : ArrayStack Item :=
  ⟨Vector.replicate maxSize 0, 0, Nat.zero_le maxSize⟩

def ArrayStack.stackPop (stack : ArrayStack Item) : Option (ArrayStack Item × Item) :=
  if held : 0 < stack.nItems then
    some (⟨stack.items, stack.nItems - 1, Nat.le_trans (Nat.sub_le _ _) stack.fits⟩,
      stack.items.get ⟨stack.nItems - 1, Nat.lt_of_lt_of_le (Nat.sub_one_lt_of_lt held) stack.fits⟩)
  else none

def ArrayStack.stackPush (stack : ArrayStack Item) (item : Item) : Option (ArrayStack Item) :=
  if room : stack.nItems < maxSize - 1 then
    some ⟨stack.items.set stack.nItems item (by omega), stack.nItems + 1, by omega⟩
  else none

def ArrayStack.stackSize (stack : ArrayStack Item) : Nat := stack.nItems

def ArrayStack.serve (stack : ArrayStack Item) : Op Item → Option (ArrayStack Item × Answer Item)
  | .push item => (stack.stackPush item).map fun next => (next, .pushed)
  | .pop => stack.stackPop.map fun done => (done.1, .item done.2)
  | .size => some (stack, .size stack.stackSize)

/-! ## The linked list -/

def getNext (memory : Memory Item) (n : Option Nat) : Option (Option Nat) :=
  n.bind fun address => (memory address).map Node.next

def getData (memory : Memory Item) (n : Option Nat) : Option Item :=
  n.bind fun address => (memory address).map Node.data

def setData (memory : Memory Item) (n : Option Nat) (data : Item) : Option (Memory Item) :=
  n.bind fun address => (memory address).map fun node =>
    Function.update memory address (some { node with data := data })

def setNext (memory : Memory Item) (n m : Option Nat) : Option (Memory Item) :=
  n.bind fun address => (memory address).map fun node =>
    Function.update memory address (some { node with next := m })

def free (memory : Memory Item) (n : Option Nat) : Option (Memory Item) :=
  n.bind fun address => (memory address).map fun _ => Function.update memory address none

/-- A null pointer has no null successor. -/
def isNextNull (memory : Memory Item) (n : Option Nat) : Option Bool :=
  match n with
  | none => some false
  | some address => (memory address).map fun node => node.next.isNone

structure LinkedStack (Item : Type) where
  n : Option Nat
  memory : Memory Item
  fresh : Nat

def LinkedStack.stackNew : LinkedStack Item := ⟨none, fun _ => none, 0⟩

def makeNode [OfNat Item 0] (stack : LinkedStack Item) : Option Nat × Memory Item :=
  (some stack.fresh, Function.update stack.memory stack.fresh (some ⟨0, none⟩))

/-- The loop of `stack_pop` that ends with the last node and the one before it;
`stack_push` has the same loop without `prev`. Its turns are limited by the number of
allocations: a longer walk has met a node twice and never ends. -/
def walk (memory : Memory Item) : Nat → Option Nat → Option Nat →
    Option (Option Nat × Option Nat)
  | 0, _, _ => none
  | turns + 1, prev, curr =>
    (getNext memory curr).bind fun next =>
      if next = none then some (prev, curr) else walk memory turns curr next

def LinkedStack.stackPush [OfNat Item 0] (stack : LinkedStack Item) (data : Item) :
    Option (LinkedStack Item) := do
  let (a, memory) := makeNode stack
  let memory ← setData memory a data
  if stack.n = none then return ⟨a, memory, stack.fresh + 1⟩
  let (_, curr) ← walk memory (stack.fresh + 1) stack.n stack.n
  let memory ← setNext memory curr a
  return ⟨stack.n, memory, stack.fresh + 1⟩

def LinkedStack.popOnly (stack : LinkedStack Item) : Option (LinkedStack Item × Item) := do
  let rtn ← getData stack.memory stack.n
  let memory ← free stack.memory stack.n
  return (⟨none, memory, stack.fresh⟩, rtn)

def LinkedStack.popLast (stack : LinkedStack Item) : Option (LinkedStack Item × Item) := do
  let (prev, curr) ← walk stack.memory stack.fresh stack.n stack.n
  let rtn ← getData stack.memory curr
  let memory ← free stack.memory curr
  let memory ← setNext memory prev none
  return (⟨stack.n, memory, stack.fresh⟩, rtn)

def LinkedStack.stackPop (stack : LinkedStack Item) : Option (LinkedStack Item × Item) :=
  if stack.n = none then none
  else (isNextNull stack.memory stack.n).bind fun only =>
    if only then stack.popOnly else stack.popLast

def LinkedStack.stackSize (stack : LinkedStack Item) : Option Nat :=
  sizeFrom stack.memory (stack.fresh + 1) stack.n 0

/-- `list_free_recursive`: the nodes are freed from the last one on. -/
def listFreeRecursive (memory : Memory Item) : Nat → Option Nat → Option (Memory Item)
  | 0, _ => none
  | turns + 1, n =>
    (getNext memory n).bind fun next =>
      if next = none then free memory n
      else (listFreeRecursive memory turns next).bind fun freed => free freed n

/-- What `stack_drop` prints. -/
def LinkedStack.stackDrop (stack : LinkedStack Item) : Option (List UInt8) :=
  if stack.n = none then some []
  else (listFreeRecursive stack.memory stack.fresh stack.n).map fun _ =>
    bytesOf "Destroying Linked List...\n"

def LinkedStack.serve [OfNat Item 0] (stack : LinkedStack Item) :
    Op Item → Option (LinkedStack Item × Answer Item)
  | .push item => (stack.stackPush item).map fun next => (next, .pushed)
  | .pop => stack.stackPop.map fun done => (done.1, .item done.2)
  | .size => stack.stackSize.map fun count => (stack, .size count)

/-! ## The array is a stack with a limit -/

variable {held : List Item}

def Holds (stack : ArrayStack Item) (held : List Item) : Prop :=
  stack.items.toList.take stack.nItems = held

theorem holds_length {stack : ArrayStack Item} (holds : Holds stack held) :
    held.length = stack.nItems := by
  rw [← holds, List.length_take, Vector.length_toList]
  exact Nat.min_eq_left stack.fits

theorem array_push {stack : ArrayStack Item} (item : Item) (holds : Holds stack held)
    (room : stack.nItems < maxSize - 1) :
    ∃ next, stack.stackPush item = some next ∧ Holds next (held ++ [item]) := by
  have inside : stack.nItems < stack.items.toList.length := by
    rw [Vector.length_toList]
    omega
  refine ⟨_, dif_pos room, ?_⟩
  simp only [Holds, Vector.toList_set]
  rw [List.take_add_one, List.take_set_of_le (Nat.le_refl _), List.getElem?_set_self inside, holds]
  rfl

theorem array_pop {stack : ArrayStack Item} {last : Item} (holds : Holds stack (held ++ [last])) :
    ∃ next, stack.stackPop = some (next, last) ∧ Holds next held := by
  have length := holds_length holds
  rw [List.length_append, List.length_singleton] at length
  have positive : 0 < stack.nItems := by omega
  have before : stack.nItems - 1 = held.length := by omega
  have top : stack.items.toList[held.length]? = some last := by
    have found : (held ++ [last])[held.length]? = some last := List.getElem?_concat_length
    rw [← holds, List.getElem?_take] at found
    rw [← found, if_pos (by omega)]
  have bound : stack.nItems - 1 < maxSize :=
    Nat.lt_of_lt_of_le (Nat.sub_one_lt_of_lt positive) stack.fits
  rw [← before, Vector.getElem?_toList, Vector.getElem?_eq_getElem bound] at top
  refine ⟨⟨stack.items, stack.nItems - 1, Nat.le_of_lt bound⟩, ?_, ?_⟩
  · rw [ArrayStack.stackPop, dif_pos positive, ← Option.some.inj top]
    rfl
  · have shorter : (stack.items.toList.take stack.nItems).take (stack.nItems - 1) =
        (held ++ [last]).take held.length := by
      rw [holds, before]
    rw [List.take_take, Nat.min_eq_left (Nat.sub_le _ _), List.take_left] at shorter
    exact shorter

theorem array_bisimulation :
    Bisimulation ArrayStack.serve (lifo (some (maxSize - 1))) (@Holds Item) := by
  intro stack held op holds
  have length := holds_length holds
  cases op with
  | size =>
    refine .some ⟨holds, ?_⟩
    rw [length]
    rfl
  | push item =>
    by_cases room : stack.nItems < maxSize - 1
    · obtain ⟨next, pushed, kept⟩ := array_push item holds room
      simp only [ArrayStack.serve, pushed, lifo, length, Option.all_some, room, decide_true,
        if_true, Option.map_some]
      exact .some ⟨kept, rfl⟩
    · have refused : stack.stackPush item = none := dif_neg room
      simp only [ArrayStack.serve, refused, lifo, length, Option.all_some, room, decide_false,
        Bool.false_eq_true, if_false, Option.map_none]
      exact .none
  | pop =>
    rcases List.eq_nil_or_concat held with rfl | ⟨front, last, rfl⟩
    · have refused : stack.stackPop = none := by
        apply dif_neg
        rw [← length]
        exact Nat.lt_irrefl 0
      simp only [ArrayStack.serve, refused, lifo, List.getLast?_nil, Option.map_none]
      exact .none
    · rw [List.concat_eq_append] at holds ⊢
      obtain ⟨next, popped, kept⟩ := array_pop holds
      simp only [ArrayStack.serve, popped, lifo, List.getLast?_concat, List.dropLast_concat,
        Option.map_some]
      exact .some ⟨kept, rfl⟩

/-! ## Walks along the list -/

variable (memory : Memory Item)

theorem walk_segment (front : List (Nat × Item)) (last : Nat × Item)
    (segment : Segment memory (front ++ [last]) none) (turns : Nat)
    (enough : front.length < turns) (prev : Option Nat) :
    walk memory turns prev (entry (front ++ [last]) none) =
      some ((front.getLast?.map Prod.fst).or prev, some last.1) := by
  induction front generalizing turns prev with
  | nil =>
    obtain ⟨turns, rfl⟩ := Nat.exists_eq_add_of_lt enough
    have here := (segment_single memory last none).mp segment
    simp only [List.nil_append, entry, Nat.zero_add, List.length_nil, walk, getNext,
      Option.bind_some, here, Option.map_some, if_true]
    rfl
  | cons node rest ih =>
    rw [List.cons_append] at segment ⊢
    obtain ⟨here, later⟩ := segment
    cases turns with
    | zero => exact absurd enough (Nat.not_lt_zero _)
    | succ turns =>
      have walked := ih later turns (Nat.lt_of_succ_lt_succ enough) (some node.1)
      change walk memory (turns + 1) prev (some node.1) = _
      simp only [walk, getNext, Option.bind_some, here, Option.map_some,
        if_neg (entry_concat rest last none), walked, List.getLast?_cons]
      cases rest.getLast? with
      | none => rfl
      | some _ => rfl

/-! ## The linked list is a stack without a limit -/

variable {stack : LinkedStack Item}

structure Chain (stack : LinkedStack Item) (nodes : List (Nat × Item)) : Prop where
  linked : Segment stack.memory nodes none
  first : stack.n = entry nodes none
  distinct : (nodes.map Prod.fst).Nodup
  old : ∀ address ∈ nodes.map Prod.fst, address < stack.fresh

def Links (stack : LinkedStack Item) (held : List Item) : Prop :=
  ∃ nodes, Chain stack nodes ∧ nodes.map Prod.snd = held

theorem chain_length {nodes : List (Nat × Item)} (chain : Chain stack nodes) :
    nodes.length ≤ stack.fresh := by
  have inRange : nodes.map Prod.fst ⊆ List.range stack.fresh := by
    intro address member
    exact List.mem_range.mpr (chain.old address member)
  have shorter := (List.subperm_of_subset chain.distinct inRange).length_le
  rw [List.length_map, List.length_range] at shorter
  exact shorter

theorem fresh_apart {nodes : List (Nat × Item)} (chain : Chain stack nodes) :
    stack.fresh ∉ nodes.map Prod.fst := by
  intro member
  exact Nat.lt_irrefl _ (chain.old stack.fresh member)

def Beside (stack next : LinkedStack Item) (nodes : List (Nat × Item)) : Prop :=
  ∀ address < stack.fresh, address ∉ nodes.map Prod.fst → next.memory address = stack.memory address

theorem chain_push {nodes : List (Nat × Item)} {item : Item} (chain : Chain stack nodes)
    (memory : Memory Item) {n : Option Nat}
    (first : n = entry (nodes ++ [(stack.fresh, item)]) none)
    (linked : Segment memory (nodes ++ [(stack.fresh, item)]) none) :
    Chain ⟨n, memory, stack.fresh + 1⟩ (nodes ++ [(stack.fresh, item)]) := by
  refine ⟨linked, first, ?_, ?_⟩
  · exact (distinct_concat nodes _).mpr ⟨chain.distinct, fresh_apart chain⟩
  · intro address member
    rw [List.map_append, List.mem_append, List.map_singleton, List.mem_singleton] at member
    rcases member with older | new
    · exact Nat.lt_succ_of_lt (chain.old address older)
    · rw [new]
      exact Nat.lt_succ_self stack.fresh

/-- The memory of a push before the new node is linked. -/
def withNode (stack : LinkedStack Item) (item : Item) : Memory Item :=
  Function.update stack.memory stack.fresh (some ⟨item, none⟩)

theorem set_data_new [OfNat Item 0] (stack : LinkedStack Item) (item : Item) :
    setData (makeNode stack).2 (makeNode stack).1 item = some (withNode stack item) := by
  simp only [makeNode, setData, Option.bind_some, Function.update_self, Option.map_some,
    Function.update_idem, withNode]

theorem linked_push_first [OfNat Item 0] (item : Item) (chain : Chain stack []) :
    ∃ next, stack.stackPush item = some next ∧ next.fresh = stack.fresh + 1 ∧
      Chain next [(stack.fresh, item)] ∧ Beside stack next [] := by
  have empty : stack.n = none := chain.first
  have pushed := LinkedStack.stackPush.eq_1 stack item
  simp only [set_data_new, empty, if_true, Option.bind_eq_bind, Option.bind_some,
    Option.pure_def] at pushed
  refine ⟨_, pushed, rfl, chain_push chain _ rfl ?_, ?_⟩
  · exact (segment_single _ _ _).mpr (Function.update_self _ _ _)
  · intro address old _
    exact Function.update_of_ne (Nat.ne_of_lt old) _ _

theorem linked_push_behind [OfNat Item 0] (item : Item) {front : List (Nat × Item)}
    {last : Nat × Item} (chain : Chain stack (front ++ [last])) :
    ∃ next, stack.stackPush item = some next ∧ next.fresh = stack.fresh + 1 ∧
      Chain next (front ++ [last] ++ [(stack.fresh, item)]) ∧
      Beside stack next (front ++ [last]) := by
  have present : stack.n ≠ none := by
    rw [chain.first]
    exact entry_concat front last none
  have long := chain_length chain
  have apart := fresh_apart chain
  have segment : Segment (withNode stack item) (front ++ [last]) none :=
    segment_update stack.memory _ none stack.fresh _ apart chain.linked
  obtain ⟨frontLinked, lastLinked⟩ := (segment_append _ front [last] none).mp segment
  have lastHere := (segment_single _ last none).mp lastLinked
  have walked := walk_segment (withNode stack item) front last segment (stack.fresh + 1)
    (by rw [List.length_append, List.length_singleton] at long; omega) stack.n
  rw [← chain.first] at walked
  have relinked : setNext (withNode stack item) (some last.1) (some stack.fresh) =
      some (Function.update (withNode stack item) last.1 (some ⟨last.2, some stack.fresh⟩)) := by
    simp only [setNext, Option.bind_some, lastHere, Option.map_some]
  have pushed := LinkedStack.stackPush.eq_1 stack item
  simp only [set_data_new, if_neg present, Option.bind_eq_bind, Option.bind_some, walked,
    Option.pure_def] at pushed
  rw [show (makeNode stack).1 = some stack.fresh from rfl, relinked, Option.bind_some] at pushed
  obtain ⟨_, lastApart⟩ := (distinct_concat front last).mp chain.distinct
  have newApart : stack.fresh ≠ last.1 := by
    intro same
    apply apart
    rw [same, List.map_append, List.mem_append]
    exact Or.inr (List.mem_singleton_self _)
  refine ⟨_, pushed, rfl, chain_push chain _ ?_ ?_, ?_⟩
  · rw [chain.first, List.append_assoc, entry_append, entry_append]
    rfl
  · rw [List.append_assoc, segment_append]
    refine ⟨segment_update _ front _ last.1 _ lastApart frontLinked, ?_, ?_, trivial⟩
    · exact Function.update_self _ _ _
    · rw [Function.update_of_ne newApart]
      exact Function.update_self _ _ _
  · intro address old other
    rw [List.map_append, List.mem_append, not_or] at other
    have notLast : address ≠ last.1 := fun same => other.2 (by simp [same])
    exact (Function.update_of_ne notLast _ _).trans (Function.update_of_ne (Nat.ne_of_lt old) _ _)

theorem push_chain [OfNat Item 0] {nodes : List (Nat × Item)} (item : Item)
    (chain : Chain stack nodes) :
    ∃ next, stack.stackPush item = some next ∧ next.fresh = stack.fresh + 1 ∧
      Chain next (nodes ++ [(stack.fresh, item)]) ∧ Beside stack next nodes := by
  rcases List.eq_nil_or_concat nodes with rfl | ⟨front, last, rfl⟩
  · exact linked_push_first item chain
  · rw [List.concat_eq_append] at chain ⊢
    exact linked_push_behind item chain

theorem linked_push [OfNat Item 0] (stack : LinkedStack Item) (held : List Item) (item : Item)
    (links : Links stack held) :
    ∃ next, stack.stackPush item = some next ∧ Links next (held ++ [item]) := by
  obtain ⟨nodes, chain, rfl⟩ := links
  obtain ⟨next, pushed, _, chainNext, _⟩ := push_chain item chain
  exact ⟨next, pushed, _, chainNext, List.map_append⟩

theorem linked_pop_only {only : Nat × Item} (chain : Chain stack [only]) :
    ∃ next, stack.stackPop = some (next, only.2) ∧ next.fresh = stack.fresh ∧ Chain next [] ∧
      Beside stack next [only] := by
  have first : stack.n = some only.1 := chain.first
  have here := (segment_single _ only none).mp chain.linked
  refine ⟨⟨none, Function.update stack.memory only.1 none, stack.fresh⟩, ?_, rfl, ?_, ?_⟩
  · simp [LinkedStack.stackPop, LinkedStack.popOnly, isNextNull, getData, free, first, here]
  · refine ⟨trivial, rfl, List.nodup_nil, ?_⟩
    intro address member
    cases member
  · intro address _ other
    exact Function.update_of_ne (fun same => other (by simp [same])) _ _

theorem next_not_null {front : List (Nat × Item)} {before : Nat × Item} {last : Nat}
    (segment : Segment memory (front ++ [before]) (some last)) :
    isNextNull memory (entry (front ++ [before]) (some last)) = some false := by
  cases front with
  | nil =>
    have here := (segment_single memory before (some last)).mp segment
    simp only [List.nil_append, entry, isNextNull, here, Option.map_some, Option.isNone_some]
  | cons node rest =>
    rw [List.cons_append] at segment ⊢
    have pointed := Option.isNone_eq_false_iff.mpr
      (Option.isSome_iff_ne_none.mpr (entry_concat rest before (some last)))
    change (memory node.1).map _ = some false
    rw [segment.1, Option.map_some, pointed]

theorem linked_pop_last {front : List (Nat × Item)} {before last : Nat × Item}
    (chain : Chain stack (front ++ [before] ++ [last])) :
    ∃ next, stack.stackPop = some (next, last.2) ∧ next.fresh = stack.fresh ∧
      Chain next (front ++ [before]) ∧ Beside stack next (front ++ [before] ++ [last]) := by
  obtain ⟨beforeLinked, lastLinked⟩ :=
    (segment_append _ (front ++ [before]) [last] none).mp chain.linked
  obtain ⟨frontLinked, beforeHere⟩ := (segment_append _ front [before] _).mp beforeLinked
  rw [segment_single] at lastLinked beforeHere
  obtain ⟨keptDistinct, lastApart⟩ := (distinct_concat _ last).mp chain.distinct
  obtain ⟨_, beforeApart⟩ := (distinct_concat front before).mp keptDistinct
  rw [List.map_append, List.map_singleton, List.mem_append, List.mem_singleton, not_or] at lastApart
  have first : stack.n = entry (front ++ [before]) (some last.1) := by
    rw [chain.first, entry_append]
    rfl
  have present : stack.n ≠ none := by
    rw [first]
    exact entry_concat front before (some last.1)
  have several : isNextNull stack.memory stack.n = some false := by
    rw [first]
    exact next_not_null stack.memory beforeLinked
  have long := chain_length chain
  rw [List.length_append, List.length_singleton] at long
  have walked := walk_segment stack.memory (front ++ [before]) last chain.linked stack.fresh
    long stack.n
  rw [← chain.first, List.getLast?_concat, Option.map_some, Option.some_or] at walked
  have beforeStays : Function.update stack.memory last.1 none before.1 =
      some ⟨before.2, some last.1⟩ := by
    rw [Function.update_of_ne (Ne.symm lastApart.2)]
    exact beforeHere
  refine ⟨⟨stack.n, Function.update (Function.update stack.memory last.1 none) before.1
    (some ⟨before.2, none⟩), stack.fresh⟩, ?_, rfl, ⟨?_, ?_, keptDistinct, ?_⟩, ?_⟩
  · simp only [LinkedStack.stackPop, if_neg present, several, Option.bind_some,
      Bool.false_eq_true, if_false, LinkedStack.popLast, Option.bind_eq_bind, walked,
      Option.map_some, getData, free, lastLinked, setNext, beforeStays, Option.pure_def]
  · apply (segment_append _ front [before] none).mpr
    constructor
    · apply segment_update _ front _ before.1 _ beforeApart
      exact segment_update _ front _ last.1 _ lastApart.1 frontLinked
    · exact (segment_single _ before none).mpr (Function.update_self _ _ _)
  · rw [first, entry_append, entry_append]
    rfl
  · intro address member
    apply chain.old address
    rw [List.map_append]
    exact List.mem_append_left _ member
  · intro address _ other
    simp only [List.map_append, List.map_singleton, List.mem_append, List.mem_singleton,
      not_or] at other
    exact (Function.update_of_ne other.1.2 _ _).trans (Function.update_of_ne other.2 _ _)

theorem pop_chain {front : List (Nat × Item)} {last : Nat × Item}
    (chain : Chain stack (front ++ [last])) :
    ∃ next, stack.stackPop = some (next, last.2) ∧ next.fresh = stack.fresh ∧ Chain next front ∧
      Beside stack next (front ++ [last]) := by
  rcases List.eq_nil_or_concat front with rfl | ⟨others, before, rfl⟩
  · exact linked_pop_only chain
  · rw [List.concat_eq_append] at chain ⊢
    exact linked_pop_last chain

theorem linked_pop (stack : LinkedStack Item) (held : List Item) (last : Item)
    (links : Links stack (held ++ [last])) :
    ∃ next, stack.stackPop = some (next, last) ∧ Links next held := by
  obtain ⟨nodes, chain, same⟩ := links
  obtain ⟨front, tail, rfl, rfl, single⟩ := List.map_eq_append_iff.mp same
  obtain ⟨node, rest, rfl, rfl, ended⟩ := List.map_eq_cons_iff.mp single
  rw [List.map_eq_nil_iff.mp ended] at chain
  obtain ⟨next, popped, _, chainNext, _⟩ := pop_chain chain
  exact ⟨next, popped, front, chainNext, rfl⟩

theorem linked_pop_empty (stack : LinkedStack Item) (links : Links stack []) :
    stack.stackPop = none := by
  obtain ⟨nodes, chain, empty⟩ := links
  rw [List.map_eq_nil_iff.mp empty] at chain
  exact if_pos chain.first

theorem linked_size (stack : LinkedStack Item) (held : List Item) (links : Links stack held) :
    stack.stackSize = some held.length := by
  obtain ⟨nodes, chain, rfl⟩ := links
  have counted := size_segment stack.memory nodes chain.linked (stack.fresh + 1)
    (Nat.lt_succ_of_le (chain_length chain)) 0
  rw [← chain.first, Nat.zero_add] at counted
  rw [LinkedStack.stackSize, counted, List.length_map]

theorem free_segment (nodes : List (Nat × Item)) (present : nodes ≠ [])
    (segment : Segment memory nodes none) (distinct : (nodes.map Prod.fst).Nodup) (turns : Nat)
    (enough : nodes.length ≤ turns) :
    ∃ freed, listFreeRecursive memory turns (entry nodes none) = some freed ∧
      ∀ address ∉ nodes.map Prod.fst, freed address = memory address := by
  induction nodes generalizing turns with
  | nil => exact absurd rfl present
  | cons node rest ih =>
    obtain ⟨here, later⟩ := segment
    rw [List.map_cons, List.nodup_cons] at distinct
    cases turns with
    | zero => exact absurd enough (Nat.not_succ_le_zero _)
    | succ turns =>
      change ∃ freed, listFreeRecursive memory (turns + 1) (some node.1) = some freed ∧ _
      cases rest with
      | nil =>
        refine ⟨Function.update memory node.1 none, ?_, ?_⟩
        · simp [listFreeRecursive, getNext, free, here, entry]
        · intro address apart
          exact Function.update_of_ne (fun same => apart (by simp [same])) _ _
      | cons next others =>
        obtain ⟨freed, done, kept⟩ :=
          ih (List.cons_ne_nil _ _) later distinct.2 turns (Nat.le_of_succ_le_succ enough)
        have stays := kept node.1 distinct.1
        change listFreeRecursive memory turns (some next.1) = some freed at done
        refine ⟨Function.update freed node.1 none, ?_, ?_⟩
        · simp [listFreeRecursive, getNext, free, here, entry, done, stays]
        · intro address apart
          rw [List.map_cons, List.mem_cons, not_or] at apart
          rw [Function.update_of_ne apart.1, kept address apart.2]

theorem linked_drop (links : Links stack held) : stack.stackDrop = some (if held = [] then []
      else bytesOf "Destroying Linked List...\n") := by
  obtain ⟨nodes, chain, rfl⟩ := links
  cases nodes with
  | nil => exact if_pos chain.first
  | cons node rest =>
    obtain ⟨freed, done, _⟩ := free_segment stack.memory (node :: rest) (List.cons_ne_nil _ _)
      chain.linked chain.distinct stack.fresh (chain_length chain)
    have present : stack.n ≠ none := by
      rw [chain.first]
      exact Option.some_ne_none _
    rw [← chain.first] at done
    simp [LinkedStack.stackDrop, present, done]

theorem linked_new : Links (LinkedStack.stackNew : LinkedStack Item) [] := by
  refine ⟨[], ⟨trivial, rfl, List.nodup_nil, ?_⟩, rfl⟩
  intro address member
  cases member

theorem linked_bisimulation [OfNat Item 0] :
    Bisimulation LinkedStack.serve (lifo none) (@Links Item) := by
  intro stack held op links
  cases op with
  | size =>
    simp only [LinkedStack.serve, linked_size stack held links, Option.map_some, lifo]
    exact .some ⟨links, rfl⟩
  | push item =>
    obtain ⟨next, pushed, kept⟩ := linked_push stack held item links
    simp only [LinkedStack.serve, pushed, lifo, Option.all_none, if_true, Option.map_some]
    exact .some ⟨kept, rfl⟩
  | pop =>
    rcases List.eq_nil_or_concat held with rfl | ⟨front, last, rfl⟩
    · simp only [LinkedStack.serve, linked_pop_empty stack links, lifo, List.getLast?_nil,
        Option.map_none]
      exact .none
    · rw [List.concat_eq_append] at links ⊢
      obtain ⟨next, popped, kept⟩ := linked_pop stack front last links
      simp only [LinkedStack.serve, popped, lifo, List.getLast?_concat, List.dropLast_concat,
        Option.map_some]
      exact .some ⟨kept, rfl⟩

/-! ## Both stacks -/

theorem within_iff_answers (limit : Option Nat) (held : List Item) (ops : List (Op Item)) :
    (answers (lifo limit) held ops).isSome ↔ Within limit held.length ops := by
  induction ops generalizing held with
  | nil => exact iff_of_true rfl trivial
  | cons op rest ih =>
    cases op with
    | size =>
      simp only [answers, lifo, Option.bind_some, Option.isSome_map, Within]
      exact ih held
    | push item =>
      have later := ih (held ++ [item])
      rw [List.length_append, List.length_singleton] at later
      by_cases room : limit.all (held.length < ·)
      · simp only [answers, lifo, room, if_true, Option.bind_some, Option.isSome_map, Within,
          true_and]
        exact later
      · simp only [answers, lifo, room, Bool.false_eq_true, if_false, Option.bind_none,
          Option.isSome_none, Within, false_and]
    | pop =>
      rcases List.eq_nil_or_concat held with rfl | ⟨front, last, rfl⟩
      · simp [answers, lifo, Within]
      · rw [List.concat_eq_append]
        simp only [answers, lifo, List.getLast?_concat, Option.map_some, Option.bind_some,
          List.dropLast_concat, Option.isSome_map, Within, List.length_append,
          List.length_singleton, Nat.succ_pos, true_and, Nat.add_sub_cancel]
        exact ih front

theorem within_answers (limit : Option Nat) (held : List Item) (ops : List (Op Item))
    (within : Within limit held.length ops) :
    answers (lifo limit) held ops = answers (lifo none) held ops := by
  induction ops generalizing held with
  | nil => rfl
  | cons op rest ih =>
    cases op with
    | size =>
      simp only [answers, lifo, Option.bind_some]
      rw [ih held within]
    | push item =>
      obtain ⟨room, later⟩ := within
      have same := ih (held ++ [item]) (by
        rw [List.length_append, List.length_singleton]
        exact later)
      simp only [answers, lifo, room, Option.all_none, if_true, Option.bind_some]
      rw [same]
    | pop =>
      rcases List.eq_nil_or_concat held with rfl | ⟨front, last, rfl⟩
      · exact absurd within.1 (Nat.lt_irrefl 0)
      · rw [List.concat_eq_append] at within ⊢
        have later := within.2
        rw [List.length_append, List.length_singleton, Nat.add_sub_cancel] at later
        simp only [answers, lifo, List.getLast?_concat, Option.map_some, Option.bind_some,
          List.dropLast_concat]
        rw [ih front later]

theorem array_answers [OfNat Item 0] (ops : List (Op Item)) :
    answers ArrayStack.serve ArrayStack.stackNew ops =
      answers (lifo (some (maxSize - 1))) [] ops := by
  exact answers_eq _ _ Holds array_bisimulation ArrayStack.stackNew [] (List.take_zero) ops

theorem linked_answers [OfNat Item 0] (ops : List (Op Item)) :
    answers LinkedStack.serve LinkedStack.stackNew ops = answers (lifo none) [] ops := by
  exact answers_eq _ _ Links linked_bisimulation LinkedStack.stackNew [] linked_new ops

def Agree [OfNat Item 0] (ops : List (Op Item)) : Prop :=
  ∃ results, answers ArrayStack.serve ArrayStack.stackNew ops = some results ∧
    answers LinkedStack.serve LinkedStack.stackNew ops = some results

/-- The stacks agree on exactly the operations that leave one place of the array
free. -/
theorem stacks_agree_iff [OfNat Item 0] (ops : List (Op Item)) :
    Agree ops ↔ Within (some (maxSize - 1)) 0 ops := by
  have legal := within_iff_answers (some (maxSize - 1)) [] ops
  unfold Agree
  rw [array_answers, linked_answers]
  constructor
  · rintro ⟨results, array, _⟩
    apply legal.mp
    rw [array]
    rfl
  · intro within
    obtain ⟨results, array⟩ := Option.isSome_iff_exists.mp (legal.mpr within)
    rw [within_answers (some (maxSize - 1)) [] ops within] at array
    exact ⟨results, by rw [within_answers (some (maxSize - 1)) [] ops within, array], array⟩

/-- Ten pushes fit into the ten places, and the array stack refuses the last one. -/
theorem tenth_push_aborts :
    Within (some maxSize) 0 (List.replicate maxSize (Op.push (5 : Int))) ∧
      answers LinkedStack.serve LinkedStack.stackNew
        (List.replicate maxSize (Op.push (5 : Int))) = some (List.replicate maxSize .pushed) ∧
      answers ArrayStack.serve ArrayStack.stackNew
        (List.replicate maxSize (Op.push (5 : Int))) = none ∧
      ¬ Agree (List.replicate maxSize (Op.push (5 : Int))) := by
  have aborts : answers ArrayStack.serve ArrayStack.stackNew
      (List.replicate maxSize (Op.push (5 : Int))) = none := by
    rfl
  refine ⟨?_, ?_, aborts, ?_⟩
  · simp [Within, maxSize, List.replicate]
  · rw [linked_answers]
    rfl
  · rintro ⟨results, array, _⟩
    cases array

end Cprogramming.Containers.Stacks
