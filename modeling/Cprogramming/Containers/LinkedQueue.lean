import Cprogramming.Library.LinkedSegments

/-!
# The linked queue

`queue_linkedlist.c` on the nodes of `doubly_linkedlist.c`. There is no result where an
assertion fails or a freed node is used.

A push into an empty queue makes the node the tail before it links the tail to it:
the node is its own successor until the next push.
-/

namespace Cprogramming.Containers.LinkedQueue

open Library.LinkedSegments

set_option autoImplicit false

variable {Item : Type}

/-! ## Nodes -/

/-- What a node has beside its `next`. -/
structure Cell (Item : Type) where
  data : Option Item
  prev : Option Nat

def change (memory : Memory (Cell Item)) (pointer : Option Nat)
    (update : Node (Cell Item) → Option (Node (Cell Item))) : Option (Memory (Cell Item)) :=
  pointer.bind fun address =>
    (memory address).map fun node => Function.update memory address (update node)

def setData (memory : Memory (Cell Item)) (node : Option Nat) (item : Item) :
    Option (Memory (Cell Item)) :=
  change memory node fun old => some { old with data := { old.data with data := some item } }

def setNext (memory : Memory (Cell Item)) (src dest : Option Nat) : Option (Memory (Cell Item)) :=
  change memory src fun old => some { old with next := dest }

def setPrev (memory : Memory (Cell Item)) (src dest : Option Nat) : Option (Memory (Cell Item)) :=
  change memory src fun old => some { old with data := { old.data with prev := dest } }

def free (memory : Memory (Cell Item)) (node : Option Nat) : Option (Memory (Cell Item)) :=
  change memory node fun _ => none

/-! ## The queue -/

structure Queue (Item : Type) where
  h : Option Nat
  t : Option Nat
  memory : Memory (Cell Item)
  fresh : Nat

def queueNew : Queue Item := ⟨none, none, fun _ => none, 0⟩

/-- The copies that `item_clone` makes of the item have its value. -/
def queuePush (queue : Queue Item) (item : Item) : Option (Queue Item) := do
  let node := some queue.fresh
  let allocated := Function.update queue.memory queue.fresh (some ⟨⟨none, none⟩, none⟩)
  let memory ← setData allocated node item
  let h := if queue.h = none then node else queue.h
  let t := if queue.h = none then node else queue.t
  let memory ← setNext memory t node
  let memory ← setPrev memory node t
  return ⟨h, node, memory, queue.fresh + 1⟩

def queuePop (queue : Queue Item) : Option (Queue Item × Option Item) := do
  let first ← queue.h.bind queue.memory
  let t := if first.next = none then none else queue.t
  let memory ← free queue.memory queue.h
  return (⟨first.next, t, memory, queue.fresh⟩, first.data.data)

def queueSize (fuel : Nat) (queue : Queue Item) : Option Nat :=
  sizeFrom queue.memory fuel queue.h 0

/-! ## Runs -/

inductive Op (Item : Type) where
  | push (item : Item)
  | pop

def runOps : Queue Item → List (Op Item) → Option (Queue Item × List (Option Item))
  | queue, [] => some (queue, [])
  | queue, .push item :: rest => (queuePush queue item).bind fun next => runOps next rest
  | queue, .pop :: rest =>
    (queuePop queue).bind fun (next, item) =>
      (runOps next rest).map fun (final, items) => (final, item :: items)

/-- The same with a mathematical queue; it has no result for a pop that finds it
empty. -/
def fifoRun : List Item → List (Op Item) → Option (List Item × List Item)
  | held, [] => some (held, [])
  | held, .push item :: rest => fifoRun (held ++ [item]) rest
  | [], .pop :: _ => none
  | first :: held, .pop :: rest =>
    (fifoRun held rest).map fun (final, items) => (final, first :: items)

/-- The pops returned these items, and the size of the queue can be taken. -/
def Behaves (queue : Queue Item) (ops : List (Op Item)) (held popped : List Item) : Prop :=
  ∃ final fuel, runOps queue ops = some (final, popped.map some) ∧
    queueSize fuel final = some held.length

/-- Each push that finds the queue empty is directly followed by another push. -/
def Followed : List Item → List (Op Item) → Prop
  | _, [] => True
  | [], .push first :: .push second :: rest => Followed [first, second] rest
  | [], .push _ :: _ => False
  | [], .pop :: rest => Followed [] rest
  | first :: held, .push item :: rest => Followed (first :: held ++ [item]) rest
  | _ :: held, .pop :: rest => Followed held rest

/-! ## The shapes of a queue -/

structure Chain (queue : Queue Item) (nodes : List (Nat × Cell Item)) : Prop where
  linked : Segment queue.memory nodes none
  first : queue.h = entry nodes none
  last : queue.t = nodes.getLast?.map Prod.fst
  distinct : (nodes.map Prod.fst).Nodup
  old : ∀ address ∈ nodes.map Prod.fst, address < queue.fresh

def Proper (queue : Queue Item) (items : List Item) : Prop :=
  ∃ nodes, Chain queue nodes ∧ nodes.map (fun node => node.2.data) = items.map some

/-- One node, which is its own successor. -/
structure Lone (queue : Queue Item) (item : Item) : Prop where
  node : ∃ address prev, queue.h = some address ∧ queue.t = some address ∧
    address < queue.fresh ∧ queue.memory address = some ⟨⟨some item, prev⟩, some address⟩

/-- Head and tail point to a node that has been freed. -/
structure Dangling (queue : Queue Item) : Prop where
  node : ∃ address, queue.h = some address ∧ queue.t = some address ∧
    address < queue.fresh ∧ queue.memory address = none

/-! ## One operation -/

variable {queue : Queue Item} {item : Item}

theorem push_first (queue : Queue Item) (item : Item) (empty : queue.h = none) :
    ∃ next, queuePush queue item = some next ∧ Lone next item := by
  have pushed := queuePush.eq_1 queue item
  simp only [empty, setData, setNext, setPrev, change, Function.update_self, Option.bind_some,
    Option.map_some, if_true, Option.bind_eq_bind, Option.pure_def] at pushed
  exact ⟨_, pushed, ⟨queue.fresh, some queue.fresh, rfl, rfl, Nat.lt_succ_self _,
    Function.update_self _ _ _⟩⟩

structure Pushed (queue next : Queue Item) (tail : Nat) (cell : Cell Item) (item : Item) :
    Prop where
  head : next.h = queue.h
  last : next.t = some queue.fresh
  fresh : next.fresh = queue.fresh + 1
  relinked : next.memory tail = some ⟨cell, some queue.fresh⟩
  created : next.memory queue.fresh = some ⟨⟨some item, some tail⟩, none⟩
  others : ∀ address, address ≠ tail → address ≠ queue.fresh →
    next.memory address = queue.memory address

theorem push_behind (item : Item) {first tail : Nat} {node : Node (Cell Item)}
    (head : queue.h = some first) (last : queue.t = some tail) (old : tail < queue.fresh)
    (live : queue.memory tail = some node) :
    ∃ next, queuePush queue item = some next ∧ Pushed queue next tail node.data item := by
  have apart : tail ≠ queue.fresh := Nat.ne_of_lt old
  have pushed := queuePush.eq_1 queue item
  simp [head, last, setData, setNext, setPrev, change, Function.update_apply, apart, live,
    Ne.symm apart] at pushed
  refine ⟨_, pushed, ⟨head.symm, rfl, rfl, ?_, ?_, ?_⟩⟩
  · simp [apart]
  · simp
  · intro address notTail notFresh
    simp [notTail, notFresh]

theorem push_dangling (item : Item) (dangling : Dangling queue) : queuePush queue item = none := by
  obtain ⟨address, head, last, old, freed⟩ := dangling.node
  have apart : address ≠ queue.fresh := Nat.ne_of_lt old
  simp [queuePush, head, last, setData, setNext, change, Function.update_apply, apart, freed]

theorem push_chain {front : List (Nat × Cell Item)} {tail : Nat × Cell Item} (item : Item)
    (chain : Chain queue (front ++ [tail])) :
    ∃ next, queuePush queue item = some next ∧
      Chain next (front ++ [tail] ++ [(queue.fresh, ⟨some item, some tail.1⟩)]) := by
  obtain ⟨frontLinked, tailLinked⟩ := (segment_append _ front [tail] none).mp chain.linked
  have live := (segment_single _ tail none).mp tailLinked
  have member : tail.1 ∈ (front ++ [tail]).map Prod.fst := by simp
  obtain ⟨first, head⟩ := Option.ne_none_iff_exists'.mp (entry_concat front tail none)
  obtain ⟨next, pushed, facts⟩ := push_behind item (chain.first.trans head)
    (chain.last.trans (by simp)) (chain.old tail.1 member) live
  have notFresh : ∀ address ∈ (front ++ [tail]).map Prod.fst, address ≠ queue.fresh :=
    fun address inside => Nat.ne_of_lt (chain.old address inside)
  have tailApart := ((distinct_concat front tail).mp chain.distinct).2
  refine ⟨next, pushed, ?_, ?_, ?_, ?_, ?_⟩
  · rw [List.append_assoc, segment_append]
    refine ⟨segment_congr queue.memory _ front _ ?_ frontLinked, facts.relinked, facts.created,
      trivial⟩
    intro address inside
    exact facts.others address (ne_of_mem_of_not_mem inside tailApart)
      (notFresh address (by simp [List.mem_map.mp inside]))
  · rw [facts.head, chain.first, List.append_assoc, entry_append, entry_append]
    rfl
  · rw [facts.last, List.getLast?_concat]
    rfl
  · exact (distinct_concat _ _).mpr
      ⟨chain.distinct, fun inside => notFresh queue.fresh inside rfl⟩
  · intro address inside
    rw [facts.fresh]
    rw [List.map_append, List.mem_append, List.map_singleton, List.mem_singleton] at inside
    rcases inside with older | new
    · exact Nat.lt_succ_of_lt (chain.old address older)
    · rw [new]
      exact Nat.lt_succ_self _

theorem push_proper {items : List Item} (item : Item) (proper : Proper queue items)
    (held : items ≠ []) :
    ∃ next, queuePush queue item = some next ∧ Proper next (items ++ [item]) := by
  obtain ⟨nodes, chain, holds⟩ := proper
  rcases List.eq_nil_or_concat nodes with rfl | ⟨front, tail, rfl⟩
  · exact absurd (List.map_eq_nil_iff.mp holds.symm) held
  · rw [List.concat_eq_append] at chain holds
    obtain ⟨next, pushed, chainNext⟩ := push_chain item chain
    refine ⟨next, pushed, _, chainNext, ?_⟩
    rw [List.map_append, holds, List.map_append]
    rfl

theorem push_lone {oldest : Item} (item : Item) (lone : Lone queue oldest) :
    ∃ next, queuePush queue item = some next ∧ Proper next [oldest, item] := by
  obtain ⟨address, prev, head, last, old, live⟩ := lone.node
  obtain ⟨next, pushed, facts⟩ := push_behind item head last old live
  have apart : address ≠ queue.fresh := Nat.ne_of_lt old
  refine ⟨next, pushed,
    [(address, ⟨some oldest, prev⟩), (queue.fresh, ⟨some item, some address⟩)],
    ⟨⟨facts.relinked, facts.created, trivial⟩, ?_, ?_, ?_, ?_⟩, rfl⟩
  · rw [facts.head, head]
    rfl
  · rw [facts.last]
    rfl
  · simpa using apart
  · intro one inside
    rw [facts.fresh]
    simp only [List.map_cons, List.map_nil, List.mem_cons, List.not_mem_nil, or_false] at inside
    omega

theorem pop_live {address : Nat} {node : Node (Cell Item)} (head : queue.h = some address)
    (live : queue.memory address = some node) (holds : node.data.data = some item) :
    queuePop queue = some (⟨node.next, if node.next = none then none else queue.t,
      Function.update queue.memory address none, queue.fresh⟩, some item) := by
  simp [queuePop, head, live, free, change, holds]

theorem pop_proper {oldest : Item} {items : List Item} (proper : Proper queue (oldest :: items)) :
    ∃ next, queuePop queue = some (next, some oldest) ∧ Proper next items := by
  obtain ⟨nodes, chain, holds⟩ := proper
  cases nodes with
  | nil => cases holds
  | cons first rest =>
    obtain ⟨live, later⟩ := chain.linked
    obtain ⟨data, others⟩ := List.cons.inj holds
    obtain ⟨absent, distinct⟩ := List.nodup_cons.mp chain.distinct
    refine ⟨_, pop_live chain.first live data, rest, ⟨?_, rfl, ?_, distinct, ?_⟩, others⟩
    · exact segment_update queue.memory rest none first.1 none absent later
    · cases rest with
      | nil => rfl
      | cons second others =>
        have ends := chain.last
        exact ends
    · intro address inside
      exact chain.old address (List.mem_cons_of_mem _ inside)

theorem pop_lone (lone : Lone queue item) :
    ∃ next, queuePop queue = some (next, some item) ∧ Dangling next := by
  obtain ⟨address, prev, head, last, old, live⟩ := lone.node
  refine ⟨_, pop_live head live rfl, ⟨address, rfl, ?_, old, Function.update_self _ _ _⟩⟩
  show (if some address = none then none else queue.t) = some address
  exact last

/-! ## The size -/

theorem size_proper {items : List Item} (proper : Proper queue items) :
    ∃ fuel, queueSize fuel queue = some items.length := by
  obtain ⟨nodes, chain, holds⟩ := proper
  have count := congrArg List.length holds
  rw [List.length_map, List.length_map] at count
  refine ⟨nodes.length + 1, ?_⟩
  rw [queueSize, chain.first, size_segment queue.memory nodes chain.linked _ (Nat.lt_succ_self _) 0,
    Nat.zero_add, count]

theorem size_lone (lone : Lone queue item) (fuel : Nat) : queueSize fuel queue = none := by
  obtain ⟨address, prev, head, _, _, live⟩ := lone.node
  have round : ∀ fuel count, sizeFrom queue.memory fuel (some address) count = none := by
    intro fuel
    induction fuel with
    | zero =>
      intro count
      rfl
    | succ fuel ih =>
      intro count
      rw [sizeFrom, live, Option.bind_some]
      exact ih (count + 1)
  rw [queueSize, head]
  exact round fuel 0

theorem size_dangling (dangling : Dangling queue) (fuel : Nat) : queueSize fuel queue = none := by
  obtain ⟨address, head, _, _, freed⟩ := dangling.node
  rw [queueSize, head]
  cases fuel with
  | zero => rfl
  | succ fuel => rw [sizeFrom, freed, Option.bind_none]

theorem proper_empty (proper : Proper queue []) : queue.h = none := by
  obtain ⟨nodes, chain, holds⟩ := proper
  rw [chain.first, List.map_eq_nil_iff.mp holds]
  rfl

/-! ## Whole runs -/

theorem behaves_push {next : Queue Item} (rest : List (Op Item)) (held popped : List Item)
    (pushed : queuePush queue item = some next) :
    Behaves queue (.push item :: rest) held popped ↔ Behaves next rest held popped := by
  simp only [Behaves, runOps, pushed, Option.bind_some]

theorem behaves_pop {next : Queue Item} (rest : List (Op Item)) (held popped : List Item)
    (taken : queuePop queue = some (next, some item)) :
    Behaves queue (.pop :: rest) held (item :: popped) ↔ Behaves next rest held popped := by
  constructor
  · rintro ⟨final, fuel, ran, size⟩
    simp only [runOps, taken, Option.bind_some, Option.map_eq_some_iff, List.map_cons] at ran
    obtain ⟨⟨last, items⟩, later, same⟩ := ran
    obtain ⟨rfl, ⟨_, rfl⟩⟩ := by simpa only [Prod.mk.injEq, List.cons.injEq] using same
    exact ⟨last, fuel, later, size⟩
  · rintro ⟨final, fuel, ran, size⟩
    exact ⟨final, fuel, by simp [runOps, taken, ran], size⟩

/-- From a dangling queue there is no way back: a push is a fault, and a pop would find
the mathematical queue empty. -/
theorem not_behaves_dangling (dangling : Dangling queue) {ops : List (Op Item)}
    {held popped : List Item} (legal : fifoRun [] ops = some (held, popped)) :
    ¬ Behaves queue ops held popped := by
  rintro ⟨final, fuel, ran, size⟩
  cases ops with
  | nil =>
    obtain ⟨rfl, _⟩ := Prod.mk.inj (Option.some.inj ran)
    rw [size_dangling dangling fuel] at size
    cases size
  | cons op rest =>
    cases op with
    | push item =>
      rw [runOps, push_dangling item dangling] at ran
      cases ran
    | pop => cases legal

theorem not_behaves_lone (lone : Lone queue item) {ops : List (Op Item)} {held popped : List Item}
    (legal : fifoRun [item] ops = some (held, popped))
    (alone : ∀ next rest, ops ≠ .push next :: rest) : ¬ Behaves queue ops held popped := by
  cases ops with
  | nil =>
    rintro ⟨final, fuel, ran, size⟩
    obtain ⟨rfl, _⟩ := Prod.mk.inj (Option.some.inj ran)
    rw [size_lone lone fuel] at size
    cases size
  | cons op rest =>
    cases op with
    | push next => exact absurd rfl (alone next rest)
    | pop =>
      obtain ⟨next, taken, dangling⟩ := pop_lone lone
      rw [fifoRun, Option.map_eq_some_iff] at legal
      obtain ⟨⟨last, items⟩, later, same⟩ := legal
      obtain ⟨rfl, rfl⟩ := Prod.mk.inj same
      rw [behaves_pop rest last items taken]
      exact not_behaves_dangling dangling later

theorem behaves_iff_followed (items : List Item) (ops : List (Op Item)) (queue : Queue Item)
    (proper : Proper queue items) (held popped : List Item)
    (legal : fifoRun items ops = some (held, popped)) :
    Behaves queue ops held popped ↔ Followed items ops := by
  induction items, ops using Followed.induct generalizing queue held popped with
  | case1 items =>
    cases legal
    obtain ⟨fuel, size⟩ := size_proper proper
    simp only [Followed, iff_true]
    exact ⟨queue, fuel, rfl, size⟩
  | case2 first second rest ih =>
    obtain ⟨middle, pushed, lone⟩ := push_first queue first (proper_empty proper)
    obtain ⟨next, pushedAgain, properNext⟩ := push_lone second lone
    rw [Followed, behaves_push _ held popped pushed, behaves_push _ held popped pushedAgain]
    exact ih next properNext held popped legal
  | case3 first rest alone =>
    obtain ⟨next, pushed, lone⟩ := push_first queue first (proper_empty proper)
    rw [behaves_push _ held popped pushed, Followed]
    · simp only [iff_false]
      exact not_behaves_lone lone legal alone
    · exact alone
  | case4 rest ih => cases legal
  | case5 first items item rest ih =>
    obtain ⟨next, pushed, properNext⟩ :=
      push_proper item proper (List.cons_ne_nil _ _)
    rw [Followed, behaves_push _ held popped pushed]
    exact ih next properNext held popped legal
  | case6 first items rest ih =>
    obtain ⟨next, taken, properNext⟩ := pop_proper proper
    rw [fifoRun, Option.map_eq_some_iff] at legal
    obtain ⟨⟨last, others⟩, later, same⟩ := legal
    obtain ⟨rfl, rfl⟩ := Prod.mk.inj same
    rw [Followed, behaves_pop rest last others taken]
    exact ih next properNext last others later

/-- A new queue behaves as a mathematical one through exactly the sequences in which each
push into the empty queue is directly followed by another push. -/
theorem queue_fifo_iff (ops : List (Op Item)) (held popped : List Item)
    (legal : fifoRun [] ops = some (held, popped)) :
    Behaves queueNew ops held popped ↔ Followed [] ops := by
  exact behaves_iff_followed [] ops queueNew
    ⟨[], ⟨trivial, rfl, rfl, List.nodup_nil, by simp⟩, rfl⟩ held popped legal

/-- Two pushes and a pop. -/
theorem pushed_twice_popped : Behaves queueNew [.push 1, .push 2, .pop] [2] [1] := by
  exact (queue_fifo_iff [.push 1, .push 2, .pop] [2] [1] rfl).mpr trivial

/-- After one push the size of the queue cannot be taken. -/
theorem pushed_once_endless :
    fifoRun [] [Op.push 1] = some ([1], []) ∧
      (∃ queue, runOps queueNew [Op.push 1] = some (queue, []) ∧
        ∀ fuel, queueSize fuel queue = none) ∧ ¬ Behaves queueNew [.push 1] [1] [] := by
  obtain ⟨next, pushed, lone⟩ := push_first (queueNew : Queue Nat) 1 rfl
  have endless : ∀ fuel, queueSize fuel next = none := size_lone lone
  have ran : runOps queueNew [Op.push 1] = some (next, []) := by
    rw [runOps, pushed]
    rfl
  refine ⟨rfl, ⟨next, ran, endless⟩, ?_⟩
  rintro ⟨final, fuel, same, size⟩
  rw [ran] at same
  cases same
  rw [endless fuel] at size
  cases size

end Cprogramming.Containers.LinkedQueue
