import Cprogramming.Pfexec.PreparedEnvironment

/-!
# The slots `flattenenv` fills

`flattenenv` trusts the node count of the tree: it allocates one slot more and stores a
string for every node and a null pointer behind them. A store outside the allocated
slots ends the run.
-/

namespace Cprogramming.Pfexec.EnvironmentSlots

open Library.CStrings Library.OrderedTree
open Protocol Rules Environment Decision PreparedEnvironment

set_option autoImplicit false

/-- What a slot of `envp` holds; `reallocarray` leaves it unset. -/
inductive Slot where
  | unset
  | null
  | text (entry : CString)
deriving DecidableEq

def storeSlot (envp : List Slot) (index : Nat) (slot : Slot) : Option (List Slot) :=
  if index < envp.length then some (envp.set index slot) else none

/-- The string `asprintf` makes of a node. -/
def nodeText (node : EnvNode) : CString :=
  (node.key.append (CString.ofBytes [equalsSign])).append node.value

/-- The loop over the nodes that are left, and the store behind it. -/
def flattenNodes : List EnvNode → Env → Nat → List Slot → Option (Env × List Slot)
  | [], env, index, envp => (storeSlot envp index .null).map fun stored => (env, stored)
  | node :: rest, env, index, envp =>
    (storeSlot envp index (.text (nodeText node))).bind fun stored =>
      flattenNodes rest ⟨rbRemove envcmp node env.root, env.count - 1⟩ (index + 1) stored

def flattenSlots (env : Env) : Option (Env × List Slot) :=
  flattenNodes env.root env 0 (List.replicate (env.count + 1) .unset)

theorem store_slot_next (front : List Slot) (slot : Slot) (count : Nat) :
    storeSlot (front ++ List.replicate (count + 1) .unset) front.length slot =
      some ((front ++ [slot]) ++ List.replicate count .unset) := by
  have inside : front.length < (front ++ List.replicate (count + 1) Slot.unset).length := by
    simp only [List.length_append, List.length_replicate]
    omega
  rw [storeSlot, if_pos inside, List.set_append_right _ _ (Nat.le_refl _), Nat.sub_self,
    List.replicate_succ, List.set_cons_zero, List.append_assoc, List.singleton_append]

/-- The loop removes the first node of the tree in every round. -/
theorem flatten_nodes_eq (nodes : List EnvNode) (front : List Slot) :
    flattenNodes nodes ⟨nodes, nodes.length⟩ front.length
        (front ++ List.replicate (nodes.length + 1) .unset) =
      some (⟨[], 0⟩, front ++ nodes.map (fun node => .text (nodeText node)) ++ [.null]) := by
  induction nodes generalizing front with
  | nil =>
    rw [flattenNodes, List.length_nil, store_slot_next front .null 0]
    simp
  | cons node rest ih =>
    have removed : rbRemove envcmp node (node :: rest) = rest := by
      have same : envcmp node node = 0 := strcmp_self node.key.bytes
      simp [rbRemove, same]
    have later := ih (front ++ [.text (nodeText node)])
    rw [List.length_append, List.length_singleton] at later
    rw [flattenNodes, List.length_cons, store_slot_next front _ (rest.length + 1),
      Option.bind_some, removed, Nat.add_sub_cancel, later]
    simp

theorem flatten_slots_eq {env : Env} (sound : Sound env) :
    flattenSlots env = some (⟨[], 0⟩, (flattenenv env).map .text ++ [.null]) := by
  obtain ⟨root, count⟩ := env
  have counted : count = root.length := sound.counted
  rw [flattenSlots, counted]
  have flattened := flatten_nodes_eq root []
  simp only [List.length_nil, List.nil_append] at flattened
  rw [flattened, flattenenv, List.map_map]
  rfl

theorem node_text_name {node : EnvNode} (plain : equalsSign ∉ node.key.bytes) :
    (nodeText node).before equalsSign = node.key := by
  apply before_of_split _ node.key equalsSign node.value.bytes _ plain
  change (node.key.bytes ++ [equalsSign]) ++ node.value.bytes = _
  rw [List.append_assoc, List.singleton_append]

theorem flattened_names_increase {env : Env} (sound : Sound env) :
    (flattenenv env).Pairwise fun left right =>
      strcmp (left.before equalsSign).bytes (right.before equalsSign).bytes < 0 := by
  apply List.pairwise_map.mpr
  apply sound.ordered.imp_of_mem
  intro left right isNode isLater increases
  change strcmp ((nodeText left).before equalsSign).bytes
    ((nodeText right).before equalsSign).bytes < 0
  rw [node_text_name (sound.plain left isNode), node_text_name (sound.plain right isLater)]
  exact (envcmp_compares.less left right).mpr increases

theorem keys_distinct {env : Env} (sound : Sound env) : (env.root.map EnvNode.key).Nodup := by
  apply List.pairwise_map.mpr
  apply sound.ordered.imp
  intro left right increases same
  rw [(env_key_eq_iff left right).mpr same] at increases
  exact lt_irrefl _ increases

/-- The trees behind `createenv` and behind an iteration of `fillenv`, which `createenv`
calls for the copy set and `prepenv` for the list of the rule. -/
inductive Filled (rule : Rule) (targpw : Passwd) (myEnv : List CString) : Env → Prop
  | copied (done rest : List CString) (split : copyset = done ++ rest) :
      Filled rule targpw myEnv (fillenv (fixedEnv rule targpw) done myEnv)
  | created : Filled rule targpw myEnv (createenv rule targpw myEnv)
  | assigned (done rest : List CString) (split : rule.envlist = some (done ++ rest)) :
      Filled rule targpw myEnv (fillenv (createenv rule targpw myEnv) done myEnv)

theorem filled_sound {rule : Rule} {targpw : Passwd} {myEnv : List CString} {env : Env}
    (filled : Filled rule targpw myEnv env) : Sound env := by
  have created := (createenv_spec rule targpw myEnv).1
  cases filled with
  | copied done rest split =>
    exact (fillenv_spec myEnv _ (fixed_env_spec rule targpw).1 done).1
  | created => exact created
  | assigned done rest split => exact (fillenv_spec myEnv _ created done).1

/-- The count is that of the nodes at every such point, so that the strings and the null
pointer fill the allocated slots. -/
theorem environment_counted (rule : Rule) (targpw : Passwd) (myEnv : List CString) (env : Env)
    (filled : Filled rule targpw myEnv env) : env.count = env.root.length ∧
      (env.root.map EnvNode.key).Nodup ∧ (∀ node ∈ env.root, equalsSign ∉ node.key.bytes) ∧
      flattenSlots env = some (⟨[], 0⟩, (flattenenv env).map .text ++ [.null]) ∧
      (flattenenv env).length = env.count ∧ (flattenenv env).Pairwise fun left right =>
        strcmp (left.before equalsSign).bytes (right.before equalsSign).bytes < 0 := by
  have sound := filled_sound filled
  refine ⟨sound.counted, keys_distinct sound, sound.plain, flatten_slots_eq sound, ?_,
    flattened_names_increase sound⟩
  rw [flattenenv, List.length_map, sound.counted]

/-- The tree for `setenvAlice` once `TERM`, which was copied, is deleted again. -/
def termDeleted : Env :=
  fillenv (createenv setenvAlice rootEntry [CString.ofString "TERM=vt220"])
    (["TMPDIR", "-TERM"].map CString.ofString) [CString.ofString "TERM=vt220"]

theorem term_deleted_counted :
    Filled setenvAlice rootEntry [CString.ofString "TERM=vt220"] termDeleted ∧
      termDeleted.count = termDeleted.root.length ∧
      flattenSlots termDeleted = some (⟨[], 0⟩, (flattenenv termDeleted).map .text ++ [.null]) := by
  have filled : Filled setenvAlice rootEntry [CString.ofString "TERM=vt220"] termDeleted :=
    .assigned _ [CString.ofString "EDITOR=$VISUAL"] rfl
  obtain ⟨counted, _, _, slots, _⟩ := environment_counted _ _ _ _ filled
  exact ⟨filled, counted, slots⟩

end Cprogramming.Pfexec.EnvironmentSlots
