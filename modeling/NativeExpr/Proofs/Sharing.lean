import Mathlib.Algebra.Order.BigOperators.Group.List
import Mathlib.Algebra.Order.Group.Nat
import Mathlib.Logic.Relation
import NativeExpr.Proofs.Tree

/-!
# Shared nodes

The constructors count for each node the operand positions that name it, and the count is exact:
a node that is not shared is an operand at one position of the whole tree at most.
-/

namespace NativeExpr

/-- Whether an operation is a call. -/
def Operation.isCall : Operation → Bool
  | .call _ _ => true
  | _ => false

namespace Tree

/-- Whether a node is a call. -/
def isCall (tree : Tree) (id : NodeId) : Bool :=
  (tree.node? id).any fun node => node.operation.isCall

/-- Whether the value of a node is used more than once. -/
def isShared (tree : Tree) (id : NodeId) : Bool := (tree.node? id).any Node.isShared

/-- The operands of a node, in the order of their positions. -/
def operandsOf (tree : Tree) (id : NodeId) : List NodeId :=
  match tree.node? id with
  | some node => node.operation.operands
  | none => []

/-- Whether operands come before the nodes that use them. -/
def Layered (tree : Tree) : Prop := ∀ id, ∀ operand ∈ tree.operandsOf id, operand < id

/-- Whether a node is needed for another one. -/
def Reaches (tree : Tree) : NodeId → NodeId → Prop :=
  Relation.ReflTransGen fun user operand => operand ∈ tree.operandsOf user

/-- Whether the operands of nodes that are needed are needed as well. -/
def Closed (tree : Tree) (needed : NodeId → Prop) : Prop :=
  ∀ id, needed id → ∀ operand ∈ tree.operandsOf id, needed operand

theorem closed_reaches (tree : Tree) (root : NodeId) : tree.Closed (tree.Reaches root) :=
  fun _ reaches _ uses => reaches.tail uses

/-- The number of operand positions of the tree that name a node. -/
def uses (tree : Tree) (id : NodeId) : Nat :=
  ((List.range tree.size).map fun user => (tree.operandsOf user).count id).sum

variable {tree : Tree} {id : NodeId} {kind : Kind} {operation : Operation}

theorem operandsOf_of_node {node : Node} (found : tree.node? id = some node) :
    tree.operandsOf id = node.operation.operands := by
  simp only [operandsOf, found]

theorem isShared_of_node {node : Node} (found : tree.node? id = some node) :
    tree.isShared id = node.isShared := by
  simp only [isShared, found, Option.any_some]

theorem isCall_of_node {node : Node} (found : tree.node? id = some node) :
    tree.isCall id = node.operation.isCall := by
  simp only [isCall, found, Option.any_some]

theorem Formed.operandsOf_lt (formed : tree.Formed) {operand : NodeId}
    (member : operand ∈ tree.operandsOf id) : operand < id := by
  cases found : tree.node? id with
  | none => simp [operandsOf, found] at member
  | some node =>
    rw [operandsOf_of_node found] at member
    exact formed.operands id node operand found member

theorem Formed.layered (formed : tree.Formed) : tree.Layered := fun _ _ => formed.operandsOf_lt

/-- Nothing is needed for a node but the node and what comes before it. -/
theorem Layered.le_of_reaches (layered : tree.Layered) {root : NodeId}
    (reached : tree.Reaches root id) : id ≤ root := by
  induction reached with
  | refl => exact Nat.le_refl _
  | tail _ uses ih => exact Nat.le_trans (Nat.le_of_lt (layered _ _ uses)) ih

theorem Formed.le_of_reaches (formed : tree.Formed) {root : NodeId}
    (reached : tree.Reaches root id) : id ≤ root :=
  formed.layered.le_of_reaches reached

/-- Each position that names a node adds one to its count. -/
theorem parents_addParent (nodes : Array Node) (operands : List NodeId) (position : Nat) :
    ((operands.foldl addParent nodes)[position]?).map Node.parents =
      nodes[position]?.map fun node => node.parents + operands.count position := by
  induction operands generalizing nodes with
  | nil => rfl
  | cons operand rest ih =>
    rw [List.foldl_cons, ih, addParent, Array.getElem?_modify, List.count_cons]
    by_cases here : operand = position
    · rw [if_pos here, Option.map_map]
      simp only [here, beq_self_eq_true, if_true, Function.comp_def]
      congr 1
      funext node
      exact (Nat.add_assoc ..).trans (congrArg _ (Nat.add_comm ..))
    · simp [here]

theorem operandsOf_append (tree : Tree) (kind : Kind) (operation : Operation)
    (older : id < tree.size) : (tree.append kind operation).2.operandsOf id = tree.operandsOf id := by
  have core := core_append tree kind operation older
  simp only [operandsOf]
  cases here : (tree.append kind operation).2.node? id <;> cases there : tree.node? id <;>
    simp_all

theorem node_append_size (tree : Tree) (kind : Kind) (operation : Operation) :
    (tree.append kind operation).2.node? tree.size = some ⟨kind, operation, 0⟩ := by
  have size : (operation.operands.foldl addParent tree.nodes).size = tree.size :=
    size_addParent tree.nodes operation.operands
  rw [node?, append, ← size]
  exact Array.getElem?_push_size

/-- The node that is appended adds its operand positions to the uses. -/
theorem uses_append (tree : Tree) (kind : Kind) (operation : Operation) (id : NodeId) :
    (tree.append kind operation).2.uses id = tree.uses id + operation.operands.count id := by
  have older : (List.range tree.size).map
      (fun user => ((tree.append kind operation).2.operandsOf user).count id) =
      (List.range tree.size).map fun user => (tree.operandsOf user).count id := by
    apply List.map_congr_left
    intro user member
    rw [operandsOf_append _ _ _ (List.mem_range.mp member)]
  rw [uses, size_append, List.range_succ, List.map_append, List.sum_append, older]
  simp [operandsOf_of_node (node_append_size tree kind operation), uses]

/-- An operation on nodes that exist may be appended. -/
theorem Layered.append (layered : tree.Layered)
    (operands : ∀ operand ∈ operation.operands, operand < tree.size) :
    (tree.append kind operation).2.Layered := by
  intro id operand uses
  by_cases older : id < tree.size
  · rw [operandsOf_append _ _ _ older] at uses
    exact layered id operand uses
  · refine Nat.lt_of_lt_of_le (operands operand ?_) (Nat.not_lt.mp older)
    cases found : (tree.append kind operation).2.node? id with
    | none => simp [operandsOf, found] at uses
    | some node =>
      rw [operandsOf_of_node found] at uses
      rcases of_node_append found with ⟨_, rfl⟩ | ⟨old, here, _⟩
      · exact uses
      · exact absurd (lt_size_of_node here) older

/-- A node that does not exist yet has no uses. -/
theorem Layered.uses_size (layered : tree.Layered) : tree.uses tree.size = 0 := by
  rw [uses, List.sum_eq_zero_iff]
  intro count member
  obtain ⟨user, within, rfl⟩ := List.mem_map.mp member
  apply List.count_eq_zero_of_not_mem
  intro used
  have older : tree.size < user := layered user tree.size used
  exact absurd older (Nat.not_lt.mpr (Nat.le_of_lt (List.mem_range.mp within)))

/-- Whether the parent counts of nodes are the numbers of their uses. Where counts have 32 bits, what
rests on this is about trees of fewer than 2 ^ 32 operand positions. -/
def Counted (tree : Tree) : Prop :=
  ∀ id node, tree.node? id = some node → node.parents = tree.uses id

theorem Counted.append (counted : tree.Counted) (layered : tree.Layered)
    (operands : ∀ operand ∈ operation.operands, operand < tree.size) :
    (tree.append kind operation).2.Counted := by
  intro id node found
  rw [uses_append]
  by_cases older : id < tree.size
  · have within : id ≠ (operation.operands.foldl addParent tree.nodes).size := by
      rw [size_addParent]
      exact Nat.ne_of_lt older
    have parents := parents_addParent tree.nodes operation.operands id
    simp only [Tree.append, node?, Array.getElem?_push, if_neg within] at found
    rw [found, Option.map_some] at parents
    obtain ⟨old, here, same⟩ := Option.map_eq_some_iff.mp parents.symm
    rw [← same, counted id old here]
  · have last := Nat.lt_succ_iff.mp (size_append tree kind operation ▸ lt_size_of_node found)
    obtain rfl := Nat.le_antisymm last (Nat.not_lt.mp older)
    rw [node_append_size] at found
    obtain rfl := Option.some.inj found
    rw [layered.uses_size, List.count_eq_zero_of_not_mem]
    intro member
    exact absurd (operands _ member) (Nat.lt_irrefl _)

/-- The constructors count the uses of nodes. -/
theorem Built.counted (built : tree.Built) : tree.Counted := by
  induction built with
  | empty =>
    intro id node found
    cases found
  | constant built kind bits ih =>
    exact ih.append built.formed.layered (by simp [Operation.operands])
  | parameter built kind index ih =>
    exact ih.append built.formed.layered (by simp [Operation.operands])
  | @arith tree later operation kind left right id built done ih =>
    obtain ⟨⟨leftOlder, _⟩, ⟨rightOlder, _⟩, rfl⟩ := of_arith done
    exact ih.append built.formed.layered (by simp [Operation.operands, leftOlder, rightOlder])
  | @call tree later function id signature arguments built few done ih =>
    obtain ⟨_, _, older, rfl⟩ := of_call done
    exact ih.append built.formed.layered older

/-- A node that is not shared has one use at most. -/
theorem Counted.uses_le_one (counted : tree.Counted) (found : id < tree.size)
    (single : tree.isShared id = false) : tree.uses id ≤ 1 := by
  have node : tree.node? id = some tree.nodes[id] := Array.getElem?_eq_getElem found
  rw [isShared_of_node node, Node.isShared, decide_eq_false_iff_not, Nat.not_lt] at single
  rwa [← counted id _ node]

end Tree

end NativeExpr
