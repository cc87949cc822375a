import Mathlib.Logic.Function.Iterate
import NativeExpr.Generation.Basic
import NativeExpr.Labeling
import NativeExpr.Proofs.Generation.Staging
import NativeExpr.Proofs.Sharing

/-!
# Visits descend to operands

Labeling or generating a node visits its operands and no other nodes. Where operands come before
the nodes that use them, a visit of a node is therefore over after as many levels as the node has
predecessors, and it makes no difference what visits of a deeper level would do, if they would end
at all.
-/

namespace NativeExpr

/-- Whether what is done for a node depends on what is done for its operands only. -/
def Tree.Descends {α : Type} (tree : Tree) (round : (NodeId → α) → NodeId → α) : Prop :=
  ∀ (id : NodeId) (first second : NodeId → α),
    (∀ operand ∈ tree.operandsOf id, first operand = second operand) →
      round first id = round second id

/-- Two visits of a node do the same if they go on for more levels than the node has predecessors,
whatever they would do beyond. -/
theorem Tree.Layered.iterate_eq {α : Type} {tree : Tree} {round : (NodeId → α) → NodeId → α}
    (layered : tree.Layered) (descends : tree.Descends round) (first second : NodeId → α)
    (id : NodeId) {depth other : Nat} (deep : id < depth) (otherDeep : id < other) :
    round^[depth] first id = round^[other] second id := by
  induction depth generalizing other id with
  | zero => exact absurd deep (Nat.not_lt_zero id)
  | succ depth ih =>
    obtain ⟨other, rfl⟩ := Nat.exists_eq_add_one_of_ne_zero (Nat.ne_zero_of_lt otherDeep)
    rw [Function.iterate_succ_apply', Function.iterate_succ_apply']
    refine descends id _ _ fun operand uses => ?_
    have older : operand < id := layered id operand uses
    exact ih operand (Nat.lt_of_lt_of_le older (Nat.le_of_lt_succ deep))
      (Nat.lt_of_lt_of_le older (Nat.le_of_lt_succ otherDeep))

/-- As many levels as there are nodes are enough: one more makes no difference. -/
theorem Tree.Layered.fixed {α : Type} {tree : Tree} {round : (NodeId → α) → NodeId → α}
    (layered : tree.Layered) (descends : tree.Descends round) (start : NodeId → α) {id : NodeId}
    (exist : id < tree.size) :
    round^[tree.size] start id = round (round^[tree.size] start) id := by
  rw [← Function.iterate_succ_apply' round]
  exact layered.iterate_eq descends start start id exist (Nat.lt_succ_of_lt exist)

/-- A visit that goes on for more levels than its root has predecessors does what one of as many
levels as there are nodes does, if both end in the same way where there is no node. -/
theorem Tree.Layered.iterate_eq_size {α : Type} {tree : Tree} {round : (NodeId → α) → NodeId → α}
    (layered : tree.Layered) (descends : tree.Descends round) {stuck : NodeId → α}
    (missing : ∀ visit id, tree.node? id = none → round visit id = stuck id)
    (deeper : NodeId → α) {id : NodeId} {depth : Nat} (deep : id < depth) :
    round^[depth] deeper id = round^[tree.size] stuck id := by
  by_cases exist : id < tree.size
  · exact layered.iterate_eq descends deeper stuck id deep exist
  · have absent : tree.node? id = none := Array.getElem?_eq_none (Nat.not_lt.mp exist)
    obtain ⟨depth, rfl⟩ := Nat.exists_eq_add_one_of_ne_zero (Nat.ne_zero_of_lt deep)
    rw [Function.iterate_succ_apply', missing _ id absent]
    cases tree.size with
    | zero => rfl
    | succ size => rw [Function.iterate_succ_apply', missing _ id absent]

namespace Labeling

variable {tree : Tree} {first second : Visit}

theorem laterArguments_congr {arguments : List NodeId}
    (same : ∀ argument ∈ arguments, first argument = second argument) (count : Nat) :
    laterArguments tree first count arguments = laterArguments tree second count arguments := by
  induction arguments generalizing count with
  | nil => rfl
  | cons argument rest ih =>
    have others := ih fun other listed => same other (List.mem_cons_of_mem _ listed)
    simp only [laterArguments, same argument List.mem_cons_self, others]

theorem operation_congr {operation : Operation}
    (same : ∀ operand ∈ operation.operands, first operand = second operand) (isLeft : Bool) :
    Labeling.operation tree first isLeft operation =
      Labeling.operation tree second isLeft operation := by
  cases operation with
  | constant bits | parameter index => rfl
  | arith operation left right =>
    have leftSame := same left List.mem_cons_self
    have rightSame := same right (List.mem_cons_of_mem _ List.mem_cons_self)
    simp only [Labeling.operation, leftSame, rightSame]
  | call function operands =>
    have functionSame := same function List.mem_cons_self
    have listed : ∀ operand ∈ operands, first operand = second operand :=
      fun operand member => same operand (List.mem_cons_of_mem _ member)
    cases operands with
    | nil => simp only [Labeling.operation, arguments, functionSame]
    | cons argument rest =>
      have later : ∀ other ∈ rest, first other = second other :=
        fun other member => listed other (List.mem_cons_of_mem _ member)
      simp only [Labeling.operation, arguments, functionSame, listed argument List.mem_cons_self,
        laterArguments_congr later]

theorem node_missing {id : NodeId} (visit : Visit) (absent : tree.node? id = none) :
    node tree visit id = fun _ => throw (.invalidNode id) := by
  funext isLeft
  simp only [node, Tree.node_missing absent]
  rfl

/-- Labeling a node labels its operands and no other nodes. -/
theorem node_descends (tree : Tree) : tree.Descends (node tree) := by
  intro id first second same
  cases found : tree.node? id with
  | none => rw [node_missing first found, node_missing second found]
  | some here =>
    funext isLeft
    rw [Tree.operandsOf_of_node found] at same
    simp only [node, Build.node_ok found, Build.lift, pure_bind, operation_congr same]

theorem within_eq_iterate (tree : Tree) (depth : Nat) :
    within tree depth = (node tree)^[depth] fun id _ => throw (.invalidNode id) := by
  induction depth with
  | zero => rfl
  | succ depth ih => rw [Function.iterate_succ_apply', ← ih, within]

/-- Labeling a root has ended after as many levels as the root has predecessors. -/
theorem iterate_node_eq_subtree (layered : tree.Layered) (deeper : Visit) {id : NodeId}
    {depth : Nat} (deep : id < depth) : (node tree)^[depth] deeper id = subtree tree id := by
  rw [subtree, within_eq_iterate]
  exact layered.iterate_eq_size (node_descends tree) (fun visit _ => node_missing visit) deeper deep

end Labeling

namespace Generation

variable {tree : Tree} {first second : Visit}

theorem evaluateInOrder_congr {demands : List Stage.Demand}
    (same : ∀ demand ∈ demands, first demand.argument.node = second demand.argument.node) :
    Stage.evaluateInOrder tree first demands = Stage.evaluateInOrder tree second demands := by
  induction demands with
  | nil => rfl
  | cons demand rest ih =>
    have others := ih fun other listed => same other (List.mem_cons_of_mem _ listed)
    simp only [Stage.evaluateInOrder, same demand List.mem_cons_self, others]

theorem evaluate_congr {stage : Stage}
    (same : ∀ argument ∈ stage.arguments, first argument.node = second argument.node) :
    stage.evaluate tree first = stage.evaluate tree second := by
  funext work
  simp only [Stage.evaluate, Bind.bind, EStateM.bind]
  cases asked : Stage.demands tree 0 stage.arguments work with
  | error cause after => rfl
  | ok demands after =>
    obtain ⟨_, arguments, _⟩ := Stage.of_demands asked
    have listed : ∀ demand ∈ Stage.heaviestFirst demands,
        first demand.argument.node = second demand.argument.node := by
      intro demand member
      refine same demand.argument (arguments ▸ List.mem_map_of_mem ?_)
      exact (Stage.perm_heaviestFirst demands).mem_iff.mp member
    simp only [evaluateInOrder_congr listed]

theorem operation_congr {operation : Operation}
    (same : ∀ operand ∈ operation.operands, first operand = second operand) (id : NodeId)
    (kind : Kind) (hint : Option Register) :
    Generation.operation tree first id kind hint operation =
      Generation.operation tree second id kind hint operation := by
  cases operation with
  | constant bits | parameter index => rfl
  | arith operation left right =>
    have leftSame := same left List.mem_cons_self
    have rightSame := same right (List.mem_cons_of_mem _ List.mem_cons_self)
    simp only [Generation.operation, arith, operands, leftSame, rightSame]
  | call function arguments =>
    have functionSame := same function List.mem_cons_self
    simp only [Generation.operation]
    cases staged : Stage.ofArguments tree arguments with
    | error cause => rfl
    | ok stage =>
      have nodes := (Stage.of_ofArguments staged).nodes
      have listed : ∀ argument ∈ stage.arguments, first argument.node = second argument.node :=
        fun argument member =>
          same argument.node (List.mem_cons_of_mem _ (nodes ▸ List.mem_map_of_mem member))
      simp only [Build.lift, pure_bind, Stage.emitCall, functionSame, evaluate_congr listed]

theorem node_missing {id : NodeId} (visit : Visit) (absent : tree.node? id = none) :
    node tree visit id = fun _ => throw (.invalidNode id) := by
  funext hint
  simp only [node, Tree.node_missing absent]
  rfl

/-- Generating a node generates its operands and no other nodes. -/
theorem node_descends (tree : Tree) : tree.Descends (node tree) := by
  intro id first second same
  cases found : tree.node? id with
  | none => rw [node_missing first found, node_missing second found]
  | some here =>
    funext hint
    rw [Tree.operandsOf_of_node found] at same
    simp only [node, Build.node_ok found, Build.lift, pure_bind, operation_congr same]

theorem within_eq_iterate (tree : Tree) (depth : Nat) :
    within tree depth = (node tree)^[depth] fun id _ => throw (.invalidNode id) := by
  induction depth with
  | zero => rfl
  | succ depth ih => rw [Function.iterate_succ_apply', ← ih, within]

/-- Generating a root has ended after as many levels as the root has predecessors. -/
theorem iterate_node_eq_visit (layered : tree.Layered) (deeper : Visit) {id : NodeId}
    {depth : Nat} (deep : id < depth) : (node tree)^[depth] deeper id = visit tree id := by
  rw [Generation.visit, within_eq_iterate]
  exact layered.iterate_eq_size (node_descends tree) (fun visit _ => node_missing visit) deeper deep

end Generation

end NativeExpr
