import NativeExpr.Proofs.Construction
import NativeExpr.Proofs.Generation.Informed
import NativeExpr.Proofs.Labeling.Need

/-!
# Labels by their own recursion

What a label is can be said without saying how nodes are visited: by a recursion on the tree alone,
in which a leaf counts where it is a left operand and two operands that need the same number need
one more together. Labeling a root finds exactly these numbers, whatever was labeled before and
however often a shared node is visited, and code generation then never lacks a label.
-/

namespace NativeExpr

namespace Labeling

/-- The registers for two values, without a largest number. -/
def joint (left right : Nat) : Nat := if left = right then left + 1 else max left right

/-- The registers for several values, from the first one to the last. -/
def jointAll : List Nat → Nat
  | [] => 0
  | first :: rest => rest.foldl joint first

/-- Numbers that are cut off at the limit are those for operands that are cut off. -/
theorem combine_min (left right : Nat) :
    combine (min left limit) (min right limit) = min (joint left right) limit := by
  simp only [combine, joint]
  generalize limit = bound
  split <;> split <;> omega

theorem foldl_combine_min (counts : NodeId → Nat) (arguments : List NodeId) (start : Nat) :
    arguments.foldl (fun count argument => combine count (min (counts argument) limit))
        (min start limit) = min ((arguments.map counts).foldl joint start) limit := by
  induction arguments generalizing start with
  | nil => rfl
  | cons argument rest ih => rw [List.foldl_cons, combine_min, ih, List.map_cons, List.foldl_cons]

theorem joint_le {left right most : Nat} (leftLe : left ≤ most + 1) (rightLe : right ≤ most) :
    joint left right ≤ most + 1 := by
  simp only [joint]
  split <;> omega

/-- Several values need one register more than the largest number among them at most. -/
theorem jointAll_le {counts : List Nat} {most : Nat} (bounded : ∀ count ∈ counts, count ≤ most) :
    jointAll counts ≤ most + 1 := by
  have within (rest : List Nat) (bounded : ∀ count ∈ rest, count ≤ most) (start : Nat)
      (small : start ≤ most + 1) : rest.foldl joint start ≤ most + 1 := by
    induction rest generalizing start with
    | nil => exact small
    | cons count rest ih =>
      obtain ⟨here, others⟩ := List.forall_mem_cons.mp bounded
      exact ih others _ (joint_le small here)
  cases counts with
  | nil => exact Nat.zero_le _
  | cons first rest =>
    obtain ⟨here, others⟩ := List.forall_mem_cons.mp bounded
    exact within rest others first (Nat.le_succ_of_le here)

end Labeling

open Labeling (joint jointAll limit)

/-- The registers that an operation needs if its operands need certain numbers of them. Whether the
operation is a left operand matters for a leaf only; the function of a call does not matter. -/
def Operation.count (leads : Bool) (counts : NodeId → Nat) : Operation → Nat
  | .constant _ | .parameter _ => if leads then 1 else 0
  | .arith _ left right => joint (counts left) (counts right)
  | .call _ arguments => jointAll (arguments.map counts)

/-- The registers that a node needs, one at least if it is shared. -/
def Node.count (leads : Bool) (counts : NodeId → Nat) (node : Node) : Nat :=
  let count := node.operation.count leads counts
  if node.isShared then max count 1 else count

/-- Whether every node counts what it needs by the numbers of its operands. The root counts as a
left operand. -/
def Tree.Counts (tree : Tree) (root : NodeId) (counts : NodeId → Nat) : Prop :=
  ∀ id node, tree.node? id = some node →
    counts id = node.count (tree.leads id || id == root) counts

theorem Operation.count_congr {counts others : NodeId → Nat} {operation : Operation}
    (same : ∀ operand ∈ operation.operands, counts operand = others operand) (leads : Bool) :
    operation.count leads counts = operation.count leads others := by
  cases operation with
  | constant bits | parameter index => rfl
  | arith operation left right =>
    simp only [count, same left (by simp [operands]), same right (by simp [operands])]
  | call function arguments =>
    have listed : ∀ argument ∈ arguments, counts argument = others argument :=
      fun argument member => same argument (List.mem_cons_of_mem _ member)
    simp only [count, List.map_congr_left listed]

/-- What an operation needs in its visits is what it counts, cut off at the limit, if that is so of
its operands in the positions that they have. -/
theorem Operation.need_eq_min {needs : NodeId → Bool → Nat} {counts : NodeId → Nat}
    {operation : Operation}
    (leading : ∀ operand, operation.leading? = some operand →
      needs operand true = min (counts operand) limit)
    (trailing : ∀ operand ∈ operation.trailing, needs operand false = min (counts operand) limit)
    (leads : Bool) : operation.need needs leads = min (operation.count leads counts) limit := by
  cases operation with
  | constant bits | parameter index => cases leads <;> rfl
  | arith operation left right =>
    rw [need, count, leading left rfl, trailing right (List.mem_singleton_self right),
      Labeling.combine_min]
  | call function arguments =>
    cases arguments with
    | nil => rfl
    | cons first rest =>
      have later : ∀ argument ∈ rest, needs argument false = min (counts argument) limit :=
        fun argument member => trailing argument (List.mem_cons_of_mem _ member)
      rw [need, count, leading first rfl, List.map_cons, jointAll, ← Labeling.foldl_combine_min]
      exact List.foldl_ext _ _ _ fun count argument member => by rw [later argument member]

theorem Node.need_eq_min {needs : NodeId → Bool → Nat} {counts : NodeId → Nat} {node : Node}
    {leads : Bool}
    (operation : node.operation.need needs leads = min (node.operation.count leads counts) limit) :
    node.need needs leads = min (node.count leads counts) limit := by
  have positive : 1 ≤ limit := by decide
  simp only [need, count, operation]
  split <;> omega

namespace Tree

variable {tree : Tree} {root id : NodeId} {counts : NodeId → Nat}

/-- There are such numbers. -/
theorem Layered.exists_counts (layered : tree.Layered) (root : NodeId) :
    ∃ counts, tree.Counts root counts := by
  let round (counts : NodeId → Nat) (id : NodeId) : Nat :=
    (tree.node? id).elim 0 fun node => node.count (tree.leads id || id == root) counts
  have descends : tree.Descends round := by
    intro id first second same
    cases found : tree.node? id with
    | none => simp only [round, found, Option.elim_none]
    | some node =>
      rw [operandsOf_of_node found] at same
      simp only [round, found, Option.elim_some, Node.count, Operation.count_congr same]
  refine ⟨round^[tree.size] fun _ => 0, fun id node found => ?_⟩
  rw [layered.fixed descends _ (lt_size_of_node found)]
  simp only [round, found, Option.elim_some]

/-- No node needs more registers than there are nodes up to it. -/
theorem Counts.le (defined : tree.Counts root counts) (layered : tree.Layered)
    (exist : id < tree.size) : counts id ≤ id + 1 := by
  induction id using Nat.strongRecOn with
  | ind id ih =>
    have found : tree.node? id = some tree.nodes[id] := Array.getElem?_eq_getElem exist
    have below : ∀ operand ∈ tree.nodes[id].operation.operands, counts operand ≤ id :=
      fun operand uses => by
        have older : operand < id := layered id operand (operandsOf_of_node found ▸ uses)
        exact Nat.le_trans (ih operand older (Nat.lt_trans older exist)) older
    have operation : tree.nodes[id].operation.count (tree.leads id || id == root) counts ≤ id + 1 := by
      cases here : tree.nodes[id].operation with
      | constant bits | parameter index =>
        simp only [Operation.count]
        split <;> omega
      | arith operation left right =>
        rw [here] at below
        have leftBelow := below left List.mem_cons_self
        exact Labeling.joint_le (Nat.le_succ_of_le leftBelow)
          (below right (List.mem_cons_of_mem _ List.mem_cons_self))
      | call function arguments =>
        rw [here] at below
        refine Labeling.jointAll_le fun count listed => ?_
        obtain ⟨argument, member, rfl⟩ := List.mem_map.mp listed
        exact below argument (List.mem_cons_of_mem _ member)
    rw [defined id _ found, Node.count]
    split <;> omega

/-- The labels below a root are the numbers that count, cut off at the limit. -/
theorem Counts.labelBelow_eq (defined : tree.Counts root counts) (layered : tree.Layered)
    (counted : tree.Counted) (exist : root < tree.size) (reached : tree.Reaches root id) :
    tree.labelBelow root id = min (counts id) limit := by
  induction id using Nat.strongRecOn with
  | ind id ih =>
    have within : id < tree.size := Nat.lt_of_le_of_lt (layered.le_of_reaches reached) exist
    have found : tree.node? id = some tree.nodes[id] := Array.getElem?_eq_getElem within
    have own : tree.labelBelow root id = tree.need id (tree.leads id || id == root) := by
      by_cases here : id = root
      · simp [labelBelow, here]
      · have apart : (id == root) = false := beq_false_of_ne here
        rw [labelBelow, Function.update_of_ne here, apart, Bool.or_false, operandNeed]
    have operand (operand : NodeId) (uses : operand ∈ tree.nodes[id].operation.operands) :
        tree.operandNeed operand = min (counts operand) limit := by
      rw [← operandsOf_of_node found] at uses
      have older : operand < id := layered id operand uses
      have apart : operand ≠ root :=
        Nat.ne_of_lt (Nat.lt_of_lt_of_le older (layered.le_of_reaches reached))
      rw [← ih operand older (reached.tail uses), labelBelow, Function.update_of_ne apart]
    have listed := tree.nodes[id].operation.perm_leading_trailing
    rw [own, defined id _ found, layered.need_eq found]
    refine Node.need_eq_min (Operation.need_eq_min (fun leading here => ?_) (fun trails member => ?_) _)
    · rw [need_of_leading found here]
      exact operand leading (listed.mem_iff.mp (List.mem_append_left _ (by simp [here])))
    · rw [layered.need_of_trailing counted found member]
      exact operand trails (listed.mem_iff.mp (List.mem_append_right _ member))

end Tree

namespace Labeling

variable {tree : Tree} {root id : NodeId} {node : Node} {work : Workspace}

/-- Visiting a shared node again, in whatever position, changes no label if everything that the node
needs is labeled as an operand. -/
theorem subtree_again (layered : tree.Layered) (counted : tree.Counted)
    (found : tree.node? id = some node) (shared : node.isShared = true)
    (labeled : ∀ other, tree.Reaches id other →
      work.labels[other]? = some (tree.operandNeed other)) (isLeft : Bool) :
    ∃ again : Workspace, subtree tree id isLeft work = .ok (tree.operandNeed id) again ∧
      ∀ other : NodeId, again.labels[other]? = work.labels[other]? := by
  have exist := Tree.lt_size_of_node found
  have visits := settles_within layered counted tree.size id exist exist
  obtain ⟨again, done, settles⟩ := visits.operand (layered.need_of_shared found shared isLeft _) work
  refine ⟨again, done, fun other => ?_⟩
  by_cases reaches : tree.Reaches id other
  · rw [settles.reached id (List.mem_singleton_self id) other reaches, labeled other reaches]
  · exact settles.others other fun root listed => List.mem_singleton.mp listed ▸ reaches

/-- Below a shared node the labels do not depend on whether the node is the root. -/
theorem labelBelow_of_shared (layered : tree.Layered) (reached : tree.Reaches root id)
    (found : tree.node? id = some node) (shared : node.isShared = true) {other : NodeId}
    (reaches : tree.Reaches id other) : tree.labelBelow root other = tree.operandNeed other := by
  by_cases here : other = root
  · subst here
    obtain rfl := Nat.le_antisymm (layered.le_of_reaches reached) (layered.le_of_reaches reaches)
    rw [Tree.labelBelow, Function.update_self]
    exact layered.need_of_shared found shared true _
  · rw [Tree.labelBelow, Function.update_of_ne here]

end Labeling

open Build in
/-- Labeling a root of a tree that was put together by any calls of the constructors succeeds,
whatever was labeled before. Afterwards every node that the root needs has the number that the
recursion says, as far as the limit goes, which only a node of a number beyond it can reach; other
labels are as before. Neither labeling the root again nor visiting a shared node again, in whatever
position, changes a label, and from these labels code generation never fails for want of one. The
parent counts that tell which nodes are shared are below 2 ^ 32 if there are fewer operand positions
than that. -/
theorem Labeling.root_reference (requests : List Construction) (work : Workspace) (root : NodeId)
    (exist : root < (Tree.ofConstructions requests).size) :
    let tree := Tree.ofConstructions requests
    ∃ (counts : NodeId → Nat) (labeled : Workspace), tree.Counts root counts ∧
      Labeling.root tree root work = .ok (min (counts root) limit) labeled ∧
      LabelsOnly work labeled ∧
      (∀ id, tree.Reaches root id → labeled.labels[id]? = some (min (counts id) limit) ∧
        (id < limit → labeled.labels[id]? = some (counts id))) ∧
      (∀ id, ¬tree.Reaches root id → labeled.labels[id]? = work.labels[id]?) ∧
      (∃ again : Workspace, Labeling.root tree root labeled = .ok (min (counts root) limit) again ∧
        ∀ id : NodeId, again.labels[id]? = labeled.labels[id]?) ∧
      (∀ id node, tree.Reaches root id → tree.node? id = some node → node.isShared = true →
        ∀ isLeft, ∃ again : Workspace,
          subtree tree id isLeft labeled = .ok (min (counts id) limit) again ∧
          ∀ other : NodeId, again.labels[other]? = labeled.labels[other]?) ∧
      ∀ later : Workspace, later.labels = labeled.labels → ∀ hint cause after,
        Generation.visit tree root hint later = .error cause after → ∀ id, cause ≠ .unlabeled id := by
  intro tree
  have sound : tree.Sound requests := Tree.sound_ofConstructions requests
  obtain ⟨counts, defined⟩ := sound.layered.exists_counts root
  have below {id : NodeId} (reached : tree.Reaches root id) :
      tree.labelBelow root id = min (counts id) limit :=
    defined.labelBelow_eq sound.layered sound.counted exist reached
  have own : tree.need root true = min (counts root) limit := by
    rw [← below .refl, Tree.labelBelow, Function.update_self]
  obtain ⟨labeled, done, only, reached, others⟩ :=
    root_settles sound.layered sound.counted exist work
  obtain ⟨again, doneAgain, _, reachedAgain, othersAgain⟩ :=
    root_settles sound.layered sound.counted exist labeled
  rw [own] at done doneAgain
  refine ⟨counts, labeled, defined, done, only, fun id reaches => ?_, others,
    ⟨again, doneAgain, fun id => ?_⟩, fun id node reaches found shared isLeft => ?_,
    fun later same hint cause after failed => ?_⟩
  · rw [reached id reaches, below reaches]
    have within := Nat.lt_of_le_of_lt (sound.layered.le_of_reaches reaches) exist
    refine ⟨rfl, fun small => ?_⟩
    rw [Nat.min_eq_left (Nat.le_trans (defined.le sound.layered within) small)]
  · by_cases reaches : tree.Reaches root id
    · rw [reachedAgain id reaches, reached id reaches]
    · exact othersAgain id reaches
  · have operands (other : NodeId) (deeper : tree.Reaches id other) :
        tree.labelBelow root other = tree.operandNeed other :=
      labelBelow_of_shared sound.layered reaches found shared deeper
    rw [← below reaches, operands id .refl]
    refine subtree_again sound.layered sound.counted found shared (fun other deeper => ?_) isLeft
    rw [reached other (reaches.trans deeper), operands other deeper]
  · have ready : ∀ id, tree.Reaches root id → later.Labels id := fun id reaches =>
      ⟨_, same ▸ reached id reaches⟩
    have informed := (demanding_informed (tree.closed_reaches root)).generative.generates
      tree.size root .refl hint later ready
    rw [Generation.visit] at failed
    rw [failed] at informed
    exact informed

/-- The sum of a parameter and a constant, times the parameter: the constant needs no register, the
parameter one for being shared, and the product one more than the sum. -/
theorem Labeling.root_reference_shared :
    let requests : List Construction := [.parameter .i64 0, .constant .i64 5,
      .arith .add .i64 rfl 0 1, .arith .mul .i64 rfl 2 0]
    3 < (Tree.ofConstructions requests).size ∧ ∃ labeled : Workspace,
      Labeling.root (Tree.ofConstructions requests) 3 (.new ⟨3, 0, 16⟩) = .ok 2 labeled ∧
        [0, 1, 2, 3].map (fun id : NodeId => labeled.labels[id]?) =
          [some 1, some 0, some 1, some 2] := by
  intro requests
  have exist : 3 < (Tree.ofConstructions requests).size := by decide
  obtain ⟨counts, labeled, defined, done, _, labels, _⟩ :=
    Labeling.root_reference requests (.new ⟨3, 0, 16⟩) 3 exist
  have parameter : counts 0 = 1 := defined 0 ⟨.i64, .parameter 0, 2⟩ rfl
  have constant : counts 1 = 0 := defined 1 ⟨.i64, .constant 5, 1⟩ rfl
  have sum : counts 2 = 1 := by
    rw [defined 2 ⟨.i64, .arith .add 0 1, 1⟩ rfl]
    simp only [Node.count, Operation.count, parameter, constant]
    rfl
  have product : counts 3 = 2 := by
    rw [defined 3 ⟨.i64, .arith .mul 2 0, 0⟩ rfl]
    simp only [Node.count, Operation.count, parameter, sum]
    rfl
  have needsSum : (Tree.ofConstructions requests).Reaches 3 2 := .single (by decide)
  rw [product] at done
  refine ⟨exist, labeled, done, ?_⟩
  simp only [List.map_cons, List.map_nil, (labels 0 (needsSum.tail (by decide))).2 (by decide),
    (labels 1 (needsSum.tail (by decide))).2 (by decide), (labels 2 needsSum).2 (by decide),
    (labels 3 .refl).2 (by decide), parameter, constant, sum, product]

end NativeExpr
