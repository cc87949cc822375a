import Mathlib.Data.List.Induction
import NativeExpr.Proofs.Descent

/-!
# Sequences of constructor calls

Whatever the host asks the constructors for, with whatever handles and whether it is granted or
not, the tree stays well formed: operands come before the nodes that use them and have the kinds
that are asked of them, and parent counts are the numbers of operand positions. Labeling and
generating such a tree therefore comes to an end.
-/

namespace NativeExpr

/-- Whether values of a kind are integers. There is no arithmetic on others. -/
def Kind.isInteger : Kind → Bool
  | .i32 | .u32 | .i64 | .u64 => true
  | .f32 | .f64 | .ptr => false

/-- A call of a constructor. The handles need not be of the tree that the constructor belongs to;
the types of the host see to it only that arithmetic is on integers. -/
inductive Construction where
  | constant (kind : Kind) (bits : Word)
  | parameter (kind : Kind) (index : Nat)
  | arith (operation : Arithmetic) (kind : Kind) (integer : kind.isInteger = true)
      (left right : NodeId)
  | call (function : NodeId) (signature : Signature) (arguments : List Handle)

namespace Construction

/-- The node that is asked for with the tree that has it, or the reason why it is refused. -/
def build (tree : Tree) : Construction → Except CompileError (NodeId × Tree)
  | .constant kind bits => .ok (tree.constant kind bits)
  | .parameter kind index => .ok (tree.parameter kind index)
  | .arith operation kind _ left right => tree.arith operation kind left right
  | .call function signature arguments => tree.call function signature arguments

/-- The tree after a call of a constructor. -/
def leaves (tree : Tree) (request : Construction) : Tree :=
  match request.build tree with
  | .ok (_, later) => later
  | .error _ => tree

end Construction

namespace Tree

/-- The tree after calls of the constructors, the first one on the tree without nodes. -/
def ofConstructions (requests : List Construction) : Tree :=
  requests.foldl Construction.leaves empty

/-- The number of operand positions of the tree. -/
def edges (tree : Tree) : Nat :=
  ((List.range tree.size).map fun user => (tree.operandsOf user).length).sum

/-- Whether a node is the result of a call that was asked for under a signature, with handles of
the given arguments. -/
def Requested (requests : List Construction) (id function : NodeId) (signature : Signature)
    (arguments : List NodeId) : Prop :=
  ∃ earlier handles later, requests = earlier ++ .call function signature handles :: later ∧
    (ofConstructions earlier).size = id ∧ handles.map Handle.id = arguments

/-- What is true of the tree that calls of the constructors leave. -/
structure Sound (requests : List Construction) (tree : Tree) : Prop where
  layered : tree.Layered
  counted : tree.Counted
  arith : ∀ id node operation left right, tree.node? id = some node →
    node.operation = .arith operation left right →
      node.kind.isInteger = true ∧ tree.kindOf left = node.kind ∧ tree.kindOf right = node.kind
  call : ∀ id node function arguments, tree.node? id = some node →
    node.operation = .call function arguments →
      tree.kindOf function = .ptr ∧ ∃ signature, Requested requests id function signature arguments ∧
        arguments.map tree.kindOf = signature.parameters ∧ node.kind = signature.result

variable {tree later : Tree} {requests : List Construction} {request : Construction}
  {kind : Kind} {operation : Operation} {id function : NodeId} {signature : Signature}
  {arguments : List NodeId}

theorem ofConstructions_append_singleton (requests : List Construction) (request : Construction) :
    ofConstructions (requests ++ [request]) = request.leaves (ofConstructions requests) := by
  rw [ofConstructions, List.foldl_append]
  rfl

/-- What follows a call that is refused is as if the call had not been made. -/
theorem ofConstructions_of_refused {cause : CompileError}
    (refused : request.build (ofConstructions requests) = .error cause)
    (later : List Construction) :
    ofConstructions (requests ++ request :: later) = ofConstructions (requests ++ later) := by
  have same : request.leaves (ofConstructions requests) = ofConstructions requests := by
    simp only [Construction.leaves, refused]
  rw [ofConstructions] at same ⊢
  rw [ofConstructions, List.foldl_append, List.foldl_cons, same, List.foldl_append]

/-- No node has more uses than there are operand positions. -/
theorem uses_le_edges (tree : Tree) (id : NodeId) : tree.uses id ≤ tree.edges :=
  List.sum_le_sum fun _ _ => List.count_le_length

theorem Requested.concat (requested : Requested requests id function signature arguments)
    (request : Construction) :
    Requested (requests ++ [request]) id function signature arguments := by
  obtain ⟨earlier, handles, later, rfl, size, same⟩ := requested
  exact ⟨earlier, handles, later ++ [request], by simp, size, same⟩

theorem Requested.last (requests : List Construction) (function : NodeId) (signature : Signature)
    (handles : List Handle) :
    Requested (requests ++ [.call function signature handles]) (ofConstructions requests).size
      function signature (handles.map Handle.id) :=
  ⟨requests, handles, [], rfl, rfl, rfl⟩

theorem Sound.refuse (sound : tree.Sound requests) (request : Construction) :
    tree.Sound (requests ++ [request]) where
  layered := sound.layered
  counted := sound.counted
  arith := sound.arith
  call id node function arguments found here := by
    obtain ⟨pointer, signature, requested, agree⟩ := sound.call id node function arguments found here
    exact ⟨pointer, signature, requested.concat request, agree⟩

/-- The operands of a node keep their kinds when a node is appended. -/
theorem Layered.kindOf_operand (layered : tree.Layered)
    (operands : ∀ operand ∈ operation.operands, operand < tree.size) {node : Node}
    (found : (tree.append kind operation).2.node? id = some node) (operand : NodeId)
    (member : operand ∈ node.operation.operands) :
    (tree.append kind operation).2.kindOf operand = tree.kindOf operand := by
  apply kindOf_append
  rcases of_node_append found with ⟨_, rfl⟩ | ⟨old, here, _, same⟩
  · exact operands operand member
  · rw [← same, ← operandsOf_of_node here] at member
    exact Nat.lt_trans (layered id operand member) (lt_size_of_node here)

/-- A node may be appended if its operands exist and have the kinds that are asked of them. -/
theorem Sound.append (sound : tree.Sound requests) (request : Construction)
    (operands : ∀ operand ∈ operation.operands, operand < tree.size)
    (arith : ∀ combine left right, operation = .arith combine left right →
      kind.isInteger = true ∧ tree.kindOf left = kind ∧ tree.kindOf right = kind)
    (call : ∀ function arguments, operation = .call function arguments →
      tree.kindOf function = .ptr ∧ ∃ signature,
        Requested (requests ++ [request]) tree.size function signature arguments ∧
          arguments.map tree.kindOf = signature.parameters ∧ kind = signature.result) :
    (tree.append kind operation).2.Sound (requests ++ [request]) where
  layered := sound.layered.append operands
  counted := sound.counted.append sound.layered operands
  arith id node combine left right found here := by
    have same := sound.layered.kindOf_operand operands found
    rw [here] at same
    rw [same left List.mem_cons_self, same right (List.mem_cons_of_mem _ List.mem_cons_self)]
    rcases of_node_append found with ⟨rfl, rfl⟩ | ⟨old, there, kinds, agree⟩
    · exact arith combine left right here
    · rw [← kinds]
      exact sound.arith id old combine left right there (agree.trans here)
  call id node function arguments found here := by
    have same := sound.layered.kindOf_operand operands found
    rw [here] at same
    rw [same function List.mem_cons_self,
      List.map_congr_left fun argument listed => same argument (List.mem_cons_of_mem _ listed)]
    rcases of_node_append found with ⟨rfl, rfl⟩ | ⟨old, there, kinds, agree⟩
    · exact call function arguments here
    · obtain ⟨pointer, signature, requested, expected⟩ :=
        sound.call id old function arguments there (agree.trans here)
      exact ⟨pointer, signature, requested.concat request, expected.1, kinds ▸ expected.2⟩

/-- A call of a constructor, granted or not, leaves a tree on which the calls so far are accounted
for. -/
theorem Sound.leaves (sound : (ofConstructions requests).Sound requests)
    (request : Construction) :
    (request.leaves (ofConstructions requests)).Sound (requests ++ [request]) := by
  rw [Construction.leaves]
  cases done : request.build (ofConstructions requests) with
  | error cause => exact sound.refuse request
  | ok made =>
    obtain ⟨id, later⟩ := made
    cases request with
    | constant kind bits | parameter kind index =>
      obtain ⟨rfl, rfl⟩ := Prod.mk.inj (Except.ok.inj done)
      exact sound.append _ (by simp [Operation.operands]) (by simp) (by simp)
    | arith operation kind integer left right =>
      obtain ⟨⟨leftOlder, leftKind⟩, ⟨rightOlder, rightKind⟩, rfl⟩ := of_arith done
      refine sound.append _ ?_ ?_ (by simp)
      · simp [Operation.operands, leftOlder, rightOlder]
      · rintro _ _ _ ⟨⟩
        exact ⟨integer, leftKind, rightKind⟩
    | call function signature handles =>
      obtain ⟨pointer, kinds, older, rfl⟩ := of_call done
      refine sound.append _ older (by simp) ?_
      rintro _ _ ⟨⟩
      exact ⟨pointer, signature, .last requests function signature handles, kinds, rfl⟩

theorem sound_ofConstructions (requests : List Construction) :
    (ofConstructions requests).Sound requests := by
  induction requests using List.reverseRecOn with
  | nil =>
    have none (id : NodeId) : (ofConstructions []).node? id = none := rfl
    constructor
    · intro id operand member
      simp [operandsOf, none] at member
    · intro id node found
      simp [none] at found
    all_goals
      intro id node
      simp [none]
  | append_singleton requests request ih =>
    rw [ofConstructions_append_singleton]
    exact ih.leaves request

end Tree

/-- After any calls of the constructors, with whatever handles, every operand comes before the node
that uses it, operands have the kinds that are asked of them, and parent counts are the numbers of
operand positions; they stay below 2 ^ 32 as long as there are fewer operand positions than that. A
call that fails leaves the tree as it was, for what follows as well. From every root, labeling and
generating come to an end: it makes no difference what they would do below as many levels as the
root has predecessors. -/
theorem Tree.constructions_keep_wellFormed (requests : List Construction) :
    let tree := ofConstructions requests
    (∀ id node, tree.node? id = some node →
      (∀ operand ∈ node.operation.operands, operand < id) ∧
        node.parents = tree.uses id ∧ node.parents ≤ tree.edges) ∧
    (∀ id node operation left right, tree.node? id = some node →
      node.operation = .arith operation left right →
        node.kind.isInteger = true ∧ tree.kindOf left = node.kind ∧
          tree.kindOf right = node.kind) ∧
    (∀ id node function arguments, tree.node? id = some node →
      node.operation = .call function arguments →
        tree.kindOf function = .ptr ∧ ∃ signature,
          Requested requests id function signature arguments ∧
            arguments.map tree.kindOf = signature.parameters ∧ node.kind = signature.result) ∧
    (∀ request cause, Construction.build tree request = .error cause →
      Construction.leaves tree request = tree ∧ ∀ later,
        ofConstructions (requests ++ request :: later) = ofConstructions (requests ++ later)) ∧
    ∀ root depth, root < depth →
      (∀ deeper, (Labeling.node tree)^[depth] deeper root = Labeling.subtree tree root) ∧
        ∀ deeper, (Generation.node tree)^[depth] deeper root = Generation.visit tree root := by
  intro tree
  have sound : tree.Sound requests := sound_ofConstructions requests
  refine ⟨fun id node found => ⟨fun operand member => ?_, ?_, ?_⟩, sound.arith, sound.call, ?_, ?_⟩
  · exact sound.layered id operand (operandsOf_of_node found ▸ member)
  · exact sound.counted id node found
  · exact sound.counted id node found ▸ uses_le_edges tree id
  · intro request cause refused
    exact ⟨by simp only [Construction.leaves, refused], ofConstructions_of_refused refused⟩
  · intro root depth deep
    exact ⟨fun deeper => Labeling.iterate_node_eq_subtree sound.layered deeper deep,
      fun deeper => Generation.iterate_node_eq_visit sound.layered deeper deep⟩

end NativeExpr
