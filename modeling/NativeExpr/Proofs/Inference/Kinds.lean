import Mathlib.Data.List.Induction
import NativeExpr.Proofs.Session.Generating

/-!
# Kinds of inferred parameters

Where there is no signature every parameter gets the kind of the last node for it, and parameters
that there is no node for are 64-bit integers. The nodes of a tree agree with the parameters that
are inferred from them, as a compilation checks it for those of a signature, just if any two nodes
for one parameter are of one kind.
-/

namespace NativeExpr

/-- The kind of the last of some nodes for a parameter, or that of 64-bit integers if there is
none. -/
def Node.lastKind (nodes : List Node) (index : Nat) : Kind :=
  match nodes.reverse.find? fun node => node.operation = .parameter index with
  | some node => node.kind
  | none => .i64

/-- The kind that a parameter is given where there is no signature. -/
def Tree.inferredKind (tree : Tree) (index : Nat) : Kind := Node.lastKind tree.nodes.toList index

/-- Whether all nodes of a tree for a parameter are of one kind. -/
def Tree.Agrees (tree : Tree) (index : Nat) : Prop :=
  ∀ id other first second, tree.node? id = some first → tree.node? other = some second →
    first.operation = .parameter index → second.operation = .parameter index →
      first.kind = second.kind

theorem Node.lastKind_concat (nodes : List Node) (node : Node) (index : Nat) :
    lastKind (nodes ++ [node]) index =
      if node.operation = .parameter index then node.kind else lastKind nodes index := by
  by_cases here : node.operation = .parameter index <;> simp [lastKind, here]

/-- The last of some nodes for a parameter is one of them. -/
theorem Node.exists_lastKind {nodes : List Node} {node : Node} {index : Nat}
    (listed : node ∈ nodes) (operates : node.operation = .parameter index) :
    ∃ last ∈ nodes, last.operation = .parameter index ∧ lastKind nodes index = last.kind := by
  induction nodes using List.reverseRecOn with
  | nil => cases listed
  | append_singleton rest final ih =>
    rw [lastKind_concat]
    by_cases here : final.operation = .parameter index
    · exact ⟨final, by simp, here, if_pos here⟩
    · rcases List.mem_append.mp listed with earlier | same
      · obtain ⟨last, member, names, same⟩ := ih earlier
        exact ⟨last, List.mem_append_left _ member, names, (if_neg here).trans same⟩
      · exact absurd (List.mem_singleton.mp same ▸ operates) here

theorem Node.lastKind_of_none {nodes : List Node} {index : Nat}
    (none : ∀ node ∈ nodes, node.operation ≠ .parameter index) :
    lastKind nodes index = .i64 := by
  have missing : nodes.reverse.find? (fun node => node.operation = .parameter index) = .none := by
    simpa using none
  simp only [lastKind, missing]

namespace Tree

variable {tree : Tree} {parameters others : List Kind} {kind : Kind} {index : Nat} {node : Node}

/-- A declaration changes one parameter and fills up to it. -/
theorem getElem?_declare (parameters : List Kind) (index : Nat) (kind : Kind) (other : Nat) :
    (declare parameters index kind)[other]? =
      if other = index then some kind
      else if other < parameters.length then parameters[other]?
      else if other < index then some .i64
      else none := by
  simp only [declare, List.getElem?_set, List.getElem?_append, List.getElem?_replicate,
    List.length_append, List.length_replicate]
  split_ifs <;> first | rfl | omega

theorem length_declare (parameters : List Kind) (index : Nat) (kind : Kind) :
    (declare parameters index kind).length = max parameters.length (index + 1) := by
  simp only [declare, List.length_set, List.length_append, List.length_replicate]
  omega

/-- Whether some nodes have given parameters their kinds. -/
structure Infers (nodes : List Node) (parameters : List Kind) : Prop where
  named : ∀ node ∈ nodes, ∀ index, node.operation = .parameter index → index < parameters.length
  kinds : ∀ index, index < parameters.length →
    parameters[index]? = some (Node.lastKind nodes index)

/-- One more node gives its parameter its kind, and no other parameter another kind. -/
theorem Infers.step {nodes : List Node} (infers : Infers nodes parameters)
    (inferred : inferParameter parameters node = .ok others) :
    Infers (nodes ++ [node]) others := by
  have apart (same : others = parameters) (other : ∀ index, node.operation ≠ .parameter index) :
      Infers (nodes ++ [node]) others := by
    subst same
    refine ⟨fun each listed index operates => ?_, fun index within => ?_⟩
    · rcases List.mem_append.mp listed with earlier | last
      · exact infers.named each earlier index operates
      · exact absurd (List.mem_singleton.mp last ▸ operates) (other index)
    · rw [Node.lastKind_concat, if_neg (other index)]
      exact infers.kinds index within
  cases operates : node.operation with
  | constant | arith | call =>
    simp only [inferParameter, operates] at inferred
    exact apart (except_pure_eq_ok.mp inferred).symm (by simp [operates])
  | parameter index =>
    simp only [inferParameter, operates] at inferred
    split at inferred
    · cases inferred
    obtain rfl := except_pure_eq_ok.mp inferred
    refine ⟨fun each listed other names => ?_, fun other within => ?_⟩
    · rw [length_declare]
      rcases List.mem_append.mp listed with earlier | last
      · exact Nat.lt_of_lt_of_le (infers.named each earlier other names) (Nat.le_max_left ..)
      · rw [List.mem_singleton.mp last, operates] at names
        cases names
        exact Nat.le_max_right ..
    · rw [length_declare] at within
      rw [getElem?_declare, Node.lastKind_concat, operates]
      by_cases here : other = index
      · subst here
        simp
      · have differs : Operation.parameter index ≠ .parameter other := by
          rintro ⟨⟩
          exact here rfl
        rw [if_neg here, if_neg differs]
        split
        · rename_i known
          exact infers.kinds other known
        · rename_i unknown
          -- A parameter beyond those that are known has had no node.
          rw [if_pos (by omega), Node.lastKind_of_none fun each listed names =>
            unknown (infers.named each listed other names)]

theorem infers_foldlM {nodes : List Node}
    (inferred : nodes.foldlM inferParameter [] = .ok parameters) : Infers nodes parameters := by
  induction nodes using List.reverseRecOn generalizing parameters with
  | nil =>
    obtain rfl := except_pure_eq_ok.mp inferred
    exact ⟨fun _ => nofun, fun _ => nofun⟩
  | append_singleton rest last ih =>
    rw [List.foldlM_append] at inferred
    obtain ⟨between, first, inferred⟩ := except_bind_eq_ok.mp inferred
    obtain ⟨final, stepped, done⟩ := except_bind_eq_ok.mp inferred
    obtain rfl := except_pure_eq_ok.mp done
    exact (ih first).step stepped

theorem infers_inferParameters (inferred : tree.inferParameters = .ok parameters) :
    Infers tree.nodes.toList parameters := infers_foldlM inferred

theorem node_mem_toList {id : NodeId} (found : tree.node? id = some node) :
    node ∈ tree.nodes.toList :=
  List.mem_of_getElem? (Array.getElem?_toList.trans found)

/-- The kinds that parameters have got. -/
theorem getElem?_inferParameters (inferred : tree.inferParameters = .ok parameters)
    (within : index < parameters.length) : parameters[index]? = some (tree.inferredKind index) :=
  (infers_inferParameters inferred).kinds index within

/-- There is a parameter for every node that asks for one. -/
theorem lt_length_inferParameters {id : NodeId} (inferred : tree.inferParameters = .ok parameters)
    (found : tree.node? id = some node) (operates : node.operation = .parameter index) :
    index < parameters.length :=
  (infers_inferParameters inferred).named node (node_mem_toList found) index operates

/-- Where all nodes for a parameter are of one kind it gets this kind. -/
theorem Agrees.inferredKind {id : NodeId} (agrees : tree.Agrees index)
    (found : tree.node? id = some node) (operates : node.operation = .parameter index) :
    tree.inferredKind index = node.kind := by
  obtain ⟨last, listed, names, same⟩ :=
    Node.exists_lastKind (node_mem_toList found) operates
  obtain ⟨other, there⟩ := List.mem_iff_getElem?.mp listed
  rw [Array.getElem?_toList] at there
  exact same.trans (agrees other id last node there found names operates)

/-- The nodes of a tree pass the check of a compilation for the parameters that are inferred from
them just if they agree. -/
theorem declared_inferParameters (inferred : tree.inferParameters = .ok parameters) :
    tree.Declared parameters ↔ ∀ index, tree.Agrees index := by
  constructor
  · intro declared index id other first second found there operates names
    have same := (declared id first index found operates).symm.trans
      (declared other second index there names)
    exact Option.some.inj same
  · intro agrees id node index found operates
    rw [getElem?_inferParameters inferred (lt_length_inferParameters inferred found operates),
      (agrees index).inferredKind found operates]

/-- Nothing is inferred where a node asks for a parameter that no function may have. -/
theorem of_inferParameters_error {cause : CompileError}
    (failed : tree.inferParameters = .error cause) :
    ∃ id node index, tree.node? id = some node ∧ node.operation = .parameter index ∧
      cause = .parameterMismatch index none node.kind := by
  have fails (nodes : List Node) (parameters : List Kind)
      (failed : nodes.foldlM inferParameter parameters = .error cause) :
      ∃ node ∈ nodes, ∃ index, node.operation = .parameter index ∧
        cause = .parameterMismatch index none node.kind := by
    induction nodes generalizing parameters with
    | nil => cases failed
    | cons node rest ih =>
      rw [List.foldlM_cons] at failed
      cases first : inferParameter parameters node with
      | ok between =>
        rw [first] at failed
        obtain ⟨other, listed, refused⟩ := ih between failed
        exact ⟨other, List.mem_cons_of_mem _ listed, refused⟩
      | error other =>
        rw [first] at failed
        obtain rfl : other = cause := Except.error.inj failed
        refine ⟨node, List.mem_cons_self, ?_⟩
        cases operates : node.operation with
        | constant | arith | call =>
          simp [inferParameter, operates, pure, Except.pure] at first
        | parameter index =>
          simp only [inferParameter, operates] at first
          split at first
          · exact ⟨index, rfl, (Except.error.inj first).symm⟩
          · cases first
  obtain ⟨node, listed, index, operates, refused⟩ := fails _ _ failed
  obtain ⟨id, found⟩ := List.mem_iff_getElem?.mp listed
  exact ⟨id, node, index, Array.getElem?_toList.symm.trans found, operates, refused⟩

end Tree

end NativeExpr
