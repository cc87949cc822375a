import NativeExpr.Proofs.Machine.Execution
import NativeExpr.Tree.Value

/-!
# Trees that the constructors build

Whatever is built by the constructors is well formed: operands come before the nodes that use
them, arithmetic is on operands of its own kind and calls go to pointers. In a well-formed tree
the value of a node follows from the values of its operands.
-/

namespace NativeExpr

namespace Tree

/-- The trees that the constructors build. The outgoing area of a call is no larger than what an
offset can tell. -/
inductive Built : Tree → Prop where
  | empty : Built .empty
  | constant {tree : Tree} (built : Built tree) (kind : Kind) (bits : Word) :
      Built (tree.constant kind bits).2
  | parameter {tree : Tree} (built : Built tree) (kind : Kind) (index : Nat) :
      Built (tree.parameter kind index).2
  | arith {tree later : Tree} {operation : Arithmetic} {kind : Kind} {left right id : NodeId}
      (built : Built tree) (done : tree.arith operation kind left right = .ok (id, later)) :
      Built later
  | call {tree later : Tree} {function id : NodeId} {signature : Signature}
      {arguments : List Handle} (built : Built tree)
      (few : signature.parameters.length ≤ 2 ^ 28 - 8)
      (done : tree.call function signature arguments = .ok (id, later)) : Built later

/-- What the constructors see to: operands come first and have the right kinds. -/
structure Formed (tree : Tree) : Prop where
  operands : ∀ id node operand, tree.node? id = some node →
    operand ∈ node.operation.operands → operand < id
  arith : ∀ id node operation left right, tree.node? id = some node →
    node.operation = .arith operation left right →
      tree.kindOf left = node.kind ∧ tree.kindOf right = node.kind
  call : ∀ id node function arguments, tree.node? id = some node →
    node.operation = .call function arguments →
      tree.kindOf function = .ptr ∧ arguments.length ≤ 2 ^ 28 - 8

variable {tree later : Tree} {kind : Kind} {operation : Operation} {id : NodeId} {node : Node}

theorem node_eq_ok : tree.node id = .ok node ↔ tree.node? id = some node := by
  simp only [Tree.node]
  cases tree.node? id <;> simp

theorem node_missing (absent : tree.node? id = none) : tree.node id = .error (.invalidNode id) := by
  simp only [Tree.node, absent]

theorem kindOf_of_node (found : tree.node? id = some node) : tree.kindOf id = node.kind := by
  simp only [kindOf, found]

theorem lt_size_of_node (found : tree.node? id = some node) : id < tree.size := by
  obtain ⟨within, _⟩ := Array.getElem?_eq_some_iff.mp found
  exact within

/-- Counting parents changes neither kinds nor operations. -/
theorem core_addParent (nodes : Array Node) (parents : List NodeId) (position : Nat) :
    ((parents.foldl addParent nodes)[position]?).map (fun node => (node.kind, node.operation)) =
      nodes[position]?.map fun node => (node.kind, node.operation) := by
  induction parents generalizing nodes with
  | nil => rfl
  | cons parent rest ih =>
    rw [List.foldl_cons, ih, addParent, Array.getElem?_modify]
    split
    · rw [Option.map_map]
      rfl
    · rfl

theorem size_addParent (nodes : Array Node) (parents : List NodeId) :
    (parents.foldl addParent nodes).size = nodes.size := by
  induction parents generalizing nodes with
  | nil => rfl
  | cons parent rest ih => rw [List.foldl_cons, ih, addParent, Array.size_modify]

/-- Appending adds one node. -/
theorem size_append (tree : Tree) (kind : Kind) (operation : Operation) :
    (tree.append kind operation).2.size = tree.size + 1 := by
  simp only [append, size, Array.size_push, size_addParent]

/-- Below the appended node the kinds and operations are as before. -/
theorem core_append (tree : Tree) (kind : Kind) (operation : Operation) {id : NodeId}
    (older : id < tree.size) :
    ((tree.append kind operation).2.node? id).map (fun node => (node.kind, node.operation)) =
      (tree.node? id).map fun node => (node.kind, node.operation) := by
  have within : id ≠ (operation.operands.foldl addParent tree.nodes).size := by
    rw [size_addParent]
    exact Nat.ne_of_lt older
  simp only [append, node?, Array.getElem?_push, if_neg within]
  exact core_addParent ..

/-- An older node stays, with its kind and its operation. -/
theorem node_append_of_node (found : tree.node? id = some node) :
    ∃ same, (tree.append kind operation).2.node? id = some same ∧ same.kind = node.kind ∧
      same.operation = node.operation := by
  have core := core_append tree kind operation (lt_size_of_node found)
  rw [found, Option.map_some] at core
  obtain ⟨same, here, equal⟩ := Option.map_eq_some_iff.mp core
  exact ⟨same, here, (Prod.mk.inj equal).1, (Prod.mk.inj equal).2⟩

/-- A node after appending is the appended one or an older one. -/
theorem of_node_append (found : (tree.append kind operation).2.node? id = some node) :
    (id = tree.size ∧ node = ⟨kind, operation, 0⟩) ∨
      ∃ old, tree.node? id = some old ∧ old.kind = node.kind ∧ old.operation = node.operation := by
  by_cases older : id < tree.size
  · have core := core_append tree kind operation older
    rw [found, Option.map_some] at core
    obtain ⟨old, here, same⟩ := Option.map_eq_some_iff.mp core.symm
    exact .inr ⟨old, here, (Prod.mk.inj same).1, (Prod.mk.inj same).2⟩
  · have within := lt_size_of_node found
    rw [size_append] at within
    obtain rfl : id = tree.size :=
      Nat.le_antisymm (Nat.lt_succ_iff.mp within) (Nat.not_lt.mp older)
    have size := size_addParent tree.nodes operation.operands
    simp only [append, node?, Array.getElem?_push] at found
    rw [if_pos (by rw [size]; rfl)] at found
    exact .inl ⟨rfl, (Option.some.inj found).symm⟩

theorem kindOf_append (tree : Tree) (kind : Kind) (operation : Operation) {id : NodeId}
    (older : id < tree.size) : (tree.append kind operation).2.kindOf id = tree.kindOf id := by
  have core := core_append tree kind operation older
  simp only [kindOf]
  cases here : (tree.append kind operation).2.node? id <;> cases there : tree.node? id <;>
    simp_all

/-- An operation whose operands exist and have the right kinds may be appended. -/
theorem Formed.append (formed : tree.Formed)
    (operands : ∀ operand ∈ operation.operands, operand < tree.size)
    (arith : ∀ combine left right, operation = .arith combine left right →
      tree.kindOf left = kind ∧ tree.kindOf right = kind)
    (call : ∀ function arguments, operation = .call function arguments →
      tree.kindOf function = .ptr ∧ arguments.length ≤ 2 ^ 28 - 8) :
    (tree.append kind operation).2.Formed where
  operands id node operand found member := by
    rcases of_node_append found with ⟨rfl, rfl⟩ | ⟨old, here, _, same⟩
    · exact operands operand member
    · exact formed.operands id old operand here (same ▸ member)
  arith id node combine left right found here := by
    rcases of_node_append found with ⟨rfl, rfl⟩ | ⟨old, there, kinds, same⟩
    · obtain rfl : operation = .arith combine left right := here
      rw [kindOf_append _ _ _ (operands left (by simp [Operation.operands])),
        kindOf_append _ _ _ (operands right (by simp [Operation.operands]))]
      exact arith combine left right rfl
    · have older := lt_size_of_node there
      have before := formed.operands id old
      rw [same, here] at before
      have leftOlder := before left there (by simp [Operation.operands])
      have rightOlder := before right there (by simp [Operation.operands])
      rw [kindOf_append _ _ _ (Nat.lt_trans leftOlder older),
        kindOf_append _ _ _ (Nat.lt_trans rightOlder older), ← kinds]
      exact formed.arith id old combine left right there (same.trans here)
  call id node function arguments found here := by
    rcases of_node_append found with ⟨rfl, rfl⟩ | ⟨old, there, _, same⟩
    · obtain rfl : operation = .call function arguments := here
      rw [kindOf_append _ _ _ (operands function (by simp [Operation.operands]))]
      exact call function arguments rfl
    · have before := formed.operands id old function there
      rw [same, here] at before
      have older := Nat.lt_trans (before (by simp [Operation.operands])) (lt_size_of_node there)
      rw [kindOf_append _ _ _ older]
      exact formed.call id old function arguments there (same.trans here)

/-- A handle that is accepted is that of a node of its kind. -/
theorem of_check {handle : Handle} {value : Unit} (checked : tree.check handle = .ok value) :
    handle.id < tree.size ∧ tree.kindOf handle.id = handle.kind := by
  simp only [check, except_bind_eq_ok] at checked
  obtain ⟨node, found, checked⟩ := checked
  rw [node_eq_ok] at found
  split at checked
  · cases checked
  · rename_i same
    rw [kindOf_of_node found]
    exact ⟨lt_size_of_node found, Decidable.not_not.mp same⟩

/-- Arguments that are accepted exist and have the kinds that are declared, in their order. -/
theorem of_checkArguments {position : Nat} {arguments : List Handle} {kinds : List Kind}
    {value : Unit} (same : kinds.length = arguments.length)
    (checked : tree.checkArguments position arguments kinds = .ok value) :
    (∀ argument ∈ arguments, argument.id < tree.size) ∧
      (arguments.map Handle.id).map tree.kindOf = kinds := by
  induction arguments generalizing position kinds with
  | nil =>
    obtain rfl := List.eq_nil_of_length_eq_zero same
    exact ⟨fun _ member => (List.not_mem_nil member).elim, rfl⟩
  | cons first rest ih =>
    cases kinds with
    | nil => cases same
    | cons expected others =>
      simp only [checkArguments, except_bind_eq_ok] at checked
      obtain ⟨_, accepted, checked⟩ := checked
      obtain ⟨firstOlder, firstKind⟩ := of_check accepted
      split at checked
      · obtain ⟨_, thrown, _⟩ := except_bind_eq_ok.mp checked
        cases thrown
      · rename_i agree
        obtain ⟨restOlder, restKinds⟩ := ih (Nat.succ.inj same) checked
        refine ⟨List.forall_mem_cons.mpr ⟨firstOlder, restOlder⟩, ?_⟩
        rw [List.map_cons, List.map_cons, restKinds, firstKind, Decidable.not_not.mp agree]

/-- Arithmetic that is accepted is on two nodes of its kind. -/
theorem of_arith {combine : Arithmetic} {left right : NodeId}
    (done : tree.arith combine kind left right = .ok (id, later)) :
    (left < tree.size ∧ tree.kindOf left = kind) ∧ (right < tree.size ∧ tree.kindOf right = kind) ∧
      later = (tree.append kind (.arith combine left right)).2 := by
  simp only [Tree.arith, except_bind_eq_ok, except_pure_eq_ok] at done
  obtain ⟨_, first, _, second, same⟩ := done
  exact ⟨of_check first, of_check second, (congrArg Prod.snd same).symm⟩

/-- A call that is accepted is one of a pointer, with arguments that exist and have the kinds of
the parameters. -/
theorem of_call {function : NodeId} {signature : Signature} {arguments : List Handle}
    (done : tree.call function signature arguments = .ok (id, later)) :
    tree.kindOf function = .ptr ∧ (arguments.map Handle.id).map tree.kindOf = signature.parameters ∧
      (∀ operand ∈ function :: arguments.map Handle.id, operand < tree.size) ∧
      later = (tree.append signature.result (.call function (arguments.map Handle.id))).2 := by
  simp only [Tree.call, except_bind_eq_ok] at done
  obtain ⟨_, pointer, done⟩ := done
  split at done
  · obtain ⟨_, thrown, _⟩ := except_bind_eq_ok.mp done
    cases thrown
  · rename_i arity
    simp only [ne_eq, Decidable.not_not] at arity
    simp only [except_bind_eq_ok, except_pure_eq_ok] at done
    obtain ⟨_, checked, same⟩ := done
    obtain ⟨functionOlder, functionKind⟩ := of_check pointer
    obtain ⟨older, kinds⟩ := of_checkArguments arity checked
    refine ⟨functionKind, kinds, fun operand member => ?_, (congrArg Prod.snd same).symm⟩
    rcases List.mem_cons.mp member with rfl | member
    · exact functionOlder
    · obtain ⟨argument, listed, rfl⟩ := List.mem_map.mp member
      exact older argument listed

/-- What the constructors build is well formed. -/
theorem Built.formed (built : tree.Built) : tree.Formed := by
  induction built with
  | empty =>
    have none (id : NodeId) : Tree.empty.node? id = none := rfl
    constructor <;> intro id node <;> simp [none]
  | constant built kind bits ih =>
    exact ih.append (by simp [Operation.operands]) (fun _ _ _ => nofun) (fun _ _ => nofun)
  | parameter built kind index ih =>
    exact ih.append (by simp [Operation.operands]) (fun _ _ _ => nofun) (fun _ _ => nofun)
  | @arith tree later operation kind left right id built done ih =>
    obtain ⟨⟨leftOlder, leftKind⟩, ⟨rightOlder, rightKind⟩, rfl⟩ := of_arith done
    refine ih.append ?_ ?_ (fun _ _ => nofun)
    · simp [Operation.operands, leftOlder, rightOlder]
    · rintro _ _ _ ⟨⟩
      exact ⟨leftKind, rightKind⟩
  | @call tree later function id signature arguments built few done ih =>
    obtain ⟨functionKind, kinds, older, rfl⟩ := of_call done
    refine ih.append older (fun _ _ _ => nofun) ?_
    rintro _ _ ⟨⟩
    rw [← List.length_map tree.kindOf, kinds]
    exact ⟨functionKind, few⟩

variable {natives : NativeValues} {arguments : List Word}

/-- The value of an operation depends on the values of its operands only. -/
theorem operationValue_congr {first second : NodeId → Word}
    (same : ∀ operand ∈ node.operation.operands, first operand = second operand) :
    tree.operationValue natives arguments first node =
      tree.operationValue natives arguments second node := by
  obtain ⟨kind, operation, parents⟩ := node
  cases operation with
  | constant bits | parameter index => rfl
  | arith operation left right =>
    have leftSame := same left (by simp [Operation.operands])
    have rightSame := same right (by simp [Operation.operands])
    simp only [operationValue, leftSame, rightSame]
  | call function operands =>
    have functionSame := same function (by simp [Operation.operands])
    have operandsSame : operands.map (fun operand => (tree.kindOf operand).narrow (first operand)) =
        operands.map fun operand => (tree.kindOf operand).narrow (second operand) := by
      apply List.map_congr_left
      intro operand member
      rw [same operand (List.mem_cons_of_mem _ member)]
    simp only [operationValue, functionSame, operandsSame]

/-- Every depth beyond a node gives it the same value. -/
theorem Formed.valueWithin_eq (formed : tree.Formed) (id : NodeId) :
    ∀ {first second : Nat}, id < first → id < second →
      tree.valueWithin natives arguments first id = tree.valueWithin natives arguments second id := by
  induction id using Nat.strongRecOn with
  | ind id ih =>
    intro first second firstDeep secondDeep
    obtain ⟨first, rfl⟩ := Nat.exists_eq_add_of_lt firstDeep
    obtain ⟨second, rfl⟩ := Nat.exists_eq_add_of_lt secondDeep
    simp only [valueWithin]
    cases found : tree.node? id with
    | none => rfl
    | some node =>
      apply operationValue_congr
      intro operand member
      have older : operand < id := formed.operands id node operand found member
      exact ih operand older (Nat.lt_add_right first older) (Nat.lt_add_right second older)

/-- The value of a node is that of its operation on the values of its operands. -/
theorem Formed.value_eq (formed : tree.Formed) (found : tree.node? id = some node) :
    tree.value natives arguments id =
      tree.operationValue natives arguments (tree.value natives arguments) node := by
  have within : id < tree.size := lt_size_of_node found
  have deeper : tree.value natives arguments id =
      tree.valueWithin natives arguments (tree.size + 1) id :=
    formed.valueWithin_eq id within (Nat.lt_succ_of_lt within)
  rw [deeper]
  simp only [valueWithin, found]
  rfl

end Tree

end NativeExpr
