import NativeExpr.Proofs.Conformance

/-!
# Compilation preserves meaning

What nodes stand for are the words that agree with their values. The values of operands agree
with what the operations are applied to, and native functions compute the values that they
are said to, so a compiled function returns the value of its root.
-/

namespace NativeExpr

namespace Kind

variable {kind : Kind} {first second left right : Word}

theorem agree_iff : kind.Agree first second ↔
    first.setWidth kind.width = second.setWidth kind.width := by
  have width : kind.width ≤ 64 := by cases kind <;> decide
  constructor
  · intro agree
    have narrowed := congrArg (BitVec.setWidth kind.width) agree
    simpa [narrow, BitVec.setWidth_setWidth_of_le _ width] using narrowed
  · intro same
    rw [Agree, narrow, narrow, same]

/-- Arithmetic agrees on operands that agree: carries do not go down. -/
theorem Agree.apply (operation : Arithmetic) (firstAgree : kind.Agree first left)
    (secondAgree : kind.Agree second right) :
    kind.Agree (operation.apply first second) (operation.apply left right) := by
  have width : kind.width ≤ 64 := by cases kind <;> decide
  rw [agree_iff] at firstAgree secondAgree ⊢
  cases operation with
  | add => simp only [Arithmetic.apply, BitVec.setWidth_add _ _ width, firstAgree, secondAgree]
  | sub =>
    simp only [Arithmetic.apply, BitVec.sub_eq_add_neg, BitVec.setWidth_add _ _ width,
      BitVec.setWidth_neg_of_le width, firstAgree, secondAgree]
  | mul => simp only [Arithmetic.apply, BitVec.setWidth_mul _ _ width, firstAgree, secondAgree]

/-- Words of which all bits count agree only if they are the same. -/
theorem Agree.eq_of_wide (agree : kind.Agree first second) (wide : kind.width = 64) :
    first = second := by
  rw [agree_iff, wide] at agree
  simpa using agree

end Kind

/-- What a function that is called finds of its arguments, as far as their kinds go. -/
def Signature.passed (signature : Signature) (machine : Machine) : List Word :=
  (signature.parameters.zip (Convention.places signature.parameters)).map
    fun (kind, place) => kind.narrow (machine.argument place)

/-- Whether the native function at an address follows the convention for the given callers and
returns what it is said to, which depends on its arguments only as far as their kinds go. -/
structure Natives.Computes (natives : Natives) (values : NativeValues) (callers : Machine → Prop)
    (address : Word) (signature : Signature) : Prop
    extends natives.Preserves callers address signature where
  result : ∀ machine, callers machine → signature.result.Agree
    ((natives address machine).get (Convention.resultRegister signature.result.bank))
    (values address signature (signature.passed machine))

/-- Whether a function that is entered receives arguments in the places of the convention. -/
structure Machine.Receives (entry : Machine) (parameters : List Kind) (arguments : List Word) :
    Prop where
  length : arguments.length = parameters.length
  agree : ∀ (index : Nat) (kind : Kind) (place : Place) (word : Word),
    parameters[index]? = some kind → (Convention.places parameters)[index]? = some place →
      arguments[index]? = some word → kind.Agree (entry.received place) word

namespace Tree

variable {tree : Tree} {natives : Natives} {values : NativeValues} {arguments : List Word}
variable {callers : Machine → Prop}

/-- Words that agree with the values of nodes are lawful for the nodes if the functions that are
called compute their values. -/
theorem Formed.lawful (formed : tree.Formed)
    (computes : ∀ (id : NodeId) (node : Node) (function : NodeId) (operands : List NodeId),
      tree.node? id = some node → node.operation = .call function operands →
        natives.Computes values callers (tree.value values arguments function)
          (tree.callSignature operands node.kind)) :
    tree.Lawful natives callers fun id word =>
      (tree.kindOf id).Agree word (tree.value values arguments id) where
  constant id node bits found here := by
    rw [formed.value_eq found, operationValue, here]
    rfl
  arith id node operation left right found here first second firstAgree secondAgree := by
    obtain ⟨leftKind, rightKind⟩ := formed.arith id node operation left right found here
    rw [formed.value_eq found, operationValue, here, kindOf_of_node found]
    exact (leftKind ▸ firstAgree).apply operation (rightKind ▸ secondAgree)
  preserves id node function operands found here address agree := by
    rw [(formed.call id node function operands found here).1] at agree
    rw [agree.eq_of_wide rfl]
    exact (computes id node function operands found here).toPreserves
  returns id node function operands found here machine calls pointer arrived := by
    rw [(formed.call id node function operands found here).1] at pointer
    rw [formed.value_eq found, operationValue, here, kindOf_of_node found, pointer.eq_of_wide rfl]
    have result := (computes id node function operands found here).result machine calls
    have passed : (tree.callSignature operands node.kind).passed machine =
        operands.map fun operand =>
          (tree.kindOf operand).narrow (tree.value values arguments operand) := by
      have lengths : operands.length ≤ (Convention.places (operands.map tree.kindOf)).length := by
        rw [Convention.places, Assigner.length_assignAll, List.length_map]
      calc (tree.callSignature operands node.kind).passed machine
          = (operands.zip (Convention.places (operands.map tree.kindOf))).map fun pair =>
              (tree.kindOf pair.1).narrow (machine.argument pair.2) := by
            rw [Signature.passed, callSignature, List.zip_map_left, List.map_map]
            rfl
        _ = (operands.zip (Convention.places (operands.map tree.kindOf))).map fun pair =>
              (tree.kindOf pair.1).narrow (tree.value values arguments pair.1) :=
            List.map_congr_left fun pair paired => arrived pair.1 pair.2 paired
        _ = operands.map fun operand =>
              (tree.kindOf operand).narrow (tree.value values arguments operand) := by
            conv_rhs => rw [← List.map_fst_zip lengths, List.map_map]
            rfl
    rw [passed] at result
    exact result

end Tree

/-- A compiled function returns the value of its root, if the arguments are where the convention
puts them and the functions that are called compute their values where the function calls them.
Variables of their own may be anywhere but in the part of the stack beneath its return address. -/
theorem compile_meaning {tree : Tree} {signature : Signature} {root : NodeId}
    {work after : Workspace} {compiled : Compiled} {natives : Natives} {values : NativeValues}
    {entry : Machine} {arguments : List Word} (built : tree.Built) (fits : tree.size ≤ 2 ^ 52)
    (configured : work.Configured)
    (small : work.options.tempSlots + signature.parameters.length ≤ 2 ^ 28 - 5)
    (kind : tree.kindOf root = signature.result)
    (computes : ∀ (id : NodeId) (node : Node) (function : NodeId) (operands : List NodeId),
      tree.node? id = some node → node.operation = .call function operands →
        natives.Computes values (entry.Beneath tree) (tree.value values arguments function)
          (tree.callSignature operands node.kind))
    (receives : entry.Receives signature.parameters arguments)
    (done : compile tree signature root work = .ok compiled after) :
    ∃ final, entry.run natives compiled.instructions = some final ∧
      signature.result.Agree
        (final.get (Convention.resultRegister signature.result.bank))
        (tree.value values arguments root) := by
  obtain ⟨_, _, _, _, _, _, declared, _⟩ := of_compile done
  have formed := built.formed
  have supplies : entry.Supplies tree signature.parameters fun id word =>
      (tree.kindOf id).Agree word (tree.value values arguments id) := by
    intro id node index place found here placed
    have named := declared id node index found here
    obtain ⟨within, _⟩ := List.getElem?_eq_some_iff.mp named
    obtain ⟨word, passed⟩ : ∃ word, arguments[index]? = some word :=
      ⟨_, List.getElem?_eq_getElem (receives.length ▸ within)⟩
    have value : tree.value values arguments id = word := by
      rw [formed.value_eq found, Tree.operationValue, here]
      simp only [List.getD_eq_getElem?_getD, passed, Option.getD_some]
    rw [Tree.kindOf_of_node found, value]
    exact receives.agree index node.kind place word named placed passed
  obtain ⟨final, executes⟩ := compile_executes formed fits configured small
    (formed.lawful computes) supplies done
  exact ⟨final, executes.run, kind ▸ executes.result⟩

/-- A function adds its parameter to what a function returns that increments its argument and counts
its calls in a variable of its own. -/
theorem compile_meaning_call :
    let tree : Tree := ⟨#[⟨.ptr, .constant 4096, 1⟩, ⟨.i64, .parameter 0, 2⟩,
      ⟨.i64, .call 0 [1], 1⟩, ⟨.i64, .arith .add 1 2, 0⟩]⟩
    let natives : Natives := fun _ machine =>
      (machine.store 0x9000 (machine.load 0x9000 + 1)).set .rax (machine.get .rdi + 1)
    let entry : Machine := ⟨fun register => if register = 7 then 5 else 0x7ff8, fun _ => 0, fun _ => 0⟩
    ∃ compiled after final,
      compile tree ⟨[.i64], .i64⟩ 3 (.new .default) = .ok compiled after ∧
      entry.run natives compiled.instructions = some final ∧ final.get .rax = 11 := by
  intro tree natives entry
  let values : NativeValues := fun _ _ given => given.getD 0 0 + 1
  have leaves : Tree.Built ⟨#[⟨.ptr, .constant 4096, 0⟩, ⟨.i64, .parameter 0, 0⟩]⟩ :=
    .parameter (.constant .empty .ptr 4096) .i64 0
  have called : Tree.Built ⟨#[⟨.ptr, .constant 4096, 1⟩, ⟨.i64, .parameter 0, 1⟩,
      ⟨.i64, .call 0 [1], 0⟩]⟩ :=
    .call leaves (by decide) (rfl : Tree.call _ 0 ⟨[.i64], .i64⟩ [⟨1, .i64⟩] = .ok (2, _))
  have built : tree.Built := .arith called (rfl : Tree.arith _ .add .i64 1 2 = .ok (3, _))
  have preserved : ∀ register ∈ .rsp :: .rbp :: Convention.calleeSaved,
      register.InBank ∧ register ≠ .rax := by decide
  have computes : ∀ (id : NodeId) (node : Node) (function : NodeId) (operands : List NodeId),
      tree.node? id = some node → node.operation = .call function operands →
        natives.Computes values (entry.Beneath tree) (tree.value values [5] function)
          (tree.callSignature operands node.kind) := by
    intro id node function operands found here
    have listed : node ∈ tree.nodes := Array.mem_of_getElem? found
    simp only [tree, List.mem_toArray, List.mem_cons, List.not_mem_nil, or_false] at listed
    rcases listed with rfl | rfl | rfl | rfl <;> cases here
    exact {
      registers := fun machine _ register listed =>
        (Machine.get_set_other _ _ (by decide) (preserved register listed).1
          (preserved register listed).2).trans (Machine.get_store ..)
      memory := fun machine place ⟨base, within⟩ inside above => by
        -- The variable is above the return address, the frame of a caller below.
        refine (congrFun (Machine.memory_set ..) place).trans
          (Machine.memory_store_of_le machine _ ?_)
        have top : entry.get .rsp - 8 = 0x7ff0 := by decide
        have size : tree.size = 4 := rfl
        rw [size] at within
        simp only [Machine.below, base, top, BitVec.toNat_sub, BitVec.toNat_add,
          BitVec.reduceToNat] at inside above ⊢
        omega
      result := fun machine _ => by
        have passed : (tree.callSignature [1] .i64).passed machine =
            [Kind.i64.narrow (machine.get .rdi)] := rfl
        have narrow : Kind.i64.narrow (machine.get .rdi) = machine.get .rdi := by
          simp [Kind.narrow, Kind.width]
        rw [passed, narrow]
        have returned : (natives (tree.value values [5] 0) machine).get .rax =
            machine.get .rdi + 1 := Machine.get_set_self ..
        exact congrArg Kind.i64.narrow returned }
  have receives : entry.Receives [.i64] [5] := {
    length := rfl
    agree := fun index kind place word declared placed given => by
      obtain rfl : index = 0 := by
        have within := (List.getElem?_eq_some_iff.mp given).1
        exact Nat.lt_one_iff.mp within
      obtain rfl := Option.some.inj given
      obtain rfl := Option.some.inj placed
      rfl }
  obtain ⟨compiled, after, done⟩ : ∃ compiled after,
      compile tree ⟨[.i64], .i64⟩ 3 (.new .default) = .ok compiled after := by decide +kernel
  obtain ⟨final, ran, agree⟩ :=
    compile_meaning built (by decide) (Workspace.configured_new .default) (by decide) rfl computes
      receives done
  exact ⟨compiled, after, final, done, ran, agree.eq_of_wide rfl⟩

end NativeExpr
