import NativeExpr.Proofs.Conformance

/-!
# Every node is generated once

A compilation generates the nodes that its root needs, each once and after its operands. What is
asked for or used beyond that is found kept. Of the nodes that are generated those that are calls
are written as one call instruction each, in the same order.
-/

namespace NativeExpr

variable {tree : Tree} {signature : Signature} {root : NodeId} {work after : Workspace}
variable {compiled : Compiled}

/-- The nodes that a compilation generates, in their order. -/
def Workspace.generates (work : Workspace) (tree : Tree) (root : NodeId) : List NodeId :=
  Generation.order tree tree.size work.label (fun _ => false) root

/-- A compilation counts the nodes that it generates and the values that it finds kept, and counts
and writes one call for each call node that it generates. -/
theorem counts_of_compile (done : compile tree signature root work = .ok compiled after) :
    let made := after.generates tree root
    compiled.statistics.nodesCompiled = made.length ∧
      compiled.statistics.cacheHits + made.length =
        1 + (made.map fun user => (tree.operandsOf user).length).sum ∧
      compiled.statistics.callsEmitted = made.countP tree.isCall ∧
      compiled.instructions.countP Instruction.isCall = made.countP tree.isCall := by
  obtain ⟨labels, started, result, generated, released, _, _, starting, generating, releasing,
    finishing⟩ := of_compile done
  obtain ⟨opening, granted, rfl⟩ := Routine.of_start starting
  let opened := (Routine.new signature.parameters work.options.tempSlots).append opening
  let begun : Workspace := { work.reset with labels := labels, routine := some opened }
  have follows : begun.Follows tree [root] _ generated :=
    Generation.within_follows tree tree.size begun opened root _ result generated rfl generating
  obtain ⟨_, goesOn⟩ := follows.begun
  obtain ⟨hits, advances, count⟩ := follows.further (Build.advances_of_release goesOn releasing)
  obtain ⟨_, later, instructions, same, here, code, calls⟩ := advances.code
  obtain rfl := Option.some.inj same
  obtain ⟨⟨ended, leaving, compiledCode⟩, statistics, last⟩ := Compilation.of_finish here finishing
  obtain ⟨closing, straight, _, endedCode, _⟩ := Routine.leave_returns leaving
  have labeled : begun.label = after.label := by
    rw [← advances.label, last]
    rfl
  have unkept : begun.keeps = fun _ => false := by
    funext id
    simp [begun, Workspace.keeps, Workspace.reset]
  have made : after.generates tree root =
      Generation.order tree tree.size begun.label begun.keeps root := by
    rw [Workspace.generates, labeled, unkept]
  have whole : compiled.instructions = opening ++ instructions ++ closing ++ [.ret] := by
    rw [compiledCode, endedCode, code]
    simp [opened, Routine.new]
  have written : compiled.instructions.countP Instruction.isCall =
      instructions.countP Instruction.isCall := by
    simp [whole, List.countP_append, (Routine.straight_entering granted).countP, straight.countP,
      Instruction.isCall]
  rw [made, written, calls, statistics]
  refine ⟨?_, ?_, ?_, rfl⟩
  · rw [advances.compiled]
    exact Nat.zero_add _
  · rw [advances.hits]
    exact (congrArg (· + _) (Nat.zero_add hits)).trans count
  · rw [advances.calls]
    exact Nat.zero_add _

/-- A compilation generates exactly the nodes that its root needs, each once and after its
operands. -/
theorem Workspace.ordered_generates (formed : tree.Formed) (counted : tree.Counted)
    (found : root < tree.size) (work : Workspace) :
    (work.generates tree root).Nodup ∧
      (∀ id, id ∈ work.generates tree root ↔ tree.Reaches root id) ∧
      ∀ earlier user later, work.generates tree root = earlier ++ user :: later →
        ∀ operand ∈ tree.operandsOf user, operand ∈ earlier := by
  have ordered : Generation.Ordered tree (fun _ => false) [root] (work.generates tree root) :=
    Generation.ordered_order formed work.label found found fun _ keeps => Bool.noConfusion keeps
  refine ⟨ordered.nodup formed found counted, fun id => ordered.mem_iff,
    fun earlier user later split operand uses => ?_⟩
  exact (ordered.operands earlier user later split operand uses).resolve_right Bool.false_ne_true

/-- What comes after its operands comes after all that it depends on. -/
theorem Tree.mem_of_reaches {made : List NodeId}
    (operands : ∀ earlier user later, made = earlier ++ user :: later →
      ∀ operand ∈ tree.operandsOf user, operand ∈ earlier)
    {earlier later : List NodeId} {user other : NodeId} (split : made = earlier ++ user :: later)
    (reaches : tree.Reaches user other) (different : other ≠ user) : other ∈ earlier := by
  induction reaches with
  | refl => exact absurd rfl different
  | @tail between other _ uses ih =>
    by_cases here : between = user
    · exact operands earlier user later split other (here ▸ uses)
    · obtain ⟨before, rest, rfl⟩ := List.append_of_mem (ih here)
      rw [List.append_assoc, List.cons_append] at split
      exact List.mem_append_left _ (operands before between _ split other uses)

/-- A compilation generates every node that its root needs once, and no other node: all further
uses are found kept. It writes one call instruction for every call node among them, after those
of the call nodes that it depends on: when the code runs, its calls are made by these nodes in
this order. The parent counts that tell which values are kept are below 2 ^ 32 if there are fewer
operand positions than that. -/
theorem compile_generates_once (built : tree.Built)
    (done : compile tree signature root work = .ok compiled after) :
    ∃ nodes calls : List NodeId,
      nodes.Nodup ∧ (∀ id, id ∈ nodes ↔ tree.Reaches root id) ∧
      calls.Nodup ∧ (∀ id, id ∈ calls ↔ tree.Reaches root id ∧ tree.isCall id = true) ∧
      compiled.statistics.nodesCompiled = nodes.length ∧
      compiled.statistics.cacheHits + nodes.length =
        (nodes.map fun user => (tree.operandsOf user).length).sum + 1 ∧
      compiled.statistics.callsEmitted = calls.length ∧
      compiled.instructions.countP Instruction.isCall = calls.length ∧
      (∀ earlier call later, calls = earlier ++ call :: later →
        ∀ other, tree.Reaches call other → tree.isCall other = true → other ≠ call →
          other ∈ earlier) ∧
      ∀ (natives : Natives) (means : NodeId → Word → Prop) (entry : Machine),
        tree.size ≤ 2 ^ 52 → work.Configured →
        work.options.tempSlots + signature.parameters.length ≤ 2 ^ 28 - 5 →
        tree.Lawful natives (entry.Beneath tree) means →
        entry.Supplies tree signature.parameters means →
        List.Forall₂ (tree.Called means) (entry.calls natives compiled.instructions) calls := by
  obtain ⟨_, _, _, _, _, found, _⟩ := of_compile done
  obtain ⟨distinct, reached, operands⟩ :=
    Workspace.ordered_generates built.formed built.counted found after
  obtain ⟨compiledNodes, hits, emitted, written⟩ := counts_of_compile done
  rw [List.countP_eq_length_filter] at emitted
  rw [List.countP_eq_length_filter (p := tree.isCall)] at written
  refine ⟨after.generates tree root, (after.generates tree root).filter tree.isCall, distinct,
    reached, distinct.filter _, fun id => ?_, compiledNodes, hits.trans (Nat.add_comm ..), emitted,
    written, fun earlier call later split other reaches isCall different => ?_,
    fun natives means entry fits configured small lawful supplies => ?_⟩
  · rw [List.mem_filter, reached]
  · obtain ⟨before, rest, whole, rfl, tail⟩ := List.filter_eq_append_iff.mp split
    obtain ⟨skipped, last, rfl, uncalled, _⟩ := List.filter_eq_cons_iff.mp tail
    rw [← List.append_assoc] at whole
    rcases List.mem_append.mp (Tree.mem_of_reaches operands whole reaches different) with
      listed | listed
    · exact List.mem_filter.mpr ⟨listed, isCall⟩
    · exact absurd isCall (uncalled other listed)
  · obtain ⟨final, executes⟩ :=
      compile_executes built.formed fits configured small lawful supplies done
    exact executes.calls

/-- A call whose result is used twice is generated and made once. -/
theorem compile_generates_once_shared :
    let tree : Tree := ⟨#[⟨.ptr, .constant 4096, 1⟩, ⟨.i64, .parameter 0, 1⟩,
      ⟨.i64, .call 0 [1], 2⟩, ⟨.i64, .arith .add 2 2, 0⟩]⟩
    ∃ compiled after, ∃ nodes calls : List NodeId,
      compile tree ⟨[.i64], .i64⟩ 3 (.new .default) = .ok compiled after ∧
      (∀ id, id ∈ nodes ↔ tree.Reaches 3 id) ∧
      compiled.statistics.nodesCompiled = nodes.length ∧
      (∀ id, id ∈ calls ↔ tree.Reaches 3 id ∧ tree.isCall id = true) ∧
      compiled.instructions.countP Instruction.isCall = calls.length := by
  intro tree
  have leaves : Tree.Built ⟨#[⟨.ptr, .constant 4096, 0⟩, ⟨.i64, .parameter 0, 0⟩]⟩ :=
    .parameter (.constant .empty .ptr 4096) .i64 0
  have called : Tree.Built ⟨#[⟨.ptr, .constant 4096, 1⟩, ⟨.i64, .parameter 0, 1⟩,
      ⟨.i64, .call 0 [1], 0⟩]⟩ :=
    .call leaves (by decide) (rfl : Tree.call _ 0 ⟨[.i64], .i64⟩ [⟨1, .i64⟩] = .ok (2, _))
  have built : tree.Built := .arith called (rfl : Tree.arith _ .add .i64 2 2 = .ok (3, _))
  obtain ⟨compiled, after, done⟩ : ∃ compiled after,
      compile tree ⟨[.i64], .i64⟩ 3 (.new .default) = .ok compiled after := by decide +kernel
  obtain ⟨nodes, calls, _, reached, _, callers, made, _, _, written, _⟩ :=
    compile_generates_once built done
  exact ⟨compiled, after, nodes, calls, done, reached, made, callers, written⟩

end NativeExpr
