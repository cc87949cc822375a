import NativeExpr.Proofs.Independence.History
import NativeExpr.Proofs.MoveSchedule.Completion
import NativeExpr.Proofs.Preservation.Calling

/-!
# How compilations end

A compilation is refused before anything is changed if some parameter node disagrees with the
signature, whether the root needs that node or not. Otherwise it succeeds, or room runs out. Nothing
else can go wrong: nodes exist, labels are there when they are asked for, what is given back was
handed out, registers and arguments are looked up where there are some, and the moves of a call, of
which nothing counts the rounds, come to an end (`Stage.Of.moves_complete`).
-/

namespace NativeExpr

namespace Tree

variable {tree : Tree} {parameters : List Kind}

theorem of_checkParameter_error {node : Node} {cause : CompileError}
    (failed : checkParameter parameters node = .error cause) :
    ∃ index, node.operation = .parameter index ∧ parameters[index]? ≠ some node.kind ∧
      cause = .parameterMismatch index parameters[index]? node.kind := by
  simp only [checkParameter] at failed
  cases operation : node.operation with
  | constant | arith | call =>
    rw [operation] at failed
    cases failed
  | parameter index =>
    simp only [operation] at failed
    by_cases declared : parameters[index]? = some node.kind
    · rw [if_pos declared] at failed
      cases failed
    · rw [if_neg declared] at failed
      cases failed
      exact ⟨index, rfl, declared, rfl⟩

/-- The error is that of one of the nodes. -/
theorem of_forM_checkParameter_error {nodes : List Node} {cause : CompileError}
    (failed : nodes.forM (checkParameter parameters) = .error cause) :
    ∃ node ∈ nodes, checkParameter parameters node = .error cause := by
  induction nodes with
  | nil => cases failed
  | cons node rest ih =>
    change (checkParameter parameters node >>= fun _ =>
      rest.forM (checkParameter parameters)) = .error cause at failed
    cases checked : checkParameter parameters node with
    | error other =>
      rw [checked] at failed
      cases failed
      exact ⟨node, List.mem_cons_self, checked⟩
    | ok value =>
      rw [checked] at failed
      obtain ⟨found, listed, same⟩ := ih failed
      exact ⟨found, List.mem_cons_of_mem node listed, same⟩

/-- A tree is refused for a parameter node that disagrees with the parameters of the function. -/
theorem checkParameters_error (undeclared : ¬tree.Declared parameters) :
    ∃ id node index, tree.node? id = some node ∧ node.operation = .parameter index ∧
      parameters[index]? ≠ some node.kind ∧
      tree.checkParameters parameters =
        .error (.parameterMismatch index parameters[index]? node.kind) := by
  cases checked : tree.checkParameters parameters with
  | ok value => exact absurd (checkParameters_eq_ok.mp checked) undeclared
  | error cause =>
    obtain ⟨node, listed, failed⟩ := of_forM_checkParameter_error checked
    obtain ⟨id, found⟩ := List.mem_iff_getElem?.mp listed
    obtain ⟨index, operation, differs, rfl⟩ := of_checkParameter_error failed
    exact ⟨id, node, index, Array.getElem?_toList.symm.trans found, operation, differs, rfl⟩

end Tree

/-- A register that a pool may hand out or has handed out has a record of its owner. -/
theorem RegisterPool.isSome_owner {pool : RegisterPool} {register : Register}
    (known : pool.allocatable.contains register ∨ pool.live.contains register) :
    (pool.owner? register).isSome = true := by
  have real : register.InBank := by
    rcases known with allowed | live
    · exact inBank_of_contains allowed
    · exact inBank_of_contains live
  simp [owner?, index_lt real]

namespace Stage

variable {tree : Tree} {visit : Visit} {before after : Workspace}

/-- Every argument has a value at its position. -/
theorem length_of_evaluate {stage : Stage} {values : List Storage}
    (done : stage.evaluate tree visit before = .ok values after) :
    values.length = stage.arguments.length := by
  obtain ⟨settled, arguments, rfl⟩ := exists_settled done
  rw [← arguments, List.length_map, List.length_map]

end Stage

variable {options : Options} {tree : Tree} {signature : Signature} {root : NodeId}
variable {work : Workspace}

/-- A compilation is refused for a parameter node that disagrees with the signature. -/
theorem compile_undeclared {node : Node} (found : tree.node? root = some node)
    (undeclared : ¬tree.Declared signature.parameters) (work : Workspace) :
    ∃ id node index, tree.node? id = some node ∧ node.operation = .parameter index ∧
      signature.parameters[index]? ≠ some node.kind ∧
      compile tree signature root work =
        .error (.parameterMismatch index signature.parameters[index]? node.kind) work := by
  obtain ⟨id, node, index, here, operation, differs, refused⟩ :=
    Tree.checkParameters_error undeclared
  refine ⟨id, node, index, here, operation, differs, ?_⟩
  rw [compile, estate_bind_of_ok (Build.lift_ok (Build.node_ok found)), refused]
  rfl

/-- The emission of the moves of a call comes to an end with the schedule that is written, whatever
values are moved: no move is into a scratch register. -/
theorem Stage.Of.moves_complete {stage : Stage} {arguments : List NodeId}
    (of : stage.Of tree arguments) (values : List Storage) (target : Storage) :
    (MoveSchedule.ofMoves (stage.moves values target)).settled ∧
      ∀ assembly, MoveSchedule.Completes (stage.moves values target) assembly ↔
        assembly = assemble (MoveSchedule.ofMoves (stage.moves values target)).requests := by
  have settled : (MoveSchedule.ofMoves (stage.moves values target)).settled := by
    refine MoveSchedule.settled_ofMoves fun move member bank place => ?_
    have usable : (Convention.scratch bank).Usable := (of.target_register member place).1
    exact usable.ne_scratch bank rfl
  exact ⟨settled, fun _ => MoveSchedule.completes_iff_of_settled settled⟩

/-- Compiling a root that exists ends in one of three ways. If every parameter node of the tree has
a parameter of its kind in the signature, a function is compiled or room runs out. Otherwise some
parameter node is reported along with what the signature declares in its place, and nothing is
changed. Registers that are handed out and taken back have records, and every argument of a call
has a value. -/
theorem compile_outcome (history : History options tree work) (exist : root < tree.size) :
    (tree.Declared signature.parameters →
      (∃ compiled after, compile tree signature root work = .ok compiled after) ∨
      ∃ bank activity after,
        compile tree signature root work = .error (.exhausted bank activity) after) ∧
    (¬tree.Declared signature.parameters →
      ∃ id node index, tree.node? id = some node ∧ node.operation = .parameter index ∧
        signature.parameters[index]? ≠ some node.kind ∧
        compile tree signature root work =
          .error (.parameterMismatch index signature.parameters[index]? node.kind) work) ∧
    (∀ (pool : RegisterPool) register,
      pool.allocatable.contains register ∨ pool.live.contains register →
        (pool.owner? register).isSome = true) ∧
    ∀ (stage : Stage) visit before values after,
      stage.evaluate tree visit before = .ok values after →
        values.length = stage.arguments.length := by
  have found : tree.node? root = some tree.nodes[root] := Array.getElem?_eq_getElem exist
  refine ⟨fun declared => ?_, fun undeclared => compile_undeclared found undeclared work,
    fun _ _ => RegisterPool.isSome_owner, fun _ _ _ _ _ => Stage.length_of_evaluate⟩
  have yields := compile_yields history.built.formed history.integral declared found work
  rw [Build.Yields] at yields
  cases done : compile tree signature root work with
  | ok compiled after => exact .inl ⟨compiled, after, rfl⟩
  | error cause after =>
    rw [done] at yields
    cases cause with
    | exhausted bank activity => exact .inr ⟨bank, activity, after, rfl⟩
    | _ => simp [CompileError.isExhaustion] at yields

/-- A parameter is added to itself, as a function that has it and as one that has not. -/
theorem compile_outcome_sum :
    let options : Options := ⟨2, 0, 1⟩
    let tree : Tree := ⟨#[⟨.i64, .parameter 0, 2⟩, ⟨.i64, .arith .add 0 0, 0⟩]⟩
    (∃ compiled after, compile tree ⟨[.i64], .i64⟩ 1 (.new options) = .ok compiled after) ∧
    ∃ id node index, tree.node? id = some node ∧ node.operation = .parameter index ∧
      ([] : List Kind)[index]? ≠ some node.kind ∧ compile tree ⟨[], .i64⟩ 1 (.new options) =
        .error (.parameterMismatch index [][index]? node.kind) (.new options) := by
  intro options tree
  have history : History options tree (.new options) :=
    .arith (.parameter .new .i64 0) rfl (rfl : Tree.arith _ .add .i64 0 0 = .ok (1, _))
  have declared : tree.Declared (⟨[.i64], .i64⟩ : Signature).parameters :=
    Tree.checkParameters_eq_ok.mp rfl
  have undeclared : ¬tree.Declared (⟨[], .i64⟩ : Signature).parameters := fun declared =>
    nomatch declared 0 ⟨.i64, .parameter 0, 2⟩ 0 rfl rfl
  have succeeds : ∃ compiled after,
      compile tree ⟨[.i64], .i64⟩ 1 (.new options) = .ok compiled after := by decide +kernel
  have exist : 1 < tree.size := by decide
  have ends : (∃ compiled after,
        compile tree ⟨[.i64], .i64⟩ 1 (.new options) = .ok compiled after) ∨
      ∃ bank activity after, compile tree ⟨[.i64], .i64⟩ 1 (.new options) =
        .error (.exhausted bank activity) after :=
    (compile_outcome history exist).1 declared
  constructor
  · rcases ends with done | ⟨_, _, _, failed⟩
    · exact done
    · simp [failed] at succeeds
  · exact (compile_outcome history exist).2.1 undeclared

end NativeExpr
