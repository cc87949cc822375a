import NativeExpr.Proofs.Independence.Generation
import NativeExpr.Proofs.Independence.History
import NativeExpr.Proofs.Independence.Labeling

/-!
# Compilations depend on nothing but the expression

A compilation forgets what was labeled, kept, handed out and written before, and it does not look
at nodes that its root does not need nor at the numbers of those that it needs. Two trees with the
same options that hold the same expression are compiled into the same function, or for neither of
them there is room.
-/

namespace NativeExpr

open Build (Agree)

variable {tree other : Tree} {rename : NodeId → NodeId} {signature : Signature} {root : NodeId}
variable {work twin : Workspace}

/-- Workspaces are alike after they are reset if their options are the same. -/
theorem Workspace.alike_reset (rename : NodeId → NodeId) (needed : NodeId → Prop)
    (options : twin.options = work.options)
    (allocatable : twin.pool.allocatable = work.pool.allocatable) :
    work.reset.Alike rename needed (fun _ => False) twin.reset where
  options := options
  pool := ⟨_, by simp only [reset, RegisterPool.reset, allocatable]; rfl⟩
  routine := rfl
  statistics := rfl
  labels _ _ known := known.elim
  caches _ _ := by simp [reset]

namespace Compilation

theorem agree_start {needed : NodeId → Prop} (parameters : List Kind)
    (alike : work.Alike rename needed (fun _ => True) twin) :
    Agree Eq (Workspace.Parallel rename needed) (start parameters work) (start parameters twin) := by
  refine Agree.afterGet ?_
  rw [alike.options]
  cases Routine.start parameters work.options.tempSlots with
  | ok routine => exact .ok rfl { alike with routine := rfl, begun := ⟨routine, rfl⟩ }
  | error cause => exact .error fun _ => rfl

theorem agree_finish {needed : NodeId → Prop} (result : Location) (kind : Kind)
    (parallel : work.Parallel rename needed twin) :
    Agree Eq (fun _ _ => True) (finish result kind work) (finish result kind twin) := by
  have takes : Agree Eq (fun after later => later.statistics = after.statistics)
      (takeRoutine work) (takeRoutine twin) := by
    obtain ⟨routine, begun⟩ := parallel.begun
    rw [takeRoutine_eq, takeRoutine_eq, parallel.routine, begun]
    exact .ok rfl parallel.statistics
  refine takes.andThen fun routine after later same => ?_
  cases Routine.leave result kind routine with
  | error cause _ => exact Build.agree_throw _
  | ok _ ended =>
    refine .ok ?_ trivial
    simp only [same]

end Compilation

/-- Compilations of the same expression end alike. -/
theorem agree_compile (formed : tree.Formed) (otherFormed : other.Formed)
    (renumbers : tree.Renumbers other rename (tree.Reaches root))
    (declared : tree.Declared signature.parameters)
    (otherDeclared : other.Declared signature.parameters)
    (options : twin.options = work.options)
    (allocatable : twin.pool.allocatable = work.pool.allocatable) :
    Agree Eq (fun _ _ => True) (compile tree signature root work)
      (compile other signature (rename root) twin) := by
  obtain ⟨node, image, found, imageFound, _⟩ := renumbers.node root .refl
  have closed := tree.closed_reaches root
  have within := Tree.lt_size_of_node found
  have imageWithin := Tree.lt_size_of_node imageFound
  have labels := Labeling.mirrors_within renumbers closed formed otherFormed tree.size other.size
    root .refl within imageWithin
  have visits := Generation.mirrors_within renumbers closed formed otherFormed tree.size other.size
    root .refl within imageWithin
  refine Agree.after (Build.lift_ok (Build.node_ok found))
    (Build.lift_ok (Build.node_ok imageFound)) ?_
  refine Agree.after (Build.lift_ok (Tree.checkParameters_eq_ok.mpr declared))
    (Build.lift_ok (Tree.checkParameters_eq_ok.mpr otherDeclared)) ?_
  have reset := Workspace.alike_reset rename (tree.Reaches root) options allocatable
  refine Agree.afterModify ?_
  refine (labels true _ _ _ reset).andThen fun _ _ _ alike => ?_
  refine (Compilation.agree_start signature.parameters { alike with
    labels := fun id need _ => alike.labels id need (.inr ⟨root, List.mem_singleton_self root, need⟩)
    }).andThen fun _ _ _ parallel => ?_
  refine (visits _ _ _ parallel).andThen fun result _ _ parallel => ?_
  refine (Build.agree_release result parallel).andThen fun _ _ _ parallel => ?_
  exact Compilation.agree_finish result.location signature.result parallel

/-- Compiling a root depends on the options of its tree and on the expression below the root only:
not on the numbers of the nodes, not on nodes that the root does not need, and not on what was
labeled, generated, compiled or handed out before. Two trees that hold the same expression are
compiled into the same instructions with the same statistics, or both compilations fail because
room has run out, for a value of the same bank in the same activity. -/
theorem compile_independent {options : Options} (history : History options tree work)
    (otherHistory : History options other twin)
    (renumbers : tree.Renumbers other rename (tree.Reaches root))
    (declared : tree.Declared signature.parameters)
    (otherDeclared : other.Declared signature.parameters) :
    (∃ compiled after later, compile tree signature root work = .ok compiled after ∧
      compile other signature (rename root) twin = .ok compiled later) ∨
    ∃ bank activity after later,
      compile tree signature root work = .error (.exhausted bank activity) after ∧
      compile other signature (rename root) twin = .error (.exhausted bank activity) later := by
  obtain ⟨sameOptions, sameAllocatable⟩ := history.configured
  obtain ⟨otherOptions, otherAllocatable⟩ := otherHistory.configured
  obtain ⟨node, _, found, _⟩ := renumbers.node root .refl
  have yields := compile_yields history.built.formed history.integral declared found work
  have agree := agree_compile history.built.formed otherHistory.built.formed renumbers declared
    otherDeclared (otherOptions.trans sameOptions.symm)
    (otherAllocatable.trans sameAllocatable.symm)
  rw [Build.Yields] at yields
  generalize compile tree signature root work = ended,
    compile other signature (rename root) twin = otherEnded at yields agree
  cases agree with
  | ok same _ =>
    subst same
    exact .inl ⟨_, _, _, rfl, rfl⟩
  | @error cause otherCause after later same =>
    obtain rfl := same (.inl yields)
    cases cause with
    | exhausted bank activity => exact .inr ⟨bank, activity, after, later, rfl, rfl⟩
    | _ => simp [CompileError.isExhaustion] at yields

/-- A parameter is added to itself in a new tree, and in one that has two nodes more and in which a
register is held after another root was generated. -/
theorem compile_independent_renumbered :
    let options : Options := ⟨2, 0, 1⟩
    let tree : Tree := ⟨#[⟨.i64, .parameter 0, 2⟩, ⟨.i64, .arith .add 0 0, 0⟩]⟩
    let other : Tree := ⟨#[⟨.ptr, .constant 5, 0⟩, ⟨.i64, .parameter 0, 4⟩,
      ⟨.i64, .arith .mul 1 1, 0⟩, ⟨.i64, .arith .add 1 1, 0⟩]⟩
    let used := ((Action.allocateRegister .i64 .rcx).run other).leaves
      (((Action.generate 2).run other).leaves (((Action.label 2 true).run other).leaves
        (.new options)))
    let signature : Signature := ⟨[.i64], .i64⟩
    ∃ compiled after later, compile tree signature 1 (.new options) = .ok compiled after ∧
      compile other signature 3 used = .ok compiled later := by
  intro options tree other used signature
  have history : History options tree (.new options) :=
    .arith (.parameter .new .i64 0) rfl (rfl : Tree.arith _ .add .i64 0 0 = .ok (1, _))
  have leaves : History options ⟨#[⟨.ptr, .constant 5, 0⟩, ⟨.i64, .parameter 0, 0⟩]⟩ (.new options) :=
    .parameter (.constant .new .ptr 5) .i64 0
  have product : History options ⟨#[⟨.ptr, .constant 5, 0⟩, ⟨.i64, .parameter 0, 2⟩,
      ⟨.i64, .arith .mul 1 1, 0⟩]⟩ (.new options) :=
    .arith leaves rfl (rfl : Tree.arith _ .mul .i64 1 1 = .ok (2, _))
  have made : History options other (.new options) :=
    .arith product rfl (rfl : Tree.arith _ .add .i64 1 1 = .ok (3, _))
  have otherHistory : History options other used :=
    .act (.act (.act made (.label 2 true)) (.generate 2)) (.allocateRegister .i64 .rcx)
  have renumbers : tree.Renumbers other (fun id => 2 * id + 1) (tree.Reaches 1) := by
    refine ⟨fun first second _ _ same => ?_, fun id reaches => ?_⟩
    · exact Nat.eq_of_mul_eq_mul_left Nat.two_pos (Nat.succ.inj same)
    · have within : id ≤ 1 := history.built.formed.le_of_reaches reaches
      rcases Nat.le_one_iff_eq_zero_or_eq_one.mp within with rfl | rfl
      · exact ⟨_, _, rfl, rfl, rfl, rfl, rfl⟩
      · exact ⟨_, _, rfl, rfl, rfl, rfl, rfl⟩
  have declared : tree.Declared signature.parameters := Tree.checkParameters_eq_ok.mp rfl
  have otherDeclared : other.Declared signature.parameters := Tree.checkParameters_eq_ok.mp rfl
  have succeeds : ∃ compiled after, compile tree signature 1 (.new options) =
      .ok compiled after := by decide +kernel
  rcases compile_independent history otherHistory renumbers declared otherDeclared with
    same | ⟨_, _, _, _, failed, _⟩
  · exact same
  · simp [failed] at succeeds

end NativeExpr
