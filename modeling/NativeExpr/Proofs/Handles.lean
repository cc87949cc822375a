import NativeExpr.Proofs.Construction
import NativeExpr.Proofs.Outcome

/-!
# Handles that are checked

A handle may be one of another tree, whose number happens to be that of a node. The constructors
accept a handle only if there is a node of that number and of the kind that the handle claims to
have. A compilation asks for the number alone: a root of another kind than the result is compiled.
-/

namespace NativeExpr

/-- Whether a tree has a node of the number and the kind of a handle. -/
def Handle.isOf (tree : Tree) (handle : Handle) : Bool :=
  (tree.node? handle.id).any fun node => node.kind == handle.kind

namespace Construction

/-- The handles of a call of a constructor, in the order in which they are checked. -/
def handles : Construction → List Handle
  | .constant _ _ | .parameter _ _ => []
  | .arith _ kind _ left right => [⟨left, kind⟩, ⟨right, kind⟩]
  | .call function _ arguments => ⟨function, .ptr⟩ :: arguments

/-- Whether the arguments of a call claim to have the kinds that its signature declares. -/
def Declared : Construction → Prop
  | .call _ signature arguments => arguments.map Handle.kind = signature.parameters
  | _ => True

end Construction

namespace Tree

variable {tree : Tree} {handle foreign : Handle}

/-- What is checked about a handle. -/
theorem check_eq (tree : Tree) (handle : Handle) :
    tree.check handle = if handle.isOf tree then .ok () else .error (.invalidNode handle.id) := by
  cases found : tree.node? handle.id with
  | none =>
    simp only [check, Handle.isOf, node_missing found, found]
    rfl
  | some node =>
    simp only [check, Handle.isOf, node_eq_ok.mpr found, found, Option.any_some]
    change (if node.kind ≠ handle.kind then _ else _ : Except CompileError Unit) = _
    by_cases same : node.kind = handle.kind
    · rw [if_pos (beq_iff_eq.mpr same), if_neg (not_not.mpr same)]
      rfl
    · rw [if_neg (mt beq_iff_eq.mp same), if_pos same]
      rfl

theorem check_eq_ok {value : Unit} : tree.check handle = .ok value ↔ handle.isOf tree = true := by
  rw [check_eq]
  split <;> simp [*]

theorem check_known (known : handle.isOf tree = true) : tree.check handle = .ok () :=
  check_eq_ok.mpr known

theorem check_foreign (unknown : foreign.isOf tree = false) :
    tree.check foreign = .error (.invalidNode foreign.id) := by
  rw [check_eq, unknown]
  rfl

/-- The first foreign one among arguments of the declared kinds is reported. -/
theorem checkArguments_foreign {arguments : List Handle}
    (first : arguments.find? (fun handle => !handle.isOf tree) = some foreign) (position : Nat) :
    tree.checkArguments position arguments (arguments.map Handle.kind) =
      .error (.invalidNode foreign.id) := by
  induction arguments generalizing position with
  | nil => cases first
  | cons argument rest ih =>
    simp only [checkArguments, List.map_cons]
    cases known : argument.isOf tree with
    | false =>
      simp only [List.find?_cons, known, Bool.not_false] at first
      obtain rfl := Option.some.inj first
      rw [check_foreign known]
      rfl
    | true =>
      simp only [List.find?_cons, known, Bool.not_true] at first
      rw [check_known known]
      simp only [ne_eq, not_true_eq_false, if_false]
      exact ih first (position + 1)

/-- Arguments that have been accepted are of the tree. -/
theorem known_of_checkArguments {position : Nat} {arguments : List Handle} {kinds : List Kind}
    {value : Unit} (same : kinds.length = arguments.length)
    (checked : tree.checkArguments position arguments kinds = .ok value) :
    ∀ argument ∈ arguments, argument.isOf tree = true := by
  induction arguments generalizing position kinds with
  | nil => exact fun _ member => (List.not_mem_nil member).elim
  | cons first rest ih =>
    cases kinds with
    | nil => cases same
    | cons expected others =>
      simp only [checkArguments, except_bind_eq_ok] at checked
      obtain ⟨_, accepted, checked⟩ := checked
      split at checked
      · obtain ⟨_, thrown, _⟩ := except_bind_eq_ok.mp checked
        cases thrown
      · exact List.forall_mem_cons.mpr ⟨check_eq_ok.mp accepted, ih (Nat.succ.inj same) checked⟩

end Tree

namespace Construction

variable {tree : Tree} {request : Construction}

/-- A call of a constructor is granted only if all its handles are of the tree. -/
theorem known_of_build {made : NodeId × Tree} (done : request.build tree = .ok made) :
    ∀ handle ∈ request.handles, handle.isOf tree = true := by
  cases request with
  | constant kind bits | parameter kind index => exact fun _ member => (List.not_mem_nil member).elim
  | arith operation kind integer left right =>
    simp only [build, Tree.arith, except_bind_eq_ok, Tree.check_eq_ok] at done
    obtain ⟨_, leftKnown, _, rightKnown, _⟩ := done
    simp [handles, leftKnown, rightKnown]
  | call function signature arguments =>
    simp only [build, Tree.call, except_bind_eq_ok, Tree.check_eq_ok] at done
    obtain ⟨_, functionKnown, done⟩ := done
    split at done
    · obtain ⟨_, thrown, _⟩ := except_bind_eq_ok.mp done
      cases thrown
    · rename_i arity
      simp only [except_bind_eq_ok] at done
      obtain ⟨_, checked, _⟩ := done
      exact List.forall_mem_cons.mpr
        ⟨functionKnown, Tree.known_of_checkArguments (Decidable.not_not.mp arity) checked⟩

/-- Otherwise the first handle that is not of the tree is reported. -/
theorem build_foreign {foreign : Handle} (declared : request.Declared)
    (first : request.handles.find? (fun handle => !handle.isOf tree) = some foreign) :
    request.build tree = .error (.invalidNode foreign.id) := by
  cases request with
  | constant kind bits | parameter kind index => cases first
  | arith operation kind integer left right =>
    simp only [build, Tree.arith]
    cases leftKnown : Handle.isOf tree ⟨left, kind⟩ with
    | false =>
      simp only [handles, List.find?_cons, leftKnown, Bool.not_false] at first
      obtain rfl := Option.some.inj first
      rw [Tree.check_foreign leftKnown]
      rfl
    | true =>
      cases rightKnown : Handle.isOf tree ⟨right, kind⟩ with
      | false =>
        simp only [handles, List.find?_cons, leftKnown, rightKnown, Bool.not_true,
          Bool.not_false] at first
        obtain rfl := Option.some.inj first
        rw [Tree.check_known leftKnown, Tree.check_foreign rightKnown]
        rfl
      | true => simp [handles, leftKnown, rightKnown] at first
  | call function signature arguments =>
    simp only [Declared] at declared
    simp only [build, Tree.call]
    cases functionKnown : Handle.isOf tree ⟨function, .ptr⟩ with
    | false =>
      simp only [handles, List.find?_cons, functionKnown, Bool.not_false] at first
      obtain rfl := Option.some.inj first
      rw [Tree.check_foreign functionKnown]
      rfl
    | true =>
      simp only [handles, List.find?_cons, functionKnown, Bool.not_true] at first
      rw [Tree.check_known functionKnown, ← declared, Tree.checkArguments_foreign first,
        if_neg (not_not.mpr (List.length_map _))]
      rfl

end Construction

variable {options : Options} {tree : Tree} {work : Workspace}

/-- A compilation of a root that does not exist fails and changes nothing. One of a root that
exists, of whatever kind, is never refused on account of the root. The constructors on the other
hand succeed only with handles of nodes that exist and have the kinds that are claimed, and report
the first other one if a call's arguments have the kinds that are declared. -/
theorem compile_checks_existence (history : History options tree work) (signature : Signature)
    (root : NodeId) :
    (tree.node? root = none → compile tree signature root work = .error (.invalidNode root) work) ∧
    (∀ node id after, tree.node? root = some node →
      compile tree signature root work ≠ .error (.invalidNode id) after) ∧
    ∀ request : Construction,
      (∀ made, request.build tree = .ok made →
        ∀ handle ∈ request.handles, handle.isOf tree = true) ∧
      (request.Declared → ∀ foreign,
        request.handles.find? (fun handle => !handle.isOf tree) = some foreign →
          request.build tree = .error (.invalidNode foreign.id) ∧ request.leaves tree = tree) := by
  refine ⟨fun absent => ?_, fun node id after found failed => ?_, fun request =>
    ⟨fun made => Construction.known_of_build, fun declared foreign first => ?_⟩⟩
  · simp only [compile, Tree.node_missing absent]
    rfl
  · by_cases declared : tree.Declared signature.parameters
    · have yields := compile_yields history.built.formed history.integral declared found work
      rw [Build.Yields, failed] at yields
      simp [CompileError.isExhaustion] at yields
    · obtain ⟨_, _, _, _, _, _, mismatch⟩ := compile_undeclared found declared work
      cases failed.symm.trans mismatch
  · have refused := Construction.build_foreign declared first
    exact ⟨refused, by simp only [Construction.leaves, refused]⟩

/-- Of a tree with one wide integer, a root that does not exist is refused, and so is the sum of the
integer with itself as narrow ones. -/
theorem compile_checks_existence_foreign :
    let tree := (Tree.empty.constant .i64 1).2
    History .default tree (.new .default) ∧
      compile tree ⟨[], .i64⟩ 1 (.new .default) = .error (.invalidNode 1) (.new .default) ∧
      Construction.build tree (.arith .add .i32 rfl 0 0) = .error (.invalidNode 0) := by
  intro tree
  have history : History .default tree (.new .default) := .constant .new .i64 1
  obtain ⟨missing, _, constructors⟩ := compile_checks_existence history ⟨[], .i64⟩ 1
  exact ⟨history, missing rfl, ((constructors (.arith .add .i32 rfl 0 0)).2 trivial _ rfl).1⟩

/-- The integer is compiled as a floating-point result. -/
theorem compile_checks_existence_other_kind :
    let tree := (Tree.empty.constant .i64 1).2
    tree.node? 0 = some ⟨.i64, .constant 1, 0⟩ ∧
      ∃ compiled after, compile tree ⟨[], .f64⟩ 0 (.new .default) = .ok compiled after := by
  decide +kernel

end NativeExpr
