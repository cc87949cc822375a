import NativeExpr.Proofs.Exhaustion.Labeling

/-!
# Compilations that fail for want of room only

Where arithmetic is on integers and the function has the parameters that are named, a compilation
of a node that exists succeeds unless registers and slots run out, whatever the workspace was like
before.
-/

namespace NativeExpr

namespace Tree

/-- Whether arithmetic is on values of general-purpose registers only, as the types of the host
see to. -/
def Integral (tree : Tree) : Prop :=
  ∀ id node operation left right, tree.node? id = some node →
    node.operation = .arith operation left right → node.kind.bank = .generalPurpose

variable {tree : Tree} {root : NodeId}

/-- What a root needs in a tree that is well formed can be generated. -/
theorem Formed.generable (formed : tree.Formed) (integral : tree.Integral)
    {parameters : List Kind} (declared : tree.Declared parameters)
    {node : Node} (found : tree.node? root = some node) :
    tree.Generable (tree.Reaches root) parameters.length where
  formed := formed
  found id reaches := by
    have within : id < tree.nodes.size :=
      Nat.lt_of_le_of_lt (formed.le_of_reaches reaches) (lt_size_of_node found)
    exact ⟨_, Array.getElem?_eq_getElem within⟩
  closed := tree.closed_reaches root
  integral id node operation left right _ := integral id node operation left right
  declared id node index _ found here :=
    (List.getElem?_eq_some_iff.mp (declared id node index found here)).1

end Tree

namespace Routine

theorem granted_prologue (size : BitVec 32) :
    ∀ request ∈ Transfer.prologue Convention.calleeSaved size, request.Granted := by
  have top := Request.granted_general (rfl : Register.rsp.bank = .generalPurpose) (by decide)
  have saved : ∀ register ∈ Convention.calleeSaved,
      register.bank = .generalPurpose ∧ register.InBank := by decide
  intro request member
  simp only [Transfer.prologue, List.mem_append, List.mem_cons, List.mem_map, List.not_mem_nil,
    or_false] at member
  rcases member with ((rfl | rfl) | ⟨register, listed, rfl⟩) | lowered
  · exact (Request.granted_general rfl (by decide)).1
  · exact Request.granted_move (by decide) (by decide)
  · exact (Request.granted_general (saved register listed).1 (saved register listed).2).1
  · split at lowered
    · exact (List.not_mem_nil lowered).elim
    · rw [List.mem_singleton.mp lowered]
      exact top.2.2.2 .sub size

theorem granted_epilogue :
    ∀ request ∈ Transfer.epilogue Convention.calleeSaved, request.Granted := by
  have saved : ∀ register ∈ Convention.calleeSaved,
      register.bank = .generalPurpose ∧ register.InBank := by decide
  intro request member
  simp only [Transfer.epilogue, List.mem_append, List.mem_cons, List.mem_map, List.mem_reverse,
    List.not_mem_nil, or_false] at member
  rcases member with (rfl | ⟨register, listed, rfl⟩) | rfl | rfl
  · exact (Request.granted_memory rfl (by decide) rfl (by decide) _).2
  · exact (Request.granted_general (saved register listed).1 (saved register listed).2).2.1
  · exact (Request.granted_general rfl (by decide)).2.1
  · exact ⟨_, rfl⟩

theorem granted_homeParameter (home : Offset) {place : Place}
    (real : ∀ register, place = .register register → register.InBank) :
    ∀ request ∈ homeParameter home place, request.Granted := by
  have base : Register.InBank .rbp := by decide
  have scratch := MoveSchedule.scratch_inBank .generalPurpose
  cases place with
  | register register =>
    simpa [homeParameter] using Request.granted_store (real register rfl) rfl base home
  | stack offset =>
    simpa [homeParameter] using ⟨Request.granted_load scratch rfl base (16 + offset),
      Request.granted_store scratch rfl base home⟩

/-- Every function can be begun. -/
theorem start_ok (parameters : List Kind) (slots : Nat) :
    ∃ routine, start parameters slots = .ok routine := by
  have granted : ∀ request ∈ entering (new parameters slots), request.Granted := by
    intro request member
    rcases List.mem_append.mp member with member | member
    · exact granted_prologue _ request member
    · obtain ⟨⟨home, place⟩, pair, member⟩ := List.mem_flatMap.mp member
      refine granted_homeParameter home (fun register here => ?_) request member
      have listed : place ∈ Convention.places parameters := (List.of_mem_zip pair).2
      exact (Convention.usable_of_mem_places (here ▸ listed)).1.inBank
  obtain ⟨_, later, written⟩ := succeeds_write granted (new parameters slots)
  refine ⟨later, start_eq_ok.mpr ?_⟩
  simp only [enter, estate_bind_eq_ok, estate_get_eq_ok]
  exact ⟨_, _, ⟨rfl, rfl⟩, written⟩

/-- Every function can be ended with a result that is somewhere. -/
theorem succeeds_leave {result : Location}
    (real : ∀ register, result = .register register → register.InBank) (kind : Kind) :
    (leave result kind).Succeeds := by
  refine succeeds_write fun request member => ?_
  rcases List.mem_append.mp member with member | member
  · exact Transfer.granted_intoRegister (Stage.resultRegister_real kind.bank).1 real request member
  · exact granted_epilogue request member

end Routine

open Build (Yields)

variable {tree : Tree} {signature : Signature} {root : NodeId} {work : Workspace}

theorem Compilation.start_ok {parameters : List Kind} {routine : Routine}
    (started : Routine.start parameters work.options.tempSlots = .ok routine) :
    start parameters work = .ok () { work with routine := some routine } := by
  simp only [start, estate_bind_eq_ok, estate_get_eq_ok]
  refine ⟨work, work, ⟨rfl, rfl⟩, ?_⟩
  rw [started]
  rfl

/-- A function that has been begun can be ended. -/
theorem Compilation.yields_finish {routine : Routine} (begun : work.routine = some routine)
    {result : Location} (real : ∀ register, result = .register register → register.InBank)
    (kind : Kind) : (finish result kind).Yields work fun _ _ => True := by
  have taken : takeRoutine work = .ok routine { work with routine := none } := by
    rw [takeRoutine_eq, begun]
  obtain ⟨_, ended, left⟩ := Routine.succeeds_leave real kind routine
  refine Yields.after taken ?_
  rw [left]
  exact trivial

/-- A compilation succeeds unless registers and slots run out. -/
theorem compile_yields (formed : tree.Formed) (integral : tree.Integral)
    (declared : tree.Declared signature.parameters) {node : Node}
    (found : tree.node? root = some node) (work : Workspace) :
    (compile tree signature root).Yields work fun _ _ => True := by
  have generable := formed.generable integral declared found
  have within := Tree.lt_size_of_node found
  simp only [compile]
  refine Yields.after (Build.lift_ok (Build.node_ok found)) ?_
  refine Yields.after (Build.lift_ok (Tree.checkParameters_eq_ok.mpr declared)) ?_
  refine Yields.afterModify ?_
  refine (Labeling.covers_within generable tree.size root .refl within true work.reset).bind
    fun _ labeled labeling covers => ?_
  have same := Labeling.root_labels labeling
  rw [Labeling.LabelsOnly] at same
  obtain ⟨routine, started⟩ := Routine.start_ok signature.parameters labeled.options.tempSlots
  refine Yields.after (Compilation.start_ok started) ?_
  have ready : ({ labeled with routine := some routine } : Workspace).Ready tree
      (tree.Reaches root) signature.parameters.length [] := by
    have empty : labeled.Balanced [] := by
      rw [same]
      exact Workspace.balanced_of_empty rfl rfl rfl
    have unbegun : labeled.routine = none := by
      rw [same]
      rfl
    exact {
      balanced := empty.opened (.inr ⟨unbegun, signature.parameters, started⟩)
      begun := ⟨routine, rfl, Routine.length_homes_of_start started⟩
      labeled := fun id reaches => covers id (.inr ⟨root, List.mem_singleton_self root, reaches⟩)
      kept := fun id storage kept => by
        rw [same] at kept
        simp [Workspace.reset] at kept }
  refine (Generation.yields_within generable tree.size root .refl within _ _ [] ready).bindBoth
    fun result _ suits ready => ?_
  refine (Build.yields_release ready).bind fun _ _ _ ready => ?_
  obtain ⟨_, begun, _⟩ := ready.begun
  exact Compilation.yields_finish begun suits.real signature.result

end NativeExpr
