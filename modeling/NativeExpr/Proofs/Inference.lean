import NativeExpr.Proofs.Inference.Interaction

/-!
# Parameters of values that are generated outside of compilations

A value that is generated outside of a compilation is in a function whose parameters were inferred
when it was begun. Each parameter that is needed for the value has been brought home from its place
in a function of these parameters. A node that disagrees with them is not refused as by a
compilation: only a parameter that the function does not have is.
-/

namespace NativeExpr

variable {tree : Tree} {work after : Workspace} {cause : CompileError}

/-- Every function can be begun if its parameters can be inferred. -/
theorem Build.of_routine_error (failed : Build.routine tree work = .error cause after) :
    tree.inferParameters = .error cause := by
  simp only [Build.routine] at failed
  rw [estate_bind_of_ok (rfl : (get : Build Workspace) work = .ok work work)] at failed
  cases begun : work.routine with
  | some routine =>
    rw [begun] at failed
    cases failed
  | none =>
    simp only [begun] at failed
    cases inferred : tree.inferParameters with
    | error other =>
      rw [inferred] at failed
      cases failed
      rfl
    | ok parameters =>
      obtain ⟨started, starts⟩ := Routine.start_ok parameters work.options.tempSlots
      rw [inferred, estate_bind_of_ok (Build.lift_ok rfl),
        estate_bind_of_ok (rfl : (get : Build Workspace) work = .ok work work), starts] at failed
      cases failed

/-- Whether an error says that the function cannot have a parameter that a node asks for. -/
def CompileError.RefusesParameter (cause : CompileError) (tree : Tree) : Prop :=
  ∃ id node index, tree.node? id = some node ∧ node.operation = .parameter index ∧
    cause = .parameterMismatch index none node.kind

/-- A parameter that cannot be referred to is refused. -/
theorem Generation.of_parameter_error {id : NodeId} {node : Node} {index : Nat}
    (found : tree.node? id = some node) (operates : node.operation = .parameter index)
    (failed : parameter tree index node.kind work = .error cause after) :
    cause.RefusesParameter tree := by
  simp only [parameter] at failed
  cases opening : Build.routine tree work with
  | error other between =>
    have refused : Build.onRoutine tree (Routine.home? index) work = .error other between :=
      estate_bind_of_error opening
    rw [estate_bind_of_error refused] at failed
    cases failed
    exact Tree.of_inferParameters_error (Build.of_routine_error opening)
  | ok routine between =>
    have looked : Build.onRoutine tree (Routine.home? index) work =
        .ok (routine.frame.home? index) { between with routine := some routine } :=
      estate_bind_of_ok opening
    rw [estate_bind_of_ok looked] at failed
    cases home : routine.frame.home? index with
    | some offset =>
      rw [home] at failed
      cases failed
    | none =>
      rw [home] at failed
      cases failed
      exact ⟨id, node, index, found, operates, rfl⟩

theorem Generation.of_value_error {id : NodeId} {node : Node} {index label : Nat}
    (found : tree.node? id = some node) (operates : node.operation = .parameter index)
    (labeled : work.labels[id]? = some label)
    (failed : value tree id work = .error cause after) : cause.RefusesParameter tree := by
  obtain ⟨depth, size⟩ := Nat.exists_eq_add_one_of_ne_zero
    (Nat.ne_zero_of_lt (Tree.lt_size_of_node found))
  have asked : Build.label tree id work = .ok label work := by rw [Build.label_eq found, labeled]
  simp only [value, visit, size, within, Generation.node] at failed
  rw [estate_bind_of_ok (Build.lift_ok (Build.node_ok found)), estate_bind_of_ok asked,
    estate_bind_of_ok (rfl : (get : Build Workspace) work = .ok work work)] at failed
  cases cached : work.caches[id]? with
  | some storage =>
    rw [cached] at failed
    cases failed
  | none =>
    simp only [cached, operates, operation] at failed
    cases made : parameter tree index node.kind work with
    | error other between =>
      rw [estate_bind_of_error made] at failed
      cases failed
      exact of_parameter_error found operates made
    | ok storage between =>
      rw [estate_bind_of_ok made] at failed
      split at failed <;> cases failed

/-- Whether the function that is being generated begins as another one, which leaves in the home of
a parameter what its caller has put in a place. -/
def Workspace.BringsHome (work : Workspace) (started : Routine) (index : Nat) (place : Place) :
    Prop :=
  ∃ routine home, work.routine = some routine ∧ started.Extends routine ∧
    routine.frame.home? index = some home ∧
      ∀ natives (entry : Machine), (entry.after natives started.code.toList).value (.slot home) =
        entry.received place

/-- A parameter that has a home is brought there. -/
theorem Workspace.bringsHome_of_extends {parameters : List Kind} {slots index : Nat}
    {started routine : Routine} (starts : Routine.start parameters slots = .ok started)
    (few : parameters.length ≤ 2 ^ 28 - 5) (there : work.routine = some routine)
    (extended : started.Extends routine) {place : Place}
    (placed : (Convention.places parameters)[index]? = some place) :
    work.BringsHome started index place := by
  have within : index < routine.frame.homes.length := by
    rw [extended.homes, Routine.length_homes_of_start starts]
    have bound := (List.getElem?_eq_some_iff.mp placed).1
    rwa [Convention.places, Assigner.length_assignAll] at bound
  have homed : routine.frame.home? index = some routine.frame.homes[index] :=
    List.getElem?_eq_getElem within
  refine ⟨routine, _, there, extended, homed, fun natives entry => ?_⟩
  obtain ⟨home, found, holds⟩ := Routine.homes_of_start starts few natives entry placed
  rw [Frame.home?, ← extended.homes] at found
  exact Option.some.inj (homed.symm.trans found) ▸ holds

namespace Interaction

variable {options : Options} {interactions : List Interaction}

/-- A node that was there when a function was begun, and with which no other node for its parameter
disagreed then, has its kind among the parameters that were inferred. -/
theorem Begins.kind {declaring : Tree} {parameters : List Kind} {started : Routine}
    (begins : Begins options interactions declaring parameters started) {parameter : NodeId}
    {node : Node} {index : Nat}
    (found : (runAll options interactions).1.node? parameter = some node)
    (operates : node.operation = .parameter index) (older : parameter < declaring.size)
    (agrees : declaring.Agrees index) : parameters[index]? = some node.kind := by
  obtain ⟨earlier, before, rfl⟩ := begins.earlier
  have here := Array.getElem?_eq_getElem older
  obtain ⟨same, there, kinds, operations⟩ := node_of_prefix before here
  obtain rfl := Option.some.inj (found.symm.trans there)
  have asks := operations.symm.trans operates
  have declared := Tree.lt_length_inferParameters begins.inferred here asks
  rw [Tree.getElem?_inferParameters begins.inferred declared, agrees.inferredKind here asks, kinds]

theorem carriesOn_of_value {id : NodeId} {value : Storage}
    (done : Generation.value tree id work = .ok value after) : work.CarriesOn tree after := by
  have left := carriesOn_run (tree, work) (.generate id)
  simpa only [run, Build.leaves, done] using left

/-- Whatever nodes were constructed, labeled and generated before, a function in which a value has
been generated brings every parameter that is needed for it home from its place among the parameters
that were inferred when the function was begun. The parameter has the kind of the last node for it
that was there by then, and the nodes that were there are as a compilation asks for them just if no
two of them disagree. So it is the place for the kind of a node if the node was there and no other
node for the parameter disagreed. A labeled parameter node is generated if it is not refused for the
parameter that some node asks for. -/
theorem parameters_of_value (reached : runAll options interactions = (tree, work))
    {parameter : NodeId} {node : Node} {index : Nat} (found : tree.node? parameter = some node)
    (operates : node.operation = .parameter index) :
    (∀ id value after, tree.Reaches id parameter →
      Generation.value tree id work = .ok value after →
        ∃ declaring parameters started place,
          Begins options interactions declaring parameters started ∧
          (Convention.places parameters)[index]? = some place ∧
          after.BringsHome started index place ∧
          parameters[index]? = some (declaring.inferredKind index) ∧
          (declaring.Declared parameters ↔ ∀ other, declaring.Agrees other) ∧
          (parameter < declaring.size → declaring.Agrees index →
            parameters[index]? = some node.kind)) ∧
    ∀ label cause after, work.labels[parameter]? = some label →
      Generation.value tree parameter work = .error cause after → cause.RefusesParameter tree := by
  have known := reached_runAll options interactions
  have same : (runAll options interactions).1 = tree := congrArg Prod.fst reached
  rw [congrArg Prod.snd reached] at known
  refine ⟨fun id value after reaches done => ?_, fun label cause after labeled failed =>
    Generation.of_value_error found operates labeled failed⟩
  have carriesOn := carriesOn_of_value done
  have ends : (Generation.value tree id).Ends work (fun _ after => after.Houses tree [id])
      (Workspace.Houses tree · []) :=
    Generation.houses_within tree.size id none [] work (same ▸ known.houses)
  rw [Build.Ends, done] at ends
  have within := ends.others id List.mem_cons_self parameter node index reaches found operates
  cases there : after.routine with
  | none =>
    rw [Workspace.homeCount_of_none there] at within
    exact absurd within (Nat.not_lt_zero _)
  | some routine =>
    rw [Workspace.homeCount_of_some there] at within
    obtain ⟨declaring, parameters, started, begins, extended⟩ :=
      known.begun_of_carriesOn (same ▸ carriesOn) there
    have declared : index < parameters.length := by
      rwa [extended.homes, Routine.length_homes_of_start begins.starts] at within
    have placed : index < (Convention.places parameters).length := by
      rwa [Convention.places, Assigner.length_assignAll]
    have few : parameters.length ≤ 2 ^ 28 - 5 :=
      (Tree.length_inferParameters begins.inferred).trans (by decide)
    have place := List.getElem?_eq_getElem placed
    exact ⟨declaring, parameters, started, _, begins, place,
      Workspace.bringsHome_of_extends begins.starts few there extended place,
      Tree.getElem?_inferParameters begins.inferred declared,
      Tree.declared_inferParameters begins.inferred, begins.kind (same ▸ found) operates⟩

/-- The second parameter of a function is a floating-point number, and nothing is known about the
first one: it is brought home from where the first floating-point number is passed. -/
theorem parameters_of_value_second :
    let interactions : List Interaction := [.construct (.parameter .f64 1), .label 0 true]
    ∃ value after started, Generation.value (runAll .default interactions).1 0
        (runAll .default interactions).2 = .ok value after ∧
      after.BringsHome started 1 (.register (.xmm 0)) := by
  intro interactions
  obtain ⟨value, after, done⟩ : ∃ value after, Generation.value (runAll .default interactions).1 0
      (runAll .default interactions).2 = .ok value after := by decide +kernel
  obtain ⟨homed, -⟩ := @parameters_of_value _ _ .default interactions rfl 0
    ⟨.f64, .parameter 1, 0⟩ 1 rfl rfl
  obtain ⟨_, parameters, started, place, begins, placed, brings, -⟩ :=
    homed 0 value after .refl done
  have passed : place = .register (.xmm 0) := by
    obtain ⟨⟨earlier, before, rfl⟩, inferred, -⟩ := begins
    have listed : earlier ∈ interactions.inits := (List.mem_inits ..).mpr before
    simp only [interactions, List.inits, List.map_cons, List.map_nil, List.mem_cons,
      List.not_mem_nil, or_false] at listed
    rcases listed with rfl | rfl | rfl <;> cases inferred <;> cases placed
    all_goals rfl
  exact ⟨value, after, started, done, passed ▸ brings⟩

/-- Of two nodes that disagree about a parameter the first one is generated all the same, though the
function has brought the parameter home from where it is passed if it is a floating-point number. -/
theorem parameters_of_value_conflict :
    let interactions : List Interaction := [.construct (.parameter .i64 0),
      .construct (.parameter .f64 0), .label 0 true]
    let tree := (runAll .default interactions).1
    let work := (runAll .default interactions).2
    ∃ value after started, tree.node? 0 = some ⟨.i64, .parameter 0, 0⟩ ∧
      Generation.value tree 0 work = .ok value after ∧
      Begins .default interactions tree [.f64] started ∧
      after.BringsHome started 0 (.register (.xmm 0)) ∧
      ∀ kinds place, kinds[0]? = some Kind.i64 → (Convention.places kinds)[0]? = some place →
        ¬after.BringsHome started 0 place := by
  intro interactions tree work
  obtain ⟨value, after, done, being⟩ : ∃ value after,
      Generation.value tree 0 work = .ok value after ∧ after.routine.isSome := by decide +kernel
  obtain ⟨routine, there⟩ := Option.isSome_iff_exists.mp being
  have inferred : tree.inferParameters = .ok [.f64] := rfl
  obtain ⟨started, ⟨-, parameters, given, starts⟩, extended⟩ :=
    (carriesOn_of_value done).begun rfl there
  obtain rfl := Except.ok.inj (inferred.symm.trans given)
  have brings := Workspace.bringsHome_of_extends starts (by decide) there extended
    (rfl : (Convention.places [.f64])[0]? = some (.register (.xmm 0)))
  refine ⟨value, after, started, rfl, done,
    ⟨⟨interactions, List.prefix_rfl, rfl⟩, inferred, starts⟩, brings,
    fun kinds place integer placed others => ?_⟩
  obtain rfl : place = .register .rdi := by
    cases kinds with
    | nil => cases integer
    | cons kind rest =>
      cases integer
      exact (Option.some.inj placed).symm
  obtain ⟨_, home, here, _, homed, arrives⟩ := brings
  obtain ⟨_, _, same, _, found, others⟩ := others
  obtain rfl := Option.some.inj (here.symm.trans same)
  obtain rfl := Option.some.inj (homed.symm.trans found)
  let entry : Machine := ⟨fun _ => 1, fun _ => 2, fun _ => 0⟩
  have equal := (arrives (fun _ machine => machine) entry).symm.trans
    (others (fun _ machine => machine) entry)
  cases equal

end Interaction

end NativeExpr
