import NativeExpr.Proofs.Arrival
import NativeExpr.Proofs.Construction
import NativeExpr.Proofs.Inference.Homes
import NativeExpr.Proofs.Inference.Kinds
import NativeExpr.Proofs.Keeping

/-!
# Functions that are begun for inferred parameters

Outside of a compilation a function is begun when the first value is generated that needs one, for
the parameters that are inferred from the nodes that are there by then. Nodes that are added later
have no say in them. Whatever a host asks for, done or not, the function goes on from there, and it
has homes for all that is needed for the values that are kept.
-/

namespace NativeExpr

/-- What a host asks for outside of a compilation. -/
inductive Interaction where
  | construct (request : Construction)
  | label (id : NodeId) (isLeft : Bool)
  | generate (id : NodeId)

namespace Interaction

/-- The tree and the workspace after something was asked for, done or not. -/
def run (state : Tree × Workspace) : Interaction → Tree × Workspace
  | .construct request => (request.leaves state.1, state.2)
  | .label id isLeft => (state.1, (Labeling.subtree state.1 id isLeft).leaves state.2)
  | .generate id => (state.1, (Generation.value state.1 id).leaves state.2)

/-- The tree and the workspace after all that was asked for. -/
def runAll (options : Options) (interactions : List Interaction) : Tree × Workspace :=
  interactions.foldl run (.empty, .new options)

theorem runAll_concat (options : Options) (interactions : List Interaction)
    (interaction : Interaction) :
    runAll options (interactions ++ [interaction]) =
      run (runAll options interactions) interaction := by
  simp only [runAll, List.foldl_append, List.foldl_cons, List.foldl_nil]

/-- The constructor that is called, if one is. -/
def construction? : Interaction → Option Construction
  | .construct request => some request
  | _ => none

variable {options : Options} {interactions earlier : List Interaction}

/-- Only constructors change the tree. -/
theorem tree_runAll (options : Options) (interactions : List Interaction) :
    (runAll options interactions).1 =
      Tree.ofConstructions (interactions.filterMap construction?) := by
  induction interactions using List.reverseRecOn with
  | nil => rfl
  | append_singleton rest last ih =>
    rw [runAll_concat, List.filterMap_append]
    cases last with
    | construct request =>
      exact (congrArg request.leaves ih).trans (Tree.ofConstructions_append_singleton _ _).symm
    | label id isLeft | generate id =>
      exact ih.trans (congrArg Tree.ofConstructions (List.append_nil _).symm)

theorem sound_runAll (options : Options) (interactions : List Interaction) :
    (runAll options interactions).1.Sound (interactions.filterMap construction?) :=
  tree_runAll options interactions ▸ Tree.sound_ofConstructions _

end Interaction

/-- A constructor that is called adds a node, or is refused. -/
theorem Construction.leaves_eq_append (tree : Tree) (request : Construction) :
    request.leaves tree = tree ∨
      ∃ kind operation, request.leaves tree = (tree.append kind operation).2 := by
  rw [leaves]
  cases done : request.build tree with
  | error cause => exact .inl rfl
  | ok made =>
    obtain ⟨id, later⟩ := made
    right
    cases request with
    | constant kind bits | parameter kind index =>
      obtain ⟨rfl, rfl⟩ := Prod.mk.inj (Except.ok.inj done)
      exact ⟨_, _, rfl⟩
    | arith operation kind integer left right =>
      obtain ⟨_, _, rfl⟩ := Tree.of_arith done
      exact ⟨_, _, rfl⟩
    | call function signature handles =>
      obtain ⟨_, _, _, rfl⟩ := Tree.of_call done
      exact ⟨_, _, rfl⟩

namespace Interaction

variable {options : Options} {interactions earlier : List Interaction}

/-- Nodes stay what they are. -/
theorem node_of_prefix (before : earlier <+: interactions) {id : NodeId} {node : Node}
    (found : (runAll options earlier).1.node? id = some node) :
    ∃ same, (runAll options interactions).1.node? id = some same ∧ same.kind = node.kind ∧
      same.operation = node.operation := by
  obtain ⟨later, rfl⟩ := before
  induction later using List.reverseRecOn with
  | nil => exact ⟨node, (List.append_nil earlier).symm ▸ found, rfl, rfl⟩
  | append_singleton rest last ih =>
    rw [← List.append_assoc, runAll_concat]
    obtain ⟨same, there, kind, operates⟩ := ih
    cases last with
    | construct request =>
      rcases request.leaves_eq_append (runAll options (earlier ++ rest)).1 with
        refused | ⟨_, _, added⟩
      · exact ⟨same, (congrArg (Tree.node? · id) refused).trans there, kind, operates⟩
      · obtain ⟨other, further, kinds, operations⟩ := Tree.node_append_of_node there
        exact ⟨other, (congrArg (Tree.node? · id) added).trans further, kinds.trans kind,
          operations.trans operates⟩
    | label _ _ | generate _ => exact ⟨same, there, kind, operates⟩

/-- Whether a function is begun for the parameters that are inferred from a tree that there was
after some of the interactions. -/
structure Begins (options : Options) (interactions : List Interaction) (tree : Tree)
    (parameters : List Kind) (started : Routine) : Prop where
  earlier : ∃ earlier, earlier <+: interactions ∧ (runAll options earlier).1 = tree
  inferred : tree.inferParameters = .ok parameters
  starts : Routine.start parameters options.tempSlots = .ok started

/-- Whether a workspace is one after interactions: a function in it extends one that was begun in
the course of them, and has homes for all that is needed for the nodes whose values are kept. -/
structure Reached (options : Options) (interactions : List Interaction) (work : Workspace) :
    Prop where
  configured : work.options = options
  begun : ∀ routine, work.routine = some routine → ∃ tree parameters started,
    Begins options interactions tree parameters started ∧ started.Extends routine
  houses : work.Houses (runAll options interactions).1 []

theorem Begins.concat {tree : Tree} {parameters : List Kind} {started : Routine}
    (begins : Begins options interactions tree parameters started) (interaction : Interaction) :
    Begins options (interactions ++ [interaction]) tree parameters started where
  earlier := by
    obtain ⟨earlier, before, same⟩ := begins.earlier
    exact ⟨earlier, before.trans (List.prefix_append ..), same⟩
  inferred := begins.inferred
  starts := begins.starts

/-- A function that is gone on with, or begun, is one that is begun in the course of the
interactions. -/
theorem Reached.begun_of_carriesOn {work after : Workspace}
    (reached : Reached options interactions work)
    (carriesOn : work.CarriesOn (runAll options interactions).1 after) {routine : Routine}
    (there : after.routine = some routine) : ∃ tree parameters started,
      Begins options interactions tree parameters started ∧ started.Extends routine := by
  rcases carriesOn.routine with same | ⟨opened, continued, writes, here, extended⟩
  · exact reached.begun routine (same ▸ there)
  obtain rfl := Option.some.inj (here.symm.trans there)
  rcases writes with begun | ⟨_, parameters, inferred, starts⟩
  · obtain ⟨tree, parameters, started, begins, further⟩ := reached.begun opened begun
    exact ⟨tree, parameters, started, begins, Routine.evolution_extends.trans further extended⟩
  · rw [reached.configured] at starts
    exact ⟨_, parameters, opened, ⟨⟨interactions, List.prefix_rfl, rfl⟩, inferred, starts⟩,
      extended⟩

/-- Whatever is asked for, a function that is being generated is gone on with. -/
theorem carriesOn_run (state : Tree × Workspace) (interaction : Interaction) :
    state.2.CarriesOn state.1 (run state interaction).2 := by
  have generative := (Build.demanding_carriesOn state.1).generative
  cases interaction with
  | construct request => exact (Workspace.evolution_carriesOn _).refl _
  | label id isLeft => exact generative.labels _ id trivial isLeft _
  | generate id => exact generative.generates _ id trivial none _

/-- Only generation keeps values, and of nodes that there are homes for. -/
theorem houses_run {state : Tree × Workspace} (layered : state.1.Layered)
    (counted : state.1.Counted) (houses : state.2.Houses state.1 []) (interaction : Interaction) :
    (run state interaction).2.Houses (run state interaction).1 [] := by
  obtain ⟨tree, work⟩ := state
  cases interaction with
  | construct request =>
    simp only [run]
    rcases request.leaves_eq_append tree with refused | ⟨kind, operation, added⟩
    · exact refused.symm ▸ houses
    · exact added.symm ▸ houses.append layered kind operation
  | label id isLeft =>
    have only := Labeling.leaves_subtree layered counted id isLeft work
    rw [Labeling.LabelsOnly] at only
    simp only [run]
    rw [only]
    exact ⟨houses.kept, List.forall_mem_nil _⟩
  | generate id =>
    have ends : (Generation.value tree id).Ends work (fun _ after => after.Houses tree [])
        (Workspace.Houses tree · []) :=
      (Generation.houses_within _ id none [] work houses).mono
        (fun _ _ houses => houses.forget) fun _ houses => houses
    exact Build.ends_iff_leaves.mp ends

theorem Reached.run (reached : Reached options interactions (runAll options interactions).2)
    (interaction : Interaction) : Reached options (interactions ++ [interaction])
      (runAll options (interactions ++ [interaction])).2 := by
  have sound := sound_runAll options interactions
  have carriesOn := carriesOn_run (runAll options interactions) interaction
  rw [← runAll_concat] at carriesOn
  refine ⟨carriesOn.options.trans reached.configured, fun routine there => ?_, ?_⟩
  · obtain ⟨tree, parameters, started, begins, extended⟩ :=
      reached.begun_of_carriesOn carriesOn there
    exact ⟨tree, parameters, started, begins.concat interaction, extended⟩
  · rw [runAll_concat]
    exact houses_run sound.layered sound.counted reached.houses interaction

theorem reached_runAll (options : Options) (interactions : List Interaction) :
    Reached options interactions (runAll options interactions).2 := by
  induction interactions using List.reverseRecOn with
  | nil =>
    refine ⟨rfl, fun _ => nofun, fun id storage kept => ?_, List.forall_mem_nil _⟩
    simp [runAll, Workspace.new] at kept
  | append_singleton rest last ih => exact ih.run last

end Interaction

end NativeExpr
