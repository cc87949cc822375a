import NativeExpr.Compilation
import NativeExpr.Proofs.Generation.Basic
import NativeExpr.Proofs.Labeling

/-!
# Successful compilations

What a compilation has done when it succeeds: it has begun a function of the signature,
generated the root with an empty pool and without kept values, and ended the function.
-/

namespace NativeExpr

/-- A workspace whose pool hands out the registers that its options allow. -/
def Workspace.Configured (work : Workspace) : Prop :=
  work.pool.allocatable = work.options.allocatable

theorem Workspace.configured_new (options : Options) : (Workspace.new options).Configured := rfl

/-- Resetting a workspace leaves a sound pool of which nothing is handed out. -/
theorem Workspace.Configured.sound_reset {work : Workspace} (configured : work.Configured) :
    work.reset.pool.Sound := by
  apply RegisterPool.sound_new
  intro register allowed
  rw [configured] at allowed
  exact Options.usable_of_allocatable allowed

namespace Routine

/-- The requests that fill the homes of the parameters. -/
def homing (frame : Frame) (parameters : List Place) : List Request :=
  (frame.homes.zip parameters).flatMap fun (home, place) => homeParameter home place

/-- The requests with which a function begins. -/
def entering (routine : Routine) : List Request :=
  Transfer.prologue Convention.calleeSaved routine.frame.size ++
    homing routine.frame routine.parameters

/-- The code of a function that is begun is what has been written for it. -/
theorem code_append_new (parameters : List Kind) (slots : Nat) (instructions : List Instruction) :
    ((new parameters slots).append instructions).code.toList = instructions := by
  simp [new]

theorem plain_prologue (saved : List Register) (size : BitVec 32) :
    ∀ request ∈ Transfer.prologue saved size, request.Plain := by
  simp only [Transfer.prologue, List.mem_append, List.mem_cons, List.mem_map]
  rintro request ((((rfl | rfl | none)) | ⟨register, _, rfl⟩) | member)
  · trivial
  · trivial
  · exact (List.not_mem_nil none).elim
  · trivial
  · split at member
    · exact (List.not_mem_nil member).elim
    · rw [List.mem_singleton] at member
      rw [member]
      trivial

theorem plain_homeParameter (home : Offset) (place : Place) :
    ∀ request ∈ homeParameter home place, request.Plain := by
  cases place <;> simp [homeParameter, Request.Plain]

theorem plain_homing (frame : Frame) (parameters : List Place) :
    ∀ request ∈ homing frame parameters, request.Plain := by
  intro request member
  obtain ⟨⟨home, place⟩, _, member⟩ := List.mem_flatMap.mp member
  exact plain_homeParameter home place request member

/-- A function begins with its prologue and its parameters on their way home. -/
theorem of_start {parameters : List Kind} {slots : Nat} {started : Routine}
    (done : start parameters slots = .ok started) :
    ∃ instructions, assemble (entering (new parameters slots)) = ⟨instructions, none⟩ ∧
      started = (new parameters slots).append instructions := by
  rw [start_eq_ok] at done
  simp only [enter, estate_bind_eq_ok, estate_get_eq_ok] at done
  obtain ⟨_, _, ⟨rfl, rfl⟩, written⟩ := done
  exact write_eq_ok.mp written

/-- A function that is begun has the frame that its parameters and slots ask for. -/
theorem frame_eq_of_start {parameters : List Kind} {slots : Nat} {started : Routine}
    (starts : start parameters slots = .ok started) :
    started.frame = .new parameters.length slots := by
  obtain ⟨_, _, rfl⟩ := of_start starts
  rfl

/-- A function that is begun has a home for each parameter. -/
theorem length_homes_of_start {parameters : List Kind} {slots : Nat} {started : Routine}
    (starts : start parameters slots = .ok started) :
    started.frame.homes.length = parameters.length := by
  simp [frame_eq_of_start starts, Frame.new]

/-- Nothing is called before the parameters are in their homes. -/
theorem straight_entering {routine : Routine} {instructions : List Instruction}
    (granted : assemble (entering routine) = ⟨instructions, none⟩) : Straight instructions := by
  apply straight_of_assemble granted
  intro request member
  rcases List.mem_append.mp member with member | member
  · exact plain_prologue _ _ request member
  · exact plain_homing _ _ request member

end Routine

namespace Compilation

variable {before after : Workspace}

theorem of_start {parameters : List Kind} {value : Unit}
    (done : start parameters before = .ok value after) :
    ∃ routine, Routine.start parameters before.options.tempSlots = .ok routine ∧
      after = { before with routine := some routine } := by
  simp only [start, estate_bind_eq_ok, estate_get_eq_ok] at done
  obtain ⟨_, _, ⟨rfl, rfl⟩, done⟩ := done
  cases started : Routine.start parameters before.options.tempSlots with
  | error cause =>
    simp only [started] at done
    exact absurd done estate_throw_ne_ok
  | ok routine =>
    simp only [started, estate_modify_eq_ok] at done
    exact ⟨routine, rfl, done.symm⟩

theorem takeRoutine_eq (work : Workspace) :
    takeRoutine work = match work.routine with
      | some routine => .ok routine { work with routine := none }
      | none => match Routine.start [] work.options.tempSlots with
        | .ok routine => .ok routine work
        | .error cause => .error (.encoding cause) work := by
  change (match work.routine with
    | some routine => _
    | none => _ : Build Routine) work = _
  cases work.routine with
  | some routine => rfl
  | none => cases Routine.start [] work.options.tempSlots <;> rfl

/-- The function that is ended is the one being generated, and its size is counted. -/
theorem of_finish {routine : Routine} {result : Location} {kind : Kind} {compiled : Compiled}
    (begun : before.routine = some routine)
    (done : finish result kind before = .ok compiled after) :
    (∃ ended, Routine.leave result kind routine = .ok () ended ∧
      compiled.instructions = ended.code.toList) ∧
    compiled.statistics = { before.statistics with
      instructionsEmitted := compiled.instructions.length
      codeSize := (machineCode compiled.instructions).length } ∧
    after = { before with routine := none, statistics := compiled.statistics } := by
  simp only [finish, takeRoutine, estate_bind_eq_ok, estate_get_eq_ok] at done
  obtain ⟨taken, between, ⟨_, _, ⟨rfl, rfl⟩, taking⟩, done⟩ := done
  simp only [begun, estate_bind_eq_ok, estate_pure_eq_ok] at taking
  obtain ⟨_, _, given, rfl, rfl⟩ := taking
  cases given
  cases left : Routine.leave result kind routine with
  | error cause later =>
    simp only [left] at done
    exact absurd done estate_throw_ne_ok
  | ok value ended =>
    simp only [left, estate_bind_eq_ok, estate_get_eq_ok, estate_pure_eq_ok,
      Build.count_eq_ok] at done
    obtain ⟨_, _, rfl, _, _, ⟨rfl, rfl⟩, rfl, rfl⟩ := done
    exact ⟨⟨ended, rfl, rfl⟩, rfl, rfl⟩

end Compilation

namespace Tree

variable {tree : Tree} {parameters : List Kind}

/-- Whether every parameter node names a parameter of its kind. -/
def Declared (tree : Tree) (parameters : List Kind) : Prop :=
  ∀ id node index, tree.node? id = some node → node.operation = .parameter index →
    parameters[index]? = some node.kind

theorem checkParameter_eq_ok {node : Node} :
    checkParameter parameters node = .ok () ↔
      ∀ index, node.operation = .parameter index → parameters[index]? = some node.kind := by
  simp only [checkParameter]
  cases operation : node.operation with
  | parameter index =>
    by_cases declared : parameters[index]? = some node.kind
    · simp [declared, pure, Except.pure]
    · simp [declared, throw, throwThe, MonadExceptOf.throw]
  | constant | arith | call => simp [pure, Except.pure]

/-- A tree is accepted if its parameters are parameters of the function. -/
theorem checkParameters_eq_ok :
    tree.checkParameters parameters = .ok () ↔ tree.Declared parameters := by
  rw [checkParameters, except_forM_eq_ok]
  constructor
  · intro accepted id node index found
    refine checkParameter_eq_ok.mp (accepted node ?_) index
    exact List.mem_of_getElem? (Array.getElem?_toList.trans found)
  · intro declared node listed
    obtain ⟨id, found⟩ := List.mem_iff_getElem?.mp listed
    rw [Array.getElem?_toList] at found
    exact checkParameter_eq_ok.mpr fun index => declared id node index found

end Tree

/-- A compilation checks the parameters, labels the root, begins the function, generates the
root, gives its location back and ends the function. -/
theorem of_compile {tree : Tree} {signature : Signature} {root : NodeId} {before after : Workspace}
    {compiled : Compiled} (done : compile tree signature root before = .ok compiled after) :
    ∃ labels started result generated released, root < tree.size ∧
      tree.Declared signature.parameters ∧
      Routine.start signature.parameters before.options.tempSlots = .ok started ∧
      Generation.visit tree root (some (Convention.resultRegister signature.result.bank))
        { before.reset with labels := labels, routine := some started } = .ok result generated ∧
      Build.release tree result generated = .ok () released ∧
      Compilation.finish result.location signature.result released = .ok compiled after := by
  simp only [compile, estate_bind_eq_ok, Build.lift_eq_ok, estate_modify_eq_ok] at done
  obtain ⟨node, _, ⟨found, rfl⟩, _, _, ⟨checked, rfl⟩, _, _, rfl, _, labeled, labeling, _, begun,
    starting, result, generated, generating, _, released, releasing, finishing⟩ := done
  have labels := Labeling.root_labels labeling
  obtain ⟨started, routine, rfl⟩ := Compilation.of_start starting
  rw [Labeling.LabelsOnly] at labels
  rw [labels] at routine generating
  exact ⟨labeled.labels, started, result, generated, released,
    Tree.lt_size_of_node (Tree.node_eq_ok.mp found), Tree.checkParameters_eq_ok.mp checked,
    routine, generating, releasing, finishing⟩

end NativeExpr
