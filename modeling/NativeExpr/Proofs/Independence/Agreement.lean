import NativeExpr.Proofs.Generation.Placement
import NativeExpr.Proofs.Sharing

/-!
# Two runs that agree

Two trees may hold the same expression under different numbers, among other nodes. `Tree.Renumbers`
says so, and `Workspace.Alike` says that two workspaces know the same about its nodes. Steps agree
when they end in the same way from workspaces that are alike: with the same value, or for want of
room for the same reason. Errors that name nodes are not compared beyond that.
-/

namespace NativeExpr

/-- The operation on nodes of other numbers. -/
def Operation.rename (rename : NodeId → NodeId) : Operation → Operation
  | .constant bits => .constant bits
  | .parameter index => .parameter index
  | .arith operation left right => .arith operation (rename left) (rename right)
  | .call function arguments => .call (rename function) (arguments.map rename)

/-- Whether another tree holds the nodes that are needed, with their operands in the same order,
under the numbers that a renaming gives them. -/
structure Tree.Renumbers (tree other : Tree) (rename : NodeId → NodeId) (needed : NodeId → Prop) :
    Prop where
  injective : ∀ first second, needed first → needed second → rename first = rename second →
    first = second
  node : ∀ id, needed id → ∃ node image, tree.node? id = some node ∧
    other.node? (rename id) = some image ∧ image.kind = node.kind ∧
    image.isShared = node.isShared ∧ image.operation = node.operation.rename rename

theorem Operation.operands_rename (rename : NodeId → NodeId) (operation : Operation) :
    (operation.rename rename).operands = operation.operands.map rename := by
  cases operation <;> rfl

/-- The operands of the image of a node are the images of its operands. -/
theorem Tree.Renumbers.operandsOf {tree other : Tree} {rename : NodeId → NodeId}
    {needed : NodeId → Prop} (renumbers : tree.Renumbers other rename needed) {id : NodeId}
    (need : needed id) : other.operandsOf (rename id) = (tree.operandsOf id).map rename := by
  obtain ⟨node, image, found, imageFound, _, _, operation⟩ := renumbers.node id need
  rw [operandsOf_of_node found, operandsOf_of_node imageFound, operation, Operation.operands_rename]

/-- Whether two pools differ only in the owners that they record. -/
def RegisterPool.Alike (pool twin : RegisterPool) : Prop :=
  ∃ owners, twin = { pool with owners := owners }

/-- Whether two workspaces know the same about the nodes that are needed, where a labeled node is
one whose label is known. -/
structure Workspace.Alike (rename : NodeId → NodeId) (needed labeled : NodeId → Prop)
    (work twin : Workspace) : Prop where
  options : twin.options = work.options
  pool : work.pool.Alike twin.pool
  routine : twin.routine = work.routine
  statistics : twin.statistics = work.statistics
  labels : ∀ id, needed id → labeled id → twin.labels[rename id]? = work.labels[id]?
  caches : ∀ id, needed id → twin.caches[rename id]? = work.caches[id]?

/-- Whether two workspaces are alike while a function is being generated. -/
structure Workspace.Parallel (rename : NodeId → NodeId) (needed : NodeId → Prop)
    (work twin : Workspace) : Prop extends work.Alike rename needed (fun _ => True) twin where
  begun : ∃ routine, work.routine = some routine

namespace Build

variable {α β γ δ : Type}

/-- Whether two steps end alike: with related values in related workspaces, or both with an error,
which is the same one if either is for want of room. -/
inductive Agree (values : α → β → Prop) (states : Workspace → Workspace → Prop) :
    EStateM.Result CompileError Workspace α → EStateM.Result CompileError Workspace β → Prop where
  | ok {value : α} {other : β} {after later : Workspace} (same : values value other)
      (alike : states after later) : Agree values states (.ok value after) (.ok other later)
  | error {cause other : CompileError} {after later : Workspace}
      (same : cause.isExhaustion = true ∨ other.isExhaustion = true → cause = other) :
      Agree values states (.error cause after) (.error other later)

variable {values : α → β → Prop} {states : Workspace → Workspace → Prop}
variable {ends : γ → δ → Prop} {last : Workspace → Workspace → Prop}
variable {work twin : Workspace}

/-- Steps that agree may be followed by steps that do. -/
theorem Agree.bind {step : Build α} {mirror : Build β} {next : α → Build γ} {follow : β → Build δ}
    (first : Agree values states (step work) (mirror twin))
    (rest : ∀ value other after later, values value other → states after later →
      Agree ends last (next value after) (follow other later)) :
    Agree ends last ((step >>= next) work) ((mirror >>= follow) twin) := by
  simp only [Bind.bind, EStateM.bind]
  generalize step work = ended, mirror twin = otherwise at first ⊢
  cases first with
  | ok same alike => exact rest _ _ _ _ same alike
  | error same => exact .error same

/-- After steps that succeed the next ones are compared. -/
theorem Agree.after {step : Build α} {mirror : Build β} {next : α → Build γ} {follow : β → Build δ}
    {value : α} {other : β} {after later : Workspace} (done : step work = .ok value after)
    (otherDone : mirror twin = .ok other later)
    (rest : Agree ends last (next value after) (follow other later)) :
    Agree ends last ((step >>= next) work) ((mirror >>= follow) twin) := by
  simpa only [Bind.bind, EStateM.bind, done, otherDone] using rest

/-- Steps that go by their workspaces. -/
theorem Agree.afterGet {next : Workspace → Build γ} {follow : Workspace → Build δ}
    (rest : Agree ends last (next work work) (follow twin twin)) :
    Agree ends last (((get : Build Workspace) >>= next) work)
      (((get : Build Workspace) >>= follow) twin) :=
  rest

theorem Agree.afterModify {next : Unit → Build γ} {follow : Unit → Build δ}
    {change otherChange : Workspace → Workspace}
    (rest : Agree ends last (next () (change work)) (follow () (otherChange twin))) :
    Agree ends last (((modify change : Build Unit) >>= next) work)
      (((modify otherChange : Build Unit) >>= follow) twin) :=
  rest

/-- After steps that give the same value. -/
theorem Agree.andThen {step mirror : Build α} {next : α → Build γ} {follow : α → Build δ}
    (first : Agree Eq states (step work) (mirror twin))
    (rest : ∀ value after later, states after later →
      Agree ends last (next value after) (follow value later)) :
    Agree ends last ((step >>= next) work) ((mirror >>= follow) twin) :=
  first.bind fun value _ after later same alike => same ▸ rest value after later alike

theorem agree_pure {value : α} (alike : states work twin) :
    Agree Eq states ((pure value : Build α) work) ((pure value : Build α) twin) :=
  .ok rfl alike

theorem agree_throw (cause : CompileError) :
    Agree values states ((throw cause : Build α) work) ((throw cause : Build β) twin) :=
  .error fun _ => rfl

end Build

namespace RegisterPool

variable {pool twin : RegisterPool} {α : Type}

/-- Whether two changes of a pool have the same outcome and leave pools that are alike. -/
inductive Agree : Except RegisterError (α × RegisterPool) → Except RegisterError (α × RegisterPool) →
    Prop where
  | ok {value : α} {later image : RegisterPool} (alike : later.Alike image) :
      Agree (.ok (value, later)) (.ok (value, image))
  | error (cause : RegisterError) : Agree (.error cause) (.error cause)

/-- Which register is chosen does not depend on the owners. -/
theorem Alike.allocate (alike : pool.Alike twin) (bank : Bank) (owner other : Option NodeId)
    (hint : Option Register) (excluded : RegisterSet) :
    Agree (pool.allocate bank owner hint excluded) (twin.allocate bank other hint excluded) := by
  obtain ⟨owners, rfl⟩ := alike
  have same : ({ pool with owners := owners } : RegisterPool).choose? bank hint excluded =
      pool.choose? bank hint excluded := rfl
  simp only [RegisterPool.allocate, same]
  cases pool.choose? bank hint excluded with
  | none => exact .error _
  | some register => exact .ok ⟨_, rfl⟩

theorem Alike.release (alike : pool.Alike twin) (register : Register) :
    Agree ((pool.release register).map fun pool => ((), pool))
      ((twin.release register).map fun pool => ((), pool)) := by
  obtain ⟨owners, rfl⟩ := alike
  simp only [RegisterPool.release]
  split
  · exact .ok ⟨_, rfl⟩
  · exact .error _

theorem Alike.transfer (alike : pool.Alike twin) (register : Register)
    (owner other : Option NodeId) :
    Agree ((pool.transfer register owner).map fun pool => (register, pool))
      ((twin.transfer register other).map fun pool => (register, pool)) := by
  obtain ⟨owners, rfl⟩ := alike
  simp only [RegisterPool.transfer]
  split
  · exact .ok ⟨_, rfl⟩
  · exact .error _

end RegisterPool

namespace Build

variable {tree other : Tree} {rename : NodeId → NodeId} {needed : NodeId → Prop}
variable {work twin : Workspace}

/-- Steps in the function depend on the function only. -/
theorem agree_onRoutine {α : Type} (step : Routine.Step α)
    (parallel : work.Parallel rename needed twin) :
    Agree Eq (Workspace.Parallel rename needed) (onRoutine tree step work)
      (onRoutine other step twin) := by
  obtain ⟨started, begun⟩ := parallel.begun
  rw [onRoutine_eq tree step begun, onRoutine_eq other step (parallel.routine.trans begun)]
  cases step started with
  | ok value later =>
    exact .ok rfl { parallel with routine := rfl, begun := ⟨later, rfl⟩ }
  | error cause later => exact .error (fun _ => rfl)

/-- Changes of the pool that agree are steps that do. -/
theorem agree_withPool {α : Type}
    {change follow : RegisterPool → Except RegisterError (α × RegisterPool)}
    (same : RegisterPool.Agree (change work.pool) (follow twin.pool))
    (parallel : work.Parallel rename needed twin) :
    Agree Eq (Workspace.Parallel rename needed) (withPool change work) (withPool follow twin) := by
  rw [withPool_eq, withPool_eq]
  generalize change work.pool = ended, follow twin.pool = otherwise at same
  cases same with
  | ok alike => exact .ok rfl { parallel with pool := alike }
  | error cause => exact .error fun _ => rfl

/-- Steps that agree, one after the other. -/
theorem agree_forM {ι : Type} {step mirror : ι → Build Unit}
    (each : ∀ item (work twin : Workspace), work.Parallel rename needed twin →
      Agree Eq (Workspace.Parallel rename needed) (step item work) (mirror item twin))
    (items : List ι) (parallel : work.Parallel rename needed twin) :
    Agree Eq (Workspace.Parallel rename needed) (items.forM step work)
      (items.forM mirror twin) := by
  induction items generalizing work twin with
  | nil => exact agree_pure parallel
  | cons item rest ih => exact (each item work twin parallel).andThen fun _ _ _ parallel => ih parallel

theorem agree_freeRegister (register : Register) (parallel : work.Parallel rename needed twin) :
    Agree Eq (Workspace.Parallel rename needed) (freeRegister register work)
      (freeRegister register twin) :=
  agree_withPool (parallel.pool.release register) parallel

theorem agree_tryRegister (bank : Bank) (owner otherOwner : Option NodeId)
    (hint : Option Register) (parallel : work.Parallel rename needed twin) :
    Agree Eq (Workspace.Parallel rename needed) (tryRegister bank owner hint work)
      (tryRegister bank otherOwner hint twin) := by
  have same := parallel.pool.allocate bank owner otherOwner hint .empty
  rw [tryRegister_eq, tryRegister_eq]
  generalize work.pool.allocate bank owner hint .empty = ended,
    twin.pool.allocate bank otherOwner hint .empty = otherwise at same
  cases same with
  | ok alike => exact .ok rfl { parallel with pool := alike }
  | error cause => exact .ok rfl parallel

theorem agree_count (change : Statistics → Statistics) (parallel : work.Parallel rename needed twin) :
    Agree Eq (Workspace.Parallel rename needed) (count change work) (count change twin) :=
  .ok rfl { parallel with statistics := congrArg change parallel.statistics }

theorem agree_release (storage : Storage) (parallel : work.Parallel rename needed twin) :
    Agree Eq (Workspace.Parallel rename needed) (release tree storage work)
      (release other storage twin) := by
  simp only [release]
  split
  · cases storage.location with
    | register register => exact agree_freeRegister register parallel
    | slot offset => exact agree_onRoutine _ parallel
    | constant bits => exact agree_pure parallel
  · exact agree_pure parallel

/-- Whichever nodes the register is handed out to. -/
theorem agree_materialize (storage : Storage) (owner otherOwner : NodeId) (hint : Option Register)
    (activity : String) (parallel : work.Parallel rename needed twin) :
    Agree Eq (Workspace.Parallel rename needed)
      (materialize tree storage owner hint activity work)
      (materialize other storage otherOwner hint activity twin) := by
  simp only [materialize]
  cases storage.ownedRegister? with
  | some register => exact agree_withPool (parallel.pool.transfer register _ _) parallel
  | none =>
    refine (agree_tryRegister _ _ _ hint parallel).andThen fun found _ _ parallel => ?_
    cases found with
    | none => exact agree_throw _
    | some register =>
      refine (agree_onRoutine _ parallel).andThen fun _ _ _ parallel => ?_
      exact (agree_release storage parallel).andThen fun _ _ _ parallel => agree_pure parallel

theorem agree_park (storage : Storage) (parallel : work.Parallel rename needed twin) :
    Agree Eq (Workspace.Parallel rename needed) (park tree storage work)
      (park other storage twin) := by
  simp only [park]
  cases storage.ownedRegister? with
  | none => exact agree_pure parallel
  | some register =>
    refine (agree_onRoutine _ parallel).andThen fun slot _ _ parallel => ?_
    cases slot with
    | none => exact agree_pure parallel
    | some offset =>
      refine (agree_onRoutine _ parallel).andThen fun _ _ _ parallel => ?_
      refine (agree_freeRegister _ parallel).andThen fun _ _ _ parallel => ?_
      exact (agree_count _ parallel).andThen fun _ _ _ parallel => agree_pure parallel

theorem agree_parkUnderPressure (storage : Storage) (required : Nat) (bank : Bank)
    (parallel : work.Parallel rename needed twin) :
    Agree Eq (Workspace.Parallel rename needed) (parkUnderPressure tree storage required bank work)
      (parkUnderPressure other storage required bank twin) := by
  obtain ⟨owners, pool⟩ := parallel.pool
  have free : twin.pool.freeCount bank = work.pool.freeCount bank := by
    rw [pool]
    rfl
  simp only [parkUnderPressure]
  cases storage.register? with
  | none => exact agree_pure parallel
  | some register =>
    refine Agree.afterGet ?_
    rw [free]
    split
    · exact agree_park storage parallel
    · exact agree_pure parallel

section Nodes

variable {labeled : NodeId → Prop}

/-- Asking for the label of a node gives the same answer. -/
theorem agree_label (renumbers : tree.Renumbers other rename needed) {id : NodeId}
    (need : needed id) (known : labeled id) (alike : work.Alike rename needed labeled twin)
    {states : Workspace → Workspace → Prop} (holds : states work twin) :
    Agree Eq states (label tree id work) (label other (rename id) twin) := by
  obtain ⟨node, image, found, imageFound, _⟩ := renumbers.node id need
  rw [label_eq found, label_eq imageFound, alike.labels id need known]
  cases work.labels[id]? with
  | some count => exact .ok rfl holds
  | none => exact .error (by simp [CompileError.isExhaustion])

end Nodes

end Build

end NativeExpr
