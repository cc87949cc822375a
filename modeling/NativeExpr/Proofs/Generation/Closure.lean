import NativeExpr.Compilation
import NativeExpr.Proofs.Generation.Extension
import NativeExpr.Proofs.Generation.Staging
import NativeExpr.Proofs.Sharing

/-!
# What holds of all of code generation

A property of steps that is passed on from two steps to one after the other holds of labeling and
of code generation if it holds of the few steps that these are put together from. The induction on
the depth of nodes is made here once for all such properties. Some hold only as far as certain nodes
are needed, those whose labels are there to be asked for.
-/

namespace NativeExpr

/-- Whether an error has another reason than want of room or of a label. -/
def CompileError.isSpared : CompileError → Bool
  | .exhausted .. | .unlabeled _ => false
  | _ => true

theorem CompileError.isExhaustion_of_isSpared {cause : CompileError}
    (spared : cause.isSpared = true) : cause.isExhaustion = false := by
  cases cause with
  | exhausted bank activity => cases spared
  | _ => rfl

/-- Whether a step may succeed with a value. -/
def Build.Returns {α : Type} (step : Build α) (value : α) : Prop :=
  ∃ before after, step before = .ok value after

/-- Whether a property of steps is passed on to what is put together from them, and holds of the
steps that change the workspace, of what is refused for another reason than want of room, and of
asking for the label and keeping the value of a node that is needed. -/
structure Build.Closed (tree : Tree) (needed : NodeId → Prop)
    (holds : ∀ {α : Type}, Build α → Prop) : Prop where
  operands : tree.Closed needed
  pure : ∀ {α : Type} (value : α), holds (pure value : Build α)
  chain : ∀ {α β : Type} {step : Build α} {next : α → Build β},
    holds step → (∀ value, step.Returns value → holds (next value)) → holds (step >>= next)
  refuse : ∀ {α : Type} {cause : CompileError}, cause.isSpared = true →
    holds (throw cause : Build α)
  label : ∀ id, needed id → holds (Build.label tree id)
  /-- Looking at anything but the function that is being generated. -/
  look : ∀ {α : Type} {next : Workspace → Build α},
    (∀ work routine, next { work with routine := routine } = next work) →
      (∀ work, holds (next work)) → holds ((get : Build Workspace) >>= next)
  count : ∀ change, holds (Build.count change)
  mark : ∀ (id : NodeId) (label : Nat),
    holds (modify fun work => { work with labels := work.labels.insert id label } : Build Unit)
  keep : ∀ (id : NodeId) (storage : Storage), needed id →
    holds (modify fun work => { work with caches := work.caches.insert id storage } : Build Unit)
  onRoutine : ∀ {α : Type} (step : Routine.Step α), step.Evolves Routine.Extends →
    holds (Build.onRoutine tree step)
  freeRegister : ∀ register, holds (Build.freeRegister register)

/-- Whether such a property holds of the steps that need room as well, so that it holds of all of
code generation. -/
structure Build.Generative (tree : Tree) (needed : NodeId → Prop)
    (holds : ∀ {α : Type}, Build α → Prop) : Prop extends Build.Closed tree needed holds where
  materialize : ∀ storage owner hint,
    holds (Build.materialize tree storage owner hint "evaluating an arithmetic operand")
  capture : ∀ call kind hint, holds (Stage.capture tree call kind hint)

/-- Whether such a property holds of failing for want of room and of taking registers, so that it
holds of all that needs room. -/
structure Build.Demanding (tree : Tree) (needed : NodeId → Prop)
    (holds : ∀ {α : Type}, Build α → Prop) : Prop extends Build.Closed tree needed holds where
  exhaust : ∀ {α : Type} bank activity, holds (throw (.exhausted bank activity) : Build α)
  tryRegister : ∀ bank owner hint, holds (Build.tryRegister bank owner hint)
  allocateExactly : ∀ register, holds (Build.withPool fun pool =>
    (pool.allocateExactly register none).map fun pool => ((), pool))
  transfer : ∀ (register : Register) owner, holds (Build.withPool fun pool =>
    (pool.transfer register owner).map fun pool => (register, pool))

/-- Whether a result that does not depend on the workspace is refused, if at all, for another reason
than want of room or of a label. -/
def CompileError.Spared {α : Type} (result : Except CompileError α) : Prop :=
  ∀ cause, result = .error cause → cause.isSpared = true

namespace CompileError

variable {α β : Type}

theorem Spared.isExhaustion {result : Except CompileError α} (spared : Spared result) :
    ∀ cause, result = .error cause → cause.isExhaustion = false :=
  fun cause failed => isExhaustion_of_isSpared (spared cause failed)

theorem spared_ok (value : α) : Spared (.ok value) := nofun

theorem spared_error {cause : CompileError} (other : cause.isSpared = true) :
    Spared (.error cause : Except CompileError α) := by
  rintro _ ⟨⟩
  exact other

theorem Spared.bind {first : Except CompileError α} {rest : α → Except CompileError β}
    (spared : Spared first) (others : ∀ value, Spared (rest value)) : Spared (first >>= rest) := by
  cases first with
  | ok value => exact others value
  | error cause => exact spared_error (spared cause rfl)

theorem spared_forM {round : α → Except CompileError Unit} (each : ∀ item, Spared (round item))
    (items : List α) : Spared (items.forM round) := by
  induction items with
  | nil => exact spared_ok ()
  | cons item rest ih => exact (each item).bind fun _ => ih

theorem spared_foldlM {round : β → α → Except CompileError β}
    (each : ∀ value item, Spared (round value item)) (items : List α) (start : β) :
    Spared (items.foldlM round start) := by
  induction items generalizing start with
  | nil => exact spared_ok start
  | cons item rest ih => exact (each start item).bind ih

end CompileError

open CompileError

theorem Tree.spared_node (tree : Tree) (id : NodeId) : Spared (tree.node id) := by
  simp only [node]
  split
  · exact spared_ok _
  · exact spared_error rfl

theorem Tree.spared_checkParameters (tree : Tree) (parameters : List Kind) :
    Spared (tree.checkParameters parameters) := by
  refine spared_forM (fun node => ?_) _
  simp only [checkParameter]
  split
  · split
    · exact spared_ok ()
    · exact spared_error rfl
  · exact spared_ok ()

theorem Tree.spared_inferParameters (tree : Tree) : Spared tree.inferParameters := by
  refine spared_foldlM (fun parameters node => ?_) _ _
  simp only [inferParameter]
  split
  · split
    · exact spared_error rfl
    · exact spared_ok _
  · exact spared_ok _

theorem Stage.spared_ofArguments (tree : Tree) (arguments : List NodeId) :
    Spared (ofArguments tree arguments) :=
  spared_foldlM (fun _ id => (tree.spared_node id).bind fun _ => spared_ok _) _ _

namespace Build.Closed

variable {tree : Tree} {needed : NodeId → Prop} {holds : ∀ {α : Type}, Build α → Prop}
variable {α β : Type} (closed : Closed tree needed holds)

include closed

/-- What follows a step, whatever it has returned. -/
theorem bind {step : Build α} {next : α → Build β} (first : holds step)
    (rest : ∀ value, holds (next value)) : holds (step >>= next) :=
  closed.chain first fun value _ => rest value

theorem forM {step : α → Build Unit} (each : ∀ item, holds (step item)) (items : List α) :
    holds (items.forM step) := by
  induction items with
  | nil => exact closed.pure ()
  | cons item rest ih => exact closed.bind (each item) fun _ => ih

theorem lift {result : Except CompileError α} (spared : Spared result) :
    holds (Build.lift result) := by
  cases result with
  | ok value => exact closed.pure value
  | error cause => exact closed.refuse (spared cause rfl)

theorem node (id : NodeId) : holds (Build.lift (tree.node id)) :=
  closed.lift (tree.spared_node id)

/-- Beginning a function, if the property holds of putting a function where it is generated. -/
theorem start (opens : ∀ routine, holds
    (modify fun work => { work with routine := some routine } : Build Unit))
    (parameters : List Kind) : holds (Compilation.start parameters) := by
  refine closed.look (fun _ _ => rfl) fun work => ?_
  cases Routine.start parameters work.options.tempSlots with
  | ok routine => exact opens routine
  | error cause => exact closed.refuse rfl

/-- Ending a function, if the property holds of taking it from where it is generated. -/
theorem finish (takes : holds Compilation.takeRoutine) (result : Location) (kind : Kind) :
    holds (Compilation.finish result kind) := by
  refine closed.bind takes fun routine => ?_
  cases Routine.leave result kind routine with
  | error cause later => exact closed.refuse rfl
  | ok _ later =>
    exact closed.bind (closed.count _) fun _ => closed.look (fun _ _ => rfl) fun _ => closed.pure _

/-- What follows looking for a node goes by the node that has been found. -/
theorem withNode {id : NodeId} {next : Node → Build β}
    (rest : ∀ node, tree.node? id = some node → holds (next node)) :
    holds (Build.lift (tree.node id) >>= next) := by
  refine closed.chain (closed.node id) fun node ⟨_, _, found⟩ => rest node ?_
  exact Tree.node_eq_ok.mp (Build.lift_eq_ok.mp found).1

theorem write (requests : List Request) :
    holds (Build.onRoutine tree (Routine.write requests)) :=
  closed.onRoutine _ (Routine.evolution_extends.write requests)

theorem release (storage : Storage) : holds (Build.release tree storage) := by
  simp only [Build.release]
  split
  · cases storage.location with
    | register register => exact closed.freeRegister register
    | slot offset => exact closed.onRoutine _ (Routine.extends_releaseSlot offset)
    | constant bits => exact closed.pure ()
  · exact closed.pure ()

theorem park (storage : Storage) : holds (Build.park tree storage) := by
  simp only [Build.park]
  cases storage.ownedRegister? with
  | none => exact closed.pure _
  | some register =>
    refine closed.bind (closed.onRoutine _ Routine.extends_allocateSlot) fun slot => ?_
    cases slot with
    | none => exact closed.pure _
    | some offset =>
      exact closed.bind (closed.write _) fun _ => closed.bind (closed.freeRegister register)
        fun _ => closed.bind (closed.count _) fun _ => closed.pure _

theorem parkUnderPressure (storage : Storage) (needed : Nat) (bank : Bank) :
    holds (Build.parkUnderPressure tree storage needed bank) := by
  simp only [Build.parkUnderPressure]
  cases storage.register? with
  | none => exact closed.pure _
  | some register =>
    refine closed.look (fun _ _ => rfl) fun work => ?_
    split
    · exact closed.park storage
    · exact closed.pure _

theorem liveCallerSaved : holds Stage.liveCallerSaved :=
  closed.look (fun _ _ => rfl) fun _ => closed.pure _

theorem save (registers : List Register) : holds (Stage.save tree registers) :=
  Stage.save_eq_forM tree registers ▸
    closed.forM (fun _ => closed.onRoutine _ (Routine.evolution_extends.save _)) registers

theorem restore (registers : List Register) : holds (Stage.restore tree registers) :=
  Stage.restore_eq_forM tree registers ▸
    closed.forM (fun _ => closed.onRoutine _ (Routine.evolution_extends.restore _)) registers

theorem callThrough (stage : Stage) (moves : List Move) :
    holds (stage.callThrough tree moves) :=
  closed.onRoutine _ (Routine.evolution_extends.callThrough stage moves)

theorem releaseAll (storages : List Storage) : holds (Stage.releaseAll tree storages) :=
  Stage.releaseAll_eq_forM tree storages ▸ closed.forM closed.release storages

section

variable {visit : Labeling.Visit} (visits : ∀ id, needed id → ∀ isLeft, holds (visit id isLeft))

include visits

theorem laterArguments {rest : List NodeId} (need : ∀ argument ∈ rest, needed argument)
    (count : Nat) : holds (Labeling.laterArguments tree visit count rest) := by
  induction rest generalizing count with
  | nil => exact closed.pure _
  | cons argument rest ih =>
    obtain ⟨here, others⟩ := List.forall_mem_cons.mp need
    exact closed.bind (visits argument here false) fun _ =>
      closed.bind (closed.label argument here) fun _ => ih others _

theorem labelOperation {operation : Operation} (need : ∀ operand ∈ operation.operands, needed operand)
    (isLeft : Bool) : holds (Labeling.operation tree visit isLeft operation) := by
  cases operation with
  | constant bits | parameter index => exact closed.pure _
  | arith operation left right =>
    have leftNeed := need left List.mem_cons_self
    have rightNeed := need right (List.mem_cons_of_mem _ List.mem_cons_self)
    exact closed.bind (visits left leftNeed true) fun _ =>
      closed.bind (visits right rightNeed false) fun _ =>
        closed.bind (closed.label left leftNeed) fun _ =>
          closed.bind (closed.label right rightNeed) fun _ => closed.pure _
  | call function operands =>
    obtain ⟨functionNeed, others⟩ := List.forall_mem_cons.mp need
    have arguments : holds (Labeling.arguments tree visit operands) := by
      cases operands with
      | nil => exact closed.pure _
      | cons first rest =>
        obtain ⟨here, later⟩ := List.forall_mem_cons.mp others
        exact closed.bind (visits first here true) fun _ =>
          closed.bind (closed.label first here) fun _ => closed.laterArguments visits later _
    exact closed.bind arguments fun _ => closed.bind (visits function functionNeed false) fun _ =>
      closed.pure _

end

/-- Labeling a node of any depth. -/
theorem labels (depth : Nat) :
    ∀ id, needed id → ∀ isLeft, holds (Labeling.within tree depth id isLeft) := by
  induction depth with
  | zero => exact fun _ _ _ => closed.refuse rfl
  | succ depth ih =>
    refine fun id need isLeft => closed.withNode fun node found => ?_
    have operands := Tree.operandsOf_of_node found ▸ closed.operands id need
    exact closed.bind (closed.labelOperation ih operands isLeft) fun _ =>
      closed.bind (closed.mark _ _) fun _ => closed.pure _

end Build.Closed

namespace Build.Generative

variable {tree : Tree} {needed : NodeId → Prop} {holds : ∀ {α : Type}, Build α → Prop}
variable (closed : Generative tree needed holds)

include closed

section

variable {visit : Visit} (visits : ∀ id, needed id → ∀ hint, holds (visit id hint))

include visits

theorem evaluateInOrder {demands : List Stage.Demand}
    (need : ∀ demand ∈ demands, needed demand.argument.node) :
    holds (Stage.evaluateInOrder tree visit demands) := by
  induction demands with
  | nil => exact closed.pure _
  | cons demand rest ih =>
    obtain ⟨here, others⟩ := List.forall_mem_cons.mp need
    refine closed.bind (visits _ here _) fun value => ?_
    have goesOn (settled : Storage) :
        holds (do return (demand.position, settled) :: (← Stage.evaluateInOrder tree visit rest) :
          Build (List (Nat × Storage))) :=
      closed.bind (ih others) fun _ => closed.pure _
    cases rest with
    | nil => exact goesOn value
    | cons next later => exact closed.bind (closed.parkUnderPressure _ _ _) goesOn

theorem evaluate {stage : Stage} (need : ∀ argument ∈ stage.arguments, needed argument.node) :
    holds (stage.evaluate tree visit) := by
  have demands (position : Nat) (arguments : List Staged)
      (need : ∀ argument ∈ arguments, needed argument.node) :
      holds (Stage.demands tree position arguments) := by
    induction arguments generalizing position with
    | nil => exact closed.pure _
    | cons argument rest ih =>
      obtain ⟨here, others⟩ := List.forall_mem_cons.mp need
      exact closed.bind (closed.label _ here) fun _ => closed.bind (ih _ others) fun _ =>
        closed.pure _
  refine closed.chain (demands _ _ need) fun asked ⟨_, _, done⟩ => ?_
  obtain ⟨_, arguments, _⟩ := Stage.of_demands done
  refine closed.bind (closed.evaluateInOrder visits fun demand member => ?_) fun _ => closed.pure _
  have listed := (Stage.perm_heaviestFirst asked).mem_iff.mp member
  exact need demand.argument (arguments ▸ List.mem_map_of_mem listed)

theorem emitCall {stage : Stage} {function : NodeId}
    (need : ∀ argument ∈ stage.arguments, needed argument.node) (functionNeed : needed function)
    (call : NodeId) (kind : Kind) (hint : Option Register) :
    holds (stage.emitCall tree visit function call kind hint) := by
  refine closed.bind closed.liveCallerSaved fun _ => closed.bind (closed.save _) fun _ =>
    closed.bind (closed.evaluate visits need) fun _ =>
      closed.bind (visits _ functionNeed _) fun _ => ?_
  refine closed.bind (closed.releaseAll _) fun _ => closed.bind closed.liveCallerSaved fun _ =>
    closed.bind (closed.save _) fun _ => closed.bind (closed.callThrough _ _) fun _ =>
      closed.bind (closed.capture _ _ _) fun _ => ?_
  exact closed.bind (closed.restore _) fun _ => closed.bind (closed.count _) fun _ => closed.pure _

theorem evaluateOperands {left right : NodeId} (leftNeed : needed left) (rightNeed : needed right)
    (hint : Option Register) : holds (Generation.operands tree visit left right hint) := by
  refine closed.bind (closed.label left leftNeed) fun _ =>
    closed.bind (closed.label right rightNeed) fun _ => ?_
  split
  · exact closed.bind (visits _ rightNeed _) fun _ =>
      closed.bind (closed.parkUnderPressure _ _ _) fun _ =>
        closed.bind (visits _ leftNeed _) fun _ => closed.pure _
  · exact closed.bind (visits _ leftNeed _) fun _ =>
      closed.bind (closed.parkUnderPressure _ _ _) fun _ =>
        closed.bind (visits _ rightNeed _) fun _ => closed.pure _

theorem operation (id : NodeId) (kind : Kind) (hint : Option Register) {operation : Operation}
    (need : ∀ operand ∈ operation.operands, needed operand) :
    holds (Generation.operation tree visit id kind hint operation) := by
  cases operation with
  | constant bits => exact closed.pure _
  | parameter index =>
    refine closed.bind (closed.onRoutine _ (Routine.evolution_extends.home index)) fun home => ?_
    cases home with
    | some home => exact closed.pure _
    | none => exact closed.refuse rfl
  | arith operation left right =>
    have leftNeed := need left List.mem_cons_self
    have rightNeed := need right (List.mem_cons_of_mem _ List.mem_cons_self)
    exact closed.bind (closed.evaluateOperands visits leftNeed rightNeed hint) fun _ =>
      closed.bind (closed.materialize _ _ _) fun _ => closed.bind (closed.write _) fun _ =>
        closed.bind (closed.release _) fun _ => closed.pure _
  | call function arguments =>
    obtain ⟨functionNeed, others⟩ := List.forall_mem_cons.mp need
    refine closed.chain (closed.lift (Stage.spared_ofArguments tree arguments))
      fun stage ⟨_, _, staged⟩ => ?_
    have nodes := (Stage.of_ofArguments (Build.lift_eq_ok.mp staged).1).nodes
    exact closed.emitCall visits
      (fun argument member => others argument.node (nodes ▸ List.mem_map_of_mem member))
      functionNeed _ _ _

theorem generateNode {id : NodeId} (need : needed id) (hint : Option Register) :
    holds (Generation.node tree visit id hint) := by
  refine closed.withNode fun node found => closed.bind (closed.label id need) fun _ =>
    closed.look (fun _ _ => rfl) fun work => ?_
  cases work.caches[id]? with
  | some cached => exact closed.bind (closed.count _) fun _ => closed.pure _
  | none =>
    have operands := Tree.operandsOf_of_node found ▸ closed.operands id need
    refine closed.bind (closed.operation visits _ _ _ operands) fun storage =>
      closed.bind (closed.count _) fun _ => ?_
    split
    · exact closed.bind (closed.keep _ _ need) fun _ => closed.pure _
    · exact closed.pure _

end

/-- Generating a node of any depth. -/
theorem generates (depth : Nat) :
    ∀ id, needed id → ∀ hint, holds (Generation.within tree depth id hint) := by
  induction depth with
  | zero => exact fun _ _ _ => closed.refuse rfl
  | succ depth ih => exact fun id need hint => closed.generateNode ih need hint

/-- Compiling a root, if the property holds of giving everything back, of putting a function where
it is generated and of taking it from there. -/
theorem compile {signature : Signature} {root : NodeId} (need : needed root)
    (resets : holds (modify Workspace.reset : Build Unit))
    (opens : ∀ routine, holds
      (modify fun work => { work with routine := some routine } : Build Unit))
    (takes : holds Compilation.takeRoutine) :
    holds (compile tree signature root) := by
  refine closed.bind (closed.node root) fun _ =>
    closed.bind (closed.lift (tree.spared_checkParameters _)) fun _ => ?_
  refine closed.bind resets fun _ => closed.bind (closed.labels tree.size root need true) fun _ => ?_
  refine closed.bind (closed.start opens _) fun _ =>
    closed.bind (closed.generates _ _ need _) fun result => ?_
  exact closed.bind (closed.release result) fun _ => closed.finish takes _ _

end Build.Generative

namespace Build.Demanding

variable {tree : Tree} {needed : NodeId → Prop} {holds : ∀ {α : Type}, Build α → Prop}
variable (demanding : Demanding tree needed holds)

include demanding

theorem temporary (kind : Kind) (activity : String) :
    holds (Build.temporary tree kind activity) := by
  refine demanding.bind (demanding.tryRegister _ _ _) fun found => ?_
  cases found with
  | some register => exact demanding.pure _
  | none =>
    refine demanding.bind (demanding.onRoutine _ Routine.extends_allocateSlot) fun slot => ?_
    cases slot with
    | some offset => exact demanding.pure _
    | none => exact demanding.exhaust _ _

theorem allocateRegister (kind : Kind) (register : Register) :
    holds (Build.allocateRegister kind register) := by
  simp only [Build.allocateRegister]
  split
  · exact demanding.bind (demanding.refuse rfl) fun _ =>
      demanding.bind (demanding.allocateExactly _) fun _ => demanding.pure _
  · exact demanding.bind (demanding.allocateExactly _) fun _ => demanding.pure _

theorem moveToRegister (storage : Storage) (register : Register) :
    holds (Build.moveToRegister tree storage register) := by
  simp only [Build.moveToRegister]
  split
  · exact demanding.pure _
  · exact demanding.bind (demanding.allocateRegister _ _) fun _ =>
      demanding.bind (demanding.write _) fun _ => demanding.bind (demanding.release storage)
        fun _ => demanding.pure _

theorem materialize (storage : Storage) (owner : NodeId) (hint : Option Register)
    (activity : String) : holds (Build.materialize tree storage owner hint activity) := by
  simp only [Build.materialize]
  cases storage.ownedRegister? with
  | some register => exact demanding.transfer register _
  | none =>
    refine demanding.bind (demanding.tryRegister _ _ _) fun found => ?_
    cases found with
    | none => exact demanding.exhaust _ _
    | some register =>
      exact demanding.bind (demanding.write _) fun _ =>
        demanding.bind (demanding.release storage) fun _ => demanding.pure _

theorem capture (call : NodeId) (kind : Kind) (hint : Option Register) :
    holds (Stage.capture tree call kind hint) := by
  refine demanding.look (fun _ _ => rfl) fun work =>
    demanding.bind (demanding.tryRegister _ _ _) fun found => ?_
  cases found with
  | some register => exact demanding.bind (demanding.write _) fun _ => demanding.pure _
  | none =>
    refine demanding.bind (demanding.onRoutine _ Routine.extends_allocateSlot) fun slot => ?_
    cases slot with
    | some offset => exact demanding.bind (demanding.write _) fun _ => demanding.pure _
    | none => exact demanding.exhaust _ _

theorem generative : Generative tree needed holds where
  toClosed := demanding.toClosed
  materialize storage owner hint := demanding.materialize storage owner hint _
  capture := demanding.capture

end Build.Demanding

end NativeExpr
