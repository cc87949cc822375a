import NativeExpr.Proofs.Generation.Basic

/-!
# What generation counts

Every step of generation that succeeds leaves the labels as they are. It counts the nodes that it
generates, the values that it finds kept and the calls that it writes, and keeps the values of
the shared nodes that it generates. `Generation.within_follows` says which nodes are generated
for a node: those of `Generation.order`.
-/

namespace NativeExpr

/-- Whether the value of a node is kept. -/
def Workspace.keeps (work : Workspace) (id : NodeId) : Bool := work.caches.contains id

theorem Workspace.keeps_of_cached {work : Workspace} {id : NodeId} {storage : Storage}
    (cached : work.caches[id]? = some storage) : work.keeps id = true := by
  rw [keeps, Std.TreeMap.contains_eq_isSome_getElem?, cached, Option.isSome_some]

theorem Workspace.keeps_of_uncached {work : Workspace} {id : NodeId}
    (uncached : work.caches[id]? = none) : ¬work.keeps id = true := by
  rw [keeps, Std.TreeMap.contains_eq_isSome_getElem?, uncached]
  decide

/-- The value of a shared node that is remembered is kept. -/
theorem Workspace.keeps_insert {tree : Tree} {id : NodeId} (work : Workspace) (storage : Storage)
    (share : tree.isShared id = true) :
    Workspace.keeps { work with caches := work.caches.insert id storage } =
      Generation.keeping tree work.keeps [id] := by
  funext other
  by_cases here : other = id
  · subst here
    simp [keeps, Generation.keeping, share]
  · simp [keeps, Generation.keeping, Std.TreeMap.contains_insert, here, Ne.symm here]

/-- What has become of a workspace after some nodes have been generated, some values have been found
kept, and some calls have been counted and written. -/
structure Workspace.Advances (tree : Tree) (before : Workspace) (made : List NodeId)
    (hits counted written : Nat) (after : Workspace) : Prop where
  labels : after.labels = before.labels
  keeps : after.keeps = Generation.keeping tree before.keeps made
  compiled : after.statistics.nodesCompiled = before.statistics.nodesCompiled + made.length
  hits : after.statistics.cacheHits = before.statistics.cacheHits + hits
  calls : after.statistics.callsEmitted = before.statistics.callsEmitted + counted
  code : ∃ routine later instructions, before.routine = some routine ∧
    after.routine = some later ∧ later.code.toList = routine.code.toList ++ instructions ∧
      instructions.countP Instruction.isCall = written

namespace Workspace.Advances

variable {tree : Tree} {before between after : Workspace} {routine later : Routine}
variable {made more : List NodeId} {hits others counted recounted written rewritten : Nat}

/-- A step that writes code and changes the pool and the frame. -/
theorem of_code (begun : before.routine = some routine) (goesOn : after.routine = some later)
    {instructions : List Instruction}
    (code : later.code.toList = routine.code.toList ++ instructions)
    (count : instructions.countP Instruction.isCall = written)
    (labels : after.labels = before.labels) (caches : after.caches = before.caches)
    (compiled : after.statistics.nodesCompiled = before.statistics.nodesCompiled)
    (hits : after.statistics.cacheHits = before.statistics.cacheHits)
    (calls : after.statistics.callsEmitted = before.statistics.callsEmitted) :
    before.Advances tree [] 0 0 written after where
  labels := labels
  keeps := by
    rw [Generation.keeping_nil]
    funext id
    rw [Workspace.keeps, Workspace.keeps, caches]
  compiled := compiled
  hits := hits
  calls := calls
  code := ⟨routine, later, instructions, begun, goesOn, code, count⟩

/-- A step that writes nothing and keeps nothing. -/
theorem of_silent (begun : before.routine = some routine) (goesOn : after.routine = some later)
    (code : later.code = routine.code) (labels : after.labels = before.labels)
    (caches : after.caches = before.caches) (statistics : after.statistics = before.statistics) :
    before.Advances tree [] 0 0 0 after :=
  of_code begun goesOn (by rw [code, List.append_nil]) List.countP_nil labels caches
    (by rw [statistics]) (by rw [statistics]) (by rw [statistics])

theorem refl (tree : Tree) (begun : before.routine = some routine) :
    before.Advances tree [] 0 0 0 before :=
  of_silent begun begun rfl rfl rfl rfl

theorem trans (first : before.Advances tree made hits counted written between)
    (second : between.Advances tree more others recounted rewritten after) :
    before.Advances tree (made ++ more) (hits + others) (counted + recounted)
      (written + rewritten) after where
  labels := second.labels.trans first.labels
  keeps := by rw [second.keeps, first.keeps, Generation.keeping_append]
  compiled := by rw [second.compiled, first.compiled, List.length_append, Nat.add_assoc]
  hits := by rw [second.hits, first.hits, Nat.add_assoc]
  calls := by rw [second.calls, first.calls, Nat.add_assoc]
  code := by
    obtain ⟨routine, middle, instructions, begun, goesOn, code, count⟩ := first.code
    obtain ⟨_, later, rest, same, ended, further, restCount⟩ := second.code
    obtain rfl := Option.some.inj (goesOn.symm.trans same)
    exact ⟨routine, later, instructions ++ rest, begun, ended,
      by rw [further, code, List.append_assoc], by rw [List.countP_append, count, restCount]⟩

/-- A step after which the counts are the same. -/
theorem further (first : before.Advances tree made hits counted written between)
    (second : between.Advances tree [] 0 0 0 after) :
    before.Advances tree made hits counted written after := by
  simpa using first.trans second

/-- A step before which the counts are the same. -/
theorem after_steps (first : before.Advances tree [] 0 0 0 between)
    (second : between.Advances tree more others recounted rewritten after) :
    before.Advances tree more others recounted rewritten after := by
  simpa using first.trans second

theorem begun (advances : before.Advances tree made hits counted written after) :
    ∃ routine, after.routine = some routine := by
  obtain ⟨_, later, _, _, goesOn, _⟩ := advances.code
  exact ⟨later, goesOn⟩

theorem label (advances : before.Advances tree made hits counted written after) :
    after.label = before.label := by
  funext id
  rw [Workspace.label, Workspace.label, advances.labels]

end Workspace.Advances

namespace Build

variable {tree : Tree} {before after : Workspace} {routine : Routine} {storage : Storage}

theorem advances_of_write {requests : List Request} {value : Unit}
    (begun : before.routine = some routine) (plain : ∀ request ∈ requests, request.Plain)
    (done : onRoutine tree (Routine.write requests) before = .ok value after) :
    before.Advances tree [] 0 0 0 after := by
  obtain ⟨instructions, granted, rfl⟩ := of_write begun done
  have straight := straight_of_assemble granted plain
  exact .of_code begun rfl (Routine.code_append ..) straight.countP rfl rfl rfl rfl rfl

theorem advances_of_release {value : Unit} (begun : before.routine = some routine)
    (done : release tree storage before = .ok value after) :
    before.Advances tree [] 0 0 0 after := by
  rcases of_release begun done with ⟨_, rfl⟩ | ⟨_, _, _, _, _, rfl⟩ | ⟨_, _, _, rfl⟩
  · exact .refl tree begun
  · exact .of_silent begun begun rfl rfl rfl rfl
  · exact .of_silent begun rfl rfl rfl rfl rfl

theorem advances_of_park {parked : Storage} (begun : before.routine = some routine)
    (done : park tree storage before = .ok parked after) :
    before.Advances tree [] 0 0 0 after := by
  rcases of_park begun done with
    ⟨rfl, rfl⟩ | ⟨register, offset, rest, instructions, pool, _, _, _, granted, _, same, counts⟩
  · exact .refl tree begun
  · have straight := straight_of_assemble granted (by simp [Request.Plain])
    rw [same, counts]
    exact .of_code begun rfl (Routine.code_append ..) straight.countP rfl rfl rfl rfl rfl

theorem advances_of_settle {settled : Storage} (begun : before.routine = some routine)
    (done : (settled = storage ∧ after = before) ∨
      park tree storage before = .ok settled after) :
    before.Advances tree [] 0 0 0 after := by
  rcases done with ⟨rfl, rfl⟩ | parked
  · exact .refl tree begun
  · exact advances_of_park begun parked

theorem advances_of_materialize {owner : NodeId} {hint : Option Register} {activity : String}
    {register : Register} (begun : before.routine = some routine)
    (done : materialize tree storage owner hint activity before = .ok register after) :
    before.Advances tree [] 0 0 0 after := by
  rcases of_materialize done with
    ⟨pool, _, _, rfl⟩ | ⟨_, _, _, _, between, fetched, released⟩
  · exact .of_silent begun begun rfl rfl rfl rfl
  · have assigned : before.Advances tree [] 0 0 0
        { before with pool := before.pool.assign register (some owner) } :=
      .of_silent begun begun rfl rfl rfl rfl
    have brought := assigned.after_steps
      (advances_of_write begun (Transfer.plain_intoRegister register storage.location) fetched)
    obtain ⟨_, goesOn⟩ := brought.begun
    exact brought.further (advances_of_release goesOn released)

end Build

namespace Stage

variable {tree : Tree} {visit : Visit} {before after : Workspace} {routine : Routine}

theorem advances_of_save {registers : List Register} {value : Unit}
    (begun : before.routine = some routine)
    (done : save tree registers before = .ok value after) :
    before.Advances tree [] 0 0 0 after := by
  obtain ⟨instructions, straight, rfl, _⟩ := of_save begun done
  exact .of_code begun rfl (Routine.code_append ..) straight.countP rfl rfl rfl rfl rfl

theorem advances_of_restore {registers : List Register} {value : Unit}
    (begun : before.routine = some routine)
    (done : restore tree registers before = .ok value after) :
    before.Advances tree [] 0 0 0 after := by
  obtain ⟨instructions, straight, rfl, _⟩ := of_restore begun done
  exact .of_code begun rfl (Routine.code_append ..) straight.countP rfl rfl rfl rfl rfl

theorem advances_of_releaseAll {storages : List Storage} {value : Unit}
    (begun : before.routine = some routine)
    (done : releaseAll tree storages before = .ok value after) :
    before.Advances tree [] 0 0 0 after := by
  induction storages generalizing before routine with
  | nil =>
    obtain ⟨_, rfl⟩ := estate_pure_eq_ok.mp done
    exact .refl tree begun
  | cons storage rest ih =>
    simp only [releaseAll, estate_bind_eq_ok] at done
    obtain ⟨_, between, first, remaining⟩ := done
    have released := Build.advances_of_release begun first
    obtain ⟨_, goesOn⟩ := released.begun
    exact released.further (ih goesOn remaining)

/-- A call is one call instruction. -/
theorem advances_of_callThrough {stage : Stage} {moves : List Move} {value : Unit}
    (begun : before.routine = some routine)
    (done : stage.callThrough tree moves before = .ok value after) :
    before.Advances tree [] 0 0 1 after := by
  obtain ⟨instructions, _, rfl, effect⟩ := effect_of_callThrough begun done
  have count : instructions.countP Instruction.isCall = 1 := by
    let idle : Machine := ⟨fun _ => 0, fun _ => 0, fun _ => 0⟩
    rw [← Machine.length_calls (fun _ machine => machine) idle,
      (effect (fun _ machine => machine) idle).2.1]
    rfl
  exact .of_code begun rfl (Routine.code_append ..) count rfl rfl rfl rfl rfl

theorem advances_of_capture {call : NodeId} {kind : Kind} {hint : Option Register}
    {result : Storage} (begun : before.routine = some routine)
    (done : capture tree call kind hint before = .ok result after) :
    before.Advances tree [] 0 0 0 after := by
  rcases of_capture begun done with
    ⟨register, instructions, _, _, _, granted, _, rfl⟩ |
    ⟨offset, rest, instructions, _, granted, _, rfl⟩
  · have straight := straight_of_assemble granted (Transfer.plain_intoRegister _ _)
    exact .of_code begun rfl (Routine.code_append ..) straight.countP rfl rfl rfl rfl rfl
  · have straight := straight_of_assemble granted (by simp [Request.Plain])
    exact .of_code begun rfl (Routine.code_append ..) straight.countP rfl rfl rfl rfl rfl

end Stage

/-- Whether nodes that were asked for have been generated, with all that was not kept of what
they need. Every value that was asked for or used was generated or found kept. -/
def Workspace.Follows (tree : Tree) (before : Workspace) (asked made : List NodeId)
    (after : Workspace) : Prop :=
  ∃ hits, before.Advances tree made hits (made.countP tree.isCall) (made.countP tree.isCall) after ∧
    hits + made.length =
      asked.length + (made.map fun user => (tree.operandsOf user).length).sum

namespace Workspace.Follows

variable {tree : Tree} {before between later : Workspace}
variable {asked others made more : List NodeId}

theorem begun (follows : before.Follows tree asked made later) :
    ∃ routine, later.routine = some routine := by
  obtain ⟨_, advances, _⟩ := follows
  exact advances.begun

theorem label (follows : before.Follows tree asked made later) : later.label = before.label := by
  obtain ⟨_, advances, _⟩ := follows
  exact advances.label

theorem keeps (follows : before.Follows tree asked made later) :
    later.keeps = Generation.keeping tree before.keeps made := by
  obtain ⟨_, advances, _⟩ := follows
  exact advances.keeps

theorem trans (first : before.Follows tree asked made between)
    (second : between.Follows tree others more later) :
    before.Follows tree (asked ++ others) (made ++ more) later := by
  obtain ⟨hits, advances, count⟩ := first
  obtain ⟨otherHits, further, otherCount⟩ := second
  refine ⟨hits + otherHits, ?_, ?_⟩
  · rw [List.countP_append]
    exact advances.trans further
  · simp only [List.length_append, List.map_append, List.sum_append]
    omega

theorem further (first : before.Follows tree asked made between)
    (second : between.Advances tree [] 0 0 0 later) : before.Follows tree asked made later := by
  obtain ⟨hits, advances, count⟩ := first
  exact ⟨hits, advances.further second, count⟩

theorem after_steps (first : before.Advances tree [] 0 0 0 between)
    (second : between.Follows tree asked made later) : before.Follows tree asked made later := by
  obtain ⟨hits, advances, count⟩ := second
  exact ⟨hits, first.after_steps advances, count⟩

end Workspace.Follows

/-- Whether a visit generates the nodes that are planned. -/
def Visit.Follows (tree : Tree) (visit : Visit) (plan : Generation.Plan) : Prop :=
  ∀ (before : Workspace) (routine : Routine) (id : NodeId) (hint : Option Register)
    (result : Storage) (after : Workspace), before.routine = some routine →
    visit id hint before = .ok result after →
    before.Follows tree [id] (plan before.label before.keeps id) after

namespace Generation

variable {tree : Tree} {visit : Visit} {plan : Plan} {before between after : Workspace}
variable {routine : Routine} {id : NodeId} {node : Node} {hint : Option Register} {result : Storage}

/-- Arguments are generated in turn. -/
theorem follows_evaluateInOrder (visits : visit.Follows tree plan) {demands : List Stage.Demand}
    {found : List (Nat × Storage)} (begun : before.routine = some routine)
    (done : Stage.evaluateInOrder tree visit demands before = .ok found after) :
    let asked := demands.map fun demand => demand.argument.node
    before.Follows tree asked (inTurn tree (plan before.label) before.keeps asked) after := by
  induction demands generalizing before found routine with
  | nil =>
    obtain ⟨_, rfl⟩ := estate_pure_eq_ok.mp done
    exact ⟨0, .refl tree begun, rfl⟩
  | cons demand rest ih =>
    obtain ⟨value, visited, settled, parked, others, first, parking, remaining, rfl⟩ :=
      Stage.of_evaluateInOrder_cons done
    have generated := visits before routine _ _ _ _ begun first
    obtain ⟨_, goesOn⟩ := generated.begun
    have settles := generated.further (Build.advances_of_settle goesOn parking)
    obtain ⟨_, goesOn⟩ := settles.begun
    have later := ih goesOn remaining
    rw [settles.label, settles.keeps] at later
    exact settles.trans later

/-- Two operands are generated in the order of their labels. -/
theorem follows_operands (visits : visit.Follows tree plan) (operation : Arithmetic)
    {left right : NodeId} {first second : Storage} (begun : before.routine = some routine)
    (done : operands tree visit left right hint before = .ok (first, second) after) :
    let asked := sequence before.label (.arith operation left right)
    before.Follows tree asked (inTurn tree (plan before.label) before.keeps asked) after := by
  have inOrder {earlier later : NodeId} {hint hint' : Option Register}
      {value settled last : Storage} {needed : Nat} {visited parked : Workspace}
      (visiting : visit earlier hint before = .ok value visited)
      (parking : Build.parkUnderPressure tree value needed .generalPurpose visited =
        .ok settled parked)
      (visitingLast : visit later hint' parked = .ok last after) :
      before.Follows tree [earlier, later]
        (inTurn tree (plan before.label) before.keeps [earlier, later]) after := by
    have generated := visits before routine _ _ _ _ begun visiting
    obtain ⟨_, goesOn⟩ := generated.begun
    have settles :=
      generated.further (Build.advances_of_settle goesOn (Build.of_parkUnderPressure parking))
    obtain ⟨_, goesOn⟩ := settles.begun
    have rest := visits parked _ _ _ _ _ goesOn visitingLast
    rw [settles.label, settles.keeps] at rest
    simpa [inTurn] using settles.trans rest
  obtain ⟨needed, value, between, parked,
    ⟨lighter, visiting, parking, last⟩ | ⟨heavier, visiting, parking, last⟩⟩ := of_operands done
  · rw [sequence, if_pos lighter]
    exact inOrder visiting parking last
  · rw [sequence, if_neg heavier]
    exact inOrder visiting parking last

theorem follows_arith (visits : visit.Follows tree plan) {operation : Arithmetic}
    {left right : NodeId} {kind : Kind} (begun : before.routine = some routine)
    (done : arith tree visit id kind operation left right hint before = .ok result after) :
    let asked := sequence before.label (.arith operation left right)
    before.Follows tree asked (inTurn tree (plan before.label) before.keeps asked) after := by
  obtain ⟨first, second, target, evaluated, placed, combined, evaluation, placing, combining,
    released, rfl⟩ := of_arith done
  have operands := follows_operands visits operation begun evaluation
  obtain ⟨_, goesOn⟩ := operands.begun
  have materialized := operands.further (Build.advances_of_materialize goesOn placing)
  obtain ⟨_, goesOn⟩ := materialized.begun
  have written := materialized.further
    (Build.advances_of_write goesOn (plain_applyOperand _ _ _) combining)
  obtain ⟨_, goesOn⟩ := written.begun
  exact written.further (Build.advances_of_release goesOn released)

/-- A call is counted and written after those that its arguments and its function need. -/
theorem follows_emitCall (visits : visit.Follows tree plan) {stage : Stage} {kind : Kind}
    {arguments : List NodeId} {function : NodeId} (of : stage.Of tree arguments)
    (begun : before.routine = some routine)
    (done : stage.emitCall tree visit function id kind hint before = .ok result after) :
    let asked := sequence before.label (.call function arguments)
    ∃ between,
      before.Follows tree asked (inTurn tree (plan before.label) before.keeps asked) between ∧
        between.Advances tree [] 0 1 1 after := by
  obtain ⟨early, late, values, target, entered, evaluated, pointed, released, guarded, called,
    captured, restored, _, saved, evaluation, visiting, gaveBack, _, savedLate, through,
    capturing, restoring, same, counts⟩ := Stage.of_emitCall done
  have saving := Stage.advances_of_save begun saved
  obtain ⟨_, goesOn⟩ := saving.begun
  obtain ⟨ordered, found, nodes, evaluating, _⟩ := Stage.of_evaluate evaluation
  have argued := follows_evaluateInOrder visits goesOn evaluating
  rw [nodes, of.nodes, saving.label, saving.keeps, keeping_nil] at argued
  have operands := argued.after_steps saving
  obtain ⟨_, goesOn⟩ := operands.begun
  have pointing := visits evaluated _ _ _ _ _ goesOn visiting
  rw [operands.label, operands.keeps] at pointing
  have asked := operands.trans pointing
  obtain ⟨_, goesOn⟩ := asked.begun
  have releasing := asked.further (Stage.advances_of_releaseAll goesOn gaveBack)
  obtain ⟨_, goesOn⟩ := releasing.begun
  have guarding := releasing.further (Stage.advances_of_save goesOn savedLate)
  obtain ⟨_, goesOn⟩ := guarding.begun
  have calling := Stage.advances_of_callThrough goesOn through
  obtain ⟨_, goesOn⟩ := calling.begun
  have captures := calling.further (Stage.advances_of_capture goesOn capturing)
  obtain ⟨_, goesOn⟩ := captures.begun
  have restores := captures.further (Stage.advances_of_restore goesOn restoring)
  obtain ⟨last, ended⟩ := restores.begun
  have counted : restored.Advances tree [] 0 1 0 after := by
    rw [same]
    exact {
      labels := rfl
      keeps := (keeping_nil tree _).symm
      compiled := by rw [counts]; rfl
      hits := by rw [counts]; rfl
      calls := by rw [counts]
      code := ⟨last, last, [], ended, ended, (List.append_nil _).symm, rfl⟩ }
  refine ⟨guarded, ?_, restores.trans counted⟩
  rwa [sequence, inTurn_concat]

/-- Generating an operation generates its operands in their order, and counts and writes one call
more if it is a call. -/
theorem advances_operation (visits : visit.Follows tree plan)
    (begun : before.routine = some routine) {operation : Operation} {kind : Kind}
    (done : Generation.operation tree visit id kind hint operation before = .ok result after) :
    let asked := sequence before.label operation
    let made := inTurn tree (plan before.label) before.keeps asked
    let calls := made.countP tree.isCall + if operation.isCall then 1 else 0
    ∃ hits, before.Advances tree made hits calls calls after ∧
      hits + made.length =
        asked.length + (made.map fun user => (tree.operandsOf user).length).sum := by
  cases operation with
  | constant bits =>
    obtain ⟨_, rfl⟩ := estate_pure_eq_ok.mp done
    exact ⟨0, .refl tree begun, rfl⟩
  | parameter index =>
    obtain ⟨_, _, _, rfl⟩ := of_parameter begun done
    exact ⟨0, .refl tree begun, rfl⟩
  | arith operation left right =>
    simpa [Operation.isCall, Workspace.Follows] using follows_arith visits begun done
  | call function arguments =>
    simp only [Generation.operation, estate_bind_eq_ok, Build.lift_eq_ok] at done
    obtain ⟨stage, _, ⟨staged, rfl⟩, done⟩ := done
    obtain ⟨between, ⟨hits, advances, count⟩, calling⟩ :=
      follows_emitCall visits (Stage.of_ofArguments staged) begun done
    exact ⟨hits, by simpa [Operation.isCall] using advances.trans calling, count⟩

/-- A node whose value is kept is not generated; any other one is generated after its operands. -/
theorem follows_node (visits : visit.Follows tree plan) :
    (Generation.node tree visit).Follows tree (plan.deepen tree) := by
  intro before routine id hint result after begun done
  obtain ⟨node, found, ⟨cached, kept, _, same, counts⟩ | ⟨unkept, storage, between, generated,
    counts, rest⟩⟩ := of_node done
  · rw [Plan.deepen, if_pos (Workspace.keeps_of_cached kept)]
    refine ⟨1, ?_, rfl⟩
    rw [same]
    exact {
      labels := rfl
      keeps := (keeping_nil tree _).symm
      compiled := by rw [counts]; rfl
      hits := by rw [counts]
      calls := by rw [counts]; rfl
      code := ⟨routine, routine, [], begun, begun, (List.append_nil _).symm, rfl⟩ }
  · rw [Plan.deepen, if_neg (Workspace.keeps_of_uncached unkept), found]
    obtain ⟨hits, advances, count⟩ := advances_operation visits begun generated
    obtain ⟨later, goesOn⟩ := advances.begun
    have made : between.Advances tree [id] 0 0 0 after := {
      labels := by rcases rest with ⟨_, _, same⟩ | ⟨_, _, same⟩ <;> rw [same]
      keeps := by
        have isShared := Tree.isShared_of_node found
        rcases rest with ⟨shared, _, same⟩ | ⟨single, _, same⟩
        · rw [same, ← Workspace.keeps_insert between storage (isShared.trans shared)]
          rfl
        · rw [same, keeping_of_unshared (isShared.trans single)]
          rfl
      compiled := by rw [counts]; rfl
      hits := by rw [counts]; rfl
      calls := by rw [counts]; rfl
      code := by
        refine ⟨later, later, [], goesOn, ?_, (List.append_nil _).symm, rfl⟩
        rcases rest with ⟨_, _, same⟩ | ⟨_, _, same⟩ <;> rw [same] <;> exact goesOn }
    refine ⟨hits, ?_, ?_⟩
    · have isCall : [id].countP tree.isCall = if node.operation.isCall then 1 else 0 := by
        rw [List.countP_singleton, Tree.isCall_of_node found]
      rw [List.countP_append, isCall]
      simpa using advances.trans made
    · have operands : (sequence before.label node.operation).length =
          (tree.operandsOf id).length := by
        rw [Tree.operandsOf_of_node found, (perm_sequence _ _).length_eq]
      simp only [List.length_append, List.length_singleton, List.map_append, List.sum_append,
        List.map_singleton, List.sum_singleton]
      omega

/-- Generating a node generates the nodes of `Generation.order`. -/
theorem within_follows (tree : Tree) (depth : Nat) :
    (within tree depth).Follows tree (order tree depth) := by
  induction depth with
  | zero =>
    intro before routine id hint result after _ done
    exact absurd done estate_throw_ne_ok
  | succ depth ih => exact follows_node ih

end Generation

end NativeExpr
