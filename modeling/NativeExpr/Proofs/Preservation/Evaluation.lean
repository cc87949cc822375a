import NativeExpr.Proofs.Generation.Counting
import NativeExpr.Proofs.Preservation.Call

/-!
# Evaluating arguments and calling

`Run.Visits` says of a visit that it generates what it is asked for, and carries over what is
taken. If it does, so does the evaluation of a list of arguments, whatever their order, and
so does a whole call: what is saved before the first argument is evaluated is still on the
stack when the last one is. The calls are those of the nodes that are generated, in the order
in which they are.
-/

namespace NativeExpr.Run

variable {run : Run} {room : Nat} {visit : Visit} {plan : Generation.Plan} {before site : Site}
variable {after : Workspace} {called : List NodeId} {claims : List (NodeId × Storage)}
variable {id : NodeId} {storage : Storage}

/-- The nodes among others that call. -/
def callers (run : Run) (made : List NodeId) : List NodeId := made.filter run.tree.isCall

theorem callers_append (run : Run) (first second : List NodeId) :
    run.callers (first ++ second) = run.callers first ++ run.callers second :=
  List.filter_append ..

/-- Whether a visit generates the nodes that are planned, and claims the value of the node that
it is asked for wherever the stack has some room. -/
structure Visits (run : Run) (room : Nat) (visit : Visit) (plan : Generation.Plan) : Prop where
  follows : visit.Follows run.tree plan
  generates : ∀ (before : Site) (id : NodeId) (hint : Option Register) (result : Storage)
    (after : Workspace), run.Consistent before →
    (run.state before.routine).depth + room ≤ run.limit →
    visit id hint before.work = .ok result after →
    ∃ later : Site, later.work = after ∧
      run.Generates before (run.callers (plan before.work.label before.work.keeps id))
        [(id, result)] later

/-- A claimed value stays where it is or is parked. -/
theorem Generates.settle {settled : Storage} {work : Workspace}
    (generates : run.Generates before called ((id, storage) :: claims) site)
    (done : (settled = storage ∧ work = site.work) ∨
      Build.park run.tree storage site.work = .ok settled work) :
    ∃ later : Site, later.work = work ∧
      run.Generates before called ((id, settled) :: claims) later := by
  rcases done with ⟨rfl, rfl⟩ | parked
  · exact ⟨site, rfl, generates⟩
  · exact generates.park parked

/-- A node is generated and its value stays where it is or is parked, before other nodes are
generated. -/
theorem Visits.settle (visits : run.Visits room visit plan) {hint : Option Register}
    {settled : Storage} {visited parked : Workspace} (consistent : run.Consistent before)
    (deep : (run.state before.routine).depth + room ≤ run.limit)
    (first : visit id hint before.work = .ok storage visited)
    (parking : (settled = storage ∧ parked = visited) ∨
      Build.park run.tree storage visited = .ok settled parked) :
    ∃ next : Site, next.work = parked ∧
      (run.state next.routine).depth + room ≤ run.limit ∧
      before.work.Follows run.tree [id] (plan before.work.label before.work.keeps id) next.work ∧
      run.Generates before (run.callers (plan before.work.label before.work.keeps id))
        [(id, settled)] next := by
  obtain ⟨there, rfl, generated⟩ := visits.generates before _ _ _ _ consistent deep first
  obtain ⟨next, rfl, kept⟩ := generated.settle parking
  have follows := visits.follows _ _ _ _ _ _ consistent.begun first
  exact ⟨next, rfl, kept.depth.symm ▸ deep,
    follows.further (Build.advances_of_settle generated.consistent.begun parking), kept⟩

/-- Evaluating arguments in an order claims their values in this order. -/
theorem Visits.evaluateInOrder (visits : run.Visits room visit plan)
    {demands : List Stage.Demand} {found : List (Nat × Storage)}
    (consistent : run.Consistent before)
    (deep : (run.state before.routine).depth + room ≤ run.limit)
    (done : Stage.evaluateInOrder run.tree visit demands before.work = .ok found after) :
    ∃ (evaluated : List (Stage.Demand × Storage)) (later : Site), later.work = after ∧
      evaluated.map Prod.fst = demands ∧
      found = evaluated.map (fun each => (each.1.position, each.2)) ∧
      run.Generates before
        (run.callers (Generation.inTurn run.tree (plan before.work.label) before.work.keeps
          (demands.map fun demand => demand.argument.node)))
        (evaluated.map fun each => (each.1.argument.node, each.2)) later := by
  induction demands generalizing before found with
  | nil =>
    obtain ⟨rfl, rfl⟩ := estate_pure_eq_ok.mp done
    exact ⟨[], before, rfl, rfl, rfl, consistent.generates⟩
  | cons demand rest ih =>
    obtain ⟨value, visited, settled, parked, others, first, parking, remaining, rfl⟩ :=
      Stage.of_evaluateInOrder_cons done
    obtain ⟨next, rfl, deeper, follows, kept⟩ := visits.settle consistent deep first parking
    obtain ⟨evaluated, later, reached, demands, pairs, generates⟩ :=
      ih kept.consistent deeper remaining
    rw [follows.label, follows.keeps] at generates
    refine ⟨(demand, settled) :: evaluated, later, reached, ?_, ?_, ?_⟩
    · rw [List.map_cons, demands]
    · rw [List.map_cons, pairs]
    · rw [List.map_cons, Generation.inTurn, callers_append]
      exact kept.trans generates

/-- Evaluating the arguments of a stage claims the value of each of them. -/
theorem Visits.evaluate (visits : run.Visits room visit plan) {stage : Stage}
    {arguments : List NodeId} {values : List Storage} (consistent : run.Consistent before)
    (deep : (run.state before.routine).depth + room ≤ run.limit)
    (of : stage.Of run.tree arguments)
    (done : stage.evaluate run.tree visit before.work = .ok values after) :
    let asked := Generation.heaviestFirst before.work.label arguments
    let made := Generation.inTurn run.tree (plan before.work.label) before.work.keeps asked
    ∃ later : Site, later.work = after ∧ stage.arguments.length = values.length ∧
      before.work.Follows run.tree asked made later.work ∧
      run.Generates before (run.callers made) (arguments.zip values) later := by
  intro asked made
  obtain ⟨ordered, found, nodes, evaluation, reorder⟩ := Stage.of_evaluate done
  obtain ⟨evaluated, later, reached, demands, pairs, generates⟩ :=
    visits.evaluateInOrder consistent deep evaluation
  have follows := Generation.follows_evaluateInOrder visits.follows consistent.begun evaluation
  rw [nodes, of.nodes] at follows generates
  obtain ⟨settled, reordered, listed, rfl⟩ := reorder evaluated demands pairs
  refine ⟨later, reached, ?_, reached ▸ follows, ?_⟩
  · rw [← listed, List.length_map, List.length_map]
  · have claims : arguments.zip (settled.map Prod.snd) =
        settled.map fun each => (each.1.argument.node, each.2) := by
      rw [← of.nodes, ← listed, List.map_map, List.zip_map']
      rfl
    rw [claims]
    exact generates.perm (reordered.symm.map _)

/-- Evaluating the arguments of a call and then the function claims all of their values. -/
theorem Visits.evaluateCall (visits : run.Visits room visit plan) {stage : Stage}
    {arguments : List NodeId} {function : NodeId} {hint : Option Register}
    {values : List Storage} {target : Storage} {evaluated : Workspace}
    (consistent : run.Consistent before)
    (deep : (run.state before.routine).depth + room ≤ run.limit)
    (of : stage.Of run.tree arguments)
    (evaluation : stage.evaluate run.tree visit before.work = .ok values evaluated)
    (visited : visit function hint evaluated = .ok target after) :
    let asked := Generation.sequence before.work.label (.call function arguments)
    ∃ later : Site, later.work = after ∧ stage.arguments.length = values.length ∧
      run.Generates before
        (run.callers
          (Generation.inTurn run.tree (plan before.work.label) before.work.keeps asked))
        (arguments.zip values ++ [(function, target)]) later := by
  intro asked
  obtain ⟨listed, rfl, complete, follows, argued⟩ :=
    visits.evaluate consistent deep of evaluation
  obtain ⟨pointing, rfl, found⟩ := visits.generates listed _ _ _ _ argued.consistent
    (by rw [argued.depth]; exact deep) visited
  rw [follows.label, follows.keeps] at found
  have made : Generation.inTurn run.tree (plan before.work.label) before.work.keeps asked = _ :=
    Generation.inTurn_concat ..
  rw [made, callers_append]
  exact ⟨pointing, rfl, complete, argued.trans found⟩

/-- The claimed values of arguments and of a function are out of the way of a call. -/
theorem Generates.holds {stage : Stage} {arguments : List NodeId} {function : NodeId}
    {values : List Storage} {target : Storage} (of : stage.Of run.tree arguments)
    (generates : run.Generates before called (arguments.zip values ++ [(function, target)]) site) :
    (∀ argument value, (argument, value) ∈ stage.arguments.zip values →
      run.Holds (run.state site.routine) argument.node value) ∧
    run.Holds (run.state site.routine) function target := by
  constructor
  · intro argument value paired
    apply (generates.right (argument.node, value) ?_).holds generates.consistent
    apply List.mem_append_left
    rw [← of.nodes, List.zip_map_left]
    exact List.mem_map.mpr ⟨(argument, value), paired, rfl⟩
  · exact (generates.right (function, target)
      (List.mem_append_right _ (List.mem_singleton_self _))).holds generates.consistent

/-- Saving live registers deepens the stack and keeps all that is taken. -/
theorem Consistent.save {early : List Register} {value : Unit} (consistent : run.Consistent before)
    (live : ∀ register ∈ early, before.work.pool.live.contains register)
    (few : early.length ≤ 32) (deep : (run.state before.routine).depth + 512 ≤ run.limit)
    (done : Stage.save run.tree early before.work = .ok value after) :
    ∃ later : Site, later.work = after ∧ run.Carries before [] [] later ∧
      (run.state later.routine).depth = (run.state before.routine).depth + 8 * early.length ∧
      (run.state later.routine).Stacked (run.state later.routine).get
        ((run.state later.routine).get .rsp) early.reverse := by
  obtain ⟨pushes, rfl, emits, pushed⟩ := consistent.saving live few deep done
  have below := consistent.below
  rw [← state_append consistent.written] at pushed
  have depth := pushed.depth
  have keeps : run.Keeps before (run.state (before.routine.append pushes)) := {
    base := pushed.base
    registers := fun register used => pushed.register (consistent.pool.usable_of_live used)
    memory := fun place inside within _ => pushed.memory place inside within }
  refine ⟨⟨_, { before.routine.append pushes with
    pushed := before.routine.pushed + BitVec.ofNat 32 (8 * early.length) }, before.settled⟩, rfl,
    ?_, depth, pushed.stacked_self (consistent.pool.pushable live)⟩
  exact consistent.advance rfl (Routine.code_append before.routine pushes) emits keeps
    (Nat.le_trans (by omega) depth.ge) consistent.pool rfl (fun _ used => used)
    consistent.frame rfl rfl (fun _ free => free) rfl rfl

/-- What is saved below the body of the frame stays on the stack, and the registers keep their
values. -/
theorem Generates.saves {early : List Register} (consistent : run.Consistent before)
    (generates : run.Generates before called claims site)
    (live : ∀ register ∈ early, before.work.pool.live.contains register)
    (few : early.length ≤ 64)
    (beneath : 56 + before.routine.frame.size.toNat + 8 * early.length ≤
      (run.state before.routine).depth)
    (stacked : (run.state before.routine).Stacked (run.state before.routine).get
      ((run.state before.routine).get .rsp) early.reverse) :
    run.Saves site early (run.state site.routine) where
  base := rfl
  registers _ _ _ := rfl
  memory _ _ _ _ := rfl
  stacked := by
    have same := stacked.values_congr fun register listed =>
      generates.registers register (live register (List.mem_reverse.mp listed))
    rw [generates.stack]
    apply same.congr
    · rw [List.length_reverse]
      omega
    · intro place within
      rw [List.length_reverse] at within
      have saves : run.Saves before early (run.state before.routine) :=
        ⟨rfl, fun _ _ _ => rfl, fun _ _ _ _ => rfl, stacked, beneath, Nat.le_refl _, few⟩
      obtain ⟨low, high⟩ := saves.saved_byte within
      exact generates.memory place (by omega) high fun slot free => consistent.beneath low free
  beneath := by
    rw [generates.depth, generates.size]
    exact beneath
  deep := Nat.le_refl _
  few := few

/-- A call claims its result and carries over what is taken. -/
theorem Visits.emitCall (visits : run.Visits room visit plan) {stage : Stage}
    {arguments : List NodeId} {function call : NodeId} {kind : Kind} {hint : Option Register}
    {result : Storage} (consistent : run.Consistent before)
    (deep : (run.state before.routine).depth + room + 512 ≤ run.limit) (large : 2 ^ 33 ≤ room)
    (of : stage.Of run.tree arguments) (calls : run.Calls call kind function arguments)
    (same : kind = run.tree.kindOf call)
    (done : stage.emitCall run.tree visit function call kind hint before.work =
      .ok result after) :
    let asked := Generation.sequence before.work.label (.call function arguments)
    ∃ later : Site, later.work = after ∧
      run.Generates before
        (run.callers (Generation.inTurn run.tree (plan before.work.label) before.work.keeps
          asked) ++ [call])
        [(call, result)] later := by
  intro asked
  obtain ⟨early, late, values, target, entered, evaluated, pointed, released, guarded, called,
    captured, restored, earlyIs, saved, evaluation, visited, gaveBack, lateIs, savedLate, through,
    capturing, restoring, counted, _⟩ := Stage.of_emitCall done
  have live : ∀ register ∈ early, before.work.pool.live.contains register := by
    intro register member
    rw [earlyIs, RegisterSet.mem_toList, Stage.exposed, RegisterSet.contains_inter,
      Bool.and_eq_true] at member
    exact member.1
  have few : early.length ≤ 32 := earlyIs ▸ RegisterSet.length_toList _
  have below := consistent.below
  -- The registers that are live are saved.
  have advances := Stage.advances_of_save consistent.begun saved
  obtain ⟨saving, rfl, entering, depth, stacked⟩ :=
    consistent.save live few (by omega) saved
  have savedLive : ∀ register ∈ early, saving.work.pool.live.contains register :=
    fun register member => entering.taken (.register register) (live register member)
  -- The arguments and the function are evaluated.
  obtain ⟨pointing, rfl, complete, evaluating⟩ :=
    visits.evaluateCall entering.consistent (by omega) of evaluation visited
  rw [advances.label, advances.keeps, Generation.keeping_nil] at evaluating
  obtain ⟨holds, pointer⟩ := evaluating.holds of
  have nodes : arguments.length = values.length := by
    rw [← of.nodes, List.length_map, complete]
  have storages : ((arguments.zip values ++ [(function, target)]).map Prod.snd) =
      values ++ [target] := by
    rw [List.map_append, List.map_snd_zip nodes.ge]
    rfl
  -- Their locations are given back, and the late registers are saved.
  obtain ⟨releasing, rfl, state, gone⟩ :=
    evaluating.releaseAll (by rw [storages]; exact gaveBack)
  rw [← state] at holds pointer
  have savings := gone.saves entering.consistent savedLive (by omega)
    (by rw [entering.size]; omega) stacked
  have stillLive : ∀ register ∈ early, releasing.work.pool.live.contains register :=
    fun register member => gone.taken (.register register) (savedLive register member)
  obtain ⟨lateLive, covered⟩ := gone.consistent.guarded stillLive
  rw [← lateIs] at lateLive covered
  have short : late.length ≤ 32 := lateIs ▸ RegisterSet.length_toList _
  obtain ⟨instructions, pushed, emits, reached, saves, deepened, means⟩ :=
    gone.consistent.callThrough of calls savings few short lateLive covered
      (by rw [gone.depth]; omega) complete holds pointer savedLate through
  have distinct : (early ++ late).Nodup := by
    rw [List.nodup_append]
    refine ⟨earlyIs ▸ RegisterSet.nodup_toList _, lateIs ▸ RegisterSet.nodup_toList _, ?_⟩
    rintro register member other lateMember rfl
    exact (lateLive register lateMember).2 member
  have allLive : ∀ register ∈ early ++ late, releasing.work.pool.live.contains register := by
    intro register member
    rcases List.mem_append.mp member with member | member
    · exact stillLive register member
    · exact (lateLive register member).1
  -- The result is captured and everything is restored.
  obtain ⟨later, arrived, captures, lifted⟩ := saves.capture gone.consistent emits distinct
    allLive same means reached capturing restoring after.statistics
  have carries := (entering.trans gone.toCarries (by omega)).trans captures
    (by rw [gone.depth]; omega)
  simp only [List.nil_append] at carries
  refine ⟨later, arrived.trans counted.symm, { carries with stack := ?_ }⟩
  apply Machine.stack_of_depth carries.base
  rw [List.length_append] at lifted
  have released := gone.depth
  omega

end NativeExpr.Run
