import NativeExpr.Proofs.Generation.Basic
import NativeExpr.Proofs.Independence.Agreement

/-!
# Generation does not depend on numbers

Generating a node and generating its image in another tree write the same code and count the same
steps. The numbers of nodes decide where labels and kept values are found and who is recorded as
the owner of a register; none of these is written.
-/

namespace NativeExpr

/-- The argument under another number. -/
def Staged.rename (rename : NodeId → NodeId) (argument : Staged) : Staged :=
  { argument with node := rename argument.node }

/-- The demand of an argument under another number. -/
def Stage.Demand.rename (rename : NodeId → NodeId) (demand : Stage.Demand) : Stage.Demand :=
  { demand with argument := demand.argument.rename rename }

/-- The stage of the same arguments under other numbers. -/
def Stage.rename (rename : NodeId → NodeId) (stage : Stage) : Stage :=
  { stage with arguments := stage.arguments.map (Staged.rename rename) }

/-- Whether a visit does the same for a node as another visit does for its image. -/
def Visit.Mirrors (rename : NodeId → NodeId) (needed : NodeId → Prop) (visit mirror : Visit)
    (id : NodeId) : Prop :=
  ∀ (hint : Option Register) (work twin : Workspace), work.Parallel rename needed twin →
    Build.Agree Eq (Workspace.Parallel rename needed) (visit id hint work)
      (mirror (rename id) hint twin)

namespace Stage

open Build

variable {tree other : Tree} {rename : NodeId → NodeId} {needed : NodeId → Prop}
variable {visit mirror : Visit} {work twin : Workspace}

/-- Arguments of the same kinds get the same places. -/
theorem ofArguments_rename (renumbers : tree.Renumbers other rename needed)
    {arguments : List NodeId} (need : ∀ argument ∈ arguments, needed argument) :
    ofArguments other (arguments.map rename) =
      (ofArguments tree arguments).map (Stage.rename rename) := by
  have staged (stage : Stage) : (arguments.map rename).foldlM (add other) (stage.rename rename) =
      (arguments.foldlM (add tree) stage).map (Stage.rename rename) := by
    induction arguments generalizing stage with
    | nil => rfl
    | cons argument rest ih =>
      obtain ⟨node, image, found, imageFound, kind, _⟩ :=
        renumbers.node argument (need argument List.mem_cons_self)
      have later := ih fun other listed => need other (List.mem_cons_of_mem _ listed)
      simp only [List.map_cons, List.foldlM_cons, add, node_ok found, node_ok imageFound, kind,
        bind, Except.bind, pure, Except.pure]
      rw [← later]
      simp [Stage.rename, Staged.rename]
  exact staged .new

theorem insertDemand_rename (demand : Demand) (demands : List Demand) :
    insertDemand (demand.rename rename) (demands.map (Demand.rename rename)) =
      (insertDemand demand demands).map (Demand.rename rename) := by
  induction demands with
  | nil => rfl
  | cons next rest ih =>
    by_cases lighter : next.label ≤ demand.label
    · simp [insertDemand, Demand.rename, lighter]
    · simpa [insertDemand, Demand.rename, lighter] using ih

theorem heaviestFirst_rename (demands : List Demand) :
    heaviestFirst (demands.map (Demand.rename rename)) =
      (heaviestFirst demands).map (Demand.rename rename) := by
  induction demands with
  | nil => rfl
  | cons demand rest ih => rw [List.map_cons, heaviestFirst, ih, insertDemand_rename, heaviestFirst]

theorem agree_demands (renumbers : tree.Renumbers other rename needed) {arguments : List Staged}
    (need : ∀ argument ∈ arguments, needed argument.node) (start : Nat)
    (parallel : work.Parallel rename needed twin) :
    Agree (fun asked images => images = asked.map (Demand.rename rename) ∧
        asked.map Demand.argument = arguments)
      (Workspace.Parallel rename needed) (demands tree start arguments work)
      (demands other start (arguments.map (Staged.rename rename)) twin) := by
  induction arguments generalizing start work twin with
  | nil => exact .ok ⟨rfl, rfl⟩ parallel
  | cons argument rest ih =>
    have here := need argument List.mem_cons_self
    refine (agree_label renumbers here trivial parallel.toAlike parallel).andThen
      fun label _ _ parallel => ?_
    refine (ih (fun other listed => need other (List.mem_cons_of_mem _ listed)) (start + 1)
      parallel).bind fun asked _ _ _ ⟨same, listed⟩ parallel => ?_
    exact .ok ⟨by rw [same]; rfl, by rw [List.map_cons, listed]⟩ parallel

theorem agree_evaluateInOrder {demands : List Demand}
    (visits : ∀ demand ∈ demands, visit.Mirrors rename needed mirror demand.argument.node)
    (parallel : work.Parallel rename needed twin) :
    Agree Eq (Workspace.Parallel rename needed) (evaluateInOrder tree visit demands work)
      (evaluateInOrder other mirror (demands.map (Demand.rename rename)) twin) := by
  induction demands generalizing work twin with
  | nil => exact agree_pure parallel
  | cons demand rest ih =>
    have goesOn (settled : Storage) {work twin : Workspace}
        (parallel : work.Parallel rename needed twin) :
        Agree Eq (Workspace.Parallel rename needed)
          ((do return (demand.position, settled) :: (← evaluateInOrder tree visit rest) :
            Build (List (Nat × Storage))) work)
          ((do return (demand.position, settled) ::
              (← evaluateInOrder other mirror (rest.map (Demand.rename rename))) :
            Build (List (Nat × Storage))) twin) :=
      (ih (fun other listed => visits other (List.mem_cons_of_mem _ listed)) parallel).andThen
        fun _ _ _ parallel => agree_pure parallel
    refine (visits demand List.mem_cons_self demand.argument.place.register? work twin
      parallel).andThen fun value _ _ parallel => ?_
    cases rest with
    | nil => exact goesOn value parallel
    | cons next later =>
      exact (agree_parkUnderPressure value next.label next.argument.kind.bank parallel).andThen
        fun settled _ _ parallel => goesOn settled parallel

theorem agree_evaluate (renumbers : tree.Renumbers other rename needed) {stage : Stage}
    (need : ∀ argument ∈ stage.arguments, needed argument.node)
    (visits : ∀ argument ∈ stage.arguments, visit.Mirrors rename needed mirror argument.node)
    (parallel : work.Parallel rename needed twin) :
    Agree Eq (Workspace.Parallel rename needed) (stage.evaluate tree visit work)
      ((stage.rename rename).evaluate other mirror twin) := by
  simp only [evaluate]
  refine (agree_demands renumbers need 0 parallel).bind
    fun asked _ _ _ asks parallel => ?_
  obtain ⟨same, arguments⟩ := asks
  have count : (stage.rename rename).arguments.length = stage.arguments.length :=
    List.length_map _
  rw [same, heaviestFirst_rename, count]
  refine (agree_evaluateInOrder (fun demand member => visits demand.argument ?_) parallel).andThen
    fun _ _ _ parallel => agree_pure parallel
  rw [← arguments]
  exact List.mem_map_of_mem ((perm_heaviestFirst asked).mem_iff.mp member)

theorem agree_save (registers : List Register) (parallel : work.Parallel rename needed twin) :
    Agree Eq (Workspace.Parallel rename needed) (save tree registers work)
      (save other registers twin) := by
  rw [save_eq_forM, save_eq_forM]
  exact agree_forM (fun register _ _ => agree_onRoutine (Routine.save register)) registers parallel

theorem agree_restore (registers : List Register) (parallel : work.Parallel rename needed twin) :
    Agree Eq (Workspace.Parallel rename needed) (restore tree registers work)
      (restore other registers twin) := by
  rw [restore_eq_forM, restore_eq_forM]
  exact agree_forM (fun register _ _ => agree_onRoutine (Routine.restore register)) registers
    parallel

theorem agree_releaseAll (storages : List Storage) (parallel : work.Parallel rename needed twin) :
    Agree Eq (Workspace.Parallel rename needed) (releaseAll tree storages work)
      (releaseAll other storages twin) := by
  rw [releaseAll_eq_forM, releaseAll_eq_forM]
  exact agree_forM (fun storage _ _ => agree_release storage) storages parallel

theorem agree_liveCallerSaved (parallel : work.Parallel rename needed twin) :
    Agree Eq (Workspace.Parallel rename needed) (liveCallerSaved work) (liveCallerSaved twin) := by
  obtain ⟨owners, pool⟩ := parallel.pool
  have live : twin.pool.live = work.pool.live := by rw [pool]
  exact .ok (congrArg (·.inter Convention.callerSaved) live.symm) parallel

/-- Which register is preferred for a result does not depend on the owners. -/
theorem agree_capture (call otherCall : NodeId) (kind : Kind) (hint : Option Register)
    (parallel : work.Parallel rename needed twin) :
    Agree Eq (Workspace.Parallel rename needed) (capture tree call kind hint work)
      (capture other otherCall kind hint twin) := by
  obtain ⟨owners, pool⟩ := parallel.pool
  have free : twin.pool.isFree = work.pool.isFree := by
    rw [pool]
    rfl
  simp only [capture]
  refine Agree.afterGet ?_
  rw [free]
  refine (agree_tryRegister _ _ _ _ parallel).andThen fun found _ _ parallel => ?_
  cases found with
  | some register =>
    exact (agree_onRoutine _ parallel).andThen fun _ _ _ parallel => agree_pure parallel
  | none =>
    refine (agree_onRoutine _ parallel).andThen fun slot _ _ parallel => ?_
    cases slot with
    | none => exact agree_throw _
    | some offset =>
      exact (agree_onRoutine _ parallel).andThen fun _ _ _ parallel => agree_pure parallel

/-- A call is generated in the same way whatever the numbers of its nodes are. -/
theorem agree_emitCall (renumbers : tree.Renumbers other rename needed) {stage : Stage}
    {function call otherCall : NodeId} (need : ∀ argument ∈ stage.arguments, needed argument.node)
    (visits : ∀ argument ∈ stage.arguments, visit.Mirrors rename needed mirror argument.node)
    (functionVisits : visit.Mirrors rename needed mirror function) (kind : Kind)
    (hint : Option Register) (parallel : work.Parallel rename needed twin) :
    Agree Eq (Workspace.Parallel rename needed)
      (stage.emitCall tree visit function call kind hint work)
      ((stage.rename rename).emitCall other mirror (rename function) otherCall kind hint twin) := by
  have moves (values : List Storage) (target : Storage) :
      (stage.rename rename).moves values target = stage.moves values target := by
    simp only [Stage.moves, Stage.rename, List.zip_map_left, List.map_map]
    rfl
  simp only [emitCall]
  refine (agree_liveCallerSaved parallel).andThen fun early _ _ parallel => ?_
  refine (agree_save _ parallel).andThen fun _ _ _ parallel => ?_
  refine (agree_evaluate renumbers need visits parallel).andThen fun values _ _ parallel => ?_
  refine (functionVisits _ _ _ parallel).andThen fun target _ _ parallel => ?_
  refine (agree_releaseAll _ parallel).andThen fun _ _ _ parallel => ?_
  refine (agree_liveCallerSaved parallel).andThen fun late _ _ parallel => ?_
  refine (agree_save _ parallel).andThen fun _ _ _ parallel => ?_
  have same := moves values target
  simp only [Stage.moves] at same
  rw [same]
  have through : ∀ moves, (stage.rename rename).callThrough other moves =
      stage.callThrough other moves := fun _ => rfl
  rw [through]
  refine (agree_onRoutine _ parallel).andThen fun _ _ _ parallel => ?_
  refine (agree_capture call otherCall kind hint parallel).andThen fun result _ _ parallel => ?_
  refine (agree_restore _ parallel).andThen fun _ _ _ parallel => ?_
  exact (agree_count _ parallel).andThen fun _ _ _ parallel => agree_pure parallel

end Stage

namespace Generation

open Build

variable {tree other : Tree} {rename : NodeId → NodeId} {needed : NodeId → Prop}
variable {visit mirror : Visit} {work twin : Workspace} {id : NodeId}

theorem agree_operands (renumbers : tree.Renumbers other rename needed) {left right : NodeId}
    (leftNeed : needed left) (rightNeed : needed right)
    (leftVisits : visit.Mirrors rename needed mirror left)
    (rightVisits : visit.Mirrors rename needed mirror right) (hint : Option Register)
    (parallel : work.Parallel rename needed twin) :
    Agree Eq (Workspace.Parallel rename needed) (operands tree visit left right hint work)
      (operands other mirror (rename left) (rename right) hint twin) := by
  simp only [operands]
  refine (agree_label renumbers leftNeed trivial parallel.toAlike parallel).andThen
    fun leftLabel _ _ parallel => ?_
  refine (agree_label renumbers rightNeed trivial parallel.toAlike parallel).andThen
    fun rightLabel _ _ parallel => ?_
  split
  · refine (rightVisits _ _ _ parallel).andThen fun second _ _ parallel => ?_
    refine (agree_parkUnderPressure _ _ _ parallel).andThen fun second _ _ parallel => ?_
    exact (leftVisits _ _ _ parallel).andThen fun _ _ _ parallel => agree_pure parallel
  · refine (leftVisits _ _ _ parallel).andThen fun first _ _ parallel => ?_
    refine (agree_parkUnderPressure _ _ _ parallel).andThen fun first _ _ parallel => ?_
    exact (rightVisits _ _ _ parallel).andThen fun _ _ _ parallel => agree_pure parallel

theorem agree_parameter (index : Nat) (kind : Kind) (parallel : work.Parallel rename needed twin) :
    Agree Eq (Workspace.Parallel rename needed) (parameter tree index kind work)
      (parameter other index kind twin) := by
  refine (agree_onRoutine _ parallel).andThen fun home _ _ parallel => ?_
  cases home with
  | some home => exact agree_pure parallel
  | none => exact agree_throw _

/-- The operation of a node is generated like that of its image. -/
theorem agree_operation (renumbers : tree.Renumbers other rename needed) {operation : Operation}
    (need : ∀ operand ∈ operation.operands, needed operand)
    (visits : ∀ operand ∈ operation.operands, visit.Mirrors rename needed mirror operand)
    (otherId : NodeId) (kind : Kind) (hint : Option Register)
    (parallel : work.Parallel rename needed twin) :
    Agree Eq (Workspace.Parallel rename needed)
      (Generation.operation tree visit id kind hint operation work)
      (Generation.operation other mirror otherId kind hint (operation.rename rename) twin) := by
  cases operation with
  | constant bits => exact agree_pure parallel
  | parameter index => exact agree_parameter index kind parallel
  | arith operation left right =>
    have leftListed : left ∈ (Operation.arith operation left right).operands := List.mem_cons_self
    have rightListed : right ∈ (Operation.arith operation left right).operands :=
      List.mem_cons_of_mem _ List.mem_cons_self
    simp only [Generation.operation, Operation.rename, arith]
    refine (agree_operands renumbers (need left leftListed) (need right rightListed)
      (visits left leftListed) (visits right rightListed) hint parallel).andThen
        fun ⟨first, second⟩ _ _ parallel => ?_
    refine (agree_materialize first _ _ hint _ parallel).andThen fun target _ _ parallel => ?_
    refine (agree_onRoutine _ parallel).andThen fun _ _ _ parallel => ?_
    exact (agree_release second parallel).andThen fun _ _ _ parallel => agree_pure parallel
  | call function arguments =>
    have listed : ∀ argument ∈ arguments, argument ∈ (Operation.call function arguments).operands :=
      fun argument member => List.mem_cons_of_mem _ member
    simp only [Generation.operation, Operation.rename]
    rw [Stage.ofArguments_rename renumbers fun argument member => need argument (listed argument member)]
    cases staged : Stage.ofArguments tree arguments with
    | error cause => exact .error fun _ => rfl
    | ok stage =>
      have of := Stage.of_ofArguments staged
      have among : ∀ argument ∈ stage.arguments, argument.node ∈ arguments :=
        fun argument member => of.nodes ▸ List.mem_map_of_mem member
      exact Stage.agree_emitCall renumbers
        (fun argument member => need _ (listed _ (among argument member)))
        (fun argument member => visits _ (listed _ (among argument member)))
        (visits function List.mem_cons_self) kind hint parallel

/-- A value is kept of a node when it is kept of its image. -/
theorem parallel_insert (renumbers : tree.Renumbers other rename needed) (need : needed id)
    (storage : Storage) (parallel : work.Parallel rename needed twin) :
    ({ work with caches := work.caches.insert id storage } : Workspace).Parallel rename needed
      { twin with caches := twin.caches.insert (rename id) storage } where
  toAlike := { parallel.toAlike with
    caches := fun user userNeed => by
      simp only [Std.TreeMap.getElem?_insert]
      by_cases here : id = user
      · subst here
        simp
      · have apart : rename id ≠ rename user :=
          fun same => here (renumbers.injective id user need userNeed same)
        simpa [here, apart] using parallel.caches user userNeed }
  begun := parallel.begun

theorem mirrors_node (renumbers : tree.Renumbers other rename needed)
    (closed : tree.Closed needed) (need : needed id)
    (visits : ∀ operand ∈ tree.operandsOf id, visit.Mirrors rename needed mirror operand) :
    (Generation.node tree visit).Mirrors rename needed (Generation.node other mirror) id := by
  intro hint work twin parallel
  obtain ⟨node, image, found, imageFound, kind, shared, operation⟩ := renumbers.node id need
  have uses := closed id need
  rw [Tree.operandsOf_of_node found] at uses visits
  refine Agree.after (lift_ok (node_ok found)) (lift_ok (node_ok imageFound)) ?_
  refine (agree_label renumbers need trivial parallel.toAlike parallel).andThen
    fun _ work twin parallel => Agree.afterGet ?_
  rw [parallel.caches id need]
  cases work.caches[id]? with
  | some cached => exact (agree_count _ parallel).andThen fun _ _ _ parallel => agree_pure parallel
  | none =>
    rw [kind, operation, shared]
    refine (agree_operation renumbers uses visits _ _ hint parallel).andThen
      fun storage _ _ parallel => ?_
    refine (agree_count _ parallel).andThen fun _ _ _ parallel => ?_
    split
    · exact Agree.afterModify (agree_pure (parallel_insert renumbers need storage parallel))
    · exact agree_pure parallel

/-- Depths that are deep enough for a node and for its image do the same for both. -/
theorem mirrors_within (renumbers : tree.Renumbers other rename needed)
    (closed : tree.Closed needed) (formed : tree.Formed) (otherFormed : other.Formed) (depth : Nat) :
    ∀ otherDepth id, needed id → id < depth → rename id < otherDepth →
      (within tree depth).Mirrors rename needed (within other otherDepth) id := by
  induction depth with
  | zero => exact fun _ id _ deep => absurd deep (Nat.not_lt_zero id)
  | succ depth ih =>
    intro otherDepth id need deep otherDeep
    obtain ⟨otherDepth, rfl⟩ := Nat.exists_eq_add_one_of_ne_zero (Nat.ne_zero_of_lt otherDeep)
    refine mirrors_node renumbers closed need fun operand uses => ?_
    have otherUses : rename operand ∈ other.operandsOf (rename id) :=
      renumbers.operandsOf need ▸ List.mem_map_of_mem uses
    exact ih otherDepth operand (closed id need operand uses)
      (Nat.lt_of_lt_of_le (formed.operandsOf_lt uses) (Nat.le_of_lt_succ deep))
      (Nat.lt_of_lt_of_le (otherFormed.operandsOf_lt otherUses) (Nat.le_of_lt_succ otherDeep))

end Generation

end NativeExpr
