import NativeExpr.Proofs.Exhaustion.Staging

/-!
# Generation that fails for want of room only

A node whose operands can be generated can be generated itself: its operands have labels, its
parameter has a home, and what its instructions are asked for is in registers that they work on.
The recursion is as deep as the tree has nodes, which is deep enough because operands come first.
-/

namespace NativeExpr

/-- What generation relies on in a tree: the nodes that are needed exist, along with their
operands; arithmetic is on integers; and the function has the parameters that are named. -/
structure Tree.Generable (tree : Tree) (needed : NodeId → Prop) (parameters : Nat) : Prop where
  formed : tree.Formed
  found : ∀ id, needed id → ∃ node, tree.node? id = some node
  closed : tree.Closed needed
  integral : ∀ id node operation left right, needed id → tree.node? id = some node →
    node.operation = .arith operation left right → node.kind.bank = .generalPurpose
  declared : ∀ id node index, needed id → tree.node? id = some node →
    node.operation = .parameter index → index < parameters

/-- Whether a visit generates a node unless registers and slots run out. -/
def Visit.Yields (tree : Tree) (needed : NodeId → Prop) (parameters : Nat) (visit : Visit)
    (id : NodeId) : Prop :=
  ∀ (hint : Option Register) (work : Workspace) (held : List Storage),
    work.Ready tree needed parameters held →
      (visit id hint).Yields work fun result after =>
        result.Suits (tree.kindOf id) ∧ after.Ready tree needed parameters (result :: held)

theorem Storage.Suits.real {storage : Storage} {kind : Kind} (suits : storage.Suits kind) :
    ∀ register, storage.location = .register register → register.InBank :=
  fun register here => (suits.register register here).2

theorem Storage.Suits.share {storage : Storage} {kind : Kind} (suits : storage.Suits kind) :
    storage.share.Suits kind :=
  ⟨suits.kind, suits.register⟩

theorem Storage.suits_of_constant (bits : Word) (kind : Kind) :
    (Storage.own (.constant bits) kind).Suits kind :=
  ⟨rfl, by simp [Storage.own]⟩

theorem Workspace.Ready.add {tree : Tree} {needed : NodeId → Prop} {parameters : Nat}
    {work : Workspace} {held : List Storage} {storage : Storage}
    (ready : work.Ready tree needed parameters held) (shared : storage.isOwned = false) :
    work.Ready tree needed parameters (storage :: held) :=
  { ready with balanced := ready.balanced.add shared }

namespace Generation

open Build (Yields)

variable {tree : Tree} {needed : NodeId → Prop} {parameters : Nat} {visit : Visit}
variable {work : Workspace} {held : List Storage} {id : NodeId} {hint : Option Register}

section Arguments

variable (generable : tree.Generable needed parameters)

include generable

/-- The arguments of a call whose nodes exist can be staged. -/
theorem ofArguments_ok {arguments : List NodeId} (need : ∀ argument ∈ arguments, needed argument) :
    ∃ stage, Stage.ofArguments tree arguments = .ok stage := by
  have staged (stage : Stage) :
      ∃ later, arguments.foldlM (Stage.add tree) stage = .ok later := by
    induction arguments generalizing stage with
    | nil => exact ⟨stage, rfl⟩
    | cons argument rest ih =>
      obtain ⟨node, found⟩ := generable.found argument (need argument List.mem_cons_self)
      obtain ⟨later, further⟩ :=
        ih (fun other listed => need other (List.mem_cons_of_mem _ listed)) _
      refine ⟨later, ?_⟩
      rw [List.foldlM_cons, except_bind_eq_ok]
      refine ⟨_, ?_, further⟩
      simp only [Stage.add, Build.node_ok found]
      rfl
  exact staged .new

theorem demands_ok {arguments : List Staged} (need : ∀ argument ∈ arguments, needed argument.node)
    (ready : work.Ready tree needed parameters held) (start : Nat) :
    ∃ found, Stage.demands tree start arguments work = .ok found work := by
  induction arguments generalizing start with
  | nil => exact ⟨[], rfl⟩
  | cons argument rest ih =>
    have here := need argument List.mem_cons_self
    obtain ⟨node, found⟩ := generable.found argument.node here
    obtain ⟨count, labeled⟩ := Build.label_ok found (ready.labeled _ here)
    obtain ⟨others, further⟩ :=
      ih (fun other listed => need other (List.mem_cons_of_mem _ listed)) (start + 1)
    refine ⟨⟨start, count, argument⟩ :: others, ?_⟩
    simp only [Stage.demands, estate_bind_eq_ok]
    exact ⟨count, work, labeled, others, work, further, rfl⟩

omit generable in
/-- Arguments are held until all of them are evaluated. -/
theorem yields_evaluateInOrder {demands : List Stage.Demand}
    (visits : ∀ demand ∈ demands, visit.Yields tree needed parameters demand.argument.node)
    (ready : work.Ready tree needed parameters held) :
    (Stage.evaluateInOrder tree visit demands).Yields work fun found after =>
      ∃ evaluated : List (Stage.Demand × Storage), evaluated.map Prod.fst = demands ∧
        found = evaluated.map (fun each => (each.1.position, each.2)) ∧
        (∀ each ∈ evaluated, ∃ kind, each.2.Suits kind) ∧
        after.Ready tree needed parameters (evaluated.map Prod.snd ++ held) := by
  induction demands generalizing work held with
  | nil => exact Build.yields_pure ⟨[], rfl, rfl, by simp, ready⟩
  | cons demand rest ih =>
    have first := visits demand List.mem_cons_self demand.argument.place.register? work held ready
    simp only [Stage.evaluateInOrder]
    refine first.bindBoth fun value visited suits ready => ?_
    have goesOn (settled : Storage) (parked : Workspace)
        (settles : settled.Suits (tree.kindOf demand.argument.node) ∧
          parked.Ready tree needed parameters (settled :: held)) :
        Yields (do
          return (demand.position, settled) :: (← Stage.evaluateInOrder tree visit rest)) parked
          fun found after => ∃ evaluated : List (Stage.Demand × Storage),
            evaluated.map Prod.fst = demand :: rest ∧
            found = evaluated.map (fun each => (each.1.position, each.2)) ∧
            (∀ each ∈ evaluated, ∃ kind, each.2.Suits kind) ∧
            after.Ready tree needed parameters (evaluated.map Prod.snd ++ held) := by
      obtain ⟨suits, ready⟩ := settles
      have others := ih (fun other listed => visits other (List.mem_cons_of_mem _ listed)) ready
      refine others.bind fun _ after _ outcome => ?_
      obtain ⟨evaluated, ordered, pairs, suit, ready⟩ := outcome
      refine Build.yields_pure ⟨(demand, settled) :: evaluated, ?_, ?_, ?_, ?_⟩
      · rw [List.map_cons, ordered]
      · rw [pairs]
        rfl
      · intro each listed
        rcases List.mem_cons.mp listed with rfl | listed
        · exact ⟨_, suits⟩
        · exact suit each listed
      · exact ready.perm List.perm_middle
    cases rest with
    | nil => exact goesOn value visited ⟨suits, ready⟩
    | cons next later =>
      exact (Build.yields_parkUnderPressure ready suits _ _).bind fun settled parked _ =>
        goesOn settled parked

/-- The values of arguments are held until the call. -/
theorem yields_evaluate {stage : Stage}
    (need : ∀ argument ∈ stage.arguments, needed argument.node)
    (visits : ∀ argument ∈ stage.arguments, visit.Yields tree needed parameters argument.node)
    (ready : work.Ready tree needed parameters held) :
    (stage.evaluate tree visit).Yields work fun values after =>
      (∀ value ∈ values, ∃ kind, value.Suits kind) ∧
        after.Ready tree needed parameters (values ++ held) := by
  have inOrder {ordered : List Stage.Demand}
      (among : ∀ demand ∈ ordered, demand.argument.node ∈ stage.arguments.map Staged.node) :=
    yields_evaluateInOrder (fun demand member => by
      obtain ⟨argument, listed, same⟩ := List.mem_map.mp (among demand member)
      exact same ▸ visits argument listed) ready
  obtain ⟨listed, asked⟩ := demands_ok generable need ready 0
  obtain ⟨_, arguments, _⟩ := Stage.of_demands asked
  have among : ∀ demand ∈ Stage.heaviestFirst listed,
      demand.argument.node ∈ stage.arguments.map Staged.node := by
    intro demand member
    rw [← arguments, List.map_map]
    exact List.mem_map_of_mem (f := Staged.node ∘ Stage.Demand.argument)
      ((Stage.perm_heaviestFirst listed).mem_iff.mp member)
  have outcome : (stage.evaluate tree visit).Yields work fun _ _ => True :=
    Yields.after asked ((inOrder among).bind fun _ _ _ _ => Build.yields_pure trivial)
  refine outcome.mono fun values after done _ => ?_
  obtain ⟨ordered, found, nodes, evaluating, settle⟩ := Stage.of_evaluate done
  have evaluates := inOrder fun demand member => Stage.node_mem_of_ordered nodes member
  rw [Yields, evaluating] at evaluates
  obtain ⟨evaluated, demands, pairs, suit, ready⟩ := evaluates
  obtain ⟨settled, reordered, _, rfl⟩ := settle evaluated demands pairs
  refine ⟨fun value member => ?_, ready.perm ((reordered.map _).symm.append_right held)⟩
  obtain ⟨each, listed, rfl⟩ := List.mem_map.mp member
  exact suit each (reordered.mem_iff.mp listed)

end Arguments

/-- The operand that is evaluated first is held while the other one is evaluated. -/
theorem yields_operands {left right : NodeId} {leftLabel rightLabel : Nat}
    (leftLabeled : Build.label tree left work = .ok leftLabel work)
    (rightLabeled : Build.label tree right work = .ok rightLabel work)
    (leftVisits : visit.Yields tree needed parameters left)
    (rightVisits : visit.Yields tree needed parameters right)
    (ready : work.Ready tree needed parameters held) :
    (operands tree visit left right hint).Yields work fun values after =>
      values.1.Suits (tree.kindOf left) ∧ values.2.Suits (tree.kindOf right) ∧
        after.Ready tree needed parameters (values.1 :: values.2 :: held) := by
  simp only [operands]
  refine Yields.after leftLabeled (Yields.after rightLabeled ?_)
  split
  · refine (rightVisits none work held ready).bindBoth fun second _ suits ready => ?_
    refine (Build.yields_parkUnderPressure ready suits _ _).bindBoth
      fun second _ rightSuits ready => ?_
    exact (leftVisits hint _ _ ready).bindBoth fun first _ leftSuits ready =>
      Build.yields_pure ⟨leftSuits, rightSuits, ready⟩
  · refine (leftVisits hint work held ready).bindBoth fun first _ suits ready => ?_
    refine (Build.yields_parkUnderPressure ready suits _ _).bindBoth
      fun first _ leftSuits ready => ?_
    exact (rightVisits none _ _ ready).bindBoth fun second _ rightSuits ready =>
      Build.yields_pure ⟨leftSuits, rightSuits, ready.perm (.swap ..)⟩

/-- Arithmetic on a general-purpose register takes any value of its bank. -/
theorem granted_applyOperand {target : Register} (general : target.bank = .generalPurpose)
    (real : target.InBank) {operand : Location}
    (source : ∀ register, operand = .register register →
      register.bank = .generalPurpose ∧ register.InBank) (operation : Arithmetic) :
    ∀ request ∈ applyOperand operation target operand, request.Granted := by
  cases operand with
  | register register =>
    obtain ⟨sourceGeneral, sourceReal⟩ := source register rfl
    simpa [applyOperand] using
      Request.granted_arith general real sourceGeneral sourceReal operation
  | slot offset =>
    have base : Register.InBank .rbp := by decide
    simpa [applyOperand] using (Request.granted_memory general real rfl base offset).1 operation
  | constant bits =>
    have scratch := MoveSchedule.scratch_inBank .generalPurpose
    simp only [applyOperand]
    split
    · simpa using (Request.granted_general general real).2.2.2 operation (bits.setWidth 32)
    · simpa using ⟨Request.granted_constant rfl scratch bits,
        Request.granted_arith general real rfl scratch operation⟩

/-- Arithmetic on integers finds a register for its result, or there is none. -/
theorem yields_arith {kind : Kind} {operation : Arithmetic} {left right : NodeId}
    {leftLabel rightLabel : Nat}
    (leftLabeled : Build.label tree left work = .ok leftLabel work)
    (rightLabeled : Build.label tree right work = .ok rightLabel work)
    (leftVisits : visit.Yields tree needed parameters left)
    (rightVisits : visit.Yields tree needed parameters right)
    (leftKind : tree.kindOf left = kind) (rightKind : tree.kindOf right = kind)
    (integral : kind.bank = .generalPurpose) (ready : work.Ready tree needed parameters held) :
    (arith tree visit id kind operation left right hint).Yields work fun result after =>
      result.Suits kind ∧ after.Ready tree needed parameters (result :: held) := by
  simp only [arith]
  refine (yields_operands leftLabeled rightLabeled leftVisits rightVisits ready).bindBoth
    fun values _ firstSuits others => ?_
  obtain ⟨first, second⟩ := values
  obtain ⟨secondSuits, ready⟩ := others
  rw [leftKind] at firstSuits
  rw [rightKind] at secondSuits
  refine (Build.yields_materialize ready firstSuits id hint _).bindBoth
    fun target _ suits ready => ?_
  obtain ⟨own, real⟩ := suits.register target rfl
  have granted := granted_applyOperand (own.trans integral) real
    (fun register (here : second.location = _) => integral ▸ secondSuits.register register here)
    operation
  refine (Build.yields_write ready granted).bind fun _ _ _ ready => ?_
  refine (Build.yields_release (ready.perm (.swap ..))).bind fun _ _ _ ready => ?_
  exact Build.yields_pure ⟨suits, ready⟩

/-- A parameter that the function has is in its home. -/
theorem yields_parameter {index : Nat} (declared : index < parameters) (kind : Kind)
    (ready : work.Ready tree needed parameters held) :
    (parameter tree index kind).Yields work fun result after =>
      result.Suits kind ∧ after.Ready tree needed parameters (result :: held) := by
  obtain ⟨routine, begun, count⟩ := ready.begun
  obtain ⟨home, found⟩ : ∃ home, routine.frame.home? index = some home := by
    rw [← count] at declared
    exact ⟨_, List.getElem?_eq_getElem declared⟩
  have done : Build.onRoutine tree (Routine.home? index) work = .ok (some home)
      { work with routine := some routine } :=
    (Build.onRoutine_eq_ok begun).mpr ⟨routine, Routine.home_eq_ok.mpr ⟨found.symm, rfl⟩, rfl⟩
  have same : ({ work with routine := some routine } : Workspace) = work := by rw [← begun]
  rw [same] at done
  simp only [parameter]
  refine Yields.after done (Build.yields_pure ⟨Storage.suits_of_slot rfl rfl, ready.add rfl⟩)

/-- A call whose arguments can be generated finds room for its result, or there is none. -/
theorem yields_emitCall (generable : tree.Generable needed parameters) {stage : Stage}
    {arguments : List NodeId} {function : NodeId} (of : stage.Of tree arguments)
    (need : ∀ operand ∈ function :: arguments, needed operand)
    (visits : ∀ operand ∈ function :: arguments, visit.Yields tree needed parameters operand)
    (kind : Kind) (ready : work.Ready tree needed parameters held) :
    (stage.emitCall tree visit function id kind hint).Yields work fun result after =>
      result.Suits kind ∧ after.Ready tree needed parameters (result :: held) := by
  have among {argument : Staged} (member : argument ∈ stage.arguments) :
      argument.node ∈ function :: arguments :=
    List.mem_cons_of_mem _ (of.nodes ▸ List.mem_map_of_mem member)
  have live (set : RegisterSet) : ∀ register ∈ set.toList, register.InBank :=
    fun register listed => RegisterPool.inBank_of_contains (RegisterSet.mem_toList.mp listed)
  simp only [Stage.emitCall]
  refine Yields.after (Stage.liveCallerSaved_ok work) ?_
  refine (Stage.yields_save (live _) ready).bind fun _ _ _ ready => ?_
  refine (yields_evaluate generable (fun argument member => need _ (among member))
    (fun argument member => visits _ (among member)) ready).bindBoth fun values _ suit ready => ?_
  refine (visits function List.mem_cons_self _ _ _ ready).bindBoth fun target _ suits ready => ?_
  have gathers : (target :: (values ++ held)).Perm (values ++ [target] ++ held) := by
    rw [List.append_assoc]
    exact List.perm_middle.symm
  have gathered := ready.perm gathers
  refine (Stage.yields_releaseAll gathered).bind fun _ released _ ready => ?_
  refine Yields.after (Stage.liveCallerSaved_ok released) ?_
  refine (Stage.yields_save (live _) ready).bind fun _ _ _ ready => ?_
  refine (Stage.yields_callThrough ready (of.target_real values target)
    (Stage.source_real suit suits)).bind fun _ _ _ ready => ?_
  refine (Stage.yields_capture ready id kind hint).bindBoth fun result _ suits ready => ?_
  have saved : ∀ register ∈ ((Stage.exposed work).toList ++
      ((Stage.exposed released).diff (.ofList (Stage.exposed work).toList)).toList).reverse,
      register.InBank := by
    intro register listed
    rcases List.mem_append.mp (List.mem_reverse.mp listed) with listed | listed
    · exact live _ register listed
    · exact live _ register listed
  refine (Stage.yields_restore saved ready).bind fun _ _ _ ready => ?_
  refine (Build.yields_count ready _).bind fun _ _ _ ready => ?_
  exact Build.yields_pure ⟨suits, ready⟩

/-- A node whose operands can be generated can be generated. -/
theorem yields_operation (generable : tree.Generable needed parameters) {node : Node}
    (need : needed id) (found : tree.node? id = some node)
    (visits : ∀ operand ∈ node.operation.operands, visit.Yields tree needed parameters operand)
    (ready : work.Ready tree needed parameters held) :
    (operation tree visit id node.kind hint node.operation).Yields work fun result after =>
      result.Suits node.kind ∧ after.Ready tree needed parameters (result :: held) := by
  have uses : ∀ operand ∈ node.operation.operands, needed operand := by
    rw [← Tree.operandsOf_of_node found]
    exact generable.closed id need
  cases here : node.operation with
  | constant bits =>
    exact Build.yields_pure ⟨Storage.suits_of_constant bits node.kind, ready.add rfl⟩
  | parameter index =>
    exact yields_parameter (generable.declared id node index need found here) _ ready
  | arith operation left right =>
    rw [here] at uses visits
    have leftListed : left ∈ (Operation.arith operation left right).operands := List.mem_cons_self
    have rightListed : right ∈ (Operation.arith operation left right).operands :=
      List.mem_cons_of_mem _ List.mem_cons_self
    obtain ⟨_, leftFound⟩ := generable.found left (uses left leftListed)
    obtain ⟨_, rightFound⟩ := generable.found right (uses right rightListed)
    obtain ⟨_, leftLabeled⟩ := Build.label_ok leftFound (ready.labeled left (uses left leftListed))
    obtain ⟨_, rightLabeled⟩ :=
      Build.label_ok rightFound (ready.labeled right (uses right rightListed))
    obtain ⟨leftKind, rightKind⟩ := generable.formed.arith id node operation left right found here
    exact yields_arith leftLabeled rightLabeled (visits left leftListed) (visits right rightListed)
      leftKind rightKind (generable.integral id node operation left right need found here) ready
  | call function arguments =>
    rw [here] at uses visits
    obtain ⟨stage, staged⟩ := ofArguments_ok generable fun argument listed =>
      uses argument (List.mem_cons_of_mem _ listed)
    refine Yields.after (Build.lift_ok staged) ?_
    exact yields_emitCall generable (Stage.of_ofArguments staged) uses visits node.kind ready

/-- A node is generated, or its kept value is handed out, unless registers and slots run out. -/
theorem yields_node (generable : tree.Generable needed parameters) (exchanges : visit.Exchanges tree)
    (need : needed id)
    (visits : ∀ operand ∈ tree.operandsOf id, visit.Yields tree needed parameters operand) :
    (Generation.node tree visit).Yields tree needed parameters id := by
  intro hint work held ready
  obtain ⟨node, found⟩ := generable.found id need
  have kind := Tree.kindOf_of_node found
  obtain ⟨count, labeled⟩ := Build.label_ok found (ready.labeled id need)
  suffices outcome : (Generation.node tree visit id hint).Yields work fun result after =>
      result.Suits (tree.kindOf id) ∧ ∀ (other : NodeId) storage,
        after.caches[other]? = some storage → storage.Suits (tree.kindOf other) from
    outcome.mono fun result after done here => ⟨here.1, Workspace.Ready.exchange [] [_] ready
      (exchanges_of_node generable.formed.layered exchanges id hint work result after done) here.2⟩
  simp only [Generation.node]
  refine Yields.after (Build.lift_ok (Build.node_ok found)) (Yields.after labeled ?_)
  refine Yields.afterGet ?_
  split
  · rename_i cached here
    have suits := ready.kept id cached here
    exact (Build.yields_count ready _).bind fun _ _ _ ready =>
      Build.yields_pure ⟨suits.share, ready.kept⟩
  · rw [Tree.operandsOf_of_node found] at visits
    refine (yields_operation generable need found visits ready).bindBoth
      fun storage _ suits ready => ?_
    refine (Build.yields_count ready _).bind fun _ _ _ ready => ?_
    split
    · refine Yields.afterModify (Build.yields_pure ⟨kind ▸ suits.share, ?_⟩)
      intro other kept cached
      rcases Workspace.kept_insert.mp cached with ⟨rfl, rfl⟩ | ⟨_, cached⟩
      · exact kind ▸ suits
      · exact ready.kept other kept cached
    · exact Build.yields_pure ⟨kind ▸ suits, ready.kept⟩

/-- Every node that is needed is generated unless registers and slots run out. -/
theorem yields_within (generable : tree.Generable needed parameters) (depth : Nat) :
    ∀ id, needed id → id < depth → (within tree depth).Yields tree needed parameters id := by
  induction depth with
  | zero => exact fun id _ deep => absurd deep (Nat.not_lt_zero id)
  | succ depth ih =>
    intro id need deep
    refine yields_node generable (exchanges_within generable.formed.layered depth) need
      fun operand uses => ih operand (generable.closed id need operand uses) ?_
    exact Nat.lt_of_lt_of_le (generable.formed.operandsOf_lt uses) (Nat.le_of_lt_succ deep)

end Generation

end NativeExpr
