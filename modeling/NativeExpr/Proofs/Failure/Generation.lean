import NativeExpr.Proofs.Construction
import NativeExpr.Proofs.Failure.Placement

/-!
# What generation leaves behind when it fails

Where the generation of a node fails, so does that of the nodes above it, up to the one that was
asked for. Each of them may have evaluated operands beside the one that failed, and their values stay
where they are: nobody gives them back. Nothing else is left but the values that are kept of shared
nodes that were done before.
-/

namespace NativeExpr

/-- Whether the values of some nodes may be waiting while a node is generated of which the operands
at the given positions have been begun. Values wait for the node itself, or for one of its operands
that is being generated, each at a position of its own; the node's own result may be there already. -/
inductive Tree.Waits (tree : Tree) : NodeId → List NodeId → List NodeId → Prop where
  | here {id : NodeId} {positions waiting : List NodeId}
      (among : waiting.Subperm (id :: positions)) : tree.Waits id positions waiting
  | deeper {id operand : NodeId} {positions beside rest : List NodeId}
      (among : (operand :: beside).Subperm positions)
      (waits : tree.Waits operand (tree.operandsOf operand) rest) :
      tree.Waits id positions (beside ++ rest)

/-- Whether storages may have been left behind where the generation of a node failed. -/
def Tree.Leaves (tree : Tree) (id : NodeId) (positions : List NodeId) (remains : List Storage) :
    Prop :=
  ∃ waiting : List (NodeId × Storage),
    tree.Waits id positions (waiting.map Prod.fst) ∧ remains.Perm (waiting.map Prod.snd)

namespace Tree

variable {tree : Tree} {id operand : NodeId} {positions others waiting : List NodeId}
variable {remains : List Storage}

theorem Waits.mono (waits : tree.Waits id positions waiting) (more : positions.Subperm others) :
    tree.Waits id others waiting := by
  cases waits with
  | here among => exact .here (among.trans ((List.subperm_cons id).mpr more))
  | deeper among waits => exact .deeper (among.trans more) waits

/-- A value that has been evaluated at a position of its own waits with the others. -/
theorem Waits.beside (waits : tree.Waits id positions waiting) (node : NodeId) :
    tree.Waits id (node :: positions) (node :: waiting) := by
  cases waits with
  | here among =>
    exact .here (((List.subperm_cons node).mpr among).trans (List.Perm.swap ..).subperm)
  | @deeper _ operand _ beside rest among waits =>
    have also : (operand :: node :: beside).Subperm (node :: positions) :=
      (List.Perm.swap ..).subperm.trans ((List.subperm_cons node).mpr among)
    exact .deeper also waits

namespace Leaves

theorem of_nil (none : remains = []) : tree.Leaves id positions remains :=
  ⟨[], .here List.nil_subperm, none ▸ .refl _⟩

/-- Values of the node and of its operands, each at a position of its own. -/
theorem of_here (waiting : List (NodeId × Storage))
    (among : (waiting.map Prod.fst).Subperm (id :: positions)) :
    tree.Leaves id positions (waiting.map Prod.snd) :=
  ⟨waiting, .here among, .refl _⟩

theorem mono (leaves : tree.Leaves id positions remains) (more : positions.Subperm others) :
    tree.Leaves id others remains := by
  obtain ⟨waiting, waits, same⟩ := leaves
  exact ⟨waiting, waits.mono more, same⟩

/-- Where an operand fails nothing more is left behind. -/
theorem deeper (leaves : tree.Leaves operand (tree.operandsOf operand) remains)
    (listed : operand ∈ positions) : tree.Leaves id positions remains := by
  obtain ⟨waiting, waits, same⟩ := leaves
  exact ⟨waiting, .deeper (List.singleton_subperm_iff.mpr listed) waits, same⟩

/-- A value that is held stays behind as well. -/
theorem beside (leaves : tree.Leaves id positions remains) (node : NodeId) (storage : Storage) :
    tree.Leaves id (node :: positions) (storage :: remains) := by
  obtain ⟨waiting, waits, same⟩ := leaves
  exact ⟨(node, storage) :: waiting, waits.beside node, same.cons storage⟩

/-- Values that are held stay behind as well. -/
theorem besides (leaves : tree.Leaves id positions remains) (held : List (NodeId × Storage)) :
    tree.Leaves id (held.map Prod.fst ++ positions) (held.map Prod.snd ++ remains) := by
  induction held with
  | nil => exact leaves
  | cons entry rest ih => exact ih.beside entry.1 entry.2

end Leaves

end Tree

namespace Stage

open Build (Trades trades_pure trades_throw trades_step trades_release trades_tryRegister
  trades_allocateSlot trades_label)

variable {tree : Tree} (asked : List NodeId) {work : Workspace}

/-- Steps that leave the frame alone, one after the other. -/
theorem trades_forM {step : Register → Routine.Step Unit}
    (stable : ∀ register, (step register).Stable) (registers : List Register) :
    Trades tree asked (registers.forM fun register => Build.onRoutine tree (step register)) work []
      (fun _ => []) (· = []) := by
  induction registers generalizing work with
  | nil => exact trades_pure (.refl _)
  | cons register rest ih => exact (trades_step asked (stable register)).bind fun _ _ _ => ih

theorem trades_save (registers : List Register) :
    Trades tree asked (save tree registers) work [] (fun _ => []) (· = []) := by
  rw [save_eq_forM]
  exact trades_forM asked Routine.stable_save registers

theorem trades_restore (registers : List Register) :
    Trades tree asked (restore tree registers) work [] (fun _ => []) (· = []) := by
  rw [restore_eq_forM]
  exact trades_forM asked Routine.stable_restore registers

/-- Storages that are not given back because one of them cannot be stay behind with it. -/
theorem trades_releaseAll (storages : List Storage) :
    Trades tree asked (releaseAll tree storages) work storages (fun _ => [])
      (·.Sublist storages) := by
  induction storages generalizing work with
  | nil => exact trades_pure (.refl _)
  | cons storage rest ih =>
    refine ((trades_release asked).among rest (.refl _) (fun _ => .refl _) ?_).bind fun _ _ _ =>
      ih.mono fun _ fewer => fewer.cons storage
    rintro _ rfl
    exact ⟨_, .refl _, .refl _⟩

theorem trades_callThrough (stage : Stage) (moves : List Move) :
    Trades tree asked (stage.callThrough tree moves) work [] (fun _ => []) (· = []) :=
  trades_step asked (Routine.stable_of_evolves (Routine.evolution_frame.callThrough stage moves))

/-- A result that is not captured leaves at most the location behind that was found for it. -/
theorem trades_capture (call : NodeId) (kind : Kind) (hint : Option Register) :
    Trades tree asked (capture tree call kind hint) work [] (fun result => [result])
      fun remains => remains = [] ∨ ∃ result, remains = [result] := by
  simp only [capture]
  refine Trades.afterGet ?_
  refine ((trades_tryRegister asked kind.bank (some call) _ kind).surely [] (.refl _) fun _ =>
    .of_eq (List.append_nil _)).bind fun found _ _ => ?_
  have fills (storage : Storage) {step : Routine.Step Unit} (stable : step.Stable)
      (work : Workspace) :
      Trades tree asked (do Build.onRoutine tree step; return storage) work [storage]
        (fun result => [result]) fun remains => remains = [] ∨ ∃ result, remains = [result] := by
    refine ((trades_step asked stable).among [storage] (.refl _) (fun _ => .refl _) ?_).bind
      fun _ _ _ => trades_pure (.refl _)
    rintro _ rfl
    exact ⟨[storage], .inr ⟨storage, rfl⟩, .refl _⟩
  cases found with
  | some register => exact fills _ (Routine.stable_write _) _
  | none =>
    refine ((trades_allocateSlot asked kind).mono fun _ => .inl).bind fun slot _ _ => ?_
    cases slot with
    | some offset => exact fills _ (Routine.stable_write _) _
    | none => exact trades_throw (.inl rfl)

/-- Asking for labels leaves nothing behind. -/
theorem trades_demands (start : Nat) (arguments : List Staged) :
    Trades tree asked (demands tree start arguments) work [] (fun _ => []) (· = []) := by
  induction arguments generalizing start work with
  | nil => exact trades_pure (.refl _)
  | cons argument rest ih =>
    exact (trades_label asked argument.node).bind fun _ _ _ =>
      (ih (start + 1)).bind fun _ _ _ => trades_pure (.refl _)

end Stage

/-- Whether a visit hands out the value of the node that it is asked for or, if it fails, leaves
behind what was waiting. -/
def Visit.Trades (tree : Tree) (visit : Visit) : Prop :=
  ∀ (id : NodeId) (hint : Option Register) (work : Workspace),
    Build.Trades tree [id] (visit id hint) work [] (fun result => [result])
      (tree.Leaves id (tree.operandsOf id))

namespace Generation

open Build (Trades trades_pure trades_throw trades_step trades_release trades_label)

variable {tree : Tree} {visit : Visit} {asked positions : List NodeId} {work : Workspace}
variable {id operand : NodeId} {hint : Option Register} {kind : Kind}

/-- An operand is generated for a node. -/
theorem trades_of_visit (visits : visit.Trades tree) (member : operand ∈ asked)
    (listed : operand ∈ positions) :
    Trades tree asked (visit operand hint) work [] (fun result => [result])
      (tree.Leaves id positions) := by
  refine ((visits operand hint work).needs fun other same => ?_).mono fun _ leaves =>
    leaves.deeper listed
  exact ⟨operand, member, List.mem_singleton.mp same ▸ .refl⟩

/-- A value that was to be parked is left behind. -/
theorem trades_of_settle {step : Build Storage} {value : Storage} (listed : operand ∈ positions)
    (settles : Trades tree asked step work [value] (fun settled => [settled]) (· = [value])) :
    Trades tree asked step work [value] (fun settled => [settled]) (tree.Leaves id positions) := by
  refine settles.mono ?_
  rintro _ rfl
  exact .of_here [(operand, value)] ((List.singleton_subperm_iff.mpr listed).trans
    (List.sublist_cons_self id positions).subperm)

/-- Arguments that have been evaluated wait for those that have not. -/
theorem trades_evaluateInOrder (visits : visit.Trades tree) (id : NodeId)
    (demands : List Stage.Demand) (listed : ∀ demand ∈ demands, demand.argument.node ∈ asked) :
    Trades tree asked (Stage.evaluateInOrder tree visit demands) work []
      (fun found => found.map Prod.snd)
      (tree.Leaves id (demands.map fun demand => demand.argument.node)) := by
  induction demands generalizing work with
  | nil => exact trades_pure (.refl _)
  | cons demand rest ih =>
    have first : demand.argument.node ∈
        (demand :: rest).map fun demand => demand.argument.node := List.mem_cons_self
    have goesOn (settled : Storage) (parked : Workspace) :
        Trades tree asked (do
          return (demand.position, settled) :: (← Stage.evaluateInOrder tree visit rest)) parked
          [settled] (fun found => found.map Prod.snd)
          (tree.Leaves id ((demand :: rest).map fun demand => demand.argument.node)) := by
      refine ((ih fun other member => listed other (List.mem_cons_of_mem _ member)).among [settled]
        (.refl _) (fun _ => List.perm_append_comm) ?_).bind fun _ _ _ => trades_pure (.refl _)
      intro remains leaves
      exact ⟨_, leaves.beside demand.argument.node settled, List.perm_append_comm⟩
    refine (trades_of_visit visits (listed demand List.mem_cons_self) first).bind
      fun value visited _ => ?_
    cases rest with
    | nil => exact goesOn value visited
    | cons next later =>
      exact (trades_of_settle first (Build.trades_parkUnderPressure asked _ _)).bind
        fun settled parked _ => goesOn settled parked

theorem trades_evaluate (visits : visit.Trades tree) (id : NodeId) {stage : Stage}
    (listed : ∀ argument ∈ stage.arguments, argument.node ∈ asked) :
    Trades tree asked (stage.evaluate tree visit) work [] (fun values => values)
      (tree.Leaves id (stage.arguments.map Staged.node)) := by
  simp only [Stage.evaluate]
  refine ((Stage.trades_demands asked 0 stage.arguments).mono fun _ => .of_nil).bind
    fun demands _ done => ?_
  obtain ⟨rfl, arguments, positions, _⟩ := Stage.of_demands done
  have reordered := Stage.perm_heaviestFirst demands
  have nodes : demands.map (fun demand => demand.argument.node) =
      stage.arguments.map Staged.node := by
    rw [← arguments, List.map_map]
    rfl
  have among : ∀ demand ∈ Stage.heaviestFirst demands, demand.argument.node ∈ asked := by
    intro demand member
    refine listed _ ?_
    rw [← arguments]
    exact List.mem_map_of_mem (reordered.mem_iff.mp member)
  refine ((trades_evaluateInOrder visits id _ among).mono fun remains leaves => ?_).bind
    fun found _ evaluated => trades_pure ?_
  · exact leaves.mono (nodes ▸ (reordered.map _).subperm)
  · obtain ⟨evaluated, same, rfl⟩ := Stage.exists_evaluated evaluated
    have count : stage.arguments.length = demands.length := by rw [← arguments, List.length_map]
    rw [count, ← List.range_eq_range'] at positions
    obtain ⟨settled, reordered, _, values⟩ := Stage.settle positions same
    rw [count, values, List.map_map]
    exact (reordered.map Prod.snd).symm

/-- The operand that is evaluated first waits for the other one. -/
theorem trades_operands (visits : visit.Trades tree) (id left right : NodeId) :
    Trades tree [left, right] (operands tree visit left right hint) work []
      (fun values => [values.1, values.2]) (tree.Leaves id [left, right]) := by
  have inOrder {earlier later : NodeId} (order : [earlier, later].Perm [left, right])
      (hint hint' : Option Register) (needed : Nat) (work : Workspace)
      (pair : Storage → Storage → Storage × Storage)
      (both : ∀ value last, [last, value].Perm [(pair value last).1, (pair value last).2]) :
      Trades tree [left, right] (do
        let value ← visit earlier hint
        let value ← Build.parkUnderPressure tree value needed .generalPurpose
        let last ← visit later hint'
        return pair value last) work [] (fun values => [values.1, values.2])
        (tree.Leaves id [left, right]) := by
    have earlierListed : earlier ∈ [left, right] := order.mem_iff.mp List.mem_cons_self
    have laterListed : later ∈ [left, right] :=
      order.mem_iff.mp (List.mem_cons_of_mem _ List.mem_cons_self)
    refine (trades_of_visit visits earlierListed earlierListed).bind fun value _ _ => ?_
    refine (trades_of_settle earlierListed (Build.trades_parkUnderPressure _ needed _)).bind
      fun settled parked _ => ?_
    have visiting : Trades tree [left, right] (visit later hint') parked []
        (fun result => [result]) (tree.Leaves id [later]) :=
      trades_of_visit visits laterListed List.mem_cons_self
    refine (visiting.among [settled] (.refl _) (fun _ => .refl _) fun remains leaves => ?_).bind
      fun last _ _ => trades_pure (both settled last)
    exact ⟨_, (leaves.beside earlier settled).mono order.subperm, List.perm_append_comm⟩
  simp only [operands]
  refine ((trades_label [left, right] left).mono fun _ => .of_nil).bind fun leftLabel _ _ => ?_
  refine ((trades_label [left, right] right).mono fun _ => .of_nil).bind fun rightLabel _ _ => ?_
  split
  · exact inOrder (.swap ..) none hint leftLabel _ (fun second first => (first, second))
      fun _ _ => .refl _
  · exact inOrder (.refl _) hint none rightLabel _ (fun first second => (first, second))
      fun _ _ => .swap ..

/-- Of arithmetic that fails at last the operands are left behind, or the target instead of the
first one. -/
theorem trades_arith (visits : visit.Trades tree) (id left right : NodeId) (kind : Kind)
    (operation : Arithmetic) :
    Trades tree [left, right] (arith tree visit id kind operation left right hint) work []
      (fun result => [result]) (tree.Leaves id [left, right]) := by
  simp only [arith]
  refine (trades_operands visits id left right).bind fun values _ _ => ?_
  obtain ⟨first, second⟩ := values
  have waiting : [left, right].Subperm (id :: [left, right]) := (List.sublist_cons_self ..).subperm
  refine ((Build.trades_materialize [left, right] id hint _ kind).among [second] (.refl _)
    (fun _ => .refl _) ?_).bind fun target _ _ => ?_
  · rintro _ (rfl | ⟨target, rfl⟩)
    · exact ⟨_, .of_here [(left, first), (right, second)] waiting, .refl _⟩
    · exact ⟨_, .of_here [(id, target), (left, first), (right, second)] (.refl _), .refl _⟩
  have combined : tree.Leaves id [left, right] [.own (.register target) kind, second] :=
    .of_here [(id, .own (.register target) kind), (right, second)]
      ((List.sublist_cons_self left [right]).cons_cons id).subperm
  refine ((trades_step [left, right] (Routine.stable_write _)).among
    [.own (.register target) kind, second] (.refl _) (fun _ => .refl _) ?_).bind fun _ _ _ => ?_
  · rintro _ rfl
    exact ⟨_, combined, .refl _⟩
  · refine ((trades_release [left, right]).among [.own (.register target) kind] (.swap ..)
      (fun _ => .refl _) ?_).bind fun _ _ _ => trades_pure (.refl _)
    rintro _ rfl
    exact ⟨_, combined, .swap ..⟩

/-- A value that nobody has to give back. -/
theorem trades_shared {storage : Storage} {left : List Storage → Prop}
    (shared : storage.isOwned = false) :
    Trades tree asked (pure storage) work [] (fun result => [result]) left :=
  fun _ account => .of_caches rfl (account.add shared)

theorem trades_parameter (id : NodeId) (index : Nat) (kind : Kind) :
    Trades tree [] (parameter tree index kind) work [] (fun result => [result])
      (tree.Leaves id []) := by
  simp only [parameter]
  refine ((trades_step [] (Routine.stable_home index)).mono fun _ => .of_nil).bind
    fun home _ _ => ?_
  cases home with
  | some home => exact trades_shared rfl
  | none => exact trades_throw (.of_nil rfl)

/-- Of a call that fails its arguments are left behind until they have been given back, and then at
most its result. -/
theorem trades_emitCall (visits : visit.Trades tree) (call function : NodeId) (kind : Kind)
    {stage : Stage} {arguments : List NodeId} (of : stage.Of tree arguments) :
    Trades tree (function :: arguments) (stage.emitCall tree visit function call kind hint) work []
      (fun result => [result]) (tree.Leaves call (function :: arguments)) := by
  have positions : arguments.Subperm (function :: arguments) := (List.sublist_cons_self ..).subperm
  have result (storage : Storage) : tree.Leaves call (function :: arguments) [storage] :=
    .of_here [(call, storage)] (List.singleton_subperm_iff.mpr List.mem_cons_self)
  simp only [Stage.emitCall, Stage.liveCallerSaved]
  refine Trades.afterGet (((Stage.trades_save _ _).mono fun _ => .of_nil).bind fun _ _ _ => ?_)
  have listed : ∀ argument ∈ stage.arguments, argument.node ∈ function :: arguments := by
    intro argument member
    exact List.mem_cons_of_mem _ (of.nodes ▸ List.mem_map_of_mem member)
  refine ((trades_evaluate visits call listed).mono fun _ leaves =>
    (of.nodes ▸ leaves).mono positions).bind fun values evaluated evaluation => ?_
  obtain ⟨held, nodes, rfl⟩ : ∃ held : List (NodeId × Storage),
      held.map Prod.fst = arguments ∧ held.map Prod.snd = values := by
    obtain ⟨settled, same, rfl⟩ := Stage.exists_settled evaluation
    refine ⟨settled.map fun each => (each.1.node, each.2), ?_, ?_⟩
    · rw [← of.nodes, ← same, List.map_map, List.map_map]
      rfl
    · rw [List.map_map]
      rfl
  have visiting : Trades tree (function :: arguments) (visit function (some Convention.callTarget))
      evaluated [] (fun target => [target]) (tree.Leaves call [function]) :=
    trades_of_visit visits List.mem_cons_self List.mem_cons_self
  refine (visiting.among (held.map Prod.snd) (.refl _) (fun _ => List.perm_append_comm)
    fun remains leaves => ?_).bind fun target _ _ => ?_
  · refine ⟨_, (leaves.besides held).mono ?_, List.perm_append_comm⟩
    rw [nodes]
    exact (List.perm_append_singleton function arguments).subperm
  refine ((Stage.trades_releaseAll _ _).mono fun remains fewer => ?_).bind fun _ _ _ => ?_
  · have both : held.map Prod.snd ++ [target] = (held ++ [(function, target)]).map Prod.snd := by
      rw [List.map_append]
      rfl
    obtain ⟨rest, listed, rfl⟩ := List.sublist_map_iff.mp (both ▸ fewer)
    refine .of_here rest ((listed.map Prod.fst).subperm.trans ?_)
    rw [List.map_append, nodes]
    exact (List.perm_append_singleton function arguments).subperm.trans
      (List.sublist_cons_self ..).subperm
  refine Trades.afterGet (((Stage.trades_save _ _).mono fun _ => .of_nil).bind fun _ _ _ => ?_)
  refine ((Stage.trades_callThrough _ stage _).mono fun _ => .of_nil).bind fun _ _ _ => ?_
  refine ((Stage.trades_capture _ call kind hint).mono ?_).bind fun captured _ _ => ?_
  · rintro _ (none | ⟨storage, rfl⟩)
    · exact .of_nil none
    · exact result storage
  refine ((Stage.trades_restore _ _).among [captured] (.refl _) (fun _ => .refl _) ?_).bind
    fun _ _ _ => ?_
  · rintro _ rfl
    exact ⟨_, result captured, .refl _⟩
  exact ((Build.trades_count _ _).surely [captured] (.refl _) fun _ => .refl _).bind
    fun _ _ _ => trades_pure (.refl _)

theorem trades_operation (visits : visit.Trades tree) (id : NodeId) (kind : Kind)
    (operation : Operation) :
    Trades tree operation.operands (Generation.operation tree visit id kind hint operation) work []
      (fun result => [result]) (tree.Leaves id operation.operands) := by
  cases operation with
  | constant bits => exact trades_shared rfl
  | parameter index => exact trades_parameter id index kind
  | arith operation left right => exact trades_arith visits id left right kind operation
  | call function arguments =>
    exact ((Build.trades_lift _ (Stage.ofArguments tree arguments)).mono fun _ => .of_nil).bind
      fun stage _ done =>
        trades_emitCall visits id function kind (Stage.of_ofArguments (Build.lift_eq_ok.mp done).1)

/-- A value that is to be kept is owned by the node that it is kept for. -/
theorem trades_keep {storage : Storage} (unkept : work.caches[id]? = none)
    (shared : tree.isShared id = true) :
    Trades tree [id]
      (modify fun work => { work with caches := work.caches.insert id storage } : Build Unit) work
      [storage] (fun _ => []) fun _ => False := by
  refine fun owners account => ⟨fun other kept cached => ?_, fun other kept cached => ?_,
    [(id, storage)], ?_, account.unchanged rfl rfl rfl⟩
  · refine Workspace.kept_insert.mpr (.inr ⟨?_, cached⟩)
    rintro rfl
    rw [unkept] at cached
    cases cached
  · rcases Workspace.kept_insert.mp cached with ⟨rfl, _⟩ | ⟨_, cached⟩
    · exact .inr ⟨shared, other, List.mem_singleton_self other, .refl⟩
    · exact .inl cached
  · intro entry member
    obtain rfl := List.mem_singleton.mp member
    exact ⟨unkept, Workspace.kept_insert.mpr (.inl ⟨rfl, rfl⟩)⟩

/-- A node that fails leaves behind what its operation left. -/
theorem trades_node (layered : tree.Layered) (visits : visit.Trades tree)
    (exchanges : visit.Exchanges tree) : (Generation.node tree visit).Trades tree := by
  intro id hint work
  simp only [Generation.node]
  refine ((Build.trades_lift [id] (tree.node id)).mono fun _ => .of_nil).bind
    fun node looked done => ?_
  obtain ⟨present, rfl⟩ := Build.lift_eq_ok.mp done
  have found := Tree.node_eq_ok.mp present
  refine ((trades_label [id] id).mono fun _ => .of_nil).bind fun _ labeled label => ?_
  obtain rfl := Build.of_label label
  refine Trades.afterGet ?_
  cases unkept : labeled.caches[id]? with
  | some cached =>
    exact ((Build.trades_count [id] _).surely [] (.refl _) fun _ => .refl _).bind fun _ _ _ =>
      trades_shared cached.isOwned_share
  | none =>
    have uses : ∀ operand ∈ node.operation.operands, operand ∈ tree.operandsOf id := by
      rw [Tree.operandsOf_of_node found]
      exact fun _ listed => listed
    have operates : Trades tree [id]
        (Generation.operation tree visit id node.kind hint node.operation) labeled []
        (fun result => [result]) (tree.Leaves id node.operation.operands) :=
      (trades_operation visits id node.kind node.operation).needs fun operand listed =>
        ⟨id, List.mem_singleton_self id, .head (uses operand listed) .refl⟩
    rw [← Tree.operandsOf_of_node found] at operates
    refine operates.bind fun storage between done => ?_
    refine ((Build.trades_count [id] _).surely [storage] (.refl _) fun _ => .refl _).bind
      fun _ counted counting => ?_
    split
    · rename_i share
      have exchanged := (exchanges_of_operation exchanges done).1
      have later : counted.caches[id]? = none := by
        rw [Build.count_eq_ok.mp counting]
        exact exchanged.unkept layered uses unkept
      refine Trades.bind (trades_keep later ((Tree.isShared_of_node found).trans share) |>.mono
        fun _ => False.elim) fun _ _ _ => trades_shared storage.isOwned_share
    · exact trades_pure (.refl _)

theorem trades_within (layered : tree.Layered) (depth : Nat) : (within tree depth).Trades tree := by
  induction depth with
  | zero => exact fun id hint work => trades_throw (.of_nil rfl)
  | succ depth ih => exact trades_node layered ih (exchanges_within layered depth)

end Generation

end NativeExpr
