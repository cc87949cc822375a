import NativeExpr.Proofs.Generation.Basic
import NativeExpr.Proofs.Generation.Closure
import NativeExpr.Proofs.Ledger.Placement
import NativeExpr.Proofs.Ownership.Generation

/-!
# Generation as a ledger shows it

Generating a node goes as a ledger says if generating its operands does. What a call writes to move
its arguments and to save registers is not booked; the values of its arguments are given back in
another order than the ledger has them, which makes no difference.
-/

namespace NativeExpr

/-- Whether generating a node goes as a ledger says, whatever register is preferred. -/
def Visit.Booked (tree : Tree) (labels : NodeId → Nat) (needed : NodeId → Prop) (visit : Visit)
    (entry : Ledger.Visit) (id : NodeId) : Prop :=
  ∀ (hint : Option Register) (work : Workspace), work.Orderly tree labels needed →
    Build.Booked (Workspace.Orderly tree labels needed) (Build.Holds (tree.kindOf id))
      (visit id hint work) (entry id work.ledger)

variable {tree : Tree} {labels : NodeId → Nat} {needed : NodeId → Prop} {work : Workspace}
variable {visit : Visit} {entry : Ledger.Visit}

namespace Build

/-- Asking for a label asks for no room. -/
theorem booked_label (id : NodeId) (orderly : work.Orderly tree labels needed) :
    Booked (Workspace.Orderly tree labels needed) (fun _ (_ : Unit) => True) (label tree id work)
      (.ok () work.ledger) := by
  refine (booked_lift (tree.spared_node id).isExhaustion orderly).skip fun node after _ orderly => ?_
  refine Booked.afterGet ?_
  cases after.labels[id]? with
  | some count => exact .ok trivial orderly rfl
  | none => exact .failed rfl _ _

/-- The label that is found is the one that the ledger goes by. -/
theorem Booked.skipLabel {id : NodeId} {γ δ : Type} {next : Nat → Build γ}
    {ends : γ → δ → Prop} {entry : Ledger.Step δ} (need : needed id)
    (orderly : work.Orderly tree labels needed)
    (rest : Booked (Workspace.Orderly tree labels needed) ends (next (labels id) work)
      (entry work.ledger)) :
    Booked (Workspace.Orderly tree labels needed) ends ((label tree id >>= next) work)
      (entry work.ledger) := by
  refine (booked_label id orderly).skip fun count after done _ => ?_
  obtain ⟨found, rfl⟩ := found_of_label done
  have same : after.label id = count := by simp only [Workspace.label, found, Option.getD_some]
  rw [← same, orderly.labeled id need]
  exact rest

end Build

namespace Stage

open Build (Booked Holds booked_pure)

theorem booked_demands (start : Nat) (arguments : List Staged)
    (orderly : work.Orderly tree labels needed) :
    Booked (Workspace.Orderly tree labels needed) (fun _ (_ : Unit) => True)
      (demands tree start arguments work) (.ok () work.ledger) := by
  induction arguments generalizing start work with
  | nil => exact .ok trivial orderly rfl
  | cons argument rest ih =>
    refine (Build.booked_label argument.node orderly).skip fun _ _ _ orderly => ?_
    exact (ih (start + 1) orderly).skip fun _ _ _ orderly => .ok trivial orderly rfl

/-- Arguments are evaluated as booked if each of them is. -/
theorem booked_evaluateInOrder {demands : List Demand}
    (visits : ∀ demand ∈ demands, visit.Booked tree labels needed entry demand.argument.node)
    (labeled : ∀ demand ∈ demands, demand.label = labels demand.argument.node ∧
      demand.argument.kind = tree.kindOf demand.argument.node)
    (orderly : work.Orderly tree labels needed) :
    Booked (Workspace.Orderly tree labels needed)
      (fun found holdings => ∃ evaluated : List (Demand × Storage),
        evaluated.map Prod.fst = demands ∧
        found = evaluated.map (fun each => (each.1.position, each.2)) ∧
        evaluated.map (fun each => each.2.holding) = holdings)
      (evaluateInOrder tree visit demands work)
      (Ledger.evaluate tree labels entry (demands.map fun demand => demand.argument.node)
        work.ledger) := by
  induction demands generalizing work with
  | nil => exact booked_pure ⟨[], rfl, rfl, rfl⟩ orderly
  | cons demand rest ih =>
    have goesOn (settled : Storage) (holding : Holding) (work : Workspace)
        (same : settled.holding = holding) (orderly : work.Orderly tree labels needed) :
        Booked (Workspace.Orderly tree labels needed)
          (fun found holdings => ∃ evaluated : List (Demand × Storage),
            evaluated.map Prod.fst = demand :: rest ∧
            found = evaluated.map (fun each => (each.1.position, each.2)) ∧
            evaluated.map (fun each => each.2.holding) = holdings)
          ((do return (demand.position, settled) :: (← evaluateInOrder tree visit rest) :
            Build (List (Nat × Storage))) work)
          ((do return holding :: (← Ledger.evaluate tree labels entry
              (rest.map fun demand => demand.argument.node)) :
            Ledger.Step (List Holding)) work.ledger) := by
      refine (ih (fun other listed => visits other (List.mem_cons_of_mem _ listed))
        (fun other listed => labeled other (List.mem_cons_of_mem _ listed)) orderly).bind ?_
      rintro found holdings after ⟨evaluated, rfl, rfl, rfl⟩ orderly
      exact booked_pure ⟨(demand, settled) :: evaluated, rfl, rfl, by rw [List.map_cons, same]⟩
        orderly
    refine (visits demand List.mem_cons_self demand.argument.place.register? work orderly).bind ?_
    rintro value holding after ⟨kind, rfl⟩ orderly
    cases rest with
    | nil => exact goesOn value _ after rfl orderly
    | cons next later =>
      obtain ⟨label, nextKind⟩ := labeled next (List.mem_cons_of_mem _ List.mem_cons_self)
      simp only [label, nextKind]
      exact (Build.booked_parkUnderPressure kind _ _ orderly).bind
        fun settled parked after same orderly =>
        goesOn settled parked after same.2 orderly

/-- The values of arguments hold together what the ledger says. -/
theorem booked_evaluate {stage : Stage} {arguments : List NodeId} (of : stage.Of tree arguments)
    (need : ∀ argument ∈ arguments, needed argument)
    (visits : ∀ argument ∈ arguments, visit.Booked tree labels needed entry argument)
    (orderly : work.Orderly tree labels needed) :
    Booked (Workspace.Orderly tree labels needed)
      (fun values holdings => (values.map Storage.holding).Perm holdings)
      (stage.evaluate tree visit work)
      (Ledger.evaluate tree labels entry (Generation.heaviestFirst labels arguments)
        work.ledger) := by
  refine (booked_demands 0 stage.arguments orderly).skip fun listed after asked orderly => ?_
  obtain ⟨rfl, staged, positions, labeled⟩ := of_demands asked
  have among {demand : Demand} (member : demand ∈ listed) :
      demand.argument ∈ stage.arguments := staged ▸ List.mem_map_of_mem member
  have nodes {demand : Demand} (member : demand ∈ listed) : demand.argument.node ∈ arguments :=
    of.nodes ▸ List.mem_map_of_mem (among member)
  have known : ∀ demand ∈ listed, demand.label = labels demand.argument.node :=
    fun demand member => (labeled demand member).trans (orderly.labeled _ (need _ (nodes member)))
  have ordered : Generation.heaviestFirst labels arguments =
      (heaviestFirst listed).map fun demand => demand.argument.node := by
    rw [map_heaviestFirst known, ← of.nodes, ← staged, List.map_map]
    rfl
  rw [ordered]
  have same {demand : Demand} (member : demand ∈ heaviestFirst listed) : demand ∈ listed :=
    (perm_heaviestFirst listed).mem_iff.mp member
  refine (booked_evaluateInOrder (fun demand member => visits _ (nodes (same member)))
    (fun demand member => ⟨known demand (same member), of.kind (among (same member))⟩)
    orderly).map ?_
  rintro found holdings ⟨evaluated, demands, rfl, rfl⟩
  have count : stage.arguments.length = listed.length := by rw [← staged, List.length_map]
  rw [count, ← List.range_eq_range'] at positions
  obtain ⟨settled, reordered, _, values⟩ := settle positions demands
  rw [count, values, List.map_map]
  exact reordered.map _

theorem booked_releaseAll (storages : List Storage) (orderly : work.Orderly tree labels needed) :
    Booked (Workspace.Orderly tree labels needed) (fun _ _ => True)
      (releaseAll tree storages work)
      (Ledger.giveBackAll (storages.map Storage.holding) work.ledger) := by
  induction storages generalizing work with
  | nil => exact .ok trivial orderly rfl
  | cons storage rest ih =>
    exact (Build.booked_release orderly).bind fun _ _ _ _ orderly => ih orderly

theorem booked_forM {step : Register → Routine.Step Unit} (framed : ∀ register, (step register).Framed)
    (registers : List Register) (orderly : work.Orderly tree labels needed) :
    Booked (Workspace.Orderly tree labels needed) (fun _ (_ : Unit) => True)
      ((registers.forM fun register => Build.onRoutine tree (step register)) work)
      (.ok () work.ledger) := by
  induction registers generalizing work with
  | nil => exact .ok trivial orderly rfl
  | cons register rest ih =>
    exact (Build.booked_onRoutine (framed register) orderly).skip fun _ _ _ orderly => ih orderly

theorem booked_save (registers : List Register) (orderly : work.Orderly tree labels needed) :
    Booked (Workspace.Orderly tree labels needed) (fun _ (_ : Unit) => True)
      (save tree registers work) (.ok () work.ledger) :=
  save_eq_forM tree registers ▸ booked_forM Routine.framed_save registers orderly

theorem booked_restore (registers : List Register) (orderly : work.Orderly tree labels needed) :
    Booked (Workspace.Orderly tree labels needed) (fun _ (_ : Unit) => True)
      (restore tree registers work) (.ok () work.ledger) :=
  restore_eq_forM tree registers ▸ booked_forM Routine.framed_restore registers orderly

/-- A result takes a register, or a slot if no register is free. -/
theorem booked_capture (call : NodeId) (kind : Kind) (hint : Option Register)
    (orderly : work.Orderly tree labels needed) :
    Booked (Workspace.Orderly tree labels needed) (Holds kind)
      (capture tree call kind hint work) (Ledger.capture kind.bank work.ledger) := by
  refine Booked.afterGet ?_
  refine (Build.booked_tryRegister _ _ _ orderly).bind fun found taken _ same orderly => ?_
  cases taken with
  | true =>
    obtain ⟨register, rfl, own⟩ := Option.map_eq_some_iff.mp same
    refine (Build.booked_onRoutine (Routine.framed_write _) orderly).skip fun _ _ _ orderly => ?_
    exact booked_pure ⟨rfl, congrArg Holding.register own⟩ orderly
  | false =>
    obtain rfl : found = none := by simpa using same
    refine (Build.booked_allocateSlot orderly).bind fun slot taken _ same orderly => ?_
    subst same
    cases slot with
    | none => exact .exhausted ..
    | some offset =>
      refine (Build.booked_onRoutine (Routine.framed_write _) orderly).skip fun _ _ _ orderly => ?_
      exact booked_pure ⟨rfl, rfl⟩ orderly

/-- A call is generated as booked if its arguments and its function are. -/
theorem booked_emitCall {stage : Stage} {arguments : List NodeId} {function : NodeId}
    (of : stage.Of tree arguments) (need : ∀ argument ∈ arguments, needed argument)
    (visits : ∀ operand ∈ function :: arguments, visit.Booked tree labels needed entry operand)
    (call : NodeId) (kind : Kind) (hint : Option Register)
    (orderly : work.Orderly tree labels needed) :
    Booked (Workspace.Orderly tree labels needed) (Holds kind)
      (stage.emitCall tree visit function call kind hint work)
      (Ledger.call tree labels entry kind.bank function arguments work.ledger) := by
  simp only [emitCall]
  refine Booked.after (liveCallerSaved_ok work) ?_
  refine (booked_save _ orderly).skip fun _ _ _ orderly => ?_
  refine (booked_evaluate of need (fun argument listed =>
    visits argument (List.mem_cons_of_mem _ listed)) orderly).bind
      fun values holdings _ hold orderly => ?_
  refine (visits function List.mem_cons_self _ _ orderly).bind ?_
  rintro target _ pointed ⟨_, rfl⟩ orderly
  have given : Ledger.giveBackAll (holdings ++ [target.holding]) =
      Ledger.giveBackAll ((values ++ [target]).map Storage.holding) := by
    rw [List.map_append]
    exact Ledger.giveBackAll_perm (hold.symm.append_right _)
  rw [given]
  refine (booked_releaseAll _ orderly).bind fun _ _ released _ orderly => ?_
  refine Booked.after (liveCallerSaved_ok released) ?_
  refine (booked_save _ orderly).skip fun _ _ _ orderly => ?_
  refine (Build.booked_onRoutine (framed_callThrough stage _) orderly).skip fun _ _ _ orderly => ?_
  refine (booked_capture call kind hint orderly).bind fun result holding _ holds orderly => ?_
  refine (booked_restore _ orderly).skip fun _ _ _ orderly => ?_
  refine (Build.booked_count _ _ ?_ orderly).bind fun _ _ _ _ orderly => booked_pure holds orderly
  exact fun _ => rfl

end Stage

namespace Generation

open Build (Booked Holds booked_pure)

/-- The value that is evaluated first is parked as booked. -/
theorem booked_operands {left right : NodeId} (leftNeed : needed left) (rightNeed : needed right)
    (leftVisits : visit.Booked tree labels needed entry left)
    (rightVisits : visit.Booked tree labels needed entry right) (hint : Option Register)
    (orderly : work.Orderly tree labels needed) :
    Booked (Workspace.Orderly tree labels needed)
      (fun values holdings => Holds (tree.kindOf left) values.1 holdings.1 ∧
        Holds (tree.kindOf right) values.2 holdings.2)
      (operands tree visit left right hint work)
      (Ledger.operands labels entry left right work.ledger) := by
  simp only [operands, Ledger.operands]
  refine Booked.skipLabel leftNeed orderly ?_
  refine Booked.skipLabel rightNeed orderly ?_
  split
  · refine (rightVisits none work orderly).bind ?_
    rintro second _ _ ⟨kind, rfl⟩ orderly
    refine (Build.booked_parkUnderPressure kind _ _ orderly).bind ?_
    rintro second _ _ seconds orderly
    exact (leftVisits hint _ orderly).bind fun _ _ _ firsts orderly =>
      booked_pure ⟨firsts, seconds⟩ orderly
  · refine (leftVisits hint work orderly).bind ?_
    rintro first _ _ ⟨kind, rfl⟩ orderly
    refine (Build.booked_parkUnderPressure kind _ _ orderly).bind ?_
    rintro first _ _ firsts orderly
    exact (rightVisits none _ orderly).bind fun _ _ _ seconds orderly =>
      booked_pure ⟨firsts, seconds⟩ orderly

theorem booked_arith {left right : NodeId} (leftNeed : needed left) (rightNeed : needed right)
    (leftVisits : visit.Booked tree labels needed entry left)
    (rightVisits : visit.Booked tree labels needed entry right) (id : NodeId) {kind : Kind}
    (leftKind : tree.kindOf left = kind) (operation : Arithmetic) (hint : Option Register)
    (orderly : work.Orderly tree labels needed) :
    Booked (Workspace.Orderly tree labels needed) (Holds kind)
      (arith tree visit id kind operation left right hint work)
      (Ledger.arith labels entry kind.bank left right work.ledger) := by
  simp only [arith, Ledger.arith]
  refine (booked_operands leftNeed rightNeed leftVisits rightVisits hint orderly).bind ?_
  rintro ⟨first, second⟩ ⟨_, _⟩ _ ⟨⟨same, rfl⟩, ⟨_, rfl⟩⟩ orderly
  rw [← leftKind, ← same]
  refine (Build.booked_materialize id hint _ orderly).bind ?_
  rintro target _ _ rfl orderly
  refine (Build.booked_onRoutine (Routine.framed_write _) orderly).skip fun _ _ _ orderly => ?_
  exact (Build.booked_release orderly).bind fun _ _ _ _ orderly => booked_pure ⟨rfl, rfl⟩ orderly

/-- A parameter is in its home, or the function has none. -/
theorem booked_parameter (index : Nat) (kind : Kind) (orderly : work.Orderly tree labels needed) :
    Booked (Workspace.Orderly tree labels needed) (Holds kind) (parameter tree index kind work)
      (.ok .nothing work.ledger) := by
  refine (Build.booked_onRoutine (Routine.framed_home index) orderly).skip fun home _ _ orderly => ?_
  cases home with
  | none => exact .failed rfl _ _
  | some home => exact .ok ⟨rfl, rfl⟩ orderly rfl

theorem booked_operation (formed : tree.Formed) {id : NodeId} {node : Node}
    (found : tree.node? id = some node)
    (need : ∀ operand ∈ node.operation.operands, needed operand)
    (visits : ∀ operand ∈ node.operation.operands, visit.Booked tree labels needed entry operand)
    (hint : Option Register) (orderly : work.Orderly tree labels needed) :
    Booked (Workspace.Orderly tree labels needed) (Holds node.kind)
      (operation tree visit id node.kind hint node.operation work)
      (Ledger.operation tree labels entry node.kind.bank node.operation work.ledger) := by
  cases here : node.operation with
  | constant bits => exact booked_pure ⟨rfl, rfl⟩ orderly
  | parameter index => exact booked_parameter index node.kind orderly
  | arith operation left right =>
    rw [here] at need visits
    have leftListed : left ∈ (Operation.arith operation left right).operands := List.mem_cons_self
    have rightListed : right ∈ (Operation.arith operation left right).operands :=
      List.mem_cons_of_mem _ List.mem_cons_self
    exact booked_arith (need left leftListed) (need right rightListed) (visits left leftListed)
      (visits right rightListed) id (formed.arith id node operation left right found here).1
      operation hint orderly
  | call function arguments =>
    rw [here] at need visits
    simp only [operation]
    cases staged : Stage.ofArguments tree arguments with
    | error cause =>
      exact .failed ((Stage.spared_ofArguments tree arguments).isExhaustion cause staged) _ _
    | ok stage =>
      exact Stage.booked_emitCall (Stage.of_ofArguments staged)
        (fun argument listed => need argument (List.mem_cons_of_mem _ listed)) visits id node.kind
        hint orderly

/-- The value of a shared node is kept, in the workspace as in the ledger. -/
theorem booked_keep {id : NodeId} {storage : Storage} (kind : storage.kind = tree.kindOf id)
    (orderly : work.Orderly tree labels needed) :
    let keeping := { work with caches := work.caches.insert id storage }
    keeping.Orderly tree labels needed ∧
      keeping.ledger = { work.ledger with kept := Function.update work.ledger.kept id true } := by
  refine ⟨{ orderly with kinds := fun other found kept => ?_ }, work.ledger_keep id storage⟩
  rcases Workspace.kept_insert.mp kept with ⟨rfl, rfl⟩ | ⟨_, kept⟩
  · exact kind
  · exact orderly.kinds other found kept

/-- A node is generated as booked if its operands are. -/
theorem booked_node (formed : tree.Formed) (closed : tree.Closed needed) {id : NodeId}
    (need : needed id)
    (visits : ∀ operand ∈ tree.operandsOf id, visit.Booked tree labels needed entry operand) :
    (Generation.node tree visit).Booked tree labels needed (Ledger.node tree labels entry) id := by
  intro hint work orderly
  cases found : tree.node? id with
  | none =>
    simp only [Generation.node, Tree.node_missing found]
    exact .failed rfl _ _
  | some node =>
    have kind := Tree.kindOf_of_node found
    have uses := closed id need
    rw [Tree.operandsOf_of_node found] at uses visits
    refine Booked.after (Build.lift_ok (Build.node_ok found)) ?_
    refine Booked.skipLabel need orderly (Booked.afterGet ?_)
    cases kept : work.caches[id]? with
    | some cached =>
      have keeps : work.ledger.kept id = true := by simp only [Workspace.ledger, kept, Option.isSome]
      rw [Ledger.node_of_kept found keeps]
      have shares := Storage.holding_of_shared cached.isOwned_share
      refine (Build.booked_count _ _ ?_ orderly).bind fun _ _ _ _ counted =>
        booked_pure ⟨orderly.kinds id cached kept, shares⟩ counted
      exact fun _ => rfl
    | none =>
      have fresh : work.ledger.kept id = false := by simp only [Workspace.ledger, kept, Option.isSome]
      rw [Ledger.node_of_fresh found fresh, kind]
      refine (booked_operation formed found uses visits hint orderly).bind ?_
      rintro storage _ _ ⟨same, rfl⟩ orderly
      refine (Build.booked_count _ _ ?_ orderly).bind fun _ _ _ _ orderly => ?_
      · exact fun _ => rfl
      · cases node.isShared with
        | true =>
          obtain ⟨inOrder, books⟩ := booked_keep (same.trans kind.symm) orderly
          exact .ok ⟨same, Storage.holding_of_shared storage.isOwned_share⟩ inOrder books
        | false => exact booked_pure ⟨same, rfl⟩ orderly

/-- Every node that is needed is generated as booked. -/
theorem booked_within (formed : tree.Formed) (closed : tree.Closed needed) (depth : Nat) :
    ∀ id, needed id → (within tree depth).Booked tree labels needed
      (Ledger.within tree labels depth) id := by
  induction depth with
  | zero => exact fun _ _ _ _ _ => .failed rfl _ _
  | succ depth ih =>
    exact fun id need => booked_node formed closed need fun operand uses =>
      ih operand (closed id need operand uses)

end Generation

end NativeExpr
