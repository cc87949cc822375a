import NativeExpr.Proofs.Generation.Continuation

/-!
# Homes of the parameters that are needed

A node whose value has been generated needs no parameter that has no home, and neither does a node
whose value is kept. A function that has been begun gets no more homes, so this is known of all that
follows as well, done or not.
-/

namespace NativeExpr

/-- Whether so many parameters are enough for all that is needed for a node. -/
def Tree.Enough (tree : Tree) (count : Nat) (id : NodeId) : Prop :=
  ∀ other node index, tree.Reaches id other → tree.node? other = some node →
    node.operation = .parameter index → index < count

namespace Tree

variable {tree : Tree} {count more : Nat} {id : NodeId} {node : Node}

theorem Enough.mono (enough : tree.Enough count id) (le : count ≤ more) : tree.Enough more id :=
  fun other node index reaches found operates =>
    Nat.lt_of_lt_of_le (enough other node index reaches found operates) le

/-- What is enough for the operands of a node is enough for the node, if it is for the node if that
is a parameter itself. -/
theorem enough_of_operands (found : tree.node? id = some node)
    (itself : ∀ index, node.operation = .parameter index → index < count)
    (operands : ∀ operand ∈ node.operation.operands, tree.Enough count operand) :
    tree.Enough count id := by
  intro other target index reaches there operates
  rcases reaches.cases_head with rfl | ⟨operand, uses, further⟩
  · obtain rfl := Option.some.inj (found.symm.trans there)
    exact itself index operates
  · rw [operandsOf_of_node found] at uses
    exact operands operand uses other target index further there operates

/-- What is enough for a node is enough when the tree has grown. -/
theorem Enough.append (enough : tree.Enough count id) (layered : tree.Layered)
    (older : id < tree.size) (kind : Kind) (operation : Operation) :
    (tree.append kind operation).2.Enough count id := by
  intro other node index reaches found operates
  have within : tree.Reaches id other ∧ other < tree.size := by
    clear found
    induction reaches with
    | refl => exact ⟨.refl, older⟩
    | tail _ uses ih =>
      obtain ⟨reaches, within⟩ := ih
      rw [operandsOf_append _ _ _ within] at uses
      exact ⟨reaches.tail uses, Nat.lt_trans (layered _ _ uses) within⟩
  rcases of_node_append found with ⟨rfl, _⟩ | ⟨old, here, _, same⟩
  · exact absurd within.2 (Nat.lt_irrefl _)
  · exact enough other old index within.1 here (same.trans operates)

end Tree

namespace Workspace

/-- The number of homes of the function that is being generated, none if there is no function. -/
def homeCount (work : Workspace) : Nat :=
  match work.routine with
  | some routine => routine.frame.homes.length
  | none => 0

/-- Whether the function that is being generated has homes for all that is needed for nodes whose
values are kept and for some others. -/
structure Houses (tree : Tree) (work : Workspace) (ids : List NodeId) : Prop where
  kept : ∀ (id : NodeId) storage, work.caches[id]? = some storage →
    id < tree.size ∧ tree.Enough work.homeCount id
  others : ∀ id ∈ ids, tree.Enough work.homeCount id

/-- Whether no other value is kept than was, and there are as many homes as there were at least. -/
structure KeepsHomes (before after : Workspace) : Prop where
  caches : after.caches = before.caches
  homes : before.homeCount ≤ after.homeCount

variable {tree : Tree} {work before after : Workspace} {ids others : List NodeId}

theorem homeCount_of_some {routine : Routine} (begun : work.routine = some routine) :
    work.homeCount = routine.frame.homes.length := by
  simp only [homeCount, begun]

theorem homeCount_of_none (none : work.routine = none) : work.homeCount = 0 := by
  simp only [homeCount, none]

/-- A function that is gone on with keeps its homes. -/
theorem CarriesOn.homeCount_le (carriesOn : before.CarriesOn tree after) :
    before.homeCount ≤ after.homeCount := by
  rcases carriesOn.routine with same | ⟨routine, continued, writes, there, extended⟩
  · exact Nat.le_of_eq (by simp only [homeCount, same])
  · rcases writes with begun | begins
    · rw [homeCount_of_some begun, homeCount_of_some there, extended.homes]
    · rw [homeCount_of_none begins.none]
      exact Nat.zero_le _

theorem evolution_keepsHomes : EvolutionAround (fun _ => False) KeepsHomes where
  refl _ := ⟨rfl, Nat.le_refl _⟩
  trans first second :=
    ⟨second.caches.trans first.caches, Nat.le_trans first.homes second.homes⟩
  labels _ _ := ⟨rfl, Nat.le_refl _⟩
  keep _ _ _ none := none.elim
  statistics _ _ := ⟨rfl, Nat.le_refl _⟩
  assign _ _ _ _ := ⟨rfl, Nat.le_refl _⟩
  release _ _ _ _ := ⟨rfl, Nat.le_refl _⟩
  transfer _ _ _ _ _ := ⟨rfl, Nat.le_refl _⟩

theorem Houses.mono (houses : work.Houses tree ids) (fewer : ∀ id ∈ others, id ∈ ids) :
    work.Houses tree others :=
  ⟨houses.kept, fun id member => houses.others id (fewer id member)⟩

theorem Houses.forget (houses : work.Houses tree ids) : work.Houses tree [] :=
  houses.mono (List.forall_mem_nil _)

theorem Houses.of_keepsHomes (houses : before.Houses tree ids) (keeps : before.KeepsHomes after) :
    after.Houses tree ids where
  kept id storage kept := by
    rw [keeps.caches] at kept
    exact ⟨(houses.kept id storage kept).1, (houses.kept id storage kept).2.mono keeps.homes⟩
  others id member := (houses.others id member).mono keeps.homes

/-- A tree may grow while a function is generated. -/
theorem Houses.append (houses : work.Houses tree []) (layered : tree.Layered) (kind : Kind)
    (operation : Operation) : work.Houses (tree.append kind operation).2 [] where
  kept id storage kept := by
    obtain ⟨older, enough⟩ := houses.kept id storage kept
    exact ⟨Tree.size_append .. ▸ Nat.lt_succ_of_lt older, enough.append layered older _ _⟩
  others := List.forall_mem_nil _

end Workspace

namespace Build

variable {α : Type} {tree : Tree} {work : Workspace} {ids : List NodeId}

theorem demanding_keepsHomes (tree : Tree) :
    Demanding tree (fun _ => False) fun step => step.Evolves Workspace.KeepsHomes := by
  refine Workspace.evolution_keepsHomes.demanding (fun _ none => none.elim) fun step adds work => ?_
  refine ⟨?_, ((demanding_carriesOn tree).onRoutine step adds work).homeCount_le⟩
  rcases leaves_onRoutine tree step work with same | ⟨routine, _, same⟩ <;> rw [same]

/-- A step that keeps the homes leaves one that houses the same. -/
theorem Evolves.houses {step : Build α} (keeps : step.Evolves Workspace.KeepsHomes)
    (houses : work.Houses tree ids) :
    step.Ends work (fun _ after => after.Houses tree ids) (Workspace.Houses tree · []) := by
  have later := houses.of_keepsHomes (keeps work)
  exact (ends_iff_leaves.mpr later).mono (fun _ _ houses => houses) fun _ houses => houses.forget

end Build

/-- Whether a visit that succeeds leaves homes for all that is needed for the node. -/
def Visit.Houses (tree : Tree) (visit : Visit) : Prop :=
  ∀ (id : NodeId) (hint : Option Register) (ids : List NodeId) (work : Workspace),
    work.Houses tree ids → (visit id hint).Ends work (fun _ after => after.Houses tree (id :: ids))
      (Workspace.Houses tree · [])

namespace Generation

open Workspace (evolution_keepsHomes)
open Build (Ends ends_pure ends_throw ends_lift demanding_keepsHomes)

variable {tree : Tree} {visit : Visit} {work : Workspace} {hint : Option Register} {id : NodeId}
variable {kind : Kind} {ids : List NodeId}

section

variable (visits : visit.Houses tree)

include visits

theorem houses_evaluateInOrder (demands : List Stage.Demand) (houses : work.Houses tree ids) :
    (Stage.evaluateInOrder tree visit demands).Ends work
      (fun _ after => after.Houses tree (demands.map (fun demand => demand.argument.node) ++ ids))
      (Workspace.Houses tree · []) := by
  induction demands generalizing work ids with
  | nil => exact ends_pure houses
  | cons demand rest ih =>
    refine (visits demand.argument.node _ _ _ houses).bind fun value _ _ houses => ?_
    have goesOn (settled : Storage) (parked : Workspace)
        (houses : parked.Houses tree (demand.argument.node :: ids)) :
        (do return (demand.position, settled) :: (← Stage.evaluateInOrder tree visit rest) :
          Build (List (Nat × Storage))).Ends parked
          (fun _ after => after.Houses tree
            ((demand :: rest).map (fun demand => demand.argument.node) ++ ids))
          (Workspace.Houses tree · []) := by
      refine (ih houses).bind fun _ _ _ houses => ends_pure (houses.mono fun id member => ?_)
      simp only [List.map_cons, List.cons_append, List.mem_cons, List.mem_append] at member ⊢
      tauto
    cases rest with
    | nil => exact goesOn value _ houses
    | cons next later =>
      exact (((demanding_keepsHomes tree).parkUnderPressure _ _ _).houses houses).bind
        fun settled parked _ houses => goesOn settled parked houses

theorem houses_evaluate (stage : Stage) (houses : work.Houses tree ids) :
    (stage.evaluate tree visit).Ends work
      (fun _ after => after.Houses tree (stage.arguments.map Staged.node ++ ids))
      (Workspace.Houses tree · []) := by
  have demands (position : Nat) (arguments : List Staged) :
      (Stage.demands tree position arguments).Evolves Workspace.KeepsHomes := by
    induction arguments generalizing position with
    | nil => exact evolution_keepsHomes.pure _
    | cons argument rest ih =>
      exact evolution_keepsHomes.bind (evolution_keepsHomes.label _) fun _ =>
        evolution_keepsHomes.bind (ih _) fun _ => evolution_keepsHomes.pure _
  refine ((demands 0 stage.arguments).houses houses).bind fun asked _ done houses => ?_
  obtain ⟨_, arguments, _⟩ := Stage.of_demands done
  refine (houses_evaluateInOrder visits _ houses).bind fun _ _ _ houses =>
    ends_pure (houses.mono fun id member => ?_)
  have same : asked.map (fun demand => demand.argument.node) = stage.arguments.map Staged.node := by
    rw [← arguments, List.map_map]
    rfl
  rw [← same] at member
  simpa only [List.mem_append, ((Stage.perm_heaviestFirst asked).map _).mem_iff] using member

theorem houses_emitCall (stage : Stage) (function call : NodeId) (houses : work.Houses tree ids) :
    (stage.emitCall tree visit function call kind hint).Ends work
      (fun _ after => after.Houses tree (function :: stage.arguments.map Staged.node ++ ids))
      (Workspace.Houses tree · []) := by
  have keeps := demanding_keepsHomes tree
  simp only [Stage.emitCall]
  refine Ends.after (Stage.liveCallerSaved_ok work) ?_
  refine ((keeps.save _).houses houses).bind fun _ _ _ houses => ?_
  refine (houses_evaluate visits stage houses).bind fun values _ _ houses => ?_
  refine (visits function _ _ _ houses).bind fun target _ _ houses => ?_
  refine ((keeps.releaseAll _).houses houses).bind fun _ released _ houses => ?_
  refine Ends.after (Stage.liveCallerSaved_ok released) ?_
  refine ((keeps.save _).houses houses).bind fun _ _ _ houses => ?_
  refine ((keeps.callThrough _ _).houses houses).bind fun _ _ _ houses => ?_
  refine ((keeps.capture _ _ _).houses houses).bind fun _ _ _ houses => ?_
  refine ((keeps.restore _).houses houses).bind fun _ _ _ houses => ?_
  exact ((keeps.count _).houses houses).bind fun _ _ _ houses => ends_pure houses

theorem houses_operands (left right : NodeId) (houses : work.Houses tree ids) :
    (operands tree visit left right hint).Ends work
      (fun _ after => after.Houses tree (left :: right :: ids)) (Workspace.Houses tree · []) := by
  have keeps := demanding_keepsHomes tree
  simp only [operands]
  refine ((evolution_keepsHomes.label left).houses houses).bind fun _ _ _ houses => ?_
  refine ((evolution_keepsHomes.label right).houses houses).bind fun _ _ _ houses => ?_
  split
  · refine (visits right _ _ _ houses).bind fun _ _ _ houses => ?_
    refine ((keeps.parkUnderPressure _ _ _).houses houses).bind fun _ _ _ houses => ?_
    exact (visits left _ _ _ houses).bind fun _ _ _ houses => ends_pure houses
  · refine (visits left _ _ _ houses).bind fun _ _ _ houses => ?_
    refine ((keeps.parkUnderPressure _ _ _).houses houses).bind fun _ _ _ houses => ?_
    exact (visits right _ _ _ houses).bind fun _ _ _ houses =>
      ends_pure (houses.mono fun id member => by simp only [List.mem_cons] at member ⊢; tauto)

end

/-- A parameter that is referred to has a home. -/
theorem houses_parameter (index : Nat) (houses : work.Houses tree ids) :
    (parameter tree index kind).Ends work
      (fun _ after => after.Houses tree ids ∧ index < after.homeCount)
      (Workspace.Houses tree · []) := by
  have looks := (demanding_keepsHomes tree).onRoutine _ (Routine.evolution_extends.home index)
  simp only [parameter]
  refine (looks.houses houses).bind fun home after done houses => ?_
  cases home with
  | none => exact ends_throw houses.forget
  | some home =>
    refine ends_pure ⟨houses, ?_⟩
    obtain ⟨routine, later, _, looked, rfl⟩ := Build.of_onRoutine done
    obtain ⟨found, rfl⟩ := Routine.home_eq_ok.mp looked
    exact (List.getElem?_eq_some_iff.mp found.symm).1

/-- There are homes for all that the operands need, and for the node if it is a parameter. -/
theorem houses_operation (visits : visit.Houses tree) (node : Node)
    (houses : work.Houses tree ids) :
    (operation tree visit id node.kind hint node.operation).Ends work
      (fun _ after => after.Houses tree (node.operation.operands ++ ids) ∧
        ∀ index, node.operation = .parameter index → index < after.homeCount)
      (Workspace.Houses tree · []) := by
  have keeps := demanding_keepsHomes tree
  cases node.operation with
  | constant bits => exact ends_pure ⟨houses, fun _ => nofun⟩
  | parameter index =>
    refine (houses_parameter index houses).mono (fun _ after result => ?_) fun _ houses => houses
    refine ⟨result.1, ?_⟩
    rintro _ ⟨⟩
    exact result.2
  | arith operation left right =>
    refine (houses_operands visits left right houses).bind fun _ _ _ houses => ?_
    refine ((keeps.materialize _ _ _ _).houses houses).bind fun _ _ _ houses => ?_
    refine ((keeps.write _).houses houses).bind fun _ _ _ houses => ?_
    exact ((keeps.release _).houses houses).bind fun _ _ _ houses =>
      ends_pure ⟨houses, fun _ => nofun⟩
  | call function arguments =>
    refine ((evolution_keepsHomes.lift _).houses houses).bind fun stage _ staged houses => ?_
    have nodes := (Stage.of_ofArguments (Build.lift_eq_ok.mp staged).1).nodes
    refine (houses_emitCall visits stage function id houses).mono (fun _ _ houses => ?_)
      fun _ houses => houses
    exact ⟨nodes ▸ houses, fun _ => nofun⟩

theorem houses_node (visits : visit.Houses tree) : (node tree visit).Houses tree := by
  intro id hint ids work houses
  simp only [node]
  have looks : (Build.lift (tree.node id)).Ends work
      (fun node after => tree.node? id = some node ∧ after = work) (Workspace.Houses tree · []) :=
    ends_lift (fun _ present => ⟨Tree.node_eq_ok.mp present, rfl⟩) houses.forget
  refine looks.bind ?_
  rintro node work _ ⟨found, rfl⟩
  have counts (change : Statistics → Statistics) := (demanding_keepsHomes tree).count change
  refine ((evolution_keepsHomes.label id).houses houses).bind fun _ labeled _ houses =>
    Ends.afterGet ?_
  cases kept : labeled.caches[id]? with
  | some cached =>
    have enough := (houses.kept id cached kept).2
    have housed : labeled.Houses tree (id :: ids) :=
      ⟨houses.kept, List.forall_mem_cons.mpr ⟨enough, houses.others⟩⟩
    exact ((counts _).houses housed).bind fun _ _ _ houses => ends_pure houses
  | none =>
    refine (houses_operation visits node houses).bind fun storage _ _ results => ?_
    obtain ⟨houses, itself⟩ := results
    have enough := Tree.enough_of_operands found itself fun operand member =>
      houses.others operand (List.mem_append_left _ member)
    have housed : Workspace.Houses tree _ (id :: ids) := ⟨houses.kept, List.forall_mem_cons.mpr
      ⟨enough, fun other member => houses.others other (List.mem_append_right _ member)⟩⟩
    refine ((counts _).houses housed).bind fun _ counted _ houses => ?_
    split
    · refine Ends.afterModify (ends_pure ⟨fun other storage kept => ?_, houses.others⟩)
      rcases Workspace.kept_insert.mp kept with ⟨rfl, rfl⟩ | ⟨_, kept⟩
      · exact ⟨Tree.lt_size_of_node found, houses.others _ List.mem_cons_self⟩
      · exact houses.kept other storage kept
    · exact ends_pure houses

/-- Whatever the depth of a node. -/
theorem houses_within (depth : Nat) : (within tree depth).Houses tree := by
  induction depth with
  | zero => exact fun _ _ _ _ houses => ends_throw houses.forget
  | succ depth ih => exact houses_node ih

end Generation

end NativeExpr
