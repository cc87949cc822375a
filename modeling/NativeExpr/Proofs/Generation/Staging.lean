import Mathlib.Data.List.Perm.Basic
import NativeExpr.Generation.Staging
import NativeExpr.Proofs.Convention
import NativeExpr.Proofs.Generation.Order
import NativeExpr.Proofs.Generation.Placement
import NativeExpr.Proofs.MoveSchedule.Simultaneous
import NativeExpr.Tree.Value

/-!
# Successful calls

A stage gives the arguments of a call the places of the convention, and evaluating them in the
order of their labels is evaluating them in some order. `of_emitCall` lists what is done for a
call from the first register that is saved to the last one that is restored.
-/

namespace NativeExpr.Stage

/-- Whether a stage holds the arguments of a call with their kinds and places. -/
structure Of (tree : Tree) (arguments : List NodeId) (stage : Stage) : Prop where
  nodes : stage.arguments.map Staged.node = arguments
  kinds : stage.arguments.map Staged.kind = arguments.map tree.kindOf
  places : stage.arguments.map Staged.place = Convention.places (arguments.map tree.kindOf)
  assigner : stage.assigner = Assigner.new.final (arguments.map tree.kindOf)

variable {tree : Tree}

theorem of_add {stage later : Stage} {id : NodeId} (added : add tree stage id = .ok later) :
    later = ⟨(stage.assigner.assign (tree.kindOf id)).2,
      stage.arguments ++ [⟨id, tree.kindOf id, (stage.assigner.assign (tree.kindOf id)).1⟩]⟩ := by
  simp only [add, except_bind_eq_ok, except_pure_eq_ok] at added
  obtain ⟨node, found, rfl⟩ := added
  rw [Tree.kindOf_of_node (Tree.node_eq_ok.mp found)]

theorem of_foldlM_add {stage later : Stage} {arguments : List NodeId}
    (added : arguments.foldlM (add tree) stage = .ok later) :
    later.arguments.map Staged.node = stage.arguments.map Staged.node ++ arguments ∧
    later.arguments.map Staged.kind =
      stage.arguments.map Staged.kind ++ arguments.map tree.kindOf ∧
    later.arguments.map Staged.place = stage.arguments.map Staged.place ++
      stage.assigner.assignAll (arguments.map tree.kindOf) ∧
    later.assigner = stage.assigner.final (arguments.map tree.kindOf) := by
  induction arguments generalizing stage with
  | nil =>
    obtain rfl := except_pure_eq_ok.mp added
    simp [Assigner.assignAll]
  | cons argument rest ih =>
    rw [List.foldlM_cons, except_bind_eq_ok] at added
    obtain ⟨between, first, remaining⟩ := added
    obtain rfl := of_add first
    obtain ⟨nodes, kinds, places, assigner⟩ := ih remaining
    refine ⟨?_, ?_, ?_, ?_⟩
    · rw [nodes]
      simp
    · rw [kinds]
      simp
    · rw [places]
      simp
    · rw [assigner]
      rfl

/-- A stage of arguments holds them with their kinds and places. -/
theorem of_ofArguments {arguments : List NodeId} {stage : Stage}
    (staged : ofArguments tree arguments = .ok stage) : stage.Of tree arguments := by
  obtain ⟨nodes, kinds, places, assigner⟩ := of_foldlM_add staged
  exact ⟨by simpa [new] using nodes, by simpa [new] using kinds,
    by simpa [new, Convention.places] using places,
    assigner⟩

/-- The kind of an argument is that of its node. -/
theorem Of.kind {arguments : List NodeId} {stage : Stage} (of : stage.Of tree arguments)
    {argument : Staged} (member : argument ∈ stage.arguments) :
    argument.kind = tree.kindOf argument.node := by
  have same := of.kinds
  rw [← of.nodes, List.map_map, List.map_inj_left] at same
  exact same argument member

/-- An argument that goes to a register goes to one that may hold a value and that a callee may
overwrite. -/
theorem Of.usable {arguments : List NodeId} {stage : Stage} (of : stage.Of tree arguments)
    {argument : Staged} (member : argument ∈ stage.arguments) {register : Register}
    (place : argument.place = .register register) :
    register.Usable ∧ register ∉ Convention.callTarget :: Convention.calleeSaved := by
  have listed : argument.place ∈ Convention.places (arguments.map tree.kindOf) :=
    of.places ▸ List.mem_map_of_mem member
  rw [place] at listed
  exact Convention.usable_of_mem_places listed

/-- Asking for the labels of arguments changes nothing, and keeps the arguments in order. -/
theorem of_demands {start : Nat} {arguments : List Staged} {before after : Workspace}
    {found : List Demand} (asked : demands tree start arguments before = .ok found after) :
    after = before ∧ found.map Demand.argument = arguments ∧
      found.map Demand.position = List.range' start arguments.length ∧
      ∀ demand ∈ found, demand.label = before.label demand.argument.node := by
  induction arguments generalizing start found before with
  | nil =>
    obtain ⟨rfl, rfl⟩ := estate_pure_eq_ok.mp asked
    simp
  | cons argument rest ih =>
    simp only [demands, estate_bind_eq_ok, estate_pure_eq_ok] at asked
    obtain ⟨label, between, labeled, others, _, remaining, rfl, rfl⟩ := asked
    obtain ⟨labelIs, rfl⟩ := Build.found_of_label labeled
    obtain ⟨rfl, listed, positions, labels⟩ := ih remaining
    refine ⟨rfl, by simp [listed], by simp [positions, List.range'_succ], fun demand member => ?_⟩
    rcases List.mem_cons.mp member with rfl | member
    · simp [Workspace.label, labelIs]
    · exact labels demand member

theorem perm_insertDemand (demand : Demand) (demands : List Demand) :
    (insertDemand demand demands).Perm (demand :: demands) := by
  induction demands with
  | nil => exact .refl _
  | cons next rest ih =>
    rw [insertDemand]
    split
    · exact .refl _
    · exact (ih.cons next).trans (.swap demand next rest)

/-- The order of evaluation is an order of the same arguments. -/
theorem perm_heaviestFirst (demands : List Demand) : (heaviestFirst demands).Perm demands := by
  induction demands with
  | nil => exact .refl _
  | cons demand rest ih => exact (perm_insertDemand demand _).trans (ih.cons demand)

/-- Arguments are ordered like their nodes. -/
theorem map_insertDemand {label : NodeId → Nat} {demand : Demand} {demands : List Demand}
    (here : demand.label = label demand.argument.node)
    (labels : ∀ other ∈ demands, other.label = label other.argument.node) :
    (insertDemand demand demands).map (fun each => each.argument.node) =
      Generation.insertOperand label demand.argument.node
        (demands.map fun each => each.argument.node) := by
  induction demands with
  | nil => rfl
  | cons next rest ih =>
    rw [insertDemand, List.map_cons, Generation.insertOperand, here,
      labels next List.mem_cons_self]
    split
    · rfl
    · rw [List.map_cons, ih fun other member => labels other (List.mem_cons_of_mem _ member)]

theorem map_heaviestFirst {label : NodeId → Nat} {demands : List Demand}
    (labels : ∀ demand ∈ demands, demand.label = label demand.argument.node) :
    (heaviestFirst demands).map (fun each => each.argument.node) =
      Generation.heaviestFirst label (demands.map fun each => each.argument.node) := by
  induction demands with
  | nil => rfl
  | cons demand rest ih =>
    have others : ∀ other ∈ rest, other.label = label other.argument.node :=
      fun other member => labels other (List.mem_cons_of_mem _ member)
    rw [heaviestFirst, map_insertDemand (labels demand List.mem_cons_self), ih others]
    · rfl
    · intro other member
      exact others other ((perm_heaviestFirst rest).mem_iff.mp member)

variable {before after : Workspace} {routine : Routine}

theorem of_liveCallerSaved {live : RegisterSet}
    (asked : liveCallerSaved before = .ok live after) :
    live = before.pool.live.inter Convention.callerSaved ∧ after = before := by
  simp only [liveCallerSaved, estate_bind_eq_ok, estate_get_eq_ok, estate_pure_eq_ok] at asked
  obtain ⟨_, _, ⟨rfl, rfl⟩, rfl, rfl⟩ := asked
  exact ⟨rfl, rfl⟩

/-- An argument is evaluated and parked if registers are short, and then the others are. -/
theorem of_evaluateInOrder_cons {visit : Visit} {demand : Demand} {rest : List Demand}
    {values : List (Nat × Storage)}
    (done : evaluateInOrder tree visit (demand :: rest) before = .ok values after) :
    ∃ value visited settled parked others,
      visit demand.argument.node demand.argument.place.register? before = .ok value visited ∧
      ((settled = value ∧ parked = visited) ∨
        Build.park tree value visited = .ok settled parked) ∧
      evaluateInOrder tree visit rest parked = .ok others after ∧
      values = (demand.position, settled) :: others := by
  simp only [evaluateInOrder, estate_bind_eq_ok] at done
  obtain ⟨value, visited, first, done⟩ := done
  cases rest with
  | nil =>
    simp only [estate_bind_eq_ok, estate_pure_eq_ok] at done
    obtain ⟨_, _, ⟨rfl, rfl⟩, others, _, remaining, rfl, rfl⟩ := done
    exact ⟨value, visited, value, visited, others, first, .inl ⟨rfl, rfl⟩, remaining, rfl⟩
  | cons next later =>
    simp only [estate_bind_eq_ok, estate_pure_eq_ok] at done
    obtain ⟨settled, parked, parking, others, _, remaining, rfl, rfl⟩ := done
    exact ⟨value, visited, settled, parked, others, first, Build.of_parkUnderPressure parking,
      remaining, rfl⟩

/-- Evaluated arguments are listed with their positions. -/
theorem exists_evaluated {visit : Visit} {demands : List Demand} {found : List (Nat × Storage)}
    (done : evaluateInOrder tree visit demands before = .ok found after) :
    ∃ evaluated : List (Demand × Storage), evaluated.map Prod.fst = demands ∧
      found = evaluated.map fun each => (each.1.position, each.2) := by
  induction demands generalizing before found with
  | nil =>
    obtain ⟨rfl, rfl⟩ := estate_pure_eq_ok.mp done
    exact ⟨[], rfl, rfl⟩
  | cons demand rest ih =>
    obtain ⟨_, _, settled, _, others, _, _, remaining, rfl⟩ := of_evaluateInOrder_cons done
    obtain ⟨evaluated, rfl, rfl⟩ := ih remaining
    exact ⟨(demand, settled) :: evaluated, rfl, rfl⟩

theorem lookup_of_mem {β : Type} {pairs : List (Nat × β)} (distinct : (pairs.map Prod.fst).Nodup)
    {key : Nat} {value : β} (member : (key, value) ∈ pairs) : pairs.lookup key = some value := by
  induction pairs with
  | nil => exact (List.not_mem_nil member).elim
  | cons pair rest ih =>
    rw [List.map_cons, List.nodup_cons] at distinct
    rcases List.mem_cons.mp member with rfl | member
    · exact List.lookup_cons_self
    · have other : (key == pair.1) = false := by
        rw [beq_eq_false_iff_ne]
        rintro rfl
        exact distinct.1 (List.mem_map.mpr ⟨(pair.1, value), member, rfl⟩)
      rw [List.lookup_cons, other]
      exact ih distinct.2 member

/-- What arguments have in the order of evaluation is listed in the order of positions, whatever
part of it is asked for. -/
theorem settle_map {β : Type} {listed : List Demand} {evaluated : List (Demand × β)}
    (positions : listed.map Demand.position = List.range listed.length)
    (demands : evaluated.map Prod.fst = heaviestFirst listed) :
    ∃ settled : List (Demand × β), settled.Perm evaluated ∧ settled.map Prod.fst = listed ∧
      ∀ value : β → Storage, (List.range listed.length).filterMap (fun position =>
        (evaluated.map fun each => (each.1.position, value each.2)).lookup position) =
          settled.map fun each => value each.2 := by
  have same : listed.Perm (evaluated.map Prod.fst) := demands ▸ (perm_heaviestFirst listed).symm
  obtain ⟨settled, rfl, reordered⟩ :=
    (congrFun₂ (List.eq_map_comp_perm Prod.fst) listed evaluated).mpr same
  refine ⟨settled, reordered, rfl, fun value => ?_⟩
  rw [List.map_map] at positions
  have distinct :
      ((evaluated.map fun each => (each.1.position, value each.2)).map Prod.fst).Nodup := by
    rw [List.map_map]
    apply ((reordered.map _).nodup_iff).mp
    exact positions ▸ List.nodup_range
  have lookups : ∀ pair ∈ settled,
      (evaluated.map fun each => (each.1.position, value each.2)).lookup pair.1.position =
        some (value pair.2) := by
    intro pair member
    apply lookup_of_mem distinct
    exact List.mem_map.mpr ⟨pair, reordered.mem_iff.mp member, rfl⟩
  calc (List.range (settled.map Prod.fst).length).filterMap _
      = settled.filterMap fun each =>
          (evaluated.map fun each => (each.1.position, value each.2)).lookup each.1.position := by
        rw [← positions, List.filterMap_map]
        rfl
    _ = settled.filterMap (some ∘ fun each => value each.2) := List.filterMap_congr lookups
    _ = settled.map fun each => value each.2 := by rw [List.filterMap_eq_map]

/-- Values that arguments have in the order of evaluation are listed in the order of positions. -/
theorem settle {listed : List Demand} {evaluated : List (Demand × Storage)}
    (positions : listed.map Demand.position = List.range listed.length)
    (demands : evaluated.map Prod.fst = heaviestFirst listed) :
    ∃ settled : List (Demand × Storage), settled.Perm evaluated ∧ settled.map Prod.fst = listed ∧
      (List.range listed.length).filterMap (fun position =>
        (evaluated.map fun each => (each.1.position, each.2)).lookup position) =
          settled.map Prod.snd := by
  obtain ⟨settled, reordered, same, values⟩ := settle_map positions demands
  exact ⟨settled, reordered, same, values id⟩

/-- Evaluating the arguments is evaluating them in some order, and their values are given in the
order of their positions. -/
theorem of_evaluate {visit : Visit} {stage : Stage} {values : List Storage}
    (done : stage.evaluate tree visit before = .ok values after) :
    ∃ ordered found,
      ordered.map (fun demand => demand.argument.node) =
        Generation.heaviestFirst before.label (stage.arguments.map Staged.node) ∧
      evaluateInOrder tree visit ordered before = .ok found after ∧
      ∀ evaluated : List (Demand × Storage), evaluated.map Prod.fst = ordered →
        found = evaluated.map (fun each => (each.1.position, each.2)) →
        ∃ settled : List (Demand × Storage), settled.Perm evaluated ∧
          settled.map (fun each => each.1.argument) = stage.arguments ∧
          settled.map Prod.snd = values := by
  simp only [evaluate, estate_bind_eq_ok, estate_pure_eq_ok] at done
  obtain ⟨listed, _, asked, found, _, evaluated, rfl, rfl⟩ := done
  obtain ⟨rfl, arguments, positions, labels⟩ := of_demands asked
  have count : stage.arguments.length = listed.length := by rw [← arguments, List.length_map]
  refine ⟨_, found, ?_, evaluated, fun each demands pairs => ?_⟩
  · rw [map_heaviestFirst labels, ← arguments, List.map_map]
    rfl
  rw [count, ← List.range_eq_range'] at positions
  obtain ⟨settled, reordered, rfl, values⟩ := settle positions demands
  refine ⟨settled, reordered, ?_, ?_⟩
  · rw [← arguments, List.map_map]
    rfl
  · rw [count, pairs, values]

/-- Every argument has its value at its position. -/
theorem exists_settled {visit : Visit} {stage : Stage} {values : List Storage}
    (done : stage.evaluate tree visit before = .ok values after) :
    ∃ settled : List (Staged × Storage), settled.map Prod.fst = stage.arguments ∧
      settled.map Prod.snd = values := by
  obtain ⟨_, _, _, evaluating, settle⟩ := of_evaluate done
  obtain ⟨evaluated, demands, pairs⟩ := exists_evaluated evaluating
  obtain ⟨settled, _, arguments, rfl⟩ := settle evaluated demands pairs
  refine ⟨settled.map fun each => (each.1.argument, each.2), ?_, ?_⟩
  · rw [List.map_map]
    exact arguments
  · rw [List.map_map]
    rfl

/-- Arguments that are ordered like some nodes are among these nodes. -/
theorem node_mem_of_ordered {label : NodeId → Nat} {ordered : List Demand} {nodes : List NodeId}
    (same : ordered.map (fun demand => demand.argument.node) = Generation.heaviestFirst label nodes)
    {demand : Demand} (member : demand ∈ ordered) : demand.argument.node ∈ nodes := by
  rw [← (Generation.perm_heaviestFirst label nodes).mem_iff, ← same]
  exact List.mem_map_of_mem member

/-- The moves of a call: every argument to its place and the function to its register. -/
def moves (stage : Stage) (values : List Storage) (target : Storage) : List Move :=
  (stage.arguments.zip values).map (fun (argument, value) =>
    (⟨argument.place, value.location⟩ : Move)) ++
    [⟨.register Convention.callTarget, target.location⟩]

/-- The bytes by which the stack pointer is lowered for a call. -/
def lowered (stage : Stage) (routine : Routine) : BitVec 32 :=
  stage.stackSize + routine.callPadding stage.stackSize

/-! Registers are saved and restored, and locations given back, one after the other. -/

theorem save_eq_forM (tree : Tree) (registers : List Register) :
    save tree registers = registers.forM fun register =>
      Build.onRoutine tree (Routine.save register) := by
  induction registers with
  | nil => rfl
  | cons register rest ih => rw [save, ih]; rfl

theorem restore_eq_forM (tree : Tree) (registers : List Register) :
    restore tree registers = registers.forM fun register =>
      Build.onRoutine tree (Routine.restore register) := by
  induction registers with
  | nil => rfl
  | cons register rest ih => rw [restore, ih]; rfl

theorem releaseAll_eq_forM (tree : Tree) (storages : List Storage) :
    releaseAll tree storages = storages.forM (Build.release tree) := by
  induction storages with
  | nil => rfl
  | cons storage rest ih => rw [releaseAll, ih]; rfl

/-- Saving registers pushes them one after the other. -/
theorem of_save {registers : List Register} {value : Unit} (begun : before.routine = some routine)
    (done : save tree registers before = .ok value after) :
    ∃ instructions, Straight instructions ∧
      after = { before with routine := some { routine.append instructions with
        pushed := routine.pushed + BitVec.ofNat 32 (8 * registers.length) } } ∧
      (∀ natives (machine : Machine), machine.after natives instructions =
        Request.effects natives machine (registers.map .push)) ∧
      ∀ natives allowed (machine : Machine),
        Request.Writes natives allowed machine (registers.map .push) →
          machine.Writes natives allowed instructions := by
  induction registers generalizing before routine with
  | nil =>
    obtain ⟨_, rfl⟩ := estate_pure_eq_ok.mp done
    exact ⟨[], straight_nil, by simp [Routine.append, ← begun], fun _ _ => rfl,
      fun _ _ _ _ => trivial⟩
  | cons register rest ih =>
    simp only [save, estate_bind_eq_ok] at done
    obtain ⟨_, between, first, remaining⟩ := done
    obtain ⟨later, stepped, rfl⟩ := (Build.onRoutine_eq_ok begun).mp first
    obtain ⟨here, straight, rfl, effect, writes⟩ := Routine.of_save stepped
    obtain ⟨others, restStraight, rfl, restEffect, restWrites⟩ := ih rfl remaining
    refine ⟨here ++ others, straight.append restStraight, ?_, fun natives machine => ?_,
      fun natives allowed machine requested => ?_⟩
    · have count : routine.pushed + 8 + BitVec.ofNat 32 (8 * rest.length) =
          routine.pushed + BitVec.ofNat 32 (8 * (register :: rest).length) := by
        rw [BitVec.add_assoc, List.length_cons, Nat.mul_succ, Nat.add_comm, BitVec.ofNat_add]
        rfl
      rw [← count, ← Routine.append_append]
      rfl
    · rw [Machine.after_append, effect, restEffect]
      rfl
    · rw [Machine.writes_append, effect]
      exact ⟨writes natives allowed machine (requested.1 _ rfl),
        restWrites natives allowed _ requested.2⟩

/-- Restoring registers pops them one after the other. -/
theorem of_restore {registers : List Register} {value : Unit}
    (begun : before.routine = some routine)
    (done : restore tree registers before = .ok value after) :
    ∃ instructions, Straight instructions ∧
      after = { before with routine := some { routine.append instructions with
        pushed := routine.pushed - BitVec.ofNat 32 (8 * registers.length) } } ∧
      (∀ natives (machine : Machine), machine.after natives instructions =
        Request.effects natives machine (registers.map .pop)) ∧
      Quiet instructions := by
  induction registers generalizing before routine with
  | nil =>
    obtain ⟨_, rfl⟩ := estate_pure_eq_ok.mp done
    exact ⟨[], straight_nil, by simp [Routine.append, ← begun], fun _ _ => rfl, quiet_nil⟩
  | cons register rest ih =>
    simp only [restore, estate_bind_eq_ok] at done
    obtain ⟨_, between, first, remaining⟩ := done
    obtain ⟨later, stepped, rfl⟩ := (Build.onRoutine_eq_ok begun).mp first
    obtain ⟨here, straight, rfl, effect, quiet⟩ := Routine.of_restore stepped
    obtain ⟨others, restStraight, rfl, restEffect, restQuiet⟩ := ih rfl remaining
    refine ⟨here ++ others, straight.append restStraight, ?_, fun natives machine => ?_,
      quiet.append restQuiet⟩
    · have count : routine.pushed - 8 - BitVec.ofNat 32 (8 * rest.length) =
          routine.pushed - BitVec.ofNat 32 (8 * (register :: rest).length) := by
        rw [BitVec.sub_sub, List.length_cons, Nat.mul_succ, Nat.add_comm (8 * rest.length),
          BitVec.ofNat_add]
        rfl
      rw [← count, ← Routine.append_append]
      rfl
    · rw [Machine.after_append, effect, restEffect]
      rfl

/-- A call reserves its outgoing area, moves the arguments, calls and gives the area up. -/
theorem of_callThrough {stage : Stage} {moves : List Move} {value : Unit}
    (begun : before.routine = some routine)
    (done : stage.callThrough tree moves before = .ok value after) :
    ∃ reserved moved called later,
      Routine.reserve (stage.lowered routine) routine = .ok () reserved ∧
      Routine.write (MoveSchedule.ofMoves moves).requests reserved = .ok () moved ∧
      Routine.write [.call Convention.callTarget] moved = .ok () called ∧
      Routine.giveUp (stage.lowered routine) called = .ok () later ∧
      after = { before with routine := some later } := by
  obtain ⟨later, stepped, rfl⟩ := (Build.onRoutine_eq_ok begun).mp done
  simp only [estate_bind_eq_ok, estate_get_eq_ok] at stepped
  obtain ⟨_, _, ⟨rfl, rfl⟩, _, reserved, first, _, moved, second, _, called, third, fourth⟩ :=
    stepped
  exact ⟨reserved, moved, called, later, first, second, third, fourth, rfl⟩

/-- The state in which a function is called: below the outgoing area, with the arguments in their
places. -/
def calling (natives : Natives) (bytes : BitVec 32) (moves : List Move) (machine : Machine) :
    Machine :=
  Request.effects natives (machine.set .rsp (machine.get .rsp - bytes.signExtend 64))
    (MoveSchedule.ofMoves moves).requests

/-- The instructions of a call, what they do and what they write. The function is called in one
state only. -/
theorem effect_of_callThrough {stage : Stage} {moves : List Move} {value : Unit}
    (begun : before.routine = some routine)
    (done : stage.callThrough tree moves before = .ok value after) :
    ∃ instructions, Instruction.ret ∉ instructions ∧
      after = { before with routine := some (routine.append instructions) } ∧
      ∀ natives (machine : Machine),
        let state := calling natives (stage.lowered routine) moves machine
        let returned := natives (state.get Convention.callTarget) state
        machine.after natives instructions =
            returned.set .rsp (returned.get .rsp + (stage.lowered routine).signExtend 64) ∧
          machine.calls natives instructions = [state] ∧
          ∀ allowed,
            Request.Writes natives allowed
              (machine.set .rsp (machine.get .rsp - (stage.lowered routine).signExtend 64))
              (MoveSchedule.ofMoves moves).requests →
            allowed (state.get .rsp - 8) → machine.Writes natives allowed instructions := by
  obtain ⟨reserved, moved, called, later, reserving, moving, calling, giving, rfl⟩ :=
    of_callThrough begun done
  obtain ⟨reserve, reserveStraight, rfl, reserveEffect, reserveQuiet⟩ :=
    Routine.of_reserve reserving
  obtain ⟨move, moveGranted, rfl⟩ := Routine.write_eq_ok.mp moving
  obtain ⟨call, callGranted, rfl⟩ := Routine.write_eq_ok.mp calling
  obtain ⟨give, giveStraight, rfl, giveEffect, giveQuiet⟩ := Routine.of_giveUp giving
  have moveStraight := straight_of_assemble moveGranted (MoveSchedule.plain_ofMoves moves)
  obtain rfl : [Instruction.call 0] = call := congrArg Assembly.instructions callGranted
  have noReturn : Instruction.ret ∉ [Instruction.call 0] := by decide
  refine ⟨reserve ++ move ++ [.call 0] ++ give, ?_, ?_, fun natives machine => ?_⟩
  · simp only [List.mem_append, not_or]
    exact ⟨⟨⟨reserveStraight.ret, moveStraight.ret⟩, noReturn⟩, giveStraight.ret⟩
  · rw [← Routine.append_append, ← Routine.append_append, ← Routine.append_append]
    have balanced : routine.pushed + stage.lowered routine - stage.lowered routine =
        routine.pushed := BitVec.add_sub_cancel _ _
    simp only [Routine.append, balanced]
  · intro state returned
    have reached : (machine.after natives reserve).after natives move = state := by
      rw [after_of_assemble natives _ moveGranted, reserveEffect]
      rfl
    refine ⟨?_, ?_, fun allowed moved top => ?_⟩
    · rw [Machine.after_append, Machine.after_append, Machine.after_append, giveEffect, reached]
      rfl
    · rw [Machine.calls_append, Machine.calls_append, Machine.calls_append,
        reserveStraight.calls, moveStraight.calls, giveStraight.calls, Machine.after_append, reached]
      rfl
    · simp only [Machine.writes_append, Machine.after_append]
      refine ⟨⟨⟨reserveQuiet.writes .., ?_⟩, ?_⟩, giveQuiet.writes ..⟩
      · rw [reserveEffect]
        exact writes_of_assemble moveGranted moved
      · rw [reached]
        refine ⟨fun place target => ?_, trivial⟩
        obtain rfl := Option.some.inj target
        exact top

/-- A result is captured in a register that was free or in the first free slot. -/
theorem of_capture {call : NodeId} {kind : Kind} {hint : Option Register} {result : Storage}
    (begun : before.routine = some routine)
    (done : capture tree call kind hint before = .ok result after) :
    (∃ register instructions, register.bank = kind.bank ∧
      before.pool.allocatable.contains register ∧ ¬before.pool.live.contains register ∧
      assemble (Transfer.intoRegister register
        (.register (Convention.resultRegister kind.bank))) = ⟨instructions, none⟩ ∧
      result = .own (.register register) kind ∧
      after = { before with
        routine := some (routine.append instructions)
        pool := before.pool.assign register (some call) }) ∨
    (∃ offset rest instructions, routine.frame.free = offset :: rest ∧
      assemble [.store .rbp offset (Convention.resultRegister kind.bank)] = ⟨instructions, none⟩ ∧
      result = .own (.slot offset) kind ∧
      after = { before with
        routine := some (({ routine with frame := { routine.frame with free := rest } } :
          Routine).append instructions) }) := by
  simp only [capture, estate_bind_eq_ok, estate_get_eq_ok] at done
  obtain ⟨_, _, ⟨rfl, rfl⟩, found, between, tried, done⟩ := done
  rcases Build.of_tryRegister tried with ⟨rfl, rfl⟩ | ⟨register, rfl, own, allowed, free, rfl⟩
  · simp only [estate_bind_eq_ok] at done
    obtain ⟨slot, between, allocated, done⟩ := done
    rcases Build.of_allocateSlot begun allocated with ⟨rfl, rfl⟩ | ⟨offset, rest, rfl, free, rfl⟩
    · exact absurd done estate_throw_ne_ok
    · simp only [estate_bind_eq_ok, estate_pure_eq_ok] at done
      obtain ⟨_, _, spilled, rfl, rfl⟩ := done
      obtain ⟨instructions, granted, rfl⟩ := Build.of_write rfl spilled
      exact .inr ⟨offset, rest, instructions, free, granted, rfl, rfl⟩
  · simp only [estate_bind_eq_ok, estate_pure_eq_ok] at done
    obtain ⟨_, _, fetched, rfl, rfl⟩ := done
    have standing : Workspace.routine { before with
        pool := before.pool.assign register (some call) } = some routine := begun
    obtain ⟨instructions, granted, rfl⟩ := Build.of_write standing fetched
    exact .inl ⟨register, instructions, own, allowed, free, granted, rfl, rfl⟩

/-- The registers that are live and that a callee may overwrite. -/
def exposed (work : Workspace) : RegisterSet := work.pool.live.inter Convention.callerSaved

theorem liveCallerSaved_ok (work : Workspace) : liveCallerSaved work = .ok (exposed work) work := rfl

/-- A call saves the registers that are live, evaluates its arguments and its function, gives
their locations back, saves what shared values have taken up in the meantime, calls, captures
the result and restores what it saved. -/
theorem of_emitCall {visit : Visit} {stage : Stage} {function call : NodeId} {kind : Kind}
    {hint : Option Register} {result : Storage}
    (done : stage.emitCall tree visit function call kind hint before = .ok result after) :
    ∃ early late values target entered evaluated pointed released guarded called captured restored,
      early = (exposed before).toList ∧
      save tree early before = .ok () entered ∧
      stage.evaluate tree visit entered = .ok values evaluated ∧
      visit function (some Convention.callTarget) evaluated = .ok target pointed ∧
      releaseAll tree (values ++ [target]) pointed = .ok () released ∧
      late = ((exposed released).diff (.ofList early)).toList ∧
      save tree late released = .ok () guarded ∧
      stage.callThrough tree (stage.moves values target) guarded = .ok () called ∧
      capture tree call kind hint called = .ok result captured ∧
      restore tree (early ++ late).reverse captured = .ok () restored ∧
      after = { restored with statistics := after.statistics } ∧
      after.statistics = { restored.statistics with
        callsEmitted := restored.statistics.callsEmitted + 1
        registersSaved := restored.statistics.registersSaved + (early ++ late).length } := by
  simp only [emitCall, estate_bind_eq_ok, estate_pure_eq_ok, Build.count_eq_ok] at done
  obtain ⟨_, _, live, _, entered, saved, values, evaluated, evaluation, target, pointed, visited,
    _, released, gaveBack, _, _, liveLate, _, guarded, savedLate, _, called, through, _, captured,
    capturing, _, restored, restoring, _, _, rfl, rfl, rfl⟩ := done
  obtain ⟨rfl, rfl⟩ := of_liveCallerSaved live
  obtain ⟨rfl, rfl⟩ := of_liveCallerSaved liveLate
  exact ⟨_, _, values, target, entered, evaluated, pointed, _, guarded, called, captured, restored,
    rfl, saved, evaluation, visited, gaveBack, rfl, savedLate, through, capturing, restoring, rfl,
    rfl⟩

end NativeExpr.Stage
