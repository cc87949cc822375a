import NativeExpr.Proofs.Meaning
import NativeExpr.Proofs.Session.Basic

/-!
# Functions that are being generated

The code of a function that is being generated has led, from any state in which the function may be
entered, to one in which its workspace stands and its parameters are where they arrived. This holds
when the function is begun, whatever is asked for keeps it, and so does a tree that grows.
-/

namespace NativeExpr

namespace Tree

/-- A node declares a parameter only if a function may have it. -/
theorem length_inferParameter {parameters others : List Kind} {node : Node}
    (few : parameters.length ≤ Convention.maxArity)
    (inferred : inferParameter parameters node = .ok others) :
    others.length ≤ Convention.maxArity := by
  simp only [inferParameter] at inferred
  split at inferred
  · split at inferred
    · cases inferred
    · rename_i index _ within
      obtain rfl := except_pure_eq_ok.mp inferred
      simp only [declare, List.length_set, List.length_append, List.length_replicate]
      omega
  · exact except_pure_eq_ok.mp inferred ▸ few

theorem length_foldlM_inferParameter {nodes : List Node} {parameters others : List Kind}
    (few : parameters.length ≤ Convention.maxArity)
    (inferred : nodes.foldlM inferParameter parameters = .ok others) :
    others.length ≤ Convention.maxArity := by
  induction nodes generalizing parameters with
  | nil => exact except_pure_eq_ok.mp inferred ▸ few
  | cons node rest ih =>
    rw [List.foldlM_cons] at inferred
    obtain ⟨between, first, inferred⟩ := except_bind_eq_ok.mp inferred
    exact ih (length_inferParameter few first) inferred

/-- A function that is inferred has no more parameters than one may have. -/
theorem length_inferParameters {tree : Tree} {parameters : List Kind}
    (inferred : tree.inferParameters = .ok parameters) :
    parameters.length ≤ Convention.maxArity :=
  length_foldlM_inferParameter (Nat.zero_le _) inferred

/-- Any word may be what a node stands for if the functions that are called do nothing. -/
theorem lawful_of_idle (tree : Tree) (callers : Machine → Prop) :
    tree.Lawful (fun _ machine => machine) callers fun _ _ => True where
  constant _ _ _ _ _ := trivial
  arith _ _ _ _ _ _ _ _ _ _ _ := trivial
  preserves _ _ _ _ _ _ _ _ := ⟨fun _ _ _ _ => rfl, fun _ _ _ _ _ => rfl⟩
  returns _ _ _ _ _ _ _ _ _ _ := trivial

variable {tree : Tree} {natives : Natives} {means : NodeId → Word → Prop}
variable {callers : Machine → Prop}
variable {kind : Kind} {operation : Operation}

/-- What is lawful for a tree that has grown was lawful before. -/
theorem Lawful.before_append (formed : tree.Formed)
    (lawful : (tree.append kind operation).2.Lawful natives callers means) :
    tree.Lawful natives callers means := by
  have kinds {id function : NodeId} {node : Node} {arguments : List NodeId}
      (found : tree.node? id = some node) (here : node.operation = .call function arguments) :
      arguments.map (tree.append kind operation).2.kindOf = arguments.map tree.kindOf :=
    List.map_congr_left fun argument member => by
      have operand : argument ∈ node.operation.operands := here ▸ List.mem_cons_of_mem _ member
      exact kindOf_append _ _ _
        (Nat.lt_trans (formed.operands id node argument found operand) (lt_size_of_node found))
  exact {
    constant := fun id node bits found here => by
      obtain ⟨same, there, _, operates⟩ := node_append_of_node found
      exact lawful.constant id same bits there (operates.trans here)
    arith := fun id node combine left right found here => by
      obtain ⟨same, there, _, operates⟩ := node_append_of_node found
      exact lawful.arith id same combine left right there (operates.trans here)
    preserves := fun id node function arguments found here => by
      obtain ⟨same, there, kind, operates⟩ := node_append_of_node found
      have preserved := lawful.preserves id same function arguments there (operates.trans here)
      rwa [callSignature, kinds found here, kind] at preserved
    returns := fun id node function arguments found here machine calls pointer arrived => by
      obtain ⟨same, there, kind, operates⟩ := node_append_of_node found
      have returned := lawful.returns id same function arguments there (operates.trans here) machine
        calls pointer (kinds found here ▸ arrived)
      rwa [kind] at returned }

/-- What supplies a tree that has grown supplied it before. -/
theorem supplies_before_append {entry : Machine} {parameters : List Kind}
    (supplies : entry.Supplies (tree.append kind operation).2 parameters means) :
    entry.Supplies tree parameters means := by
  intro id node index place found here placed
  obtain ⟨same, there, _, operates⟩ := node_append_of_node found
  exact supplies id same index place there (operates.trans here) placed

end Tree

namespace Workspace

/-- Whether the code of a function has led from its entry to a state in which its workspace stands
in the frame of the function and its parameters are where they arrived. -/
structure Arrived (tree : Tree) (means : NodeId → Word → Prop) (parameters : List Kind)
    (work : Workspace) (routine : Routine) (entry machine : Machine) : Prop where
  standing : work.Standing tree means routine machine
  base : machine.get .rbp = entry.get .rsp - 8
  depth : machine.depth ≤ 56 + 2 ^ 31
  homes : ∀ (index : Nat) (home : Offset), routine.frame.homes[index]? = some home →
    ∃ place, (Convention.places parameters)[index]? = some place ∧
      machine.value (.slot home) = entry.received place

/-- Whether a function of some parameters is being generated while storages are held. -/
structure Generating (options : Options) (tree : Tree) (parameters : List Kind) (work : Workspace)
    (held : List Storage) (routine : Routine) : Prop where
  starts : ∃ started body, Routine.start parameters options.tempSlots = .ok started ∧
    routine.code.toList = started.code.toList ++ body
  lends : work.Lends routine held
  arrived : ∀ (natives : Natives) (means : NodeId → Word → Prop) (entry : Machine),
    tree.Lawful natives (entry.Beneath tree) means → entry.Supplies tree parameters means →
      work.Arrived tree means parameters routine entry
        (entry.after natives routine.code.toList)

variable {options : Options} {tree : Tree} {parameters : List Kind}
variable {natives : Natives} {means : NodeId → Word → Prop} {work after : Workspace}
variable {routine continued started : Routine} {entry machine later : Machine}
variable {held others : List Storage}

/-- Code that leads on from a state leads on from the entry to it. -/
theorem Serves.after_eq
    (serves : Serves tree natives means routine (entry.after natives routine.code.toList) after
      held continued later) : later = entry.after natives continued.code.toList := by
  obtain ⟨instructions, code, rfl⟩ := serves.code
  rw [code, Machine.after_append]

/-- What may be called beneath the return address may be called ahead of where the code has led. -/
theorem Arrived.lawful
    (arrived : Arrived tree means parameters work routine entry machine)
    (lawful : tree.Lawful natives (entry.Beneath tree) means) :
    tree.Lawful natives (machine.Ahead tree) means :=
  lawful.mono fun _ ahead => ahead.beneath arrived.base arrived.depth

namespace Generating

/-- There is a state in which the workspace stands. -/
theorem stands (generating : work.Generating options tree parameters held routine) :
    ∃ machine, work.Standing tree (fun _ _ => True) routine machine :=
  ⟨_, (generating.arrived _ _ ⟨fun _ => 0, fun _ => 0, fun _ => 0⟩ (tree.lawful_of_idle _)
    fun _ _ _ _ _ _ _ => trivial).standing⟩

theorem begun (generating : work.Generating options tree parameters held routine) :
    work.routine = some routine := by
  obtain ⟨machine, standing⟩ := generating.stands
  exact standing.begun

/-- What is served in every state goes on with the function. -/
theorem goesOn (generating : work.Generating options tree parameters held routine)
    (serves : ∀ {natives : Natives} {means : NodeId → Word → Prop} {machine : Machine},
      tree.Lawful natives (machine.Ahead tree) means → work.Standing tree means routine machine →
        ∃ continued later,
          Serves tree natives means routine machine after others continued later) :
    ∃ continued, after.Generating options tree parameters others continued := by
  obtain ⟨machine, standing⟩ := generating.stands
  obtain ⟨continued, later, served⟩ := serves (tree.lawful_of_idle _) standing
  obtain ⟨instructions, code, _⟩ := served.code
  obtain ⟨started, body, starts, first⟩ := generating.starts
  refine ⟨continued, ⟨started, body ++ instructions, starts, ?_⟩, served.lends,
    fun natives means entry lawful supplies => ?_⟩
  · rw [code, first, List.append_assoc]
  · have arrived := generating.arrived natives means entry lawful supplies
    obtain ⟨same, later, serves⟩ := serves (arrived.lawful lawful) arrived.standing
    obtain rfl : same = continued :=
      Option.some.inj (serves.standing.begun.symm.trans served.standing.begun)
    rw [← serves.after_eq]
    have depth : later.depth = Machine.depth _ :=
      congrArg₂ (fun base stack : Word => (base + 16 - stack).toNat) serves.base serves.stack
    refine ⟨serves.standing, serves.base.trans arrived.base, depth.trans_le arrived.depth,
      fun index home found => ?_⟩
    rw [serves.homes] at found
    rw [serves.parameters home (List.mem_of_getElem? found)]
    exact arrived.homes index home found

/-- What a host asks for goes on with the function. -/
theorem serve (generating : work.Generating options tree parameters held routine)
    (formed : tree.Formed) (fits : tree.size ≤ 2 ^ 52)
    (service : Service tree work held after others) :
    ∃ continued, after.Generating options tree parameters others continued :=
  generating.goesOn fun lawful standing =>
    service.serves formed fits lawful standing generating.lends

/-- A node is generated, and the code leads to a state with its value in the result. -/
theorem visit {id : NodeId} {hint : Option Register} {result : Storage}
    (generating : work.Generating options tree parameters held routine) (formed : tree.Formed)
    (fits : tree.size ≤ 2 ^ 52) (done : Generation.visit tree id hint work = .ok result after) :
    ∃ continued, after.Generating options tree parameters (result :: held) continued ∧
      ∀ (natives : Natives) (means : NodeId → Word → Prop) (entry : Machine),
        tree.Lawful natives (entry.Beneath tree) means → entry.Supplies tree parameters means →
          means id ((entry.after natives continued.code.toList).value result.location) := by
  obtain ⟨continued, goesOn⟩ := generating.goesOn fun lawful standing =>
    (standing.serves_visit generating.lends formed fits lawful done).imp
      fun continued ⟨later, serves, _⟩ => ⟨later, serves⟩
  refine ⟨continued, goesOn, fun natives means entry lawful supplies => ?_⟩
  have arrived := generating.arrived natives means entry lawful supplies
  obtain ⟨same, later, serves, holds⟩ := arrived.standing.serves_visit generating.lends formed fits
    (arrived.lawful lawful) done
  obtain rfl : same = continued :=
    Option.some.inj (serves.standing.begun.symm.trans goesOn.begun)
  exact serves.after_eq ▸ holds

/-- What a host has given back goes on with the function. -/
theorem release {storage : Storage}
    (generating : work.Generating options tree parameters (storage :: held) routine)
    (done : Build.release tree storage work = .ok () after) :
    ∃ continued, after.Generating options tree parameters held continued :=
  generating.goesOn fun {natives} _ _ _ standing => by
    obtain ⟨continued, serves⟩ := standing.serves_release natives generating.lends done
    exact ⟨continued, _, serves⟩

/-- A tree may grow while a function is generated: what is kept is of older nodes, and if the new
node is a parameter of the function its value is in a home already. -/
theorem grow (generating : work.Generating options tree parameters held routine)
    (formed : tree.Formed)
    (exist : ∀ (id : NodeId) (storage : Storage), work.caches[id]? = some storage → id < tree.size)
    (kind : Kind) (operation : Operation) :
    work.Generating options (tree.append kind operation).2 parameters held routine where
  starts := generating.starts
  lends := generating.lends
  arrived natives means entry lawful supplies := by
    have smaller : tree.size ≤ (tree.append kind operation).2.size := by
      rw [Tree.size_append]
      exact Nat.le_succ _
    have before : tree.Lawful natives (entry.Beneath tree) means :=
      (lawful.before_append formed).mono fun _ beneath =>
        Machine.Within.mono beneath (by omega)
    obtain ⟨standing, base, depth, homes⟩ := generating.arrived natives means entry before
      (Tree.supplies_before_append supplies)
    refine ⟨{ standing with
      kept := fun id storage cached => ?_
      parameters := fun index home id node found here operates => ?_ }, base, depth, homes⟩
    · rw [Tree.kindOf_append _ _ _ (exist id storage cached)]
      exact standing.kept id storage cached
    · obtain ⟨place, placed, value⟩ := homes index home found
      exact value ▸ supplies id node index place here operates placed

/-- Labels do not matter. -/
theorem withLabels (generating : work.Generating options tree parameters held routine)
    (labels : Std.TreeMap NodeId Nat) :
    ({ work with labels := labels } : Workspace).Generating options tree parameters held
      routine where
  starts := generating.starts
  lends := ⟨generating.lends.used, generating.lends.unsettled, generating.lends.distinct⟩
  arrived natives means entry lawful supplies := by
    obtain ⟨standing, base, depth, homes⟩ := generating.arrived natives means entry lawful supplies
    exact ⟨⟨standing.begun, standing.pool, standing.frame, standing.below, standing.above,
      standing.kept, standing.bank, standing.parameters⟩, base, depth, homes⟩

end Generating

/-- A function that is begun while only constants are kept is one that is being generated. -/
theorem generating_begin (pool : work.pool.Sound) (constants : work.KeepsConstants tree)
    (starts : Routine.start parameters options.tempSlots = .ok started)
    (small : options.tempSlots + parameters.length ≤ 2 ^ 28 - 5) :
    (work.begin started).Generating options tree parameters [] started where
  starts := ⟨started, [], starts, (List.append_nil _).symm⟩
  lends := ⟨fun _ => nofun, fun _ => nofun, .nil⟩
  arrived natives means entry lawful supplies := by
    obtain ⟨prologue, homing, opened, entered⟩ := Routine.entered starts small natives entry
    have code : started.code.toList = prologue ++ homing := by
      rw [opened, Routine.code_append]
      rfl
    have size := (Routine.frame_of_start starts small).2.1
    rw [code]
    refine ⟨entered.standing starts small pool rfl (fun id storage cached => ?_) supplies,
      entered.framed.base, entered.depth.trans_le (Nat.add_le_add_left size 56),
      fun index home found => ?_⟩
    · obtain ⟨node, bits, here, operates, rfl⟩ := constants id storage cached
      exact ⟨(Tree.kindOf_of_node here).symm, bits, rfl,
        lawful.constant id node bits here operates⟩
    · have placed : index < (Convention.places parameters).length := by
        rw [Convention.places, Assigner.length_assignAll,
          ← (Routine.frame_of_start starts small).2.2]
        exact (List.getElem?_eq_some_iff.mp found).1
      have place := List.getElem?_eq_getElem placed
      exact ⟨_, place, entered.homes index home _ found place⟩

end Workspace

end NativeExpr
