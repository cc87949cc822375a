import NativeExpr.Proofs.Session.Generating

/-!
# What is kept in a session

`session_values` follows a host through everything that it asks for: whenever a node is generated,
the code of the function that is being generated leaves the value of the node in the location that
is returned, as long as no function is begun while values of another one are kept. A compilation
keeps its values when it ends, so the condition can fail, and `session_values_stale` shows what
becomes of the value of a node then.
-/

namespace NativeExpr

variable {options : Options} {tree : Tree} {work after : Workspace} {held : List Storage}

/-- A compilation that succeeds leaves no function, and keeps values of nodes that exist. -/
theorem leaves_of_compile {signature : Signature} {root : NodeId} {compiled : Compiled}
    (formed : tree.Formed) (fits : tree.size ≤ 2 ^ 52) (configured : work.Configured)
    (small : work.options.tempSlots + signature.parameters.length ≤ 2 ^ 28 - 5)
    (done : compile tree signature root work = .ok compiled after) :
    after.routine = none ∧ after.pool.Sound ∧
      ∀ (id : NodeId) (storage : Storage), after.caches[id]? = some storage → id < tree.size := by
  obtain ⟨labels, started, result, generated, released, _, _, starting, generating, releasing,
    finishing⟩ := of_compile done
  let empty : Workspace := { work.reset with labels := labels }
  have constants : empty.KeepsConstants tree := fun id storage cached => by
    simp [empty, Workspace.reset] at cached
  have begun : (empty.begin started).Generating work.options tree signature.parameters [] started :=
    Workspace.generating_begin configured.sound_reset constants starting small
  obtain ⟨middle, generates, _⟩ := begun.visit formed fits generating
  obtain ⟨final, gaveBack⟩ := generates.release releasing
  obtain ⟨machine, standing⟩ := gaveBack.stands
  obtain ⟨_, _, same⟩ := Compilation.of_finish standing.begun finishing
  rw [same]
  refine ⟨rfl, standing.pool, fun id storage cached => ?_⟩
  have kept := (Build.exchanges_of_release [] releasing).cached_of_unasked cached
  have exchanges := Generation.exchanges_within formed.layered _ _ _ _ _ _ generating
  refine (exchanges.cached_or_lt kept).resolve_left fun earlier => ?_
  simp [Workspace.reset] at earlier

/-- What is true of a workspace in a session. Where no function is being generated and only
constants are kept, any function may be begun. -/
structure Workspace.InSession (options : Options) (tree : Tree) (work : Workspace)
    (held : List Storage) : Prop where
  exist : ∀ (id : NodeId) (storage : Storage), work.caches[id]? = some storage → id < tree.size
  begun : ∀ routine, work.routine = some routine → ∃ parameters : List Kind,
    parameters.length ≤ Convention.maxArity ∧
      work.Generating options tree parameters held routine
  unbegun : work.routine = none → work.KeepsConstants tree →
    ∀ (parameters : List Kind) (started : Routine), parameters.length ≤ Convention.maxArity →
      Routine.start parameters options.tempSlots = .ok started →
        (work.begin started).Generating options tree parameters held started

namespace Workspace.InSession

/-- A tree may grow. -/
theorem grow (inSession : work.InSession options tree held) (formed : tree.Formed) (kind : Kind)
    (operation : Operation) :
    work.InSession options (tree.append kind operation).2 held where
  exist id storage cached := by
    rw [Tree.size_append]
    exact Nat.lt_succ_of_lt (inSession.exist id storage cached)
  begun routine being := by
    obtain ⟨parameters, few, generating⟩ := inSession.begun routine being
    exact ⟨parameters, few, generating.grow formed inSession.exist kind operation⟩
  unbegun none constants parameters started few starts := by
    have before : work.KeepsConstants tree := fun id storage cached => by
      obtain ⟨node, bits, found, operates, same⟩ := constants id storage cached
      rcases Tree.of_node_append found with ⟨rfl, _⟩ | ⟨old, here, kinds, operations⟩
      · exact absurd (inSession.exist _ storage cached) (Nat.lt_irrefl _)
      · exact ⟨old, bits, here, operations.trans operates, kinds ▸ same⟩
    exact (inSession.unbegun none before parameters started few starts).grow formed
      inSession.exist kind operation

/-- Labels do not matter. -/
theorem withLabels (inSession : work.InSession options tree held)
    (labels : Std.TreeMap NodeId Nat) :
    ({ work with labels := labels } : Workspace).InSession options tree held where
  exist := inSession.exist
  begun routine being := by
    obtain ⟨parameters, few, generating⟩ := inSession.begun routine being
    exact ⟨parameters, few, generating.withLabels labels⟩
  unbegun none constants parameters started few starts :=
    (inSession.unbegun none constants parameters started few starts).withLabels labels

/-- A function is being generated. -/
theorem of_generating {parameters : List Kind} {routine : Routine}
    (exist : ∀ (id : NodeId) (storage : Storage), work.caches[id]? = some storage → id < tree.size)
    (few : parameters.length ≤ Convention.maxArity)
    (generating : work.Generating options tree parameters held routine) :
    work.InSession options tree held where
  exist := exist
  begun other there := by
    obtain rfl := Option.some.inj (generating.begun.symm.trans there)
    exact ⟨parameters, few, generating⟩
  unbegun none := absurd (generating.begun.symm.trans none) nofun

/-- Where there is no function and nothing is held, any function may be begun. -/
theorem of_sound (none : work.routine = none) (pool : work.pool.Sound)
    (small : options.tempSlots + Convention.maxArity ≤ 2 ^ 28 - 5)
    (exist : ∀ (id : NodeId) (storage : Storage), work.caches[id]? = some storage →
      id < tree.size) : work.InSession options tree [] where
  exist := exist
  begun _ being := absurd (none.symm.trans being) nofun
  unbegun _ constants _ _ few starts :=
    generating_begin pool constants starts ((Nat.add_le_add_left few _).trans small)

/-- What a host asks for may be the first that needs a function: then one is begun, and what
follows is as if it had been begun before. -/
theorem serve {others : List Storage} (inSession : work.InSession options tree held)
    (formed : tree.Formed) (fits : tree.size ≤ 2 ^ 52) (same : work.options = options)
    (fresh : work.routine = none → work.KeepsConstants tree)
    (service : Service tree work held after others) :
    after.InSession options tree others := by
  have exist (id : NodeId) (storage : Storage) (cached : after.caches[id]? = some storage) :
      id < tree.size :=
    (service.kept formed cached).elim (inSession.exist id storage) fun older => older
  cases being : work.routine with
  | some routine =>
    obtain ⟨parameters, few, generating⟩ := inSession.begun routine being
    obtain ⟨continued, goesOn⟩ := generating.serve formed fits service
    exact .of_generating exist few goesOn
  | none =>
    -- Either there still is no function, and any may be begun, or the one that is inferred is.
    rcases service.beginsLate being with
      ⟨none, _, begins⟩ | ⟨started, ⟨_, parameters, inferred, starts⟩, begins⟩
    · refine ⟨exist, fun later there => absurd (none.symm.trans there) nofun,
        fun _ _ parameters started few starts => ?_⟩
      have generating := inSession.unbegun being (fresh being) parameters started few starts
      obtain ⟨continued, goesOn⟩ := generating.serve formed fits (begins started)
      obtain rfl : started = continued := Option.some.inj goesOn.begun
      exact goesOn
    · have few := Tree.length_inferParameters inferred
      have generating := inSession.unbegun being (fresh being) parameters started few
        (same ▸ starts)
      obtain ⟨continued, goesOn⟩ := generating.serve formed fits begins
      exact .of_generating exist few goesOn

/-- A node is generated as it would be in the function that is written to, had it been begun
before. -/
theorem generated {id : NodeId} {result : Storage} {routine : Routine}
    (inSession : work.InSession options tree held) (formed : tree.Formed)
    (fits : tree.size ≤ 2 ^ 52) (same : work.options = options)
    (fresh : work.routine = none → work.KeepsConstants tree)
    (done : Generation.value tree id work = .ok result after)
    (writes : after.Writes tree routine) :
    ∃ begun parameters before later,
      begun.Generating options tree parameters held before ∧
      Generation.value tree id begun = .ok result later ∧ later.routine = some routine ∧
      later.caches = after.caches := by
  cases being : work.routine with
  | some before =>
    obtain ⟨parameters, _, generating⟩ := inSession.begun before being
    obtain ⟨continued, goesOn, _⟩ := generating.visit formed fits done
    obtain rfl := writes.eq_of_begun goesOn.begun
    exact ⟨work, parameters, before, after, generating, done, goesOn.begun, rfl⟩
  | none =>
    have begins {parameters : List Kind} {started : Routine}
        (inferred : tree.inferParameters = .ok parameters)
        (starts : Routine.start parameters work.options.tempSlots = .ok started) :
        (work.begin started).Generating options tree parameters held started :=
      inSession.unbegun being (fresh being) parameters started
        (Tree.length_inferParameters inferred) (same ▸ starts)
    have late := (Build.demanding_beginsLate tree).generative.generates tree.size id trivial none
    rcases late work being result after done with
      ⟨still, unchanged, begun⟩ | ⟨started, ⟨_, parameters, inferred, starts⟩, begun⟩
    · rcases writes with written | ⟨_, parameters, inferred, starts⟩
      · exact absurd (still.symm.trans written) nofun
      · exact ⟨_, parameters, routine, _, begins inferred (unchanged ▸ starts), begun routine,
          rfl, rfl⟩
    · have generating := begins inferred starts
      obtain ⟨continued, goesOn, _⟩ := generating.visit formed fits begun
      obtain rfl := writes.eq_of_begun goesOn.begun
      exact ⟨_, parameters, started, after, generating, begun, goesOn.begun, rfl⟩

end Workspace.InSession

namespace Session

/-- Every step of a session keeps what is true of its workspaces. No tree in it has been larger than
the last one. -/
theorem inSession (session : Session options tree work held) (fits : tree.size ≤ 2 ^ 52)
    (small : options.tempSlots + Convention.maxArity ≤ 2 ^ 28 - 5) :
    work.InSession options tree held := by
  have before {tree : Tree} {kind : Kind} {operation : Operation}
      (fits : (tree.append kind operation).2.size ≤ 2 ^ 52) : tree.size ≤ 2 ^ 52 := by
    rw [Tree.size_append] at fits
    exact Nat.le_of_succ_le fits
  induction session with
  | new =>
    exact .of_sound rfl (RegisterPool.sound_new fun _ => Options.usable_of_allocatable) small
      fun id storage cached => by simp [Workspace.new] at cached
  | constant session kind bits ih =>
    exact (ih (before fits)).grow session.history.built.formed kind _
  | parameter session kind index ih =>
    exact (ih (before fits)).grow session.history.built.formed kind _
  | arith session _ done ih =>
    obtain ⟨_, _, rfl⟩ := Tree.of_arith done
    exact (ih (before fits)).grow session.history.built.formed _ _
  | call session _ done ih =>
    obtain ⟨_, _, _, rfl⟩ := Tree.of_call done
    exact (ih (before fits)).grow session.history.built.formed _ _
  | label session done ih =>
    have only := Labeling.within_labels _ _ _ _ _ _ _ done
    rw [Labeling.LabelsOnly] at only
    exact only ▸ (ih fits).withLabels _
  | serve session fresh service ih =>
    exact (ih fits).serve session.history.built.formed fits session.history.configured.1 fresh
      service
  | compile session few done ih =>
    obtain ⟨same, allocatable⟩ := session.history.configured
    obtain ⟨none, pool, exist⟩ := leaves_of_compile session.history.built.formed fits
      (allocatable.trans (congrArg _ same.symm)) (same ▸ few) done
    exact .of_sound none pool small exist

end Session

/-- The words that a function of some parameters is entered with. -/
def Machine.arrivals (entry : Machine) (parameters : List Kind) : List Word :=
  (Convention.places parameters).map entry.received

/-- The words that a function is entered with are the values of its parameters. -/
theorem Machine.supplies_arrivals (entry : Machine) (formed : tree.Formed)
    (parameters : List Kind) (values : NativeValues) :
    entry.Supplies tree parameters fun id word =>
      (tree.kindOf id).Agree word (tree.value values (entry.arrivals parameters) id) := by
  intro id node index place found here placed
  have value : tree.value values (entry.arrivals parameters) id = entry.received place := by
    rw [formed.value_eq found, Tree.operationValue, here]
    simp only [arrivals, List.getD_eq_getElem?_getD, List.getElem?_map, placed, Option.map_some,
      Option.getD_some]
  rw [value]
  rfl

/-- Whether the code of a function that is being generated leaves the value of a node in a location,
whatever words the function is entered with and whatever the functions compute that it calls. -/
def Routine.LeavesValue (routine : Routine) (options : Options) (tree : Tree) (id : NodeId)
    (location : Location) : Prop :=
  ∃ parameters started body, start parameters options.tempSlots = .ok started ∧
    routine.code.toList = started.code.toList ++ body ∧
    ∀ (natives : Natives) (values : NativeValues) (entry : Machine),
      (∀ (call : NodeId) (node : Node) (function : NodeId) (operands : List NodeId),
        tree.node? call = some node → node.operation = .call function operands →
          natives.Computes values (entry.Beneath tree)
            (tree.value values (entry.arrivals parameters) function)
            (tree.callSignature operands node.kind)) →
      (tree.kindOf id).Agree ((entry.after natives routine.code.toList).value location)
        (tree.value values (entry.arrivals parameters) id)

namespace Workspace.Generating

variable {parameters : List Kind} {routine : Routine}

/-- A node that is generated has its value in the location that is returned, and no slot in which
a value is kept is free. -/
theorem value {id : NodeId} {result : Storage}
    (generating : work.Generating options tree parameters held routine) (formed : tree.Formed)
    (fits : tree.size ≤ 2 ^ 52) (done : Generation.value tree id work = .ok result after) :
    ∃ continued, after.routine = some continued ∧
      continued.LeavesValue options tree id result.location ∧
      ∀ (other : NodeId) (storage : Storage) (offset : Offset),
        after.caches[other]? = some storage → storage.location = .slot offset →
          offset ∉ continued.frame.free := by
  obtain ⟨continued, goesOn, holds⟩ := generating.visit formed fits done
  obtain ⟨started, body, starts, code⟩ := goesOn.starts
  refine ⟨continued, goesOn.begun, ⟨parameters, started, body, starts, code,
    fun natives values entry computes => ?_⟩, fun other storage offset cached here => ?_⟩
  · exact holds natives _ entry (formed.lawful computes)
      (entry.supplies_arrivals formed parameters values)
  · obtain ⟨machine, standing⟩ := goesOn.stands
    have used := (standing.kept other storage cached).2.1
    rw [here] at used
    exact used.2

end Workspace.Generating

end NativeExpr
