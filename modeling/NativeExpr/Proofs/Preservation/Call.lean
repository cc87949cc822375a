import NativeExpr.Proofs.Preservation.Saving

/-!
# The code of a call

From the moment when the locations of the arguments are given back to the end of a call: the
late registers are saved, the function is called, its result is captured and everything that
was saved is restored. The arguments are still where they were, since nothing is written before
they are moved.
-/

namespace NativeExpr

/-- A register that may hold a value and that a callee may not overwrite is one that it
preserves. -/
theorem Convention.calleeSaved_of_usable {register : Register} (usable : register.Usable)
    (kept : ¬callerSaved.contains register) : register ∈ calleeSaved := by
  apply Classical.byContradiction
  intro unlisted
  apply kept
  have real : register.number < Bank.size := usable.inBank
  have none : (RegisterSet.ofList calleeSaved).contains register = false := by
    rw [Bool.eq_false_iff]
    intro listed
    exact unlisted (RegisterSet.contains_ofList.mp listed).1
  have bank : register.bank = .generalPurpose ∨ register.bank = .xmm := by
    cases register.bank
    · exact .inl rfl
    · exact .inr rfl
  simpa [callerSaved, RegisterSet.contains_erase, RegisterSet.contains_diff, none,
    RegisterSet.contains_allIn, real, usable.ne_rsp, usable.ne_rbp] using bank

namespace Machine

/-- The depth of the stack tells where its top is. -/
theorem stack_of_depth {left right : Machine} (base : left.get .rbp = right.get .rbp)
    (depth : left.depth = right.depth) : left.get .rsp = right.get .rsp := by
  apply BitVec.eq_of_toNat_eq
  simp only [Machine.depth, Machine.below, base, BitVec.toNat_sub] at depth
  omega

end Machine

namespace Run

variable {run : Run} {before after : Site} {claims : List (NodeId × Storage)}

/-- What a node that calls a function relies on: few enough arguments, a pointer to the function,
and a function that follows the convention and returns what the node stands for, where it may be
called. -/
structure Calls (run : Run) (call : NodeId) (kind : Kind) (function : NodeId)
    (arguments : List NodeId) : Prop where
  found : ∃ node, run.tree.node? call = some node ∧ node.operation = .call function arguments
  few : arguments.length ≤ 2 ^ 28 - 8
  pointer : (run.tree.kindOf function).bank = .generalPurpose
  preserves : ∀ address, run.means function address →
    run.natives.Preserves run.Calling address (run.tree.callSignature arguments kind)
  returns : ∀ machine, run.Calling machine → run.means function (machine.get Convention.callTarget) →
    (∀ argument place,
      (argument, place) ∈ arguments.zip (Convention.places (arguments.map run.tree.kindOf)) →
        run.means argument (machine.argument place)) →
    run.means call ((run.natives (machine.get Convention.callTarget) machine).get
      (Convention.resultRegister kind.bank))

/-- Whether a state holds the value of a node in a storage, out of the way of a call. -/
structure Holds (run : Run) (machine : Machine) (id : NodeId) (storage : Storage) : Prop where
  kind : storage.kind = run.tree.kindOf id
  register : ∀ register, storage.location = .register register →
    register.Usable ∧ register.bank = storage.kind.bank
  slot : ∀ slot, storage.location = .slot slot →
    64 ≤ machine.below (machine.slot slot) ∧ machine.below (machine.slot slot) ≤ machine.depth
  means : run.means id (machine.value storage.location)

theorem Right.holds {id : NodeId} {storage : Storage} (consistent : run.Consistent before)
    (right : run.Right before id storage) : run.Holds (run.state before.routine) id storage where
  kind := right.kind
  register register location := by
    have taken := right.taken
    rw [location] at taken
    exact ⟨consistent.pool.usable_of_live taken, right.bank register location⟩
  slot slot location := by
    have taken := right.taken
    rw [location] at taken
    have distance := taken.1.distance (run.state before.routine)
    have below := consistent.below
    exact ⟨distance.2.1, by omega⟩
  means := right.means

/-- What is held is still held when registers have been pushed. -/
theorem Holds.push {machine later : Machine} {pushed : List Register} {id : NodeId}
    {storage : Storage} (holds : run.Holds machine id storage)
    (pushes : machine.Pushed pushed later) : run.Holds later id storage := by
  have value : later.value storage.location = machine.value storage.location :=
    pushes.value (fun register location => (holds.register register location).1) holds.slot
  refine ⟨holds.kind, holds.register, fun slot location => ?_, value ▸ holds.means⟩
  have same : later.below (later.slot slot) = machine.below (machine.slot slot) := by
    simp only [Machine.below, Machine.slot, pushes.base]
  obtain ⟨low, high⟩ := holds.slot slot location
  have depth := pushes.depth
  exact ⟨same ▸ low, by omega⟩

/-- Whether registers and those that are exposed besides them are all that a callee could
overwrite. -/
theorem Consistent.guarded (consistent : run.Consistent before) {early : List Register}
    (live : ∀ register ∈ early, before.work.pool.live.contains register) :
    let late := ((Stage.exposed before.work).diff (.ofList early)).toList
    (∀ register ∈ late, before.work.pool.live.contains register ∧ register ∉ early) ∧
      ∀ register, before.work.pool.live.contains register → register ∉ early ++ late →
        register ∈ Convention.calleeSaved := by
  intro late
  have listed (register : Register) : register ∈ late ↔
      (before.work.pool.live.contains register ∧ Convention.callerSaved.contains register) ∧
        register ∉ early := by
    have early : (RegisterSet.ofList early).contains register = false ↔ register ∉ early := by
      rw [Bool.eq_false_iff, ne_eq, RegisterSet.contains_ofList, not_and_or]
      constructor
      · rintro (unlisted | unreal) listed
        · exact unlisted listed
        · exact unreal (consistent.pool.usable_of_live (live register listed)).inBank
      · exact .inl
    simp [late, RegisterSet.mem_toList, RegisterSet.contains_diff, Stage.exposed, early]
  refine ⟨fun register member => ?_, fun register used unsaved => ?_⟩
  · obtain ⟨⟨used, _⟩, unlisted⟩ := (listed register).mp member
    exact ⟨used, unlisted⟩
  · rw [List.mem_append, not_or] at unsaved
    apply Convention.calleeSaved_of_usable (consistent.pool.usable_of_live used)
    intro exposed
    exact unsaved.2 ((listed register).mpr ⟨⟨used, exposed⟩, unsaved.1⟩)

/-- The values that a function is called with are in their places. -/
theorem Holds.delivered {stage : Stage} {arguments : List NodeId} {values : List Storage}
    {target : Storage} {function : NodeId} {machine : Machine}
    (of : stage.Of run.tree arguments) (few : arguments.length ≤ 2 ^ 28 - 8)
    (routine : Routine) (room : machine.depth + 2 ^ 31 ≤ 2 ^ 63)
    (complete : stage.arguments.length = values.length)
    (general : (run.tree.kindOf function).bank = .generalPurpose)
    (holds : ∀ argument value, (argument, value) ∈ stage.arguments.zip values →
      run.Holds machine argument.node value)
    (pointer : run.Holds machine function target) :
    let state := Stage.calling run.natives (stage.lowered routine) (stage.moves values target) machine
    run.means function (state.get Convention.callTarget) ∧
      ∀ argument place,
        (argument, place) ∈ arguments.zip (Convention.places (arguments.map run.tree.kindOf)) →
          run.means argument (state.argument place) := by
  intro state
  have held : ∀ move ∈ stage.moves values target, ∃ id storage,
      move.source = storage.location ∧ run.Holds machine id storage := by
    intro move member
    rcases Stage.mem_moves member with ⟨argument, value, paired, rfl⟩ | rfl
    · exact ⟨_, value, rfl, holds argument value paired⟩
    · exact ⟨_, target, rfl, pointer⟩
  have delivers : ∀ move ∈ stage.moves values target,
      state.argument move.target = machine.value move.source := by
    apply of.calling_delivers few routine run.natives room complete
    · intro move member register source
      obtain ⟨id, storage, same, here⟩ := held move member
      exact (here.register register (same ▸ source)).1
    · intro move member slot source
      obtain ⟨id, storage, same, here⟩ := held move member
      exact here.slot slot (same ▸ source)
    · intro argument value paired register location
      have here := holds argument value paired
      rw [(here.register register location).2, here.kind, of.kind (List.of_mem_zip paired).1]
    · intro register location
      rw [(pointer.register register location).2, pointer.kind, general]
  constructor
  · have moved : state.get Convention.callTarget = machine.value target.location :=
      delivers ⟨.register Convention.callTarget, target.location⟩
        (List.mem_append_right _ (List.mem_singleton_self _))
    exact moved ▸ pointer.means
  · intro argument place paired
    rw [← of.places, ← of.nodes, List.zip_map'] at paired
    obtain ⟨staged, member, same⟩ := List.mem_map.mp paired
    obtain ⟨rfl, rfl⟩ := Prod.mk.inj same
    have first : (stage.arguments.zip values).map Prod.fst = stage.arguments :=
      List.map_fst_zip (Nat.le_of_eq complete)
    rw [← first] at member
    obtain ⟨⟨_, value⟩, zipped, rfl⟩ := List.mem_map.mp member
    have moved : state.argument _ = machine.value value.location :=
      delivers ⟨_, value.location⟩ (List.mem_append_left _ (List.mem_map_of_mem zipped))
    exact moved ▸ (holds _ value zipped).means

/-- A function that is called with its arguments, while registers are saved, returns what the call
stands for and leaves them saved. -/
theorem Saves.callThrough {stage : Stage} {arguments : List NodeId} {values : List Storage}
    {target : Storage} {call function : NodeId} {kind : Kind} {saved : List Register}
    {machine : Machine} {guarded called : Workspace} {routine : Routine} {value : Unit}
    (saves : run.Saves before saved machine) (consistent : run.Consistent before)
    (of : stage.Of run.tree arguments) (calls : run.Calls call kind function arguments)
    (covered : ∀ register, before.work.pool.live.contains register → register ∉ saved →
      register ∈ Convention.calleeSaved)
    (room : machine.depth + 2 ^ 32 ≤ run.limit)
    (complete : stage.arguments.length = values.length)
    (holds : ∀ argument value, (argument, value) ∈ stage.arguments.zip values →
      run.Holds machine argument.node value)
    (pointer : run.Holds machine function target) (begun : guarded.routine = some routine)
    (calling : stage.callThrough run.tree (stage.moves values target) guarded = .ok value called) :
    ∃ instructions, run.Emits machine instructions [call] ∧
      called = { guarded with routine := some (routine.append instructions) } ∧
      let later := machine.after run.natives instructions
      run.Saves before saved later ∧ later.depth = machine.depth ∧
        run.means call (later.get (Convention.resultRegister kind.bank)) := by
  obtain ⟨through, noReturn, rfl, effect⟩ := Stage.effect_of_callThrough begun calling
  have bounded := run.bounded
  have beneath := saves.beneath
  obtain ⟨found, arrived⟩ := Holds.delivered of calls.few routine (by omega) complete
    calls.pointer holds pointer
  have caller : run.Calling (Stage.calling run.natives (stage.lowered routine)
      (stage.moves values target) machine) := by
    have within := of.calling_within calls.few routine values target run.natives bounded
      (by omega : machine.depth + 2 ^ 31 ≤ run.limit)
    rwa [saves.base, consistent.base] at within
  obtain ⟨registers, memory, returned⟩ := of.call_keeps calls.few (by omega) caller
    (calls.preserves _ found)
  obtain ⟨moved, top⟩ := of.calling_writes calls.few routine values target run.natives bounded
    (by omega : 56 ≤ machine.depth) (by omega)
  obtain ⟨effect, once, writes⟩ := effect run.natives machine
  obtain ⟨node, here, operation⟩ := calls.found
  refine ⟨through, ⟨noReturn, writes _ moved top, ?_⟩, rfl, ?_⟩
  · rw [once]
    exact .cons ⟨node, function, arguments, here, operation, found, arrived⟩ .nil
  · rw [effect]
    intro later
    have stack : later.get .rsp = machine.get .rsp := registers .rsp List.mem_cons_self
    have frame : later.get .rbp = machine.get .rbp :=
      registers .rbp (List.mem_cons_of_mem _ List.mem_cons_self)
    refine ⟨saves.keep frame stack ?_ ?_ consistent, ?_, ?_⟩
    · intro register used unsaved
      exact registers register
        (List.mem_cons_of_mem _ (List.mem_cons_of_mem _ (covered register used unsaved)))
    · exact fun place inside within _ => memory place inside within
    · simp only [Machine.depth, Machine.below, frame, stack]
    · have result : later.get (Convention.resultRegister kind.bank) = _ :=
        returned _ (by cases kind.bank <;> decide) (by cases kind.bank <;> decide)
      rw [result]
      exact calls.returns _ caller found arrived

/-- The late registers are saved and the function is called with its arguments: it returns what
the call stands for, and all that was taken is kept or saved. -/
theorem Consistent.callThrough {stage : Stage} {arguments : List NodeId} {values : List Storage}
    {target : Storage} {call function : NodeId} {kind : Kind} {early late : List Register}
    {guarded called : Workspace} {value other : Unit}
    (consistent : run.Consistent before) (of : stage.Of run.tree arguments)
    (calls : run.Calls call kind function arguments)
    (saves : run.Saves before early (run.state before.routine))
    (few : early.length ≤ 32) (short : late.length ≤ 32)
    (live : ∀ register ∈ late, before.work.pool.live.contains register ∧ register ∉ early)
    (covered : ∀ register, before.work.pool.live.contains register → register ∉ early ++ late →
      register ∈ Convention.calleeSaved)
    (room : (run.state before.routine).depth + 2 ^ 33 ≤ run.limit)
    (complete : stage.arguments.length = values.length)
    (holds : ∀ argument value, (argument, value) ∈ stage.arguments.zip values →
      run.Holds (run.state before.routine) argument.node value)
    (pointer : run.Holds (run.state before.routine) function target)
    (saving : Stage.save run.tree late before.work = .ok value guarded)
    (calling : stage.callThrough run.tree (stage.moves values target) guarded = .ok other called) :
    ∃ instructions pushed, run.Emits (run.state before.routine) instructions [call] ∧
      called = { before.work with
        routine := some { before.routine.append instructions with pushed := pushed } } ∧
      let machine := (run.state before.routine).after run.natives instructions
      run.Saves before (early ++ late) machine ∧
        machine.depth = (run.state before.routine).depth + 8 * late.length ∧
        run.means call (machine.get (Convention.resultRegister kind.bank)) := by
  obtain ⟨pushes, rfl, guards, pushed⟩ :=
    consistent.saving (fun register member => (live register member).1) short (by omega) saving
  have savesAll := saves.push consistent.pool live (by omega) pushed
  have depth := pushed.depth
  obtain ⟨through, emits, rfl, kept, level, means⟩ := savesAll.callThrough consistent of calls
    covered (by omega) complete
    (fun argument value paired => (holds argument value paired).push pushed)
    (pointer.push pushed) rfl calling
  refine ⟨pushes ++ through, before.routine.pushed + BitVec.ofNat 32 (8 * late.length),
    guards.append pushed.base emits, ?_, ?_⟩
  · rw [← Routine.append_append]
    rfl
  · rw [Machine.after_append]
    exact ⟨kept, level.trans depth, means⟩

variable {saved : List Register} {call : NodeId} {kind : Kind} {result : Storage}
variable {instructions : List Instruction} {pushed : BitVec 32} {nodes : List NodeId}

/-- Capturing a result and restoring registers after a call emits what it may. -/
theorem Emits.then_restore {machine : Machine} {copied popped : List Instruction}
    (emits : run.Emits (run.state before.routine) instructions nodes)
    (reached : (run.state before.routine).after run.natives instructions = machine)
    (base : machine.get .rbp = (run.state before.routine).get .rbp)
    (copying : run.Emits machine copied [])
    (copiedBase : (machine.after run.natives copied).get .rbp = machine.get .rbp)
    (straight : Straight popped) (quiet : Quiet popped) :
    run.Emits (run.state before.routine) (instructions ++ copied ++ popped) nodes := by
  subst reached
  have restoring := Emits.of_quiet run
    (((run.state before.routine).after run.natives instructions).after run.natives copied)
    straight quiet
  simpa using emits.append base (copying.append copiedBase restoring)

/-- A result that is captured in a free register is there when the saved registers are back. -/
theorem Saves.captureRegister (consistent : run.Consistent before) {register : Register}
    (saves : run.Saves before saved ((run.state before.routine).after run.natives instructions))
    (emits : run.Emits (run.state before.routine) instructions nodes) (distinct : saved.Nodup)
    (live : ∀ register ∈ saved, before.work.pool.live.contains register)
    (same : kind = run.tree.kindOf call)
    (means : run.means call (((run.state before.routine).after run.natives instructions).get
      (Convention.resultRegister kind.bank)))
    (bank : register.bank = kind.bank)
    (allowed : before.work.pool.allocatable.contains register)
    (free : ¬before.work.pool.live.contains register) {copied popped : List Instruction}
    (granted : assemble (Transfer.intoRegister register
      (.register (Convention.resultRegister kind.bank))) = ⟨copied, none⟩)
    (straight : Straight popped) (quiet : Quiet popped)
    (pops : ∀ machine : Machine, machine.after run.natives popped =
      Request.effects run.natives machine (saved.reverse.map .pop)) :
    let later := (before.withCode (instructions ++ copied ++ popped)).withPool
      (before.work.pool.assign register (some call))
    run.Carries before nodes [(call, .own (.register register) kind)] later ∧
      (run.state later.routine).depth + 8 * saved.length =
        ((run.state before.routine).after run.natives instructions).depth := by
  intro later
  generalize reached : (run.state before.routine).after run.natives instructions = machine at *
  have usable := consistent.pool.usable register allowed
  obtain ⟨value, agree⟩ := agree_intoRegister run.natives machine usable.inBank
    (.register (Convention.resultRegister kind.bank))
  rw [← after_of_assemble run.natives machine granted] at value agree
  have unsaved : register ∉ saved := fun member => free (live register member)
  have base := agree.get .rbp (by decide) (by simp [usable.ne_rbp.symm])
  have stack := agree.get .rsp (by decide) (by simp [usable.ne_rsp.symm])
  have copiedSaves : run.Saves before saved (machine.after run.natives copied) := by
    refine saves.keep base stack (fun other used _ => ?_) (fun place _ _ _ => ?_) consistent
    · have usable := consistent.pool.usable_of_live used
      refine agree.get other usable.inBank ?_
      simp only [List.mem_cons, List.not_mem_nil, or_false, not_or]
      exact ⟨fun same => free (same ▸ used), usable.ne_r11⟩
    · exact congrFun agree.memory place
  obtain ⟨keeps, kept, depth, _⟩ := copiedSaves.pop consistent.pool distinct live
  rw [← pops] at keeps kept depth
  have effect : (run.state before.routine).after run.natives (instructions ++ copied ++ popped) =
      (machine.after run.natives copied).after run.natives popped := by
    rw [Machine.after_append, Machine.after_append, reached]
  have emitted : run.Emits (run.state before.routine) (instructions ++ copied ++ popped) nodes := by
    have copying := Emits.of_quiet run machine
      (straight_of_assemble granted (Transfer.plain_intoRegister _ _))
      (quiet_of_assemble granted (Transfer.quiet_intoRegister _ _))
    exact emits.then_restore reached saves.base copying base straight quiet
  have beneath := copiedSaves.beneath
  have result := kept register usable.inBank usable.ne_rsp unsaved
  have state : run.state later.routine =
      (machine.after run.natives copied).after run.natives popped :=
    (state_append consistent.written _).trans effect
  refine ⟨consistent.fill allowed free emitted effect keeps (by omega) same bank ?_ (some call), ?_⟩
  · rw [result, value]
    exact means
  · rw [state, depth]
    simp only [Machine.depth, Machine.below, base, stack]

/-- A result that is captured in a free slot is there when the saved registers are back. -/
theorem Saves.captureSlot (consistent : run.Consistent before) {offset : Offset}
    {rest : List Offset}
    (saves : run.Saves before saved ((run.state before.routine).after run.natives instructions))
    (emits : run.Emits (run.state before.routine) instructions nodes) (distinct : saved.Nodup)
    (live : ∀ register ∈ saved, before.work.pool.live.contains register)
    (same : kind = run.tree.kindOf call)
    (means : run.means call (((run.state before.routine).after run.natives instructions).get
      (Convention.resultRegister kind.bank)))
    (free : before.routine.frame.free = offset :: rest) {copied popped : List Instruction}
    (granted : assemble [.store .rbp offset (Convention.resultRegister kind.bank)] =
      ⟨copied, none⟩)
    (straight : Straight popped) (quiet : Quiet popped)
    (pops : ∀ machine : Machine, machine.after run.natives popped =
      Request.effects run.natives machine (saved.reverse.map .pop)) :
    let later := (before.withCode (instructions ++ copied ++ popped)).withFree rest
    run.Carries before nodes [(call, .own (.slot offset) kind)] later ∧
      (run.state later.routine).depth + 8 * saved.length =
        ((run.state before.routine).after run.natives instructions).depth := by
  intro later
  generalize reached : (run.state before.routine).after run.natives instructions = machine at *
  have member : offset ∈ before.routine.frame.free := free ▸ List.mem_cons_self
  have stored : machine.after run.natives copied = machine.store (machine.slot offset)
      (machine.get (Convention.resultRegister kind.bank)) :=
    after_of_assemble run.natives machine granted
  have copiedSaves : run.Saves before saved (machine.after run.natives copied) := by
    rw [stored]
    refine saves.keep (Machine.get_store ..) (Machine.get_store ..)
      (fun other _ _ => Machine.get_store ..) (fun place _ _ apart => ?_) consistent
    exact Machine.memory_store_of_le machine _ (apart offset member)
  obtain ⟨keeps, _, depth, memory⟩ := copiedSaves.pop consistent.pool distinct live
  rw [← pops] at keeps depth memory
  have effect : (run.state before.routine).after run.natives (instructions ++ copied ++ popped) =
      (machine.after run.natives copied).after run.natives popped := by
    rw [Machine.after_append, Machine.after_append, reached]
  have emitted : run.Emits (run.state before.routine) (instructions ++ copied ++ popped) nodes := by
    have copying : run.Emits machine copied [] := consistent.emits_spill member granted
    exact emits.then_restore reached saves.base copying (stored ▸ Machine.get_store ..) straight quiet
  have beneath := copiedSaves.beneath
  have base : ((machine.after run.natives copied).after run.natives popped).get .rbp =
      machine.get .rbp := keeps.base.trans saves.base.symm
  have value : ((machine.after run.natives copied).after run.natives popped).value (.slot offset) =
      machine.get (Convention.resultRegister kind.bank) := by
    rw [Machine.value, base, Machine.load, memory, stored]
    exact Machine.load_store ..
  have state : run.state later.routine =
      (machine.after run.natives copied).after run.natives popped :=
    (state_append consistent.written _).trans effect
  refine ⟨consistent.fillSlot free emitted effect keeps (by omega) same (value ▸ means), ?_⟩
  rw [state, depth, stored]
  simp only [Machine.depth, Machine.below, Machine.get_store]

/-- The result of a call is captured, and what was saved is restored. -/
theorem Saves.capture {called captured restored : Workspace} {hint : Option Register}
    {value : Unit} (consistent : run.Consistent before)
    (saves : run.Saves before saved ((run.state before.routine).after run.natives instructions))
    (emits : run.Emits (run.state before.routine) instructions nodes) (distinct : saved.Nodup)
    (live : ∀ register ∈ saved, before.work.pool.live.contains register)
    (same : kind = run.tree.kindOf call)
    (means : run.means call (((run.state before.routine).after run.natives instructions).get
      (Convention.resultRegister kind.bank)))
    (reached : called = { before.work with
      routine := some { before.routine.append instructions with pushed := pushed } })
    (capturing : Stage.capture run.tree call kind hint called = .ok result captured)
    (restoring : Stage.restore run.tree saved.reverse captured = .ok value restored)
    (statistics : Statistics) :
    ∃ later : Site, later.work = { restored with statistics := statistics } ∧
      run.Carries before nodes [(call, result)] later ∧
      (run.state later.routine).depth + 8 * saved.length =
        ((run.state before.routine).after run.natives instructions).depth := by
  subst reached
  rcases Stage.of_capture rfl capturing with
    ⟨register, copied, bank, allowed, free, granted, rfl, rfl⟩ |
    ⟨offset, rest, copied, free, granted, rfl, rfl⟩
  · obtain ⟨popped, straight, rfl, pops, quiet⟩ := Stage.of_restore rfl restoring
    obtain ⟨carries, depth⟩ := saves.captureRegister consistent emits distinct live same means
      bank allowed free granted straight quiet (pops run.natives)
    have code := Routine.code_append_three before.routine instructions copied popped
    refine ⟨⟨_, _, before.settled⟩, rfl, carries.congr _ rfl code.symm rfl rfl rfl rfl, ?_⟩
    rw [← depth]
    exact congrArg (fun code : Code => (run.origin.after run.natives
      (code.toList.drop run.written)).depth + 8 * saved.length) code.symm
  · obtain ⟨popped, straight, rfl, pops, quiet⟩ := Stage.of_restore rfl restoring
    obtain ⟨carries, depth⟩ := saves.captureSlot consistent emits distinct live same means
      free granted straight quiet (pops run.natives)
    have code := Routine.code_append_three before.routine instructions copied popped
    refine ⟨⟨_, _, before.settled⟩, rfl, carries.congr _ rfl code.symm rfl rfl rfl rfl, ?_⟩
    rw [← depth]
    exact congrArg (fun code : Code => (run.origin.after run.natives
      (code.toList.drop run.written)).depth + 8 * saved.length) code.symm

end Run

end NativeExpr
