import NativeExpr.Proofs.Entry
import NativeExpr.Proofs.Generation.Counting
import NativeExpr.Proofs.Generation.Opening
import NativeExpr.Proofs.Outcome
import NativeExpr.Proofs.Preservation.Call

/-!
# Arguments arrive

A caller counts the outgoing area from its stack pointer, after it has padded it; a callee counts
its incoming arguments from its own frame pointer, past the return address. Both take the places of
the convention, and what the caller has put in one of them is what the callee copies from there to
the home of its parameter.
-/

namespace NativeExpr

namespace Machine

theorem push_eq (machine : Machine) (value : Word) :
    machine.push value =
      (machine.set .rsp (machine.get .rsp - 8)).store (machine.get .rsp - 8) value := rfl

/-- What is in the place of an argument where a function is called is there when the function is
entered, above the return address. -/
theorem received_push (machine : Machine) (returnAddress : Word) {kinds : List Kind}
    (few : kinds.length ≤ 2 ^ 28 - 5) {place : Place} (listed : place ∈ Convention.places kinds) :
    (machine.push returnAddress).received place = machine.argument place := by
  have stack : (machine.push returnAddress).get .rsp = machine.get .rsp - 8 := by
    rw [push_eq, get_store, get_set_self]
  cases place with
  | register register =>
    have usable := (Convention.usable_of_mem_places listed).1
    simp only [received, argument, push_eq, get_store]
    exact get_set_other _ _ (by decide) usable.inBank usable.ne_rsp
  | stack offset =>
    have small := (Convention.toNat_stack few listed).1
    simp only [received, argument, stack, BitVec.sub_add_cancel]
    rw [push_eq]
    refine load_congr_above (fun place outside =>
      (memory_store_of_le _ _ outside).trans (congrFun (memory_set ..) place)) ?_ ?_ <;>
      simp only [BitVec.toNat_sub, BitVec.toNat_add, BitVec.reduceToNat] <;> omega

end Machine

/-- Whether a value of a kind can be moved from a location: it is a register of the kind's bank that
may hold values, a slot of the frame, or a constant. -/
def Location.Movable (frame : Frame) (kind : Kind) : Location → Prop
  | .register reg => reg.Usable ∧ reg.bank = kind.bank
  | .slot offset => frame.Covers offset
  | .constant _ => True

namespace Location

variable {frame : Frame} {kind : Kind} {location : Location}

instance (offset : Offset) : Decidable (frame.Covers offset) :=
  inferInstanceAs (Decidable (8 ∣ offset.toInt ∧ offset.toInt ≤ -48 ∧
    -(40 + (frame.size.toNat : Int)) ≤ offset.toInt))

instance : (location : Location) → Decidable (location.Movable frame kind)
  | .register reg => inferInstanceAs (Decidable (reg.Usable ∧ reg.bank = kind.bank))
  | .slot offset => inferInstanceAs (Decidable (frame.Covers offset))
  | .constant _ => .isTrue trivial

theorem Movable.register (movable : location.Movable frame kind) {register : Register}
    (source : location = .register register) : register.Usable ∧ register.bank = kind.bank := by
  subst source
  exact movable

theorem Movable.slot (movable : location.Movable frame kind) {slot : Offset}
    (source : location = .slot slot) : frame.Covers slot := by
  subst source
  exact movable

end Location

namespace Routine

/-- A function that has been begun has in its homes what it has received in the places of its
parameters. -/
theorem homes_of_start {parameters : List Kind} {slots : Nat} {started : Routine}
    (starts : start parameters slots = .ok started) (few : parameters.length ≤ 2 ^ 28 - 5)
    (natives : Natives) (entry : Machine) {index : Nat} {place : Place}
    (placed : (Convention.places parameters)[index]? = some place) :
    ∃ home, started.frame.home? index = some home ∧
      (entry.after natives started.code.toList).value (.slot home) = entry.received place := by
  obtain ⟨_, granted, rfl⟩ := of_start starts
  obtain ⟨prologue, homing, opens, fills, rfl⟩ := assemble_append_eq_ok granted
  obtain ⟨_, _, _, homes⟩ := effects_entering few opens fills natives entry
  have within : index < parameters.length := by
    have bound := (List.getElem?_eq_some_iff.mp placed).1
    rwa [Convention.places, Assigner.length_assignAll] at bound
  have homed : (new parameters slots).frame.homes[index]? = some (Frame.cell index) := by
    simp [new, Frame.new, within]
  refine ⟨Frame.cell index, homed, ?_⟩
  rw [code_append_new]
  exact homes index _ place homed placed

/-- A function that has been begun has in its homes what its caller has put in the places of its
arguments. -/
theorem homes_of_call {parameters : List Kind} {slots : Nat} {started : Routine}
    (starts : start parameters slots = .ok started)
    (small : slots + parameters.length ≤ 2 ^ 28 - 5) (natives : Natives) (state : Machine)
    (returnAddress : Word) {index : Nat} {place : Place}
    (placed : (Convention.places parameters)[index]? = some place) :
    ∃ home, started.frame.home? index = some home ∧
      ((state.push returnAddress).after natives started.code.toList).value (.slot home) =
        state.argument place := by
  obtain ⟨home, homed, holds⟩ :=
    homes_of_start starts (by omega) natives (state.push returnAddress) placed
  exact ⟨home, homed, holds.trans
    (Machine.received_push state returnAddress (by omega) (List.mem_of_getElem? placed))⟩

end Routine

/-- Wherever a call node calls, a function that has been begun for parameters of the kinds of its
arguments has their values in its homes. -/
theorem Tree.Called.arrives {tree : Tree} {means : NodeId → Word → Prop} {state : Machine}
    {call function : NodeId} {node : Node} {arguments : List NodeId}
    (called : tree.Called means state call) (found : tree.node? call = some node)
    (here : node.operation = .call function arguments) {slots : Nat} {started : Routine}
    (starts : Routine.start (arguments.map tree.kindOf) slots = .ok started)
    (small : slots + arguments.length ≤ 2 ^ 28 - 5) (natives : Natives) (returnAddress : Word)
    {index : Nat} {argument : NodeId} (listed : arguments[index]? = some argument) :
    ∃ home, started.frame.home? index = some home ∧ means argument
      (((state.push returnAddress).after natives started.code.toList).value (.slot home)) := by
  obtain ⟨_, _, _, same, operation, _, passed⟩ := called
  obtain rfl := Option.some.inj (found.symm.trans same)
  obtain ⟨rfl, rfl⟩ := Operation.call.inj (here.symm.trans operation)
  have placed : index < (Convention.places (arguments.map tree.kindOf)).length := by
    rw [Convention.places, Assigner.length_assignAll, List.length_map]
    exact (List.getElem?_eq_some_iff.mp listed).1
  have place := List.getElem?_eq_getElem placed
  obtain ⟨home, homed, holds⟩ := Routine.homes_of_call starts
    (by rwa [List.length_map]) natives state returnAddress place
  refine ⟨home, homed, holds ▸ passed argument _ ?_⟩
  exact List.mem_of_getElem? (List.getElem?_zip_eq_some.mpr ⟨listed, place⟩)

namespace Stage

variable {tree : Tree} {arguments : List NodeId} {stage : Stage} {routine : Routine}
variable {values : List Storage} {target : Storage} {before guarded after : Workspace}

/-- From the moment when all values are there: registers are saved and the function is called, in
one state, which has every value in the place that it is moved to. -/
theorem Of.calls (of : stage.Of tree arguments) (few : arguments.length ≤ 2 ^ 28 - 8)
    (complete : stage.arguments.length = values.length) {saved : List Register}
    (short : saved.length ≤ 32) (real : ∀ register ∈ saved, register.InBank ∧ register ≠ .rsp)
    (begun : before.routine = some routine) {value other : Unit}
    (saving : save tree saved before = .ok value guarded)
    (calling : stage.callThrough tree (stage.moves values target) guarded = .ok other after) :
    ∃ instructions later, after.routine = some later ∧
      later.code.toList = routine.code.toList ++ instructions ∧
      ∀ (natives : Natives) (machine : Machine),
        (∀ argument value, (argument, value) ∈ stage.arguments.zip values →
          value.location.Movable routine.frame argument.kind) →
        target.location.Movable routine.frame .ptr →
        56 + routine.frame.size.toNat ≤ machine.depth → machine.depth ≤ 2 ^ 62 →
        ∃ state, machine.calls natives instructions = [state] ∧
          ∀ move ∈ stage.moves values target,
            state.argument move.target = machine.value move.source := by
  obtain ⟨pushes, straight, rfl, pushed, _⟩ := of_save begun saving
  obtain ⟨through, _, rfl, effect⟩ := effect_of_callThrough rfl calling
  refine ⟨pushes ++ through, _, rfl, by simp, fun natives machine movable pointer below above => ?_⟩
  have saves := Machine.pushed_effects natives machine (by omega) real (by omega)
  rw [← pushed] at saves
  have base := saves.base
  have depth := saves.depth
  have sources : ∀ move ∈ stage.moves values target,
      (∀ register, move.source = .register register → register.Usable) ∧
      ∀ slot, move.source = .slot slot → routine.frame.Covers slot := by
    intro move member
    rcases mem_moves member with ⟨argument, value, paired, rfl⟩ | rfl
    · have here := movable argument value paired
      exact ⟨fun _ source => (here.register source).1, fun _ => here.slot⟩
    · exact ⟨fun _ source => (pointer.register source).1, fun _ => pointer.slot⟩
  have within {slot : Offset} (covered : routine.frame.Covers slot) :
      64 ≤ machine.below (machine.slot slot) ∧
        machine.below (machine.slot slot) ≤ machine.depth := by
    have distance := covered.distance machine
    omega
  obtain ⟨_, once, _⟩ := effect natives (machine.after natives pushes)
  refine ⟨_, by rw [Machine.calls_append, straight.calls, List.nil_append]; exact once, ?_⟩
  intro move member
  obtain ⟨usable, covered⟩ := sources move member
  have delivered := of.calling_delivers few
    { routine.append pushes with
      pushed := routine.pushed + BitVec.ofNat 32 (8 * saved.length) } natives
    (by omega : (machine.after natives pushes).depth + 2 ^ 31 ≤ 2 ^ 63) complete
    (fun move member => (sources move member).1)
    (fun move member slot source => by
      obtain ⟨low, high⟩ := within ((sources move member).2 slot source)
      simp only [Machine.depth, Machine.below, Machine.slot, base] at low high depth ⊢
      omega)
    (fun argument value paired register source =>
      ((movable argument value paired).register source).2)
    (fun register source => (pointer.register source).2) move member
  exact delivered.trans (saves.value usable fun slot source => within (covered slot source))

/-- Giving locations back writes no code and leaves the frame as large as it is. -/
theorem code_of_releaseAll {storages : List Storage} {value : Unit}
    (begun : before.routine = some routine)
    (done : releaseAll tree storages before = .ok value after) :
    ∃ later, after.routine = some later ∧ later.code = routine.code ∧
      later.frame.size = routine.frame.size := by
  induction storages generalizing before routine with
  | nil =>
    obtain ⟨_, rfl⟩ := estate_pure_eq_ok.mp done
    exact ⟨routine, begun, rfl, rfl⟩
  | cons storage rest ih =>
    simp only [releaseAll, estate_bind_eq_ok] at done
    obtain ⟨_, between, first, remaining⟩ := done
    obtain ⟨middle, here, code, size⟩ := Build.code_of_release begun first
    obtain ⟨later, there, sameCode, sameSize⟩ := ih here remaining
    exact ⟨later, there, sameCode.trans code, sameSize.trans size⟩

/-- What is done up to the moment when all values of a call are there: the registers that are
exposed are saved, and the arguments and the pointer to the function are evaluated. -/
def prepare (tree : Tree) (visit : Visit) (stage : Stage) (function : NodeId) :
    Build (List Storage × Storage) := do
  let exposed ← liveCallerSaved
  save tree exposed.toList
  let values ← stage.evaluate tree visit
  let target ← visit function (some Convention.callTarget)
  return (values, target)

/-- What is done from the moment when all values are there: their locations are given back, the
registers that are exposed by then are saved, and the function is called. -/
def callWith (tree : Tree) (stage : Stage) (early : List Register) (values : List Storage)
    (target : Storage) : Build Unit := do
  releaseAll tree (values ++ [target])
  let exposed ← liveCallerSaved
  save tree (exposed.diff (.ofList early)).toList
  stage.callThrough tree (stage.moves values target)

/-- A call that begins the function that it is written in is written as in a function that has been
begun before. -/
theorem begun_of_callWith {early : List Register} {value : Unit}
    (none : before.routine = none)
    (done : stage.callWith tree early values target before = .ok value after) :
    ∃ started, before.Begins tree started ∧
      stage.callWith tree early values target (before.begin started) = .ok value after := by
  have closed := (Build.demanding_beginsLate tree).toClosed
  have late : (stage.callWith tree early values target).BeginsLate tree :=
    closed.bind (closed.releaseAll _) fun _ => closed.bind closed.liveCallerSaved fun _ =>
      closed.bind (closed.save _) fun _ => closed.callThrough _ _
  rcases late before none value after done with ⟨never, _⟩ | begins
  · simp only [callWith, estate_bind_eq_ok] at done
    obtain ⟨_, _, _, _, _, _, _, _, _, called⟩ := done
    obtain ⟨_, _, _, _, rfl⟩ := Build.of_onRoutine called
    cases never
  · exact begins

/-- Once all values are there the function is called in one state, which has every value in the
place that it is moved to. -/
theorem Of.calls_callWith (of : stage.Of tree arguments) (few : arguments.length ≤ 2 ^ 28 - 8)
    (complete : stage.arguments.length = values.length) (begun : before.routine = some routine)
    {early : List Register} {value : Unit}
    (done : stage.callWith tree early values target before = .ok value after) :
    ∃ instructions later, after.routine = some later ∧
      later.code.toList = routine.code.toList ++ instructions ∧
      ∀ (natives : Natives) (machine : Machine),
        (∀ argument value, (argument, value) ∈ stage.arguments.zip values →
          value.location.Movable routine.frame argument.kind) →
        target.location.Movable routine.frame .ptr →
        56 + routine.frame.size.toNat ≤ machine.depth → machine.depth ≤ 2 ^ 62 →
        ∃ state, machine.calls natives instructions = [state] ∧
          ∀ move ∈ stage.moves values target,
            state.argument move.target = machine.value move.source := by
  simp only [callWith, estate_bind_eq_ok] at done
  obtain ⟨_, _, releasing, _, released, exposing, _, guarded, saving, calling⟩ := done
  obtain ⟨rfl, rfl⟩ := of_liveCallerSaved exposing
  obtain ⟨relieved, here, code, size⟩ := code_of_releaseAll begun releasing
  have real : ∀ register ∈ ((exposed released).diff (.ofList early)).toList,
      register.InBank ∧ register ≠ .rsp := by
    intro register member
    have listed : Convention.callerSaved.contains register := by
      rw [RegisterSet.mem_toList, RegisterSet.contains_diff, exposed, RegisterSet.contains_inter]
        at member
      simp_all
    refine ⟨RegisterPool.inBank_of_contains listed, ?_⟩
    rintro rfl
    exact absurd listed (by decide)
  obtain ⟨instructions, later, there, written, calls⟩ :=
    of.calls few complete (RegisterSet.length_toList _) real here saving calling
  refine ⟨instructions, later, there, by rw [written, code],
    fun natives machine movable pointer below above => ?_⟩
  have same {location : Location} {kind : Kind} (can : location.Movable routine.frame kind) :
      location.Movable relieved.frame kind := by
    cases location with
    | register register => exact can
    | slot slot => simpa only [Location.Movable, Frame.Covers, size] using can
    | constant bits => trivial
  exact calls natives machine (fun argument value paired => same (movable argument value paired))
    (same pointer) (size ▸ below) above

end Stage

/-- The code of a compiled function begins with that of a function that has just been begun. -/
theorem starts_of_compile {tree : Tree} {signature : Signature} {root : NodeId}
    {work after : Workspace} {compiled : Compiled}
    (done : compile tree signature root work = .ok compiled after) :
    ∃ started body, Routine.start signature.parameters work.options.tempSlots = .ok started ∧
      compiled.instructions = started.code.toList ++ body := by
  obtain ⟨labels, started, result, generated, released, _, _, starting, generating, releasing,
    finishing⟩ := of_compile done
  let begun : Workspace := { work.reset with labels := labels, routine := some started }
  have follows : begun.Follows tree [root] _ generated :=
    Generation.within_follows tree tree.size begun started root _ result generated rfl generating
  obtain ⟨_, advances, _⟩ := follows
  obtain ⟨_, later, instructions, same, here, code, _⟩ := advances.code
  obtain rfl := Option.some.inj same
  obtain ⟨finished, there, unchanged, _⟩ := Build.code_of_release here releasing
  obtain ⟨⟨ended, leaving, compiledCode⟩, _⟩ := Compilation.of_finish there finishing
  obtain ⟨closing, _, _, endedCode, _⟩ := Routine.leave_returns leaving
  refine ⟨started, instructions ++ closing ++ [.ret], starting, ?_⟩
  rw [compiledCode, endedCode, unchanged, code]
  simp only [List.append_assoc]

variable {tree other : Tree} {arguments : List NodeId} {stage : Stage} {visit : Visit}
variable {function call root : NodeId} {kind : Kind} {hint : Option Register} {result : Storage}
variable {work after otherWork otherAfter : Workspace} {signature : Signature}
variable {compiled : Compiled}

/-- The code of a call calls the function in one state, which has each value that has been evaluated
in the place of its argument. -/
theorem Stage.Of.calls_emitCall (of : stage.Of tree arguments) (few : arguments.length ≤ 2 ^ 28 - 8)
    (done : stage.emitCall tree visit function call kind hint work = .ok result after) :
    ∃ values target ready routine,
      stage.prepare tree visit function work = .ok (values, target) ready ∧
      ready.Writes tree routine ∧ values.length = stage.arguments.length ∧
      ∃ later calling rest, after.routine = some later ∧
        later.code.toList = routine.code.toList ++ calling ++ rest ∧
        ∀ (natives : Natives) (machine : Machine),
          (∀ argument value, (argument, value) ∈ stage.arguments.zip values →
            value.location.Movable routine.frame argument.kind) →
          target.location.Movable routine.frame .ptr →
          56 + routine.frame.size.toNat ≤ machine.depth → machine.depth ≤ 2 ^ 62 →
          ∃ state, machine.calls natives calling = [state] ∧
            ∀ move ∈ stage.moves values target,
              state.argument move.target = machine.value move.source := by
  obtain ⟨early, late, values, target, entered, evaluated, ready, released, guarded, called,
    captured, restored, rfl, entering, evaluating, visiting, releasing, rfl, saving, calling,
    capturing, restoring, last, _⟩ := of_emitCall done
  have complete : stage.arguments.length = values.length := (length_of_evaluate evaluating).symm
  have prepared : stage.prepare tree visit function work = .ok (values, target) ready := by
    simp only [prepare, estate_bind_eq_ok, estate_pure_eq_ok]
    exact ⟨_, _, liveCallerSaved_ok _, _, _, entering, _, _, evaluating, _, _, visiting, rfl, rfl⟩
  have reached : stage.callWith tree (exposed work).toList values target ready = .ok () called := by
    simp only [callWith, estate_bind_eq_ok]
    exact ⟨_, _, releasing, _, _, liveCallerSaved_ok _, _, _, saving, calling⟩
  obtain ⟨routine, started, writes, begun, callsBegun⟩ : ∃ routine started,
      ready.Writes tree routine ∧ started.routine = some routine ∧
        stage.callWith tree (exposed work).toList values target started = .ok () called := by
    cases here : ready.routine with
    | some routine => exact ⟨routine, ready, .inl here, here, reached⟩
    | none =>
      obtain ⟨started, begins, same⟩ := begun_of_callWith here reached
      exact ⟨started, ready.begin started, .inr begins, rfl, same⟩
  obtain ⟨instructions, later, there, code, calls⟩ :=
    of.calls_callWith few complete begun callsBegun
  have captures := advances_of_capture there capturing
  obtain ⟨_, goesOn⟩ := captures.begun
  obtain ⟨_, final, rest, same, ends, further, _⟩ :=
    (captures.further (advances_of_restore goesOn restoring)).code
  obtain rfl := Option.some.inj (there.symm.trans same)
  refine ⟨values, target, ready, routine, prepared, writes, complete.symm, final, instructions,
    rest, ?_, by rw [further, code], calls⟩
  rw [last]
  exact ends

/-- A call puts every argument where the function that it calls looks for it. Whatever registers,
slots or constants the arguments and the pointer to the function have been evaluated to: the
function is called in one state, and if its code is that of a function which has been compiled for
parameters of these kinds then, after its prologue, the home of each parameter has the value that
the argument had when all of them were evaluated. -/
theorem emitCall_arrives (staged : Stage.ofArguments tree arguments = .ok stage)
    (few : arguments.length ≤ 2 ^ 28 - 8)
    (done : stage.emitCall tree visit function call kind hint work = .ok result after)
    (compiles : compile other signature root otherWork = .ok compiled otherAfter)
    (parameters : signature.parameters = arguments.map tree.kindOf)
    (small : otherWork.options.tempSlots + arguments.length ≤ 2 ^ 28 - 5) :
    ∃ values target ready routine,
      stage.prepare tree visit function work = .ok (values, target) ready ∧
      ready.Writes tree routine ∧ values.length = arguments.length ∧
      ∃ later calling rest, after.routine = some later ∧
        later.code.toList = routine.code.toList ++ calling ++ rest ∧
        ∃ started body,
          Routine.start signature.parameters otherWork.options.tempSlots = .ok started ∧
          compiled.instructions = started.code.toList ++ body ∧
          ∀ (natives : Natives) (machine : Machine),
            (∀ argument value, (argument, value) ∈ arguments.zip values →
              value.location.Movable routine.frame (tree.kindOf argument)) →
            target.location.Movable routine.frame .ptr →
            56 + routine.frame.size.toNat ≤ machine.depth → machine.depth ≤ 2 ^ 62 →
            ∃ state, machine.calls natives calling = [state] ∧
              state.get Convention.callTarget = machine.value target.location ∧
              ∀ (returnAddress : Word) (index : Nat) (value : Storage),
                values[index]? = some value →
                  ∃ home, started.frame.home? index = some home ∧
                    ((state.push returnAddress).after natives started.code.toList).value
                      (.slot home) = machine.value value.location := by
  have of := Stage.of_ofArguments staged
  obtain ⟨values, target, ready, routine, prepared, writes, complete, later, calling, rest, there,
    code, calls⟩ := of.calls_emitCall few done
  obtain ⟨started, body, starts, begins⟩ := starts_of_compile compiles
  have length : stage.arguments.length = arguments.length := by
    rw [← of.nodes, List.length_map]
  have places (index : Nat) : (Convention.places signature.parameters)[index]? =
      stage.arguments[index]?.map Staged.place := by
    rw [parameters, ← of.places, List.getElem?_map]
  have size : signature.parameters.length = arguments.length := by
    rw [parameters, List.length_map]
  refine ⟨values, target, ready, routine, prepared, writes, complete.trans length, later, calling,
    rest, there, code, started, body, starts, begins,
    fun natives machine movable pointer below above => ?_⟩
  have movableStaged : ∀ argument value, (argument, value) ∈ stage.arguments.zip values →
      value.location.Movable routine.frame argument.kind := by
    intro argument value paired
    rw [of.kind (List.of_mem_zip paired).1]
    refine movable argument.node value ?_
    rw [← of.nodes, List.zip_map_left]
    exact List.mem_map_of_mem paired
  obtain ⟨state, once, delivers⟩ := calls natives machine movableStaged pointer below above
  refine ⟨state, once, ?_, fun returnAddress index value found => ?_⟩
  · exact delivers ⟨.register Convention.callTarget, target.location⟩
      (List.mem_append_right _ (List.mem_singleton_self _))
  · obtain ⟨within, _⟩ := List.getElem?_eq_some_iff.mp found
    obtain ⟨argument, here⟩ : ∃ argument, stage.arguments[index]? = some argument :=
      ⟨_, List.getElem?_eq_getElem (complete ▸ within)⟩
    have paired : (argument, value) ∈ stage.arguments.zip values :=
      List.mem_of_getElem? (List.getElem?_zip_eq_some.mpr ⟨here, found⟩)
    have placed : (Convention.places signature.parameters)[index]? = some argument.place := by
      rw [places, here, Option.map_some]
    have moved : state.argument argument.place = machine.value value.location :=
      delivers ⟨argument.place, value.location⟩
        (List.mem_append_left _ (List.mem_map_of_mem paired))
    obtain ⟨home, homed, holds⟩ :=
      Routine.homes_of_call starts (size ▸ small) natives state returnAddress placed
    exact ⟨home, homed, holds.trans moved⟩

/-- Seven integers, which are in a register, in the home of a parameter and constants, and a
floating-point constant reach a function of eight parameters. The last integer is passed on the
stack. -/
theorem emitCall_arrives_mixed :
    let tree : Tree := ⟨#[⟨.ptr, .constant 4096, 1⟩, ⟨.i64, .parameter 0, 5⟩,
      ⟨.i64, .constant 7, 3⟩, ⟨.i64, .arith .add 1 2, 1⟩,
      ⟨.f64, .constant 0x3ff0000000000000, 1⟩,
      ⟨.i64, .call 0 [3, 1, 2, 1, 2, 1, 1, 4], 0⟩]⟩
    let stage := (Stage.ofArguments tree [3, 1, 2, 1, 2, 1, 1, 4]).toOption.getD .new
    let work : Workspace := { Workspace.new .default with
      labels := .ofList [(0, 1), (1, 1), (2, 1), (3, 1), (4, 1), (5, 1)] }
    let signature : Signature := ⟨List.replicate 7 .i64 ++ [.f64], .i64⟩
    ∃ values target ready calling rest result after later compiled last body,
      ∃ routine started : Routine,
      stage.prepare tree (Generation.visit tree) 0 work = .ok (values, target) ready ∧
      values.map Storage.location = [.register .rdi, .slot (-48), .constant 7, .slot (-48),
        .constant 7, .slot (-48), .slot (-48), .constant 0x3ff0000000000000] ∧
      stage.emitCall tree (Generation.visit tree) 0 5 .i64 none work = .ok result after ∧
      after.routine = some later ∧
      later.code.toList = routine.code.toList ++ calling ++ rest ∧
      compile ⟨#[⟨.i64, .parameter 6, 0⟩]⟩ signature 0 (.new .default) = .ok compiled last ∧
      compiled.instructions = started.code.toList ++ body ∧
      ∀ (natives : Natives) (machine : Machine),
        56 + routine.frame.size.toNat ≤ machine.depth → machine.depth ≤ 2 ^ 62 →
        ∃ state, machine.calls natives calling = [state] ∧
          ∀ (returnAddress : Word) (index : Nat) (value : Storage), values[index]? = some value →
            ∃ home, started.frame.home? index = some home ∧
              ((state.push returnAddress).after natives started.code.toList).value
                (.slot home) = machine.value value.location := by
  intro tree stage work signature
  have staged : Stage.ofArguments tree [3, 1, 2, 1, 2, 1, 1, 4] = .ok stage := rfl
  obtain ⟨result, after, done⟩ : ∃ result after,
      stage.emitCall tree (Generation.visit tree) 0 5 .i64 none work = .ok result after := by
    decide +kernel
  obtain ⟨compiled, last, compiles⟩ : ∃ compiled last,
      compile ⟨#[⟨.i64, .parameter 6, 0⟩]⟩ signature 0 (.new .default) = .ok compiled last := by
    decide +kernel
  obtain ⟨evaluated, ready, prepares, locations, begun, movable⟩ : ∃ evaluated ready,
      stage.prepare tree (Generation.visit tree) 0 work = .ok evaluated ready ∧
      evaluated.1.map Storage.location = [.register .rdi, .slot (-48), .constant 7, .slot (-48),
        .constant 7, .slot (-48), .slot (-48), .constant 0x3ff0000000000000] ∧
      ready.routine.isSome ∧ ∀ routine ∈ ready.routine,
        (∀ pair ∈ [3, 1, 2, 1, 2, 1, 1, 4].zip evaluated.1,
          pair.2.location.Movable routine.frame (tree.kindOf pair.1)) ∧
        evaluated.2.location.Movable routine.frame .ptr := by decide +kernel
  obtain ⟨values, target, _, routine, prepared, writes, _, later, calling, rest, there, code,
    started, body, _, begins, arrives⟩ :=
    emitCall_arrives staged (by decide) done compiles rfl (by decide)
  cases prepares.symm.trans prepared
  rcases writes with same | opens
  · obtain ⟨able, pointed⟩ := movable routine same
    refine ⟨values, target, ready, calling, rest, result, after, later, compiled, last, body,
      routine, started, prepared, locations, done, there, code, compiles, begins,
      fun natives machine below above => ?_⟩
    obtain ⟨state, once, _, arrived⟩ := arrives natives machine
      (fun argument value paired => able (argument, value) paired) pointed below above
    exact ⟨state, once, arrived⟩
  · simp [opens.none] at begun

end NativeExpr
