import NativeExpr.Proofs.Generation.Basic
import NativeExpr.Proofs.MoveSchedule.Simultaneous
import NativeExpr.Proofs.StackDepth.Emission

/-!
# The depth of the stack while nodes are generated

Code generation writes a function in the steps of `Routine.Emits`, and when a node has been
generated the stack is as deep as before: a call site gives up its outgoing area and restores
what it saved, however calls are nested in its arguments. `visit_stands` says so.
-/

namespace NativeExpr

open Relation (ReflTransGen)

/-- Requests that leave the stack pointer alone when they bring a value into a register. -/
theorem Transfer.keepStack_intoRegister {target : Register} (usable : target.Usable)
    (source : Location) : Request.KeepStack (intoRegister target source) where
  plain := plain_intoRegister target source
  stack natives machine := by
    have agree := (effects_intoRegister natives machine usable.inBank source).2
    apply agree.get .rsp (by decide)
    cases target.bank <;> simp [usable.ne_rsp.symm]

theorem MoveSchedule.keepStack_ofMoves {moves : List Move}
    (targets : ∀ move ∈ moves, ∀ register, move.target = .register register →
      register.InBank ∧ register ≠ .rsp) : Request.KeepStack (ofMoves moves).requests where
  plain := plain_ofMoves moves
  stack natives machine := by
    have confined := ofMoves_confined natives
      (fun move listed register target => (targets move listed register target).1) machine
    apply confined.get .rsp (by decide) (by decide) (by decide)
    intro move listed same
    exact (targets move listed .rsp same).2 rfl

/-- Arithmetic with a usable register leaves the stack pointer alone. -/
theorem Generation.keepStack_applyOperand (operation : Arithmetic) {target : Register}
    (usable : target.Usable) (operand : Location) :
    Request.KeepStack (applyOperand operation target operand) where
  plain := plain_applyOperand operation target operand
  stack natives machine := by
    have agree := (effects_applyOperand natives machine usable operation operand).2
    apply agree.get .rsp (by decide)
    simp [usable.ne_rsp.symm]

/-- Whether a function is being written in steps from an origin, its stack being at a depth of
whole words, with a sound pool of registers. -/
structure Workspace.Stands (origin : Routine) (depth : BitVec 32) (work : Workspace) : Prop where
  begun : ∃ routine, work.routine = some routine ∧ ReflTransGen Routine.Emits origin routine ∧
    routine.pushed = depth
  words : depth.toNat % 8 = 0
  sound : work.pool.Sound

namespace Workspace.Stands

variable {origin : Routine} {depth : BitVec 32} {before after : Workspace} {tree : Tree}
variable {α : Type} {value : α}

theorem withPool {pool : RegisterPool} (stands : Stands origin depth before)
    (sound : pool.Sound) : Stands origin depth { before with pool := pool } :=
  ⟨stands.begun, stands.words, sound⟩

/-- Taking a register back or changing its owner keeps the depth. -/
theorem withFewer {pool : RegisterPool} (stands : Stands origin depth before)
    (same : pool.allocatable = before.pool.allocatable)
    (fewer : ∀ register, pool.live.contains register → before.pool.live.contains register) :
    Stands origin depth { before with pool := pool } :=
  stands.withPool (stands.sound.of_le same fewer)

/-- Handing out and taking back slots keeps the depth. -/
theorem withFrame {routine : Routine} (stands : Stands origin depth before)
    (begun : before.routine = some routine) (frame : Frame) :
    Stands origin depth { before with routine := some { routine with frame := frame } } := by
  obtain ⟨found, here, steps, pushed⟩ := stands.begun
  obtain rfl : found = routine := Option.some.inj (here.symm.trans begun)
  exact ⟨⟨_, rfl, steps.tail (.frame frame), pushed⟩, stands.words, stands.sound⟩

/-- Writing requests that leave the stack pointer alone keeps the depth. -/
theorem withCode {routine : Routine} {requests : List Request} {instructions : List Instruction}
    (stands : Stands origin depth before) (begun : before.routine = some routine)
    (keep : Request.KeepStack requests) (granted : assemble requests = ⟨instructions, none⟩) :
    Stands origin depth { before with routine := some (routine.append instructions) } := by
  obtain ⟨found, here, steps, pushed⟩ := stands.begun
  obtain rfl : found = routine := Option.some.inj (here.symm.trans begun)
  have written : Routine.write requests found = .ok () (found.append instructions) :=
    Routine.write_eq_ok.mpr ⟨instructions, granted, rfl⟩
  exact ⟨⟨_, rfl, steps.tail (.write keep written), pushed⟩, stands.words, stands.sound⟩

theorem withCounts (stands : Stands origin depth before) (statistics : Statistics) :
    Stands origin depth { before with statistics := statistics } :=
  ⟨stands.begun, stands.words, stands.sound⟩

theorem fetch {target : Register} {source : Location} {value : Unit}
    (stands : Stands origin depth before) (usable : target.Usable)
    (done : Build.fetch tree target source before = .ok value after) :
    Stands origin depth after := by
  obtain ⟨routine, begun, _⟩ := stands.begun
  obtain ⟨instructions, granted, rfl⟩ := Build.of_write begun done
  exact stands.withCode begun (Transfer.keepStack_intoRegister usable source) granted

theorem release {storage : Storage} {value : Unit} (stands : Stands origin depth before)
    (done : Build.release tree storage before = .ok value after) : Stands origin depth after := by
  obtain ⟨routine, begun, _⟩ := stands.begun
  rcases Build.of_release begun done with
    ⟨_, rfl⟩ | ⟨register, pool, _, _, released, rfl⟩ | ⟨offset, _, _, rfl⟩
  · exact stands
  · obtain ⟨_, same, live⟩ := RegisterPool.of_release released
    exact stands.withFewer same fun other member => ((live other).mp member).1
  · exact stands.withFrame begun _

theorem releaseAll {storages : List Storage} {value : Unit} (stands : Stands origin depth before)
    (done : Stage.releaseAll tree storages before = .ok value after) :
    Stands origin depth after := by
  induction storages generalizing before with
  | nil =>
    obtain ⟨_, rfl⟩ := estate_pure_eq_ok.mp done
    exact stands
  | cons storage rest ih =>
    simp only [Stage.releaseAll, estate_bind_eq_ok] at done
    obtain ⟨_, between, first, remaining⟩ := done
    exact ih (stands.release first) remaining

/-- A value is materialized in a register that may hold one. -/
theorem materialize {storage : Storage} {owner : NodeId} {hint : Option Register}
    {activity : String} {register : Register} (stands : Stands origin depth before)
    (done : Build.materialize tree storage owner hint activity before = .ok register after) :
    Stands origin depth after ∧ register.Usable := by
  rcases Build.of_materialize done with
    ⟨pool, _, transferred, rfl⟩ | ⟨_, _, allowed, _, between, fetched, released⟩
  · obtain ⟨live, same, sameLive⟩ := RegisterPool.of_transfer transferred
    refine ⟨stands.withFewer same fun other member => ?_, stands.sound.usable_of_live live⟩
    exact sameLive ▸ member
  · have usable : register.Usable := stands.sound.usable register allowed
    have taken := stands.withPool (stands.sound.assign allowed (some owner))
    exact ⟨(taken.fetch usable fetched).release released, usable⟩

/-- Storing a register in a slot leaves the stack pointer alone. -/
theorem keepStack_spill (register : Register) (offset : Offset) :
    Request.KeepStack [.store .rbp offset register] where
  plain := by simp [Request.Plain]
  stack natives machine := by simp [Request.effect]

theorem park {storage parked : Storage} (stands : Stands origin depth before)
    (done : Build.park tree storage before = .ok parked after) : Stands origin depth after := by
  obtain ⟨routine, begun, _⟩ := stands.begun
  rcases Build.of_park begun done with
    ⟨_, rfl⟩ | ⟨register, offset, rest, instructions, pool, _, _, _, granted, released, same, _⟩
  · exact stands
  · obtain ⟨_, allocatable, live⟩ := RegisterPool.of_release released
    have framed := stands.withFrame begun { routine.frame with free := rest }
    have stored := framed.withCode rfl (keepStack_spill register offset) granted
    rw [same]
    exact (stored.withFewer allocatable fun other member => ((live other).mp member).1).withCounts _

theorem parkUnderPressure {storage parked : Storage} {needed : Nat} {bank : Bank}
    (stands : Stands origin depth before)
    (done : Build.parkUnderPressure tree storage needed bank before = .ok parked after) :
    Stands origin depth after := by
  rcases Build.of_parkUnderPressure done with ⟨_, rfl⟩ | done
  · exact stands
  · exact stands.park done

theorem capture {call : NodeId} {kind : Kind} {hint : Option Register} {result : Storage}
    (stands : Stands origin depth before)
    (done : Stage.capture tree call kind hint before = .ok result after) :
    Stands origin depth after := by
  obtain ⟨routine, begun, _⟩ := stands.begun
  rcases Stage.of_capture begun done with
    ⟨register, instructions, _, allowed, _, granted, _, rfl⟩ |
    ⟨offset, rest, instructions, _, granted, _, rfl⟩
  · have usable : register.Usable := stands.sound.usable register allowed
    have written := stands.withCode begun (Transfer.keepStack_intoRegister usable _) granted
    exact written.withPool (stands.sound.assign allowed (some call))
  · have framed := stands.withFrame begun { routine.frame with free := rest }
    exact framed.withCode rfl (keepStack_spill _ offset) granted

/-- What a run of steps in the function being generated does to the depth. -/
theorem stepped {step : Routine.Step α} (stands : Stands origin depth before)
    (change : BitVec 32) (whole : change.toNat % 8 = 0)
    (steps : ∀ routine later, routine.pushed = depth → step routine = .ok value later →
      ReflTransGen Routine.Emits routine later ∧ later.pushed = depth + change)
    (done : Build.onRoutine tree step before = .ok value after) :
    Stands origin (depth + change) after := by
  obtain ⟨routine, begun, first, pushed⟩ := stands.begun
  obtain ⟨later, stepped, rfl⟩ := (Build.onRoutine_eq_ok begun).mp done
  obtain ⟨rest, deeper⟩ := steps routine later pushed stepped
  refine ⟨⟨later, rfl, first.trans rest, deeper⟩, ?_, stands.sound⟩
  have words := stands.words
  rw [BitVec.toNat_add]
  omega

theorem save {registers : List Register} {value : Unit} (stands : Stands origin depth before)
    (others : ∀ register ∈ registers, register ≠ .rsp)
    (done : Stage.save tree registers before = .ok value after) :
    Stands origin (depth + BitVec.ofNat 32 (8 * registers.length)) after := by
  induction registers generalizing depth before with
  | nil =>
    obtain ⟨_, rfl⟩ := estate_pure_eq_ok.mp done
    simpa using stands
  | cons register rest ih =>
    simp only [Stage.save, estate_bind_eq_ok] at done
    obtain ⟨_, between, first, remaining⟩ := done
    have standing : Stands origin (depth + 8) between := by
      refine stands.stepped 8 (by decide) (fun routine later pushed saved => ?_) first
      refine ⟨.single (.save (others register List.mem_cons_self) saved), ?_⟩
      obtain ⟨_, _, rfl, _⟩ := Routine.of_save saved
      rw [← pushed]
    have deeper := ih standing (fun other listed => others other (List.mem_cons_of_mem _ listed))
      remaining
    have count : depth + 8 + BitVec.ofNat 32 (8 * rest.length) =
        depth + BitVec.ofNat 32 (8 * (register :: rest).length) := by
      rw [BitVec.add_assoc, List.length_cons, Nat.mul_succ, Nat.add_comm, BitVec.ofNat_add]
      rfl
    exact count ▸ deeper

theorem restore {registers : List Register} {value : Unit}
    (others : ∀ register ∈ registers, register.InBank ∧ register ≠ .rsp)
    (stands : Stands origin (depth + BitVec.ofNat 32 (8 * registers.length)) before)
    (done : Stage.restore tree registers before = .ok value after) :
    Stands origin depth after := by
  induction registers generalizing before with
  | nil =>
    obtain ⟨_, rfl⟩ := estate_pure_eq_ok.mp done
    simpa using stands
  | cons register rest ih =>
    simp only [Stage.restore, estate_bind_eq_ok] at done
    obtain ⟨_, between, first, remaining⟩ := done
    obtain ⟨real, other⟩ := others register List.mem_cons_self
    have standing := stands.stepped (-8) (by decide) (fun routine later pushed restored => by
      refine ⟨.single (.restore real other restored), ?_⟩
      obtain ⟨_, _, rfl, _⟩ := Routine.of_restore restored
      rw [← pushed, BitVec.sub_eq_add_neg]) first
    have count : depth + BitVec.ofNat 32 (8 * (register :: rest).length) + -8 =
        depth + BitVec.ofNat 32 (8 * rest.length) := by
      rw [List.length_cons, Nat.mul_succ, BitVec.ofNat_add, BitVec.add_assoc, BitVec.add_assoc]
      simp
    exact ih (fun other listed => others other (List.mem_cons_of_mem _ listed)) (count ▸ standing)
      remaining

/-- The outgoing area of a call that is made at a depth of whole words leaves the stack
aligned. -/
theorem aligned_lowered (stage : Stage) {routine : Routine} (words : routine.pushed.toNat % 8 = 0) :
    (routine.pushed + stage.lowered routine) % 16 = 0 := by
  have rounded : stage.assigner.stackSize % 16 = 0 := Nat.mul_mod_left _ 16
  apply BitVec.eq_of_toNat_eq
  simp only [Stage.lowered, Routine.callPadding, Stage.stackSize, BitVec.toNat_umod,
    BitVec.toNat_add, BitVec.toNat_ofNat, BitVec.reduceToNat]
  omega

/-- A call keeps the depth: it gives up the area that it reserves, and in between the stack is
aligned. -/
theorem callThrough {stage : Stage} {moves : List Move} {value : Unit}
    (stands : Stands origin depth before)
    (targets : ∀ move ∈ moves, ∀ register, move.target = .register register →
      register.InBank ∧ register ≠ .rsp)
    (done : stage.callThrough tree moves before = .ok value after) :
    Stands origin depth after := by
  obtain ⟨routine, begun, steps, rfl⟩ := stands.begun
  obtain ⟨reserved, moved, called, later, reserving, moving, calling, giving, rfl⟩ :=
    Stage.of_callThrough begun done
  have aligned := aligned_lowered stage stands.words
  obtain ⟨_, _, rfl, _⟩ := Routine.of_reserve reserving
  have movement := Routine.Emits.write (MoveSchedule.keepStack_ofMoves targets) moving
  obtain ⟨_, _, rfl⟩ := Routine.write_eq_ok.mp moving
  have call := Routine.Emits.call aligned calling
  obtain ⟨_, _, rfl⟩ := Routine.write_eq_ok.mp calling
  have raise := Routine.Emits.giveUp giving
  obtain ⟨_, _, rfl, _⟩ := Routine.of_giveUp giving
  refine ⟨⟨_, rfl, ?_, ?_⟩, stands.words, stands.sound⟩
  · exact (((steps.tail (.reserve reserving)).tail movement).tail call).tail raise
  · exact BitVec.add_sub_cancel _ _

end Workspace.Stands

/-- Whether a visit keeps the depth, whatever it is. -/
def Visit.Level (origin : Routine) (visit : Visit) : Prop :=
  ∀ depth id hint before storage after, before.Stands origin depth →
    visit id hint before = .ok storage after → after.Stands origin depth

namespace Workspace.Stands

variable {origin : Routine} {depth : BitVec 32} {before after : Workspace} {tree : Tree}
variable {visit : Visit}

theorem evaluateInOrder (level : visit.Level origin) {demands : List Stage.Demand}
    {values : List (Nat × Storage)} (stands : Stands origin depth before)
    (done : Stage.evaluateInOrder tree visit demands before = .ok values after) :
    Stands origin depth after := by
  induction demands generalizing before values with
  | nil =>
    obtain ⟨_, rfl⟩ := estate_pure_eq_ok.mp done
    exact stands
  | cons demand rest ih =>
    obtain ⟨value, visited, settled, parked, others, first, parking, remaining, _⟩ :=
      Stage.of_evaluateInOrder_cons done
    have standing := level _ _ _ _ _ _ stands first
    rcases parking with ⟨_, rfl⟩ | parking
    · exact ih standing remaining
    · exact ih (standing.park parking) remaining

theorem evaluate (level : visit.Level origin) {stage : Stage} {values : List Storage}
    (stands : Stands origin depth before)
    (done : stage.evaluate tree visit before = .ok values after) : Stands origin depth after := by
  simp only [Stage.evaluate, estate_bind_eq_ok, estate_pure_eq_ok] at done
  obtain ⟨demands, _, asked, _, _, evaluated, _, rfl⟩ := done
  obtain ⟨rfl, _⟩ := Stage.of_demands asked
  exact stands.evaluateInOrder level evaluated

/-- A register that a callee may overwrite is a register of the machine and not the stack
pointer. -/
theorem of_exposed {work : Workspace} {register : Register}
    (member : (Stage.exposed work).contains register) :
    register.InBank ∧ register ≠ .rsp := by
  have callerSaved : Convention.callerSaved.contains register := by
    simp only [Stage.exposed, RegisterSet.contains_inter, Bool.and_eq_true] at member
    exact member.2
  refine ⟨RegisterSet.number_lt_of_contains callerSaved, ?_⟩
  rintro rfl
  exact absurd callerSaved (by decide)

/-- A call keeps the depth, whatever its arguments do: all that is saved is restored. -/
theorem emitCall (level : visit.Level origin) {stage : Stage} {arguments : List NodeId}
    (of : stage.Of tree arguments) {function call : NodeId} {kind : Kind} {hint : Option Register}
    {result : Storage} (stands : Stands origin depth before)
    (done : stage.emitCall tree visit function call kind hint before = .ok result after) :
    Stands origin depth after := by
  obtain ⟨early, late, values, target, entered, evaluated, pointed, released, guarded, called,
    captured, restored, earlyList, saving, evaluating, visiting, releasing, lateList, savingLate,
    calling, capturing, restoring, same, _⟩ := Stage.of_emitCall done
  have earlyOthers : ∀ register ∈ early, register.InBank ∧ register ≠ .rsp := by
    intro register listed
    rw [earlyList, RegisterSet.mem_toList] at listed
    exact of_exposed listed
  have lateOthers : ∀ register ∈ late, register.InBank ∧ register ≠ .rsp := by
    intro register listed
    rw [lateList, RegisterSet.mem_toList, RegisterSet.contains_diff, Bool.and_eq_true] at listed
    exact of_exposed listed.1
  have standing := stands.save (fun register listed => (earlyOthers register listed).2) saving
  have staged := level _ _ _ _ _ _ (standing.evaluate level evaluating) visiting
  have guard := (staged.releaseAll releasing).save
    (fun register listed => (lateOthers register listed).2) savingLate
  have through := guard.callThrough (fun move listed register place => by
    rcases List.mem_append.mp listed with listed | listed
    · obtain ⟨⟨argument, value⟩, paired, rfl⟩ := List.mem_map.mp listed
      have usable := (of.usable (List.of_mem_zip paired).1 place).1
      exact ⟨usable.inBank, usable.ne_rsp⟩
    · rw [List.mem_singleton] at listed
      rw [listed] at place
      obtain rfl := Place.register.inj place
      decide) calling
  have count : depth + BitVec.ofNat 32 (8 * early.length) + BitVec.ofNat 32 (8 * late.length) =
      depth + BitVec.ofNat 32 (8 * (early ++ late).reverse.length) := by
    rw [BitVec.add_assoc, ← BitVec.ofNat_add, List.length_reverse, List.length_append, Nat.mul_add]
  have balanced := Workspace.Stands.restore (fun register listed => by
    rcases List.mem_append.mp (List.mem_reverse.mp listed) with listed | listed
    · exact earlyOthers register listed
    · exact lateOthers register listed) (count ▸ through.capture capturing) restoring
  rw [same]
  exact balanced.withCounts _

theorem operands (level : visit.Level origin) {left right : NodeId} {hint : Option Register}
    {first second : Storage} (stands : Stands origin depth before)
    (done : Generation.operands tree visit left right hint before = .ok (first, second) after) :
    Stands origin depth after := by
  obtain ⟨needed, value, between, parked,
    ⟨_, visited, parking, later⟩ | ⟨_, visited, parking, later⟩⟩ := Generation.of_operands done
  all_goals
    have standing := (level _ _ _ _ _ _ stands visited).parkUnderPressure parking
    exact level _ _ _ _ _ _ standing later

theorem arith (level : visit.Level origin) {id : NodeId} {kind : Kind} {operation : Arithmetic}
    {left right : NodeId} {hint : Option Register} {result : Storage}
    (stands : Stands origin depth before)
    (done : Generation.arith tree visit id kind operation left right hint before =
      .ok result after) : Stands origin depth after := by
  obtain ⟨first, second, target, evaluated, placed, combined, evaluating, placing, combining,
    releasing, _⟩ := Generation.of_arith done
  obtain ⟨standing, usable⟩ := (stands.operands level evaluating).materialize placing
  obtain ⟨routine, begun, _⟩ := standing.begun
  obtain ⟨instructions, granted, rfl⟩ := Build.of_write begun combining
  have written := standing.withCode begun
    (Generation.keepStack_applyOperand operation usable second.location) granted
  exact written.release releasing

theorem operation (level : visit.Level origin) {id : NodeId} {kind : Kind}
    {hint : Option Register} {operation : Operation} {result : Storage}
    (stands : Stands origin depth before)
    (done : Generation.operation tree visit id kind hint operation before = .ok result after) :
    Stands origin depth after := by
  cases operation with
  | constant bits =>
    obtain ⟨_, rfl⟩ := estate_pure_eq_ok.mp done
    exact stands
  | parameter index =>
    obtain ⟨routine, begun, _⟩ := stands.begun
    obtain ⟨_, _, _, rfl⟩ := Generation.of_parameter begun done
    exact stands
  | arith operation left right => exact stands.arith level done
  | call function arguments =>
    simp only [Generation.operation, estate_bind_eq_ok, Build.lift_eq_ok] at done
    obtain ⟨stage, _, ⟨staged, rfl⟩, called⟩ := done
    exact stands.emitCall level (Stage.of_ofArguments staged) called

theorem node (level : visit.Level origin) {id : NodeId} {hint : Option Register}
    {result : Storage} (stands : Stands origin depth before)
    (done : Generation.node tree visit id hint before = .ok result after) :
    Stands origin depth after := by
  obtain ⟨node, _, ⟨cached, _, _, same, _⟩ | ⟨_, storage, between, generated, _, kept | single⟩⟩ :=
    Generation.of_node done
  · rw [same]
    exact stands.withCounts _
  · have standing := stands.operation level generated
    rw [kept.2.2]
    exact ⟨standing.begun, standing.words, standing.sound⟩
  · rw [single.2.2]
    exact (stands.operation level generated).withCounts _

end Workspace.Stands

/-- Generating nodes of any depth keeps the depth of the stack. -/
theorem Generation.within_level (origin : Routine) (tree : Tree) (levels : Nat) :
    Visit.Level origin (within tree levels) := by
  induction levels with
  | zero =>
    intro depth id hint before storage after _ done
    exact absurd done estate_throw_ne_ok
  | succ levels ih =>
    intro depth id hint before storage after stands done
    exact stands.node ih done

/-- Generating a node keeps the depth of the stack. -/
theorem Generation.visit_level (origin : Routine) (tree : Tree) :
    Visit.Level origin (visit tree) :=
  within_level origin tree tree.size

end NativeExpr
