import NativeExpr.Proofs.Compilation
import NativeExpr.Proofs.Frame
import NativeExpr.Proofs.StackDepth.Generation

/-!
# Aligned calls and balanced depth

`compile_aligned` puts the depth of the stack together for a whole function: from the frame,
which leaves the stack pointer aligned, over the steps in which the body is written to the
epilogue, where nothing is left on the stack.
-/

namespace NativeExpr

open Relation (ReflTransGen)

namespace Frame

/-- The bottom of a frame is aligned if the function is entered as by a call from an aligned
stack. -/
theorem bottom_aligned {entry : Machine} (aligned : (entry.get .rsp).toNat % 16 = 8)
    (parameters slots : Nat) : ((Frame.new parameters slots).bottom entry).toNat % 16 = 0 := by
  have size := toNat_bodySize_mod (parameters + slots)
  have extended := Machine.toNat_signExtend_mod (bodySize (parameters + slots))
  simp only [Frame.bottom_eq, Frame.new, BitVec.toNat_sub, BitVec.reduceToNat]
  omega

end Frame

namespace Routine

variable {natives : Natives} {entry : Machine}

/-- Every push lowers the stack pointer by a word. -/
theorem get_rsp_pushes (natives : Natives) (saved : List Register) (machine : Machine) :
    (Request.effects natives machine (saved.map Request.push)).get .rsp =
      machine.get .rsp - 8 * BitVec.ofNat 64 saved.length := by
  induction saved generalizing machine with
  | nil => simp
  | cons register rest ih =>
    rw [List.map_cons, Request.effects_cons, ih, Request.effect, Machine.get_store,
      Machine.get_set_self, BitVec.sub_sub, List.length_cons, BitVec.ofNat_add,
      BitVec.mul_add, BitVec.add_comm]
    rfl

/-- Filling the homes leaves the stack pointer alone. -/
theorem keepStack_homing (frame : Frame) (parameters : List Place) :
    Request.KeepStack (homing frame parameters) where
  plain := plain_homing frame parameters
  stack natives machine := by
    simp only [homing]
    induction frame.homes.zip parameters generalizing machine with
    | nil => rfl
    | cons first rest ih =>
      obtain ⟨home, place⟩ := first
      rw [List.flatMap_cons, Request.effects_append, ih]
      cases place with
      | register register => simp [homeParameter, Request.effect]
      | stack offset =>
        simp only [homeParameter, Convention.scratch, Request.effects_cons, Request.effects_nil,
          Request.effect, Machine.get_store]
        exact Machine.get_set_other machine _ (by decide) (by decide) (by decide)

/-- The prologue lowers the stack pointer to the bottom of the frame. -/
theorem get_rsp_entering (natives : Natives) (machine : Machine) (routine : Routine) :
    (Request.effects natives machine (entering routine)).get .rsp =
      routine.frame.bottom machine := by
  rw [entering, Request.effects_append, (keepStack_homing _ _).stack, Transfer.prologue,
    Request.effects_append, Request.effects_append]
  have body (lowered : Machine) : (Request.effects natives lowered
      (if routine.frame.size = 0 then []
        else [.arithConstant .sub .rsp routine.frame.size])).get .rsp =
      lowered.get .rsp - routine.frame.size.signExtend 64 := by
    split
    · rename_i empty
      simp [empty]
    · simp [Request.effect, Arithmetic.apply]
  have pointer : (Request.effects natives machine [.push .rbp, .move .rbp .rsp]).get .rsp =
      machine.get .rsp - 8 := by
    simp only [Request.effects_cons, Request.effects_nil, Request.effect]
    rw [Machine.get_set_other _ _ (by decide) (by decide) (by decide), Machine.get_store,
      Machine.get_set_self]
  rw [body, get_rsp_pushes, pointer, Frame.bottom]

section

variable {parameters : List Kind} {slots : Nat} {started : Routine}

/-- The code with which a function begins lowers the stack pointer to the bottom of its frame. -/
theorem stackPointer_of_start (done : start parameters slots = .ok started) (natives : Natives)
    (entry : Machine) : started.stackPointer natives entry = started.frame.bottom entry := by
  obtain ⟨instructions, granted, rfl⟩ := of_start done
  rw [stackPointer, code_append_new, after_of_assemble natives entry granted, get_rsp_entering]
  rfl

/-- A function that has just been begun is level. -/
theorem level_of_start (done : start parameters slots = .ok started) :
    Level natives entry (started.frame.bottom entry) started := by
  have stack := stackPointer_of_start done natives entry
  obtain ⟨instructions, granted, rfl⟩ := of_start done
  have straight := straight_entering granted
  constructor
  · rw [stack]
    simp [new]
  · intro before operand later split
    rw [code_append_new] at split
    have member : Instruction.call operand ∈ instructions := by simp [split]
    exact absurd member (straight.call operand)

end

/-- Ending a function adds no call. -/
theorem of_leave {routine ended : Routine} {result : Location} {kind : Kind} {value : Unit}
    (done : leave result kind routine = .ok value ended) :
    ∀ before operand later, ended.code.toList = before ++ Instruction.call operand :: later →
      ∃ rest, routine.code.toList = before ++ Instruction.call operand :: rest := by
  obtain ⟨instructions, granted, rfl⟩ := write_eq_ok.mp done
  intro before operand later split
  rw [code_append] at split
  refine split_of_noCall (fun member => ?_) split
  obtain ⟨register, asked⟩ := (origin_of_assemble granted).2 operand member
  rcases List.mem_append.mp asked with asked | asked
  · exact Transfer.plain_intoRegister _ result _ asked
  · simp [Transfer.epilogue] at asked

end Routine

/-- Every call of a compiled function is made with an aligned stack, and the depth that is
tracked while it is written is the distance of the stack pointer below the frame. The counter
has 32 bits, so the distance is told modulo `2 ^ 32`. -/
theorem compile_aligned {natives : Natives} (keep : natives.KeepStack) {tree : Tree}
    {signature : Signature} {root : NodeId} {work after : Workspace} {compiled : Compiled}
    (configured : work.Configured)
    (done : compile tree signature root work = .ok compiled after) {entry : Machine}
    (aligned : (entry.get .rsp).toNat % 16 = 8) :
    (∀ before operand later, compiled.instructions = before ++ .call operand :: later →
      ((entry.after natives before).get .rsp).toNat % 16 = 0) ∧
    ∃ started finished ended result,
      Routine.start signature.parameters work.options.tempSlots = .ok started ∧
      ReflTransGen Routine.Emits started finished ∧ finished.pushed = 0 ∧
      Routine.leave result signature.result finished = .ok () ended ∧
      compiled.instructions = ended.code.toList ∧
      ∀ routine, ReflTransGen Routine.Emits started routine →
        routine.pushed.toNat = (started.frame.bottom entry -
          routine.stackPointer natives entry).toNat % 2 ^ 32 := by
  obtain ⟨labels, started, result, generated, released, _, _, starting, generating, releasing,
    finishing⟩ := of_compile done
  obtain ⟨instructions, granted, begun⟩ := Routine.of_start starting
  have even : (started.frame.bottom entry).toNat % 16 = 0 := by
    rw [begun]
    exact Frame.bottom_aligned aligned _ _
  have level : started.Level natives entry (started.frame.bottom entry) :=
    Routine.level_of_start starting
  have origin : Workspace.Stands started 0
      { work.reset with labels := labels, routine := some started } :=
    ⟨⟨started, rfl, .refl, by rw [begun]; rfl⟩, rfl, configured.sound_reset⟩
  have standing := (Generation.visit_level started tree _ _ _ _ _ _ origin generating).release
    releasing
  obtain ⟨finished, here, steps, empty⟩ := standing.begun
  obtain ⟨⟨ended, leaving, code⟩, _⟩ := Compilation.of_finish here finishing
  refine ⟨?_, started, finished, ended, result.location, starting, steps, empty, leaving, code, ?_⟩
  · intro before operand later split
    obtain ⟨rest, split⟩ := Routine.of_leave leaving before operand later (code ▸ split)
    exact (level.emitted keep even steps).aligned before operand rest split
  · intro routine reached
    exact (level.emitted keep even reached).depth

/-- A sum is live across a call one argument of which is another call. -/
theorem compile_aligned_nested :
    let tree : Tree := ⟨#[⟨.i64, .parameter 0, 4⟩, ⟨.ptr, .constant 4096, 2⟩,
      ⟨.i64, .call 1 [0], 1⟩, ⟨.i64, .call 1 [2, 0], 1⟩, ⟨.i64, .arith .add 0 0, 1⟩,
      ⟨.i64, .arith .add 4 3, 0⟩]⟩
    let natives : Natives := fun _ machine => machine
    let entry : Machine := ⟨fun _ => 0x7ff8, fun _ => 0, fun _ => 0⟩
    ∃ compiled after, compile tree ⟨[.i64], .i64⟩ 5 (.new .default) = .ok compiled after ∧
      .call 0 ∈ compiled.instructions ∧
      ∀ before operand later, compiled.instructions = before ++ .call operand :: later →
        ((entry.after natives before).get .rsp).toNat % 16 = 0 := by
  intro tree natives entry
  obtain ⟨compiled, after, done, calls⟩ : ∃ compiled after,
      compile tree ⟨[.i64], .i64⟩ 5 (.new .default) = .ok compiled after ∧
        .call 0 ∈ compiled.instructions := by decide +kernel
  refine ⟨compiled, after, done, calls, ?_⟩
  exact (compile_aligned (fun _ _ _ => rfl) (Workspace.configured_new .default) done (by decide)).1

end NativeExpr
