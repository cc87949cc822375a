import NativeExpr.Generation.Staging
import NativeExpr.Proofs.Routine

/-!
# What becomes of functions

A step in writing a function leaves it with more instructions, another depth of the stack or other
slots to hand out, whether it succeeds or fails. A relation that holds of none and of several
changes, one after the other, and of those that a step makes, holds of what the step is given and
what it leaves. So no step takes back what has been written, and the homes of the parameters and the
places that they arrive in stay what they were when the function was begun.
-/

namespace NativeExpr

theorem Frame.homes_allocate (frame : Frame) : frame.allocate.2.homes = frame.homes := by
  simp only [allocate]
  cases frame.free <;> rfl

namespace Routine

/-- The routine that a step leaves, whether it succeeds or not. -/
def Step.leaves {α : Type} (step : Step α) (routine : Routine) : Routine :=
  match step routine with
  | .ok _ later => later
  | .error _ later => later

/-- Whether a step has routines evolve in a certain way, even if it fails. -/
def Step.Evolves {α : Type} (step : Step α) (evolves : Routine → Routine → Prop) : Prop :=
  ∀ routine : Routine, evolves routine (step.leaves routine)

/-- Whether routines evolve in a certain way when instructions are added and the depth of the stack
is counted, and go on doing so. -/
structure Evolution (evolves : Routine → Routine → Prop) : Prop where
  refl : ∀ routine, evolves routine routine
  trans : ∀ {routine between later}, evolves routine between → evolves between later →
    evolves routine later
  append : ∀ (routine : Routine) instructions, evolves routine (routine.append instructions)
  pushed : ∀ (routine : Routine) pushed, evolves routine { routine with pushed := pushed }

namespace Evolution

variable {evolves : Routine → Routine → Prop} {α β : Type} (evolution : Evolution evolves)

include evolution

theorem pure (value : α) : (pure value : Step α).Evolves evolves := evolution.refl

omit evolution in
theorem look {next : Routine → Step α} (rest : ∀ routine, (next routine).Evolves evolves) :
    ((get : Step Routine) >>= next).Evolves evolves :=
  fun routine => rest routine routine

/-- What follows a step, if the step succeeds. -/
theorem bind {step : Step α} {next : α → Step β} (first : step.Evolves evolves)
    (rest : ∀ value, (next value).Evolves evolves) : (step >>= next).Evolves evolves := by
  intro routine
  have start := first routine
  simp only [Step.leaves, Bind.bind, EStateM.bind] at start ⊢
  cases done : step routine with
  | ok value between =>
    rw [done] at start
    exact evolution.trans start (rest value between)
  | error fault between =>
    rw [done] at start
    exact start

/-- Requests that are not all granted are written up to the fault. -/
theorem write (requests : List Request) : (write requests).Evolves evolves := by
  intro routine
  simp only [Step.leaves, Routine.write, Code.write]
  cases (assemble requests).fault <;> exact evolution.append routine _

theorem deepen (bytes : BitVec 32) : (deepen bytes).Evolves evolves :=
  fun routine => evolution.pushed routine _

theorem lift (bytes : BitVec 32) : (lift bytes).Evolves evolves :=
  fun routine => evolution.pushed routine _

theorem home (index : Nat) : (home? index).Evolves evolves :=
  look fun _ => evolution.pure _

theorem save (register : Register) : (save register).Evolves evolves :=
  evolution.bind (evolution.write _) fun _ => evolution.deepen 8

theorem restore (register : Register) : (restore register).Evolves evolves :=
  evolution.bind (evolution.write _) fun _ => evolution.lift 8

theorem reserve (bytes : BitVec 32) : (reserve bytes).Evolves evolves := by
  simp only [Routine.reserve]
  split
  · exact evolution.bind (evolution.write _) fun _ => evolution.deepen bytes
  · exact evolution.pure ()

theorem giveUp (bytes : BitVec 32) : (giveUp bytes).Evolves evolves := by
  simp only [Routine.giveUp]
  split
  · exact evolution.bind (evolution.write _) fun _ => evolution.lift bytes
  · exact evolution.pure ()

/-- The call itself, with the moves of its arguments and its outgoing area. -/
theorem callThrough (stage : Stage) (moves : List Move) :
    Step.Evolves (do
      let outgoing := stage.stackSize + (← get).callPadding stage.stackSize
      Routine.reserve outgoing
      Routine.write (MoveSchedule.ofMoves moves).requests
      Routine.write [.call Convention.callTarget]
      Routine.giveUp outgoing : Step Unit) evolves :=
  look fun _ => evolution.bind (evolution.reserve _) fun _ =>
    evolution.bind (evolution.write _) fun _ => evolution.bind (evolution.write _) fun _ =>
      evolution.giveUp _

end Evolution

/-- Instructions and the depth of the stack are no part of the frame. -/
theorem evolution_frame : Evolution fun routine later => later.frame = routine.frame where
  refl _ := rfl
  trans first second := second.trans first
  append _ _ := rfl
  pushed _ _ := rfl

/-- Whether a routine is another one with more code, another depth of the stack or other slots to
hand out. -/
structure Extends (routine later : Routine) : Prop where
  code : routine.code.toList <+: later.code.toList
  homes : later.frame.homes = routine.frame.homes
  parameters : later.parameters = routine.parameters

theorem evolution_extends : Evolution Extends where
  refl _ := ⟨List.prefix_rfl, rfl, rfl⟩
  trans first second :=
    ⟨first.code.trans second.code, second.homes.trans first.homes,
      second.parameters.trans first.parameters⟩
  append _ instructions := ⟨⟨instructions, (code_append ..).symm⟩, rfl, rfl⟩
  pushed _ _ := ⟨List.prefix_rfl, rfl, rfl⟩

theorem extends_allocateSlot : allocateSlot.Evolves Extends :=
  fun routine => ⟨List.prefix_rfl, routine.frame.homes_allocate, rfl⟩

theorem extends_releaseSlot (offset : Offset) : (releaseSlot offset).Evolves Extends :=
  fun _ => ⟨List.prefix_rfl, rfl, rfl⟩

end Routine

end NativeExpr
