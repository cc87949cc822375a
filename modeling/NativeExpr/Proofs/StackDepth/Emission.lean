import Mathlib.Logic.Relation
import NativeExpr.Proofs.Machine.Agreement
import NativeExpr.Proofs.Routine

/-!
# The depth of the stack while code is written

`Routine.Emits` lists the steps in which the body of a function is written. Each of them keeps
the counter of a routine equal to the distance of the stack pointer below the frame, and
writes a call only where the stack pointer is aligned; `Level.emits` says so.

The counter has 32 bits, so the distance is told modulo `2 ^ 32`.
-/

namespace NativeExpr

/-- Whether native functions that are called with an aligned stack leave the stack pointer as
they find it. -/
def Natives.KeepStack (natives : Natives) : Prop :=
  ∀ address (machine : Machine), (machine.get .rsp).toNat % 16 = 0 →
    (natives address machine).get .rsp = machine.get .rsp

/-- Requests that neither return nor call and leave the stack pointer where it is. -/
structure Request.KeepStack (requests : List Request) : Prop where
  plain : ∀ request ∈ requests, request.Plain
  stack : ∀ natives (machine : Machine),
    (effects natives machine requests).get .rsp = machine.get .rsp

/-- The stack pointer at the bottom of a frame, for a function entered in a given state: below
the saved frame pointer, the saved registers and the body. -/
def Frame.bottom (frame : Frame) (entry : Machine) : Word :=
  entry.get .rsp - 8 - 8 * BitVec.ofNat 64 Convention.calleeSaved.length -
    frame.size.signExtend 64

theorem Frame.bottom_eq (frame : Frame) (entry : Machine) :
    frame.bottom entry = entry.get .rsp - 48 - frame.size.signExtend 64 := by
  have saved : (8 : Word) + 8 * BitVec.ofNat 64 Convention.calleeSaved.length = 48 := rfl
  rw [bottom, BitVec.sub_sub _ 8, saved]

namespace Routine

/-- One step in writing the body of a function. A call is written only where the depth is a
multiple of sixteen. -/
inductive Emits : Routine → Routine → Prop
  | save {routine after register value} (other : register ≠ .rsp)
      (done : save register routine = .ok value after) : Emits routine after
  | restore {routine after register value} (real : register.InBank) (other : register ≠ .rsp)
      (done : restore register routine = .ok value after) : Emits routine after
  | reserve {routine after bytes value}
      (done : reserve bytes routine = .ok value after) : Emits routine after
  | giveUp {routine after bytes value}
      (done : giveUp bytes routine = .ok value after) : Emits routine after
  | write {routine after requests value} (level : Request.KeepStack requests)
      (done : write requests routine = .ok value after) : Emits routine after
  | call {routine after value} (aligned : routine.pushed % 16 = 0)
      (done : write [.call Convention.callTarget] routine = .ok value after) : Emits routine after
  | frame {routine} (frame : Frame) : Emits routine { routine with frame := frame }

/-- The stack pointer after the code of a routine. -/
def stackPointer (natives : Natives) (entry : Machine) (routine : Routine) : Word :=
  (entry.after natives routine.code.toList).get .rsp

/-- Whether the counter of a routine tells how far the stack pointer is below an address, and
the stack pointer is aligned at every call in its code. -/
structure Level (natives : Natives) (entry : Machine) (bottom : Word) (routine : Routine) : Prop
    where
  depth : routine.pushed.toNat =
    (bottom - routine.stackPointer natives entry).toNat % 2 ^ 32
  aligned : ∀ before operand later,
    routine.code.toList = before ++ Instruction.call operand :: later →
      ((entry.after natives before).get .rsp).toNat % 16 = 0

variable {natives : Natives} {entry : Machine} {bottom : Word} {routine after : Routine}

/-- Code without calls after other code leaves the calls where they are. -/
theorem split_of_noCall {code instructions before later : List Instruction} {operand : Gpr}
    (noCall : Instruction.call operand ∉ instructions)
    (split : code ++ instructions = before ++ Instruction.call operand :: later) :
    ∃ rest, code = before ++ Instruction.call operand :: rest := by
  rcases List.append_eq_append_iff.mp split with ⟨middle, rfl, same⟩ | ⟨middle, rfl, same⟩
  · have member : Instruction.call operand ∈ instructions := by simp [same]
    exact absurd member noCall
  · cases middle with
    | nil =>
      simp only [List.nil_append] at same
      have member : Instruction.call operand ∈ instructions := same ▸ List.mem_cons_self
      exact absurd member noCall
    | cons first rest =>
      simp only [List.cons_append, List.cons.injEq] at same
      exact ⟨rest, by rw [same.1]⟩

/-- Straight code that moves the stack pointer as the counter is moved keeps a routine level. -/
theorem Level.append (level : Level natives entry bottom routine)
    {instructions : List Instruction} (straight : Straight instructions) (distance : Word)
    {pushed : BitVec 32}
    (moves : ∀ machine : Machine,
      (machine.after natives instructions).get .rsp = machine.get .rsp - distance)
    (counts : pushed.toNat = (routine.pushed.toNat + distance.toNat) % 2 ^ 32) :
    Level natives entry bottom { routine.append instructions with pushed := pushed } := by
  constructor
  · have depth := level.depth
    simp only [stackPointer, code_append, Machine.after_append, moves] at depth ⊢
    rw [BitVec.toNat_sub] at depth ⊢
    rw [BitVec.toNat_sub]
    omega
  · intro before operand later split
    simp only [code_append] at split
    obtain ⟨rest, code⟩ := split_of_noCall (straight.call operand) split
    exact level.aligned before operand rest code

/-- Where the depth is a multiple of sixteen the stack pointer is aligned. -/
theorem Level.stack_aligned (level : Level natives entry bottom routine)
    (even : bottom.toNat % 16 = 0) (full : routine.pushed % 16 = 0) :
    (routine.stackPointer natives entry).toNat % 16 = 0 := by
  have depth := level.depth
  have counted : routine.pushed.toNat % 16 = 0 := by
    have := congrArg BitVec.toNat full
    simpa [BitVec.toNat_umod] using this
  rw [BitVec.toNat_sub] at depth
  omega

/-- A call where the stack pointer is aligned keeps a routine level. -/
theorem Level.append_call (level : Level natives entry bottom routine) (keep : natives.KeepStack)
    (aligned : (routine.stackPointer natives entry).toNat % 16 = 0) (pointer : Gpr) :
    Level natives entry bottom (routine.append [.call pointer]) := by
  have kept := keep ((entry.after natives routine.code.toList).gpr pointer) _ aligned
  constructor
  · have depth := level.depth
    simp only [stackPointer, code_append, Machine.after_append, Machine.after_singleton,
      Instruction.execute, pushed_append] at depth ⊢
    rw [kept]
    exact depth
  · intro before operand later split
    rw [code_append] at split
    -- Either this is the call that is appended, or it is in the code before.
    rcases List.eq_nil_or_concat later with rfl | ⟨rest, last, rfl⟩
    · obtain ⟨code, -⟩ := List.append_inj' split rfl
      exact code ▸ aligned
    · rw [List.concat_eq_append, ← List.cons_append, ← List.append_assoc] at split
      obtain ⟨code, -⟩ := List.append_inj' split rfl
      exact level.aligned before operand rest code

/-- A step keeps a routine level. -/
theorem Level.emits (keep : natives.KeepStack) (even : bottom.toNat % 16 = 0)
    (level : Level natives entry bottom routine) (step : Emits routine after) :
    Level natives entry bottom after := by
  cases step with
  | save other done =>
    obtain ⟨instructions, straight, rfl, effect, _⟩ := of_save done
    apply level.append straight (8)
    · intro machine
      simp [effect, Request.effect]
    · simp [BitVec.toNat_add]
  | restore real other done =>
    obtain ⟨instructions, straight, rfl, effect, _⟩ := of_restore done
    apply level.append straight (-8)
    · intro machine
      rw [effect, Request.effect, Machine.get_set_other _ _ real (by decide) other.symm,
        Machine.get_set_self, BitVec.sub_neg]
    · simp only [BitVec.toNat_sub, BitVec.toNat_neg]
      simp
      omega
  | @reserve _ bytes _ done =>
    obtain ⟨instructions, straight, rfl, effect, _⟩ := of_reserve done
    apply level.append straight (bytes.signExtend 64)
    · intro machine
      simp [effect]
    · have extended := Machine.toNat_signExtend_mod bytes
      rw [BitVec.toNat_add]
      omega
  | @giveUp _ bytes _ done =>
    obtain ⟨instructions, straight, rfl, effect, _⟩ := of_giveUp done
    apply level.append straight (-bytes.signExtend 64)
    · intro machine
      rw [effect, Machine.get_set_self, BitVec.sub_neg]
    · have extended := Machine.toNat_signExtend_mod bytes
      rw [BitVec.toNat_sub, BitVec.toNat_neg]
      omega
  | write levelRequests done =>
    obtain ⟨instructions, granted, rfl⟩ := write_eq_ok.mp done
    apply level.append (straight_of_assemble granted levelRequests.plain) 0
    · intro machine
      simp [after_of_assemble natives machine granted, levelRequests.stack]
    · simp
      omega
  | call full done =>
    obtain ⟨instructions, granted, rfl⟩ := write_eq_ok.mp done
    obtain rfl : [Instruction.call 0] = instructions := congrArg Assembly.instructions granted
    exact level.append_call keep (level.stack_aligned even full) 0
  | frame frame => exact ⟨level.depth, level.aligned⟩

/-- What is reached by steps from a level routine is level. -/
theorem Level.emitted (keep : natives.KeepStack) (even : bottom.toNat % 16 = 0)
    (level : Level natives entry bottom routine)
    (steps : Relation.ReflTransGen Emits routine after) : Level natives entry bottom after := by
  induction steps with
  | refl => exact level
  | tail _ step ih => exact ih.emits keep even step

end Routine

end NativeExpr
