import Mathlib.Algebra.BigOperators.Ring.List
import NativeExpr.Proofs.Exhaustion.Steps
import NativeExpr.Proofs.Generation.Extension
import NativeExpr.Proofs.StackDepth.Emission

/-!
# The depth of the stack after faults

A step that fails leaves the instructions that it has written before the fault. What a step that
moves the stack pointer counts and what its instructions do are two numbers, `Shift.counted` and
`Shift.lowered`; they differ in one case only, when there is room made on the stack for an XMM
register that the machine does not have. A sequence of steps adds both numbers up, and so the
counter of a routine is wrong by that room and by nothing else.
-/

namespace NativeExpr.Routine

/-- A step that moves the stack pointer. -/
inductive Shift where
  | save (register : Register)
  | restore (register : Register)
  | reserve (bytes : BitVec 32)
  | giveUp (bytes : BitVec 32)
deriving DecidableEq

namespace Shift

/-- What is written in a step. -/
def step : Shift → Step Unit
  | .save register => Routine.save register
  | .restore register => Routine.restore register
  | .reserve bytes => Routine.reserve bytes
  | .giveUp bytes => Routine.giveUp bytes

/-- The number of bytes that a step reserves or gives up, if that is what it does. -/
def bytes? : Shift → Option (BitVec 32)
  | .reserve bytes | .giveUp bytes => some bytes
  | _ => none

/-- The bytes that a step adds to the counter. One that fails adds none. -/
def counted : Shift → Int
  | .save register => if register.InBank then 8 else 0
  | .restore register => if register.InBank then -8 else 0
  | .reserve bytes => bytes.toNat
  | .giveUp bytes => -bytes.toNat

/-- Whether a step makes room on the stack and fails before it uses it. -/
def strays : Shift → Bool
  | .save register => register.bank = .xmm && !decide register.InBank
  | _ => false

/-- The bytes by which the instructions of a step lower the stack pointer. The size of an area is
signed for them. -/
def lowered : Shift → Int
  | .reserve bytes => bytes.toInt
  | .giveUp bytes => -bytes.toInt
  | shift => shift.counted + if shift.strays then 8 else 0

/-- The counter tells what the instructions do in the 32 bits that it has, but for the room that
is made in vain. -/
theorem dvd_lowered (shift : Shift) :
    (2 ^ 32 : Int) ∣ shift.lowered - (shift.counted + if shift.strays then 8 else 0) := by
  cases shift with
  | save register => simp [lowered]
  | restore register => simp [lowered]
  | reserve bytes | giveUp bytes =>
    have signed := BitVec.toInt_eq_toNat_cond bytes
    simp only [lowered, counted, strays, Bool.false_eq_true, if_false]
    split at signed <;> omega

/-- An area of less than two gibibytes has the same size for the counter and the instructions. -/
theorem lowered_eq {shift : Shift} (small : ∀ bytes ∈ shift.bytes?, bytes.toNat < 2 ^ 31) :
    shift.lowered = shift.counted + if shift.strays then 8 else 0 := by
  cases shift with
  | save register => rfl
  | restore register => rfl
  | reserve bytes | giveUp bytes =>
    have below := small bytes rfl
    have signed := BitVec.toInt_eq_toNat_cond bytes
    simp only [lowered, counted, strays, Bool.false_eq_true, if_false]
    split at signed <;> omega

/-- Areas of whole words keep the counter at whole words. -/
theorem dvd_counted {shift : Shift} (whole : ∀ bytes ∈ shift.bytes?, 8 ∣ bytes.toNat) :
    (8 : Int) ∣ shift.counted := by
  cases shift with
  | save register | restore register =>
    simp only [counted]
    split <;> decide
  | reserve bytes | giveUp bytes =>
    have words := whole bytes rfl
    simp only [counted]
    omega

/-- The bytes that some steps add to the counter. -/
def totalCounted (shifts : List Shift) : Int := (shifts.map counted).sum

/-- The bytes by which the instructions of some steps lower the stack pointer. -/
def totalLowered (shifts : List Shift) : Int := (shifts.map lowered).sum

@[simp] theorem totalCounted_cons (shift : Shift) (shifts : List Shift) :
    totalCounted (shift :: shifts) = shift.counted + totalCounted shifts := List.sum_cons

@[simp] theorem totalLowered_cons (shift : Shift) (shifts : List Shift) :
    totalLowered (shift :: shifts) = shift.lowered + totalLowered shifts := List.sum_cons

theorem dvd_totalLowered (shifts : List Shift) :
    (2 ^ 32 : Int) ∣ totalLowered shifts - (totalCounted shifts + 8 * shifts.countP strays) := by
  induction shifts with
  | nil => exact Int.dvd_zero _
  | cons first rest ih =>
    have here := first.dvd_lowered
    rw [totalCounted_cons, totalLowered_cons, List.countP_cons]
    cases stray : first.strays <;> simp only [stray, reduceIte, Bool.false_eq_true] at here ⊢ <;>
      omega

theorem totalLowered_eq {shifts : List Shift}
    (small : ∀ shift ∈ shifts, ∀ bytes ∈ shift.bytes?, bytes.toNat < 2 ^ 31) :
    totalLowered shifts = totalCounted shifts + 8 * shifts.countP strays := by
  induction shifts with
  | nil => rfl
  | cons first rest ih =>
    have here := lowered_eq (small first List.mem_cons_self)
    have later := ih fun other listed => small other (List.mem_cons_of_mem _ listed)
    rw [totalCounted_cons, totalLowered_cons, List.countP_cons]
    cases stray : first.strays <;> simp only [stray, reduceIte, Bool.false_eq_true] at here ⊢ <;>
      omega

theorem dvd_totalCounted {shifts : List Shift}
    (whole : ∀ shift ∈ shifts, ∀ bytes ∈ shift.bytes?, 8 ∣ bytes.toNat) :
    (8 : Int) ∣ totalCounted shifts := by
  refine List.dvd_sum fun bytes listed => ?_
  obtain ⟨shift, member, rfl⟩ := List.mem_map.mp listed
  exact dvd_counted (whole shift member)

end Shift

/-- The routine after a step, whether it succeeds or fails. -/
def shift (routine : Routine) (shift : Shift) : Routine := shift.step.leaves routine

/-- The routine after some steps, each of which succeeds or fails. -/
def shiftAll (routine : Routine) (shifts : List Shift) : Routine := shifts.foldl shift routine

/-- Whether a routine has come of another by instructions that lower the stack pointer by one
number of bytes, and has counted another. -/
def Lowers (counted lowered : Int) (routine after : Routine) : Prop :=
  after.pushed = routine.pushed + BitVec.ofInt 32 counted ∧
    ∃ instructions, after.code.toList = routine.code.toList ++ instructions ∧
      ∀ natives (machine : Machine), (machine.after natives instructions).get .rsp =
        machine.get .rsp - BitVec.ofInt 64 lowered

variable {routine between after : Routine} {register : Register}
variable {counted lowered countedLater loweredLater : Int}

theorem lowers_refl (routine : Routine) : Lowers 0 0 routine routine :=
  ⟨by simp, [], by simp, fun natives machine => by simp⟩

theorem Lowers.trans (first : Lowers counted lowered routine between)
    (second : Lowers countedLater loweredLater between after) :
    Lowers (counted + countedLater) (lowered + loweredLater) routine after := by
  obtain ⟨pushed, instructions, code, moves⟩ := first
  obtain ⟨pushedLater, more, codeLater, movesLater⟩ := second
  refine ⟨?_, instructions ++ more, ?_, fun natives machine => ?_⟩
  · rw [pushedLater, pushed, BitVec.ofInt_add, BitVec.add_assoc]
  · rw [codeLater, code, List.append_assoc]
  · rw [Machine.after_append, movesLater, moves, BitVec.ofInt_add, BitVec.sub_sub]

/-- Requests that are not all granted are written up to the fault. -/
theorem write_of_fault {requests : List Request} {instructions : List Instruction}
    {fault : EncodingError} (assembled : assemble requests = ⟨instructions, some fault⟩) :
    write requests routine = .error fault (routine.append instructions) := by
  simp only [write, Code.write, assembled]
  rfl

/-- Saving a register that the machine does not have fails, in one bank after making room. -/
theorem save_past_bank (past : ¬register.InBank) :
    save register routine = .error (.invalidRegister register)
      (routine.append (if register.bank = .xmm then [.arithConstant .sub 4 8] else [])) := by
  obtain ⟨bank, number⟩ := register
  simp only [Register.InBank, Bank.size] at past
  cases bank with
  | generalPurpose =>
    refine estate_bind_of_error (write_of_fault ?_)
    simp [assemble, Request.instructions, Register.toGpr, past, bind, Except.bind]
  | xmm =>
    refine estate_bind_of_error (write_of_fault ?_)
    simp [assemble, Request.instructions, Request.memory, Register.toGpr, Register.toXmm, past,
      bind, Except.bind, pure, Except.pure]

/-- Restoring a register that the machine does not have fails and writes nothing. -/
theorem restore_past_bank (past : ¬register.InBank) :
    restore register routine = .error (.invalidRegister register) routine := by
  have unchanged : routine.append [] = routine := by simp [append]
  obtain ⟨bank, number⟩ := register
  simp only [Register.InBank, Bank.size] at past
  rw [← unchanged]
  cases bank with
  | generalPurpose =>
    refine estate_bind_of_error (write_of_fault ?_)
    simp [assemble, Request.instructions, Register.toGpr, past, bind, Except.bind]
  | xmm =>
    refine estate_bind_of_error (write_of_fault ?_)
    simp [assemble, Request.instructions, Request.memory, Register.toGpr, Register.toXmm, past,
      bind, Except.bind, pure, Except.pure]

/-- What each step counts and does to the stack pointer. The one step that is left out takes the
stack pointer itself from the stack. -/
theorem lowers_shift (routine : Routine) {shift : Shift} (other : shift ≠ .restore .rsp) :
    Lowers shift.counted shift.lowered routine (routine.shift shift) := by
  cases shift with
  | save register =>
    by_cases real : register.InBank
    · obtain ⟨value, after, done⟩ := succeeds_save real routine
      obtain ⟨instructions, -, rfl, effect, -⟩ := of_save done
      simp only [Routine.shift, Step.leaves, Shift.step, done]
      refine ⟨by simp [Shift.counted, real], instructions, by simp, fun natives machine => ?_⟩
      simp [effect, Request.effect, Shift.lowered, Shift.counted, Shift.strays, real]
    · simp only [Routine.shift, Step.leaves, Shift.step, save_past_bank real]
      by_cases wide : register.bank = .xmm
      · refine ⟨by simp [Shift.counted, real], [.arithConstant .sub 4 8], by simp [wide],
          fun natives machine => ?_⟩
        have room : (Shift.save register).lowered = 8 := by
          simp [Shift.lowered, Shift.counted, Shift.strays, real, wide]
        rw [room]
        rfl
      · simpa [Shift.lowered, Shift.counted, Shift.strays, real, wide, append]
          using lowers_refl routine
  | restore register =>
    have different : register ≠ .rsp := fun same => other (same ▸ rfl)
    by_cases real : register.InBank
    · obtain ⟨value, after, done⟩ := succeeds_restore real routine
      obtain ⟨instructions, -, rfl, effect, -⟩ := of_restore done
      simp only [Routine.shift, Step.leaves, Shift.step, done]
      refine ⟨by simp [Shift.counted, real, BitVec.sub_eq_add_neg], instructions, by simp,
        fun natives machine => ?_⟩
      rw [effect, Request.effect, Machine.get_set_other _ _ real (by decide) different.symm,
        Machine.get_set_self]
      have raised : (Shift.restore register).lowered = -8 := by
        simp [Shift.lowered, Shift.counted, Shift.strays, real]
      rw [raised, BitVec.ofInt_neg, BitVec.sub_neg]
      rfl
    · simpa [Routine.shift, Step.leaves, Shift.step, restore_past_bank real, Shift.lowered,
        Shift.counted, Shift.strays, real] using lowers_refl routine
  | reserve bytes =>
    obtain ⟨value, after, done⟩ := succeeds_reserve bytes routine
    obtain ⟨instructions, -, rfl, effect, -⟩ := of_reserve done
    simp only [Routine.shift, Step.leaves, Shift.step, done]
    refine ⟨by simp [Shift.counted], instructions, by simp, fun natives machine => ?_⟩
    simp [effect, Shift.lowered, BitVec.signExtend]
  | giveUp bytes =>
    obtain ⟨value, after, done⟩ := succeeds_giveUp bytes routine
    obtain ⟨instructions, -, rfl, effect, -⟩ := of_giveUp done
    simp only [Routine.shift, Step.leaves, Shift.step, done]
    refine ⟨by simp [Shift.counted, BitVec.ofInt_neg, BitVec.sub_eq_add_neg], instructions, by simp,
      fun natives machine => ?_⟩
    simp [effect, Shift.lowered, BitVec.signExtend, BitVec.ofInt_neg]

/-- The step that is left out leaves the stack pointer at the word on top of the stack, whatever
the counter says. -/
theorem shift_restore_stackPointer (routine : Routine) :
    ∃ instructions,
      (routine.shift (.restore .rsp)).code.toList = routine.code.toList ++ instructions ∧
        ∀ natives (machine : Machine), (machine.after natives instructions).get .rsp =
          machine.load (machine.get .rsp) := by
  obtain ⟨value, after, done⟩ := succeeds_restore (by decide : Register.rsp.InBank) routine
  obtain ⟨instructions, -, rfl, effect, -⟩ := of_restore done
  refine ⟨instructions, by simp [shift, Step.leaves, Shift.step, done], fun natives machine => ?_⟩
  rw [effect, Request.effect, Machine.get_set_self]

/-- A sequence of steps counts and does what its steps do one after the other. -/
theorem lowers_shiftAll (routine : Routine) {shifts : List Shift}
    (others : .restore .rsp ∉ shifts) :
    Lowers (Shift.totalCounted shifts) (Shift.totalLowered shifts) routine
      (routine.shiftAll shifts) := by
  induction shifts generalizing routine with
  | nil => exact lowers_refl routine
  | cons first rest ih =>
    simp only [List.mem_cons, not_or] at others
    rw [Shift.totalCounted_cons, Shift.totalLowered_cons]
    exact (lowers_shift routine (Ne.symm others.1)).trans (ih _ others.2)

/-- The counter after some steps, as a number. -/
theorem Lowers.toNat_pushed (lowers : Lowers counted lowered routine after) :
    (after.pushed.toNat : Int) = (routine.pushed.toNat + counted) % 2 ^ 32 := by
  rw [lowers.1, BitVec.toNat_add, BitVec.toNat_ofInt]
  omega

/-- The padding makes an area of whole words end at a multiple of sixteen. -/
theorem dvd_callPadding (routine : Routine) {outgoing : BitVec 32}
    (pushed : 8 ∣ routine.pushed.toNat) (words : 8 ∣ outgoing.toNat) :
    16 ∣ routine.pushed.toNat + (outgoing + routine.callPadding outgoing).toNat := by
  have modulus : (16 : BitVec 32).toNat = 16 := rfl
  simp only [callPadding, BitVec.toNat_add, BitVec.toNat_umod, modulus]
  omega

/-- Whichever of the steps fail, the counter of a routine tells by how much the code they have
written lowers the stack pointer, but for one word for each save of an XMM register that the
machine does not have. It tells so in its 32 bits, and as a number if no area is as large as two
gibibytes, no more is undone than was done and the counter holds what is done. A call after an
area that is padded as for a call is therefore aligned, but for those words. -/
theorem depth_of_shifts (routine : Routine) (shifts : List Shift)
    (others : .restore .rsp ∉ shifts) :
    let after := routine.shiftAll shifts
    let strayed := shifts.countP Shift.strays
    (∃ instructions, after.code.toList = routine.code.toList ++ instructions ∧
      ∀ natives (machine : Machine),
        let lowered := machine.get .rsp - (machine.after natives instructions).get .rsp
        lowered.setWidth 32 = after.pushed - routine.pushed + BitVec.ofNat 32 (8 * strayed) ∧
        ((∀ shift ∈ shifts, ∀ bytes ∈ shift.bytes?, bytes.toNat < 2 ^ 31) →
          0 ≤ Shift.totalCounted shifts →
          routine.pushed.toNat + Shift.totalCounted shifts + 8 * strayed < 2 ^ 32 →
          after.pushed.toNat + 8 * strayed = routine.pushed.toNat + lowered.toNat)) ∧
    ∀ outgoing : BitVec 32,
      (∀ shift ∈ shifts, ∀ bytes ∈ shift.bytes?, 8 ∣ bytes.toNat) →
      8 ∣ routine.pushed.toNat → 8 ∣ outgoing.toNat →
      ∃ instructions,
        (after.shift (.reserve (outgoing + after.callPadding outgoing))).code.toList =
          routine.code.toList ++ instructions ∧
        ∀ natives (machine : Machine), 16 ∣ (machine.get .rsp).toNat + routine.pushed.toNat →
          16 ∣ ((machine.after natives instructions).get .rsp).toNat + 8 * strayed := by
  intro after strayed
  have lowers : Lowers _ _ routine after := lowers_shiftAll routine others
  have agree : (2 ^ 32 : Int) ∣
      Shift.totalLowered shifts - (Shift.totalCounted shifts + 8 * strayed) :=
    Shift.dvd_totalLowered shifts
  have same (small : ∀ shift ∈ shifts, ∀ bytes ∈ shift.bytes?, bytes.toNat < 2 ^ 31) :
      Shift.totalLowered shifts = Shift.totalCounted shifts + 8 * strayed :=
    Shift.totalLowered_eq small
  have counter := lowers.toNat_pushed
  clear_value strayed
  refine ⟨?_, fun outgoing whole start outgoingWhole => ?_⟩
  · obtain ⟨instructions, code, moves⟩ := lowers.2
    refine ⟨instructions, code, fun natives machine => ?_⟩
    intro lowered
    have distance : lowered = BitVec.ofInt 64 (Shift.totalLowered shifts) := by
      simp only [lowered]
      rw [BitVec.sub_eq_iff_eq_add, moves, BitVec.add_comm, BitVec.sub_add_cancel]
    have number := congrArg BitVec.toNat distance
    rw [BitVec.toNat_ofInt] at number
    clear_value lowered
    refine ⟨BitVec.eq_of_toNat_eq ?_, fun small covered held => ?_⟩
    · simp only [BitVec.toNat_setWidth, BitVec.toNat_add, BitVec.toNat_sub, BitVec.toNat_ofNat]
      omega
    · have equal := same small
      omega
  · let area := outgoing + after.callPadding outgoing
    have reserved := lowers.trans (@lowers_shift after (.reserve area) (by simp))
    obtain ⟨-, instructions, code, moves⟩ := reserved
    refine ⟨instructions, code, fun natives machine even => ?_⟩
    have words : (8 : Int) ∣ Shift.totalCounted shifts := Shift.dvd_totalCounted whole
    have padded : 16 ∣ after.pushed.toNat + area.toNat :=
      dvd_callPadding after (by omega) outgoingWhole
    have last := (Shift.reserve area).dvd_lowered
    simp only [Shift.lowered, Shift.counted, Shift.strays, Bool.false_eq_true, if_false]
      at last moves
    rw [moves, BitVec.toNat_sub, BitVec.toNat_ofInt]
    omega

/-- Failures of other kinds do no harm: neither the general-purpose register that cannot be saved
nor the XMM register that cannot be restored is counted or moves the stack pointer. -/
theorem depth_of_shifts_failing :
    let shifts : List Shift :=
      [.save .rcx, .save (.gp 16), .save (.xmm 3), .restore (.xmm 16), .reserve 16]
    let after := (new [] 0).shiftAll shifts
    .restore .rsp ∉ shifts ∧ after.pushed = 32 ∧
      ∃ instructions, after.code.toList = instructions ∧ ∀ natives (machine : Machine),
        (machine.get .rsp - (machine.after natives instructions).get .rsp).toNat = 32 := by
  intro shifts after
  have others : .restore .rsp ∉ shifts := by decide
  have pushed : after.pushed = 32 := by decide +kernel
  have small : ∀ shift ∈ shifts, ∀ bytes ∈ shift.bytes?, bytes.toNat < 2 ^ 31 := by
    simp [shifts, Shift.bytes?]
  have total : Shift.totalCounted shifts = 32 := by decide
  have strayed : shifts.countP Shift.strays = 0 := by decide
  obtain ⟨⟨instructions, code, depth⟩, -⟩ := depth_of_shifts (new [] 0) shifts others
  refine ⟨others, pushed, instructions, code, fun natives machine => ?_⟩
  have counted := (depth natives machine).2 small (by rw [total]; decide)
    (by rw [total, strayed]; decide)
  rw [strayed] at counted
  have number : after.pushed.toNat = 32 := congrArg BitVec.toNat pushed
  change after.pushed.toNat + 8 * 0 = 0 + _ at counted
  omega

/-- Saving an XMM register that the machine does not have makes room for it before it fails, and
nothing is counted: the next call is not aligned. -/
theorem depth_of_shifts_astray :
    let after := (new [] 0).shiftAll [.save (.xmm 16)]
    let machine : Machine := ⟨fun _ => 4096, fun _ => 0, fun _ => 0⟩
    (∃ later, save (.xmm 16) (new [] 0) = .error (.invalidRegister (.xmm 16)) later) ∧
      after.pushed = 0 ∧ after.callPadding 0 = 0 ∧
      (machine.after (fun _ machine => machine) after.code.toList).get .rsp = 4088 := by
  intro after machine
  have past : ¬(Register.xmm 16).InBank := by decide
  exact ⟨⟨_, save_past_bank past⟩, by decide +kernel, by decide +kernel, by decide +kernel⟩

end NativeExpr.Routine
