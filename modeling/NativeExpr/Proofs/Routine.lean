import NativeExpr.Proofs.Machine.Writing
import NativeExpr.Routine

/-!
# Successful steps in writing a routine

What a step has done when it succeeds: which instructions it added, what they do to a
machine, and how it changed the frame and the depth of the stack. Saving and restoring a
register act like a push and a pop in either bank.
-/

namespace NativeExpr

section

variable {ε σ α β : Type} {before after : σ}

/-- Two steps succeed when the first one does and the second does from there. -/
theorem estate_bind_eq_ok {first : EStateM ε σ α} {rest : α → EStateM ε σ β} {value : β} :
    (first >>= rest) before = .ok value after ↔
      ∃ middle between, first before = .ok middle between ∧ rest middle between = .ok value after := by
  simp only [bind, EStateM.bind]
  cases first before with
  | error error between => simp
  | ok middle between =>
    constructor
    · intro succeeds
      exact ⟨middle, between, rfl, succeeds⟩
    · rintro ⟨_, _, same, succeeds⟩
      cases same
      exact succeeds

/-- After a step that succeeds the rest is done. -/
theorem estate_bind_of_ok {first : EStateM ε σ α} {rest : α → EStateM ε σ β} {middle : α}
    {between : σ} (done : first before = .ok middle between) :
    (first >>= rest) before = rest middle between := by
  simp only [bind, EStateM.bind, done]

/-- After a step that fails nothing is done. -/
theorem estate_bind_of_error {first : EStateM ε σ α} {rest : α → EStateM ε σ β} {error : ε}
    {between : σ} (failed : first before = .error error between) :
    (first >>= rest) before = .error error between := by
  simp only [bind, EStateM.bind, failed]

theorem estate_pure_eq_ok {value other : α} :
    (pure value : EStateM ε σ α) before = .ok other after ↔ value = other ∧ before = after := by
  simp [pure, EStateM.pure]

theorem estate_get_eq_ok {value : σ} :
    (get : EStateM ε σ σ) before = .ok value after ↔ before = value ∧ before = after := by
  constructor
  · rintro ⟨⟩
    exact ⟨rfl, rfl⟩
  · rintro ⟨rfl, rfl⟩
    rfl

theorem estate_modify_eq_ok {change : σ → σ} {value : Unit} :
    (modify change : EStateM ε σ Unit) before = .ok value after ↔ change before = after := by
  constructor
  · rintro ⟨⟩
    rfl
  · rintro rfl
    rfl

theorem estate_throw_ne_ok {error : ε} {value : α} :
    (throw error : EStateM ε σ α) before ≠ .ok value after := by
  rintro ⟨⟩

/-- Whether a step succeeds is known from running it. -/
instance decidableOk (result : EStateM.Result ε σ α) :
    Decidable (∃ value after, result = .ok value after) :=
  match result with
  | .ok value after => .isTrue ⟨value, after, rfl⟩
  | .error _ _ => .isFalse (by simp)

/-- Whether a step succeeds with a result that passes a test is known from running it. -/
instance decidableOkAnd (result : EStateM.Result ε σ α) (holds : α → σ → Prop)
    [∀ value after, Decidable (holds value after)] :
    Decidable (∃ value after, result = .ok value after ∧ holds value after) :=
  match result with
  | .ok value after => decidable_of_iff (holds value after) (by simp)
  | .error _ _ => .isFalse (by simp)

/-- Whether a step fails for a cause in a state that passes a test is known from running it. -/
instance decidableErrorAnd [DecidableEq ε] (result : EStateM.Result ε σ α) (cause : ε)
    (holds : σ → Prop) [∀ after, Decidable (holds after)] :
    Decidable (∃ after, result = .error cause after ∧ holds after) :=
  match result with
  | .ok _ _ => .isFalse (by simp)
  | .error other after => decidable_of_iff (other = cause ∧ holds after) (by simp)

end

namespace Routine

/-- A routine with more instructions. -/
def append (routine : Routine) (instructions : List Instruction) : Routine :=
  { routine with code := routine.code ++ instructions }

variable {routine after : Routine} {register : Register}

@[simp] theorem code_append (routine : Routine) (instructions : List Instruction) :
    (routine.append instructions).code.toList = routine.code.toList ++ instructions := by
  simp [append]

@[simp] theorem pushed_append (routine : Routine) (instructions : List Instruction) :
    (routine.append instructions).pushed = routine.pushed := rfl

@[simp] theorem frame_append (routine : Routine) (instructions : List Instruction) :
    (routine.append instructions).frame = routine.frame := rfl

theorem append_append (routine : Routine) (first second : List Instruction) :
    (routine.append first).append second = routine.append (first ++ second) := by
  have code : routine.code ++ first ++ second = routine.code ++ (first ++ second) := by
    apply Array.ext'
    simp
  simp only [append, code]

theorem code_append_three (routine : Routine) (first second third : List Instruction) :
    (routine.append (first ++ second ++ third)).code =
      routine.code ++ first ++ second ++ third := by
  apply Array.ext'
  simp [append]

theorem write_eq_ok {requests : List Request} {value : Unit} :
    write requests routine = .ok value after ↔
      ∃ instructions, assemble requests = ⟨instructions, none⟩ ∧
        after = routine.append instructions := by
  simp only [write, Code.write]
  rcases granted : assemble requests with ⟨instructions, fault⟩
  cases fault with
  | none => simp [append, eq_comm]
  | some fault => simp

/-- Saving a register puts it on the stack, in whichever bank it is. -/
theorem of_save {value : Unit} (saved : save register routine = .ok value after) :
    ∃ instructions, Straight instructions ∧
      after = { routine.append instructions with pushed := routine.pushed + 8 } ∧
      (∀ natives (machine : Machine),
        machine.after natives instructions = Request.effect natives machine (.push register)) ∧
      ∀ natives allowed (machine : Machine), allowed (machine.get .rsp - 8) →
        machine.Writes natives allowed instructions := by
  simp only [save, deepen, estate_bind_eq_ok, estate_modify_eq_ok, write_eq_ok] at saved
  obtain ⟨_, _, ⟨instructions, granted, rfl⟩, rfl⟩ := saved
  refine ⟨instructions, ?_, rfl, fun natives machine => ?_, fun natives allowed machine top => ?_⟩
  · apply straight_of_assemble granted
    split <;> simp [Request.Plain]
  · rw [after_of_assemble natives machine granted]
    obtain ⟨bank, number⟩ := register
    cases bank with
    | generalPurpose => rfl
    | xmm =>
      simp [Request.effect, Arithmetic.apply, Machine.get, Machine.set, Machine.setGpr,
        Machine.store]
  · apply writes_of_assemble granted
    obtain ⟨bank, number⟩ := register
    cases bank with
    | generalPurpose => simpa [Request.Writes, Request.target?] using top
    | xmm => simpa [Request.Writes, Request.target?, Request.effect, Arithmetic.apply] using top

/-- Restoring a register takes it from the stack, in whichever bank it is. -/
theorem of_restore {value : Unit} (restored : restore register routine = .ok value after) :
    ∃ instructions, Straight instructions ∧
      after = { routine.append instructions with pushed := routine.pushed - 8 } ∧
      (∀ natives (machine : Machine),
        machine.after natives instructions = Request.effect natives machine (.pop register)) ∧
      Quiet instructions := by
  simp only [restore, lift, estate_bind_eq_ok, estate_modify_eq_ok, write_eq_ok] at restored
  obtain ⟨_, _, ⟨instructions, granted, rfl⟩, rfl⟩ := restored
  refine ⟨instructions, ?_, rfl, ?_, ?_⟩
  · apply straight_of_assemble granted
    split <;> simp [Request.Plain]
  · intro natives machine
    rw [after_of_assemble natives machine granted]
    obtain ⟨bank, number⟩ := register
    cases bank with
    | generalPurpose => rfl
    | xmm =>
      simp [Request.effect, Arithmetic.apply, Machine.get, Machine.set, Machine.setGpr,
        Machine.setXmm]
  · apply quiet_of_assemble granted
    split <;> simp [Request.Quiet]

/-- Reserving an outgoing area lowers the stack pointer. -/
theorem of_reserve {bytes : BitVec 32} {value : Unit}
    (reserved : reserve bytes routine = .ok value after) :
    ∃ instructions, Straight instructions ∧
      after = { routine.append instructions with pushed := routine.pushed + bytes } ∧
      (∀ natives (machine : Machine), machine.after natives instructions =
        machine.set .rsp (machine.get .rsp - bytes.signExtend 64)) ∧
      Quiet instructions := by
  simp only [reserve] at reserved
  split at reserved
  · simp only [deepen, estate_bind_eq_ok, estate_modify_eq_ok, write_eq_ok] at reserved
    obtain ⟨_, _, ⟨instructions, granted, rfl⟩, rfl⟩ := reserved
    exact ⟨instructions, straight_of_assemble granted (by simp [Request.Plain]), rfl,
      fun natives machine => after_of_assemble natives machine granted,
      quiet_of_assemble granted (by simp [Request.Quiet])⟩
  · rename_i empty
    simp only [estate_pure_eq_ok, true_and] at reserved
    have none : bytes = 0 := by simpa using empty
    subst none reserved
    exact ⟨[], straight_nil, by simp [append], fun natives machine => by simp, quiet_nil⟩

/-- Giving up an outgoing area raises the stack pointer. -/
theorem of_giveUp {bytes : BitVec 32} {value : Unit}
    (given : giveUp bytes routine = .ok value after) :
    ∃ instructions, Straight instructions ∧
      after = { routine.append instructions with pushed := routine.pushed - bytes } ∧
      (∀ natives (machine : Machine), machine.after natives instructions =
        machine.set .rsp (machine.get .rsp + bytes.signExtend 64)) ∧
      Quiet instructions := by
  simp only [giveUp] at given
  split at given
  · simp only [lift, estate_bind_eq_ok, estate_modify_eq_ok, write_eq_ok] at given
    obtain ⟨_, _, ⟨instructions, granted, rfl⟩, rfl⟩ := given
    exact ⟨instructions, straight_of_assemble granted (by simp [Request.Plain]), rfl,
      fun natives machine => after_of_assemble natives machine granted,
      quiet_of_assemble granted (by simp [Request.Quiet])⟩
  · rename_i empty
    simp only [estate_pure_eq_ok, true_and] at given
    have none : bytes = 0 := by simpa using empty
    subst none given
    exact ⟨[], straight_nil, by simp [append], fun natives machine => by simp, quiet_nil⟩

theorem allocateSlot_eq_ok {slot : Option Offset} :
    allocateSlot routine = .ok slot after ↔
      slot = routine.frame.allocate.1 ∧ after = { routine with frame := routine.frame.allocate.2 } := by
  constructor
  · rintro ⟨⟩
    exact ⟨rfl, rfl⟩
  · rintro ⟨rfl, rfl⟩
    rfl

theorem releaseSlot_eq_ok {offset : Offset} {value : Unit} :
    releaseSlot offset routine = .ok value after ↔
      after = { routine with frame := routine.frame.release offset } := by
  rw [releaseSlot, estate_modify_eq_ok, eq_comm]

theorem home_eq_ok {index : Nat} {home : Option Offset} :
    home? index routine = .ok home after ↔ home = routine.frame.home? index ∧ after = routine := by
  simp only [home?, estate_bind_eq_ok, estate_get_eq_ok, estate_pure_eq_ok]
  constructor
  · rintro ⟨_, _, ⟨rfl, rfl⟩, rfl, rfl⟩
    exact ⟨rfl, rfl⟩
  · rintro ⟨rfl, rfl⟩
    exact ⟨_, _, ⟨rfl, rfl⟩, rfl, rfl⟩

theorem start_eq_ok {parameters : List Kind} {slots : Nat} :
    start parameters slots = .ok routine ↔
      enter (new parameters slots) = .ok () routine := by
  simp only [start]
  split <;> simp_all

end Routine

end NativeExpr
