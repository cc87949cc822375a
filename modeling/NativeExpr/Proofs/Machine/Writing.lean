import NativeExpr.Proofs.Machine.Execution

/-!
# What code writes and where it calls

The words of memory that instructions write themselves, and the states in which code calls a
function, along the execution of the code. For code that requests are granted as, what is
written can be read off the requests.
-/

namespace NativeExpr

/-- The word of memory that an instruction writes. A call leaves its return address there. -/
def Instruction.target? (machine : Machine) : Instruction → Option Word
  | .storeGpr target _ | .storeXmm target _ => some (machine.locate target)
  | .push _ | .call _ => some (machine.gpr Machine.stackPointer - 8)
  | _ => none

/-- The word of memory that is written for a request. -/
def Request.target? (machine : Machine) : Request → Option Word
  | .store base offset _ => some (machine.get base + offset.signExtend 64)
  | .push _ | .call _ => some (machine.get .rsp - 8)
  | _ => none

/-- Whether an instruction is a call. -/
def Instruction.isCall : Instruction → Bool
  | .call _ => true
  | _ => false

namespace Machine

variable {natives : Natives} {allowed : Word → Prop} {machine : Machine}
variable {instructions : List Instruction}

/-- Whether code writes only words that are allowed. -/
def Writes (natives : Natives) (allowed : Word → Prop) : Machine → List Instruction → Prop
  | _, [] => True
  | machine, instruction :: rest =>
    (∀ place, instruction.target? machine = some place → allowed place) ∧
      Writes natives allowed (instruction.execute natives machine) rest

theorem writes_append {first second : List Instruction} :
    machine.Writes natives allowed (first ++ second) ↔
      machine.Writes natives allowed first ∧
        (machine.after natives first).Writes natives allowed second := by
  induction first generalizing machine with
  | nil => simp [Writes]
  | cons instruction rest ih => simp [Writes, ih, after, and_assoc]

theorem Writes.mono {others : Word → Prop} (writes : machine.Writes natives allowed instructions)
    (wider : ∀ place, allowed place → others place) :
    machine.Writes natives others instructions := by
  induction instructions generalizing machine with
  | nil => trivial
  | cons instruction rest ih =>
    exact ⟨fun place target => wider place (writes.1 place target), ih writes.2⟩

/-- Wherever an instruction stands in the code, the word that it writes is allowed. -/
theorem Writes.target {before later : List Instruction} {instruction : Instruction} {place : Word}
    (writes : machine.Writes natives allowed (before ++ instruction :: later))
    (target : instruction.target? (machine.after natives before) = some place) : allowed place :=
  (writes_append.mp writes).2.1 place target

/-- The states in which code calls a function. -/
def calls (natives : Natives) : Machine → List Instruction → List Machine
  | _, [] => []
  | machine, instruction :: rest =>
    match instruction with
    | .call _ => machine :: calls natives (instruction.execute natives machine) rest
    | _ => calls natives (instruction.execute natives machine) rest

theorem calls_append (natives : Natives) (machine : Machine) (first second : List Instruction) :
    machine.calls natives (first ++ second) =
      machine.calls natives first ++ (machine.after natives first).calls natives second := by
  induction first generalizing machine with
  | nil => rfl
  | cons instruction rest ih => cases instruction <;> simp [calls, ih, after]

/-- Code calls once for each of its call instructions. -/
theorem length_calls (natives : Natives) (machine : Machine) (instructions : List Instruction) :
    (machine.calls natives instructions).length = instructions.countP Instruction.isCall := by
  induction instructions generalizing machine with
  | nil => rfl
  | cons instruction rest ih =>
    cases instruction <;> simp [calls, ih, List.countP_cons, Instruction.isCall]

end Machine

/-- Straight code calls nothing. -/
theorem Straight.calls {instructions : List Instruction} (straight : Straight instructions)
    (natives : Natives) (machine : Machine) : machine.calls natives instructions = [] := by
  induction instructions generalizing machine with
  | nil => rfl
  | cons instruction rest ih =>
    have later : Straight rest :=
      ⟨fun member => straight.ret (List.mem_cons_of_mem _ member),
        fun operand member => straight.call operand (List.mem_cons_of_mem _ member)⟩
    cases instruction
    case call operand => exact absurd List.mem_cons_self (straight.call operand)
    all_goals exact ih later _

theorem Straight.countP {instructions : List Instruction} (straight : Straight instructions) :
    instructions.countP Instruction.isCall = 0 := by
  rw [List.countP_eq_zero]
  intro instruction member isCall
  cases instruction
  case call operand => exact straight.call operand member
  all_goals cases isCall

/-- Code of which no instruction writes memory. -/
def Quiet (instructions : List Instruction) : Prop :=
  ∀ instruction ∈ instructions, ∀ machine, instruction.target? machine = none

theorem quiet_nil : Quiet [] := fun _ member => (List.not_mem_nil member).elim

theorem Quiet.append {first second : List Instruction} (before : Quiet first)
    (later : Quiet second) : Quiet (first ++ second) := by
  intro instruction member
  rcases List.mem_append.mp member with member | member
  · exact before instruction member
  · exact later instruction member

theorem Quiet.writes {instructions : List Instruction} (quiet : Quiet instructions)
    (natives : Natives) (allowed : Word → Prop) (machine : Machine) :
    machine.Writes natives allowed instructions := by
  induction instructions generalizing machine with
  | nil => trivial
  | cons instruction rest ih =>
    refine ⟨fun place target => ?_, ih (fun other member =>
      quiet other (List.mem_cons_of_mem _ member)) _⟩
    rw [quiet instruction List.mem_cons_self] at target
    cases target

namespace Request

variable {natives : Natives} {allowed : Word → Prop} {machine : Machine}

/-- Whether nothing is written for a request. -/
def Quiet : Request → Prop
  | .store .. | .push _ | .call _ => False
  | _ => True

theorem Quiet.target {request : Request} (quiet : request.Quiet) (machine : Machine) :
    request.target? machine = none := by
  cases request <;> first | rfl | exact quiet.elim

/-- Whether requests write only words that are allowed. -/
def Writes (natives : Natives) (allowed : Word → Prop) : Machine → List Request → Prop
  | _, [] => True
  | machine, request :: rest =>
    (∀ place, request.target? machine = some place → allowed place) ∧
      Writes natives allowed (request.effect natives machine) rest

theorem writes_append {first second : List Request} :
    Writes natives allowed machine (first ++ second) ↔
      Writes natives allowed machine first ∧
        Writes natives allowed (effects natives machine first) second := by
  induction first generalizing machine with
  | nil => simp [Writes]
  | cons request rest ih => simp [Writes, ih, and_assoc]

theorem writes_of_quiet (natives : Natives) (allowed : Word → Prop) (machine : Machine)
    {requests : List Request} (quiet : ∀ request ∈ requests, request.Quiet) :
    Writes natives allowed machine requests := by
  induction requests generalizing machine with
  | nil => trivial
  | cons request rest ih =>
    refine ⟨fun place target => ?_, ih _ fun other member =>
      quiet other (List.mem_cons_of_mem _ member)⟩
    rw [(quiet request List.mem_cons_self).target] at target
    cases target

/-- What a request is granted as writes what the request says. -/
theorem target_of_instructions {request : Request} {instructions : List Instruction}
    (granted : request.instructions = .ok instructions) (machine : Machine) :
    ∀ instruction ∈ instructions, instructions = [instruction] ∧
      instruction.target? machine = request.target? machine := by
  cases request with
  | move target source =>
    simp only [Request.instructions, moveInstructions] at granted
    split at granted
    · simp only [except_pure_eq_ok] at granted
      simp [← granted]
    · split at granted <;> simp only [except_bind_eq_ok, except_pure_eq_ok] at granted <;>
        obtain ⟨_, _, _, _, rfl⟩ := granted <;> simp [Instruction.target?, target?]
  | load target base offset | store base offset source =>
    simp only [Request.instructions, except_bind_eq_ok] at granted
    obtain ⟨address, based, granted⟩ := granted
    obtain ⟨rfl, rfl⟩ := eq_of_memory based
    split at granted <;> simp only [except_bind_eq_ok, except_pure_eq_ok] at granted <;>
      obtain ⟨_, _, rfl⟩ := granted <;> simp [Instruction.target?, target?, Machine.locate]
  | arith _ target source | arithMemory _ target _ _ | address target _ _ =>
    simp only [Request.instructions, except_bind_eq_ok, except_pure_eq_ok] at granted
    obtain ⟨_, _, _, _, rfl⟩ := granted
    simp [Instruction.target?, target?]
  | ret =>
    simp only [Request.instructions, except_pure_eq_ok] at granted
    simp [← granted, Instruction.target?, target?]
  | constant target _ | arithConstant _ target _ | push source | pop source | call target =>
    simp only [Request.instructions, except_bind_eq_ok, except_pure_eq_ok] at granted
    obtain ⟨_, _, rfl⟩ := granted
    simp [Instruction.target?, target?, Machine.get, Machine.stackPointer]

end Request

/-- What requests are granted as writes what the requests say. -/
theorem writes_of_assemble {natives : Natives} {allowed : Word → Prop} {machine : Machine}
    {requests : List Request} {instructions : List Instruction}
    (granted : assemble requests = ⟨instructions, none⟩)
    (writes : Request.Writes natives allowed machine requests) :
    machine.Writes natives allowed instructions := by
  induction requests generalizing machine instructions with
  | nil =>
    simp only [assemble, Assembly.mk.injEq] at granted
    rw [← granted.1]
    trivial
  | cons request rest ih =>
    obtain ⟨first, later, accepted, remaining, rfl⟩ := assemble_cons_eq_ok granted
    rw [Machine.writes_append, Request.after_of_instructions natives machine accepted]
    refine ⟨?_, ih remaining writes.2⟩
    have targets := Request.target_of_instructions accepted machine
    cases first with
    | nil => trivial
    | cons instruction others =>
      obtain ⟨single, same⟩ := targets instruction List.mem_cons_self
      obtain rfl : others = [] := (List.cons.inj single).2
      exact ⟨fun place target => writes.1 place (same ▸ target), trivial⟩

/-- What requests that write nothing are granted as writes nothing. -/
theorem quiet_of_assemble {requests : List Request} {instructions : List Instruction}
    (granted : assemble requests = ⟨instructions, none⟩)
    (quiet : ∀ request ∈ requests, request.Quiet) : Quiet instructions := by
  induction requests generalizing instructions with
  | nil =>
    simp only [assemble, Assembly.mk.injEq] at granted
    rw [← granted.1]
    exact quiet_nil
  | cons request rest ih =>
    obtain ⟨first, later, accepted, remaining, rfl⟩ := assemble_cons_eq_ok granted
    refine Quiet.append (fun instruction member machine => ?_)
      (ih remaining fun other listed => quiet other (List.mem_cons_of_mem _ listed))
    rw [(Request.target_of_instructions accepted machine instruction member).2]
    exact (quiet request List.mem_cons_self).target machine

end NativeExpr
