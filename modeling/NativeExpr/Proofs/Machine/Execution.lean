import NativeExpr.Convention
import NativeExpr.Instruction.Request
import NativeExpr.Proofs.Machine.Memory

/-!
# What requests do to the machine

Generated code is asked for by requests, which name registers freely. `Request.effect` says
what a request does in those names; `after_of_assemble` says that the instructions which a
list of requests is granted as do just that.
-/

namespace NativeExpr

/-- Whether a name is that of a register of the machine. -/
def Register.InBank (register : Register) : Prop := register.number < Bank.size

instance (register : Register) : Decidable register.InBank :=
  inferInstanceAs (Decidable (register.number < Bank.size))

namespace Machine

/-- The content of a register. -/
def get (machine : Machine) (register : Register) : Word :=
  match register.bank with
  | .generalPurpose => machine.gpr (Fin.ofNat 16 register.number)
  | .xmm => machine.xmm (Fin.ofNat 16 register.number)

/-- Changes the content of a register. -/
def set (machine : Machine) (register : Register) (value : Word) : Machine :=
  match register.bank with
  | .generalPurpose => machine.setGpr (Fin.ofNat 16 register.number) value
  | .xmm => machine.setXmm (Fin.ofNat 16 register.number) value

theorem get_set (machine : Machine) {changed register : Register} (value : Word)
    (changedReal : changed.InBank) (real : register.InBank) :
    (machine.set changed value).get register =
      if register = changed then value else machine.get register := by
  obtain ⟨changedBank, changedNumber⟩ := changed
  obtain ⟨bank, number⟩ := register
  have position : Fin.ofNat 16 number = Fin.ofNat 16 changedNumber ↔ number = changedNumber := by
    simp only [Register.InBank, Bank.size] at changedReal real
    simp [Fin.ext_iff, Nat.mod_eq_of_lt changedReal, Nat.mod_eq_of_lt real]
  cases changedBank <;> cases bank <;>
    simp only [get, set, setGpr, setXmm, position, Register.mk.injEq, true_and, reduceCtorEq,
      false_and, if_false]

@[simp] theorem get_set_self (machine : Machine) (register : Register) (value : Word) :
    (machine.set register value).get register = value := by
  obtain ⟨bank, number⟩ := register
  cases bank <;> simp [get, set, setGpr, setXmm]

theorem get_set_other (machine : Machine) {changed register : Register} (value : Word)
    (changedReal : changed.InBank) (real : register.InBank) (other : register ≠ changed) :
    (machine.set changed value).get register = machine.get register := by
  rw [get_set machine value changedReal real, if_neg other]

@[simp] theorem set_get_self (machine : Machine) (register : Register) :
    machine.set register (machine.get register) = machine := by
  obtain ⟨bank, number⟩ := register
  cases bank
  · have same : (fun other => if other = Fin.ofNat 16 number then
        machine.gpr (Fin.ofNat 16 number) else machine.gpr other) = machine.gpr := by
      funext other
      split
      · rename_i equal
        rw [equal]
      · rfl
    simp only [get, set, setGpr, same]
  · have same : (fun other => if other = Fin.ofNat 16 number then
        machine.xmm (Fin.ofNat 16 number) else machine.xmm other) = machine.xmm := by
      funext other
      split
      · rename_i equal
        rw [equal]
      · rfl
    simp only [get, set, setXmm, same]

@[simp] theorem memory_set (machine : Machine) (register : Register) (value : Word) :
    (machine.set register value).memory = machine.memory := by
  obtain ⟨bank, number⟩ := register
  cases bank <;> rfl

@[simp] theorem load_set (machine : Machine) (register : Register) (value address : Word) :
    (machine.set register value).load address = machine.load address := by
  simp [load]

@[simp] theorem get_store (machine : Machine) (address value : Word) (register : Register) :
    (machine.store address value).get register = machine.get register := by
  obtain ⟨bank, number⟩ := register
  cases bank <;> rfl

/-- The state after instructions that follow one another. -/
def after (natives : Natives) (machine : Machine) (instructions : List Instruction) : Machine :=
  instructions.foldl (Instruction.execute natives) machine

@[simp] theorem after_nil (natives : Natives) (machine : Machine) :
    machine.after natives [] = machine := rfl

@[simp] theorem after_append (natives : Natives) (machine : Machine)
    (first second : List Instruction) :
    machine.after natives (first ++ second) = (machine.after natives first).after natives second :=
  List.foldl_append ..

theorem after_singleton (natives : Natives) (machine : Machine) (instruction : Instruction) :
    machine.after natives [instruction] = instruction.execute natives machine := rfl

/-- Code that returns at its end, and not before, returns in the state that it leads to. -/
theorem run_append_ret (natives : Natives) {instructions : List Instruction}
    (straight : Instruction.ret ∉ instructions) (machine : Machine) :
    machine.run natives (instructions ++ [.ret]) = some (machine.after natives instructions) := by
  induction instructions generalizing machine with
  | nil => rfl
  | cons instruction rest ih =>
    simp only [List.mem_cons, not_or] at straight
    have next := ih straight.2 (instruction.execute natives machine)
    cases instruction
    case ret => exact absurd rfl straight.1
    all_goals exact next

end Machine

namespace Request

/-- What a request does to the machine. -/
def effect (natives : Natives) (machine : Machine) : Request → Machine
  | .move target source => machine.set target (machine.get source)
  | .constant target value => machine.set target value
  | .load target base offset =>
    machine.set target (machine.load (machine.get base + offset.signExtend 64))
  | .store base offset source =>
    machine.store (machine.get base + offset.signExtend 64) (machine.get source)
  | .arith operation target source =>
    machine.set target (operation.apply (machine.get target) (machine.get source))
  | .arithConstant operation target value =>
    machine.set target (operation.apply (machine.get target) (value.signExtend 64))
  | .arithMemory operation target base offset =>
    machine.set target (operation.apply (machine.get target)
      (machine.load (machine.get base + offset.signExtend 64)))
  | .address target base offset => machine.set target (machine.get base + offset.signExtend 64)
  | .push source =>
    (machine.set .rsp (machine.get .rsp - 8)).store (machine.get .rsp - 8) (machine.get source)
  | .pop target =>
    (machine.set .rsp (machine.get .rsp + 8)).set target (machine.load (machine.get .rsp))
  | .call target => natives (machine.get target) machine
  | .ret => machine

/-- What requests that follow one another do. -/
def effects (natives : Natives) (machine : Machine) (requests : List Request) : Machine :=
  requests.foldl (effect natives) machine

@[simp] theorem effects_nil (natives : Natives) (machine : Machine) :
    effects natives machine [] = machine := rfl

@[simp] theorem effects_cons (natives : Natives) (machine : Machine) (request : Request)
    (rest : List Request) :
    effects natives machine (request :: rest) =
      effects natives (request.effect natives machine) rest := rfl

@[simp] theorem effects_append (natives : Natives) (machine : Machine)
    (first second : List Request) :
    effects natives machine (first ++ second) =
      effects natives (effects natives machine first) second :=
  List.foldl_append ..

end Request

theorem Register.eq_of_toGpr {register : Register} {operand : Gpr}
    (granted : register.toGpr = .ok operand) : register = .gp operand.val := by
  obtain ⟨bank, number⟩ := register
  simp only [Register.toGpr] at granted
  split at granted
  · rename_i valid
    obtain ⟨rfl, _⟩ := valid
    cases granted
    rfl
  · cases granted

theorem Register.eq_of_toXmm {register : Register} {operand : Xmm}
    (granted : register.toXmm = .ok operand) : register = .xmm operand.val := by
  obtain ⟨bank, number⟩ := register
  simp only [Register.toXmm] at granted
  split at granted
  · rename_i valid
    obtain ⟨rfl, _⟩ := valid
    cases granted
    rfl
  · cases granted

/-- A computation succeeds when its first part does and the rest does with what that yields. -/
theorem except_bind_eq_ok {ε α β : Type} {first : Except ε α} {rest : α → Except ε β} {value : β} :
    (first >>= rest) = .ok value ↔ ∃ middle, first = .ok middle ∧ rest middle = .ok value := by
  cases first with
  | error cause => simp [bind, Except.bind]
  | ok middle => simp [bind, Except.bind]

theorem except_pure_eq_ok {ε α : Type} {value other : α} :
    (pure value : Except ε α) = .ok other ↔ value = other := by
  simp [pure, Except.pure]

/-- A loop succeeds when every round does. -/
theorem except_forM_eq_ok {ε α : Type} {round : α → Except ε Unit} {list : List α} :
    list.forM round = .ok () ↔ ∀ item ∈ list, round item = .ok () := by
  induction list with
  | nil => exact ⟨fun _ => nofun, fun _ => rfl⟩
  | cons first rest ih =>
    change (round first >>= fun _ => rest.forM round) = _ ↔ _
    rw [except_bind_eq_ok, List.forall_mem_cons, ← ih]
    exact ⟨fun ⟨_, begun, goesOn⟩ => ⟨begun, goesOn⟩, fun ⟨begun, goesOn⟩ => ⟨(), begun, goesOn⟩⟩

namespace Machine

@[simp] theorem get_gp (machine : Machine) (operand : Gpr) :
    machine.get (.gp operand.val) = machine.gpr operand := by
  simp [get]

@[simp] theorem get_xmm (machine : Machine) (operand : Xmm) :
    machine.get (.xmm operand.val) = machine.xmm operand := by
  simp [get]

@[simp] theorem set_gp (machine : Machine) (operand : Gpr) (value : Word) :
    machine.set (.gp operand.val) value = machine.setGpr operand value := by
  simp [set]

@[simp] theorem set_xmm (machine : Machine) (operand : Xmm) (value : Word) :
    machine.set (.xmm operand.val) value = machine.setXmm operand value := by
  simp [set]

end Machine

namespace Request

theorem eq_of_memory {base : Register} {offset : Offset} {address : Address}
    (granted : memory base offset = .ok address) :
    base = .gp address.base.val ∧ offset = address.offset := by
  simp only [memory, except_bind_eq_ok, except_pure_eq_ok] at granted
  obtain ⟨operand, real, rfl⟩ := granted
  exact ⟨Register.eq_of_toGpr real, rfl⟩

/-- A request does what the instructions do that it is granted as. -/
theorem after_of_instructions (natives : Natives) (machine : Machine) {request : Request}
    {instructions : List Instruction} (granted : request.instructions = .ok instructions) :
    machine.after natives instructions = request.effect natives machine := by
  cases request with
  | move target source =>
    simp only [Request.instructions, moveInstructions] at granted
    split at granted
    case isTrue same =>
      simp only [except_pure_eq_ok] at granted
      subst same granted
      simp [effect]
    case isFalse =>
      split at granted <;> simp only [except_bind_eq_ok, except_pure_eq_ok] at granted
      · obtain ⟨left, leftReal, right, rightReal, rfl⟩ := granted
        rw [Register.eq_of_toGpr leftReal, Register.eq_of_toGpr rightReal]
        simp [Machine.after_singleton, Instruction.execute, effect]
      · obtain ⟨left, leftReal, right, rightReal, rfl⟩ := granted
        rw [Register.eq_of_toXmm leftReal, Register.eq_of_toXmm rightReal]
        simp [Machine.after_singleton, Instruction.execute, effect]
      · obtain ⟨left, leftReal, right, rightReal, rfl⟩ := granted
        rw [Register.eq_of_toXmm leftReal, Register.eq_of_toGpr rightReal]
        simp [Machine.after_singleton, Instruction.execute, effect]
      · obtain ⟨left, leftReal, right, rightReal, rfl⟩ := granted
        rw [Register.eq_of_toGpr leftReal, Register.eq_of_toXmm rightReal]
        simp [Machine.after_singleton, Instruction.execute, effect]
  | load target base offset =>
    simp only [Request.instructions, except_bind_eq_ok] at granted
    obtain ⟨address, based, granted⟩ := granted
    obtain ⟨rfl, rfl⟩ := eq_of_memory based
    split at granted <;> simp only [except_bind_eq_ok, except_pure_eq_ok] at granted
    · obtain ⟨operand, real, rfl⟩ := granted
      rw [Register.eq_of_toGpr real]
      simp [Machine.after_singleton, Instruction.execute, effect, Machine.locate]
    · obtain ⟨operand, real, rfl⟩ := granted
      rw [Register.eq_of_toXmm real]
      simp [Machine.after_singleton, Instruction.execute, effect, Machine.locate]
  | store base offset source =>
    simp only [Request.instructions, except_bind_eq_ok] at granted
    obtain ⟨address, based, granted⟩ := granted
    obtain ⟨rfl, rfl⟩ := eq_of_memory based
    split at granted <;> simp only [except_bind_eq_ok, except_pure_eq_ok] at granted
    · obtain ⟨operand, real, rfl⟩ := granted
      rw [Register.eq_of_toGpr real]
      simp [Machine.after_singleton, Instruction.execute, effect, Machine.locate]
    · obtain ⟨operand, real, rfl⟩ := granted
      rw [Register.eq_of_toXmm real]
      simp [Machine.after_singleton, Instruction.execute, effect, Machine.locate]
  | arith operation target source =>
    simp only [Request.instructions, except_bind_eq_ok, except_pure_eq_ok] at granted
    obtain ⟨left, leftReal, right, rightReal, rfl⟩ := granted
    rw [Register.eq_of_toGpr leftReal, Register.eq_of_toGpr rightReal]
    simp [Machine.after_singleton, Instruction.execute, effect]
  | arithMemory operation target base offset =>
    simp only [Request.instructions, except_bind_eq_ok, except_pure_eq_ok] at granted
    obtain ⟨left, leftReal, address, based, rfl⟩ := granted
    obtain ⟨rfl, rfl⟩ := eq_of_memory based
    rw [Register.eq_of_toGpr leftReal]
    simp [Machine.after_singleton, Instruction.execute, effect, Machine.locate]
  | address target base offset =>
    simp only [Request.instructions, except_bind_eq_ok, except_pure_eq_ok] at granted
    obtain ⟨left, leftReal, address, based, rfl⟩ := granted
    obtain ⟨rfl, rfl⟩ := eq_of_memory based
    rw [Register.eq_of_toGpr leftReal]
    simp [Machine.after_singleton, Instruction.execute, effect, Machine.locate]
  | ret =>
    simp only [Request.instructions, except_pure_eq_ok] at granted
    subst granted
    rfl
  | constant target _ | arithConstant _ target _ | call target =>
    simp only [Request.instructions, except_bind_eq_ok, except_pure_eq_ok] at granted
    obtain ⟨operand, real, rfl⟩ := granted
    rw [Register.eq_of_toGpr real]
    simp [Machine.after_singleton, Instruction.execute, effect]
  | push source | pop source =>
    simp only [Request.instructions, except_bind_eq_ok, except_pure_eq_ok] at granted
    obtain ⟨operand, real, rfl⟩ := granted
    rw [Register.eq_of_toGpr real]
    simp [Machine.after_singleton, Instruction.execute, effect]
    rfl

/-- Only a request to return is granted as a return, and only one to call as a call. -/
theorem origin_of_instructions {request : Request} {instructions : List Instruction}
    (granted : request.instructions = .ok instructions) :
    (Instruction.ret ∈ instructions → request = .ret) ∧
      ∀ operand, Instruction.call operand ∈ instructions → ∃ register, request = .call register := by
  cases request with
  | ret => exact ⟨fun _ => rfl, fun operand member => by
      simp only [Request.instructions, except_pure_eq_ok] at granted
      simp [← granted] at member⟩
  | call target =>
    refine ⟨fun member => ?_, fun _ _ => ⟨target, rfl⟩⟩
    simp only [Request.instructions, except_bind_eq_ok, except_pure_eq_ok] at granted
    obtain ⟨_, _, rfl⟩ := granted
    simp at member
  | move target source =>
    simp only [Request.instructions, moveInstructions] at granted
    split at granted
    · simp only [except_pure_eq_ok] at granted
      simp [← granted]
    · split at granted <;> simp only [except_bind_eq_ok, except_pure_eq_ok] at granted <;>
        obtain ⟨_, _, _, _, rfl⟩ := granted <;> simp
  | load target base offset | store base offset source =>
    simp only [Request.instructions, except_bind_eq_ok] at granted
    obtain ⟨_, _, granted⟩ := granted
    split at granted <;> simp only [except_bind_eq_ok, except_pure_eq_ok] at granted <;>
      obtain ⟨_, _, rfl⟩ := granted <;> simp
  | arith _ target source | arithMemory _ target _ _ | address target _ _ =>
    simp only [Request.instructions, except_bind_eq_ok, except_pure_eq_ok] at granted
    obtain ⟨_, _, _, _, rfl⟩ := granted
    simp
  | constant target _ | arithConstant _ target _ | push source | pop source =>
    simp only [Request.instructions, except_bind_eq_ok, except_pure_eq_ok] at granted
    obtain ⟨_, _, rfl⟩ := granted
    simp

/-- Whether a request is granted. -/
def Granted (request : Request) : Prop := ∃ instructions, request.instructions = .ok instructions

theorem granted_move {target source : Register} (targetReal : target.InBank)
    (sourceReal : source.InBank) : (Request.move target source).Granted := by
  obtain ⟨targetBank, targetNumber⟩ := target
  obtain ⟨sourceBank, sourceNumber⟩ := source
  simp only [Register.InBank, Bank.size] at targetReal sourceReal
  by_cases same : (⟨targetBank, targetNumber⟩ : Register) = ⟨sourceBank, sourceNumber⟩
  · exact ⟨[], by simp [instructions, moveInstructions, same, pure, Except.pure]⟩
  · cases targetBank <;> cases sourceBank <;>
      simp [Granted, instructions, moveInstructions, same, Register.toGpr, Register.toXmm,
        targetReal, sourceReal, bind, Except.bind, pure, Except.pure]

theorem granted_load {target : Register} (real : target.InBank) {base : Register}
    (general : base.bank = .generalPurpose) (baseReal : base.InBank) (offset : Offset) :
    (Request.load target base offset).Granted := by
  obtain ⟨bank, number⟩ := target
  obtain ⟨baseBank, baseNumber⟩ := base
  simp only [Register.InBank, Bank.size] at real baseReal
  cases bank <;> simp_all [Granted, instructions, memory, Register.toGpr, Register.toXmm, bind,
    Except.bind, pure, Except.pure]

theorem granted_store {source : Register} (real : source.InBank) {base : Register}
    (general : base.bank = .generalPurpose) (baseReal : base.InBank) (offset : Offset) :
    (Request.store base offset source).Granted := by
  obtain ⟨bank, number⟩ := source
  obtain ⟨baseBank, baseNumber⟩ := base
  simp only [Register.InBank, Bank.size] at real baseReal
  cases bank <;> simp_all [Granted, instructions, memory, Register.toGpr, Register.toXmm, bind,
    Except.bind, pure, Except.pure]

theorem granted_constant {target : Register} (general : target.bank = .generalPurpose)
    (real : target.InBank) (value : Word) : (Request.constant target value).Granted := by
  obtain ⟨bank, number⟩ := target
  simp only [Register.InBank, Bank.size] at real
  simp_all [Granted, instructions, Register.toGpr, bind, Except.bind, pure, Except.pure]

/-- Requests that name one general-purpose register. -/
theorem granted_general {register : Register} (general : register.bank = .generalPurpose)
    (real : register.InBank) :
    (Request.push register).Granted ∧ (Request.pop register).Granted ∧
      (Request.call register).Granted ∧
      ∀ operation value, (Request.arithConstant operation register value).Granted := by
  obtain ⟨bank, number⟩ := register
  simp only [Register.InBank, Bank.size] at real
  simp_all [Granted, instructions, Register.toGpr, bind, Except.bind, pure, Except.pure]

theorem granted_arith {target source : Register} (general : target.bank = .generalPurpose)
    (real : target.InBank) (sourceGeneral : source.bank = .generalPurpose)
    (sourceReal : source.InBank) (operation : Arithmetic) :
    (Request.arith operation target source).Granted := by
  obtain ⟨bank, number⟩ := target
  obtain ⟨sourceBank, sourceNumber⟩ := source
  simp only [Register.InBank, Bank.size] at real sourceReal
  simp_all [Granted, instructions, Register.toGpr, bind, Except.bind, pure, Except.pure]

/-- Arithmetic with a word at a distance from a general-purpose register, and its address. -/
theorem granted_memory {target base : Register} (general : target.bank = .generalPurpose)
    (real : target.InBank) (baseGeneral : base.bank = .generalPurpose) (baseReal : base.InBank)
    (offset : Offset) :
    (∀ operation, (Request.arithMemory operation target base offset).Granted) ∧
      (Request.address target base offset).Granted := by
  obtain ⟨bank, number⟩ := target
  obtain ⟨baseBank, baseNumber⟩ := base
  simp only [Register.InBank, Bank.size] at real baseReal
  simp_all [Granted, instructions, memory, Register.toGpr, bind, Except.bind, pure, Except.pure]

end Request

theorem assemble_cons_eq_ok {request : Request} {rest : List Request}
    {instructions : List Instruction} (granted : assemble (request :: rest) = ⟨instructions, none⟩) :
    ∃ first later, request.instructions = .ok first ∧ assemble rest = ⟨later, none⟩ ∧
      instructions = first ++ later := by
  rw [assemble] at granted
  split at granted
  · simp at granted
  · rename_i first accepted
    simp only [Assembly.mk.injEq] at granted
    refine ⟨first, (assemble rest).instructions, accepted, ?_, granted.1.symm⟩
    rw [← granted.2]

/-- Instructions that are granted for requests do what the requests do. -/
theorem after_of_assemble (natives : Natives) (machine : Machine) {requests : List Request}
    {instructions : List Instruction} (granted : assemble requests = ⟨instructions, none⟩) :
    machine.after natives instructions = Request.effects natives machine requests := by
  induction requests generalizing machine instructions with
  | nil =>
    simp only [assemble, Assembly.mk.injEq] at granted
    rw [← granted.1]
    rfl
  | cons request rest ih =>
    obtain ⟨first, later, accepted, remaining, rfl⟩ := assemble_cons_eq_ok granted
    rw [Machine.after_append, Request.after_of_instructions natives machine accepted,
      ih _ remaining]
    rfl

/-- Returns and calls are granted only where they are asked for. -/
theorem origin_of_assemble {requests : List Request} {instructions : List Instruction}
    (granted : assemble requests = ⟨instructions, none⟩) :
    (Instruction.ret ∈ instructions → Request.ret ∈ requests) ∧
      ∀ operand, Instruction.call operand ∈ instructions →
        ∃ register, Request.call register ∈ requests := by
  induction requests generalizing instructions with
  | nil =>
    simp only [assemble, Assembly.mk.injEq] at granted
    simp [← granted.1]
  | cons request rest ih =>
    obtain ⟨first, later, accepted, remaining, rfl⟩ := assemble_cons_eq_ok granted
    obtain ⟨firstReturns, firstCalls⟩ := Request.origin_of_instructions accepted
    obtain ⟨laterReturns, laterCalls⟩ := ih remaining
    simp only [List.mem_append, List.mem_cons]
    constructor
    · rintro (member | member)
      · exact .inl (firstReturns member).symm
      · exact .inr (laterReturns member)
    · rintro operand (member | member)
      · obtain ⟨register, same⟩ := firstCalls operand member
        exact ⟨register, .inl same.symm⟩
      · obtain ⟨register, listed⟩ := laterCalls operand member
        exact ⟨register, .inr listed⟩

/-- Whether a request neither returns nor calls. -/
def Request.Plain : Request → Prop
  | .call _ | .ret => False
  | _ => True

/-- Instructions among which there is neither a return nor a call. -/
structure Straight (instructions : List Instruction) : Prop where
  ret : Instruction.ret ∉ instructions
  call : ∀ operand, Instruction.call operand ∉ instructions

theorem straight_nil : Straight [] := ⟨List.not_mem_nil, fun _ => List.not_mem_nil⟩

theorem Straight.append {first second : List Instruction} (before : Straight first)
    (later : Straight second) : Straight (first ++ second) := by
  constructor
  · simpa using ⟨before.ret, later.ret⟩
  · intro operand
    simpa using ⟨before.call operand, later.call operand⟩

/-- What is granted for plain requests is straight. -/
theorem straight_of_assemble {requests : List Request} {instructions : List Instruction}
    (granted : assemble requests = ⟨instructions, none⟩)
    (plain : ∀ request ∈ requests, request.Plain) : Straight instructions := by
  obtain ⟨returns, calls⟩ := origin_of_assemble granted
  constructor
  · intro member
    exact plain _ (returns member)
  · intro operand member
    obtain ⟨register, listed⟩ := calls operand member
    exact plain _ listed

/-- Requests that are all granted are granted one after the other. -/
theorem assemble_of_granted {requests : List Request}
    (granted : ∀ request ∈ requests, request.Granted) :
    ∃ instructions, assemble requests = ⟨instructions, none⟩ := by
  induction requests with
  | nil => exact ⟨[], rfl⟩
  | cons request rest ih =>
    obtain ⟨first, accepted⟩ := granted request List.mem_cons_self
    obtain ⟨later, remaining⟩ := ih fun other member => granted other (List.mem_cons_of_mem _ member)
    exact ⟨first ++ later, by simp [assemble, accepted, remaining]⟩

theorem assemble_append_eq_ok {first second : List Request} {instructions : List Instruction}
    (granted : assemble (first ++ second) = ⟨instructions, none⟩) :
    ∃ before later, assemble first = ⟨before, none⟩ ∧ assemble second = ⟨later, none⟩ ∧
      instructions = before ++ later := by
  induction first generalizing instructions with
  | nil => exact ⟨[], instructions, rfl, granted, rfl⟩
  | cons request rest ih =>
    obtain ⟨here, later, accepted, remaining, rfl⟩ := assemble_cons_eq_ok granted
    obtain ⟨before, last, restGranted, secondGranted, rfl⟩ := ih remaining
    refine ⟨here ++ before, last, ?_, secondGranted, by simp⟩
    simp [assemble, accepted, restGranted]

end NativeExpr
