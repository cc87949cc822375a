import NativeExpr.Instruction.Basic

/-!
# Requests for instructions

A request names registers freely; it is granted when they are registers of the
machine in the bank that the instruction needs. `assemble` grants a list of
requests in order and stops at the first one that cannot be granted, keeping what
the earlier ones asked for.
-/

namespace NativeExpr

/-- Why a request is not granted. -/
inductive EncodingError where
  /-- The register is not one that the instruction can use. -/
  | invalidRegister (register : Register)
  /-- The assembler refused the instruction and said why. -/
  | refused (reason : String)
deriving DecidableEq

/-- The message of an error. -/
def EncodingError.text : EncodingError → String
  | .invalidRegister register => "invalid register " ++ register.name ++ " for operation"
  | .refused reason => "assembly error: " ++ reason

/-- The operand of a general-purpose register. -/
def Register.toGpr (register : Register) : Except EncodingError Gpr :=
  if h : register.bank = .generalPurpose ∧ register.number < 16 then
    .ok ⟨register.number, h.2⟩
  else
    .error (.invalidRegister register)

/-- The operand of an XMM register. -/
def Register.toXmm (register : Register) : Except EncodingError Xmm :=
  if h : register.bank = .xmm ∧ register.number < 16 then
    .ok ⟨register.number, h.2⟩
  else
    .error (.invalidRegister register)

/-- What a step of code generation may ask for. -/
inductive Request where
  | move (target source : Register)
  | constant (target : Register) (value : Word)
  | load (target base : Register) (offset : Offset)
  | store (base : Register) (offset : Offset) (source : Register)
  | arith (operation : Arithmetic) (target source : Register)
  | arithConstant (operation : Arithmetic) (target : Register) (value : BitVec 32)
  | arithMemory (operation : Arithmetic) (target base : Register) (offset : Offset)
  | address (target base : Register) (offset : Offset)
  | push (source : Register)
  | pop (target : Register)
  | call (target : Register)
  | ret
deriving DecidableEq

namespace Request

/-- The instructions of a copy between registers: none if they are the same. -/
def moveInstructions (target source : Register) : Except EncodingError (List Instruction) :=
  if target = source then
    pure []
  else
    match target.bank, source.bank with
    | .generalPurpose, .generalPurpose => do
      return [.copyGpr (← target.toGpr) (← source.toGpr)]
    | .xmm, .xmm => do
      return [.copyXmm (← target.toXmm) (← source.toXmm)]
    | .xmm, .generalPurpose => do
      return [.gprToXmm (← target.toXmm) (← source.toGpr)]
    | .generalPurpose, .xmm => do
      return [.xmmToGpr (← target.toGpr) (← source.toXmm)]

/-- The memory operand at a distance from a register. -/
def memory (base : Register) (offset : Offset) : Except EncodingError Address := do
  return ⟨← base.toGpr, offset⟩

/-- The instructions that a request stands for. Where several operands are at fault
the error names the one that is looked at first. -/
def instructions : Request → Except EncodingError (List Instruction)
  | .move target source => moveInstructions target source
  | .constant target value => do
    return [.constant (← target.toGpr) value]
  | .load target base offset => do
    let source ← memory base offset
    match target.bank with
    | .generalPurpose => return [.loadGpr (← target.toGpr) source]
    | .xmm => return [.loadXmm (← target.toXmm) source]
  | .store base offset source => do
    let target ← memory base offset
    match source.bank with
    | .generalPurpose => return [.storeGpr target (← source.toGpr)]
    | .xmm => return [.storeXmm target (← source.toXmm)]
  | .arith operation target source => do
    return [.arith operation (← target.toGpr) (← source.toGpr)]
  | .arithConstant operation target value => do
    return [.arithConstant operation (← target.toGpr) value]
  | .arithMemory operation target base offset => do
    return [.arithMemory operation (← target.toGpr) (← memory base offset)]
  | .address target base offset => do
    return [.address (← target.toGpr) (← memory base offset)]
  | .push source => do
    return [.push (← source.toGpr)]
  | .pop target => do
    return [.pop (← target.toGpr)]
  | .call target => do
    return [.call (← target.toGpr)]
  | .ret => return [.ret]

end Request

/-- What a list of requests amounts to. -/
structure Assembly where
  /-- The instructions up to the first request that is not granted. -/
  instructions : List Instruction
  /-- Why that request is not granted. -/
  fault : Option EncodingError
deriving DecidableEq

/-- Grants requests in order up to the first fault. -/
def assemble : List Request → Assembly
  | [] => ⟨[], none⟩
  | request :: rest =>
    match request.instructions with
    | .error fault => ⟨[], some fault⟩
    | .ok instructions =>
      let later := assemble rest
      ⟨instructions ++ later.instructions, later.fault⟩

/-- Code that is being written. -/
abbrev Code := Array Instruction

/-- Writes what the requests ask for, up to the first fault. -/
def Code.write (requests : List Request) : EStateM EncodingError Code Unit := fun code =>
  let assembly := assemble requests
  let code := code ++ assembly.instructions
  match assembly.fault with
  | none => .ok () code
  | some fault => .error fault code

end NativeExpr
