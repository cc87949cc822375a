import NativeExpr.Instruction.Encoding
import NativeExpr.Instruction.Request

/-!
# Reading machine code

A reader for the part of the instruction set that generated code is in. It goes by the layout of
instructions alone: a prefix, the REX byte, the opcode, the operand byte with the byte for a base
and the displacement, and constants. It takes every form of an instruction that has these opcodes,
whether that form is ever written or not, and it tells memory operands that are relative to the
next instruction from those that have a base.
-/

namespace NativeExpr

/-- What is read from the front of machine code. -/
inductive Decoded where
  | instruction (instruction : Instruction)
  /-- An instruction whose operand is in memory at a distance from the next instruction. -/
  | relative (distance : Offset)
deriving DecidableEq

namespace Decoding

/-- What a REX byte says: whether the instruction works on 64 bits, and the top bits of the
register operand, of an index and of the other operand. -/
structure Rex where
  wide : Bool
  operand : Bool
  index : Bool
  target : Bool
deriving DecidableEq

/-- The register of a top bit and three low bits. -/
def register (top : Bool) (low : BitVec 3) : Fin 16 := (BitVec.ofBool top ++ low).toFin

/-- Reads a prefix that tells instructions with one opcode apart. -/
def selector : List Byte → Option Byte × List Byte
  | first :: rest =>
    if first = 0x66 ∨ first = 0xF3 then (some first, rest) else (none, first :: rest)
  | [] => (none, [])

/-- Reads a REX byte if there is one. -/
def rex : List Byte → Rex × List Byte
  | first :: rest =>
    if first.extractLsb' 4 4 = 4 then
      (⟨first.getLsbD 3, first.getLsbD 2, first.getLsbD 1, first.getLsbD 0⟩, rest)
    else
      (⟨false, false, false, false⟩, first :: rest)
  | [] => (⟨false, false, false, false⟩, [])

/-- Reads a quantity of some bytes, the lowest byte first. -/
def quantity : (count : Nat) → List Byte → Option (BitVec (8 * count) × List Byte)
  | 0, bytes => some (0, bytes)
  | _ + 1, [] => none
  | count + 1, first :: rest => do
    let (upper, rest) ← quantity count rest
    return (upper ++ first, rest)

/-- Reads a constant of one byte or of four bytes and extends its sign. -/
def constant (short : Bool) (bytes : List Byte) : Option (BitVec 32 × List Byte) :=
  if short then do
    let (value, rest) ← quantity 1 bytes
    return (value.signExtend 32, rest)
  else
    quantity 4 bytes

/-- The operand that is not the register operand. -/
inductive Operand where
  | register (register : Fin 16)
  | memory (address : Address)
  | relative (distance : Offset)
deriving DecidableEq

/-- Reads the low bits of a base register. They are in a byte of their own if the bits in the
operand byte are those of the stack pointer; that byte must not name an index as well, nor leave
the base out. -/
def base (rex : Rex) (mode : BitVec 2) (low : BitVec 3) (bytes : List Byte) :
    Option (BitVec 3 × List Byte) :=
  if low = 4 then
    match bytes with
    | [] => none
    | second :: rest =>
      let based := second.extractLsb' 0 3
      if second.extractLsb' 3 3 = 4 ∧ rex.index = false ∧ ¬(mode = 0 ∧ based = 5) then
        some (based, rest)
      else
        none
  else
    some (low, bytes)

/-- Reads the displacement of an addressing mode. -/
def displacement (mode : BitVec 2) (bytes : List Byte) : Option (Offset × List Byte) :=
  if mode = 0 then some (0, bytes) else constant (mode = 1) bytes

/-- Reads the bytes for a register operand and another operand. -/
def operands (rex : Rex) : List Byte → Option ((Fin 16 × Operand) × List Byte)
  | [] => none
  | first :: rest => do
    let mode := first.extractLsb' 6 2
    let own := register rex.operand (first.extractLsb' 3 3)
    let low := first.extractLsb' 0 3
    if mode = 3 then
      return ((own, .register (register rex.target low)), rest)
    else if mode = 0 ∧ low = 5 then
      let (distance, rest) ← constant false rest
      return ((own, .relative distance), rest)
    else
      let (low, rest) ← base rex mode low rest
      let (offset, rest) ← displacement mode rest
      return ((own, .memory ⟨register rex.target low, offset⟩), rest)

/-- The instruction of an opcode with operand bytes that takes a register as its other operand. -/
def onRegister (opcode : Byte) (own other : Fin 16) : Option Instruction :=
  match opcode.toNat with
  | 0x89 => some (.copyGpr other own)
  | 0x8B => some (.copyGpr own other)
  | 0x01 => some (.arith .add other own)
  | 0x03 => some (.arith .add own other)
  | 0x29 => some (.arith .sub other own)
  | 0x2B => some (.arith .sub own other)
  | _ => none

/-- The instruction of an opcode with operand bytes that takes memory as its other operand. -/
def onMemory (opcode : Byte) (own : Fin 16) (address : Address) : Option Instruction :=
  match opcode.toNat with
  | 0x89 => some (.storeGpr address own)
  | 0x8B => some (.loadGpr own address)
  | 0x03 => some (.arithMemory .add own address)
  | 0x2B => some (.arithMemory .sub own address)
  | 0x8D => some (.address own address)
  | _ => none

/-- The instruction of an opcode after the escape byte that takes a register as its other
operand. -/
def escapedOnRegister (selector : Option Byte) (wide : Bool) (opcode : Byte) (own other : Fin 16) :
    Option Instruction :=
  match selector.map BitVec.toNat, wide, opcode.toNat with
  | none, true, 0xAF => some (.arith .mul own other)
  | some 0x66, true, 0x6E => some (.gprToXmm own other)
  | some 0x66, true, 0x7E => some (.xmmToGpr other own)
  | some 0xF3, _, 0x7E => some (.copyXmm own other)
  | some 0x66, _, 0xD6 => some (.copyXmm other own)
  | _, _, _ => none

/-- The instruction of an opcode after the escape byte that takes memory as its other operand. -/
def escapedOnMemory (selector : Option Byte) (wide : Bool) (opcode : Byte) (own : Fin 16)
    (address : Address) : Option Instruction :=
  match selector.map BitVec.toNat, wide, opcode.toNat with
  | none, true, 0xAF => some (.arithMemory .mul own address)
  | some 0x66, true, 0x6E => some (.loadXmm own address)
  | some 0x66, true, 0x7E => some (.storeXmm address own)
  | some 0xF3, _, 0x7E => some (.loadXmm own address)
  | some 0x66, _, 0xD6 => some (.storeXmm address own)
  | _, _, _ => none

/-- What an operand makes of an opcode. -/
def onOperand (register : Fin 16 → Option Instruction) (memory : Address → Option Instruction) :
    Operand → Option Decoded
  | .register other => (register other).map .instruction
  | .memory address => (memory address).map .instruction
  | .relative distance => some (.relative distance)

/-- The arithmetic that a digit in the place of the register operand stands for. -/
def arithmeticOf (digit : Nat) : Option Arithmetic :=
  match digit with
  | 0 => some .add
  | 5 => some .sub
  | _ => none

/-- Reads arithmetic on a register with a constant, by a digit. -/
def arithmetic (rex : Rex) (short : Bool) (bytes : List Byte) : Option (Decoded × List Byte) := do
  let ((digit, operand), rest) ← operands rex bytes
  let (value, rest) ← constant short rest
  match operand with
  | .register target =>
    let operation ← arithmeticOf (digit.val % 8)
    return (.instruction (.arithConstant operation target value), rest)
  | .memory _ => none
  | .relative distance => return (.relative distance, rest)

/-- Reads a product of a register with a constant, which has to go to the same register. -/
def product (rex : Rex) (short : Bool) (bytes : List Byte) : Option (Decoded × List Byte) := do
  let ((own, operand), rest) ← operands rex bytes
  let (value, rest) ← constant short rest
  match operand with
  | .register other =>
    if own = other then return (.instruction (.arithConstant .mul own value), rest) else none
  | .memory _ => none
  | .relative distance => return (.relative distance, rest)

/-- Reads arithmetic on the accumulator with a constant. -/
def accumulator (operation : Arithmetic) (bytes : List Byte) : Option (Decoded × List Byte) := do
  let (value, rest) ← constant false bytes
  return (.instruction (.arithConstant operation 0 value), rest)

/-- Reads what follows an opcode of one byte in an instruction on 64 bits. -/
def wideOperation (rex : Rex) (opcode : Byte) (rest : List Byte) : Option (Decoded × List Byte) :=
  if opcode.extractLsb' 3 5 = 0x17 then do
    let (value, rest) ← quantity 8 rest
    return (.instruction (.constant (register rex.target (opcode.extractLsb' 0 3)) value), rest)
  else
    match opcode.toNat with
    | 0x05 => accumulator .add rest
    | 0x2D => accumulator .sub rest
    | 0x83 => arithmetic rex true rest
    | 0x81 => arithmetic rex false rest
    | 0x6B => product rex true rest
    | 0x69 => product rex false rest
    | _ => do
      let ((own, operand), rest) ← operands rex rest
      let decoded ← onOperand (onRegister opcode own) (onMemory opcode own) operand
      return (decoded, rest)

/-- Reads what follows an opcode of one byte. What moves the stack pointer works on 64 bits without
being told so. -/
def operation (rex : Rex) (opcode : Byte) (rest : List Byte) : Option (Decoded × List Byte) :=
  if opcode = 0xC3 then
    some (.instruction .ret, rest)
  else if opcode.extractLsb' 3 5 = 0x0A then
    some (.instruction (.push (register rex.target (opcode.extractLsb' 0 3))), rest)
  else if opcode.extractLsb' 3 5 = 0x0B then
    some (.instruction (.pop (register rex.target (opcode.extractLsb' 0 3))), rest)
  else if opcode = 0xFF then do
    let ((digit, operand), rest) ← operands rex rest
    if digit.val % 8 = 2 then
      let decoded ← onOperand (fun target => some (.call target)) (fun _ => none) operand
      return (decoded, rest)
    else
      none
  else if rex.wide then
    wideOperation rex opcode rest
  else
    none

/-- Reads what follows the escape byte. -/
def escaped (selector : Option Byte) (rex : Rex) : List Byte → Option (Decoded × List Byte)
  | [] => none
  | opcode :: rest => do
    let ((own, operand), rest) ← operands rex rest
    let decoded ← onOperand (escapedOnRegister selector rex.wide opcode own)
      (escapedOnMemory selector rex.wide opcode own) operand
    return (decoded, rest)

/-- Reads one instruction from the front of machine code. -/
def next (bytes : List Byte) : Option (Decoded × List Byte) :=
  let (selector, bytes) := selector bytes
  let (rex, bytes) := rex bytes
  match bytes with
  | [] => none
  | opcode :: rest =>
    if opcode = 0x0F then escaped selector rex rest
    else if selector.isSome then none
    else operation rex opcode rest

/-- Reads at most so many instructions, up to the end of the code. -/
def within : Nat → List Byte → Option (List Decoded)
  | _, [] => some []
  | 0, _ :: _ => none
  | count + 1, bytes => do
    let (first, rest) ← next bytes
    return first :: (← within count rest)

end Decoding

/-- Reads machine code from front to back. No instruction takes less than a byte. -/
def decode (bytes : List Byte) : Option (List Decoded) := Decoding.within bytes.length bytes

/-- Whether a request asks for nothing. -/
def Request.isIdle : Request → Bool
  | .move target source => target = source
  | _ => false

/-- The request that asks for an instruction. -/
def Instruction.request : Instruction → Request
  | .copyGpr target source => .move (.gp target) (.gp source)
  | .copyXmm target source => .move (.xmm target) (.xmm source)
  | .gprToXmm target source => .move (.xmm target) (.gp source)
  | .xmmToGpr target source => .move (.gp target) (.xmm source)
  | .constant target value => .constant (.gp target) value
  | .loadGpr target source => .load (.gp target) (.gp source.base) source.offset
  | .loadXmm target source => .load (.xmm target) (.gp source.base) source.offset
  | .storeGpr target source => .store (.gp target.base) target.offset (.gp source)
  | .storeXmm target source => .store (.gp target.base) target.offset (.xmm source)
  | .arith operation target source => .arith operation (.gp target) (.gp source)
  | .arithConstant operation target value => .arithConstant operation (.gp target) value
  | .arithMemory operation target source =>
    .arithMemory operation (.gp target) (.gp source.base) source.offset
  | .address target source => .address (.gp target) (.gp source.base) source.offset
  | .push source => .push (.gp source)
  | .pop target => .pop (.gp target)
  | .call target => .call (.gp target)
  | .ret => .ret

end NativeExpr
