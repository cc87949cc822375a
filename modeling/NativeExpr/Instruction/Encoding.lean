import NativeExpr.Instruction.Basic

/-!
# Machine code

The bytes of each instruction: operand-size and mandatory prefixes, the REX byte,
the opcode, the operand bytes and the constants in little-endian order. Displacements
and arithmetic constants take one byte where they fit into one, with two exceptions:
a constant added to or subtracted from the accumulator has an opcode of its own, which
takes four bytes, and a constant moved into a register takes eight.
-/

namespace NativeExpr

/-- One byte of machine code. -/
abbrev Byte := BitVec 8

namespace Encoding

/-- Whether a signed quantity fits into one byte. -/
def fitsByte (value : BitVec 32) : Bool := -128 ≤ value.toInt && value.toInt ≤ 127

/-- The first bytes of a quantity in little-endian order. -/
def littleEndian {width : Nat} (count : Nat) (value : BitVec width) : List Byte :=
  (List.range count).map fun position => value.extractLsb' (8 * position) 8

/-- The low three bits of a register number, which go into operand bytes. -/
def low (register : Fin 16) : Byte := BitVec.ofNat 8 (register.val % 8)

/-- The top bit of a register number, which goes into the REX byte. -/
def high (register : Fin 16) : Byte := BitVec.ofNat 8 (register.val / 8)

/-- The REX byte of an instruction on 64 bits. -/
def rexWide (operand target : Fin 16) : Byte := 0x48 + 4 * high operand + high target

/-- The REX byte of an instruction that needs none for its width. -/
def rexNarrow (operand target : Fin 16) : List Byte :=
  let extension := 4 * high operand + high target
  if extension = 0 then [] else [0x40 + extension]

/-- The operand byte: addressing mode, the register operand and the other operand. -/
def operandByte (mode operand target : Byte) : Byte := 64 * mode + 8 * operand + target

/-- The operand byte for two registers. -/
def registerOperand (operand target : Byte) : List Byte := [operandByte 3 operand target]

/-- The operand bytes for a register operand and memory. A base whose low bits are
those of the stack pointer takes a second operand byte, and one whose low bits are
those of the frame pointer always has a displacement. -/
def memoryOperand (operand : Byte) (address : Address) : List Byte :=
  let base := low address.base
  let second : List Byte := if base = 4 then [0x24] else []
  if address.offset = 0 && base != 5 then
    operandByte 0 operand base :: second
  else if fitsByte address.offset then
    operandByte 1 operand base :: second ++ littleEndian 1 address.offset
  else
    operandByte 2 operand base :: second ++ littleEndian 4 address.offset

/-- The digit that takes the place of the register operand when addition or
subtraction has a constant operand. -/
def immediateDigit : Arithmetic → Byte
  | .sub => 5
  | _ => 0

end Encoding

open Encoding

namespace Instruction

/-- The machine code of one instruction. -/
def bytes : Instruction → List Byte
  | .copyGpr target source =>
    rexWide source target :: 0x89 :: registerOperand (low source) (low target)
  | .copyXmm target source =>
    0xF3 :: rexNarrow target source ++ 0x0F :: 0x7E :: registerOperand (low target) (low source)
  | .gprToXmm target source =>
    0x66 :: rexWide target source :: 0x0F :: 0x6E :: registerOperand (low target) (low source)
  | .xmmToGpr target source =>
    0x66 :: rexWide source target :: 0x0F :: 0x7E :: registerOperand (low source) (low target)
  | .constant target value =>
    rexWide 0 target :: (0xB8 + low target) :: littleEndian 8 value
  | .loadGpr target source =>
    rexWide target source.base :: 0x8B :: memoryOperand (low target) source
  | .storeGpr target source =>
    rexWide source target.base :: 0x89 :: memoryOperand (low source) target
  | .loadXmm target source =>
    0xF3 :: rexNarrow target source.base ++ 0x0F :: 0x7E :: memoryOperand (low target) source
  | .storeXmm target source =>
    0x66 :: rexNarrow source target.base ++ 0x0F :: 0xD6 :: memoryOperand (low source) target
  | .arith .add target source =>
    rexWide source target :: 0x01 :: registerOperand (low source) (low target)
  | .arith .sub target source =>
    rexWide source target :: 0x29 :: registerOperand (low source) (low target)
  | .arith .mul target source =>
    rexWide target source :: 0x0F :: 0xAF :: registerOperand (low target) (low source)
  | .arithMemory .add target source =>
    rexWide target source.base :: 0x03 :: memoryOperand (low target) source
  | .arithMemory .sub target source =>
    rexWide target source.base :: 0x2B :: memoryOperand (low target) source
  | .arithMemory .mul target source =>
    rexWide target source.base :: 0x0F :: 0xAF :: memoryOperand (low target) source
  | .arithConstant .mul target value =>
    if fitsByte value then
      rexWide target target :: 0x6B :: registerOperand (low target) (low target) ++
        littleEndian 1 value
    else
      rexWide target target :: 0x69 :: registerOperand (low target) (low target) ++
        littleEndian 4 value
  | .arithConstant operation target value =>
    let digit := immediateDigit operation
    if target = 0 then
      rexWide 0 target :: (0x05 + 8 * digit) :: littleEndian 4 value
    else if fitsByte value then
      rexWide 0 target :: 0x83 :: registerOperand digit (low target) ++ littleEndian 1 value
    else
      rexWide 0 target :: 0x81 :: registerOperand digit (low target) ++ littleEndian 4 value
  | .address target source =>
    rexWide target source.base :: 0x8D :: memoryOperand (low target) source
  | .push source => rexNarrow 0 source ++ [0x50 + low source]
  | .pop target => rexNarrow 0 target ++ [0x58 + low target]
  | .call target => rexNarrow 0 target ++ 0xFF :: registerOperand 2 (low target)
  | .ret => [0xC3]

end Instruction

/-- The machine code of instructions that follow one another. -/
def machineCode (instructions : List Instruction) : List Byte :=
  instructions.flatMap Instruction.bytes

end NativeExpr
