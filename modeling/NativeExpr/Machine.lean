import NativeExpr.Instruction.Basic

/-!
# The machine that runs generated code

The state that generated code can observe: the general-purpose registers, the low
halves of the XMM registers and memory, byte by byte. Generated code has no jumps, so
it runs from front to back until it returns; what a native function does to the state
is given from outside.
-/

namespace NativeExpr

/-- What a piece of generated code works on. -/
structure Machine where
  gpr : Gpr → Word
  xmm : Xmm → Word
  memory : Word → BitVec 8

namespace Machine

/-- The number of the stack pointer. -/
def stackPointer : Gpr := 4

/-- The eight bytes from an address on, the lowest byte first. -/
def readWord (memory : Word → BitVec 8) (address : Word) : Word :=
  memory (address + 7) ++ memory (address + 6) ++ memory (address + 5) ++ memory (address + 4) ++
    memory (address + 3) ++ memory (address + 2) ++ memory (address + 1) ++ memory address

/-- Replaces the eight bytes from an address on. -/
def writeWord (memory : Word → BitVec 8) (address value : Word) : Word → BitVec 8 :=
  fun place =>
    let position := (place - address).toNat
    if position < 8 then value.extractLsb' (8 * position) 8 else memory place

/-- The content of a memory operand. -/
def load (machine : Machine) (address : Word) : Word := readWord machine.memory address

/-- Changes the content of a memory operand. -/
def store (machine : Machine) (address value : Word) : Machine :=
  { machine with memory := writeWord machine.memory address value }

/-- Changes a general-purpose register. -/
def setGpr (machine : Machine) (register : Gpr) (value : Word) : Machine :=
  { machine with gpr := fun other => if other = register then value else machine.gpr other }

/-- Changes an XMM register. -/
def setXmm (machine : Machine) (register : Xmm) (value : Word) : Machine :=
  { machine with xmm := fun other => if other = register then value else machine.xmm other }

/-- The address that a memory operand names. -/
def locate (machine : Machine) (address : Address) : Word :=
  machine.gpr address.base + address.offset.signExtend 64

/-- Puts a word on the stack. -/
def push (machine : Machine) (value : Word) : Machine :=
  let top := machine.gpr stackPointer - 8
  (machine.setGpr stackPointer top).store top value

/-- Takes a word from the stack into a register. -/
def pop (machine : Machine) (target : Gpr) : Machine :=
  let top := machine.gpr stackPointer
  (machine.setGpr stackPointer (top + 8)).setGpr target (machine.load top)

end Machine

/-- What native functions do: the state after the return of the function at an address,
from the state in which it is called. -/
abbrev Natives := Word → Machine → Machine

namespace Instruction

/-- The state after an instruction. Returning ends the code and changes nothing here. -/
def execute (natives : Natives) (machine : Machine) : Instruction → Machine
  | .copyGpr target source => machine.setGpr target (machine.gpr source)
  | .copyXmm target source => machine.setXmm target (machine.xmm source)
  | .gprToXmm target source => machine.setXmm target (machine.gpr source)
  | .xmmToGpr target source => machine.setGpr target (machine.xmm source)
  | .constant target value => machine.setGpr target value
  | .loadGpr target source => machine.setGpr target (machine.load (machine.locate source))
  | .loadXmm target source => machine.setXmm target (machine.load (machine.locate source))
  | .storeGpr target source => machine.store (machine.locate target) (machine.gpr source)
  | .storeXmm target source => machine.store (machine.locate target) (machine.xmm source)
  | .arith operation target source =>
    machine.setGpr target (operation.apply (machine.gpr target) (machine.gpr source))
  | .arithConstant operation target value =>
    machine.setGpr target (operation.apply (machine.gpr target) (value.signExtend 64))
  | .arithMemory operation target source =>
    machine.setGpr target
      (operation.apply (machine.gpr target) (machine.load (machine.locate source)))
  | .address target source => machine.setGpr target (machine.locate source)
  | .push source => machine.push (machine.gpr source)
  | .pop target => machine.pop target
  | .call target => natives (machine.gpr target) machine
  | .ret => machine

end Instruction

namespace Machine

/-- The state in which code returns, or nothing if it ends without returning. -/
def run (natives : Natives) (machine : Machine) : List Instruction → Option Machine
  | [] => none
  | .ret :: _ => some machine
  | instruction :: rest => run natives (instruction.execute natives machine) rest

end Machine

end NativeExpr
