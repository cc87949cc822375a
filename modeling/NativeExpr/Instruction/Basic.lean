import NativeExpr.Kind
import NativeExpr.Location

/-!
# Instructions

The instructions that generated code consists of. Operands are registers of the
machine, so every value of `Instruction` has an encoding and a meaning.
-/

namespace NativeExpr

/-- A general-purpose register of the machine, by number. -/
abbrev Gpr := Fin 16

/-- An XMM register of the machine, by number. -/
abbrev Xmm := Fin 16

/-- There are registers of either kind. -/
-- The zero is that of the numeral, whichever others of the natural numbers are known.
instance Gpr.neZero : @NeZero Nat Zero.ofOfNat0 16 := ⟨by decide⟩

/-- The arithmetic on integers. -/
inductive Arithmetic where
  | add
  | sub
  | mul
deriving DecidableEq

namespace Arithmetic

/-- The assembly mnemonic. -/
def mnemonic : Arithmetic → String
  | .add => "add"
  | .sub => "sub"
  | .mul => "imul"

/-- The result on words, which wraps. -/
def apply : Arithmetic → Word → Word → Word
  | .add, left, right => left + right
  | .sub, left, right => left - right
  | .mul, left, right => left * right

end Arithmetic

/-- A memory operand: the content of a register and a distance from there. -/
structure Address where
  base : Gpr
  offset : Offset
deriving DecidableEq

/-- One instruction. All of them work on 64 bits. -/
inductive Instruction where
  | copyGpr (target source : Gpr)
  | copyXmm (target source : Xmm)
  /-- Moves the bits of a general-purpose register into an XMM register. -/
  | gprToXmm (target : Xmm) (source : Gpr)
  /-- Moves the bits of an XMM register into a general-purpose register. -/
  | xmmToGpr (target : Gpr) (source : Xmm)
  | constant (target : Gpr) (value : Word)
  | loadGpr (target : Gpr) (source : Address)
  | loadXmm (target : Xmm) (source : Address)
  | storeGpr (target : Address) (source : Gpr)
  | storeXmm (target : Address) (source : Xmm)
  | arith (operation : Arithmetic) (target source : Gpr)
  /-- Arithmetic with a constant, whose sign is extended to 64 bits. -/
  | arithConstant (operation : Arithmetic) (target : Gpr) (value : BitVec 32)
  | arithMemory (operation : Arithmetic) (target : Gpr) (source : Address)
  /-- Computes the address of a memory operand. -/
  | address (target : Gpr) (source : Address)
  | push (source : Gpr)
  | pop (target : Gpr)
  /-- Calls the function whose address a register holds. -/
  | call (target : Gpr)
  | ret
deriving DecidableEq

end NativeExpr
