import NativeExpr.Kind
import NativeExpr.Location
import NativeExpr.RegisterSet

/-!
# The System V calling convention

Which registers carry arguments and results, which a callee preserves, and which
the code generator keeps for itself. `Assigner` gives each argument of a signature
its place: the next argument register of its bank, or the next eight bytes of the
outgoing area once the bank's argument registers are used up.
-/

namespace NativeExpr

/-- Where an argument is passed. -/
inductive Place where
  | register (register : Register)
  /-- The eight bytes at a distance from the start of the argument area. -/
  | stack (offset : Offset)
deriving DecidableEq

/-- The register of an argument that is passed in one. -/
def Place.register? : Place → Option Register
  | .register reg => some reg
  | .stack _ => none

/-- The offset of an argument that is passed on the stack. -/
def Place.offset? : Place → Option Offset
  | .register _ => none
  | .stack offset => some offset

namespace Convention

/-- The registers that carry arguments, in order, per bank. -/
def argumentRegisters : PerBank (List Register) where
  generalPurpose := [.rdi, .rsi, .rdx, .rcx, .r8, .r9]
  xmm := (List.range 8).map Register.xmm

/-- The register that carries a result of a bank. -/
def resultRegister : Bank → Register
  | .generalPurpose => .rax
  | .xmm => .xmm 0

/-- The registers that a callee preserves and that may hold values. -/
def calleeSaved : List Register := [.rbx, .r12, .r13, .r14, .r15]

/-- The register per bank that no value lives in, free for the use of single steps. -/
def scratch : Bank → Register
  | .generalPurpose => .r11
  | .xmm => .xmm 15

/-- The register through which functions are called. -/
def callTarget : Register := .rax

/-- The registers that may hold values, per bank. A smaller pool takes a first part
of the list. -/
def allocationOrder : PerBank (List Register) where
  generalPurpose :=
    [.rax, .rcx, .rdx, .rbx, .rsi, .rdi, .r8, .r9, .r10, .r12, .r13, .r14, .r15]
  xmm := (List.range 15).map Register.xmm

/-- The registers that a callee may overwrite. -/
def callerSaved : RegisterSet :=
  ((((RegisterSet.allIn .generalPurpose).union (.allIn .xmm)).diff (.ofList calleeSaved)).erase
    .rsp).erase .rbp

/-- The most parameters that a native function type has. -/
def maxArity : Nat := 8

end Convention

/-- What is left for the arguments still to come. -/
structure Assigner where
  /-- The argument registers not yet given out. -/
  remaining : PerBank (List Register)
  /-- The bytes of the outgoing area given out so far. -/
  stack : Nat

namespace Assigner

/-- The state before the first argument. -/
def new : Assigner := ⟨Convention.argumentRegisters, 0⟩

/-- Gives the next argument its place. -/
def assign (assigner : Assigner) (kind : Kind) : Place × Assigner :=
  match assigner.remaining.get kind.bank with
  | register :: later =>
    (.register register, { assigner with remaining := assigner.remaining.set kind.bank later })
  | [] =>
    (.stack (BitVec.ofNat 32 assigner.stack), { assigner with stack := assigner.stack + 8 })

/-- The size of the outgoing area, a multiple of sixteen bytes. -/
def stackSize (assigner : Assigner) : Nat := (assigner.stack + 15) / 16 * 16

/-- The places of the arguments still to come. -/
def assignAll (assigner : Assigner) : List Kind → List Place
  | [] => []
  | kind :: rest =>
    let (place, assigner) := assigner.assign kind
    place :: assigner.assignAll rest

end Assigner

/-- The places of all arguments of the given kinds. -/
def Convention.places (kinds : List Kind) : List Place := Assigner.new.assignAll kinds

end NativeExpr
