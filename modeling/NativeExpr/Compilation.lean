import NativeExpr.Generation.Basic
import NativeExpr.Instruction.Encoding
import NativeExpr.Labeling

/-!
# Compilation

A root is compiled into a function of a given signature: it is labeled, generated
with an empty pool and without kept values, and returned from the function. A failed
compilation yields no function.
-/

namespace NativeExpr

/-- Finished machine code. -/
structure Executable where
  bytes : List Byte
deriving DecidableEq

namespace Executable

/-- The length of the code in bytes. -/
def size (executable : Executable) : Nat := executable.bytes.length

/-- Whether there is no code. -/
def isEmpty (executable : Executable) : Bool := executable.bytes.isEmpty

end Executable

/-- A compiled function. -/
structure Compiled where
  instructions : List Instruction
  statistics : Statistics

/-- The machine code of a compiled function. -/
def Compiled.executable (compiled : Compiled) : Executable :=
  ⟨machineCode compiled.instructions⟩

namespace Compilation

/-- Begins a function. -/
def start (parameters : List Kind) : Build Unit := do
  match Routine.start parameters (← get).options.tempSlots with
  | .ok routine => modify fun work => { work with routine := some routine }
  | .error cause => throw (.encoding cause)

/-- The function being generated, which is given up; if there is none, one without
parameters. -/
def takeRoutine : Build Routine := do
  let work ← get
  match work.routine with
  | some routine =>
    set { work with routine := none }
    return routine
  | none =>
    match Routine.start [] work.options.tempSlots with
    | .ok routine => return routine
    | .error cause => throw (.encoding cause)

/-- Ends the function being generated with its result. -/
def finish (result : Location) (kind : Kind) : Build Compiled := do
  match Routine.leave result kind (← takeRoutine) with
  | .error cause _ => throw (.encoding cause)
  | .ok _ routine =>
    let instructions := routine.code.toList
    Build.count fun statistics =>
      { statistics with
        instructionsEmitted := instructions.length
        codeSize := (machineCode instructions).length }
    return ⟨instructions, (← get).statistics⟩

end Compilation

/-- Compiles a root into a function of a signature. -/
def compile (tree : Tree) (signature : Signature) (root : NodeId) : Build Compiled := do
  let _ ← Build.lift (tree.node root)
  Build.lift (tree.checkParameters signature.parameters)
  modify Workspace.reset
  let _ ← Labeling.root tree root
  Compilation.start signature.parameters
  let hint := Convention.resultRegister signature.result.bank
  let result ← Generation.visit tree root (some hint)
  Build.release tree result
  Compilation.finish result.location signature.result

end NativeExpr
