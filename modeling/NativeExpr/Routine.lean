import NativeExpr.Frame
import NativeExpr.MoveSchedule

/-!
# The function being generated

A routine is the code written so far together with its frame, the places its
parameters arrive in and how far the stack pointer has been lowered below the
frame. That depth is what keeps the stack aligned at calls. A step that fails
leaves the routine with the instructions written before the fault.
-/

namespace NativeExpr

/-- A function under construction. -/
structure Routine where
  code : Code
  frame : Frame
  /-- Where each parameter arrives. -/
  parameters : List Place
  /-- The bytes by which the stack pointer is below the frame. -/
  pushed : BitVec 32

namespace Routine

/-- A step in writing a routine. -/
abbrev Step := EStateM EncodingError Routine

/-- A routine without code. -/
def new (parameters : List Kind) (slots : Nat) : Routine where
  code := #[]
  frame := .new parameters.length slots
  parameters := Convention.places parameters
  pushed := 0

/-- Writes what the requests ask for, up to the first fault. -/
def write (requests : List Request) : Step Unit := fun routine =>
  match Code.write requests routine.code with
  | .ok _ code => .ok () { routine with code := code }
  | .error fault code => .error fault { routine with code := code }

/-- Copies an incoming parameter into its home. Parameters passed on the stack lie
above the return address and the saved frame pointer. -/
def homeParameter (home : Offset) : Place → List Request
  | .register register => [.store .rbp home register]
  | .stack offset =>
    let scratch := Convention.scratch .generalPurpose
    [.load scratch .rbp (16 + offset), .store .rbp home scratch]

/-- Writes the prologue and copies every parameter into its home. -/
def enter : Step Unit := do
  let routine ← get
  write (Transfer.prologue Convention.calleeSaved routine.frame.size ++
    (routine.frame.homes.zip routine.parameters).flatMap fun (home, place) =>
      homeParameter home place)

/-- Puts the result where a caller expects it and writes the epilogue. -/
def leave (result : Location) (kind : Kind) : Step Unit :=
  write (Transfer.intoRegister (Convention.resultRegister kind.bank) result ++
    Transfer.epilogue Convention.calleeSaved)

/-- The home of a parameter. -/
def home? (index : Nat) : Step (Option Offset) := return (← get).frame.home? index

/-- Hands out a slot of the frame. -/
def allocateSlot : Step (Option Offset) := modifyGet fun routine =>
  let (slot, frame) := routine.frame.allocate
  (slot, { routine with frame := frame })

/-- Takes a slot of the frame back. -/
def releaseSlot (offset : Offset) : Step Unit :=
  modify fun routine => { routine with frame := routine.frame.release offset }

/-- Stores a register in a slot. -/
def spill (register : Register) (offset : Offset) : Step Unit :=
  write [.store .rbp offset register]

/-- Records that the stack pointer was lowered. -/
def deepen (bytes : BitVec 32) : Step Unit :=
  modify fun routine => { routine with pushed := routine.pushed + bytes }

/-- Records that the stack pointer was raised. -/
def lift (bytes : BitVec 32) : Step Unit :=
  modify fun routine => { routine with pushed := routine.pushed - bytes }

/-- Saves a register on the stack. -/
def save (register : Register) : Step Unit := do
  write <|
    match register.bank with
    | .generalPurpose => [.push register]
    | .xmm => [.arithConstant .sub .rsp 8, .store .rsp 0 register]
  deepen 8

/-- Takes a register from the stack. -/
def restore (register : Register) : Step Unit := do
  write <|
    match register.bank with
    | .generalPurpose => [.pop register]
    | .xmm => [.load register .rsp 0, .arithConstant .add .rsp 8]
  lift 8

/-- The bytes that align the stack pointer after an outgoing area of a given size. -/
def callPadding (routine : Routine) (outgoing : BitVec 32) : BitVec 32 :=
  (routine.pushed + outgoing) % 16

/-- Reserves an outgoing area. -/
def reserve (bytes : BitVec 32) : Step Unit := do
  if bytes ≠ 0 then
    write [.arithConstant .sub .rsp bytes]
    deepen bytes

/-- Gives up an outgoing area. -/
def giveUp (bytes : BitVec 32) : Step Unit := do
  if bytes ≠ 0 then
    write [.arithConstant .add .rsp bytes]
    lift bytes

/-- A routine of which the prologue is written. -/
def start (parameters : List Kind) (slots : Nat) : Except EncodingError Routine :=
  match enter (new parameters slots) with
  | .ok _ routine => .ok routine
  | .error fault _ => .error fault

end Routine

end NativeExpr
