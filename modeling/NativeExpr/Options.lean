import NativeExpr.Convention
import NativeExpr.Text.Number
import NativeExpr.Text.Quoted

/-!
# Options

How many registers of each bank a compilation may use and how many slots its frame
has for values that find no register. Register counts are limited to the registers
that the convention leaves for values. Environment variables override the defaults;
one that holds no count is ignored with a warning.
-/

namespace NativeExpr

/-- The resources of a compilation. -/
structure Options where
  gpRegisters : Nat
  xmmRegisters : Nat
  tempSlots : Nat
deriving DecidableEq

/-- A resource that can be set. -/
inductive Resource where
  | gpRegisters
  | xmmRegisters
  | tempSlots
deriving DecidableEq

/-- The resources in the order in which the environment is read. -/
def Resource.all : List Resource := [.gpRegisters, .xmmRegisters, .tempSlots]

/-- The environment variable that sets a resource. -/
def Resource.environmentName : Resource → String
  | .gpRegisters => "EXPRJIT_GP_REGISTERS"
  | .xmmRegisters => "EXPRJIT_XMM_REGISTERS"
  | .tempSlots => "EXPRJIT_TEMP_SLOTS"

namespace Options

/-- Every register that the convention leaves for values, and sixteen slots. -/
def default : Options where
  gpRegisters := Convention.allocationOrder.generalPurpose.length
  xmmRegisters := Convention.allocationOrder.xmm.length
  tempSlots := 16

/-- Sets a resource; a register count is cut down to the registers that there are. -/
def set (options : Options) (resource : Resource) (count : Nat) : Options :=
  match resource with
  | .gpRegisters =>
    { options with gpRegisters := min count Convention.allocationOrder.generalPurpose.length }
  | .xmmRegisters =>
    { options with xmmRegisters := min count Convention.allocationOrder.xmm.length }
  | .tempSlots => { options with tempSlots := count }

/-- The registers that a compilation may use. -/
def allocatable (options : Options) : RegisterSet :=
  .ofList (Convention.allocationOrder.generalPurpose.take options.gpRegisters ++
    Convention.allocationOrder.xmm.take options.xmmRegisters)

/-- The warning about a variable that holds no count. -/
def warning (resource : Resource) (value : String) : String :=
  "ignoring " ++ resource.environmentName ++ "=" ++ Text.quoted value ++ ": not a count"

/-- Applies one variable of the environment. -/
def override (value? : String → Option String) (state : Options × List String)
    (resource : Resource) : Options × List String :=
  let (options, warnings) := state
  match value? resource.environmentName with
  | none => state
  | some value =>
    match Text.count? value with
    | some count => (options.set resource count, warnings)
    | none => (options, warnings ++ [warning resource value])

/-- The options that an environment asks for, and the warnings about it. -/
def ofEnvironment (value? : String → Option String) : Options × List String :=
  Resource.all.foldl (override value?) (default, [])

end Options

end NativeExpr
