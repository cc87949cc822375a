import NativeExpr.Kind
import NativeExpr.Text.Numeral

/-!
# Locations and storages

A location says where a value is while code runs: in a register, in a slot of the
frame, or in the instruction itself. A storage is a location together with the
kind of its value and the question who has to give the location back.
-/

namespace NativeExpr

/-- A signed distance in bytes, as memory operands hold it. -/
abbrev Offset := BitVec 32

/-- Where a value is. -/
inductive Location where
  | register (register : Register)
  /-- The eight bytes at a distance from the frame pointer. -/
  | slot (offset : Offset)
  | constant (bits : Word)
deriving DecidableEq

namespace Location

/-- The register of a location in a register. -/
def register? : Location → Option Register
  | .register reg => some reg
  | _ => none

/-- The text of a location, with constants written by the given function. -/
def render (constant : Word → String) : Location → String
  | .register reg => reg.name
  | .slot offset => "[rbp" ++ Text.signed offset.toInt ++ "]"
  | .constant bits => "imm " ++ constant bits

/-- The text of a location. -/
def text : Location → String := render fun bits => Text.hex bits.toNat

end Location

/-- A value's location as handed from one step of code generation to the next. -/
structure Storage where
  location : Location
  kind : Kind
  /-- Whether the location was handed over together with the value. -/
  owned : Bool
deriving DecidableEq

namespace Storage

/-- A storage whose holder has to give the location back. -/
def own (location : Location) (kind : Kind) : Storage := ⟨location, kind, true⟩

/-- A storage whose location somebody else gives back. -/
def borrow (location : Location) (kind : Kind) : Storage := ⟨location, kind, false⟩

/-- The register of a storage in a register. -/
def register? (storage : Storage) : Option Register := storage.location.register?

/-- Whether there is a location to give back: constants take up none. -/
def isOwned (storage : Storage) : Bool :=
  match storage.location with
  | .register _ | .slot _ => storage.owned
  | .constant _ => false

/-- The register of a storage that has one to give back. -/
def ownedRegister? (storage : Storage) : Option Register :=
  if storage.isOwned then storage.register? else none

/-- The same value, to be given back by somebody else. -/
def share (storage : Storage) : Storage := { storage with owned := false }

end Storage

end NativeExpr
