import NativeExpr.Register

/-!
# Kinds of native values

Every value is 64 bits wide while it is computed with; its kind says which of
those bits matter, how a narrower constant is widened and which bank holds it.
-/

namespace NativeExpr

/-- The content of a register. -/
abbrev Word := BitVec 64

/-- The kind of a native value. -/
inductive Kind where
  | i32
  | u32
  | i64
  | u64
  | f32
  | f64
  | ptr
deriving DecidableEq

namespace Kind

/-- How messages name a kind. -/
def text : Kind → String
  | .i32 => "i32"
  | .u32 => "u32"
  | .i64 => "i64"
  | .u64 => "u64"
  | .f32 => "f32"
  | .f64 => "f64"
  | .ptr => "ptr"

/-- The bank that holds values of a kind. -/
def bank : Kind → Bank
  | .f32 | .f64 => .xmm
  | _ => .generalPurpose

/-- The bits that a value of a kind has of its own. -/
def width : Kind → Nat
  | .i32 | .u32 | .f32 => 32
  | _ => 64

/-- Whether the top bit of a value is its sign. -/
def isSigned : Kind → Bool
  | .i32 | .i64 => true
  | _ => false

/-- The register content of a constant: signed values repeat their sign, all
others are filled up with zeros. -/
def extend (kind : Kind) (value : BitVec kind.width) : Word :=
  if kind.isSigned then value.signExtend 64 else value.setWidth 64

end Kind

/-- The types of the host language that have a kind. -/
inductive NativeType where
  | of (kind : Kind)
  | signedSize
  | unsignedSize
  | mutablePointer
deriving DecidableEq

/-- The kind of a host type. Sizes are as wide as pointers. -/
def NativeType.kind : NativeType → Kind
  | .of kind => kind
  | .signedSize => .i64
  | .unsignedSize => .u64
  | .mutablePointer => .ptr

/-- The kinds that a native function takes and returns. -/
structure Signature where
  parameters : List Kind
  result : Kind
deriving DecidableEq

/-- A native function as a value: its address, used under a signature. -/
structure NativeFunction where
  signature : Signature
  address : Word
deriving DecidableEq

namespace NativeFunction

/-- Functions are passed around as pointers. -/
def kind (_ : NativeFunction) : Kind := .ptr

/-- The register content of a function value is its address. -/
def bits (function : NativeFunction) : Word := function.address

end NativeFunction

end NativeExpr
