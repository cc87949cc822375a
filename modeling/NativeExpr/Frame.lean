import NativeExpr.Convention

/-!
# Stack frames

Below the saved registers a frame has one home for each parameter and then a fixed
number of slots for values that find no register. Slots are handed out from the
one next to the homes downwards; one that was given back is handed out first.
Offsets and sizes are 32-bit quantities and wrap.
-/

namespace NativeExpr

/-- The body of one function's frame. -/
structure Frame where
  /-- The home of each parameter, as an offset from the frame pointer. -/
  homes : List Offset
  /-- The slots that may be handed out, the next one first. -/
  free : List Offset
  /-- The bytes below the saved registers. -/
  size : BitVec 32

namespace Frame

/-- The bytes that the saved registers take up below the frame pointer. -/
def savedArea : Offset := 8 * BitVec.ofNat 32 Convention.calleeSaved.length

/-- The offset of a position in the body, counted from the saved registers. -/
def cell (position : Nat) : Offset := -savedArea - 8 * (BitVec.ofNat 32 position + 1)

/-- The size of a body of that many cells: the stack pointer is a multiple of sixteen
below it when it is eight bytes off that above it. -/
def bodySize (cells : Nat) : BitVec 32 :=
  let body := 8 * BitVec.ofNat 32 cells
  if body % 16 = 8 then body else body + 8

/-- The frame of a function with that many parameters and temporary slots. -/
def new (parameters slots : Nat) : Frame where
  homes := (List.range parameters).map cell
  free := (List.range' parameters slots).map cell
  size := bodySize (parameters + slots)

/-- The home of a parameter. -/
def home? (frame : Frame) (index : Nat) : Option Offset := frame.homes[index]?

/-- Hands out a slot. -/
def allocate (frame : Frame) : Option Offset × Frame :=
  match frame.free with
  | [] => (none, frame)
  | offset :: rest => (some offset, { frame with free := rest })

/-- Takes a slot back. -/
def release (frame : Frame) (offset : Offset) : Frame :=
  { frame with free := offset :: frame.free }

end Frame

end NativeExpr
