import NativeExpr.Convention
import NativeExpr.Instruction.Request

/-!
# Transfers of values

The requests that bring a value from its location into a register or into the
outgoing argument area, and those with which a function begins and ends. A
constant goes through the scratch register where no instruction takes it directly.
-/

namespace NativeExpr.Transfer

/-- Brings a value into a register. -/
def intoRegister (target : Register) : Location → List Request
  | .register source => [.move target source]
  | .slot offset => [.load target .rbp offset]
  | .constant bits =>
    match target.bank with
    | .generalPurpose => [.constant target bits]
    | .xmm =>
      let scratch := Convention.scratch .generalPurpose
      [.constant scratch bits, .move target scratch]

/-- Puts a value into the outgoing argument area. -/
def intoOutgoing (offset : Offset) (source : Location) : List Request :=
  let scratch := Convention.scratch .generalPurpose
  match source with
  | .register source => [.store .rsp offset source]
  | .slot slot => [.load scratch .rbp slot, .store .rsp offset scratch]
  | .constant bits => [.constant scratch bits, .store .rsp offset scratch]

/-- Sets up the frame pointer, saves registers and reserves the body of the frame. -/
def prologue (saved : List Register) (frameSize : BitVec 32) : List Request :=
  [.push .rbp, .move .rbp .rsp] ++ saved.map Request.push ++
    if frameSize = 0 then [] else [.arithConstant .sub .rsp frameSize]

/-- Gives up the frame, restores registers in the opposite order and returns. -/
def epilogue (saved : List Register) : List Request :=
  [.address .rsp .rbp (-(8 * BitVec.ofNat 32 saved.length))] ++
    saved.reverse.map Request.pop ++ [.pop .rbp, .ret]

end NativeExpr.Transfer
