import NativeExpr.Instruction.Request
import NativeExpr.RegisterPool

/-!
# Errors of compilation

Why a tree cannot be built, labeled or turned into code, and the message for each
cause.
-/

namespace NativeExpr

/-- Why an operation on a tree fails. -/
inductive CompileError where
  /-- Neither a register of the bank nor a slot is left for a value. -/
  | exhausted (bank : Bank) (activity : String)
  /-- Code is asked for before the node has a label. -/
  | unlabeled (node : NodeId)
  | argumentMismatch (position : Nat) (expected found : Kind)
  | arityMismatch (expected found : Nat)
  /-- A parameter node disagrees with the parameters of the function, which may lack
  one at that index. -/
  | parameterMismatch (index : Nat) (expected : Option Kind) (found : Kind)
  /-- No node of the tree has that number and the kind that the handle claims. -/
  | invalidNode (node : NodeId)
  | registers (cause : RegisterError)
  | encoding (cause : EncodingError)
deriving DecidableEq

namespace CompileError

/-- The message of an error. -/
def text : CompileError → String
  | .exhausted bank activity =>
    "register exhaustion: no " ++ bank.text ++ " register or stack slot left while " ++ activity
  | .unlabeled node =>
    "node " ++ toString node ++ " reached code generation before it was labeled"
  | .argumentMismatch position expected found =>
    "argument " ++ toString position ++ " of call node has kind " ++ found.text ++
      ", expected " ++ expected.text
  | .arityMismatch expected found =>
    "call expects " ++ toString expected ++ " arguments, got " ++ toString found
  | .parameterMismatch index expected found =>
    "parameter " ++ toString index ++ " is declared as " ++ found.text ++
      " but the function signature " ++
      match expected with
      | some kind => "declares " ++ kind.text
      | none => "has no such parameter"
  | .invalidNode node => "node " ++ toString node ++ " does not belong to this expression tree"
  | .registers cause => "register file error: " ++ cause.text
  | .encoding cause => "instruction encoding failed: " ++ cause.text

/-- Whether more registers or slots could have helped. -/
def isExhaustion : CompileError → Bool
  | .exhausted .. => true
  | _ => false

end CompileError

end NativeExpr
