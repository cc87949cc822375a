import NativeExpr.Compilation
import NativeExpr.Demo.Arguments
import NativeExpr.Machine

/-!
# The demonstration

Adds two numbers by a call of a native function, or adds the sum to itself by a second
call that uses the first one's node twice; compiles the tree, runs the code and prints
what it returns.
-/

namespace NativeExpr.Demo

/-- What a command prints and the status that it ends with. -/
structure Report where
  status : Nat
  output : String
  errors : String
deriving DecidableEq

/-- The address of the native addition. -/
def addition : Word := 0x7F0000001000

/-- The signature of the native addition. -/
def additionSignature : Signature := ⟨[.i64, .i64], .i64⟩

/-- The native addition, the only function there is. -/
def natives : Natives := fun address machine =>
  if address = addition then machine.setGpr 0 (machine.gpr 7 + machine.gpr 6) else machine

/-- Appends a call of the addition to a tree. -/
def appendSum (tree : Tree) (function left right : NodeId) :
    Except CompileError (NodeId × Tree) :=
  tree.call function additionSignature [⟨left, .i64⟩, ⟨right, .i64⟩]

/-- The tree of the demonstration and its root. -/
def tree (arguments : Arguments) : Except CompileError (NodeId × Tree) := do
  let (function, tree) := Tree.empty.constant .ptr addition
  let (left, tree) := tree.constant .i64 arguments.left
  let (right, tree) := tree.constant .i64 arguments.right
  let (sum, tree) ← appendSum tree function left right
  if arguments.shared then
    appendSum tree function sum sum
  else
    return (sum, tree)

/-- A machine about to enter the function, with an aligned stack and nothing in the
registers. -/
def machine : Machine where
  gpr := fun register => if register = Machine.stackPointer then 0x7FFF00000008 else 0
  xmm := fun _ => 0
  memory := fun _ => 0

/-- The number that code returns. -/
def resultOf (instructions : List Instruction) : Word :=
  match machine.run natives instructions with
  | some machine => machine.gpr 0
  | none => 0

/-- The text of a constant. The address of the addition is not the same in every
process, so a listing does not show its value. -/
def constantText (bits : Word) : String :=
  if bits = addition then "ADDRESS" else Text.hex bits.toNat

/-- The listing of a compiled tree. -/
def listing (tree : Tree) (work : Workspace) (compiled : Compiled) : String :=
  let nodes := (work.descriptions tree).map fun description =>
    "  " ++ description.render (Location.render constantText) ++ "\n"
  "nodes:\n" ++ String.join nodes ++ compiled.statistics.text ++ "\n" ++
    "code: " ++ toString compiled.executable.size ++ " bytes\n"

/-- The name of a bank in error reports. -/
def bankName : Bank → String
  | .generalPurpose => "GeneralPurpose"
  | .xmm => "Xmm"

/-- The report of a failed compilation. -/
def failure (error : CompileError) : Report :=
  let cause :=
    match error with
    | .exhausted bank activity =>
      "RegisterExhaustion \x7b bank: " ++ bankName bank ++ ", context: " ++
        Text.quoted activity ++ " \x7d"
    | other => other.text
  ⟨1, "", "Error: " ++ cause ++ "\n"⟩

/-- Compiles and runs the tree of the demonstration. -/
def compute (arguments : Arguments) (options : Options) : Report :=
  match tree arguments with
  | .error error => failure error
  | .ok (root, tree) =>
    match compile tree ⟨[], .i64⟩ root (.new options) with
    | .error error _ => failure error
    | .ok compiled work =>
      let number := toString (resultOf compiled.instructions).toInt ++ "\n"
      ⟨0, if arguments.dump then number ++ listing tree work compiled else number, ""⟩

/-- The line that names the program. -/
def versionText : String := "exprjit 0.1.0\n"

/-- How the program is called. -/
def usageText : String := "Usage: exprjit [OPTIONS]\n"

/-- What the program does and which options it has. -/
def helpText : String :=
  "Compile and run a call expression tree\n\n" ++ usageText ++
    "\nOptions:\n" ++
    "      --left <LEFT>    First argument of the call [default: 5]\n" ++
    "      --right <RIGHT>  Second argument of the call [default: 7]\n" ++
    "      --shared         Feed the call's result to a second call twice, as a shared node\n" ++
    "      --dump           Print every node and the compilation statistics\n" ++
    "  -h, --help           Print help\n" ++
    "  -V, --version        Print version\n"

/-- Runs the demonstration with a command line and an environment. -/
def run (arguments : List String) (environment : String → Option String) : Report :=
  match read .empty arguments with
  | .compute arguments => compute arguments (Options.ofEnvironment environment).1
  | .version => ⟨0, versionText, ""⟩
  | .help => ⟨0, helpText, ""⟩
  | .misuse => ⟨2, "", "error: invalid arguments\n\n" ++ usageText⟩

end NativeExpr.Demo
