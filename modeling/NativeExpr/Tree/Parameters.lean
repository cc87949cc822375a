import NativeExpr.Convention
import NativeExpr.Tree.Basic

/-!
# Parameters of the compiled function

Parameter nodes name parameters of the function that their tree is compiled into. When
the function has a signature the nodes are checked against it; otherwise its parameters
are inferred from the nodes.
-/

namespace NativeExpr.Tree

/-- Checks a node that may be a parameter against the parameters of a function. -/
def checkParameter (parameters : List Kind) (node : Node) : Except CompileError Unit :=
  match node.operation with
  | .parameter index =>
    if parameters[index]? = some node.kind then
      return ()
    else
      throw (.parameterMismatch index parameters[index]? node.kind)
  | _ => return ()

/-- Checks all parameter nodes of a tree against the parameters of a function. -/
def checkParameters (tree : Tree) (parameters : List Kind) : Except CompileError Unit :=
  tree.nodes.toList.forM (checkParameter parameters)

/-- Extends the parameters of a function so that it has one of a kind at an index;
parameters that nothing is known about are 64-bit integers. -/
def declare (parameters : List Kind) (index : Nat) (kind : Kind) : List Kind :=
  (parameters ++ List.replicate (index + 1 - parameters.length) Kind.i64).set index kind

/-- Takes a node into account that may be a parameter. -/
def inferParameter (parameters : List Kind) (node : Node) : Except CompileError (List Kind) :=
  match node.operation with
  | .parameter index =>
    if Convention.maxArity ≤ index then
      throw (.parameterMismatch index none node.kind)
    else
      return declare parameters index node.kind
  | _ => return parameters

/-- The parameters of a function in which the nodes of a tree can be evaluated. Where
nodes disagree the last one decides. -/
def inferParameters (tree : Tree) : Except CompileError (List Kind) :=
  tree.nodes.toList.foldlM inferParameter []

end NativeExpr.Tree
