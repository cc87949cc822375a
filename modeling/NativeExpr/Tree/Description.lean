import NativeExpr.Convention
import NativeExpr.Tree.Basic

/-!
# Descriptions of nodes

One line of text per node: its number, kind, parents and operands, and what is known
about it from labeling and code generation.
-/

namespace NativeExpr

/-- What is told about a node. -/
structure Description where
  id : NodeId
  name : String
  kind : Kind
  parents : Nat
  /-- The operands with the names of their positions. -/
  operands : List (String × NodeId)
  /-- The registers that the node needs, once it is labeled. -/
  registerCount : Option Nat
  /-- Where the node's value is kept, once it is. -/
  cache : Option Location
deriving DecidableEq

namespace Description

/-- The line of a description, with locations written by the given function. -/
def render (location : Location → String) (description : Description) : String :=
  description.name ++ " id=" ++ toString description.id ++ " (" ++ description.kind.text ++
    "), parents = " ++ toString description.parents ++
    String.join (description.operands.map fun (label, operand) =>
      ", " ++ label ++ " = " ++ toString operand) ++
    (match description.registerCount with
      | some count => ", register count = " ++ toString count
      | none => ", unlabeled") ++
    match description.cache with
    | some cache => ", cached in " ++ location cache
    | none => ", not cached"

/-- The line of a description. -/
def text : Description → String := render Location.text

end Description

namespace Operation

/-- What descriptions call a node with this operation. -/
def name : Operation → String
  | .constant _ => "ImmediateNode"
  | .parameter _ => "ParameterNode"
  | .arith .add _ _ => "AddNode"
  | .arith .sub _ _ => "SubNode"
  | .arith .mul _ _ => "MulNode"
  | .call _ _ => "CallNode"

/-- The name of an argument's position. Only the first eight are numbered. -/
def argumentLabel (position : Nat) : String :=
  if position < Convention.maxArity then "arg" ++ toString position else "arg"

/-- The operands with the names of their positions. -/
def labeledOperands : Operation → List (String × NodeId)
  | .constant _ | .parameter _ => []
  | .arith _ left right => [("left", left), ("right", right)]
  | .call function arguments =>
    ("function", function) :: arguments.zipIdx.map fun (argument, position) =>
      (argumentLabel position, argument)

end Operation

end NativeExpr
