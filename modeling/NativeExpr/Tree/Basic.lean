import NativeExpr.Error
import NativeExpr.Instruction.Basic

/-!
# Expression trees

A tree is a list of nodes in the order of their construction; a node names its
operands by their positions, so one node may be the operand of several others. The
constructors check that operands exist and have the right kinds, and count for each
node the operand positions that name it.
-/

namespace NativeExpr

/-- What a node computes. -/
inductive Operation where
  | constant (bits : Word)
  | parameter (index : Nat)
  | arith (operation : Arithmetic) (left right : NodeId)
  /-- Calls the function that one node points to with the values of others. -/
  | call (function : NodeId) (arguments : List NodeId)
deriving DecidableEq

/-- The operands of an operation, in the order of their positions. -/
def Operation.operands : Operation → List NodeId
  | .constant _ | .parameter _ => []
  | .arith _ left right => [left, right]
  | .call function arguments => function :: arguments

/-- One node of a tree. -/
structure Node where
  kind : Kind
  operation : Operation
  /-- The number of operand positions that name the node. It is no larger than that of all operand
  positions of the tree, so 32 bits hold it as long as there are fewer than 2 ^ 32 of them. -/
  parents : Nat
deriving DecidableEq

/-- Whether a node's value is used more than once. -/
def Node.isShared (node : Node) : Bool := 1 < node.parents

/-- A node as the host refers to it: a position and the kind it is claimed to have. -/
structure Handle where
  id : NodeId
  kind : Kind
deriving DecidableEq

/-- The text of a handle. -/
def Handle.text (handle : Handle) : String := "NodeRef(" ++ toString handle.id ++ ")"

/-- The nodes of an expression, operands before the nodes that use them. -/
structure Tree where
  nodes : Array Node

namespace Tree

/-- The tree without nodes. -/
def empty : Tree := ⟨#[]⟩

/-- The number of nodes. -/
def size (tree : Tree) : Nat := tree.nodes.size

/-- The node at a position. -/
def node? (tree : Tree) (id : NodeId) : Option Node := tree.nodes[id]?

/-- The node at a position, or the error that there is none. -/
def node (tree : Tree) (id : NodeId) : Except CompileError Node :=
  match tree.node? id with
  | some node => .ok node
  | none => .error (.invalidNode id)

/-- Adds one to the parent count of a node. A count of 32 bits does not run over before there are
2 ^ 32 operand positions. -/
def addParent (nodes : Array Node) (id : NodeId) : Array Node :=
  nodes.modify id fun node => { node with parents := node.parents + 1 }

/-- Appends a node and counts it as a parent at each of its operand positions. -/
def append (tree : Tree) (kind : Kind) (operation : Operation) : NodeId × Tree :=
  (tree.size, ⟨(operation.operands.foldl addParent tree.nodes).push ⟨kind, operation, 0⟩⟩)

/-- Accepts a handle of a node that exists and has the claimed kind. -/
def check (tree : Tree) (handle : Handle) : Except CompileError Unit := do
  let node ← tree.node handle.id
  if node.kind ≠ handle.kind then
    throw (.invalidNode handle.id)

/-- Appends a constant. -/
def constant (tree : Tree) (kind : Kind) (bits : Word) : NodeId × Tree :=
  tree.append kind (.constant bits)

/-- Appends a parameter of the function that the tree is compiled into. -/
def parameter (tree : Tree) (kind : Kind) (index : Nat) : NodeId × Tree :=
  tree.append kind (.parameter index)

/-- Appends arithmetic on two nodes of one kind. -/
def arith (tree : Tree) (operation : Arithmetic) (kind : Kind) (left right : NodeId) :
    Except CompileError (NodeId × Tree) := do
  tree.check ⟨left, kind⟩
  tree.check ⟨right, kind⟩
  return tree.append kind (.arith operation left right)

/-- Checks arguments against the kinds that a signature declares for them. -/
def checkArguments (tree : Tree) : Nat → List Handle → List Kind → Except CompileError Unit
  | position, argument :: arguments, expected :: kinds => do
    tree.check argument
    if argument.kind ≠ expected then
      throw (.argumentMismatch position expected argument.kind)
    tree.checkArguments (position + 1) arguments kinds
  | _, _, _ => return ()

/-- Appends a call of the function that a node points to. -/
def call (tree : Tree) (function : NodeId) (signature : Signature) (arguments : List Handle) :
    Except CompileError (NodeId × Tree) := do
  tree.check ⟨function, .ptr⟩
  if signature.parameters.length ≠ arguments.length then
    throw (.arityMismatch signature.parameters.length arguments.length)
  tree.checkArguments 0 arguments signature.parameters
  return tree.append signature.result (.call function (arguments.map Handle.id))

end Tree

end NativeExpr
