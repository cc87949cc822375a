import NativeExpr.Tree.Basic

/-!
# The values of nodes

What a node stands for, without registers and without code: constants are themselves,
parameters are the arguments of the function, arithmetic wraps, and a call is what the
native function returns. Of a value only the bits of its kind count.
-/

namespace NativeExpr

/-- The bits of a word that belong to a kind, the others being zero. -/
def Kind.narrow (kind : Kind) (word : Word) : Word := (word.setWidth kind.width).setWidth 64

/-- Whether two words are the same value of a kind. -/
def Kind.Agree (kind : Kind) (left right : Word) : Prop := kind.narrow left = kind.narrow right

/-- What the native function at an address returns, called under a signature with
arguments of which only the bits of their kinds are given. -/
abbrev NativeValues := Word → Signature → List Word → Word

namespace Tree

/-- The kind of a node; that of a missing node does not matter. -/
def kindOf (tree : Tree) (id : NodeId) : Kind :=
  match tree.node? id with
  | some node => node.kind
  | none => .i64

/-- The signature under which a call node calls its function. -/
def callSignature (tree : Tree) (arguments : List NodeId) (result : Kind) : Signature :=
  ⟨arguments.map tree.kindOf, result⟩

/-- The value of a node's operation, its operands having the given values. -/
def operationValue (tree : Tree) (natives : NativeValues) (arguments : List Word)
    (value : NodeId → Word) (node : Node) : Word :=
  match node.operation with
  | .constant bits => bits
  | .parameter index => arguments.getD index 0
  | .arith operation left right => operation.apply (value left) (value right)
  | .call function operands =>
    natives (value function) (tree.callSignature operands node.kind)
      (operands.map fun operand => (tree.kindOf operand).narrow (value operand))

/-- The values of nodes of at most the given depth. -/
def valueWithin (tree : Tree) (natives : NativeValues) (arguments : List Word) :
    Nat → NodeId → Word
  | 0, _ => 0
  | depth + 1, id =>
    match tree.node? id with
    | some node =>
      tree.operationValue natives arguments (tree.valueWithin natives arguments depth) node
    | none => 0

/-- The value of a node. No node is deeper than the tree has nodes. -/
def value (tree : Tree) (natives : NativeValues) (arguments : List Word) (id : NodeId) : Word :=
  tree.valueWithin natives arguments tree.size id

end Tree

end NativeExpr
