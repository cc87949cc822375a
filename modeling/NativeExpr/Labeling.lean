import NativeExpr.Build

/-!
# Labeling

The label of a node is the number of registers that it takes to evaluate it without
a slot. A constant or a parameter needs one only as a left operand, where the result
of arithmetic will be; operands that need the same number need one more together; a
value that is kept for several uses needs at least one.
-/

namespace NativeExpr.Labeling

/-- The largest register count that is told apart. -/
def limit : Nat := UInt32.size - 1

/-- The registers for two values of which the one that needs more is computed first. -/
def combine (left right : Nat) : Nat :=
  if left = right then min (left + 1) limit else max left right

/-- Labels the node of a number, which is a left operand or not, and everything below. -/
abbrev Visit := NodeId → Bool → Build Nat

/-- Labels arguments after the first and adds them to the count so far. -/
def laterArguments (tree : Tree) (visit : Visit) (count : Nat) : List NodeId → Build Nat
  | [] => pure count
  | argument :: rest => do
    let _ ← visit argument false
    laterArguments tree visit (combine count (← Build.label tree argument)) rest

/-- Labels the arguments of a call and counts the registers for all of them. -/
def arguments (tree : Tree) (visit : Visit) : List NodeId → Build Nat
  | [] => pure 0
  | first :: rest => do
    let _ ← visit first true
    laterArguments tree visit (← Build.label tree first) rest

/-- Counts the registers of an operation, its operands being labeled first. -/
def operation (tree : Tree) (visit : Visit) (isLeft : Bool) : Operation → Build Nat
  | .constant _ | .parameter _ => pure (if isLeft then 1 else 0)
  | .arith _ left right => do
    let _ ← visit left true
    let _ ← visit right false
    return combine (← Build.label tree left) (← Build.label tree right)
  | .call function operands => do
    let count ← arguments tree visit operands
    let _ ← visit function false
    return count

/-- Labels a node, its operands being labeled by the given visit. -/
def node (tree : Tree) (visit : Visit) : Visit := fun id isLeft => do
  let node ← Build.lift (tree.node id)
  let count ← operation tree visit isLeft node.operation
  let count := if node.isShared then max count 1 else count
  modify fun work => { work with labels := work.labels.insert id count }
  return count

/-- Labels nodes of at most the given depth. -/
def within (tree : Tree) : Nat → Visit
  | 0 => fun id _ => throw (.invalidNode id)
  | depth + 1 => node tree (within tree depth)

/-- Labels a node and everything below it. No node is deeper than the tree has nodes. -/
def subtree (tree : Tree) : Visit := within tree tree.size

/-- Labels everything that a root needs. -/
def root (tree : Tree) (id : NodeId) : Build Nat := subtree tree id true

end NativeExpr.Labeling
