import NativeExpr.Generation.Staging

/-!
# Code generation

A node is turned into code after it has been labeled. Of two operands the one that
needs more registers is evaluated first, and its value is moved to a slot if what is
left of the registers is too little for the other one. The value of a shared node is
kept until the compilation ends, and every further use refers to it.
-/

namespace NativeExpr.Generation

/-- Whether a constant can be the operand of an arithmetic instruction. -/
def fitsOperand (bits : Word) : Bool := -0x80000000 ≤ bits.toInt && bits.toInt < 0x80000000

/-- Combines a register with a value. -/
def applyOperand (operation : Arithmetic) (target : Register) : Location → List Request
  | .constant bits =>
    if fitsOperand bits then
      [.arithConstant operation target (bits.setWidth 32)]
    else
      let scratch := Convention.scratch .generalPurpose
      [.constant scratch bits, .arith operation target scratch]
  | .slot offset => [.arithMemory operation target .rbp offset]
  | .register register => [.arith operation target register]

/-- Evaluates two operands, the one with the larger label first. -/
def operands (tree : Tree) (visit : Visit) (left right : NodeId) (hint : Option Register) :
    Build (Storage × Storage) := do
  let leftLabel ← Build.label tree left
  let rightLabel ← Build.label tree right
  if leftLabel < rightLabel then
    let second ← visit right none
    let second ← Build.parkUnderPressure tree second leftLabel .generalPurpose
    let first ← visit left hint
    return (first, second)
  else
    let first ← visit left hint
    let first ← Build.parkUnderPressure tree first rightLabel .generalPurpose
    let second ← visit right none
    return (first, second)

/-- Generates arithmetic. The result replaces the left operand. -/
def arith (tree : Tree) (visit : Visit) (id : NodeId) (kind : Kind) (operation : Arithmetic)
    (left right : NodeId) (hint : Option Register) : Build Storage := do
  let (first, second) ← operands tree visit left right hint
  let target ← Build.materialize tree first id hint "evaluating an arithmetic operand"
  Build.onRoutine tree (Routine.write (applyOperand operation target second.location))
  Build.release tree second
  return .own (.register target) kind

/-- Refers to the home of a parameter. -/
def parameter (tree : Tree) (index : Nat) (kind : Kind) : Build Storage := do
  match ← Build.onRoutine tree (Routine.home? index) with
  | some home => return .borrow (.slot home) kind
  | none => throw (.parameterMismatch index none kind)

/-- Generates the operation of a node. -/
def operation (tree : Tree) (visit : Visit) (id : NodeId) (kind : Kind)
    (hint : Option Register) : Operation → Build Storage
  | .constant bits => return .own (.constant bits) kind
  | .parameter index => parameter tree index kind
  | .arith operation left right => arith tree visit id kind operation left right hint
  | .call function arguments => do
    let stage ← Build.lift (Stage.ofArguments tree arguments)
    stage.emitCall tree visit function id kind hint

/-- Generates a node, its operands being evaluated by the given visit. -/
def node (tree : Tree) (visit : Visit) : Visit := fun id hint => do
  let node ← Build.lift (tree.node id)
  let _ ← Build.label tree id
  match (← get).caches[id]? with
  | some cached =>
    Build.count fun statistics => { statistics with cacheHits := statistics.cacheHits + 1 }
    return cached.share
  | none =>
    let storage ← operation tree visit id node.kind hint node.operation
    Build.count fun statistics =>
      { statistics with nodesCompiled := statistics.nodesCompiled + 1 }
    if node.isShared then
      modify fun work => { work with caches := work.caches.insert id storage }
      return storage.share
    else
      return storage

/-- Generates nodes of at most the given depth. -/
def within (tree : Tree) : Nat → Visit
  | 0 => fun id _ => throw (.invalidNode id)
  | depth + 1 => node tree (within tree depth)

/-- Generates a node and what it needs. No node is deeper than the tree has nodes. -/
def visit (tree : Tree) : Visit := within tree tree.size

/-- Generates a node without a preference for a register. -/
def value (tree : Tree) (id : NodeId) : Build Storage := visit tree id none

end NativeExpr.Generation
