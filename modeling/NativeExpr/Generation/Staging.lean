import NativeExpr.Generation.Placement

/-!
# Calls

A call is staged: every argument gets its place by the convention, the arguments are
evaluated in the order of their labels, the most demanding first, and then all are
moved to their places at once. Registers that a callee may overwrite are saved around
the call: those that are live before the first argument is evaluated, and those that
shared values have taken up in the meantime.
-/

namespace NativeExpr

/-- Evaluates a node, preferably into a given register. -/
abbrev Visit := NodeId → Option Register → Build Storage

/-- One argument of a call that is being staged. -/
structure Staged where
  node : NodeId
  kind : Kind
  place : Place
deriving DecidableEq

/-- The arguments of a call. -/
structure Stage where
  assigner : Assigner
  arguments : List Staged

namespace Stage

/-- A call without arguments. -/
def new : Stage := ⟨.new, []⟩

/-- Adds an argument. -/
def add (tree : Tree) (stage : Stage) (id : NodeId) : Except CompileError Stage := do
  let node ← tree.node id
  let (place, assigner) := stage.assigner.assign node.kind
  return ⟨assigner, stage.arguments ++ [⟨id, node.kind, place⟩]⟩

/-- The stage of a list of arguments. -/
def ofArguments (tree : Tree) (arguments : List NodeId) : Except CompileError Stage :=
  arguments.foldlM (add tree) new

/-- The size of the outgoing area. -/
def stackSize (stage : Stage) : BitVec 32 := BitVec.ofNat 32 stage.assigner.stackSize

/-- An argument with its position in the call and its label. -/
structure Demand where
  position : Nat
  label : Nat
  argument : Staged

/-- Puts an argument in front of the first one that does not need more registers. -/
def insertDemand (demand : Demand) : List Demand → List Demand
  | [] => [demand]
  | next :: rest =>
    if next.label ≤ demand.label then demand :: next :: rest
    else next :: insertDemand demand rest

/-- Orders arguments by their labels, the largest first, and leaves arguments with
equal labels in the order of their positions. -/
def heaviestFirst : List Demand → List Demand
  | [] => []
  | demand :: rest => insertDemand demand (heaviestFirst rest)

/-- The arguments with their labels. -/
def demands (tree : Tree) : Nat → List Staged → Build (List Demand)
  | _, [] => pure []
  | position, argument :: rest => do
    let label ← Build.label tree argument.node
    return ⟨position, label, argument⟩ :: (← demands tree (position + 1) rest)

/-- Evaluates arguments in the given order, each with its own register as a hint, and
makes room for the next one where registers are short. -/
def evaluateInOrder (tree : Tree) (visit : Visit) : List Demand → Build (List (Nat × Storage))
  | [] => pure []
  | demand :: rest => do
    let value ← visit demand.argument.node demand.argument.place.register?
    let value ←
      match rest with
      | [] => pure value
      | next :: _ => Build.parkUnderPressure tree value next.label next.argument.kind.bank
    return (demand.position, value) :: (← evaluateInOrder tree visit rest)

/-- Evaluates the arguments and gives their values in the order of their positions. -/
def evaluate (tree : Tree) (visit : Visit) (stage : Stage) : Build (List Storage) := do
  let demands ← demands tree 0 stage.arguments
  let values ← evaluateInOrder tree visit (heaviestFirst demands)
  return (List.range stage.arguments.length).filterMap fun position => values.lookup position

/-- Saves registers in the given order. -/
def save (tree : Tree) : List Register → Build Unit
  | [] => pure ()
  | register :: rest => do
    Build.onRoutine tree (Routine.save register)
    save tree rest

/-- Restores registers in the given order. -/
def restore (tree : Tree) : List Register → Build Unit
  | [] => pure ()
  | register :: rest => do
    Build.onRoutine tree (Routine.restore register)
    restore tree rest

/-- Gives back the locations of values in the given order. -/
def releaseAll (tree : Tree) : List Storage → Build Unit
  | [] => pure ()
  | storage :: rest => do
    Build.release tree storage
    releaseAll tree rest

/-- The live registers that a callee may overwrite. -/
def liveCallerSaved : Build RegisterSet :=
  return (← get).pool.live.inter Convention.callerSaved

/-- Moves the arguments to their places and calls the function. The outgoing area is
there only for the time of the call. -/
def callThrough (tree : Tree) (stage : Stage) (moves : List Move) : Build Unit :=
  Build.onRoutine tree do
    let outgoing := stage.stackSize + (← get).callPadding stage.stackSize
    Routine.reserve outgoing
    Routine.write (MoveSchedule.ofMoves moves).requests
    Routine.write [.call Convention.callTarget]
    Routine.giveUp outgoing

/-- Copies the result of a call out of the register that it is returned in: into the
hinted register if that is free, otherwise into the return register itself, any
other register of its bank, or a slot. -/
def capture (tree : Tree) (call : NodeId) (kind : Kind) (hint : Option Register) :
    Build Storage := do
  let returned := Convention.resultRegister kind.bank
  let pool := (← get).pool
  let preferred := (hint.filter pool.isFree).getD returned
  match ← Build.tryRegister kind.bank (some call) (some preferred) with
  | some register =>
    Build.fetch tree register (.register returned)
    return .own (.register register) kind
  | none =>
    match ← Build.onRoutine tree Routine.allocateSlot with
    | some offset =>
      Build.onRoutine tree (Routine.spill returned offset)
      return .own (.slot offset) kind
    | none => throw (.exhausted kind.bank "capturing a call result")

/-- Generates a call of the function that a node points to. -/
def emitCall (tree : Tree) (visit : Visit) (stage : Stage) (function call : NodeId)
    (kind : Kind) (hint : Option Register) : Build Storage := do
  let early := (← liveCallerSaved).toList
  save tree early
  let values ← stage.evaluate tree visit
  let target ← visit function (some Convention.callTarget)
  let moves :=
    (stage.arguments.zip values).map (fun (argument, value) =>
      (⟨argument.place, value.location⟩ : Move)) ++
      [⟨.register Convention.callTarget, target.location⟩]
  releaseAll tree (values ++ [target])
  let late := ((← liveCallerSaved).diff (.ofList early)).toList
  save tree late
  stage.callThrough tree moves
  let result ← capture tree call kind hint
  restore tree (early ++ late).reverse
  Build.count fun statistics =>
    { statistics with
      callsEmitted := statistics.callsEmitted + 1
      registersSaved := statistics.registersSaved + (early ++ late).length }
  return result

end Stage

end NativeExpr
