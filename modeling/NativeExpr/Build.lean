import NativeExpr.Tree.Parameters
import NativeExpr.Workspace

/-!
# Steps of code generation

A step changes the workspace and yields a value or fails. A step that fails leaves the
workspace as it was when the failure arose.
-/

namespace NativeExpr

/-- A step of labeling or code generation. -/
abbrev Build := EStateM CompileError Workspace

namespace Build

/-- A result that does not depend on the workspace. -/
def lift {α : Type} : Except CompileError α → Build α
  | .ok value => pure value
  | .error error => throw error

/-- Adds to the statistics. -/
def count (change : Statistics → Statistics) : Build Unit :=
  modify fun work => { work with statistics := change work.statistics }

/-- The label of a node that has one. -/
def label (tree : Tree) (id : NodeId) : Build Nat := do
  let _ ← lift (tree.node id)
  match (← get).labels[id]? with
  | some count => pure count
  | none => throw (.unlabeled id)

/-- Changes the register pool, or fails for the reason that it gives. -/
def withPool {α : Type} (change : RegisterPool → Except RegisterError (α × RegisterPool)) :
    Build α := do
  match change (← get).pool with
  | .ok (value, pool) =>
    modify fun work => { work with pool := pool }
    pure value
  | .error cause => throw (.registers cause)

/-- Gives a register back to the pool. -/
def freeRegister (register : Register) : Build Unit :=
  withPool fun pool => (pool.release register).map fun pool => ((), pool)

/-- A register of a bank if one is free. -/
def tryRegister (bank : Bank) (owner : Option NodeId) (hint : Option Register) :
    Build (Option Register) := do
  match (← get).pool.allocate bank owner hint .empty with
  | .ok (register, pool) =>
    modify fun work => { work with pool := pool }
    pure (some register)
  | .error _ => pure none

/-- The function being generated; if there is none, one is begun with the parameters
that the tree mentions. -/
def routine (tree : Tree) : Build Routine := do
  match (← get).routine with
  | some routine => pure routine
  | none =>
    let parameters ← lift tree.inferParameters
    match Routine.start parameters (← get).options.tempSlots with
    | .ok routine =>
      modify fun work => { work with routine := some routine }
      pure routine
    | .error cause => throw (.encoding cause)

/-- Takes a step in the function being generated. -/
def onRoutine {α : Type} (tree : Tree) (step : Routine.Step α) : Build α := do
  match step (← routine tree) with
  | .ok value routine =>
    modify fun work => { work with routine := some routine }
    pure value
  | .error cause routine =>
    modify fun work => { work with routine := some routine }
    throw (.encoding cause)

end Build

end NativeExpr
