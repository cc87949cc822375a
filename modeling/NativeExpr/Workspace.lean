import NativeExpr.Error
import NativeExpr.Options
import NativeExpr.Routine
import NativeExpr.Statistics
import NativeExpr.Tree.Description
import Std.Data.TreeMap

/-!
# The state of code generation

A workspace holds what labeling and code generation know about the nodes of a tree,
the register pool and the function being generated.
-/

namespace NativeExpr

/-- What is known while a tree is turned into code. -/
structure Workspace where
  options : Options
  /-- The registers that each labeled node needs. -/
  labels : Std.TreeMap NodeId Nat
  /-- Where the values of shared nodes are kept. -/
  caches : Std.TreeMap NodeId Storage
  pool : RegisterPool
  /-- The function being generated, if there is one. -/
  routine : Option Routine
  statistics : Statistics

namespace Workspace

/-- The state in which nothing is known. -/
def new (options : Options) : Workspace where
  options := options
  labels := ∅
  caches := ∅
  pool := .new options.allocatable
  routine := none
  statistics := .zero

/-- The instructions written for the function being generated. -/
def instructionCount (work : Workspace) : Nat :=
  match work.routine with
  | some routine => routine.code.size
  | none => 0

/-- Forgets all but the labels and the options. -/
def reset (work : Workspace) : Workspace :=
  { work with
    caches := ∅
    pool := work.pool.reset
    routine := none
    statistics := .zero }

/-- What is told about a node. -/
def describe (work : Workspace) (id : NodeId) (node : Node) : Description where
  id := id
  name := node.operation.name
  kind := node.kind
  parents := node.parents
  operands := node.operation.labeledOperands
  registerCount := work.labels[id]?
  cache := work.caches[id]?.map Storage.location

/-- The descriptions of all nodes of a tree. -/
def descriptions (work : Workspace) (tree : Tree) : List Description :=
  tree.nodes.toList.zipIdx.map fun (node, id) => work.describe id node

end Workspace

end NativeExpr
