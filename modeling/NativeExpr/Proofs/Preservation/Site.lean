import Mathlib.Data.List.Forall2
import NativeExpr.Proofs.Frame
import NativeExpr.Proofs.Generation.Basic
import NativeExpr.Proofs.Machine.Stack
import NativeExpr.Proofs.MoveSchedule.Simultaneous

/-!
# Sites of code generation

A site is a point in the generation of a function: the workspace, and the locations that are
settled, that is, whose values are kept until the function is finished. What has been written
so far leads from an origin to a state of the machine, and `Run.Consistent` says that the
workspace and this state agree.

`Run.Carries` relates two sites: what was taken at the first one still has its value at the
second one, and the second one holds the values that are claimed. It also says what the code
in between writes, and which nodes call their functions there.
-/

namespace NativeExpr

/-- A point in the generation of a function. -/
structure Site where
  work : Workspace
  routine : Routine
  /-- The locations whose values are kept until the function is finished. -/
  settled : Location → Prop

/-- Whether a location is in use: a live register or a slot that is not free. -/
def Site.Taken (site : Site) : Location → Prop
  | .register register => site.work.pool.live.contains register
  | .slot offset => site.routine.frame.Covers offset ∧ offset ∉ site.routine.frame.free
  | .constant _ => True

/-- Whether a call node calls in a state: its function and its arguments are in their places. -/
def Tree.Called (tree : Tree) (means : NodeId → Word → Prop) (machine : Machine) (call : NodeId) :
    Prop :=
  ∃ node function arguments, tree.node? call = some node ∧
    node.operation = .call function arguments ∧
    means function (machine.get Convention.callTarget) ∧
    ∀ argument place,
      (argument, place) ∈ arguments.zip (Convention.places (arguments.map tree.kindOf)) →
        means argument (machine.argument place)

/-- A run of code that is generated for a tree. -/
structure Run where
  tree : Tree
  natives : Natives
  /-- The state in which the part of the code begins that is looked at. -/
  origin : Machine
  /-- The number of instructions before that part. -/
  written : Nat
  /-- The words that a node may stand for. -/
  means : NodeId → Word → Prop
  /-- How far below the frame the code may write. -/
  limit : Nat
  bounded : limit ≤ 2 ^ 63

namespace Run

/-- Whether code does not return, writes only below the saved registers and calls the functions
of the given nodes, in this order. -/
structure Emits (run : Run) (machine : Machine) (instructions : List Instruction)
    (called : List NodeId) : Prop where
  straight : Instruction.ret ∉ instructions
  writes : machine.Writes run.natives
    (fun place => 64 ≤ machine.below place ∧ machine.below place ≤ run.limit) instructions
  calls : List.Forall₂ (run.tree.Called run.means) (machine.calls run.natives instructions) called

/-- The states in which functions are called. -/
def Calling (run : Run) : Machine → Prop := Machine.Within (run.origin.get .rbp) run.limit

/-- The state that the code of a routine leads to. -/
def state (run : Run) (routine : Routine) : Machine :=
  run.origin.after run.natives (routine.code.toList.drop run.written)

/-- Whether a storage is a place for the value of a node and holds it. -/
structure Right (run : Run) (site : Site) (id : NodeId) (storage : Storage) : Prop where
  kind : storage.kind = run.tree.kindOf id
  taken : site.Taken storage.location
  bank : ∀ register, storage.location = .register register → register.bank = storage.kind.bank
  means : run.means id ((run.state site.routine).value storage.location)

/-- Whether a workspace and the state of the machine agree. -/
structure Consistent (run : Run) (site : Site) : Prop where
  begun : site.work.routine = some site.routine
  base : (run.state site.routine).get .rbp = run.origin.get .rbp
  written : run.written ≤ site.routine.code.size
  pool : site.work.pool.Sound
  frame : site.routine.frame.Sound
  below : 56 + site.routine.frame.size.toNat ≤ (run.state site.routine).depth
  room : 56 + site.routine.frame.size.toNat ≤ run.limit
  /-- Constants and homes are settled. -/
  constants : ∀ bits, site.settled (.constant bits)
  homes : ∀ home ∈ site.routine.frame.homes, site.settled (.slot home)
  taken : ∀ location, site.settled location → site.Taken location
  kept : ∀ id storage, site.work.caches[id]? = some storage →
    site.settled storage.location ∧ run.Right site id storage
  parameters : ∀ index home id node, site.routine.frame.homes[index]? = some home →
    run.tree.node? id = some node → node.operation = .parameter index →
      run.means id ((run.state site.routine).value (.slot home))

/-- Whether a later state has what was taken at a site: the frame pointer, the live registers and
the bytes of the frame, those of the free slots apart. -/
structure Keeps (run : Run) (before : Site) (later : Machine) : Prop where
  base : later.get .rbp = (run.state before.routine).get .rbp
  registers : ∀ register, before.work.pool.live.contains register →
    later.get register = (run.state before.routine).get register
  memory : ∀ place, 0 < (run.state before.routine).below place →
    (run.state before.routine).below place ≤ (run.state before.routine).depth →
    (∀ slot ∈ before.routine.frame.free,
      8 ≤ (place - (run.state before.routine).slot slot).toNat) →
    later.memory place = (run.state before.routine).memory place

/-- Whether what is taken at one site keeps its value up to another one, which holds the values
that are claimed, the given nodes being called in between. An owned claim is a location that
was not taken before and is nobody else's; any other claim is settled. -/
structure Carries (run : Run) (before : Site) (called : List NodeId)
    (claims : List (NodeId × Storage)) (after : Site) :
    Prop extends run.Keeps before (run.state after.routine) where
  consistent : run.Consistent after
  code : ∃ instructions,
    after.routine.code.toList = before.routine.code.toList ++ instructions ∧
      run.state after.routine = (run.state before.routine).after run.natives instructions ∧
      run.Emits (run.state before.routine) instructions called
  allocatable : after.work.pool.allocatable = before.work.pool.allocatable
  homes : after.routine.frame.homes = before.routine.frame.homes
  size : after.routine.frame.size = before.routine.frame.size
  taken : ∀ location, before.Taken location → after.Taken location
  settled : ∀ location, before.settled location → after.settled location
  fresh : ∀ location, after.settled location → before.settled location ∨ ¬before.Taken location
  right : ∀ claim ∈ claims, run.Right after claim.1 claim.2
  owned : ∀ claim ∈ claims, claim.2.isOwned = true →
    ¬before.Taken claim.2.location ∧ ¬after.settled claim.2.location
  shared : ∀ claim ∈ claims, claim.2.isOwned = false → after.settled claim.2.location
  distinct : ((claims.filter fun claim => claim.2.isOwned).map fun claim =>
    claim.2.location).Nodup

/-- Whether one site carries over to another one with the stack as deep as before. -/
structure Generates (run : Run) (before : Site) (called : List NodeId)
    (claims : List (NodeId × Storage)) (after : Site) :
    Prop extends run.Carries before called claims after where
  stack : (run.state after.routine).get .rsp = (run.state before.routine).get .rsp

end Run

end NativeExpr
