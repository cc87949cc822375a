import NativeExpr.RegisterSet

/-!
# The register pool

The pool hands out registers and takes them back. A register is handed out to at
most one holder at a time and together with the node whose value it is to hold;
nothing is ever evicted, so a pool that has run dry refuses. The pool also counts
what it has handed out since it was last reset.
-/

namespace NativeExpr

/-- The position of a node in the tree that holds it. -/
abbrev NodeId := Nat

/-- Why the pool refuses a request. -/
inductive RegisterError where
  | noneAvailable (bank : Bank)
  | notAllocated (register : Register)
  | inUse (register : Register)
  | notAllocatable (register : Register)
deriving DecidableEq

/-- The message of a refusal. -/
def RegisterError.text : RegisterError → String
  | .noneAvailable bank => "no " ++ bank.text ++ " registers available"
  | .notAllocated register => "register " ++ register.name ++ " is not allocated"
  | .inUse register => "register " ++ register.name ++ " is already allocated"
  | .notAllocatable register => "register " ++ register.name ++ " is not allocatable"

/-- The registers that may be handed out and those that are. -/
structure RegisterPool where
  /-- The registers that may be handed out. -/
  allocatable : RegisterSet
  /-- The registers that are handed out. -/
  live : RegisterSet
  /-- The owner recorded for each register, by its index. -/
  owners : Vector (Option NodeId) 32
  /-- The most registers that were live at once, per bank. -/
  peaks : PerBank Nat
  /-- The registers handed out so far, those taken back included. -/
  allocations : Nat

namespace RegisterPool

/-- A pool of which nothing is handed out. -/
def new (allocatable : RegisterSet) : RegisterPool where
  allocatable := allocatable
  live := .empty
  owners := Vector.replicate 32 none
  peaks := .both 0
  allocations := 0

/-- Whether a register is handed out. -/
def isLive (pool : RegisterPool) (register : Register) : Bool := pool.live.contains register

/-- Whether a register may be handed out now. -/
def isFree (pool : RegisterPool) (register : Register) : Bool :=
  pool.allocatable.contains register && !pool.live.contains register

/-- The registers of one bank that may be handed out now. -/
def freeIn (pool : RegisterPool) (bank : Bank) : RegisterSet :=
  (pool.allocatable.inter (.allIn bank)).diff pool.live

/-- How many registers of one bank may be handed out now. -/
def freeCount (pool : RegisterPool) (bank : Bank) : Nat := (pool.freeIn bank).countIn bank

/-- The recorded owner of a register. The outer option is empty for a number so
large that it runs past the end of both banks. -/
def owner? (pool : RegisterPool) (register : Register) : Option (Option NodeId) :=
  pool.owners[register.index]?

/-- Records a register as live. -/
def assign (pool : RegisterPool) (register : Register) (owner : Option NodeId) : RegisterPool :=
  let live := pool.live.insert register
  let peak := max (pool.peaks.get register.bank) (live.countIn register.bank)
  { pool with
    live := live
    owners := pool.owners.setIfInBounds register.index owner
    peaks := pool.peaks.set register.bank peak
    allocations := pool.allocations + 1 }

/-- The register to hand out next: the hint if it belongs to the bank, is free and
is not excluded, otherwise the lowest-numbered free register of the bank that is
not excluded. -/
def choose? (pool : RegisterPool) (bank : Bank) (hint : Option Register)
    (excluded : RegisterSet) : Option Register :=
  let accepts (register : Register) : Bool :=
    register.bank == bank && pool.isFree register && !excluded.contains register
  match hint.filter accepts with
  | some register => some register
  | none => ((pool.freeIn bank).diff excluded).lowestIn? bank

/-- Hands out a register of a bank. -/
def allocate (pool : RegisterPool) (bank : Bank) (owner : Option NodeId)
    (hint : Option Register) (excluded : RegisterSet) :
    Except RegisterError (Register × RegisterPool) :=
  match pool.choose? bank hint excluded with
  | some register => .ok (register, pool.assign register owner)
  | none => .error (.noneAvailable bank)

/-- Hands out one particular register. -/
def allocateExactly (pool : RegisterPool) (register : Register) (owner : Option NodeId) :
    Except RegisterError RegisterPool :=
  if !pool.allocatable.contains register then
    .error (.notAllocatable register)
  else if pool.live.contains register then
    .error (.inUse register)
  else
    .ok (pool.assign register owner)

/-- Takes a register back. -/
def release (pool : RegisterPool) (register : Register) : Except RegisterError RegisterPool :=
  if pool.live.contains register then
    .ok { pool with
      live := pool.live.erase register
      owners := pool.owners.setIfInBounds register.index none }
  else
    .error (.notAllocated register)

/-- Changes the owner of a live register. -/
def transfer (pool : RegisterPool) (register : Register) (owner : Option NodeId) :
    Except RegisterError RegisterPool :=
  if pool.live.contains register then
    .ok { pool with owners := pool.owners.setIfInBounds register.index owner }
  else
    .error (.notAllocated register)

/-- Takes every register back and forgets the counts. -/
def reset (pool : RegisterPool) : RegisterPool := new pool.allocatable

end RegisterPool

end NativeExpr
