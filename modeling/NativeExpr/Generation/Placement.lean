import NativeExpr.Build

/-!
# Placement of values

Finding registers and slots for values, moving values between them and giving them
back. A value that finds no register goes to a slot where a slot will do; when
neither is left the placement fails and says what it was for.
-/

namespace NativeExpr.Build

/-- Brings a value into a register. -/
def fetch (tree : Tree) (target : Register) (source : Location) : Build Unit :=
  onRoutine tree (Routine.write (Transfer.intoRegister target source))

/-- Gives back the register or slot of an owned value. -/
def release (tree : Tree) (storage : Storage) : Build Unit := do
  if storage.isOwned then
    match storage.location with
    | .register register => freeRegister register
    | .slot offset => onRoutine tree (Routine.releaseSlot offset)
    | .constant _ => pure ()

/-- A register or a slot for a value. -/
def temporary (tree : Tree) (kind : Kind) (activity : String) : Build Storage := do
  match ← tryRegister kind.bank none none with
  | some register => return .own (.register register) kind
  | none =>
    match ← onRoutine tree Routine.allocateSlot with
    | some offset => return .own (.slot offset) kind
    | none => throw (.exhausted kind.bank activity)

/-- A register or a slot that the host asks for. -/
def allocateTemporary (tree : Tree) (kind : Kind) : Build Storage :=
  temporary tree kind "allocating a temporary"

/-- One particular register that the host asks for. -/
def allocateRegister (kind : Kind) (register : Register) : Build Storage := do
  if register.bank ≠ kind.bank then
    throw (.registers (.notAllocatable register))
  withPool fun pool => (pool.allocateExactly register none).map fun pool => ((), pool)
  return .own (.register register) kind

/-- Moves a value into one particular register and gives its old location back. -/
def moveToRegister (tree : Tree) (storage : Storage) (register : Register) : Build Storage := do
  if storage.ownedRegister? = some register then
    return storage
  let target ← allocateRegister storage.kind register
  fetch tree register storage.location
  release tree storage
  return target

/-- Brings a value into a register that may be overwritten. -/
def materialize (tree : Tree) (storage : Storage) (owner : NodeId) (hint : Option Register)
    (activity : String) : Build Register := do
  match storage.ownedRegister? with
  | some register =>
    withPool fun pool => (pool.transfer register (some owner)).map fun pool => (register, pool)
  | none =>
    match ← tryRegister storage.kind.bank (some owner) hint with
    | none => throw (.exhausted storage.kind.bank activity)
    | some register =>
      fetch tree register storage.location
      release tree storage
      return register

/-- Moves a value from a register that is to be given back into a slot. The value
stays where it is if it has no such register or no slot is left. -/
def park (tree : Tree) (storage : Storage) : Build Storage := do
  match storage.ownedRegister? with
  | none => return storage
  | some register =>
    match ← onRoutine tree Routine.allocateSlot with
    | none => return storage
    | some offset =>
      onRoutine tree (Routine.spill register offset)
      freeRegister register
      count fun statistics => { statistics with valuesParked := statistics.valuesParked + 1 }
      return .own (.slot offset) storage.kind

/-- Parks a value if what is evaluated next needs more registers of the value's bank
than are free. -/
def parkUnderPressure (tree : Tree) (storage : Storage) (needed : Nat) (bank : Bank) :
    Build Storage := do
  match storage.register? with
  | none => return storage
  | some register =>
    if register.bank = bank ∧ (← get).pool.freeCount bank < needed then
      park tree storage
    else
      return storage

end NativeExpr.Build
