import Mathlib.Logic.Function.Basic
import NativeExpr.Options
import NativeExpr.Proofs.Generation.Order
import NativeExpr.Proofs.Routine
import NativeExpr.Statistics

/-!
# The ledger of code generation

Whether there is room for a value depends on how many registers and slots are taken, and not on
which ones. A ledger keeps those numbers, along with the nodes whose values are kept, and the steps
here are those of code generation as far as a ledger shows them: no code is written, no register
has a name, and hints do not matter.
-/

namespace NativeExpr

/-- What has to be given back when a value is no longer needed. -/
inductive Holding where
  | nothing
  | register (bank : Bank)
  | slot
deriving DecidableEq

/-- The registers of a bank that are held. -/
def Holding.registers (bank : Bank) : Holding → Nat
  | .register own => if own = bank then 1 else 0
  | _ => 0

/-- The slots that are held. -/
def Holding.slots : Holding → Nat
  | .slot => 1
  | _ => 0

/-- Neither a register of the bank nor a slot was left for a value. -/
structure Shortage where
  bank : Bank
  activity : String

/-- The numbers that code generation goes by. -/
@[ext]
structure Ledger where
  /-- The registers of each bank that may be handed out. -/
  limit : Bank → Nat
  /-- Those of them that are not handed out. -/
  free : Bank → Nat
  /-- The most registers that were handed out at once. -/
  peak : Bank → Nat
  /-- The slots that are not handed out. -/
  slots : Nat
  /-- The nodes whose values are kept. -/
  kept : NodeId → Bool
  statistics : Statistics

namespace Ledger

/-- A step of code generation as a ledger shows it. -/
abbrev Step := EStateM Shortage Ledger

/-- What a node takes up once it has been generated. -/
abbrev Visit := NodeId → Step Holding

/-- The ledger of a compilation that begins. -/
def opening (options : Options) : Ledger where
  limit := options.allocatable.countIn
  free := options.allocatable.countIn
  peak _ := 0
  slots := options.tempSlots
  kept _ := false
  statistics := .zero

/-- One register less is free. -/
def withdraw (ledger : Ledger) (bank : Bank) : Ledger :=
  let left := ledger.free bank - 1
  { ledger with
    free := Function.update ledger.free bank left
    peak := Function.update ledger.peak bank
      (max (ledger.peak bank) (ledger.limit bank - left)) }

/-- What was held is free again. -/
def refund (ledger : Ledger) : Holding → Ledger
  | .nothing => ledger
  | .register bank =>
    { ledger with free := Function.update ledger.free bank (ledger.free bank + 1) }
  | .slot => { ledger with slots := ledger.slots + 1 }

/-! What is given back changes what is free and nothing else. -/

section

variable (ledger : Ledger) (holding : Holding)

@[simp] theorem free_refund (bank : Bank) :
    (ledger.refund holding).free bank = ledger.free bank + holding.registers bank := by
  cases holding with
  | nothing | slot => rfl
  | register own =>
    by_cases here : own = bank
    · simp [refund, Holding.registers, here]
    · simp [refund, Holding.registers, here, Function.update_of_ne (Ne.symm here)]

@[simp] theorem slots_refund : (ledger.refund holding).slots = ledger.slots + holding.slots := by
  cases holding <;> rfl

@[simp] theorem limit_refund : (ledger.refund holding).limit = ledger.limit := by cases holding <;> rfl

@[simp] theorem peak_refund : (ledger.refund holding).peak = ledger.peak := by cases holding <;> rfl

@[simp] theorem kept_refund : (ledger.refund holding).kept = ledger.kept := by cases holding <;> rfl

@[simp] theorem statistics_refund : (ledger.refund holding).statistics = ledger.statistics := by
  cases holding <;> rfl

end

@[simp] theorem slots_withdraw (ledger : Ledger) (bank : Bank) :
    (ledger.withdraw bank).slots = ledger.slots := rfl

theorem free_withdraw {ledger : Ledger} {bank : Bank} (free : 0 < ledger.free bank) (other : Bank) :
    (ledger.withdraw bank).free other + (Holding.register bank).registers other =
      ledger.free other := by
  by_cases here : bank = other
  · subst here
    simpa [withdraw, Holding.registers] using Nat.sub_add_cancel free
  · simp [withdraw, Holding.registers, here, Function.update_of_ne (Ne.symm here)]

/-- Takes a register of a bank, if one is free. -/
def takeRegister (bank : Bank) : Step Bool := fun ledger =>
  if ledger.free bank = 0 then .ok false ledger else .ok true (ledger.withdraw bank)

/-- Takes a slot, if one is free. -/
def takeSlot : Step Bool := fun ledger =>
  if ledger.slots = 0 then .ok false ledger
  else .ok true { ledger with slots := ledger.slots - 1 }

/-- Gives back what was held. -/
def giveBack (holding : Holding) : Step Unit := modify fun ledger => ledger.refund holding

/-- Gives back what several values held. -/
def giveBackAll (holdings : List Holding) : Step Unit :=
  modify fun ledger => holdings.foldl refund ledger

/-- It does not matter which of two values is given back first. -/
theorem refund_comm (ledger : Ledger) (first second : Holding) :
    (ledger.refund first).refund second = (ledger.refund second).refund first := by
  cases first with
  | nothing => rfl
  | slot => cases second <;> rfl
  | register bank =>
    cases second with
    | nothing | slot => rfl
    | register other =>
      by_cases same : other = bank
      · rw [same]
      · simp only [refund, Function.update_of_ne same, Function.update_of_ne (Ne.symm same)]
        rw [Function.update_comm same]

theorem giveBackAll_perm {holdings others : List Holding} (same : holdings.Perm others) :
    giveBackAll holdings = giveBackAll others := by
  have given (ledger : Ledger) : holdings.foldl refund ledger = others.foldl refund ledger :=
    same.foldl_eq' (fun first _ second _ ledger => refund_comm ledger first second) ledger
  simp only [giveBackAll, given]

theorem slots_foldl_refund (ledger : Ledger) (holdings : List Holding) :
    (holdings.foldl refund ledger).slots = ledger.slots + (holdings.map Holding.slots).sum := by
  induction holdings generalizing ledger with
  | nil => rfl
  | cons holding rest ih =>
    rw [List.foldl_cons, ih, slots_refund, List.map_cons, List.sum_cons, Nat.add_assoc]

/-- Adds to the statistics. -/
def count (change : Statistics → Statistics) : Step Unit :=
  modify fun ledger => { ledger with statistics := change ledger.statistics }

/-- Brings a value into a register, and tells its bank. -/
def materialize (holding : Holding) (bank : Bank) (activity : String) : Step Bank := do
  match holding with
  | .register own => return own
  | _ =>
    if ← takeRegister bank then
      giveBack holding
      return bank
    else
      throw ⟨bank, activity⟩

/-- A value that has no register takes one. -/
theorem materialize_eq {holding : Holding} (unregistered : ∀ own, holding ≠ .register own)
    (bank : Bank) (activity : String) : materialize holding bank activity = (do
      if ← takeRegister bank then
        giveBack holding
        return bank
      else
        throw ⟨bank, activity⟩) := by
  cases holding with
  | register own => exact absurd rfl (unregistered own)
  | nothing | slot => rfl

theorem takeRegister_ok {ledger : Ledger} {bank : Bank} (free : 0 < ledger.free bank) :
    takeRegister bank ledger = .ok true (ledger.withdraw bank) :=
  if_neg (Nat.ne_of_gt free)

theorem materialize_ok {ledger : Ledger} {holding : Holding} {bank : Bank}
    (unregistered : ∀ own, holding ≠ .register own) (free : 0 < ledger.free bank)
    (activity : String) : materialize holding bank activity ledger =
      .ok bank ((ledger.withdraw bank).refund holding) := by
  rw [materialize_eq unregistered, estate_bind_of_ok (takeRegister_ok free)]
  rfl

/-- A register is there for a value that is brought into one. -/
theorem of_materialize {ledger after : Ledger} {holding : Holding} {bank own : Bank}
    {activity : String} (unregistered : ∀ own, holding ≠ .register own)
    (done : materialize holding bank activity ledger = .ok own after) :
    0 < ledger.free bank ∧ own = bank ∧ after = (ledger.withdraw bank).refund holding := by
  by_cases none : ledger.free bank = 0
  · have refused : takeRegister bank ledger = .ok false ledger := if_pos none
    rw [materialize_eq unregistered, estate_bind_of_ok refused] at done
    cases done
  · have free := Nat.pos_of_ne_zero none
    rw [materialize_ok unregistered free] at done
    cases done
    exact ⟨free, rfl, rfl⟩

/-- Moves a value from a register to a slot, if there is one. -/
def park (holding : Holding) : Step Holding := do
  match holding with
  | .register bank =>
    if ← takeSlot then
      giveBack (.register bank)
      count fun statistics => { statistics with valuesParked := statistics.valuesParked + 1 }
      return .slot
    else
      return holding
  | _ => return holding

/-- Parks a value if what is evaluated next needs more registers of its bank than are free. -/
def parkUnderPressure (holding : Holding) (needed : Nat) (bank : Bank) : Step Holding := do
  match holding with
  | .register own => if own = bank ∧ (← get).free bank < needed then park holding else return holding
  | _ => return holding

/-- The ledger after a value has been moved from a register to a slot. -/
def parked (ledger : Ledger) (own : Bank) : Ledger :=
  let parking := { ledger with slots := ledger.slots - 1 }.refund (.register own)
  { parking with statistics :=
      { parking.statistics with valuesParked := parking.statistics.valuesParked + 1 } }

@[simp] theorem free_parked (ledger : Ledger) (own bank : Bank) :
    (ledger.parked own).free bank = ledger.free bank + (Holding.register own).registers bank :=
  free_refund { ledger with slots := ledger.slots - 1 } (.register own) bank

@[simp] theorem slots_parked (ledger : Ledger) (own : Bank) :
    (ledger.parked own).slots = ledger.slots - 1 := rfl

/-- A value is parked if it has a register of the bank that is needed and there is a slot. -/
theorem parkUnderPressure_register (ledger : Ledger) (own bank : Bank) (needed : Nat) :
    parkUnderPressure (.register own) needed bank ledger =
      if (own = bank ∧ ledger.free bank < needed) ∧ 0 < ledger.slots then
        .ok .slot (ledger.parked own)
      else .ok (.register own) ledger := by
  change (if own = bank ∧ ledger.free bank < needed then park (.register own)
    else pure (.register own)) ledger = _
  by_cases pressed : own = bank ∧ ledger.free bank < needed
  · rw [if_pos pressed]
    by_cases none : ledger.slots = 0
    · have refused : takeSlot ledger = .ok false ledger := if_pos none
      rw [if_neg (fun slots => absurd none (Nat.ne_of_gt slots.2)), park,
        estate_bind_of_ok refused]
      rfl
    · have taken : takeSlot ledger = .ok true { ledger with slots := ledger.slots - 1 } :=
        if_neg none
      rw [if_pos ⟨pressed, Nat.pos_of_ne_zero none⟩, park, estate_bind_of_ok taken]
      rfl
  · rw [if_neg pressed, if_neg fun slots => pressed slots.1]
    rfl

variable (tree : Tree) (labels : NodeId → Nat) (visit : Visit)

/-- Evaluates two operands, the one with the larger label first. -/
def operands (left right : NodeId) : Step (Holding × Holding) := do
  if labels left < labels right then
    let second ← visit right
    let second ← parkUnderPressure second (labels left) .generalPurpose
    let first ← visit left
    return (first, second)
  else
    let first ← visit left
    let first ← parkUnderPressure first (labels right) .generalPurpose
    let second ← visit right
    return (first, second)

/-- Generates arithmetic in a bank. -/
def arith (bank : Bank) (left right : NodeId) : Step Holding := do
  let (first, second) ← operands labels visit left right
  let own ← materialize first bank "evaluating an arithmetic operand"
  giveBack second
  return .register own

/-- Evaluates arguments in the given order. -/
def evaluate : List NodeId → Step (List Holding)
  | [] => pure []
  | argument :: rest => do
    let value ← visit argument
    let value ←
      match rest with
      | [] => pure value
      | next :: _ => parkUnderPressure value (labels next) (tree.kindOf next).bank
    return value :: (← evaluate rest)

/-- Makes room for the result of a call. -/
def capture (bank : Bank) : Step Holding := do
  if ← takeRegister bank then
    return .register bank
  else if ← takeSlot then
    return .slot
  else
    throw ⟨bank, "capturing a call result"⟩

/-- A result takes a register, or a slot if no register is free. -/
theorem capture_eq (bank : Bank) (ledger : Ledger) : capture bank ledger =
    if 0 < ledger.free bank then .ok (.register bank) (ledger.withdraw bank)
    else if 0 < ledger.slots then .ok .slot { ledger with slots := ledger.slots - 1 }
    else .error ⟨bank, "capturing a call result"⟩ ledger := by
  by_cases free : 0 < ledger.free bank
  · rw [if_pos free, capture, estate_bind_of_ok (takeRegister_ok free)]
    rfl
  · have refused : takeRegister bank ledger = .ok false ledger :=
      if_pos (Nat.eq_zero_of_not_pos free)
    rw [if_neg free, capture, estate_bind_of_ok refused]
    by_cases left : 0 < ledger.slots
    · have taken : takeSlot ledger = .ok true { ledger with slots := ledger.slots - 1 } :=
        if_neg (Nat.ne_of_gt left)
      rw [if_pos left]
      exact (estate_bind_of_ok taken).trans rfl
    · have refused : takeSlot ledger = .ok false ledger := if_pos (Nat.eq_zero_of_not_pos left)
      rw [if_neg left]
      exact (estate_bind_of_ok refused).trans rfl

/-- Generates a call with a result in a bank. -/
def call (bank : Bank) (function : NodeId) (arguments : List NodeId) : Step Holding := do
  let values ← evaluate tree labels visit (Generation.heaviestFirst labels arguments)
  let target ← visit function
  giveBackAll (values ++ [target])
  let result ← capture bank
  count fun statistics => { statistics with callsEmitted := statistics.callsEmitted + 1 }
  return result

/-- Generates the operation of a node. -/
def operation (bank : Bank) : Operation → Step Holding
  | .constant _ | .parameter _ => return .nothing
  | .arith _ left right => arith labels visit bank left right
  | .call function arguments => call tree labels visit bank function arguments

/-- Counts a node that has been generated. The value of a shared node is kept, and whoever asked for
it holds nothing. -/
def conclude (node : Node) (id : NodeId) (holding : Holding) : Step Holding := do
  count fun statistics => { statistics with nodesCompiled := statistics.nodesCompiled + 1 }
  if node.isShared then
    modify fun ledger => { ledger with kept := Function.update ledger.kept id true }
    return .nothing
  else
    return holding

/-- The ledger after one more node has been generated. -/
def counted (ledger : Ledger) : Ledger :=
  { ledger with statistics :=
      { ledger.statistics with nodesCompiled := ledger.statistics.nodesCompiled + 1 } }

theorem conclude_shared {node : Node} (shared : node.isShared = true) (id : NodeId)
    (holding : Holding) (ledger : Ledger) : conclude node id holding ledger =
      .ok .nothing { ledger.counted with kept := Function.update ledger.kept id true } := by
  rw [conclude, shared]
  rfl

theorem conclude_single {node : Node} (single : node.isShared = false) (id : NodeId)
    (holding : Holding) (ledger : Ledger) :
    conclude node id holding ledger = .ok holding ledger.counted := by
  rw [conclude, single]
  rfl

/-- Generates a node, its operands being evaluated by the given visit. -/
def node : Visit := fun id => do
  match tree.node? id with
  | none => return .nothing
  | some node =>
    if (← get).kept id then
      count fun statistics => { statistics with cacheHits := statistics.cacheHits + 1 }
      return .nothing
    else
      conclude node id (← operation tree labels visit node.kind.bank node.operation)

/-- Generates nodes of at most the given depth. -/
def within : Nat → Visit
  | 0 => fun _ => return .nothing
  | depth + 1 => node tree labels (within depth)

variable {tree labels visit} {found : Node} {id : NodeId} {ledger : Ledger}

/-- Nothing is handed out for a value that is kept. -/
theorem node_of_kept (here : tree.node? id = some found) (kept : ledger.kept id = true) :
    node tree labels visit id ledger = (do
      count fun statistics => { statistics with cacheHits := statistics.cacheHits + 1 }
      return .nothing : Step Holding) ledger := by
  simp only [node, here]
  change (if ledger.kept id then _ else _ : Step Holding) ledger = _
  rw [kept]
  rfl

theorem node_of_fresh (here : tree.node? id = some found) (fresh : ledger.kept id = false) :
    node tree labels visit id ledger =
      (operation tree labels visit found.kind.bank found.operation >>= conclude found id)
        ledger := by
  simp only [node, here]
  change (if ledger.kept id then _ else _ : Step Holding) ledger = _
  rw [fresh]
  rfl

end Ledger

end NativeExpr
