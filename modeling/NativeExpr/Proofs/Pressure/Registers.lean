import NativeExpr.Proofs.Ledger.Basic
import NativeExpr.Proofs.Pressure.Labels

/-!
# The registers that plain arithmetic takes

With as many registers free as its label says, plain arithmetic parks nothing, and the most
registers it takes at once are exactly as many if nothing is used twice. With fewer of them and no
slots it fails. Both follow the order of evaluation: while the second operand is evaluated,
arithmetic that was evaluated first has one register, and what is not arithmetic has none until it
is brought into the register of the result.
-/

namespace NativeExpr

namespace Tree

/-- What a plain node holds: arithmetic has a register, constants and parameters have none. -/
def holding (tree : Tree) (id : NodeId) : Holding :=
  if tree.isArith id then .register .generalPurpose else .nothing

variable {tree : Tree} {id : NodeId}

theorem holding_of_leaf (leaf : tree.isArith id = false) : tree.holding id = .nothing := by
  rw [holding, leaf]
  rfl

theorem holding_of_arith (arith : tree.isArith id = true) :
    tree.holding id = .register .generalPurpose := by
  rw [holding, arith]
  rfl

theorem registers_holding (tree : Tree) (id : NodeId) :
    (tree.holding id).registers .generalPurpose = (tree.isArith id).toNat := by
  rw [holding]
  cases tree.isArith id <;> rfl

theorem slots_holding (tree : Tree) (id : NodeId) : (tree.holding id).slots = 0 := by
  rw [holding]
  cases tree.isArith id <;> rfl

theorem bank_of_holding {bank : Bank} (same : tree.holding id = .register bank) :
    bank = .generalPurpose := by
  cases arith : tree.isArith id with
  | true => simpa [holding, arith, eq_comm] using same
  | false => simp [holding, arith] at same

end Tree

namespace Ledger

variable {tree : Tree} {labels : NodeId → Nat} {visit : Visit} {ledger between : Ledger}
variable {first second : Holding} {left right id : NodeId} {bank : Bank}

/-- The ledger after a value has been brought into a register. -/
def fetched (ledger : Ledger) (bank : Bank) (holding : Holding) : Ledger :=
  match holding with
  | .register _ => ledger
  | _ => (ledger.withdraw bank).refund holding

section

variable (ledger : Ledger) (bank : Bank) (holding : Holding)

@[simp] theorem limit_fetched : (ledger.fetched bank holding).limit = ledger.limit := by
  cases holding <;> rfl

@[simp] theorem kept_fetched : (ledger.fetched bank holding).kept = ledger.kept := by
  cases holding <;> rfl

@[simp] theorem statistics_fetched : (ledger.fetched bank holding).statistics = ledger.statistics := by
  cases holding <;> rfl

@[simp] theorem slots_fetched :
    (ledger.fetched bank holding).slots = ledger.slots + holding.slots := by
  cases holding <;> rfl

end

/-- One register of the bank has the value afterwards. -/
theorem free_fetched (own : ∀ other, first = .register other → other = bank)
    (room : 0 < ledger.free bank + first.registers bank) :
    (ledger.fetched bank first).free bank + 1 = ledger.free bank + first.registers bank := by
  cases first with
  | register other =>
    obtain rfl := own other rfl
    simp [fetched, Holding.registers]
  | nothing | slot =>
    have taken := free_withdraw room bank
    simp only [Holding.registers, if_true] at taken
    simpa [fetched, Holding.registers] using taken

theorem peak_fetched (own : ∀ other, first = .register other → other = bank)
    (room : 0 < ledger.free bank + first.registers bank)
    (counted : ledger.limit bank ≤ ledger.free bank + ledger.peak bank) :
    (ledger.fetched bank first).peak bank =
      max (ledger.peak bank) (ledger.limit bank + 1 - (ledger.free bank + first.registers bank)) := by
  cases first with
  | register other =>
    obtain rfl := own other rfl
    simp only [fetched, Holding.registers, if_true]
    omega
  | nothing | slot =>
    simp only [Holding.registers] at room
    simp only [fetched, peak_refund, withdraw, Function.update_self, Holding.registers]
    omega

/-- Arithmetic whose operands are found takes the register of its left operand, or one that is free,
and gives back what its right operand holds. -/
theorem arith_ok (done : operands labels visit left right ledger = .ok (first, second) between)
    (own : ∀ other, first = .register other → other = bank)
    (room : 0 < between.free bank + first.registers bank) :
    arith labels visit bank left right ledger =
      .ok (.register bank) ((between.fetched bank first).refund second) := by
  rw [arith, estate_bind_of_ok done]
  cases first with
  | register other =>
    obtain rfl := own other rfl
    rfl
  | nothing | slot =>
    refine (estate_bind_of_ok (materialize_ok (by nofun) room _)).trans ?_
    rfl

/-- Without a register for its left operand there is no arithmetic. -/
theorem arith_error (done : operands labels visit left right ledger = .ok (first, second) between)
    (unregistered : ∀ other, first ≠ .register other) (none : between.free bank = 0) :
    arith labels visit bank left right ledger =
      .error ⟨bank, "evaluating an arithmetic operand"⟩ between := by
  have refused : takeRegister bank between = .ok false between := if_pos none
  rw [arith, estate_bind_of_ok done]
  refine estate_bind_of_error ?_
  rw [materialize_eq unregistered]
  exact (estate_bind_of_ok refused).trans rfl

/-- Nothing is parked if enough registers are free or there are no slots. -/
theorem parkUnderPressure_stays {needed : Nat}
    (stays : needed ≤ ledger.free bank ∨ ledger.slots = 0) :
    parkUnderPressure first needed bank ledger = .ok first ledger := by
  cases first with
  | nothing | slot => rfl
  | register own =>
    rw [parkUnderPressure_register, if_neg]
    rintro ⟨⟨_, pressed⟩, left⟩
    omega

/-- Whether only values that are used twice are kept, and the peak accounts for the registers that
are taken. -/
structure Sound (tree : Tree) (ledger : Ledger) : Prop where
  kept : ∀ id, ledger.kept id = true → tree.isShared id = true
  limit : ledger.limit .generalPurpose < Labeling.limit
  free : ledger.free .generalPurpose ≤ ledger.limit .generalPurpose
  peak : ledger.limit .generalPurpose ≤ ledger.free .generalPurpose + ledger.peak .generalPurpose

/-- Whether nothing has been spent for a node but the register that holds it if it is arithmetic. -/
structure Gives (tree : Tree) (id : NodeId) (before after : Ledger) : Prop where
  free : after.free .generalPurpose + (tree.isArith id).toNat = before.free .generalPurpose
  slots : after.slots = before.slots
  limit : after.limit = before.limit
  sound : after.Sound tree

/-- Whether nothing had to be parked for a node, the registers that were taken at once were no more
than its label says, and they were as many if it is arithmetic that uses nothing twice. -/
structure Fits (tree : Tree) (label : Nat) (id : NodeId) (before after : Ledger) : Prop
    extends Gives tree id before after where
  parked : after.statistics.valuesParked = before.statistics.valuesParked
  peak_mono : before.peak .generalPurpose ≤ after.peak .generalPurpose
  peak_le : after.peak .generalPurpose ≤ max (before.peak .generalPurpose)
    (before.limit .generalPurpose + label - before.free .generalPurpose)
  le_peak : tree.isArith id = true → tree.Once id →
    before.limit .generalPurpose + label ≤ before.free .generalPurpose + after.peak .generalPurpose

/-- Whether a visit finds registers for arithmetic when as many are free as its label says. What is
not arithmetic needs none. -/
def Suffices (tree : Tree) (labels : NodeId → Nat) (visit : Visit) (id : NodeId) : Prop :=
  ∀ ⦃ledger : Ledger⦄, ledger.Sound tree →
    (tree.isArith id = true → labels id ≤ ledger.free .generalPurpose) →
      ∃ after, visit id ledger = .ok (tree.holding id) after ∧ Fits tree (labels id) id ledger after

/-- Whether a visit fails for lack of registers when fewer are free than the label of arithmetic
says, and there are no slots. -/
def Lacks (tree : Tree) (labels : NodeId → Nat) (visit : Visit) (id : NodeId) : Prop :=
  ∀ ⦃ledger : Ledger⦄, ledger.Sound tree → ledger.slots = 0 → tree.isArith id = true →
    ledger.free .generalPurpose < labels id →
      ∃ shortage after, visit id ledger = .error shortage after ∧ shortage.bank = .generalPurpose

variable {root : NodeId} {node : Node} {operation : Arithmetic}

/-- What is kept or counted takes no room. -/
theorem fits_leaf (leaf : tree.isArith id = false) (sound : ledger.Sound tree)
    {kept : NodeId → Bool} {statistics : Statistics}
    (shared : ∀ id, kept id = true → tree.isShared id = true)
    (parked : statistics.valuesParked = ledger.statistics.valuesParked) (label : Nat) :
    Fits tree label id ledger { ledger with kept := kept, statistics := statistics } where
  free := by rw [leaf]; rfl
  slots := rfl
  limit := rfl
  sound := ⟨shared, sound.limit, sound.free, sound.peak⟩
  parked := parked
  peak_mono := Nat.le_refl _
  peak_le := Nat.le_max_left ..
  le_peak arith := by simp [leaf] at arith

/-- A constant or a parameter takes nothing, whatever is free. -/
theorem node_leaf (plain : tree.Plain root) (reaches : tree.Reaches root id)
    (leaf : tree.isArith id = false) (sound : ledger.Sound tree) :
    ∃ after, Ledger.node tree labels visit id ledger = .ok (tree.holding id) after ∧
      ∀ label, Fits tree label id ledger after := by
  obtain ⟨node, found, noCall⟩ := plain.node_of_reaches reaches
  rw [Tree.holding_of_leaf leaf]
  cases kept : ledger.kept id with
  | true =>
    rw [node_of_kept found kept]
    exact ⟨_, rfl, fits_leaf leaf sound sound.kept rfl⟩
  | false =>
    have nothing : Ledger.operation tree labels visit node.kind.bank node.operation ledger =
        .ok .nothing ledger := by
      rw [Tree.isArith_of_node found] at leaf
      cases same : node.operation with
      | constant | parameter => rfl
      | arith =>
        rw [same] at leaf
        cases leaf
      | call =>
        rw [same] at noCall
        cases noCall
    rw [node_of_fresh found kept, estate_bind_of_ok nothing]
    cases shared : node.isShared with
    | true =>
      rw [conclude_shared shared]
      refine ⟨_, rfl, fits_leaf leaf sound (fun other keeps => ?_) rfl⟩
      by_cases here : other = id
      · rw [here, Tree.isShared_of_node found, shared]
      · rw [Function.update_of_ne here] at keeps
        exact sound.kept other keeps
    | false =>
      rw [conclude_single shared]
      exact ⟨_, rfl, fits_leaf leaf sound sound.kept rfl⟩

/-- Plain arithmetic is generated when it is needed: it has not been kept for an earlier use, and
its value is not kept either. -/
theorem node_arith (plain : tree.Plain root) (reaches : tree.Reaches root id)
    (sound : ledger.Sound tree) (found : tree.node? id = some node)
    (same : node.operation = .arith operation left right) :
    Ledger.node tree labels visit id ledger = (do
      let holding ← arith labels visit .generalPurpose left right
      modify counted
      return holding : Step Holding) ledger := by
  have arith : tree.isArith id = true := by
    rw [Tree.isArith_of_node found, same]
    rfl
  have single := plain.single id reaches arith
  have fresh : ledger.kept id = false := by
    rw [Bool.eq_false_iff]
    intro kept
    exact absurd (sound.kept id kept) (by simp [single])
  rw [Tree.isShared_of_node found] at single
  have ends : conclude node id = fun holding => (do
      modify counted
      return holding : Step Holding) := by
    funext holding ledger
    exact conclude_single single id holding ledger
  rw [node_of_fresh found fresh, same, plain.integral id node operation left right found same, ends]
  rfl

/-- The result of arithmetic has a register, and whatever else its operands held is given back. -/
theorem gives_result (arith : tree.isArith id = true) (before : ledger.Sound tree)
    (sound : between.Sound tree) (limit : between.limit = ledger.limit)
    (own : ∀ other, first = .register other → other = .generalPurpose)
    (room : 0 < between.free .generalPurpose + first.registers .generalPurpose)
    (free : between.free .generalPurpose + first.registers .generalPurpose +
      second.registers .generalPurpose = ledger.free .generalPurpose)
    (slots : between.slots + first.slots + second.slots = ledger.slots) :
    Gives tree id ledger ((between.fetched .generalPurpose first).refund second).counted := by
  have brought := free_fetched own room
  have peak := peak_fetched own room sound.peak
  have total : ((between.fetched .generalPurpose first).refund second).free .generalPurpose + 1 =
      ledger.free .generalPurpose := by
    rw [free_refund]
    omega
  constructor
  · rw [arith]
    exact total
  · simp only [counted, slots_refund, slots_fetched]
    exact slots
  · simp only [counted, limit_refund, limit_fetched]
    exact limit
  · constructor
    · simp only [counted, kept_refund, kept_fetched]
      exact sound.kept
    · simp only [counted, limit_refund, limit_fetched]
      exact sound.limit
    · have most := before.free
      simp only [counted, limit_refund, limit_fetched, limit]
      omega
    · simp only [counted, limit_refund, limit_fetched, peak_refund, free_refund, peak]
      omega

/-- Whether the operands of arithmetic have been found with nothing parked, the registers taken at
once being no more than the label says. If nothing is used twice they were as many, or will be when
the left operand is brought into a register. -/
structure FitsOperands (tree : Tree) (label : Nat) (left right : NodeId) (before after : Ledger) :
    Prop where
  free : after.free .generalPurpose + (tree.isArith left).toNat + (tree.isArith right).toNat =
    before.free .generalPurpose
  slots : after.slots = before.slots
  limit : after.limit = before.limit
  sound : after.Sound tree
  parked : after.statistics.valuesParked = before.statistics.valuesParked
  peak_mono : before.peak .generalPurpose ≤ after.peak .generalPurpose
  peak_le : after.peak .generalPurpose ≤ max (before.peak .generalPurpose)
    (before.limit .generalPurpose + label - before.free .generalPurpose)
  le_peak : tree.Once left → tree.Once right →
    before.limit .generalPurpose + label ≤
        before.free .generalPurpose + after.peak .generalPurpose ∨
      label = 1 + (tree.isArith right).toNat

/-- What two nodes leave that are evaluated one after the other with nothing parked. While the second
one is evaluated, the first one has its register. -/
structure InOrder (tree : Tree) (labels : NodeId → Nat) (first second : NodeId)
    (before after : Ledger) : Prop where
  free : after.free .generalPurpose + (tree.isArith first).toNat +
    (tree.isArith second).toNat = before.free .generalPurpose
  slots : after.slots = before.slots
  limit : after.limit = before.limit
  sound : after.Sound tree
  parked : after.statistics.valuesParked = before.statistics.valuesParked
  peak_mono : before.peak .generalPurpose ≤ after.peak .generalPurpose
  peak_le : after.peak .generalPurpose ≤ max (before.peak .generalPurpose)
    (before.limit .generalPurpose +
      max (labels first) (labels second + (tree.isArith first).toNat) - before.free .generalPurpose)
  first_le_peak : tree.isArith first = true → tree.Once first →
    before.limit .generalPurpose + labels first ≤
      before.free .generalPurpose + after.peak .generalPurpose
  second_le_peak : tree.isArith second = true → tree.Once second →
    before.limit .generalPurpose + (labels second + (tree.isArith first).toNat) ≤
      before.free .generalPurpose + after.peak .generalPurpose

/-- A value stays in its register if enough are left for what is evaluated next. -/
theorem evaluates_in_order {first second : NodeId} (firstFits : Suffices tree labels visit first)
    (secondFits : Suffices tree labels visit second) (sound : ledger.Sound tree)
    (enough : labels first ≤ ledger.free .generalPurpose)
    (remains : labels second + (tree.isArith first).toNat ≤ ledger.free .generalPurpose) :
    ∃ between after, visit first ledger = .ok (tree.holding first) between ∧
      parkUnderPressure (tree.holding first) (labels second) .generalPurpose between =
        .ok (tree.holding first) between ∧
      visit second between = .ok (tree.holding second) after ∧
      InOrder tree labels first second ledger after := by
  obtain ⟨between, visited, fits⟩ := firstFits sound fun _ => enough
  have free := fits.free
  have limit := congrFun fits.limit .generalPurpose
  have left : labels second ≤ between.free .generalPurpose := by omega
  obtain ⟨after, visitedLast, fitsLast⟩ := secondFits fits.sound fun _ => left
  have freeLast := fitsLast.free
  have mono := fits.peak_mono
  have monoLast := fitsLast.peak_mono
  refine ⟨between, after, visited, parkUnderPressure_stays (.inl left), visitedLast, ?_⟩
  constructor
  · omega
  · exact fitsLast.slots.trans fits.slots
  · exact fitsLast.limit.trans fits.limit
  · exact fitsLast.sound
  · exact fitsLast.parked.trans fits.parked
  · exact Nat.le_trans mono monoLast
  · have most := fits.peak_le
    have mostLast := fitsLast.peak_le
    omega
  · intro arith once
    have reached := fits.le_peak arith once
    omega
  · intro arith once
    have reached := fitsLast.le_peak arith once
    omega

/-- The operand with the larger label is evaluated first. What it leaves is enough for the other
one, so it stays in its register. -/
theorem operands_fit (label : tree.OperandLabels labels id left right)
    (leftFits : Suffices tree labels visit left) (rightFits : Suffices tree labels visit right)
    (sound : ledger.Sound tree) (enough : labels id ≤ ledger.free .generalPurpose) :
    ∃ after, operands labels visit left right ledger =
        .ok (tree.holding left, tree.holding right) after ∧
      FitsOperands tree (labels id) left right ledger after := by
  have small := Nat.lt_of_le_of_lt (Nat.le_trans enough sound.free) sound.limit
  have cases := label.exact small
  have leftOne := Bool.toNat_le (tree.isArith left)
  have rightOne := Bool.toNat_le (tree.isArith right)
  by_cases heavier : labels left < labels right
  · obtain ⟨between, after, visited, stays, visitedLast, order⟩ :=
      evaluates_in_order rightFits leftFits sound (by omega) (by omega)
    refine ⟨after, ?_, ?_⟩
    · rw [operands, if_pos heavier, estate_bind_of_ok visited, estate_bind_of_ok stays,
        estate_bind_of_ok visitedLast]
      rfl
    · refine { order with free := ?_, peak_le := ?_, le_peak := fun _ once => ?_ }
      · have free := order.free
        omega
      · have most := order.peak_le
        omega
      · have reached := order.first_le_peak (label.right_arith_of_lt heavier) once
        omega
  · obtain ⟨between, after, visited, stays, visitedLast, order⟩ :=
      evaluates_in_order leftFits rightFits sound (by omega) (by omega)
    refine ⟨after, ?_, ?_⟩
    · rw [operands, if_neg heavier, estate_bind_of_ok visited, estate_bind_of_ok stays,
        estate_bind_of_ok visitedLast]
      rfl
    · refine { order with peak_le := ?_, le_peak := fun leftOnce rightOnce => ?_ }
      · have most := order.peak_le
        omega
      · rcases label.attained small heavier (rightOnce right .refl) with ⟨arith, own⟩ |
          ⟨arith, own⟩ | own
        · have reached := order.first_le_peak arith leftOnce
          omega
        · have reached := order.second_le_peak arith rightOnce
          omega
        · exact .inr own

/-- As many registers as the label says suffice for a node if they do for its operands. -/
theorem suffices_node (plain : tree.Plain root) (reaches : tree.Reaches root id)
    (visits : ∀ operand ∈ tree.operandsOf id, Suffices tree (tree.labelBelow root) visit operand) :
    Suffices tree (tree.labelBelow root) (Ledger.node tree (tree.labelBelow root) visit) id := by
  intro ledger sound enough
  cases arith : tree.isArith id with
  | false =>
    obtain ⟨after, done, fits⟩ := node_leaf plain reaches arith sound
    exact ⟨after, done, fits _⟩
  | true =>
    obtain ⟨node, operation, left, right, found, same⟩ := Tree.exists_of_isArith arith
    have leftUses := Tree.uses_left found same
    have rightUses := Tree.uses_right found same
    have label := plain.operandLabels reaches found same
    obtain ⟨between, done, fits⟩ := operands_fit label (visits left leftUses)
      (visits right rightUses) sound (enough arith)
    have enough := enough arith
    have free := fits.free
    have limit := congrFun fits.limit .generalPurpose
    have own : ∀ other, tree.holding left = .register other → other = .generalPurpose :=
      fun _ same => Tree.bank_of_holding same
    have more := label.right_lt
    have room : 0 < between.free .generalPurpose +
        (tree.holding left).registers .generalPurpose := by
      rw [Tree.registers_holding]
      omega
    have total : between.free .generalPurpose + (tree.holding left).registers .generalPurpose +
        (tree.holding right).registers .generalPurpose = ledger.free .generalPurpose := by
      rwa [Tree.registers_holding, Tree.registers_holding]
    have slots : between.slots + (tree.holding left).slots + (tree.holding right).slots =
        ledger.slots := by
      rw [Tree.slots_holding, Tree.slots_holding]
      exact fits.slots
    have gives := gives_result arith sound fits.sound fits.limit own room total slots
    have peak := peak_fetched own room fits.sound.peak
    rw [Tree.registers_holding, limit] at peak
    refine ⟨_, ?_, { gives with parked := ?_, peak_mono := ?_, peak_le := ?_, le_peak := ?_ }⟩
    · rw [node_arith plain reaches sound found same, estate_bind_of_ok (arith_ok done own room),
        Tree.holding_of_arith arith]
      rfl
    · simp only [counted, statistics_refund, statistics_fetched]
      exact fits.parked
    · have mono := fits.peak_mono
      simp only [counted, peak_refund, peak]
      omega
    · have most := fits.peak_le
      simp only [counted, peak_refund, peak]
      omega
    · intro _ once
      have reached := fits.le_peak (once.operand leftUses) (once.operand rightUses)
      simp only [counted, peak_refund, peak]
      omega

/-- As many registers as its label says suffice for whatever a plain root needs. -/
theorem suffices_within (plain : tree.Plain root) (depth : Nat) : ∀ id, id < depth →
    tree.Reaches root id → Suffices tree (tree.labelBelow root)
      (within tree (tree.labelBelow root) depth) id := by
  induction depth with
  | zero => exact fun id deep => absurd deep (Nat.not_lt_zero id)
  | succ depth ih =>
    intro id deep reaches
    refine suffices_node plain reaches fun operand uses => ?_
    have older := plain.built.formed.operandsOf_lt uses
    exact ih operand (Nat.lt_of_lt_of_le older (Nat.le_of_lt_succ deep)) (reaches.tail uses)

/-- Fewer registers than the label of arithmetic fail one of its operands, or leave none for its
left operand to be brought into. -/
theorem arith_lacks (label : tree.OperandLabels labels id left right)
    (leftFits : Suffices tree labels visit left) (rightFits : Suffices tree labels visit right)
    (leftLacks : Lacks tree labels visit left) (rightLacks : Lacks tree labels visit right)
    (single : tree.isShared right = false) (sound : ledger.Sound tree) (none : ledger.slots = 0)
    (few : ledger.free .generalPurpose < labels id) :
    ∃ shortage after, arith labels visit .generalPurpose left right ledger = .error shortage after ∧
      shortage.bank = .generalPurpose := by
  by_cases heavier : labels left < labels right
  · have less := label.atMost
    obtain ⟨shortage, after, failed, bank⟩ :=
      rightLacks sound none (label.right_arith_of_lt heavier) (by omega)
    refine ⟨shortage, after, estate_bind_of_error ?_, bank⟩
    rw [operands, if_pos heavier]
    exact estate_bind_of_error failed
  · by_cases short : tree.isArith left = true ∧ ledger.free .generalPurpose < labels left
    · obtain ⟨shortage, after, failed, bank⟩ := leftLacks sound none short.1 short.2
      refine ⟨shortage, after, estate_bind_of_error ?_, bank⟩
      rw [operands, if_neg heavier]
      exact estate_bind_of_error failed
    · have leftRoom (arith : tree.isArith left = true) :
          labels left ≤ ledger.free .generalPurpose := Nat.not_lt.mp fun less => short ⟨arith, less⟩
      obtain ⟨between, visited, fits⟩ := leftFits sound leftRoom
      have remains := fits.free
      have noSlots : between.slots = 0 := fits.slots.trans none
      by_cases shortToo : tree.isArith right = true ∧ between.free .generalPurpose < labels right
      · obtain ⟨shortage, after, failed, bank⟩ :=
          rightLacks fits.sound noSlots shortToo.1 shortToo.2
        refine ⟨shortage, after, estate_bind_of_error ?_, bank⟩
        rw [operands, if_neg heavier, estate_bind_of_ok visited,
          estate_bind_of_ok (parkUnderPressure_stays (.inr noSlots))]
        exact estate_bind_of_error failed
      · have rightRoom (arith : tree.isArith right = true) :
            labels right ≤ between.free .generalPurpose :=
          Nat.not_lt.mp fun less => shortToo ⟨arith, less⟩
        obtain ⟨after, visitedLast, fitsLast⟩ := rightFits fits.sound rightRoom
        obtain ⟨leaf, all⟩ := label.of_few few heavier single leftRoom fun arith =>
          remains ▸ Nat.add_le_add_right (rightRoom arith) _
        have empty : after.free .generalPurpose = 0 := by
          have rest := fitsLast.free
          rw [leaf, Bool.toNat_false] at remains
          omega
        have done : operands labels visit left right ledger =
            .ok (tree.holding left, tree.holding right) after := by
          rw [operands, if_neg heavier, estate_bind_of_ok visited,
            estate_bind_of_ok (parkUnderPressure_stays (.inr noSlots)),
            estate_bind_of_ok visitedLast]
          rfl
        refine ⟨_, after, arith_error done ?_ empty, rfl⟩
        rw [Tree.holding_of_leaf leaf]
        nofun

/-- Fewer registers than its label says fail plain arithmetic that uses nothing twice. -/
theorem lacks_within (plain : tree.Plain root) (depth : Nat) : ∀ id, id < depth →
    tree.Reaches root id → tree.Once id → Lacks tree (tree.labelBelow root)
      (within tree (tree.labelBelow root) depth) id := by
  induction depth with
  | zero => exact fun id deep => absurd deep (Nat.not_lt_zero id)
  | succ depth ih =>
    intro id deep reaches once ledger sound none arith few
    obtain ⟨node, operation, left, right, found, same⟩ := Tree.exists_of_isArith arith
    have leftUses := Tree.uses_left found same
    have rightUses := Tree.uses_right found same
    have deeper {operand : NodeId} (uses : operand ∈ tree.operandsOf id) : operand < depth :=
      Nat.lt_of_lt_of_le (plain.built.formed.operandsOf_lt uses) (Nat.le_of_lt_succ deep)
    have lacks {operand : NodeId} (uses : operand ∈ tree.operandsOf id) :=
      ih operand (deeper uses) (reaches.tail uses) (once.operand uses)
    have fits {operand : NodeId} (uses : operand ∈ tree.operandsOf id) :=
      suffices_within plain depth operand (deeper uses) (reaches.tail uses)
    obtain ⟨shortage, after, failed, bank⟩ := arith_lacks (plain.operandLabels reaches found same)
      (fits leftUses) (fits rightUses) (lacks leftUses) (lacks rightUses)
      (once right (.single rightUses)) sound none few
    refine ⟨shortage, after, ?_, bank⟩
    rw [within, node_arith plain reaches sound found same]
    exact estate_bind_of_error failed

end Ledger

end NativeExpr
