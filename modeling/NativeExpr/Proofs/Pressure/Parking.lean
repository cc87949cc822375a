import NativeExpr.Proofs.Pressure.Registers

/-!
# Two registers and a slot for each level

With two registers free, plain arithmetic finds room if there is a slot for each arithmetic node on
the longest path below it. What is evaluated first gives up its register if the rest needs more than
are left, so that the rest has two registers again and one slot less; or the rest needs no more than
are left, and then they suffice without slots. Either way a register is left in the end to bring the
left operand into.
-/

namespace NativeExpr

namespace Tree

/-- Whether no path of operands from a node has more arithmetic nodes than some number. -/
def ArithDepthLe (tree : Tree) (id : NodeId) (depth : Nat) : Prop :=
  ∀ path, List.IsChain (fun user operand => operand ∈ tree.operandsOf user) (id :: path) →
    (id :: path).countP tree.isArith ≤ depth

variable {tree : Tree} {id used : NodeId} {depth : Nat}

theorem ArithDepthLe.pos (bounded : tree.ArithDepthLe id depth) (arith : tree.isArith id = true) :
    0 < depth := by
  have alone := bounded [] (.singleton id)
  rw [List.countP_cons_of_pos arith] at alone
  exact Nat.lt_of_lt_of_le (Nat.succ_pos _) alone

/-- Arithmetic is one level above its operands. -/
theorem ArithDepthLe.operand (bounded : tree.ArithDepthLe id (depth + 1))
    (arith : tree.isArith id = true) (uses : used ∈ tree.operandsOf id) :
    tree.ArithDepthLe used depth := by
  intro path chain
  have longer := bounded (used :: path) (List.isChain_cons_cons.mpr ⟨uses, chain⟩)
  rw [List.countP_cons_of_pos arith] at longer
  exact Nat.le_of_succ_le_succ longer

/-- A node is at most one level above its operands. -/
theorem ArithDepthLe.of_operands
    (operands : ∀ used ∈ tree.operandsOf id, tree.ArithDepthLe used depth) :
    tree.ArithDepthLe id (depth + 1) := by
  intro path chain
  rw [List.countP_cons]
  cases path with
  | nil => split <;> simp
  | cons used path =>
    obtain ⟨uses, chain⟩ := List.isChain_cons_cons.mp chain
    have below := operands used uses path chain
    split <;> omega

/-- Below a leaf there is nothing. -/
theorem ArithDepthLe.of_leaf (plain : tree.isArith id = false) (leaf : tree.operandsOf id = []) :
    tree.ArithDepthLe id 0 := by
  intro path chain
  cases path with
  | nil => simp [plain]
  | cons used path =>
    have uses := (List.isChain_cons_cons.mp chain).1
    exact absurd (leaf ▸ uses) List.not_mem_nil

end Tree

namespace Ledger

variable {tree : Tree} {labels : NodeId → Nat} {visit : Visit} {ledger : Ledger}
variable {root left right id : NodeId} {depth : Nat}

/-- Parking gives up a register that was taken. -/
theorem Sound.parked (sound : ledger.Sound tree)
    (taken : ledger.free .generalPurpose < ledger.limit .generalPurpose) :
    (ledger.parked .generalPurpose).Sound tree := by
  have free : (ledger.parked .generalPurpose).free .generalPurpose =
      ledger.free .generalPurpose + 1 := by
    rw [free_parked]
    rfl
  refine ⟨sound.kept, sound.limit, ?_, ?_⟩
  · rw [free]
    exact taken
  · rw [free]
    exact Nat.le_trans sound.peak (Nat.add_le_add_right (Nat.le_succ _) _)

/-- Whether a visit finds room for a node with two registers and some slots. -/
def Manages (tree : Tree) (visit : Visit) (id : NodeId) (slots : Nat) : Prop :=
  ∀ ⦃ledger : Ledger⦄, ledger.Sound tree → 2 ≤ ledger.free .generalPurpose →
    slots ≤ ledger.slots →
      ∃ after, visit id ledger = .ok (tree.holding id) after ∧ Gives tree id ledger after

/-- What is spent when one operand has been evaluated, and parked or not, and then another one. -/
structure Managed (tree : Tree) (second : NodeId) (settled : Holding) (before after : Ledger) :
    Prop where
  own : ∀ bank, settled = .register bank → bank = .generalPurpose
  single : settled.registers .generalPurpose ≤ 1
  free : after.free .generalPurpose + settled.registers .generalPurpose +
    (tree.isArith second).toNat = before.free .generalPurpose
  slots : after.slots + settled.slots = before.slots
  limit : after.limit = before.limit
  sound : after.Sound tree

/-- What was evaluated first is parked, or registers enough are left for what comes next. -/
theorem managed_in_order {first second : NodeId} (firstManages : Manages tree visit first depth)
    (secondManages : Manages tree visit second depth)
    (secondFits : Suffices tree labels visit second) (sound : ledger.Sound tree)
    (two : 2 ≤ ledger.free .generalPurpose) (room : depth + 1 ≤ ledger.slots) :
    ∃ settled between middle after, visit first ledger = .ok (tree.holding first) between ∧
      parkUnderPressure (tree.holding first) (labels second) .generalPurpose between =
        .ok settled middle ∧
      visit second middle = .ok (tree.holding second) after ∧
      Managed tree second settled ledger after := by
  obtain ⟨between, visited, gives⟩ := firstManages sound two (Nat.le_of_succ_le room)
  have remains := gives.free
  have slots := gives.slots
  cases arith : tree.isArith first with
  | false =>
    rw [arith, Bool.toNat_false] at remains
    rw [Tree.holding_of_leaf arith] at visited ⊢
    obtain ⟨after, visitedLast, givesLast⟩ := secondManages gives.sound (by omega) (by omega)
    have rest := givesLast.free
    refine ⟨.nothing, between, between, after, visited, rfl, visitedLast, ?_⟩
    constructor
    · nofun
    · exact Nat.zero_le _
    · exact rest.trans remains
    · exact givesLast.slots.trans slots
    · exact givesLast.limit.trans gives.limit
    · exact givesLast.sound
  | true =>
    rw [arith, Bool.toNat_true] at remains
    rw [Tree.holding_of_arith arith] at visited ⊢
    have one : (Holding.register .generalPurpose).registers .generalPurpose = 1 := rfl
    by_cases enough : labels second ≤ between.free .generalPurpose
    · obtain ⟨after, visitedLast, fits⟩ := secondFits gives.sound fun _ => enough
      have rest := fits.free
      refine ⟨.register .generalPurpose, between, between, after, visited,
        parkUnderPressure_stays (.inl enough), visitedLast, ?_⟩
      constructor
      · rintro _ ⟨⟩
        rfl
      · exact Nat.le_refl _
      · omega
      · exact fits.slots.trans slots
      · exact fits.limit.trans gives.limit
      · exact fits.sound
    · have free : (between.parked .generalPurpose).free .generalPurpose =
          ledger.free .generalPurpose := by
        rw [free_parked, one, remains]
      have fewer : (between.parked .generalPurpose).slots + 1 = ledger.slots := by
        rw [slots_parked]
        omega
      have taken : between.free .generalPurpose < between.limit .generalPurpose := by
        have most := sound.free
        rw [gives.limit]
        omega
      obtain ⟨after, visitedLast, givesLast⟩ :=
        secondManages (gives.sound.parked taken) (by omega) (by omega)
      have rest := givesLast.free
      have slotsLast := givesLast.slots
      refine ⟨.slot, between, between.parked .generalPurpose, after, visited, ?_, visitedLast, ?_⟩
      · rw [parkUnderPressure_register,
          if_pos ⟨⟨rfl, Nat.lt_of_not_le enough⟩, by omega⟩]
      · constructor
        · nofun
        · exact Nat.zero_le _
        · exact rest.trans free
        · exact (congrArg (· + 1) slotsLast).trans fewer
        · exact givesLast.limit.trans gives.limit
        · exact givesLast.sound

/-- Two registers and a slot more than its operands may need are enough for arithmetic. -/
theorem arith_managed (arith : tree.isArith id = true) (leftManages : Manages tree visit left depth)
    (rightManages : Manages tree visit right depth) (leftFits : Suffices tree labels visit left)
    (rightFits : Suffices tree labels visit right) (sound : ledger.Sound tree)
    (two : 2 ≤ ledger.free .generalPurpose) (room : depth + 1 ≤ ledger.slots) :
    ∃ after, Ledger.arith labels visit .generalPurpose left right ledger =
        .ok (.register .generalPurpose) after ∧ Gives tree id ledger after.counted := by
  by_cases heavier : labels left < labels right
  · obtain ⟨settled, between, middle, after, visited, parks, visitedLast, managed⟩ :=
      managed_in_order rightManages leftManages leftFits sound two room
    have done : operands labels visit left right ledger =
        .ok (tree.holding left, settled) after := by
      rw [operands, if_pos heavier, estate_bind_of_ok visited, estate_bind_of_ok parks,
        estate_bind_of_ok visitedLast]
      rfl
    have free := managed.free
    have single := managed.single
    have registers := tree.registers_holding left
    have own : ∀ bank, tree.holding left = .register bank → bank = .generalPurpose :=
      fun _ same => Tree.bank_of_holding same
    have left : 0 < after.free .generalPurpose +
        (tree.holding left).registers .generalPurpose := by omega
    refine ⟨_, arith_ok done own left,
      gives_result arith sound managed.sound managed.limit own left (by omega) ?_⟩
    rw [Tree.slots_holding]
    exact managed.slots
  · obtain ⟨settled, between, middle, after, visited, parks, visitedLast, managed⟩ :=
      managed_in_order leftManages rightManages rightFits sound two room
    have done : operands labels visit left right ledger =
        .ok (settled, tree.holding right) after := by
      rw [operands, if_neg heavier, estate_bind_of_ok visited, estate_bind_of_ok parks,
        estate_bind_of_ok visitedLast]
      rfl
    have free := managed.free
    have registers := tree.registers_holding right
    have one := Bool.toNat_le (tree.isArith right)
    have left : 0 < after.free .generalPurpose + settled.registers .generalPurpose := by omega
    refine ⟨_, arith_ok done managed.own left,
      gives_result arith sound managed.sound managed.limit managed.own left (by omega) ?_⟩
    rw [Tree.slots_holding]
    exact managed.slots

/-- Two registers and a slot for each level are enough for whatever a plain root needs. -/
theorem manages_within (plain : tree.Plain root) (depth : Nat) : ∀ id slots, id < depth →
    tree.Reaches root id → tree.ArithDepthLe id slots →
      Manages tree (within tree (tree.labelBelow root) depth) id slots := by
  induction depth with
  | zero => exact fun id _ deep => absurd deep (Nat.not_lt_zero id)
  | succ depth ih =>
    intro id slots deep reaches bounded ledger sound two room
    cases arith : tree.isArith id with
    | false =>
      obtain ⟨after, done, fits⟩ := node_leaf plain reaches arith sound
      exact ⟨after, done, (fits 0).toGives⟩
    | true =>
      obtain ⟨node, operation, left, right, found, same⟩ := Tree.exists_of_isArith arith
      have leftUses := Tree.uses_left found same
      have rightUses := Tree.uses_right found same
      have deeper {operand : NodeId} (uses : operand ∈ tree.operandsOf id) : operand < depth :=
        Nat.lt_of_lt_of_le (plain.built.formed.operandsOf_lt uses) (Nat.le_of_lt_succ deep)
      have fits {operand : NodeId} (uses : operand ∈ tree.operandsOf id) :=
        suffices_within plain depth operand (deeper uses) (reaches.tail uses)
      obtain ⟨rest, rfl⟩ := Nat.exists_eq_add_one.mpr (bounded.pos arith)
      have manages {operand : NodeId} (uses : operand ∈ tree.operandsOf id) :=
        ih operand rest (deeper uses) (reaches.tail uses) (bounded.operand arith uses)
      obtain ⟨after, done, gives⟩ := arith_managed arith (manages leftUses) (manages rightUses)
        (fits leftUses) (fits rightUses) sound two room
      refine ⟨after.counted, ?_, gives⟩
      rw [within, node_arith plain reaches sound found same, estate_bind_of_ok done,
        Tree.holding_of_arith arith]
      rfl

end Ledger

end NativeExpr
