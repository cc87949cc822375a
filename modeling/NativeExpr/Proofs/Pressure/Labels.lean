import NativeExpr.Proofs.Exhaustion.Compilation
import NativeExpr.Proofs.Labeling.Need

/-!
# Labels of plain arithmetic

Where nothing is called and no result of arithmetic is used twice, the label of arithmetic follows
from those of its two operands alone. A left operand needs a register, where the result will be; a
constant or a parameter as a right operand needs one at most, and none if it is used only there.
-/

namespace NativeExpr

/-- Whether an operation is arithmetic. -/
def Operation.isArith : Operation → Bool
  | .arith _ _ _ => true
  | _ => false

theorem Labeling.combine_cases (left right : Nat) :
    left < right ∧ combine left right = right ∨ right < left ∧ combine left right = left ∨
      left = right ∧ combine left right = min (left + 1) limit := by
  simp only [combine]
  rcases Nat.lt_trichotomy left right with less | same | greater
  · rw [if_neg (Nat.ne_of_lt less), Nat.max_eq_right (Nat.le_of_lt less)]
    exact .inl ⟨less, rfl⟩
  · rw [if_pos same]
    exact .inr (.inr ⟨same, rfl⟩)
  · rw [if_neg (Nat.ne_of_gt greater), Nat.max_eq_left (Nat.le_of_lt greater)]
    exact .inr (.inl ⟨greater, rfl⟩)

theorem Labeling.combine_pos {left : Nat} (positive : 0 < left) (right : Nat) :
    0 < combine left right := by
  simp only [combine]
  split
  · exact Nat.lt_min.mpr ⟨Nat.succ_pos left, by decide⟩
  · exact Nat.lt_of_lt_of_le positive (Nat.le_max_left ..)

namespace Tree

/-- Whether a node is arithmetic. -/
def isArith (tree : Tree) (id : NodeId) : Bool :=
  (tree.node? id).any fun node => node.operation.isArith

/-- Whether nothing is called for a root and no arithmetic that it needs is used twice. -/
structure Plain (tree : Tree) (root : NodeId) : Prop where
  built : tree.Built
  integral : tree.Integral
  exist : root < tree.size
  calls : ∀ id, tree.Reaches root id → tree.isCall id = false
  single : ∀ id, tree.Reaches root id → tree.isArith id = true → tree.isShared id = false

/-- Whether everything that is needed for a root is used once at most. -/
def Once (tree : Tree) (root : NodeId) : Prop :=
  ∀ id, tree.Reaches root id → tree.isShared id = false

/-- What the label of arithmetic and those of its operands are. -/
structure OperandLabels (tree : Tree) (labels : NodeId → Nat) (id left right : NodeId) : Prop where
  own : labels id = Labeling.combine (labels left) (labels right)
  left_pos : 0 < labels left
  left_leaf : tree.isArith left = false → labels left = 1
  right_arith : tree.isArith right = true → 0 < labels right
  right_leaf : tree.isArith right = false → labels right ≤ 1
  right_single : tree.isArith right = false → tree.isShared right = false → labels right = 0

variable {tree : Tree} {root id left right : NodeId} {node : Node} {operation : Arithmetic}

theorem Once.operand (once : tree.Once id) {operand : NodeId}
    (uses : operand ∈ tree.operandsOf id) : tree.Once operand :=
  fun other reaches => once other (.head uses reaches)

/-- Below the largest label that is told apart, equal labels make one that is larger. -/
theorem OperandLabels.exact {labels : NodeId → Nat}
    (label : tree.OperandLabels labels id left right)
    (small : labels id < Labeling.limit) :
    labels left < labels right ∧ labels id = labels right ∨
      labels right < labels left ∧ labels id = labels left ∨
      labels left = labels right ∧ labels id = labels left + 1 := by
  have own := label.own
  rcases Labeling.combine_cases (labels left) (labels right) with ⟨less, same⟩ | ⟨less, same⟩ |
    ⟨equal, same⟩
  · exact .inl ⟨less, own.trans same⟩
  · exact .inr (.inl ⟨less, own.trans same⟩)
  · refine .inr (.inr ⟨equal, ?_⟩)
    rw [own, same] at small ⊢
    by_cases next : labels left + 1 ≤ Labeling.limit
    · exact Nat.min_eq_left next
    · rw [Nat.min_eq_right (Nat.le_of_not_le next)] at small
      exact absurd small (Nat.lt_irrefl _)

/-- However large the labels are, they make none that is larger by more than one. -/
theorem OperandLabels.atMost {labels : NodeId → Nat}
    (label : tree.OperandLabels labels id left right) :
    labels left < labels right ∧ labels id = labels right ∨
      labels right < labels left ∧ labels id = labels left ∨
      labels left = labels right ∧ labels id ≤ labels left + 1 := by
  have own := label.own
  rcases Labeling.combine_cases (labels left) (labels right) with ⟨less, same⟩ | ⟨less, same⟩ |
    ⟨equal, same⟩
  · exact .inl ⟨less, own.trans same⟩
  · exact .inr (.inl ⟨less, own.trans same⟩)
  · rw [own, same]
    exact .inr (.inr ⟨equal, Nat.min_le_left ..⟩)

/-- Only arithmetic has a label that is larger than that of the left operand. -/
theorem OperandLabels.right_arith_of_lt {labels : NodeId → Nat}
    (label : tree.OperandLabels labels id left right) (heavier : labels left < labels right) :
    tree.isArith right = true := by
  rw [← Bool.not_eq_false]
  intro leaf
  have most := label.right_leaf leaf
  have least := label.left_pos
  omega

/-- If the left operand comes first, the label is that of the left one, or that of the right one
with a register for what has come first, or it counts the register of the result and the one that
the right operand has. -/
theorem OperandLabels.attained {labels : NodeId → Nat}
    (label : tree.OperandLabels labels id left right) (small : labels id < Labeling.limit)
    (lighter : ¬labels left < labels right) (single : tree.isShared right = false) :
    tree.isArith left = true ∧ labels id = labels left ∨
      tree.isArith right = true ∧ labels id = labels right + (tree.isArith left).toNat ∨
      labels id = 1 + (tree.isArith right).toNat := by
  have least := label.left_pos
  rcases label.exact small with ⟨heavier, _⟩ | ⟨less, own⟩ | ⟨equal, own⟩
  · exact absurd heavier lighter
  · cases leftArith : tree.isArith left with
    | true => exact .inl ⟨rfl, own⟩
    | false =>
      have one := label.left_leaf leftArith
      have leaf : tree.isArith right = false := by
        rw [← Bool.not_eq_true]
        intro arith
        have some := label.right_arith arith
        omega
      rw [leaf, own, one]
      exact .inr (.inr rfl)
  · have arith : tree.isArith right = true := by
      rw [← Bool.not_eq_false]
      intro leaf
      have none := label.right_single leaf single
      omega
    cases leftArith : tree.isArith left with
    | true =>
      rw [own, equal]
      exact .inr (.inl ⟨arith, rfl⟩)
    | false =>
      rw [arith, own, label.left_leaf leftArith]
      exact .inr (.inr rfl)

/-- If both operands find room with fewer registers than the label says, the left one is not
arithmetic, and no register is left to bring it into. -/
theorem OperandLabels.of_few {labels : NodeId → Nat}
    (label : tree.OperandLabels labels id left right) {free : Nat} (few : free < labels id)
    (lighter : ¬labels left < labels right) (single : tree.isShared right = false)
    (leftRoom : tree.isArith left = true → labels left ≤ free)
    (rightRoom : tree.isArith right = true → labels right + (tree.isArith left).toNat ≤ free) :
    tree.isArith left = false ∧ free = (tree.isArith right).toNat := by
  have most := label.atMost
  have least := label.left_pos
  cases leftArith : tree.isArith left with
  | true =>
    have leftRoom := leftRoom leftArith
    rw [leftArith, Bool.toNat_true] at rightRoom
    cases arith : tree.isArith right with
    | true =>
      have rightRoom := rightRoom arith
      omega
    | false =>
      have none := label.right_single arith single
      omega
  | false =>
    have one := label.left_leaf leftArith
    rw [leftArith, Bool.toNat_false] at rightRoom
    refine ⟨rfl, ?_⟩
    cases arith : tree.isArith right with
    | true =>
      have rightRoom := rightRoom arith
      have some := label.right_arith arith
      rw [Bool.toNat_true]
      omega
    | false =>
      have none := label.right_single arith single
      rw [Bool.toNat_false]
      omega

/-- Arithmetic on two results of arithmetic needs two registers at least. -/
theorem OperandLabels.right_lt {labels : NodeId → Nat}
    (label : tree.OperandLabels labels id left right) :
    (tree.isArith right).toNat < labels id := by
  have own := label.own
  have leftPos := label.left_pos
  have cases := Labeling.combine_cases (labels left) (labels right)
  have limit : 2 < Labeling.limit := by decide
  cases arith : tree.isArith right with
  | true =>
    have rightPos := label.right_arith arith
    simp only [Bool.toNat_true]
    omega
  | false =>
    simp only [Bool.toNat_false]
    omega

theorem isArith_of_node (found : tree.node? id = some node) :
    tree.isArith id = node.operation.isArith := by
  simp only [isArith, found, Option.any_some]

theorem exists_of_isArith (arith : tree.isArith id = true) : ∃ node operation left right,
    tree.node? id = some node ∧ node.operation = .arith operation left right := by
  cases found : tree.node? id with
  | none => simp [isArith, found] at arith
  | some node =>
    rw [isArith_of_node found] at arith
    cases same : node.operation with
    | arith operation left right => exact ⟨node, operation, left, right, rfl, same⟩
    | constant | parameter | call =>
      rw [same] at arith
      cases arith

theorem operandsOf_arith (found : tree.node? id = some node)
    (same : node.operation = .arith operation left right) : tree.operandsOf id = [left, right] := by
  rw [operandsOf_of_node found, same]
  rfl

theorem uses_left (found : tree.node? id = some node)
    (same : node.operation = .arith operation left right) : left ∈ tree.operandsOf id := by
  simp [operandsOf_arith found same]

theorem uses_right (found : tree.node? id = some node)
    (same : node.operation = .arith operation left right) : right ∈ tree.operandsOf id := by
  simp [operandsOf_arith found same]

theorem Once.of_nodes (single : ∀ id node, tree.Reaches root id → tree.node? id = some node →
    node.parents ≤ 1) : tree.Once root := by
  intro id reaches
  cases found : tree.node? id with
  | none => simp [isShared, found]
  | some node =>
    rw [isShared_of_node found]
    exact decide_eq_false (Nat.not_lt.mpr (single id node reaches found))

namespace Plain

theorem of_nodes (built : tree.Built) (integral : tree.Integral) (exist : root < tree.size)
    (nodes : ∀ id node, tree.Reaches root id → tree.node? id = some node →
      node.operation.isCall = false ∧ (node.operation.isArith = true → node.parents ≤ 1)) :
    tree.Plain root where
  built := built
  integral := integral
  exist := exist
  calls id reaches := by
    cases found : tree.node? id with
    | none => simp [isCall, found]
    | some node => exact (isCall_of_node found).trans (nodes id node reaches found).1
  single id reaches arith := by
    obtain ⟨node, _, _, _, found, _⟩ := exists_of_isArith arith
    rw [isArith_of_node found] at arith
    rw [isShared_of_node found]
    exact decide_eq_false (Nat.not_lt.mpr ((nodes id node reaches found).2 arith))

/-- Whatever is needed exists. -/
theorem node_of_reaches (plain : tree.Plain root) (reaches : tree.Reaches root id) :
    ∃ node, tree.node? id = some node ∧ node.operation.isCall = false := by
  have within : id < tree.size :=
    Nat.lt_of_le_of_lt (plain.built.formed.le_of_reaches reaches) plain.exist
  have found : tree.node? id = some tree.nodes[id] := Array.getElem?_eq_getElem within
  exact ⟨_, found, (isCall_of_node found).symm.trans (plain.calls id reaches)⟩

/-- Constants and parameters need no registers but those of their position and their uses. -/
theorem need_leaf (plain : tree.Plain root) (reaches : tree.Reaches root id)
    (leaf : tree.isArith id = false) (isLeft : Bool) :
    tree.need id isLeft = if isLeft ∨ tree.isShared id then 1 else 0 := by
  obtain ⟨node, found, noCall⟩ := plain.node_of_reaches reaches
  rw [isArith_of_node found] at leaf
  rw [plain.built.formed.layered.need_eq found, isShared_of_node found, Node.need]
  cases same : node.operation with
  | arith =>
    rw [same] at leaf
    cases leaf
  | call =>
    rw [same] at noCall
    cases noCall
  | constant | parameter =>
    simp only [Operation.need]
    cases isLeft <;> cases node.isShared <;> rfl

/-- Arithmetic needs what its operands need together, wherever it is. -/
theorem need_arith (plain : tree.Plain root) (reaches : tree.Reaches root id)
    (found : tree.node? id = some node) (same : node.operation = .arith operation left right)
    (isLeft : Bool) :
    tree.need id isLeft = Labeling.combine (tree.need left true) (tree.need right false) := by
  have arith : tree.isArith id = true := by rw [isArith_of_node found, same]; rfl
  have single := plain.single id reaches arith
  rw [isShared_of_node found] at single
  rw [plain.built.formed.layered.need_eq found, Node.need, single, same]
  rfl

/-- A left operand and any arithmetic need a register. -/
theorem need_pos (plain : tree.Plain root) (reaches : tree.Reaches root id) {isLeft : Bool}
    (registered : isLeft = true ∨ tree.isArith id = true) : 0 < tree.need id isLeft := by
  induction id using Nat.strongRecOn generalizing isLeft with
  | ind id ih =>
    cases arith : tree.isArith id with
    | false =>
      have isLeft := registered.resolve_right (by simp [arith])
      simp [plain.need_leaf reaches arith, isLeft]
    | true =>
      obtain ⟨node, operation, left, right, found, same⟩ := exists_of_isArith arith
      rw [plain.need_arith reaches found same]
      have uses := uses_left found same
      have older : left < id := plain.built.formed.operandsOf_lt uses
      exact Labeling.combine_pos (ih left older (reaches.tail uses) (.inl rfl)) _

/-- The labels of arithmetic and its operands once a root has been labeled. -/
theorem operandLabels (plain : tree.Plain root) (reaches : tree.Reaches root id)
    (found : tree.node? id = some node) (same : node.operation = .arith operation left right) :
    tree.OperandLabels (tree.labelBelow root) id left right := by
  have leftReaches : tree.Reaches root left := reaches.tail (uses_left found same)
  have rightReaches : tree.Reaches root right := reaches.tail (uses_right found same)
  have below {operand : NodeId} (uses : operand ∈ node.operation.operands) :
      tree.labelBelow root operand = tree.operandNeed operand := by
    have older := plain.built.formed.operands id node operand found uses
    have notRoot : operand ≠ root := by
      rintro rfl
      exact absurd older (Nat.not_lt.mpr (plain.built.formed.le_of_reaches reaches))
    rw [labelBelow, Function.update_of_ne notRoot]
  have leftLabel : tree.labelBelow root left = tree.need left true := by
    rw [below (by simp [same, Operation.operands])]
    exact (need_of_leading found (by rw [same]; rfl)).symm
  have rightLabel : tree.labelBelow root right = tree.need right false := by
    rw [below (by simp [same, Operation.operands])]
    exact (plain.built.formed.layered.need_of_trailing plain.built.counted found
      (by simp [same, Operation.trailing])).symm
  have own : tree.labelBelow root id =
      Labeling.combine (tree.need left true) (tree.need right false) := by
    by_cases here : id = root
    · subst here
      rw [labelBelow, Function.update_self, plain.need_arith reaches found same]
    · rw [labelBelow, Function.update_of_ne here, operandNeed, plain.need_arith reaches found same]
  constructor
  · rw [own, leftLabel, rightLabel]
  · rw [leftLabel]
    exact plain.need_pos leftReaches (.inl rfl)
  · intro leaf
    rw [leftLabel, plain.need_leaf leftReaches leaf]
    simp
  · intro arith
    rw [rightLabel]
    exact plain.need_pos rightReaches (.inr arith)
  · intro leaf
    rw [rightLabel, plain.need_leaf rightReaches leaf]
    split <;> simp
  · intro leaf single
    rw [rightLabel, plain.need_leaf rightReaches leaf]
    simp [single]

end Plain

end Tree

end NativeExpr
