import NativeExpr.Proofs.Pressure.Parking
import NativeExpr.Proofs.Room

/-!
# Compiling plain arithmetic

The label of plain arithmetic is the number of registers that compiling it takes: with as many
nothing is parked, and with fewer and no slots compiling fails. With slots two registers are always
enough.
-/

namespace NativeExpr

/-- A compilation begins with every register free and nothing kept. -/
theorem Ledger.sound_opening (tree : Tree) (options : Options) : (opening options).Sound tree where
  kept _ kept := by cases kept
  limit := Nat.lt_of_le_of_lt (RegisterSet.countIn_le ..) (by decide)
  free := Nat.le_refl _
  peak := Nat.le_add_right ..

variable {options : Options} {tree : Tree} {signature : Signature} {root : NodeId}
variable {work : Workspace}

/-- The label of arithmetic that needs no call and uses nothing twice is exact. With as many
registers as it says, compiling parks nothing and takes as many at once; with fewer and no slots,
there is no register for some operand. The parent counts that tell what is used twice are below
2 ^ 32 if there are fewer operand positions than that. -/
theorem compile_label_exact (history : History options tree work)
    (declared : tree.Declared signature.parameters) (arith : tree.isArith root = true)
    (plain : ∀ id node, tree.Reaches root id → tree.node? id = some node →
      node.operation.isCall = false ∧ node.parents ≤ 1) :
    ∃ count labeled, Labeling.root tree root work = .ok count labeled ∧
      labeled.labels[root]? = some count ∧
      (count ≤ options.allocatable.countIn .generalPurpose →
        ∃ compiled after, compile tree signature root work = .ok compiled after ∧
          compiled.statistics.valuesParked = 0 ∧ after.pool.peaks.get .generalPurpose = count) ∧
      (options.allocatable.countIn .generalPurpose < count → options.tempSlots = 0 →
        ∃ activity after, compile tree signature root work =
          .error (.exhausted .generalPurpose activity) after) := by
  obtain ⟨node, _, _, _, found, _⟩ := Tree.exists_of_isArith arith
  have exist := Tree.lt_size_of_node found
  have once : tree.Once root := .of_nodes fun id node reaches here => (plain id node reaches here).2
  have plainRoot : tree.Plain root :=
    .of_nodes history.built history.integral exist fun id node reaches here =>
      ⟨(plain id node reaches here).1, fun _ => (plain id node reaches here).2⟩
  obtain ⟨labeled, labeling, _, labels, _⟩ :=
    Labeling.root_settles history.built.formed.layered history.built.counted exist work
  have label : tree.labelBelow root root = tree.need root true := Function.update_self ..
  have booked := compile_booked history declared exist
  have sound := Ledger.sound_opening tree options
  refine ⟨tree.need root true, labeled, labeling, label ▸ labels root .refl, fun enough => ?_,
    fun few none => ?_⟩
  · obtain ⟨after, done, fits⟩ := Ledger.suffices_within plainRoot tree.size root exist .refl sound
      fun _ => label ▸ enough
    rw [Ledger.outcome, done] at booked
    obtain ⟨compiled, finished, succeeds, peaks, parked⟩ := booked
    refine ⟨compiled, finished, succeeds, parked.trans fits.parked, ?_⟩
    have most := fits.peak_le
    have least := fits.le_peak arith once
    rw [peaks, ← label]
    simp only [Ledger.opening] at most least
    omega
  · obtain ⟨⟨bank, activity⟩, after, failed, rfl⟩ :=
      Ledger.lacks_within plainRoot tree.size root exist .refl once sound none arith (label ▸ few)
    rw [Ledger.outcome, failed] at booked
    obtain ⟨finished, fails⟩ := booked
    exact ⟨activity, finished, fails⟩

/-- The sum of two sums takes two registers, and it is not compiled with one and no slot. -/
theorem compile_label_exact_sums :
    let tree : Tree := ⟨#[⟨.i64, .parameter 0, 1⟩, ⟨.i64, .parameter 1, 1⟩, ⟨.i64, .parameter 2, 1⟩,
      ⟨.i64, .parameter 3, 1⟩, ⟨.i64, .arith .add 0 1, 1⟩, ⟨.i64, .arith .add 2 3, 1⟩,
      ⟨.i64, .arith .add 4 5, 0⟩]⟩
    let signature : Signature := ⟨[.i64, .i64, .i64, .i64], .i64⟩
    (∃ compiled after, compile tree signature 6 (.new ⟨2, 0, 0⟩) = .ok compiled after ∧
      compiled.statistics.valuesParked = 0 ∧ after.pool.peaks.get .generalPurpose = 2) ∧
    ∃ activity after, compile tree signature 6 (.new ⟨1, 0, 0⟩) =
      .error (.exhausted .generalPurpose activity) after := by
  intro tree signature
  have history (options : Options) : History options tree (.new options) :=
    .arith (.arith (.arith (.parameter (.parameter (.parameter (.parameter .new .i64 0) .i64 1)
      .i64 2) .i64 3) rfl (rfl : Tree.arith _ .add .i64 0 1 = .ok (4, _)))
      rfl (rfl : Tree.arith _ .add .i64 2 3 = .ok (5, _)))
      rfl (rfl : Tree.arith _ .add .i64 4 5 = .ok (6, _))
  have declared : tree.Declared signature.parameters := Tree.checkParameters_eq_ok.mp rfl
  have arith : tree.isArith 6 = true := rfl
  have all : ∀ node ∈ tree.nodes.toList, node.operation.isCall = false ∧ node.parents ≤ 1 := by
    decide
  have plain (id : NodeId) (node : Node) (_ : tree.Reaches 6 id)
      (found : tree.node? id = some node) : node.operation.isCall = false ∧ node.parents ≤ 1 :=
    all node (List.mem_of_getElem? (Array.getElem?_toList.trans found))
  have two (options : Options) : ∃ labeled, Labeling.root tree 6 (.new options) = .ok 2 labeled :=
    ⟨_, rfl⟩
  constructor
  · obtain ⟨count, labeled, labeling, _, enough, _⟩ :=
      compile_label_exact (history ⟨2, 0, 0⟩) declared arith plain
    obtain ⟨_, counted⟩ := two ⟨2, 0, 0⟩
    cases labeling.symm.trans counted
    exact enough (by decide)
  · obtain ⟨count, labeled, labeling, _, _, few⟩ :=
      compile_label_exact (history ⟨1, 0, 0⟩) declared arith plain
    obtain ⟨_, counted⟩ := two ⟨1, 0, 0⟩
    cases labeling.symm.trans counted
    exact few (by decide) rfl

/-- What needs no call and uses no arithmetic twice is compiled with two general-purpose registers
and a slot for each arithmetic node on its longest path. -/
theorem compile_two_registers (history : History options tree work)
    (declared : tree.Declared signature.parameters) (exist : root < tree.size)
    (plain : ∀ id node, tree.Reaches root id → tree.node? id = some node →
      node.operation.isCall = false ∧ (node.operation.isArith = true → node.parents ≤ 1))
    (two : 2 ≤ options.gpRegisters)
    (slots : ∀ path,
      List.IsChain (fun user operand => operand ∈ tree.operandsOf user) (root :: path) →
        (root :: path).countP tree.isArith ≤ options.tempSlots) :
    ∃ compiled after, compile tree signature root work = .ok compiled after := by
  have plainRoot : tree.Plain root := .of_nodes history.built history.integral exist plain
  have registers : 2 ≤ options.allocatable.countIn .generalPurpose := by
    have fewest : (Options.allocatable ⟨2, 0, 0⟩).countIn .generalPurpose = 2 := by decide
    exact fewest ▸ Options.countIn_allocatable_le two (Nat.zero_le _) .generalPurpose
  obtain ⟨after, done, _⟩ := Ledger.manages_within plainRoot tree.size root options.tempSlots exist
    .refl slots (Ledger.sound_opening tree options) registers (Nat.le_refl _)
  have booked := compile_booked history declared exist
  rw [Ledger.outcome, done] at booked
  obtain ⟨compiled, finished, succeeds, _⟩ := booked
  exact ⟨compiled, finished, succeeds⟩

/-- A difference of products of sums has a label of four. It is compiled with two registers and three
slots, since values are parked, and it is not compiled without slots. -/
theorem compile_two_registers_products :
    (∃ label labeled,
      Labeling.root .products 8 (.new ⟨2, 0, 3⟩) = .ok label labeled ∧ label = 4) ∧
    (∃ compiled after,
      compile .products ⟨[.i64], .i64⟩ 8 (.new ⟨2, 0, 3⟩) = .ok compiled after ∧
        0 < compiled.statistics.valuesParked) ∧
    ¬∃ compiled after,
      compile .products ⟨[.i64], .i64⟩ 8 (.new ⟨2, 0, 0⟩) = .ok compiled after := by
  let tree : Tree := .products
  have declared : tree.Declared (⟨[.i64], .i64⟩ : Signature).parameters :=
    Tree.checkParameters_eq_ok.mp rfl
  have all : ∀ node ∈ tree.nodes.toList, node.operation.isCall = false ∧
      (node.operation.isArith = true → node.parents ≤ 1) := by decide
  have leaf : ∀ id ∈ [0, 1], tree.isArith id = false ∧ tree.operandsOf id = [] := by decide
  have sum : ∀ id ∈ [2, 3, 5, 6], ∀ operand ∈ tree.operandsOf id, operand ∈ [0, 1] := by decide
  have product : ∀ id ∈ [4, 7], ∀ operand ∈ tree.operandsOf id, operand ∈ [2, 3, 5, 6] := by
    decide
  have leafDepth (id) (here : id ∈ [0, 1]) : tree.ArithDepthLe id 0 :=
    .of_leaf (leaf id here).1 (leaf id here).2
  have sumDepth (id) (here : id ∈ [2, 3, 5, 6]) : tree.ArithDepthLe id 1 :=
    .of_operands fun operand uses => leafDepth operand (sum id here operand uses)
  have productDepth (id) (here : id ∈ [4, 7]) : tree.ArithDepthLe id 2 :=
    .of_operands fun operand uses => sumDepth operand (product id here operand uses)
  have rootDepth : tree.ArithDepthLe 8 3 := .of_operands productDepth
  obtain ⟨compiled, after, done⟩ :=
    compile_two_registers (.products ⟨2, 0, 3⟩) declared (by decide : 8 < tree.size)
      (fun id node _ found => all node (List.mem_of_getElem? (Array.getElem?_toList.trans found)))
      (by decide) rootDepth
  obtain ⟨_, _, again, parked⟩ : ∃ compiled after,
      compile .products ⟨[.i64], .i64⟩ 8 (.new ⟨2, 0, 3⟩) = .ok compiled after ∧
        0 < compiled.statistics.valuesParked := by decide +kernel
  cases done.symm.trans again
  exact ⟨by decide +kernel, ⟨compiled, after, done, parked⟩, by decide +kernel⟩

end NativeExpr
