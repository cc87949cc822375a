import NativeExpr.Proofs.Generation.Order
import NativeExpr.Proofs.Labeling

/-!
# What labels are

The registers that a node needs follow from those that its operands need and, for a constant or a
parameter, from whether it is a left operand. A node at several positions is labeled once for each
of them; all of them agree, because only a node that is not shared can be told apart by its position
and it has no other. So labeling a root gives every node below it the number that it needs, whatever
its label was before.
-/

namespace NativeExpr

/-- The registers that an operation needs if its operands need certain numbers of them as left
operands and otherwise. -/
def Operation.need (needs : NodeId → Bool → Nat) (isLeft : Bool) : Operation → Nat
  | .constant _ | .parameter _ => if isLeft then 1 else 0
  | .arith _ left right => Labeling.combine (needs left true) (needs right false)
  | .call _ [] => 0
  | .call _ (first :: rest) =>
    rest.foldl (fun count argument => Labeling.combine count (needs argument false))
      (needs first true)

/-- The registers that a node needs; a value that is kept for several uses needs at least one. -/
def Node.need (needs : NodeId → Bool → Nat) (isLeft : Bool) (node : Node) : Nat :=
  let count := node.operation.need needs isLeft
  if node.isShared then max count 1 else count

/-- The operand that an operation evaluates as a left operand. -/
def Operation.leading? : Operation → Option NodeId
  | .arith _ left _ => some left
  | .call _ (first :: _) => some first
  | _ => none

/-- The other operands, at each of their positions. -/
def Operation.trailing : Operation → List NodeId
  | .constant _ | .parameter _ => []
  | .arith _ _ right => [right]
  | .call function arguments => function :: arguments.tail

namespace Tree

/-- The registers that nodes of at most the given depth need. -/
def needWithin (tree : Tree) : Nat → NodeId → Bool → Nat
  | 0, _, _ => 0
  | depth + 1, id, isLeft =>
    match tree.node? id with
    | some node => node.need (tree.needWithin depth) isLeft
    | none => 0

/-- The registers that a node needs as a left operand or not. -/
def need (tree : Tree) (id : NodeId) (isLeft : Bool) : Nat := tree.needWithin tree.size id isLeft

/-- Whether a node is the left operand of some node. -/
def leads (tree : Tree) (id : NodeId) : Bool :=
  tree.nodes.toList.any fun node => node.operation.leading? == some id

/-- The registers that a node needs where it is an operand. -/
def operandNeed (tree : Tree) (id : NodeId) : Nat := tree.need id (tree.leads id)

/-- The labels that nodes have after a root has been labeled. -/
def labelBelow (tree : Tree) (root : NodeId) : NodeId → Nat :=
  Function.update tree.operandNeed root (tree.need root true)

end Tree

theorem Operation.perm_leading_trailing (operation : Operation) :
    (operation.leading?.toList ++ operation.trailing).Perm operation.operands := by
  cases operation with
  | constant bits | parameter index | arith operation left right => exact .refl _
  | call function arguments =>
    cases arguments with
    | nil => exact .refl _
    | cons first rest => exact .swap ..

theorem Operation.need_congr {needs others : NodeId → Bool → Nat} {operation : Operation}
    (same : ∀ operand ∈ operation.operands, needs operand = others operand) (isLeft : Bool) :
    operation.need needs isLeft = operation.need others isLeft := by
  cases operation with
  | constant bits | parameter index => rfl
  | arith operation left right =>
    simp only [need, same left (by simp [operands]), same right (by simp [operands])]
  | call function arguments =>
    cases arguments with
    | nil => rfl
    | cons first rest =>
      have later : ∀ argument ∈ rest, needs argument = others argument :=
        fun argument member => same argument (by simp [operands, member])
      simp only [need, same first (by simp [operands])]
      apply List.foldl_ext
      intro count argument member
      rw [later argument member]

namespace Tree

variable {tree : Tree} {id operand : NodeId} {node : Node} {isLeft : Bool}

/-- Every depth beyond a node gives it the same need. -/
theorem Layered.needWithin_eq (layered : tree.Layered) (id : NodeId) :
    ∀ {first second : Nat}, id < first → id < second →
      tree.needWithin first id = tree.needWithin second id := by
  induction id using Nat.strongRecOn with
  | ind id ih =>
    intro first second firstDeep secondDeep
    obtain ⟨first, rfl⟩ := Nat.exists_eq_add_of_lt firstDeep
    obtain ⟨second, rfl⟩ := Nat.exists_eq_add_of_lt secondDeep
    funext isLeft
    simp only [needWithin]
    cases found : tree.node? id with
    | none => rfl
    | some node =>
      have operation := Operation.need_congr (fun operand member => by
        have older := layered id operand (operandsOf_of_node found ▸ member)
        exact ih operand older (Nat.lt_add_right first older) (Nat.lt_add_right second older)) isLeft
      simp only [Node.need, operation]

/-- What a node needs follows from what its operands need. -/
theorem Layered.need_eq (layered : tree.Layered) (found : tree.node? id = some node)
    (isLeft : Bool) :
    tree.need id isLeft = node.need tree.need isLeft := by
  have within : id < tree.size := lt_size_of_node found
  have deeper : tree.need id isLeft = tree.needWithin (tree.size + 1) id isLeft :=
    congrFun (layered.needWithin_eq id within (Nat.lt_succ_of_lt within)) isLeft
  rw [deeper]
  simp only [needWithin, found]
  rfl

/-- Only a constant or a parameter that is not shared can be told apart by its position. -/
theorem Layered.need_of_shared (layered : tree.Layered) (found : tree.node? id = some node)
    (shared : node.isShared = true) (first second : Bool) :
    tree.need id first = tree.need id second := by
  rw [layered.need_eq found, layered.need_eq found]
  simp only [Node.need, shared, if_true]
  cases node.operation with
  | constant bits | parameter index => cases first <;> cases second <;> rfl
  | arith operation left right => rfl
  | call function arguments => cases arguments <;> rfl

theorem leads_iff : tree.leads id = true ↔
    ∃ user node, tree.node? user = some node ∧ node.operation.leading? = some id := by
  simp only [leads, List.any_eq_true, beq_iff_eq]
  constructor
  · rintro ⟨node, listed, leading⟩
    obtain ⟨user, found⟩ := List.mem_iff_getElem?.mp listed
    exact ⟨user, node, Array.getElem?_toList.symm.trans found, leading⟩
  · rintro ⟨user, node, found, leading⟩
    exact ⟨node, List.mem_of_getElem? (Array.getElem?_toList.trans found), leading⟩

theorem need_of_leading (found : tree.node? id = some node)
    (leading : node.operation.leading? = some operand) :
    tree.need operand true = tree.operandNeed operand := by
  rw [operandNeed, leads_iff.mpr ⟨id, node, found, leading⟩]

/-- A node that one user has as a left operand and one at another position is used twice. -/
theorem two_le_uses {user : NodeId} {other : Node} (found : tree.node? id = some node)
    (trailing : operand ∈ node.operation.trailing) (userFound : tree.node? user = some other)
    (leading : other.operation.leading? = some operand) : 2 ≤ tree.uses operand := by
  have count {position : NodeId} {each : Node} (here : tree.node? position = some each) :
      (tree.operandsOf position).count operand =
        each.operation.leading?.toList.count operand + each.operation.trailing.count operand := by
    rw [operandsOf_of_node here, ← each.operation.perm_leading_trailing.count_eq,
      List.count_append]
  have uses (users : List NodeId) (distinct : users.Nodup)
      (within : ∀ each ∈ users, each < tree.size) :
      (users.map fun each => (tree.operandsOf each).count operand).sum ≤ tree.uses operand :=
    Generation.sum_count_le_uses (fun each _ _ => List.nodup_iff_count.mp distinct each) within
  have later : 0 < node.operation.trailing.count operand := List.count_pos_iff.mpr trailing
  have earlier : 0 < other.operation.leading?.toList.count operand := by simp [leading]
  by_cases same : user = id
  · subst same
    obtain rfl := Option.some.inj (userFound.symm.trans found)
    have one := uses [user] (by simp) (by simpa using lt_size_of_node found)
    simp only [List.map_cons, List.map_nil, List.sum_cons, List.sum_nil, count found] at one
    omega
  · have two := uses [user, id] (by simpa using same)
      (by simpa using ⟨lt_size_of_node userFound, lt_size_of_node found⟩)
    simp only [List.map_cons, List.map_nil, List.sum_cons, List.sum_nil, count found,
      count userFound] at two
    omega

/-- An operand that is a left operand elsewhere is shared, so its position makes no difference. -/
theorem Layered.need_of_trailing (layered : tree.Layered) (counted : tree.Counted)
    (found : tree.node? id = some node) (trailing : operand ∈ node.operation.trailing) :
    tree.need operand false = tree.operandNeed operand := by
  cases leads : tree.leads operand with
  | false => rw [operandNeed, leads]
  | true =>
    obtain ⟨user, other, userFound, leading⟩ := leads_iff.mp leads
    have member : operand ∈ node.operation.operands :=
      node.operation.perm_leading_trailing.mem_iff.mp (List.mem_append_right _ trailing)
    have within : operand < tree.size :=
      Nat.lt_trans (layered id operand (operandsOf_of_node found ▸ member)) (lt_size_of_node found)
    have operandFound : tree.node? operand = some tree.nodes[operand] :=
      Array.getElem?_eq_getElem within
    have shared : tree.nodes[operand].isShared = true := by
      have many := two_le_uses found trailing userFound leading
      rw [← counted operand _ operandFound] at many
      exact decide_eq_true many
    rw [operandNeed, leads]
    exact layered.need_of_shared operandFound shared false true

end Tree

/-- Whether labeling some nodes has given everything that they need the label that it needs as an
operand, and has changed nothing else. -/
structure Workspace.Settles (tree : Tree) (roots : List NodeId) (before after : Workspace) :
    Prop where
  only : Labeling.LabelsOnly before after
  reached : ∀ root ∈ roots, ∀ id, tree.Reaches root id →
    after.labels[id]? = some (tree.operandNeed id)
  others : ∀ id, (∀ root ∈ roots, ¬tree.Reaches root id) → after.labels[id]? = before.labels[id]?

namespace Workspace.Settles

variable {tree : Tree} {roots others : List NodeId} {before between after : Workspace} {id : NodeId}

theorem refl (tree : Tree) (work : Workspace) : Settles tree [] work work where
  only := .refl work
  reached _ listed := (List.not_mem_nil listed).elim
  others _ _ := rfl

theorem trans (first : Settles tree roots before between)
    (second : Settles tree others between after) :
    Settles tree (roots ++ others) before after where
  only := first.only.trans second.only
  reached root listed id reaches := by
    by_cases again : ∃ other ∈ others, tree.Reaches other id
    · obtain ⟨other, otherListed, otherReaches⟩ := again
      exact second.reached other otherListed id otherReaches
    · rw [second.others id fun other listed reaches => again ⟨other, listed, reaches⟩]
      rcases List.mem_append.mp listed with listed | listed
      · exact first.reached root listed id reaches
      · exact absurd ⟨root, listed, reaches⟩ again
  others id apart := by
    rw [second.others id fun root listed => apart root (List.mem_append_right roots listed)]
    exact first.others id fun root listed => apart root (List.mem_append_left others listed)

theorem perm (settles : Settles tree roots before after) (same : roots.Perm others) :
    Settles tree others before after where
  only := settles.only
  reached root listed := settles.reached root (same.mem_iff.mpr listed)
  others id apart := settles.others id fun root listed => apart root (same.mem_iff.mp listed)

/-- A node is settled when its operands are and it has its own label. -/
theorem insert (settles : Settles tree (tree.operandsOf id) before between) :
    Settles tree [id] before
      { between with labels := between.labels.insert id (tree.operandNeed id) } where
  only := by
    have only := settles.only
    rw [Labeling.LabelsOnly] at only ⊢
    rw [only]
  reached root listed other reaches := by
    obtain rfl := List.mem_singleton.mp listed
    rw [Std.TreeMap.getElem?_insert]
    by_cases here : root = other
    · simp [here]
    · rcases reaches.cases_head with same | ⟨operand, uses, reaches⟩
      · exact absurd same here
      · simpa [here] using settles.reached operand uses other reaches
  others other apart := by
    have different : id ≠ other := fun same => apart id (List.mem_singleton_self id) (same ▸ .refl)
    rw [Std.TreeMap.getElem?_insert]
    simpa [different] using settles.others other fun operand uses reaches =>
      apart id (List.mem_singleton_self id) (.head uses reaches)

/-- The label of a node that is settled is found. -/
theorem label_ok (settles : Settles tree roots before after) (listed : id ∈ roots)
    (within : id < tree.size) : Build.label tree id after = .ok (tree.operandNeed id) after := by
  rw [Build.label_eq (Array.getElem?_eq_getElem within), settles.reached id listed id .refl]

end Workspace.Settles

namespace Labeling

/-- Whether a visit labels a node with what it needs, after its operands have been settled. -/
def Visit.Settles (tree : Tree) (visit : Visit) (id : NodeId) : Prop :=
  ∀ isLeft work, ∃ between, work.Settles tree (tree.operandsOf id) between ∧
    visit id isLeft work = .ok (tree.need id isLeft)
      { between with labels := between.labels.insert id (tree.need id isLeft) }

variable {tree : Tree} {visit : Visit} {id : NodeId}

/-- A node that is visited as an operand is settled. -/
theorem Visit.Settles.operand (visits : visit.Settles tree id) {isLeft : Bool}
    (need : tree.need id isLeft = tree.operandNeed id) (work : Workspace) :
    ∃ after, visit id isLeft work = .ok (tree.operandNeed id) after ∧
      work.Settles tree [id] after := by
  obtain ⟨between, settles, done⟩ := visits isLeft work
  rw [need] at done
  exact ⟨_, done, settles.insert⟩

/-- Arguments after the first are settled one after the other. -/
theorem settles_laterArguments {rest : List NodeId}
    (visits : ∀ argument ∈ rest, visit.Settles tree argument)
    (within : ∀ argument ∈ rest, argument < tree.size)
    (needs : ∀ argument ∈ rest, tree.need argument false = tree.operandNeed argument)
    (count : Nat) (work : Workspace) :
    ∃ after, laterArguments tree visit count rest work =
        .ok (rest.foldl (fun count argument => combine count (tree.need argument false)) count) after ∧
      work.Settles tree rest after := by
  induction rest generalizing count work with
  | nil => exact ⟨work, rfl, .refl tree work⟩
  | cons argument rest ih =>
    have here := needs argument List.mem_cons_self
    obtain ⟨between, visited, first⟩ := (visits argument List.mem_cons_self).operand here work
    obtain ⟨after, later, second⟩ := ih
      (fun other listed => visits other (List.mem_cons_of_mem _ listed))
      (fun other listed => within other (List.mem_cons_of_mem _ listed))
      (fun other listed => needs other (List.mem_cons_of_mem _ listed))
      (combine count (tree.need argument false)) between
    refine ⟨after, ?_, first.trans second⟩
    have labeled :=
      first.label_ok (List.mem_singleton_self argument) (within argument List.mem_cons_self)
    simp only [laterArguments, estate_bind_eq_ok]
    exact ⟨_, _, visited, _, _, labeled, here ▸ later⟩

/-- The arguments of a call are settled, and it is counted what they need together. -/
theorem settles_arguments {function : NodeId} {operands : List NodeId}
    (visits : ∀ operand ∈ operands, visit.Settles tree operand)
    (within : ∀ operand ∈ operands, operand < tree.size)
    (leading : ∀ operand, (Operation.call function operands).leading? = some operand →
      tree.need operand true = tree.operandNeed operand)
    (trailing : ∀ operand ∈ operands.tail, tree.need operand false = tree.operandNeed operand)
    (isLeft : Bool) (work : Workspace) :
    ∃ after, arguments tree visit operands work =
        .ok ((Operation.call function operands).need tree.need isLeft) after ∧
      work.Settles tree operands after := by
  cases operands with
  | nil => exact ⟨work, rfl, .refl tree work⟩
  | cons first rest =>
    have need := leading first rfl
    obtain ⟨between, visited, settled⟩ := (visits first List.mem_cons_self).operand need work
    have labeled := settled.label_ok (List.mem_singleton_self first) (within first List.mem_cons_self)
    obtain ⟨after, later, others⟩ := settles_laterArguments
      (fun argument listed => visits argument (List.mem_cons_of_mem first listed))
      (fun argument listed => within argument (List.mem_cons_of_mem first listed))
      trailing (tree.need first true) between
    refine ⟨after, ?_, settled.trans others⟩
    simp only [arguments, estate_bind_eq_ok]
    exact ⟨_, _, visited, _, _, labeled, need ▸ later⟩

/-- The operands of an operation are settled, and it is counted what it needs. -/
theorem settles_operation (layered : tree.Layered) (counted : tree.Counted) {node : Node}
    (found : tree.node? id = some node)
    (visits : ∀ operand ∈ node.operation.operands, visit.Settles tree operand) (isLeft : Bool)
    (work : Workspace) :
    ∃ after, operation tree visit isLeft node.operation work =
        .ok (node.operation.need tree.need isLeft) after ∧
      work.Settles tree node.operation.operands after := by
  have within : ∀ operand ∈ node.operation.operands, operand < tree.size := fun operand member =>
    Nat.lt_trans (layered id operand (Tree.operandsOf_of_node found ▸ member))
      (Tree.lt_size_of_node found)
  have leading : ∀ operand, node.operation.leading? = some operand →
      tree.need operand true = tree.operandNeed operand := fun _ leads =>
    Tree.need_of_leading found leads
  have trailing : ∀ operand ∈ node.operation.trailing,
      tree.need operand false = tree.operandNeed operand := fun _ trails =>
    layered.need_of_trailing counted found trails
  cases here : node.operation with
  | constant bits | parameter index => exact ⟨work, rfl, .refl tree work⟩
  | arith combination left right =>
    rw [here] at visits within leading trailing
    have leftListed : left ∈ [left, right] := List.mem_cons_self
    have rightListed : right ∈ [left, right] :=
      List.mem_cons_of_mem left (List.mem_singleton_self right)
    have leftNeed := leading left rfl
    have rightNeed := trailing right (List.mem_singleton_self right)
    obtain ⟨between, leftVisited, first⟩ := (visits left leftListed).operand leftNeed work
    obtain ⟨after, rightVisited, second⟩ := (visits right rightListed).operand rightNeed between
    have settles := first.trans second
    refine ⟨after, ?_, settles⟩
    simp only [operation, estate_bind_eq_ok, estate_pure_eq_ok, Operation.need, leftNeed, rightNeed]
    exact ⟨_, _, leftVisited, _, _, rightVisited, _, _,
      settles.label_ok leftListed (within left leftListed), _, _,
      settles.label_ok rightListed (within right rightListed), rfl, rfl⟩
  | call function operands =>
    rw [here] at visits within leading trailing
    have functionNeed := trailing function List.mem_cons_self
    obtain ⟨between, counted, first⟩ := settles_arguments
      (fun argument listed => visits argument (List.mem_cons_of_mem function listed))
      (fun argument listed => within argument (List.mem_cons_of_mem function listed))
      leading (fun argument listed => trailing argument (List.mem_cons_of_mem function listed))
      isLeft work
    obtain ⟨after, visited, second⟩ :=
      (visits function List.mem_cons_self).operand functionNeed between
    refine ⟨after, ?_, (first.trans second).perm List.perm_append_comm⟩
    simp only [operation, estate_bind_eq_ok, estate_pure_eq_ok]
    exact ⟨_, _, counted, _, _, visited, rfl, rfl⟩

/-- Every node is labeled with what it needs. -/
theorem settles_within (layered : tree.Layered) (counted : tree.Counted) (depth : Nat) :
    ∀ id, id < tree.size → id < depth → Visit.Settles tree (within tree depth) id := by
  induction depth with
  | zero => exact fun id _ deep => absurd deep (Nat.not_lt_zero id)
  | succ depth ih =>
    intro id exist deep isLeft work
    have found : tree.node? id = some tree.nodes[id] := Array.getElem?_eq_getElem exist
    have visits : ∀ operand ∈ tree.nodes[id].operation.operands,
        Visit.Settles tree (within tree depth) operand := fun operand member => by
      have older := layered id operand (Tree.operandsOf_of_node found ▸ member)
      exact ih operand (Nat.lt_trans older exist)
        (Nat.lt_of_lt_of_le older (Nat.le_of_lt_succ deep))
    obtain ⟨between, done, settles⟩ :=
      settles_operation layered counted found visits isLeft work
    rw [← Tree.operandsOf_of_node found] at settles
    refine ⟨between, settles, ?_⟩
    rw [layered.need_eq found]
    simp only [within, node, estate_bind_eq_ok, Build.lift_eq_ok, estate_modify_eq_ok,
      estate_pure_eq_ok]
    exact ⟨_, work, ⟨Build.node_ok found, rfl⟩, _, between, done, (), _, rfl, rfl, rfl⟩

/-- Labeling a root succeeds. The root is labeled as a left operand, everything below it with what
it needs as an operand, and nothing else is changed. -/
theorem root_settles (layered : tree.Layered) (counted : tree.Counted) (exist : id < tree.size)
    (work : Workspace) :
    ∃ labeled, root tree id work = .ok (tree.need id true) labeled ∧ LabelsOnly work labeled ∧
      (∀ other, tree.Reaches id other → labeled.labels[other]? = some (tree.labelBelow id other)) ∧
      ∀ other, ¬tree.Reaches id other → labeled.labels[other]? = work.labels[other]? := by
  obtain ⟨between, settles, done⟩ :=
    settles_within layered counted tree.size id exist exist true work
  refine ⟨_, done, ?_, fun other reaches => ?_, fun other apart => ?_⟩
  · have only := settles.only
    rw [LabelsOnly] at only ⊢
    rw [only]
  · rw [Std.TreeMap.getElem?_insert, Tree.labelBelow]
    by_cases here : id = other
    · subst here
      simp
    · rcases reaches.cases_head with same | ⟨operand, uses, reaches⟩
      · exact absurd same here
      · simpa [here, Ne.symm here] using settles.reached operand uses other reaches
  · rw [Std.TreeMap.getElem?_insert]
    have different : id ≠ other := fun same => apart (same ▸ .refl)
    simpa [different] using settles.others other fun operand uses reaches =>
      apart (.head uses reaches)

end Labeling

end NativeExpr
