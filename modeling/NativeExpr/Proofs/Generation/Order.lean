import Mathlib.Data.List.Perm.Subperm
import NativeExpr.Proofs.Sharing

/-!
# The order of generation

Operands are generated before the node that uses them, those with larger labels first, and a
node whose value is kept is not generated again. `Generation.order` lists the nodes in the order
in which they are generated. A node that is not shared is used at one operand position only, so
no node is listed twice.
-/

namespace NativeExpr

namespace Generation

/-- Puts a node in front of the first one that does not have a larger label. -/
def insertOperand (label : NodeId → Nat) (id : NodeId) : List NodeId → List NodeId
  | [] => [id]
  | next :: rest =>
    if label next ≤ label id then id :: next :: rest else next :: insertOperand label id rest

/-- Nodes ordered by their labels, the largest first. -/
def heaviestFirst (label : NodeId → Nat) : List NodeId → List NodeId
  | [] => []
  | id :: rest => insertOperand label id (heaviestFirst label rest)

/-- The operands of an operation in the order in which they are evaluated. -/
def sequence (label : NodeId → Nat) : Operation → List NodeId
  | .constant _ | .parameter _ => []
  | .arith _ left right => if label left < label right then [right, left] else [left, right]
  | .call function arguments => heaviestFirst label arguments ++ [function]

/-- The nodes whose values are kept after some have been generated. -/
def keeping (tree : Tree) (kept : NodeId → Bool) (made : List NodeId) : NodeId → Bool :=
  fun id => kept id || (made.contains id && tree.isShared id)

/-- Which nodes are generated for a node if nodes have certain labels and the values of some
nodes are kept. -/
abbrev Plan := (NodeId → Nat) → (NodeId → Bool) → NodeId → List NodeId

/-- The nodes that are generated for several nodes one after the other. -/
def inTurn (tree : Tree) (visit : (NodeId → Bool) → NodeId → List NodeId) :
    (NodeId → Bool) → List NodeId → List NodeId
  | _, [] => []
  | kept, id :: rest =>
    visit kept id ++ inTurn tree visit (keeping tree kept (visit kept id)) rest

/-- A plan for nodes, made of one for their operands: the nodes that are generated for the
operands, and then the node itself. Nothing is generated for a node whose value is kept. -/
def Plan.deepen (tree : Tree) (plan : Plan) : Plan := fun label kept id =>
  if kept id then []
  else
    match tree.node? id with
    | some node => inTurn tree (plan label) kept (sequence label node.operation) ++ [id]
    | none => []

/-- The nodes that are generated for a node of at most the given depth, in their order. -/
def order (tree : Tree) : Nat → Plan
  | 0 => fun _ _ _ => []
  | depth + 1 => (order tree depth).deepen tree

theorem perm_insertOperand (label : NodeId → Nat) (id : NodeId) (others : List NodeId) :
    (insertOperand label id others).Perm (id :: others) := by
  induction others with
  | nil => exact .refl _
  | cons next rest ih =>
    rw [insertOperand]
    split
    · exact .refl _
    · exact (ih.cons next).trans (.swap id next rest)

theorem perm_heaviestFirst (label : NodeId → Nat) (operands : List NodeId) :
    (heaviestFirst label operands).Perm operands := by
  induction operands with
  | nil => exact .refl _
  | cons id rest ih => exact (perm_insertOperand label id _).trans (ih.cons id)

@[simp] theorem keeping_nil (tree : Tree) (kept : NodeId → Bool) : keeping tree kept [] = kept := by
  funext id
  simp [keeping]

theorem keeping_append (tree : Tree) (kept : NodeId → Bool) (first second : List NodeId) :
    keeping tree kept (first ++ second) = keeping tree (keeping tree kept first) second := by
  funext id
  simp only [keeping, List.contains_append, Bool.and_or_distrib_right, Bool.or_assoc]

theorem keeping_eq_true {tree : Tree} {kept : NodeId → Bool} {made : List NodeId} {id : NodeId} :
    keeping tree kept made id = true ↔ kept id = true ∨ id ∈ made ∧ tree.isShared id = true := by
  simp only [keeping, Bool.or_eq_true, Bool.and_eq_true, List.contains_iff_mem]

/-- The value of a node that is not shared is not kept. -/
theorem keeping_of_unshared {tree : Tree} {id : NodeId} (single : tree.isShared id = false)
    (kept : NodeId → Bool) : keeping tree kept [id] = kept := by
  funext other
  rw [Bool.eq_iff_iff, keeping_eq_true, or_iff_left]
  rintro ⟨member, share⟩
  obtain rfl := List.mem_singleton.mp member
  exact absurd share (Bool.eq_false_iff.mp single)

/-- What is kept at last was kept before or has been generated. -/
theorem made_or_kept {tree : Tree} {kept : NodeId → Bool} {made : List NodeId} {id : NodeId}
    (keeps : keeping tree kept made id = true) : id ∈ made ∨ kept id = true :=
  (keeping_eq_true.mp keeps).symm.imp_left And.left

/-- An element of two lists that are put together is in the first one or in the second one. -/
theorem split_append {first second earlier later : List NodeId} {id : NodeId}
    (split : first ++ second = earlier ++ id :: later) :
    (∃ rest, first = earlier ++ id :: rest) ∨
      ∃ rest, earlier = first ++ rest ∧ second = rest ++ id :: later := by
  rcases List.append_eq_append_iff.mp split with ⟨rest, rfl, tail⟩ | ⟨rest, rfl, tail⟩
  · exact .inr ⟨rest, rfl, tail⟩
  · cases rest with
    | nil => exact .inr ⟨[], by simp, tail.symm⟩
    | cons head rest =>
      obtain ⟨rfl, _⟩ := List.cons.inj tail
      exact .inl ⟨rest, rfl⟩

theorem inTurn_append (tree : Tree) (visit : (NodeId → Bool) → NodeId → List NodeId)
    (kept : NodeId → Bool) (first second : List NodeId) :
    inTurn tree visit kept (first ++ second) = inTurn tree visit kept first ++
      inTurn tree visit (keeping tree kept (inTurn tree visit kept first)) second := by
  induction first generalizing kept with
  | nil => simp [inTurn]
  | cons id rest ih => simp [inTurn, ih, keeping_append]

theorem inTurn_concat (tree : Tree) (visit : (NodeId → Bool) → NodeId → List NodeId)
    (kept : NodeId → Bool) (first : List NodeId) (last : NodeId) :
    inTurn tree visit kept (first ++ [last]) = inTurn tree visit kept first ++
      visit (keeping tree kept (inTurn tree visit kept first)) last := by
  rw [inTurn_append, inTurn, inTurn, List.append_nil]

/-- Every operand is evaluated, at each of its positions. -/
theorem perm_sequence (label : NodeId → Nat) (operation : Operation) :
    (sequence label operation).Perm operation.operands := by
  cases operation with
  | constant bits | parameter index => exact .refl _
  | arith operation left right =>
    rw [sequence]
    split
    · exact .swap ..
    · exact .refl _
  | call function arguments =>
    exact List.perm_append_comm.trans ((perm_heaviestFirst label arguments).cons function)

/-- What there is to say of the nodes that are generated when some are asked for: a node that is
not shared is generated whenever it is asked for or used, a shared one at most once and not at
all if its value is kept, and every node after its operands. -/
structure Ordered (tree : Tree) (kept : NodeId → Bool) (asked made : List NodeId) : Prop where
  single : ∀ id, tree.isShared id = false →
    made.count id = asked.count id + (made.map fun user => (tree.operandsOf user).count id).sum
  shared : ∀ id, tree.isShared id = true → made.count id ≤ 1
  fresh : ∀ id ∈ made, kept id = false
  covers : ∀ id ∈ asked, id ∈ made ∨ kept id = true
  operands : ∀ earlier user later, made = earlier ++ user :: later →
    ∀ operand ∈ tree.operandsOf user, operand ∈ earlier ∨ kept operand = true
  reached : ∀ id ∈ made, ∃ root ∈ asked, tree.Reaches root id

variable {tree : Tree} {label : NodeId → Nat} {kept : NodeId → Bool} {id root : NodeId}
variable {asked others made more : List NodeId} {depth : Nat}

theorem ordered_nil (tree : Tree) (kept : NodeId → Bool) : Ordered tree kept [] [] where
  single _ _ := by simp
  shared _ _ := by simp
  fresh _ member := (List.not_mem_nil member).elim
  covers _ member := (List.not_mem_nil member).elim
  operands earlier user later split := by simp at split
  reached _ member := (List.not_mem_nil member).elim

/-- A node whose value is kept is not generated again. -/
theorem ordered_of_kept (keeps : kept id = true) (share : tree.isShared id = true) :
    Ordered tree kept [id] [] where
  single other unshared := by
    have different : id ≠ other := by
      rintro rfl
      rw [share] at unshared
      cases unshared
    simp [different]
  shared _ _ := by simp
  fresh _ member := (List.not_mem_nil member).elim
  covers other member := .inr (List.mem_singleton.mp member ▸ keeps)
  operands earlier user later split := by simp at split
  reached _ member := (List.not_mem_nil member).elim

theorem Ordered.append (first : Ordered tree kept asked made)
    (second : Ordered tree (keeping tree kept made) others more) :
    Ordered tree kept (asked ++ others) (made ++ more) where
  single id unshared := by
    have here := first.single id unshared
    have there := second.single id unshared
    simp only [List.count_append, List.map_append, List.sum_append]
    omega
  shared id share := by
    rw [List.count_append]
    have here := first.shared id share
    have there := second.shared id share
    by_cases member : id ∈ made
    · have absent : id ∉ more := by
        intro again
        have fresh := second.fresh id again
        simp [keeping, member, share] at fresh
      rw [List.count_eq_zero_of_not_mem absent]
      omega
    · rw [List.count_eq_zero_of_not_mem member]
      omega
  fresh id member := by
    rcases List.mem_append.mp member with member | member
    · exact first.fresh id member
    · have fresh := second.fresh id member
      simp only [keeping, Bool.or_eq_false_iff] at fresh
      exact fresh.1
  covers id member := by
    rcases List.mem_append.mp member with member | member
    · exact (first.covers id member).imp_left (List.mem_append_left more)
    · rcases second.covers id member with later | keeps
      · exact .inl (List.mem_append_right made later)
      · exact (made_or_kept keeps).imp_left (List.mem_append_left more)
  operands earlier user later split operand member := by
    rcases split_append split with ⟨rest, rfl⟩ | ⟨rest, rfl, tail⟩
    · exact first.operands earlier user rest rfl operand member
    · rcases second.operands rest user later tail operand member with listed | keeps
      · exact .inl (List.mem_append_right made listed)
      · exact (made_or_kept keeps).imp_left (List.mem_append_left rest)
  reached id member := by
    rcases List.mem_append.mp member with member | member
    · obtain ⟨root, listed, reaches⟩ := first.reached id member
      exact ⟨root, List.mem_append_left others listed, reaches⟩
    · obtain ⟨root, listed, reaches⟩ := second.reached id member
      exact ⟨root, List.mem_append_right asked listed, reaches⟩

/-- A node is generated after its operands, and not among them. -/
theorem Ordered.node (ordered : Ordered tree kept asked made) (formed : tree.Formed)
    (same : asked.Perm (tree.operandsOf id)) (unkept : kept id = false) :
    Ordered tree kept [id] (made ++ [id]) where
  single other unshared := by
    have operands := ordered.single other unshared
    rw [same.count_eq] at operands
    simp only [List.count_append, List.map_append, List.sum_append, List.map_cons, List.map_nil,
      List.sum_cons, List.sum_nil]
    omega
  shared other share := by
    rw [List.count_append]
    have before := ordered.shared other share
    by_cases here : other = id
    · subst here
      have absent : other ∉ made := by
        intro member
        obtain ⟨root, listed, reaches⟩ := ordered.reached other member
        exact absurd (formed.operandsOf_lt (same.mem_iff.mp listed))
          (Nat.not_lt.mpr (formed.le_of_reaches reaches))
      rw [List.count_eq_zero_of_not_mem absent]
      simp
    · simpa [List.count_cons, Ne.symm here] using before
  fresh other member := by
    rcases List.mem_append.mp member with member | member
    · exact ordered.fresh other member
    · exact List.mem_singleton.mp member ▸ unkept
  covers other member := .inl (List.mem_append_right made member)
  operands earlier user later split operand member := by
    rcases split_append split with ⟨rest, rfl⟩ | ⟨rest, rfl, tail⟩
    · exact ordered.operands earlier user rest rfl operand member
    · obtain ⟨rfl, last⟩ | ⟨_, none⟩ := List.singleton_eq_append_iff.mp tail
      · obtain ⟨rfl, _⟩ := List.cons.inj last
        simpa using ordered.covers operand (same.mem_iff.mpr member)
      · cases none
  reached other member := by
    refine ⟨id, List.mem_singleton_self id, ?_⟩
    rcases List.mem_append.mp member with member | member
    · obtain ⟨root, listed, reaches⟩ := ordered.reached other member
      exact .head (same.mem_iff.mp listed) reaches
    · exact List.mem_singleton.mp member ▸ .refl

/-- Nodes that are generated one after the other. -/
theorem ordered_inTurn {visit : (NodeId → Bool) → NodeId → List NodeId}
    (visits : ∀ kept id, (∀ other, kept other = true → tree.isShared other = true) → id ∈ asked →
      Ordered tree kept [id] (visit kept id))
    (shared : ∀ other, kept other = true → tree.isShared other = true) :
    Ordered tree kept asked (inTurn tree visit kept asked) := by
  induction asked generalizing kept with
  | nil => exact ordered_nil tree kept
  | cons id rest ih =>
    refine (visits kept id shared List.mem_cons_self).append
      (ih (fun kept other shared member => visits kept other shared (List.mem_cons_of_mem id member))
        fun other keeps => ?_)
    exact (keeping_eq_true.mp keeps).elim (shared other) And.right

/-- The order of generation is one in which every node comes after its operands. -/
theorem ordered_order (formed : tree.Formed) (label : NodeId → Nat) (deep : id < depth)
    (found : id < tree.size) (shared : ∀ other, kept other = true → tree.isShared other = true) :
    Ordered tree kept [id] (order tree depth label kept id) := by
  induction depth generalizing kept id with
  | zero => exact absurd deep (Nat.not_lt_zero id)
  | succ depth ih =>
    rw [order, Plan.deepen]
    split
    · rename_i keeps
      exact ordered_of_kept keeps (shared id keeps)
    · rename_i unkept
      have node : tree.node? id = some tree.nodes[id] := Array.getElem?_eq_getElem found
      simp only [node]
      have same := perm_sequence label tree.nodes[id].operation
      rw [← Tree.operandsOf_of_node node] at same
      refine Ordered.node (ordered_inTurn (fun kept operand shared member => ?_) shared) formed same
        (by simpa using unkept)
      have below := formed.operandsOf_lt (same.mem_iff.mp member)
      exact ih (Nat.lt_of_lt_of_le below (Nat.lt_succ_iff.mp deep)) (Nat.lt_trans below found) shared

/-- The uses by different nodes are among all uses. -/
theorem sum_count_le_uses (single : ∀ user ∈ made, id ∈ tree.operandsOf user → made.count user ≤ 1)
    (within : ∀ user ∈ made, user < tree.size) :
    (made.map fun user => (tree.operandsOf user).count id).sum ≤ tree.uses id := by
  let users := made.filter fun user => id ∈ tree.operandsOf user
  have dropped : (made.map fun user => (tree.operandsOf user).count id).sum =
      (users.map fun user => (tree.operandsOf user).count id).sum := by
    clear single within
    induction made with
    | nil => rfl
    | cons user rest ih =>
      by_cases uses : id ∈ tree.operandsOf user
      · simp_all [users]
      · simp_all [users, List.count_eq_zero_of_not_mem uses]
  have distinct : users.Nodup := by
    rw [List.nodup_iff_count]
    intro user
    by_cases member : user ∈ users
    · obtain ⟨listed, uses⟩ := List.mem_filter.mp member
      exact Nat.le_trans (List.filter_sublist.count_le user) (single user listed (by simpa using uses))
    · rw [List.count_eq_zero_of_not_mem member]
      exact Nat.zero_le 1
  have among : users.Subperm (List.range tree.size) := by
    apply distinct.subperm
    intro user member
    exact List.mem_range.mpr (within user (List.mem_filter.mp member).1)
  obtain ⟨some, same, sublist⟩ := among
  rw [dropped, ← (same.map _).sum_eq]
  exact (sublist.map _).sum_le_sum fun _ _ => Nat.zero_le _

/-- If the parents of nodes are counted right, as counters of 32 bits do in trees of fewer than 2 ^ 32
operand positions, then no node is generated twice. -/
theorem Ordered.nodup (ordered : Ordered tree (fun _ => false) [root] made) (formed : tree.Formed)
    (found : root < tree.size)
    (counted : tree.Counted) : made.Nodup := by
  rw [List.nodup_iff_count]
  have below : ∀ user ∈ made, user ≤ root := by
    intro user member
    obtain ⟨_, listed, reaches⟩ := ordered.reached user member
    exact List.mem_singleton.mp listed ▸ formed.le_of_reaches reaches
  -- The uses of a node are by later nodes, so the induction goes down from the root.
  intro id
  induction distance : root - id using Nat.strongRecOn generalizing id with
  | ind distance ih =>
    subst distance
    by_cases member : id ∈ made
    case neg => exact (List.count_eq_zero_of_not_mem member).le.trans (Nat.zero_le 1)
    cases share : tree.isShared id with
    | true => exact ordered.shared id share
    | false =>
      rw [ordered.single id share]
      by_cases here : root = id
      · have unused : (made.map fun user => (tree.operandsOf user).count id).sum = 0 := by
          rw [List.sum_eq_zero_iff]
          intro count member
          obtain ⟨user, listed, rfl⟩ := List.mem_map.mp member
          apply List.count_eq_zero_of_not_mem
          intro uses
          exact absurd (formed.operandsOf_lt uses) (Nat.not_lt.mpr (here ▸ below user listed))
        rw [unused]
        exact List.count_le_length
      · have bound : (made.map fun user => (tree.operandsOf user).count id).sum ≤ tree.uses id := by
          refine sum_count_le_uses (fun user listed uses => ?_) fun user listed =>
            Nat.lt_of_le_of_lt (below user listed) found
          have later := formed.operandsOf_lt uses
          have before := Nat.lt_of_lt_of_le later (below user listed)
          exact ih (root - user) (Nat.sub_lt_sub_left before later) user rfl
        rw [List.count_eq_zero_of_not_mem (by simpa using Ne.symm here), Nat.zero_add]
        exact Nat.le_trans bound (counted.uses_le_one (Nat.lt_of_le_of_lt (below id member) found) share)

/-- What is generated for a root is all that the root needs. -/
theorem Ordered.mem_iff (ordered : Ordered tree (fun _ => false) [root] made) :
    id ∈ made ↔ tree.Reaches root id := by
  constructor
  · intro member
    obtain ⟨_, listed, reaches⟩ := ordered.reached id member
    exact List.mem_singleton.mp listed ▸ reaches
  · intro reaches
    induction reaches with
    | refl => simpa using ordered.covers root (List.mem_singleton_self root)
    | tail _ uses ih =>
      obtain ⟨earlier, later, split⟩ := List.append_of_mem ih
      have listed := ordered.operands earlier _ later split _ uses
      rw [split]
      exact List.mem_append_left _ (by simpa using listed)

end Generation

end NativeExpr
