import NativeExpr.Proofs.Exhaustion.Generation
import NativeExpr.Proofs.Labeling

/-!
# Labeling always succeeds

Labeling a node that exists gives a label to everything that is needed for it, and what had a
label keeps one.
-/

namespace NativeExpr

/-- Whether everything has a label that had one or that is needed for one of some nodes. -/
def Workspace.Covers (tree : Tree) (before : Workspace) (roots : List NodeId)
    (after : Workspace) : Prop :=
  ∀ id, before.Labels id ∨ (∃ root ∈ roots, tree.Reaches root id) → after.Labels id

namespace Workspace.Covers

variable {tree : Tree} {before between after : Workspace} {roots others : List NodeId}

theorem refl (tree : Tree) (work : Workspace) : Covers tree work [] work := by
  rintro id (labeled | ⟨_, listed, _⟩)
  · exact labeled
  · exact (List.not_mem_nil listed).elim

theorem trans (first : Covers tree before roots between) (second : Covers tree between others after) :
    Covers tree before (roots ++ others) after := by
  rintro id (labeled | ⟨root, listed, reaches⟩)
  · exact second id (.inl (first id (.inl labeled)))
  · rcases List.mem_append.mp listed with listed | listed
    · exact second id (.inl (first id (.inr ⟨root, listed, reaches⟩)))
    · exact second id (.inr ⟨root, listed, reaches⟩)

theorem labels (covers : Covers tree before roots after) {root : NodeId} (listed : root ∈ roots) :
    after.Labels root :=
  covers root (.inr ⟨root, listed, .refl⟩)

/-- A node is covered when its operands are and it is labeled itself. -/
theorem insert {id : NodeId} (covers : Covers tree before (tree.operandsOf id) between)
    (count : Nat) :
    Covers tree before [id] { between with labels := between.labels.insert id count } := by
  intro other need
  by_cases here : other = id
  · subst here
    exact ⟨count, Std.TreeMap.getElem?_insert_self⟩
  · have labeled : between.Labels other := by
      apply covers other
      rcases need with labeled | ⟨root, listed, reaches⟩
      · exact .inl labeled
      · obtain rfl := List.mem_singleton.mp listed
        rcases reaches.cases_head with rfl | ⟨operand, uses, reaches⟩
        · exact absurd rfl here
        · exact .inr ⟨operand, uses, reaches⟩
    obtain ⟨label, found⟩ := labeled
    refine ⟨label, ?_⟩
    rw [Std.TreeMap.getElem?_insert]
    simp [Ne.symm here, found]

end Workspace.Covers

namespace Labeling

open Build (Yields)

/-- Whether a visit labels everything that a node needs. -/
def Visit.Covers (tree : Tree) (visit : Visit) (id : NodeId) : Prop :=
  ∀ isLeft work, (visit id isLeft).Yields work fun _ after => work.Covers tree [id] after

variable {tree : Tree} {needed : NodeId → Prop} {parameters : Nat} {visit : Visit}
variable {work : Workspace}

section

variable (generable : tree.Generable needed parameters)

include generable

/-- A node that was visited has a label. -/
theorem yields_label {before : Workspace} {id : NodeId} {roots : List NodeId} (need : needed id)
    (listed : id ∈ roots) (covers : before.Covers tree roots work) :
    (Build.label tree id).Yields work fun _ after => before.Covers tree roots after := by
  obtain ⟨node, found⟩ := generable.found id need
  obtain ⟨count, done⟩ := Build.label_ok found (covers.labels listed)
  rw [Yields, done]
  exact covers

theorem yields_laterArguments {rest : List NodeId} (need : ∀ argument ∈ rest, needed argument)
    (visits : ∀ argument ∈ rest, visit.Covers tree argument) (count : Nat) :
    (laterArguments tree visit count rest).Yields work fun _ after =>
      work.Covers tree rest after := by
  induction rest generalizing work count with
  | nil => exact Build.yields_pure (.refl tree work)
  | cons argument rest ih =>
    refine (visits argument List.mem_cons_self false work).bind fun _ _ _ covers => ?_
    refine (yields_label generable (need argument List.mem_cons_self) List.mem_cons_self
      covers).bind fun label _ _ covers => ?_
    exact (ih (fun other listed => need other (List.mem_cons_of_mem _ listed))
      (fun other listed => visits other (List.mem_cons_of_mem _ listed)) _).mono
        fun _ _ _ later => covers.trans later

theorem yields_arguments {operands : List NodeId} (need : ∀ operand ∈ operands, needed operand)
    (visits : ∀ operand ∈ operands, visit.Covers tree operand) :
    (arguments tree visit operands).Yields work fun _ after =>
      work.Covers tree operands after := by
  cases operands with
  | nil => exact Build.yields_pure (.refl tree work)
  | cons first rest =>
    refine (visits first List.mem_cons_self true work).bind fun _ _ _ covers => ?_
    refine (yields_label generable (need first List.mem_cons_self) List.mem_cons_self
      covers).bind fun label _ _ covers => ?_
    exact (yields_laterArguments generable
      (fun other listed => need other (List.mem_cons_of_mem _ listed))
      (fun other listed => visits other (List.mem_cons_of_mem _ listed)) _).mono
        fun _ _ _ later => covers.trans later

/-- The operands of an operation are labeled. -/
theorem yields_operation {operation : Operation}
    (need : ∀ operand ∈ operation.operands, needed operand)
    (visits : ∀ operand ∈ operation.operands, visit.Covers tree operand) (isLeft : Bool) :
    (Labeling.operation tree visit isLeft operation).Yields work fun _ after =>
      work.Covers tree operation.operands after := by
  cases operation with
  | constant bits | parameter index => exact Build.yields_pure (.refl tree work)
  | arith operation left right =>
    have leftListed : left ∈ [left, right] := List.mem_cons_self
    have rightListed : right ∈ [left, right] := List.mem_cons_of_mem _ List.mem_cons_self
    refine (visits left leftListed true work).bind fun _ between _ first => ?_
    refine (visits right rightListed false between).bind fun _ _ _ second => ?_
    have covers := first.trans second
    refine (yields_label generable (need left leftListed) leftListed covers).bind
      fun _ _ _ covers => ?_
    refine (yields_label generable (need right rightListed) rightListed covers).bind
      fun _ _ _ covers => ?_
    exact Build.yields_pure covers
  | call function operands =>
    refine (yields_arguments generable
      (fun operand listed => need operand (List.mem_cons_of_mem _ listed))
      (fun operand listed => visits operand (List.mem_cons_of_mem _ listed))).bind
        fun _ between _ first => ?_
    refine (visits function List.mem_cons_self false between).bind fun _ _ _ second => ?_
    refine Build.yields_pure fun id covered => (first.trans second) id (covered.imp_right ?_)
    rintro ⟨root, listed, reaches⟩
    refine ⟨root, ?_, reaches⟩
    rcases List.mem_cons.mp listed with rfl | listed
    · exact List.mem_append_right _ (List.mem_singleton_self root)
    · exact List.mem_append_left _ listed

/-- Every node that is needed is labeled, along with everything below it. -/
theorem covers_within (depth : Nat) :
    ∀ id, needed id → id < depth → Visit.Covers tree (within tree depth) id := by
  induction depth with
  | zero => exact fun id _ deep => absurd deep (Nat.not_lt_zero id)
  | succ depth ih =>
    intro id need deep isLeft work
    obtain ⟨node, found⟩ := generable.found id need
    have operands := Tree.operandsOf_of_node found
    have uses := generable.closed id need
    have visits : ∀ operand ∈ tree.operandsOf id, Visit.Covers tree (within tree depth) operand :=
      fun operand listed => ih operand (uses operand listed)
        (Nat.lt_of_lt_of_le (generable.formed.operandsOf_lt listed) (Nat.le_of_lt_succ deep))
    rw [operands] at uses visits
    simp only [within, Labeling.node]
    refine Yields.after (Build.lift_ok (Build.node_ok found)) ?_
    refine (yields_operation generable uses visits isLeft).bind fun count _ _ covers => ?_
    rw [← operands] at covers
    exact Yields.afterModify (Build.yields_pure (covers.insert _))

end

end Labeling

end NativeExpr
