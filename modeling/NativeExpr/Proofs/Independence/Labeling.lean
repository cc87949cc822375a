import NativeExpr.Proofs.Independence.Agreement
import NativeExpr.Proofs.Labeling

/-!
# Labels do not depend on numbers

Labeling a node and labeling its image in another tree give the same labels to everything that the
node needs and to the images of it. Labels that were there before are not looked at.
-/

namespace NativeExpr.Labeling

open Build

/-- Whether a node is among those that are labeled or needed for one of some nodes. -/
def Extended (tree : Tree) (labeled : NodeId → Prop) (roots : List NodeId) (id : NodeId) : Prop :=
  labeled id ∨ ∃ root ∈ roots, tree.Reaches root id

variable {tree other : Tree} {rename : NodeId → NodeId} {needed labeled : NodeId → Prop}
variable {visit mirror : Visit} {work twin : Workspace}

/-- Two workspaces that are alike know fewer labels as well. -/
theorem alike_of_fewer {more : NodeId → Prop} (alike : work.Alike rename needed more twin)
    (fewer : ∀ id, labeled id → more id) : work.Alike rename needed labeled twin :=
  { alike with labels := fun id need known => alike.labels id need (fewer id known) }

theorem extended_nil : Extended tree labeled [] = labeled := by
  funext id
  simp [Extended]

theorem extended_append (roots others : List NodeId) :
    Extended tree (Extended tree labeled roots) others = Extended tree labeled (roots ++ others) := by
  funext id
  simp only [Extended, List.mem_append, or_and_right, exists_or, or_assoc]

/-- Whether a visit labels a node like another visit labels its image. -/
def Visit.Mirrors (tree : Tree) (rename : NodeId → NodeId) (needed : NodeId → Prop)
    (visit mirror : Visit) (id : NodeId) : Prop :=
  ∀ isLeft (labeled : NodeId → Prop) work twin, work.Alike rename needed labeled twin →
    Agree Eq (Workspace.Alike rename needed (Extended tree labeled [id]))
      (visit id isLeft work) (mirror (rename id) isLeft twin)

theorem agree_laterArguments (renumbers : tree.Renumbers other rename needed)
    {rest : List NodeId} (need : ∀ argument ∈ rest, needed argument)
    (visits : ∀ argument ∈ rest, visit.Mirrors tree rename needed mirror argument) (count : Nat)
    (alike : work.Alike rename needed labeled twin) :
    Agree Eq (Workspace.Alike rename needed (Extended tree labeled rest))
      (laterArguments tree visit count rest work)
      (laterArguments other mirror count (rest.map rename) twin) := by
  induction rest generalizing labeled work twin count with
  | nil =>
    rw [extended_nil]
    exact agree_pure alike
  | cons argument rest ih =>
    refine (visits argument List.mem_cons_self false labeled work twin alike).andThen
      fun _ _ _ alike => ?_
    refine (agree_label renumbers (need argument List.mem_cons_self)
      (.inr ⟨argument, List.mem_singleton_self argument, .refl⟩) alike alike).andThen
        fun label _ _ alike => ?_
    have later := ih (fun other listed => need other (List.mem_cons_of_mem _ listed))
      (fun other listed => visits other (List.mem_cons_of_mem _ listed)) (combine count label) alike
    rwa [extended_append] at later

theorem agree_arguments (renumbers : tree.Renumbers other rename needed)
    {operands : List NodeId} (need : ∀ operand ∈ operands, needed operand)
    (visits : ∀ operand ∈ operands, visit.Mirrors tree rename needed mirror operand)
    (alike : work.Alike rename needed labeled twin) :
    Agree Eq (Workspace.Alike rename needed (Extended tree labeled operands))
      (arguments tree visit operands work) (arguments other mirror (operands.map rename) twin) := by
  cases operands with
  | nil =>
    rw [extended_nil]
    exact agree_pure alike
  | cons first rest =>
    refine (visits first List.mem_cons_self true labeled work twin alike).andThen
      fun _ _ _ alike => ?_
    refine (agree_label renumbers (need first List.mem_cons_self)
      (.inr ⟨first, List.mem_singleton_self first, .refl⟩) alike alike).andThen
        fun label _ _ alike => ?_
    have later := agree_laterArguments renumbers
      (fun other listed => need other (List.mem_cons_of_mem _ listed))
      (fun other listed => visits other (List.mem_cons_of_mem _ listed)) label alike
    rwa [extended_append] at later

theorem agree_operation (renumbers : tree.Renumbers other rename needed) {operation : Operation}
    (need : ∀ operand ∈ operation.operands, needed operand)
    (visits : ∀ operand ∈ operation.operands, visit.Mirrors tree rename needed mirror operand)
    (isLeft : Bool) (alike : work.Alike rename needed labeled twin) :
    Agree Eq (Workspace.Alike rename needed (Extended tree labeled operation.operands))
      (Labeling.operation tree visit isLeft operation work)
      (Labeling.operation other mirror isLeft (operation.rename rename) twin) := by
  cases operation with
  | constant bits | parameter index =>
    simp only [Operation.operands, extended_nil]
    exact agree_pure alike
  | arith operation left right =>
    have leftListed : left ∈ [left, right] := List.mem_cons_self
    have rightListed : right ∈ [left, right] := List.mem_cons_of_mem _ List.mem_cons_self
    refine (visits left leftListed true labeled work twin alike).andThen fun _ _ _ alike => ?_
    refine (visits right rightListed false _ _ _ alike).andThen fun _ _ _ alike => ?_
    rw [extended_append] at alike
    refine (agree_label renumbers (need left leftListed) (.inr ⟨left, leftListed, .refl⟩) alike
      alike).andThen fun _ _ _ alike => ?_
    refine (agree_label renumbers (need right rightListed) (.inr ⟨right, rightListed, .refl⟩) alike
      alike).andThen fun _ _ _ alike => ?_
    exact agree_pure alike
  | call function operands =>
    refine (agree_arguments renumbers
      (fun operand listed => need operand (List.mem_cons_of_mem _ listed))
      (fun operand listed => visits operand (List.mem_cons_of_mem _ listed)) alike).andThen
        fun _ _ _ alike => ?_
    refine (visits function List.mem_cons_self false _ _ _ alike).andThen fun _ _ _ alike => ?_
    rw [extended_append] at alike
    refine agree_pure (alike_of_fewer alike fun id known => known.imp_right ?_)
    rintro ⟨root, listed, reaches⟩
    refine ⟨root, ?_, reaches⟩
    rcases List.mem_cons.mp listed with rfl | listed
    · exact List.mem_append_right _ (List.mem_singleton_self root)
    · exact List.mem_append_left _ listed

/-- A node is labeled when its image is. -/
theorem alike_insert (renumbers : tree.Renumbers other rename needed) {id : NodeId}
    (need : needed id) (count : Nat)
    (alike : work.Alike rename needed (Extended tree labeled (tree.operandsOf id)) twin) :
    ({ work with labels := work.labels.insert id count } : Workspace).Alike rename needed
      (Extended tree labeled [id])
      { twin with labels := twin.labels.insert (rename id) count } where
  options := alike.options
  pool := alike.pool
  routine := alike.routine
  statistics := alike.statistics
  caches := alike.caches
  labels user userNeed known := by
    simp only [Std.TreeMap.getElem?_insert]
    by_cases here : id = user
    · subst here
      simp
    · have apart : rename id ≠ rename user :=
        fun same => here (renumbers.injective id user need userNeed same)
      have below : Extended tree labeled (tree.operandsOf id) user := by
        rcases known with known | ⟨root, listed, reaches⟩
        · exact .inl known
        · obtain rfl := List.mem_singleton.mp listed
          rcases reaches.cases_head with rfl | ⟨operand, uses, reaches⟩
          · exact absurd rfl here
          · exact .inr ⟨operand, uses, reaches⟩
      simpa [here, apart] using alike.labels user userNeed below

/-- Depths that are deep enough for a node and for its image label both alike. -/
theorem mirrors_within (renumbers : tree.Renumbers other rename needed)
    (closed : tree.Closed needed) (formed : tree.Formed) (otherFormed : other.Formed) (depth : Nat) :
    ∀ otherDepth id, needed id → id < depth → rename id < otherDepth →
      Visit.Mirrors tree rename needed (within tree depth) (within other otherDepth) id := by
  induction depth with
  | zero => exact fun _ id _ deep => absurd deep (Nat.not_lt_zero id)
  | succ depth ih =>
    intro otherDepth id need deep otherDeep isLeft labeled work twin alike
    obtain ⟨otherDepth, rfl⟩ := Nat.exists_eq_add_one_of_ne_zero (Nat.ne_zero_of_lt otherDeep)
    obtain ⟨node, image, found, imageFound, _, shared, operation⟩ := renumbers.node id need
    have uses := closed id need
    have visits : ∀ operand ∈ tree.operandsOf id,
        Visit.Mirrors tree rename needed (within tree depth) (within other otherDepth) operand := by
      intro operand listed
      have otherListed : rename operand ∈ other.operandsOf (rename id) :=
        renumbers.operandsOf need ▸ List.mem_map_of_mem listed
      exact ih otherDepth operand (uses operand listed)
        (Nat.lt_of_lt_of_le (formed.operandsOf_lt listed) (Nat.le_of_lt_succ deep))
        (Nat.lt_of_lt_of_le (otherFormed.operandsOf_lt otherListed) (Nat.le_of_lt_succ otherDeep))
    have operands := Tree.operandsOf_of_node found
    rw [operands] at uses visits
    refine Agree.after (lift_ok (node_ok found)) (lift_ok (node_ok imageFound)) ?_
    rw [operation, shared]
    refine (agree_operation renumbers uses visits isLeft alike).andThen fun count _ _ alike => ?_
    rw [← operands] at alike
    exact Agree.afterModify (agree_pure (alike_insert renumbers need _ alike))

end NativeExpr.Labeling
