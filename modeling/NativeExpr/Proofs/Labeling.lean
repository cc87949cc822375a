import NativeExpr.Labeling
import NativeExpr.Proofs.Build

/-!
# What labeling leaves alone

Labeling a tree changes the labels of a workspace and nothing else.
-/

namespace NativeExpr.Labeling

/-- Whether two workspaces differ in their labels only. -/
def LabelsOnly (before after : Workspace) : Prop := after = { before with labels := after.labels }

theorem LabelsOnly.refl (work : Workspace) : LabelsOnly work work := rfl

theorem LabelsOnly.trans {before between after : Workspace} (first : LabelsOnly before between)
    (second : LabelsOnly between after) : LabelsOnly before after := by
  rw [LabelsOnly] at *
  rw [second, first]

/-- Whether a visit changes labels only. -/
def Visit.Labels (visit : Visit) : Prop :=
  ∀ id isLeft before count after, visit id isLeft before = .ok count after →
    LabelsOnly before after

variable {tree : Tree} {visit : Visit} {before after : Workspace} {count : Nat}

theorem laterArguments_labels (labels : visit.Labels) {start : Nat} {rest : List NodeId}
    (labeled : laterArguments tree visit start rest before = .ok count after) :
    LabelsOnly before after := by
  induction rest generalizing start before with
  | nil =>
    obtain ⟨_, rfl⟩ := estate_pure_eq_ok.mp labeled
    exact .refl _
  | cons argument rest ih =>
    simp only [laterArguments, estate_bind_eq_ok] at labeled
    obtain ⟨_, between, visited, _, _, labelFound, remaining⟩ := labeled
    obtain rfl := Build.of_label labelFound
    exact (labels _ _ _ _ _ visited).trans (ih remaining)

theorem arguments_labels (labels : visit.Labels) {operands : List NodeId}
    (labeled : arguments tree visit operands before = .ok count after) :
    LabelsOnly before after := by
  cases operands with
  | nil =>
    obtain ⟨_, rfl⟩ := estate_pure_eq_ok.mp labeled
    exact .refl _
  | cons first rest =>
    simp only [arguments, estate_bind_eq_ok] at labeled
    obtain ⟨_, between, visited, _, _, labelFound, remaining⟩ := labeled
    obtain rfl := Build.of_label labelFound
    exact (labels _ _ _ _ _ visited).trans (laterArguments_labels labels remaining)

theorem operation_labels (labels : visit.Labels) {isLeft : Bool} {operation : Operation}
    (labeled : Labeling.operation tree visit isLeft operation before = .ok count after) :
    LabelsOnly before after := by
  cases operation with
  | constant bits | parameter index =>
    obtain ⟨_, rfl⟩ := estate_pure_eq_ok.mp labeled
    exact .refl _
  | arith operation left right =>
    simp only [Labeling.operation, estate_bind_eq_ok, estate_pure_eq_ok] at labeled
    obtain ⟨_, _, leftVisited, _, _, rightVisited, _, _, leftLabel, _, _, rightLabel, _, rfl⟩ :=
      labeled
    have second := labels _ _ _ _ _ rightVisited
    obtain rfl := Build.of_label leftLabel
    obtain rfl := Build.of_label rightLabel
    exact (labels _ _ _ _ _ leftVisited).trans second
  | call function operands =>
    simp only [Labeling.operation, estate_bind_eq_ok, estate_pure_eq_ok] at labeled
    obtain ⟨_, _, argumentsLabeled, _, _, functionVisited, _, rfl⟩ := labeled
    exact (arguments_labels labels argumentsLabeled).trans (labels _ _ _ _ _ functionVisited)

theorem within_labels (tree : Tree) (depth : Nat) : Visit.Labels (within tree depth) := by
  induction depth with
  | zero =>
    intro id isLeft before count after labeled
    exact absurd labeled estate_throw_ne_ok
  | succ depth ih =>
    intro id isLeft before count after labeled
    simp only [within, node, estate_bind_eq_ok, Build.lift_eq_ok, estate_modify_eq_ok,
      estate_pure_eq_ok] at labeled
    obtain ⟨_, _, ⟨_, rfl⟩, _, between, counted, _, _, rfl, _, rfl⟩ := labeled
    have labels := operation_labels ih counted
    rw [LabelsOnly] at labels ⊢
    rw [labels]

/-- Labeling everything that a root needs changes labels only. -/
theorem root_labels {id : NodeId} (labeled : root tree id before = .ok count after) :
    LabelsOnly before after :=
  within_labels tree tree.size _ _ _ _ _ labeled

end NativeExpr.Labeling
