import NativeExpr.Proofs.Exhaustion.Steps
import NativeExpr.Proofs.Generation.Closure

/-!
# Generation where labels are there

Code generation asks for the labels of the nodes that are needed and of no others. Where all of them
have labels it takes none away, so it does not fail for want of a label, however else it may fail.
-/

namespace NativeExpr

/-- Whether a step, taken where all nodes that are needed have labels, leaves them their labels and
does not fail for want of one. -/
def Build.Informed {α : Type} (needed : NodeId → Prop) (step : Build α) : Prop :=
  ∀ work : Workspace, (∀ id, needed id → work.Labels id) →
    match step work with
    | .ok _ after => ∀ id, needed id → after.Labels id
    | .error cause _ => ∀ id, cause ≠ .unlabeled id

namespace Build

variable {α β : Type} {tree : Tree} {needed : NodeId → Prop}

theorem informed_pure (value : α) : (pure value : Build α).Informed needed :=
  fun _ labeled => labeled

theorem informed_throw {cause : CompileError} (other : ∀ id, cause ≠ .unlabeled id) :
    (throw cause : Build α).Informed needed := fun _ _ => other

theorem informed_chain {step : Build α} {next : α → Build β} (first : step.Informed needed)
    (rest : ∀ value, step.Returns value → (next value).Informed needed) :
    (step >>= next).Informed needed := by
  intro work labeled
  have start := first work labeled
  simp only [Bind.bind, EStateM.bind]
  cases done : step work with
  | ok value between =>
    rw [done] at start
    exact rest value ⟨work, between, done⟩ between start
  | error cause between =>
    rw [done] at start
    exact start

theorem informed_get : (get : Build Workspace).Informed needed := fun _ labeled => labeled

/-- A change that leaves no node without a label. -/
theorem informed_modify {change : Workspace → Workspace}
    (keeps : ∀ (work : Workspace) id, work.Labels id → (change work).Labels id) :
    (modify change : Build Unit).Informed needed :=
  fun work labeled id need => keeps work id (labeled id need)

theorem informed_lift {result : Except CompileError α} (spared : CompileError.Spared result) :
    (lift result).Informed needed := by
  cases result with
  | ok value => exact informed_pure value
  | error cause =>
    refine informed_throw fun id same => ?_
    have other := spared cause rfl
    rw [same] at other
    cases other

theorem informed_label {id : NodeId} (need : needed id) : (label tree id).Informed needed := by
  intro work labeled
  obtain ⟨count, found⟩ := labeled id need
  cases exist : tree.node? id with
  | some node =>
    rw [label_eq exist, found]
    exact labeled
  | none =>
    simp only [label, Tree.node_missing exist]
    rintro _ ⟨⟩

theorem informed_withPool (change : RegisterPool → Except RegisterError (α × RegisterPool)) :
    (withPool change).Informed needed := by
  intro work labeled
  rw [withPool_eq]
  cases change work.pool with
  | ok result => exact labeled
  | error cause => exact fun _ => nofun

theorem informed_tryRegister (bank : Bank) (owner : Option NodeId) (hint : Option Register) :
    (tryRegister bank owner hint).Informed needed := by
  intro work labeled
  rw [tryRegister_eq]
  cases work.pool.allocate bank owner hint .empty <;> exact labeled

theorem informed_onRoutine (step : Routine.Step α) : (onRoutine tree step).Informed needed := by
  have opens : (routine tree).Informed needed := by
    refine informed_chain informed_get fun work _ => ?_
    cases work.routine with
    | some routine => exact informed_pure routine
    | none =>
      refine informed_chain (informed_lift tree.spared_inferParameters) fun parameters _ =>
        informed_chain informed_get fun work _ => ?_
      cases Routine.start parameters work.options.tempSlots with
      | ok routine =>
        exact informed_chain (informed_modify fun _ _ labeled => labeled) fun _ _ =>
          informed_pure routine
      | error cause => exact informed_throw fun _ => nofun
  refine informed_chain opens fun routine _ => ?_
  cases step routine with
  | ok value later =>
    exact informed_chain (informed_modify fun _ _ labeled => labeled) fun _ _ => informed_pure value
  | error cause later =>
    exact informed_chain (informed_modify fun _ _ labeled => labeled) fun _ _ =>
      informed_throw fun _ => nofun

/-- Where everything that is needed for what is needed has a label, code generation lacks none. -/
theorem demanding_informed (closed : tree.Closed needed) :
    Demanding tree needed fun step => step.Informed needed where
  operands := closed
  pure := informed_pure
  chain := informed_chain
  refuse spared := informed_lift (CompileError.spared_error spared)
  label _ := informed_label
  look _ rest := informed_chain informed_get fun work _ => rest work
  count _ := informed_modify fun _ _ labeled => labeled
  mark id label := informed_modify fun work other labeled => by
    obtain ⟨count, found⟩ := labeled
    rw [Workspace.Labels]
    simp only [Std.TreeMap.getElem?_insert]
    split
    · exact ⟨_, rfl⟩
    · exact ⟨count, found⟩
  keep _ _ _ := informed_modify fun _ _ labeled => labeled
  onRoutine step _ := informed_onRoutine step
  freeRegister _ := informed_withPool _
  exhaust _ _ := informed_throw fun _ => nofun
  tryRegister := informed_tryRegister
  allocateExactly _ := informed_withPool _
  transfer _ _ := informed_withPool _

end Build

end NativeExpr
