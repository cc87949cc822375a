import NativeExpr.Proofs.Exhaustion.Steps

/-!
# Both ways in which a step ends

A step of code generation succeeds or fails, and goes on from the workspace that it leaves in either
case. `Build.Ends` says of the workspace what holds in the one case and what in the other. A step in
a function that fails has written some of its instructions at most.
-/

namespace NativeExpr

/-- Whether a step ends as is said, if it succeeds and if it fails. -/
def Build.Ends {α : Type} (step : Build α) (work : Workspace) (succeeds : α → Workspace → Prop)
    (fails : Workspace → Prop) : Prop :=
  match step work with
  | .ok value after => succeeds value after
  | .error _ after => fails after

namespace Build

variable {α β : Type} {step : Build α} {next : α → Build β} {work : Workspace}
variable {succeeds : α → Workspace → Prop} {later : β → Workspace → Prop}
variable {fails : Workspace → Prop}

theorem Ends.bind (first : step.Ends work succeeds fails)
    (rest : ∀ value after, step work = .ok value after → succeeds value after →
      (next value).Ends after later fails) : (step >>= next).Ends work later fails := by
  unfold Ends at first ⊢
  simp only [Bind.bind, EStateM.bind]
  cases done : step work with
  | ok value after =>
    rw [done] at first
    exact rest value after done first
  | error cause after =>
    rw [done] at first
    exact first

theorem Ends.mono (ends : step.Ends work succeeds fails) {others : α → Workspace → Prop}
    {otherwise : Workspace → Prop} (ok : ∀ value after, succeeds value after → others value after)
    (error : ∀ after, fails after → otherwise after) : step.Ends work others otherwise := by
  unfold Ends at ends ⊢
  cases done : step work with
  | ok value after =>
    rw [done] at ends
    exact ok value after ends
  | error cause after =>
    rw [done] at ends
    exact error after ends

/-- Steps that succeed are followed by others. -/
theorem Ends.after {value : α} {after : Workspace} (done : step work = .ok value after)
    (rest : (next value).Ends after later fails) : (step >>= next).Ends work later fails := by
  unfold Ends at rest ⊢
  simpa only [Bind.bind, EStateM.bind, done] using rest

theorem Ends.afterGet {next : Workspace → Build β} (rest : (next work).Ends work later fails) :
    ((get : Build Workspace) >>= next).Ends work later fails :=
  rest

theorem Ends.afterModify {next : Unit → Build β} {change : Workspace → Workspace}
    (rest : (next ()).Ends (change work) later fails) :
    ((modify change : Build Unit) >>= next).Ends work later fails :=
  rest

/-- What is left where a step has failed. -/
theorem Ends.of_error {cause : CompileError} {after : Workspace}
    (ends : step.Ends work succeeds fails) (failed : step work = .error cause after) :
    fails after := by
  rw [Ends, failed] at ends
  exact ends

theorem ends_pure {value : α} (here : succeeds value work) :
    (pure value : Build α).Ends work succeeds fails := here

theorem ends_throw {cause : CompileError} (here : fails work) :
    (throw cause : Build α).Ends work succeeds fails := here

theorem ends_of_ok {value : α} {after : Workspace} (done : step work = .ok value after)
    (here : succeeds value after) : step.Ends work succeeds fails := by
  rw [Ends, done]
  exact here

theorem ends_of_error {cause : CompileError} {after : Workspace}
    (failed : step work = .error cause after) (here : fails after) :
    step.Ends work succeeds fails := by
  rw [Ends, failed]
  exact here

/-- A result that does not depend on the workspace. -/
theorem ends_lift {result : Except CompileError α}
    (ok : ∀ value, result = .ok value → succeeds value work) (error : fails work) :
    (lift result).Ends work succeeds fails := by
  cases result with
  | ok value => exact ok value rfl
  | error cause => exact error

end Build

/-- Whether a step in a function leaves its frame alone, even if it fails. -/
def Routine.Step.Stable {α : Type} (step : Routine.Step α) : Prop :=
  ∀ routine, match step routine with
    | .ok _ later | .error _ later => later.frame = routine.frame

namespace Routine

theorem stable_of_evolves {α : Type} {step : Step α}
    (evolves : step.Evolves fun routine later => later.frame = routine.frame) : step.Stable := by
  intro routine
  have same := evolves routine
  rw [Step.leaves] at same
  cases done : step routine <;> rwa [done] at same

theorem stable_write (requests : List Request) : (write requests).Stable :=
  stable_of_evolves (evolution_frame.write requests)

theorem stable_save (register : Register) : (save register).Stable :=
  stable_of_evolves (evolution_frame.save register)

theorem stable_restore (register : Register) : (restore register).Stable :=
  stable_of_evolves (evolution_frame.restore register)

theorem stable_home (index : Nat) : (home? index).Stable :=
  stable_of_evolves (evolution_frame.home index)

end Routine

namespace Build

variable {tree : Tree} {α β : Type} {work : Workspace}

/-- A function that cannot be begun is not begun. -/
theorem ends_routine (tree : Tree) (work : Workspace) :
    (routine tree).Ends work (fun _ _ => True) fun after => after = work := by
  simp only [routine]
  refine Ends.afterGet ?_
  cases work.routine with
  | some there => exact ends_pure trivial
  | none =>
    have inferred : (lift tree.inferParameters).Ends work (fun _ _ => True)
        fun after => after = work := ends_lift (fun _ _ => trivial) rfl
    refine inferred.bind fun parameters after done _ => ?_
    obtain ⟨_, rfl⟩ := lift_eq_ok.mp done
    refine Ends.afterGet ?_
    cases Routine.start parameters after.options.tempSlots with
    | ok fresh => exact Ends.afterModify (ends_pure trivial)
    | error fault => exact ends_throw rfl

/-- What becomes of a step in a function that is being generated, or is begun if it can be. -/
theorem ends_onRoutine {step : Routine.Step α} {succeeds : α → Workspace → Prop}
    {fails : Workspace → Prop} (unopened : fails work)
    (opened : ∀ routine, work.Opens routine → match step routine with
      | .ok value later => succeeds value { work with routine := some later }
      | .error _ later => fails { work with routine := some later }) :
    (onRoutine tree step).Ends work succeeds fails := by
  cases opening : routine tree work with
  | error cause after =>
    obtain rfl := (ends_routine tree work).of_error opening
    exact ends_of_error (estate_bind_of_error opening) unopened
  | ok begun between =>
    obtain ⟨opens, rfl⟩ := of_routine opening
    have ends := opened begun opens
    refine Ends.after opening ?_
    cases stepped : step begun with
    | ok value later =>
      rw [stepped] at ends
      exact ends
    | error fault later =>
      rw [stepped] at ends
      exact ends

end Build

end NativeExpr
