import NativeExpr.Proofs.Failure.Ending
import NativeExpr.Proofs.Generation.Evolution
import NativeExpr.Proofs.Generation.Opening

/-!
# Functions that are gone on with

Code generation never gives up the function that it writes, nor takes back what has been written,
even if it fails. A function that was being generated is the one that is being generated afterwards,
with more code and the same homes; if there was none, there may be one that has been begun since.
-/

namespace NativeExpr

namespace Workspace

/-- Whether what is being generated is what was, or a function that extends the one that was written
next. -/
structure CarriesOn (tree : Tree) (before after : Workspace) : Prop where
  options : after.options = before.options
  routine : after.routine = before.routine ∨ ∃ routine continued,
    before.Writes tree routine ∧ after.routine = some continued ∧ routine.Extends continued

variable {tree : Tree} {before between after : Workspace} {routine : Routine}

/-- What is written next goes by the function and the options. -/
theorem Writes.congr (writes : before.Writes tree routine) (same : after.routine = before.routine)
    (options : after.options = before.options) : after.Writes tree routine := by
  rcases writes with begun | ⟨none, starts⟩
  · exact .inl (same.trans begun)
  · exact .inr ⟨same.trans none, options ▸ starts⟩

theorem CarriesOn.trans (first : before.CarriesOn tree between)
    (second : between.CarriesOn tree after) : before.CarriesOn tree after where
  options := second.options.trans first.options
  routine := by
    rcases second.routine with same | ⟨routine, continued, writes, later, further⟩
    · exact same ▸ first.routine
    rcases first.routine with same | ⟨earlier, middle, opening, begun, extended⟩
    · exact .inr ⟨routine, continued, writes.congr same.symm first.options.symm, later, further⟩
    · obtain rfl := writes.eq_of_begun begun
      exact .inr ⟨earlier, continued, opening, later,
        Routine.evolution_extends.trans extended further⟩

/-- A function that there was not before has been begun since. -/
theorem CarriesOn.begun (carriesOn : before.CarriesOn tree after) (none : before.routine = none)
    (there : after.routine = some routine) : ∃ started, before.Begins tree started ∧
      started.Extends routine := by
  rcases carriesOn.routine with same | ⟨started, continued, writes, here, extended⟩
  · cases there.symm.trans (same.trans none)
  · obtain rfl := Option.some.inj (here.symm.trans there)
    rcases writes with begun | begins
    · cases begun.symm.trans none
    · exact ⟨started, begins, extended⟩

theorem evolution_carriesOn (tree : Tree) :
    EvolutionAround (fun _ => True) (CarriesOn tree) where
  refl _ := ⟨rfl, .inl rfl⟩
  trans := CarriesOn.trans
  labels _ _ := ⟨rfl, .inl rfl⟩
  keep _ _ _ _ := ⟨rfl, .inl rfl⟩
  statistics _ _ := ⟨rfl, .inl rfl⟩
  assign _ _ _ _ := ⟨rfl, .inl rfl⟩
  release _ _ _ _ := ⟨rfl, .inl rfl⟩
  transfer _ _ _ _ _ := ⟨rfl, .inl rfl⟩

end Workspace

namespace Build

variable {tree : Tree} {α : Type}

/-- What is the same for a step that succeeds and for one that fails is known of what it leaves. -/
theorem ends_iff_leaves {step : Build α} {work : Workspace} {holds : Workspace → Prop} :
    step.Ends work (fun _ after => holds after) holds ↔ holds (step.leaves work) := by
  rw [Ends, leaves]
  cases step work <;> rfl

/-- A step in a function changes nothing but the function that is written next, and nothing at all
if that cannot be begun. -/
theorem leaves_onRoutine (tree : Tree) (step : Routine.Step α) (work : Workspace) :
    (onRoutine tree step).leaves work = work ∨ ∃ routine, work.Writes tree routine ∧
      (onRoutine tree step).leaves work = { work with routine := some (step.leaves routine) } := by
  cases opening : Build.routine tree work with
  | error cause after =>
    obtain rfl := (ends_routine tree work).of_error opening
    left
    simp only [leaves, onRoutine, estate_bind_of_error opening]
  | ok routine between =>
    obtain ⟨_, rfl⟩ := of_routine opening
    refine .inr ⟨routine, writes_of_routine opening, ?_⟩
    simp only [leaves, Routine.Step.leaves, onRoutine, estate_bind_of_ok opening]
    cases step routine <;> rfl

theorem demanding_carriesOn (tree : Tree) :
    Demanding tree (fun _ => True) fun step => step.Evolves (Workspace.CarriesOn tree) := by
  refine (Workspace.evolution_carriesOn tree).demanding (fun _ _ _ _ => trivial)
    fun step adds work => ?_
  rcases leaves_onRoutine tree step work with same | ⟨routine, writes, same⟩
  · rw [same]
    exact (Workspace.evolution_carriesOn tree).refl work
  · rw [same]
    exact ⟨rfl, .inr ⟨routine, _, writes, rfl, adds routine⟩⟩

end Build

end NativeExpr
