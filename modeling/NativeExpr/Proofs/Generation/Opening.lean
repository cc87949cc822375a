import NativeExpr.Proofs.Build
import NativeExpr.Proofs.Generation.Closure

/-!
# Functions that are begun when they are needed

The first step that needs a function begins one. Had it been begun before, that step and all that
follow would have done the same; so what is known of generation in a function that has been begun
is known of generation that begins one.
-/

namespace NativeExpr

/-- Whether no function is being generated, and which one is begun when one is needed. -/
structure Workspace.Begins (work : Workspace) (tree : Tree) (started : Routine) : Prop where
  none : work.routine = none
  starts : ∃ parameters, tree.inferParameters = .ok parameters ∧
    Routine.start parameters work.options.tempSlots = .ok started

/-- The workspace in which a function has been begun. -/
def Workspace.begin (work : Workspace) (started : Routine) : Workspace :=
  { work with routine := some started }

/-- Whether the code that is written next is that of a function: the one being generated or, if
there is none, one that is begun. -/
def Workspace.Writes (work : Workspace) (tree : Tree) (routine : Routine) : Prop :=
  work.routine = some routine ∨ work.Begins tree routine

theorem Workspace.Writes.eq_of_begun {work : Workspace} {tree : Tree} {routine other : Routine}
    (writes : work.Writes tree routine) (begun : work.routine = some other) : other = routine := by
  rcases writes with written | ⟨none, _⟩
  · exact Option.some.inj (begun.symm.trans written)
  · exact absurd (begun.symm.trans none) nofun

/-- Whether a step that succeeds where there is no function either does without one, and does the
same in any function, or begins one, and does the same if that has been begun before. -/
def Build.BeginsLate {α : Type} (tree : Tree) (step : Build α) : Prop :=
  ∀ (work : Workspace), work.routine = none → ∀ value after, step work = .ok value after →
    (after.routine = none ∧ after.options = work.options ∧
      ∀ started, step (work.begin started) = .ok value (after.begin started)) ∨
    ∃ started, work.Begins tree started ∧ step (work.begin started) = .ok value after

namespace Build

variable {tree : Tree} {α β : Type}

theorem beginsLate_pure (value : α) : (pure value : Build α).BeginsLate tree := by
  rintro work none _ _ ⟨⟩
  exact .inl ⟨none, rfl, fun _ => rfl⟩

theorem beginsLate_throw (cause : CompileError) : (throw cause : Build α).BeginsLate tree :=
  fun _ _ _ _ failed => absurd failed estate_throw_ne_ok

theorem beginsLate_bind {step : Build α} {next : α → Build β} (first : step.BeginsLate tree)
    (rest : ∀ value, step.Returns value → (next value).BeginsLate tree) :
    (step >>= next).BeginsLate tree := by
  intro work none value after done
  obtain ⟨middle, between, stepped, goesOn⟩ := estate_bind_eq_ok.mp done
  rcases first work none middle between stepped with
    ⟨still, options, same⟩ | ⟨started, begins, same⟩
  · rcases rest middle ⟨work, between, stepped⟩ between still value after goesOn with
      ⟨stays, later, others⟩ | ⟨started, ⟨_, starts⟩, others⟩
    · refine .inl ⟨stays, later.trans options, fun started => ?_⟩
      rw [estate_bind_of_ok (same started), others]
    · refine .inr ⟨started, ⟨none, options ▸ starts⟩, ?_⟩
      rw [estate_bind_of_ok (same started), others]
  · exact .inr ⟨started, begins, by rw [estate_bind_of_ok same, goesOn]⟩

/-- What is asked of the workspace and not of its function. -/
theorem beginsLate_look {next : Workspace → Build α}
    (same : ∀ work routine, next { work with routine := routine } = next work)
    (rest : ∀ work, (next work).BeginsLate tree) :
    ((get : Build Workspace) >>= next).BeginsLate tree := by
  intro work none value after done
  have begun (started : Routine) : next (work.begin started) = next work := same work _
  rcases rest work work none value after done with
    ⟨stays, options, others⟩ | ⟨started, begins, others⟩
  · refine .inl ⟨stays, options, fun started => ?_⟩
    exact (congrFun (begun started) _).trans (others started)
  · exact .inr ⟨started, begins, (congrFun (begun started) _).trans others⟩

theorem beginsLate_label (id : NodeId) : (label tree id).BeginsLate tree := by
  have found : (lift (tree.node id)).BeginsLate tree := by
    cases tree.node id with
    | ok node => exact beginsLate_pure node
    | error cause => exact beginsLate_throw cause
  refine beginsLate_bind found fun _ _ => beginsLate_look (fun _ _ => rfl) fun work => ?_
  cases work.labels[id]? with
  | some count => exact beginsLate_pure count
  | none => exact beginsLate_throw _

/-- A change that leaves the function and the options alone. -/
theorem beginsLate_modify {change : Workspace → Workspace}
    (routine : ∀ work : Workspace, (change work).routine = work.routine)
    (options : ∀ work : Workspace, (change work).options = work.options)
    (apart : ∀ (work : Workspace) started,
      change (work.begin started) = (change work).begin started) :
    (modify change : Build Unit).BeginsLate tree := by
  rintro work none _ _ ⟨⟩
  exact .inl ⟨(routine work).trans none, options work,
    fun started => congrArg (EStateM.Result.ok ()) (apart work started)⟩

theorem beginsLate_withPool (change : RegisterPool → Except RegisterError (α × RegisterPool)) :
    (withPool change).BeginsLate tree := by
  intro work none value after done
  obtain ⟨pool, changed, rfl⟩ := withPool_eq_ok.mp done
  exact .inl ⟨none, rfl, fun _ => withPool_eq_ok.mpr ⟨pool, changed, rfl⟩⟩

theorem beginsLate_tryRegister (bank : Bank) (owner : Option NodeId) (hint : Option Register) :
    (tryRegister bank owner hint).BeginsLate tree := by
  intro work none value after done
  rw [tryRegister_eq] at done
  cases allocated : work.pool.allocate bank owner hint .empty with
  | ok result =>
    rw [allocated] at done
    cases done
    refine .inl ⟨none, rfl, fun started => ?_⟩
    simp only [tryRegister_eq, Workspace.begin, allocated]
  | error cause =>
    rw [allocated] at done
    cases done
    refine .inl ⟨none, rfl, fun started => ?_⟩
    simp only [tryRegister_eq, Workspace.begin, allocated]

/-- Where there is no function, one is begun. -/
theorem of_routine_none {work after : Workspace} {started : Routine} (none : work.routine = none)
    (done : routine tree work = .ok started after) :
    work.Begins tree started ∧ after = work.begin started := by
  simp only [routine, estate_bind_eq_ok, estate_get_eq_ok] at done
  obtain ⟨_, _, ⟨rfl, rfl⟩, done⟩ := done
  simp only [none, estate_bind_eq_ok, lift_eq_ok, estate_get_eq_ok] at done
  obtain ⟨parameters, work, ⟨inferred, rfl⟩, _, _, ⟨rfl, rfl⟩, done⟩ := done
  cases starts : Routine.start parameters work.options.tempSlots with
  | error cause =>
    rw [starts] at done
    exact absurd done estate_throw_ne_ok
  | ok fresh =>
    simp only [starts, estate_bind_eq_ok, estate_modify_eq_ok, estate_pure_eq_ok] at done
    obtain ⟨_, _, rfl, rfl, rfl⟩ := done
    exact ⟨⟨none, parameters, inferred, starts⟩, rfl⟩

/-- The function that a step writes to. -/
theorem writes_of_routine {work after : Workspace} {begun : Routine}
    (done : routine tree work = .ok begun after) : work.Writes tree begun := by
  cases being : work.routine with
  | none => exact .inr (of_routine_none being done).1
  | some there =>
    simp only [routine, estate_bind_eq_ok, estate_get_eq_ok] at done
    obtain ⟨_, _, ⟨rfl, rfl⟩, done⟩ := done
    rw [being] at done
    obtain ⟨rfl, _⟩ := estate_pure_eq_ok.mp done
    exact .inl being

theorem beginsLate_onRoutine (step : Routine.Step α) : (onRoutine tree step).BeginsLate tree := by
  intro work none value after done
  obtain ⟨started, between, opening, stepped⟩ := estate_bind_eq_ok.mp done
  obtain ⟨begins, rfl⟩ := of_routine_none none opening
  have begun : routine tree (work.begin started) = .ok started (work.begin started) := by
    simp only [routine, estate_bind_eq_ok, estate_get_eq_ok]
    exact ⟨_, _, ⟨rfl, rfl⟩, rfl⟩
  refine .inr ⟨started, begins, ?_⟩
  rw [onRoutine, estate_bind_of_ok begun]
  exact stepped

theorem demanding_beginsLate (tree : Tree) :
    Demanding tree (fun _ => True) fun step => step.BeginsLate tree where
  operands _ _ _ _ := trivial
  pure := beginsLate_pure
  chain := beginsLate_bind
  refuse _ := beginsLate_throw _
  label id _ := beginsLate_label id
  look := beginsLate_look
  count _ := beginsLate_modify (fun _ => rfl) (fun _ => rfl) fun _ _ => rfl
  mark _ _ := beginsLate_modify (fun _ => rfl) (fun _ => rfl) fun _ _ => rfl
  keep _ _ _ := beginsLate_modify (fun _ => rfl) (fun _ => rfl) fun _ _ => rfl
  onRoutine step _ := beginsLate_onRoutine step
  freeRegister _ := beginsLate_withPool _
  exhaust _ _ := beginsLate_throw _
  tryRegister := beginsLate_tryRegister
  allocateExactly _ := beginsLate_withPool _
  transfer _ _ := beginsLate_withPool _

end Build

end NativeExpr
