import NativeExpr.Proofs.Compilation
import NativeExpr.Proofs.Generation.Closure

/-!
# What becomes of workspaces

A step changes a workspace part by part, whether it succeeds or not. A relation that holds of none
and of several changes, one after the other, and of every change of one part, holds of what all of
code generation is given and what it leaves.
-/

namespace NativeExpr

/-- The workspace that a step leaves, whether it succeeds or not. -/
def Build.leaves {α : Type} (step : Build α) (work : Workspace) : Workspace :=
  match step work with
  | .ok _ after => after
  | .error _ after => after

/-- Whether workspaces evolve in a certain way when a part of them other than the function is
changed, and go on doing so. Only the values of nodes that are needed are kept. -/
structure Workspace.EvolutionAround (needed : NodeId → Prop)
    (evolves : Workspace → Workspace → Prop) : Prop where
  refl : ∀ work, evolves work work
  trans : ∀ {before between after}, evolves before between → evolves between after →
    evolves before after
  labels : ∀ (work : Workspace) labels, evolves work { work with labels := labels }
  keep : ∀ (work : Workspace) id storage, needed id →
    evolves work { work with caches := work.caches.insert id storage }
  statistics : ∀ (work : Workspace) statistics, evolves work { work with statistics := statistics }
  assign : ∀ (work : Workspace) register owner, work.pool.allocatable.contains register →
    evolves work { work with pool := work.pool.assign register owner }
  release : ∀ (work : Workspace) register pool, work.pool.release register = .ok pool →
    evolves work { work with pool := pool }
  transfer : ∀ (work : Workspace) register owner pool,
    work.pool.transfer register owner = .ok pool → evolves work { work with pool := pool }

/-- Whether workspaces evolve in a certain way whatever becomes of the function as well. -/
structure Workspace.Evolution (needed : NodeId → Prop) (evolves : Workspace → Workspace → Prop) :
    Prop extends Workspace.EvolutionAround needed evolves where
  routine : ∀ (work : Workspace) routine, evolves work { work with routine := routine }

/-- Whether a step has a workspace evolve in a certain way, even if it fails. -/
def Build.Evolves {α : Type} (evolves : Workspace → Workspace → Prop) (step : Build α) : Prop :=
  ∀ work : Workspace, evolves work (step.leaves work)

namespace Workspace.EvolutionAround

open Build

variable {needed : NodeId → Prop} {evolves : Workspace → Workspace → Prop} {tree : Tree}
variable {α β : Type} (evolution : EvolutionAround needed evolves)

include evolution

theorem pure (value : α) : (pure value : Build α).Evolves evolves := evolution.refl

theorem throw (cause : CompileError) : (throw cause : Build α).Evolves evolves := evolution.refl

/-- What follows a step, if the step succeeds. -/
theorem chain {step : Build α} {next : α → Build β} (first : step.Evolves evolves)
    (rest : ∀ value, step.Returns value → (next value).Evolves evolves) :
    (step >>= next).Evolves evolves := by
  intro work
  have start := first work
  simp only [leaves, Bind.bind, EStateM.bind] at start ⊢
  cases done : step work with
  | ok value between =>
    rw [done] at start
    exact evolution.trans start (rest value ⟨work, between, done⟩ between)
  | error cause between =>
    rw [done] at start
    exact start

theorem bind {step : Build α} {next : α → Build β} (first : step.Evolves evolves)
    (rest : ∀ value, (next value).Evolves evolves) : (step >>= next).Evolves evolves :=
  evolution.chain first fun value _ => rest value

omit evolution in
theorem look {next : Workspace → Build α} (rest : ∀ work, (next work).Evolves evolves) :
    ((get : Build Workspace) >>= next).Evolves evolves :=
  fun work => rest work work

theorem lift (result : Except CompileError α) : (Build.lift result).Evolves evolves := by
  cases result with
  | ok value => exact evolution.pure value
  | error cause => exact evolution.throw cause

theorem label (id : NodeId) : (Build.label tree id).Evolves evolves := by
  refine evolution.bind (evolution.lift _) fun _ => look fun work => ?_
  cases work.labels[id]? with
  | some count => exact evolution.pure count
  | none => exact evolution.throw _

theorem tryRegister (bank : Bank) (owner : Option NodeId) (hint : Option Register) :
    (Build.tryRegister bank owner hint).Evolves evolves := by
  intro work
  simp only [leaves, tryRegister_eq]
  cases allocated : work.pool.allocate bank owner hint .empty with
  | ok result =>
    obtain ⟨register, pool⟩ := result
    obtain ⟨_, allowed, _, rfl⟩ := RegisterPool.of_allocate allocated
    exact evolution.assign work register owner allowed
  | error cause => exact evolution.refl work

/-- A request to the pool that returns what is known without it. -/
theorem request {change : RegisterPool → Except RegisterError RegisterPool} {value : α}
    (done : ∀ (work : Workspace) pool, change work.pool = .ok pool →
      evolves work { work with pool := pool }) :
    (withPool fun pool => (change pool).map fun pool => (value, pool)).Evolves evolves := by
  intro work
  simp only [leaves, withPool_eq]
  cases outcome : change work.pool with
  | ok pool => exact done work pool outcome
  | error cause => exact evolution.refl work

/-- All that needs room has workspaces evolve so, if the steps in a function do. -/
theorem demanding (closed : tree.Closed needed)
    (writes : ∀ {α : Type} (step : Routine.Step α), step.Evolves Routine.Extends →
      (Build.onRoutine tree step).Evolves evolves) :
    Demanding tree needed fun step => step.Evolves evolves where
  operands := closed
  pure := evolution.pure
  chain := evolution.chain
  refuse _ := evolution.throw _
  label id _ := evolution.label id
  look _ rest := look rest
  count _ work := evolution.statistics work _
  mark _ _ work := evolution.labels work _
  keep id storage need work := evolution.keep work id storage need
  onRoutine := writes
  freeRegister register := evolution.request fun work => evolution.release work register
  exhaust _ _ := evolution.throw _
  tryRegister := evolution.tryRegister
  allocateExactly register := by
    refine evolution.request fun work pool allocated => ?_
    obtain ⟨allowed, _, rfl⟩ := RegisterPool.of_allocateExactly allocated
    exact evolution.assign work register none allowed
  transfer register owner := evolution.request fun work => evolution.transfer work register owner

end Workspace.EvolutionAround

namespace Workspace.Evolution

open Build

variable {needed : NodeId → Prop} {evolves : Workspace → Workspace → Prop} {tree : Tree}
variable {α : Type} (evolution : Evolution needed evolves)

include evolution

/-- A step in a function, which is begun if there is none. -/
theorem onRoutine (step : Routine.Step α) : (Build.onRoutine tree step).Evolves evolves := by
  have opens : (Build.routine tree).Evolves evolves := by
    refine EvolutionAround.look fun work => ?_
    cases work.routine with
    | some routine => exact evolution.pure routine
    | none =>
      refine evolution.bind (evolution.lift _) fun parameters => EvolutionAround.look fun work => ?_
      cases Routine.start parameters work.options.tempSlots with
      | ok routine =>
        exact evolution.bind (fun work => evolution.routine work (some routine)) fun _ =>
          evolution.pure _
      | error cause => exact evolution.throw _
  refine evolution.bind opens fun routine => ?_
  cases step routine with
  | ok value later =>
    exact evolution.bind (fun work => evolution.routine work (some later)) fun _ => evolution.pure _
  | error cause later =>
    exact evolution.bind (fun work => evolution.routine work (some later)) fun _ =>
      evolution.throw _

/-- All that needs room has workspaces evolve so. -/
theorem demanding (closed : tree.Closed needed) :
    Demanding tree needed fun step => step.Evolves evolves :=
  evolution.toEvolutionAround.demanding closed fun step _ => evolution.onRoutine step

/-- Once it has been taken, there is no function. -/
theorem takes : Compilation.takeRoutine.Evolves evolves := by
  intro work
  simp only [leaves, Compilation.takeRoutine_eq]
  cases work.routine with
  | some routine => exact evolution.routine work none
  | none => cases Routine.start [] work.options.tempSlots <;> exact evolution.refl work

end Workspace.Evolution

end NativeExpr
