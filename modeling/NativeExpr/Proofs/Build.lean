import NativeExpr.Build
import NativeExpr.Proofs.RegisterPool
import NativeExpr.Proofs.Routine

/-!
# Successful steps of code generation

What the smallest steps have done to the workspace when they succeed.
-/

namespace NativeExpr

/-- Whether a step in a function is taken in a routine: the one being generated or, if there is
none, one that is begun. -/
def Workspace.Opens (work : Workspace) (routine : Routine) : Prop :=
  work.routine = some routine ∨
    work.routine = none ∧
      ∃ parameters, Routine.start parameters work.options.tempSlots = .ok routine

/-- The label of a node, zero if it has none. -/
def Workspace.label (work : Workspace) (id : NodeId) : Nat := work.labels[id]?.getD 0

namespace Build

variable {before after : Workspace} {routine : Routine} {register : Register} {α : Type}

theorem lift_eq_ok {result : Except CompileError α} {value : α} :
    lift result before = .ok value after ↔ result = .ok value ∧ after = before := by
  cases result with
  | error error => simp [lift, estate_throw_ne_ok]
  | ok value => simp [lift, estate_pure_eq_ok, eq_comm]

theorem count_eq_ok {change : Statistics → Statistics} {value : Unit} :
    count change before = .ok value after ↔
      after = { before with statistics := change before.statistics } := by
  rw [count, estate_modify_eq_ok, eq_comm]

theorem lift_ok {result : Except CompileError α} {value : α} (succeeds : result = .ok value) :
    lift result before = .ok value before :=
  lift_eq_ok.mpr ⟨succeeds, rfl⟩

theorem node_ok {tree : Tree} {id : NodeId} {node : Node} (found : tree.node? id = some node) :
    tree.node id = .ok node := by
  simp only [Tree.node, found]

/-- The label of a node that exists is looked up. -/
theorem label_eq {tree : Tree} {id : NodeId} {node : Node} (found : tree.node? id = some node)
    (work : Workspace) :
    label tree id work = match work.labels[id]? with
      | some count => .ok count work
      | none => .error (.unlabeled id) work := by
  simp only [label, node_ok found]
  change (match work.labels[id]? with
    | some count => _
    | none => _ : Build Nat) work = _
  cases work.labels[id]? <;> rfl

/-- Asking for a label gives it and changes nothing. -/
theorem found_of_label {tree : Tree} {id : NodeId} {count : Nat}
    (labeled : label tree id before = .ok count after) :
    before.labels[id]? = some count ∧ after = before := by
  simp only [label, estate_bind_eq_ok, lift_eq_ok, estate_get_eq_ok] at labeled
  obtain ⟨_, work, ⟨_, rfl⟩, _, _, ⟨rfl, rfl⟩, labeled⟩ := labeled
  cases found : work.labels[id]? with
  | some count =>
    simp only [found, estate_pure_eq_ok] at labeled
    exact ⟨congrArg some labeled.1, labeled.2.symm⟩
  | none =>
    simp only [found] at labeled
    exact absurd labeled estate_throw_ne_ok

/-- Asking for a label changes nothing. -/
theorem of_label {tree : Tree} {id : NodeId} {count : Nat}
    (labeled : label tree id before = .ok count after) : after = before :=
  (found_of_label labeled).2

theorem withPool_eq (change : RegisterPool → Except RegisterError (α × RegisterPool))
    (work : Workspace) :
    withPool change work = match change work.pool with
      | .ok (value, pool) => .ok value { work with pool := pool }
      | .error cause => .error (.registers cause) work := by
  change (match change work.pool with
    | .ok (value, pool) => _
    | .error cause => _ : Build α) work = _
  cases change work.pool <;> rfl

theorem tryRegister_eq (bank : Bank) (owner : Option NodeId) (hint : Option Register)
    (work : Workspace) :
    tryRegister bank owner hint work = match work.pool.allocate bank owner hint .empty with
      | .ok (register, pool) => .ok (some register) { work with pool := pool }
      | .error _ => .ok none work := by
  change (match work.pool.allocate bank owner hint .empty with
    | .ok (register, pool) => _
    | .error cause => _ : Build (Option Register)) work = _
  cases work.pool.allocate bank owner hint .empty <;> rfl

/-- Asking for a register never fails, whether one is found or not. -/
theorem tryRegister_ok (bank : Bank) (owner : Option NodeId) (hint : Option Register)
    (work : Workspace) : ∃ found after, tryRegister bank owner hint work = .ok found after := by
  rw [tryRegister_eq]
  split
  · exact ⟨_, _, rfl⟩
  · exact ⟨_, _, rfl⟩

theorem withPool_eq_ok {change : RegisterPool → Except RegisterError (α × RegisterPool)}
    {value : α} :
    withPool change before = .ok value after ↔
      ∃ pool, change before.pool = .ok (value, pool) ∧ after = { before with pool := pool } := by
  rw [withPool_eq]
  cases change before.pool with
  | ok found =>
    obtain ⟨found, pool⟩ := found
    simp [and_assoc, eq_comm]
  | error cause => simp

theorem of_freeRegister {value : Unit} (freed : freeRegister register before = .ok value after) :
    ∃ pool, before.pool.release register = .ok pool ∧ after = { before with pool := pool } := by
  obtain ⟨pool, released, rfl⟩ := withPool_eq_ok.mp freed
  cases outcome : before.pool.release register with
  | error error => simp [outcome, Except.map] at released
  | ok released =>
    simp only [outcome, Except.map, Except.ok.injEq, Prod.mk.injEq] at *
    exact ⟨pool, by simp_all, rfl⟩

/-- A register that is found belongs to the bank and was free; none is found without change. -/
theorem of_tryRegister {bank : Bank} {owner : Option NodeId} {hint found : Option Register}
    (tried : tryRegister bank owner hint before = .ok found after) :
    (found = none ∧ after = before) ∨
      ∃ register, found = some register ∧ register.bank = bank ∧
        before.pool.allocatable.contains register ∧ ¬before.pool.live.contains register ∧
        after = { before with pool := before.pool.assign register owner } := by
  rw [tryRegister_eq] at tried
  cases allocated : before.pool.allocate bank owner hint .empty with
  | ok result =>
    simp only [allocated, EStateM.Result.ok.injEq] at tried
    obtain ⟨rfl, rfl⟩ := tried
    obtain ⟨own, allowed, free, same⟩ := RegisterPool.of_allocate allocated
    exact .inr ⟨result.1, rfl, own, allowed, free, by rw [same]⟩
  | error cause =>
    simp only [allocated, EStateM.Result.ok.injEq] at tried
    exact .inl ⟨tried.1.symm, tried.2.symm⟩

theorem of_routine (done : Build.routine tree before = .ok routine after) :
    before.Opens routine ∧ after = { before with routine := some routine } := by
  simp only [Build.routine, estate_bind_eq_ok, estate_get_eq_ok] at done
  obtain ⟨_, _, ⟨rfl, rfl⟩, done⟩ := done
  cases begun : before.routine with
  | some started =>
    simp only [begun, estate_pure_eq_ok] at done
    obtain ⟨rfl, rfl⟩ := done
    exact ⟨.inl begun, by rw [← begun]⟩
  | none =>
    simp only [begun, estate_bind_eq_ok, lift_eq_ok, estate_get_eq_ok] at done
    obtain ⟨parameters, work, ⟨_, rfl⟩, _, _, ⟨rfl, rfl⟩, done⟩ := done
    cases started : Routine.start parameters work.options.tempSlots with
    | error cause =>
      simp only [started] at done
      exact absurd done estate_throw_ne_ok
    | ok opened =>
      simp only [started, estate_bind_eq_ok, estate_modify_eq_ok, estate_pure_eq_ok] at done
      obtain ⟨_, _, rfl, rfl, rfl⟩ := done
      exact ⟨.inr ⟨begun, parameters, started⟩, rfl⟩

/-- A step is taken in the function being generated, which is begun if there is none. -/
theorem of_onRoutine {step : Routine.Step α} {value : α}
    (done : onRoutine tree step before = .ok value after) :
    ∃ routine later, before.Opens routine ∧ step routine = .ok value later ∧
      after = { before with routine := some later } := by
  simp only [onRoutine, estate_bind_eq_ok] at done
  obtain ⟨routine, between, opening, done⟩ := done
  obtain ⟨opens, rfl⟩ := of_routine opening
  cases stepped : step routine with
  | error cause later =>
    simp only [stepped, estate_bind_eq_ok] at done
    obtain ⟨_, _, _, thrown⟩ := done
    exact absurd thrown estate_throw_ne_ok
  | ok found later =>
    simp only [stepped, estate_bind_eq_ok, estate_modify_eq_ok, estate_pure_eq_ok] at done
    obtain ⟨_, _, rfl, rfl, rfl⟩ := done
    exact ⟨routine, later, opens, stepped, rfl⟩

/-- A function that is being generated goes on. -/
theorem routine_ok (tree : Tree) (begun : before.routine = some routine) :
    Build.routine tree before = .ok routine before := by
  simp only [Build.routine, estate_bind_eq_ok, estate_get_eq_ok]
  exact ⟨before, before, ⟨rfl, rfl⟩, by rw [begun]; rfl⟩

theorem onRoutine_eq_ok {tree : Tree} {step : Routine.Step α} {value : α}
    (begun : before.routine = some routine) :
    onRoutine tree step before = .ok value after ↔
      ∃ later, step routine = .ok value later ∧ after = { before with routine := some later } := by
  constructor
  · intro done
    obtain ⟨opened, later, opens | ⟨unbegun, _⟩, stepped, rfl⟩ := of_onRoutine done
    · obtain rfl := Option.some.inj (begun.symm.trans opens)
      exact ⟨later, stepped, rfl⟩
    · rw [begun] at unbegun
      cases unbegun
  · rintro ⟨later, stepped, rfl⟩
    simp only [onRoutine, estate_bind_eq_ok, routine_ok tree begun]
    refine ⟨routine, before, rfl, ?_⟩
    simp only [stepped, estate_bind_eq_ok, estate_modify_eq_ok, estate_pure_eq_ok]
    exact ⟨(), _, rfl, trivial, rfl⟩

/-- What becomes of a step in the function being generated, whether it succeeds or not. -/
theorem onRoutine_eq (tree : Tree) (step : Routine.Step α) (begun : before.routine = some routine) :
    onRoutine tree step before = match step routine with
      | .ok value later => .ok value { before with routine := some later }
      | .error cause later => .error (.encoding cause) { before with routine := some later } := by
  simp only [onRoutine, Bind.bind, EStateM.bind, routine_ok tree begun]
  cases step routine <;> rfl

/-- Writing in the function being generated. -/
theorem of_write {tree : Tree} {requests : List Request} {value : Unit}
    (begun : before.routine = some routine)
    (written : onRoutine tree (Routine.write requests) before = .ok value after) :
    ∃ instructions, assemble requests = ⟨instructions, none⟩ ∧
      after = { before with routine := some (routine.append instructions) } := by
  obtain ⟨later, stepped, rfl⟩ := (onRoutine_eq_ok begun).mp written
  obtain ⟨instructions, granted, rfl⟩ := Routine.write_eq_ok.mp stepped
  exact ⟨instructions, granted, rfl⟩

end Build

end NativeExpr
