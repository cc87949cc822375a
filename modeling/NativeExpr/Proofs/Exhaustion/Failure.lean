import NativeExpr.Proofs.Generation.Closure
import NativeExpr.Proofs.Ledger.Pool

/-!
# What is left when room runs out

A value that is to be put away goes to a slot if no register is free, so it finds no room only
where neither is left. The left operand of arithmetic has to be in a register: it is refused for
want of a register alone, however many slots there are.
-/

namespace NativeExpr

/-- Whether no register of a bank can be handed out. -/
def Workspace.NoRegister (work : Workspace) (bank : Bank) : Prop :=
  ∀ register : Register, register.bank = bank → work.pool.isFree register = false

/-- Whether there is a function that is being generated, but no slot that can be handed out. -/
def Workspace.NoSlot (work : Workspace) : Prop :=
  ∃ routine, work.routine = some routine ∧ routine.frame.free = []

/-- Whether room has run out for whatever is done, as far as it could have used room. -/
structure Workspace.Exhausted (work : Workspace) (bank : Bank) (activity : String) : Prop where
  registers : work.NoRegister bank
  slots : activity ≠ "evaluating an arithmetic operand" → work.NoSlot

theorem RegisterPool.isFree_of_refused {pool : RegisterPool} {bank : Bank} {owner : Option NodeId}
    {hint : Option Register} {cause : RegisterError}
    (refused : pool.allocate bank owner hint .empty = .error cause) {register : Register}
    (own : register.bank = bank) : pool.isFree register = false := by
  have none : ((pool.freeIn bank).membersIn bank).length = 0 := freeCount_of_refused refused
  rw [List.length_eq_zero_iff] at none
  rw [← Bool.not_eq_true]
  intro free
  simp only [isFree, Bool.and_eq_true, Bool.not_eq_eq_eq_not, Bool.not_true] at free
  have listed : register ∈ (pool.freeIn bank).membersIn bank := by
    rw [RegisterSet.mem_membersIn, contains_freeIn]
    exact ⟨own, own, free.1, by simp [free.2]⟩
  rw [none] at listed
  exact List.not_mem_nil listed

/-- Whether a step fails for want of room only where there is none. -/
def Build.Exhausts {α : Type} (step : Build α) : Prop :=
  ∀ (work : Workspace) bank activity after,
    step work = .error (.exhausted bank activity) after → after.Exhausted bank activity

namespace Build

variable {tree : Tree} {α β : Type}

theorem exhausts_pure (value : α) : (pure value : Build α).Exhausts := by
  rintro work bank activity after ⟨⟩

theorem exhausts_chain {step : Build α} {next : α → Build β} (first : step.Exhausts)
    (rest : ∀ value, step.Returns value → (next value).Exhausts) : (step >>= next).Exhausts := by
  intro work bank activity after failed
  simp only [Bind.bind, EStateM.bind] at failed
  cases done : step work with
  | ok value between =>
    rw [done] at failed
    exact rest value ⟨work, between, done⟩ between bank activity after failed
  | error cause between =>
    rw [done] at failed
    cases failed
    exact first work bank activity after done

theorem exhausts_bind {step : Build α} {next : α → Build β} (first : step.Exhausts)
    (rest : ∀ value, (next value).Exhausts) : (step >>= next).Exhausts :=
  exhausts_chain first fun value _ => rest value

theorem exhausts_throw {cause : CompileError} (other : cause.isExhaustion = false) :
    (throw cause : Build α).Exhausts := by
  rintro work bank activity after ⟨⟩
  cases other

theorem exhausts_modify (change : Workspace → Workspace) :
    (modify change : Build Unit).Exhausts := by
  rintro work bank activity after ⟨⟩

theorem exhausts_get : (get : Build Workspace).Exhausts := by
  rintro work bank activity after ⟨⟩

theorem exhausts_lift {result : Except CompileError α} (spared : CompileError.Spared result) :
    (lift result).Exhausts := by
  cases result with
  | ok value => exact exhausts_pure value
  | error cause => exact exhausts_throw (spared.isExhaustion cause rfl)

theorem exhausts_label (id : NodeId) : (label tree id).Exhausts := by
  refine exhausts_bind (exhausts_lift (tree.spared_node id)) fun _ =>
    exhausts_bind exhausts_get fun work => ?_
  cases work.labels[id]? with
  | some count => exact exhausts_pure count
  | none => exact exhausts_throw rfl

theorem exhausts_onRoutine (step : Routine.Step α) : (onRoutine tree step).Exhausts := by
  have opens : (routine tree).Exhausts := by
    refine exhausts_bind exhausts_get fun work => ?_
    cases work.routine with
    | some routine => exact exhausts_pure routine
    | none =>
      refine exhausts_bind (exhausts_lift tree.spared_inferParameters) fun parameters =>
        exhausts_bind exhausts_get fun work => ?_
      cases Routine.start parameters work.options.tempSlots with
      | ok routine => exact exhausts_bind (exhausts_modify _) fun _ => exhausts_pure _
      | error cause => exact exhausts_throw rfl
  refine exhausts_bind opens fun routine => ?_
  cases step routine with
  | ok value later => exact exhausts_bind (exhausts_modify _) fun _ => exhausts_pure _
  | error cause later => exact exhausts_bind (exhausts_modify _) fun _ => exhausts_throw rfl

theorem exhausts_withPool (change : RegisterPool → Except RegisterError (α × RegisterPool)) :
    (withPool change).Exhausts := by
  intro work bank activity after failed
  rw [withPool_eq] at failed
  split at failed <;> cases failed

/-- A step that needs a register, or something in its place where there is none. -/
theorem exhausts_tryRegister {bank : Bank} {owner : Option NodeId} {hint : Option Register}
    {next : Option Register → Build α} (found : ∀ register, (next (some register)).Exhausts)
    (missed : ∀ (work : Workspace) other activity after, work.NoRegister bank →
      next none work = .error (.exhausted other activity) after → after.Exhausted other activity) :
    (tryRegister bank owner hint >>= next).Exhausts := by
  intro work other activity after failed
  cases allocated : work.pool.allocate bank owner hint .empty with
  | ok result =>
    simp only [Bind.bind, EStateM.bind, tryRegister_eq, allocated] at failed
    exact found result.1 _ other activity after failed
  | error cause =>
    simp only [Bind.bind, EStateM.bind, tryRegister_eq, allocated] at failed
    exact missed work other activity after
      (fun register own => RegisterPool.isFree_of_refused allocated own) failed

/-- Where no register is free, a step that needs a slot fails only if there is none either. -/
theorem exhausted_of_slot {bank : Bank} {activity : String} {next : Offset → Build α}
    (found : ∀ offset, (next offset).Exhausts) {work after : Workspace} {other : Bank}
    {otherActivity : String} (full : work.NoRegister bank)
    (failed : (onRoutine tree Routine.allocateSlot >>= fun slot => match slot with
      | some offset => next offset
      | none => throw (.exhausted bank activity)) work =
        .error (.exhausted other otherActivity) after) : after.Exhausted other otherActivity := by
  simp only [Bind.bind, EStateM.bind] at failed
  cases allocated : onRoutine tree Routine.allocateSlot work with
  | error cause between =>
    rw [allocated] at failed
    cases failed
    exact exhausts_onRoutine _ work other otherActivity after allocated
  | ok slot between =>
    rw [allocated] at failed
    cases slot with
    | some offset => exact found offset between other otherActivity after failed
    | none =>
      cases failed
      obtain ⟨routine, later, _, stepped, rfl⟩ := of_onRoutine allocated
      obtain ⟨none, rfl⟩ := Routine.allocateSlot_eq_ok.mp stepped
      refine ⟨full, fun _ => ⟨_, rfl, ?_⟩⟩
      simp only [Frame.allocate] at none ⊢
      cases free : routine.frame.free with
      | nil => simp only [free]
      | cons offset rest => simp [free] at none

theorem closed_exhausts (tree : Tree) : Closed tree (fun _ => True) fun step => step.Exhausts where
  operands _ _ _ _ := trivial
  pure := exhausts_pure
  chain := exhausts_chain
  refuse spared := exhausts_throw (CompileError.isExhaustion_of_isSpared spared)
  label id _ := exhausts_label id
  look _ rest := exhausts_bind exhausts_get fun _ => rest _
  count _ := exhausts_modify _
  mark _ _ := exhausts_modify _
  keep _ _ _ := exhausts_modify _
  onRoutine step _ := exhausts_onRoutine step
  freeRegister _ := exhausts_withPool _

/-- Only the left operand of arithmetic is brought into a register that may be overwritten. -/
theorem exhausts_materialize (storage : Storage) (owner : NodeId) (hint : Option Register) :
    (materialize tree storage owner hint "evaluating an arithmetic operand").Exhausts := by
  simp only [materialize]
  cases storage.ownedRegister? with
  | some register => exact exhausts_withPool _
  | none =>
    refine exhausts_tryRegister (fun register => ?_) fun work other activity after full failed => ?_
    · exact exhausts_bind (exhausts_onRoutine _) fun _ =>
        exhausts_bind ((closed_exhausts tree).release storage) fun _ => exhausts_pure _
    · cases failed
      exact ⟨full, fun different => absurd rfl different⟩

theorem exhausts_capture (call : NodeId) (kind : Kind) (hint : Option Register) :
    (Stage.capture tree call kind hint).Exhausts := by
  refine exhausts_bind exhausts_get fun work => exhausts_tryRegister (fun register => ?_)
    fun _ _ _ _ full failed => exhausted_of_slot (fun offset => ?_) full failed
  · exact exhausts_bind (exhausts_onRoutine _) fun _ => exhausts_pure _
  · exact exhausts_bind (exhausts_onRoutine _) fun _ => exhausts_pure _

theorem generative_exhausts (tree : Tree) :
    Generative tree (fun _ => True) fun step => step.Exhausts where
  toClosed := closed_exhausts tree
  materialize := exhausts_materialize
  capture := exhausts_capture

end Build

open Build in
theorem exhausts_compile (tree : Tree) (signature : Signature) (root : NodeId) :
    (compile tree signature root).Exhausts := by
  have takes : Compilation.takeRoutine.Exhausts := by
    intro work bank activity after failed
    rw [Compilation.takeRoutine_eq] at failed
    split at failed
    · cases failed
    · split at failed <;> cases failed
  exact (generative_exhausts tree).compile trivial (exhausts_modify _) (fun _ => exhausts_modify _)
    takes

/-- When a compilation reports that room has run out, no register of the bank that it names is free,
and unless that was for an operand of arithmetic, no slot of the function is free either. -/
theorem compile_exhausted {tree : Tree} {signature : Signature} {root : NodeId}
    {work after : Workspace} {bank : Bank} {activity : String}
    (failed : compile tree signature root work = .error (.exhausted bank activity) after) :
    (∀ register : Register, register.bank = bank → after.pool.isFree register = false) ∧
      (activity = "evaluating an arithmetic operand" ∨
        ∃ routine, after.routine = some routine ∧ routine.frame.free = []) := by
  obtain ⟨registers, slots⟩ := exhausts_compile tree signature root work bank activity after failed
  refine ⟨registers, ?_⟩
  by_cases operand : activity = "evaluating an arithmetic operand"
  · exact .inl operand
  · exact .inr (slots operand)

/-- The result of a call finds neither a register nor a slot. -/
theorem compile_exhausted_call :
    let tree : Tree := ⟨#[⟨.ptr, .constant 4096, 1⟩, ⟨.i64, .parameter 0, 2⟩,
      ⟨.i64, .arith .add 1 1, 1⟩, ⟨.i64, .call 0 [], 1⟩, ⟨.i64, .arith .add 2 3, 0⟩]⟩
    ∃ after, compile tree ⟨[.i64], .i64⟩ 4 (.new ⟨1, 0, 0⟩) =
        .error (.exhausted .generalPurpose "capturing a call result") after ∧
      after.pool.isFree .rax = false ∧
      ∃ routine, after.routine = some routine ∧ routine.frame.free = [] := by
  intro tree
  obtain ⟨after, failed, _⟩ : ∃ after, compile tree ⟨[.i64], .i64⟩ 4 (.new ⟨1, 0, 0⟩) =
      .error (.exhausted .generalPurpose "capturing a call result") after ∧ True := by
    decide +kernel
  obtain ⟨registers, operand | slots⟩ := compile_exhausted failed
  · exact absurd operand (by decide)
  · exact ⟨after, failed, registers .rax rfl, slots⟩

/-- Of one register, a sum that is subtracted from a parameter takes it. The parameter is refused
for want of a register while every slot is free: nothing moves the sum out of the way. -/
theorem compile_exhausted_beside_slots :
    let tree : Tree := ⟨#[⟨.i64, .parameter 0, 1⟩, ⟨.i64, .parameter 0, 1⟩, ⟨.i64, .constant 1, 1⟩,
      ⟨.i64, .arith .add 1 2, 1⟩, ⟨.i64, .arith .sub 0 3, 0⟩]⟩
    ∃ after, compile tree ⟨[.i64], .i64⟩ 4 (.new ⟨1, 15, 16⟩) =
        .error (.exhausted .generalPurpose "evaluating an arithmetic operand") after ∧
      after.routine.map (fun routine => routine.frame.free.length) = some 16 := by
  decide +kernel

end NativeExpr
