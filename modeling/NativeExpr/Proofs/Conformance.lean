import NativeExpr.Proofs.Entry
import NativeExpr.Proofs.Preservation.Undisturbed

/-!
# Compiled functions conform to the convention

`compile_executes` follows a compiled function from the state in which it is entered to its
return. The frame that the prologue has set up is intact when the epilogue begins, since what is
generated in between writes below it only, and so the caller gets back what belongs to it.
-/

namespace NativeExpr

/-- Whether the arguments that a function is entered with are words that the parameter nodes of a
tree may stand for. -/
def Machine.Supplies (entry : Machine) (tree : Tree) (parameters : List Kind)
    (means : NodeId → Word → Prop) : Prop :=
  ∀ (id : NodeId) (node : Node) (index : Nat) (place : Place), tree.node? id = some node →
    node.operation = .parameter index → (Convention.places parameters)[index]? = some place →
      means id (entry.received place)

/-- The states in which a function that is compiled for a tree may call others when it is entered in
a state: the stack is below the return address, as far as the nodes of the tree can take it. -/
def Machine.Beneath (entry : Machine) (tree : Tree) : Machine → Prop :=
  Within (entry.get .rsp - 8) (512 * tree.size + 2 ^ 34)

/-- What is called ahead of a state of a function that has been entered is called beneath the return
address, if the stack is not far below it yet. -/
theorem Machine.Ahead.beneath {entry machine later : Machine} {tree : Tree}
    (ahead : machine.Ahead tree later) (base : machine.get .rbp = entry.get .rsp - 8)
    (depth : machine.depth ≤ 56 + 2 ^ 31) : entry.Beneath tree later := by
  refine ⟨ahead.1.trans base, ahead.2.trans ?_⟩
  omega

/-- What a compiled function does between two states. The words that it writes after its prologue
are below the registers that the prologue saves. -/
structure Compiled.Executes (compiled : Compiled) (tree : Tree) (natives : Natives)
    (means : NodeId → Word → Prop) (root : NodeId) (kind : Kind) (called : List NodeId)
    (entry final : Machine) : Prop where
  run : entry.run natives compiled.instructions = some final
  result : means root (final.get (Convention.resultRegister kind.bank))
  stack : final.get .rsp = entry.get .rsp
  saved : ∀ register ∈ .rbp :: Convention.calleeSaved, final.get register = entry.get register
  returns : final.load (entry.get .rsp) = entry.load (entry.get .rsp)
  writes : ∃ size prologue body,
    assemble (Transfer.prologue Convention.calleeSaved size) = ⟨prologue, none⟩ ∧
      compiled.instructions = prologue ++ body ∧
      (entry.after natives prologue).get .rbp = entry.get .rsp - 8 ∧
      entry.Writes natives (fun place => 8 ≤ (entry.get .rsp - place).toNat ∧
        (entry.get .rsp - place).toNat ≤ 48) prologue ∧
      (entry.after natives prologue).Writes natives (fun place =>
        56 ≤ (entry.get .rsp - place).toNat ∧
          (entry.get .rsp - place).toNat ≤ 512 * tree.size + 2 ^ 34) body
  calls : List.Forall₂ (tree.Called means) (entry.calls natives compiled.instructions) called

/-- What keeps what is in use keeps the frame: the words above the body are in no slot. -/
theorem Workspace.Standing.framed {tree : Tree} {natives : Natives} {means : NodeId → Word → Prop}
    {work : Workspace} {routine : Routine} {entry machine later : Machine}
    (standing : work.Standing tree means routine machine)
    (keeps : (runFrom tree natives means routine machine).Keeps (.ofStanding work routine) later)
    (framed : entry.Framed machine) : entry.Framed later := by
  have base := keeps.base
  have memory := keeps.memory
  rw [Site.ofStanding, state_runFrom_self] at base memory
  refine framed.keep base fun place inside within => memory place inside ?_ fun slot free => ?_
  · have below := standing.below
    omega
  · have distance := (standing.frame.free slot free).distance machine
    simp only [Machine.below, BitVec.toNat_sub] at distance inside within ⊢
    omega

/-- The frame of a function that has just been begun has a home for each parameter, and its body
is no larger than what an offset can tell. -/
theorem Routine.frame_of_start {parameters : List Kind} {slots : Nat} {started : Routine}
    (starting : start parameters slots = .ok started)
    (small : slots + parameters.length ≤ 2 ^ 28 - 5) :
    started.frame.Sound ∧ started.frame.size.toNat ≤ 2 ^ 31 ∧
      started.frame.homes.length = parameters.length := by
  have body := Frame.toNat_bodySize (Nat.add_comm _ parameters.length ▸ small)
  refine ⟨frame_eq_of_start starting ▸ Frame.sound_new small, ?_, length_homes_of_start starting⟩
  rw [frame_eq_of_start starting]
  change (Frame.bodySize (parameters.length + slots)).toNat ≤ 2 ^ 31
  omega

namespace Routine.Entered

variable {tree : Tree} {natives : Natives} {means : NodeId → Word → Prop} {entry : Machine}
variable {opened : Routine} {parameters : List Kind} {prologue homing : List Instruction}
variable {instructions closing : List Instruction} {called : List NodeId}

/-- A function that has just been entered stands if only constants are kept: no slot is in use yet,
and its parameters have what they stand for in their homes. -/
theorem standing {work : Workspace} {slots : Nat}
    (entered : Entered natives entry opened.frame (Convention.places parameters) prologue homing)
    (starting : Routine.start parameters slots = .ok opened)
    (small : slots + parameters.length ≤ 2 ^ 28 - 5) (pool : work.pool.Sound)
    (begun : work.routine = some opened)
    (constants : ∀ (id : NodeId) (storage : Storage), work.caches[id]? = some storage →
      storage.kind = tree.kindOf id ∧
        ∃ bits, storage.location = .constant bits ∧ means id bits)
    (supplies : entry.Supplies tree parameters means) :
    work.Standing tree means opened (entry.after natives (prologue ++ homing)) where
  begun := begun
  pool := pool
  frame := (frame_of_start starting small).1
  below := entered.depth.ge
  above := by
    rw [entered.depth]
    exact Nat.le_trans (Nat.add_le_add_left (frame_of_start starting small).2.1 56) (by decide)
  kept id storage cached := by
    obtain ⟨kind, bits, location, holds⟩ := constants id storage cached
    rw [location]
    exact ⟨kind, trivial, holds⟩
  bank id storage register cached location := by
    obtain ⟨_, bits, constant, _⟩ := constants id storage cached
    rw [location] at constant
    cases constant
  parameters index home id node homed found here := by
    have placed : index < (Convention.places parameters).length := by
      rw [Convention.places, Assigner.length_assignAll, ← (frame_of_start starting small).2.2]
      exact (List.getElem?_eq_some_iff.mp homed).1
    have place := List.getElem?_eq_getElem placed
    rw [entered.homes index home _ homed place]
    exact supplies id node index _ found here place

/-- After the prologue a function writes below the registers that the prologue saves. -/
theorem writes_body
    (entered : Entered natives entry opened.frame (Convention.places parameters) prologue homing)
    (size : opened.frame.size.toNat ≤ 2 ^ 31)
    (emits : (Workspace.runFrom tree natives means opened
      (entry.after natives (prologue ++ homing))).Emits (entry.after natives (prologue ++ homing))
        instructions called)
    (quiet : Quiet closing) :
    (entry.after natives prologue).Writes natives
      (fun place => 56 ≤ (entry.get .rsp - place).toNat ∧
        (entry.get .rsp - place).toNat ≤ 512 * tree.size + 2 ^ 34)
      (homing ++ instructions ++ closing ++ [.ret]) := by
  have base := entered.framed.base
  have depth : (entry.after natives (prologue ++ homing)).depth ≤ 56 + 2 ^ 31 :=
    entered.depth.trans_le (Nat.add_le_add_left size 56)
  have opening : entry.after natives (prologue ++ homing) =
      (entry.after natives prologue).after natives homing := Machine.after_append ..
  rw [Machine.writes_append, Machine.writes_append, Machine.writes_append, ← opening]
  refine ⟨⟨⟨entered.fills.mono fun place allowed => ?_, emits.writes.mono fun place allowed => ?_⟩,
    quiet.writes ..⟩, fun place target => ?_, trivial⟩
  · exact ⟨allowed.1, allowed.2.trans ((Nat.add_le_add_left size 48).trans (by omega))⟩
  · have within := Nat.le_trans allowed.2 (Nat.min_le_left ..)
    have low := allowed.1
    generalize (entry.after natives (prologue ++ homing)).depth = deep at depth within
    simp only [Machine.below, base, BitVec.toNat_sub, BitVec.toNat_add, BitVec.reduceToNat]
      at low within ⊢
    omega
  · cases target

/-- A function calls what is called between its prologue and its epilogue. -/
theorem calls_body
    (entered : Entered natives entry opened.frame (Convention.places parameters) prologue homing)
    (straight : Straight closing) :
    entry.calls natives (prologue ++ (homing ++ instructions ++ closing ++ [.ret])) =
      (entry.after natives (prologue ++ homing)).calls natives instructions := by
  have whole : prologue ++ (homing ++ instructions ++ closing ++ [.ret]) =
      (prologue ++ homing) ++ instructions ++ closing ++ [.ret] := by
    simp only [List.append_assoc]
  rw [whole, Machine.calls_append, Machine.calls_append, Machine.calls_append,
    entered.straight.calls, straight.calls]
  simp [Machine.calls]

/-- A function that is entered runs through its body and its epilogue to its return. -/
theorem run_body
    (entered : Entered natives entry opened.frame (Convention.places parameters) prologue homing)
    (noReturn : Instruction.ret ∉ instructions) (straight : Straight closing) :
    entry.run natives (prologue ++ (homing ++ instructions ++ closing ++ [.ret])) =
      some (((entry.after natives (prologue ++ homing)).after natives instructions).after natives
        closing) := by
  have whole : prologue ++ (homing ++ instructions ++ closing ++ [.ret]) =
      (prologue ++ homing) ++ instructions ++ closing ++ [.ret] := by
    simp only [List.append_assoc]
  have returns : Instruction.ret ∉ (prologue ++ homing) ++ instructions ++ closing := by
    rw [List.mem_append, List.mem_append, not_or, not_or]
    exact ⟨⟨entered.straight.ret, noReturn⟩, straight.ret⟩
  rw [whole, Machine.run_append_ret natives returns, Machine.after_append, Machine.after_append]

end Routine.Entered

/-- A compiled function runs to its return: it returns what the root stands for, the call nodes
that the root needs have called, and the caller gets back what belongs to it. -/
theorem compile_executes {tree : Tree} {signature : Signature} {root : NodeId}
    {work after : Workspace} {compiled : Compiled} {natives : Natives}
    {means : NodeId → Word → Prop} {entry : Machine} (formed : tree.Formed)
    (fits : tree.size ≤ 2 ^ 52) (configured : work.Configured)
    (small : work.options.tempSlots + signature.parameters.length ≤ 2 ^ 28 - 5)
    (lawful : tree.Lawful natives (entry.Beneath tree) means)
    (supplies : entry.Supplies tree signature.parameters means)
    (done : compile tree signature root work = .ok compiled after) :
    ∃ final, compiled.Executes tree natives means root signature.result
      ((Generation.order tree tree.size after.label (fun _ => false) root).filter tree.isCall)
      entry final := by
  obtain ⟨labels, started, result, generated, released, _, declared, starting, generating, releasing,
    finishing⟩ := of_compile done
  obtain ⟨prologue, homing, rfl, entered⟩ := Routine.entered starting small natives entry
  let opened := (Routine.new signature.parameters work.options.tempSlots).append (prologue ++ homing)
  let begun : Workspace := { work.reset with labels := labels, routine := some opened }
  have size : opened.frame.size.toNat ≤ 2 ^ 31 := (Routine.frame_of_start starting small).2.1
  have standing : begun.Standing tree means opened (entry.after natives (prologue ++ homing)) :=
    entered.standing starting small configured.sound_reset rfl
      (fun id storage cached => by simp [begun, Workspace.reset] at cached) supplies
  obtain ⟨instructions, later, code, emits, keeps, _, holds, there⟩ :=
    standing.visit formed fits (lawful.mono fun _ ahead => ahead.beneath entered.framed.base
      (entered.depth.trans_le (Nat.add_le_add_left size 56))) generating
  obtain ⟨finished, here, unchanged, _⟩ := Build.code_of_release there.begun releasing
  obtain ⟨⟨ended, leaving, compiledCode⟩, _, last⟩ := Compilation.of_finish here finishing
  obtain ⟨closing, straight, quiet, endedCode, returns⟩ := Routine.leave_returns leaving
  have whole : compiled.instructions = prologue ++ (homing ++ instructions ++ closing ++ [.ret]) := by
    have opening : opened.code.toList = prologue ++ homing := by
      simp [opened, Routine.new]
    rw [compiledCode, endedCode, unchanged, code, opening]
    simp only [List.append_assoc]
  have labeled : after.label = begun.label := by
    have follows := Generation.within_follows tree tree.size begun opened root _ result generated
      rfl generating
    have gaveBack := Build.advances_of_release there.begun releasing
    rw [← follows.label, ← gaveBack.label, last]
    rfl
  have unkept : begun.keeps = fun _ => false := by
    funext id
    simp [begun, Workspace.keeps, Workspace.reset]
  obtain ⟨value, stack, saved, top⟩ :=
    returns natives entry _ (standing.framed keeps entered.framed)
  refine ⟨((entry.after natives (prologue ++ homing)).after natives instructions).after natives
    closing, {
      run := whole ▸ entered.run_body emits.straight straight
      result := value ▸ holds
      stack := stack
      saved := saved
      returns := top
      writes := ⟨opened.frame.size, prologue, _, entered.granted, whole, entered.base,
        entered.saves, entered.writes_body size emits quiet⟩
      calls := ?_ }⟩
  rw [whole, entered.calls_body straight, labeled, ← unkept]
  exact emits.calls

/-- A compiled function obeys the convention towards its caller: when it returns the stack pointer
is at the return address that it was entered with, and the registers that belong to the caller
have their values back. What it writes is below the return address, and after the prologue below
the registers that the prologue has saved. -/
theorem compile_conforms {tree : Tree} {signature : Signature} {root : NodeId}
    {work after : Workspace} {compiled : Compiled} {natives : Natives}
    {means : NodeId → Word → Prop} {entry : Machine} (built : tree.Built)
    (fits : tree.size ≤ 2 ^ 52) (configured : work.Configured)
    (small : work.options.tempSlots + signature.parameters.length ≤ 2 ^ 28 - 5)
    (lawful : tree.Lawful natives (entry.Beneath tree) means)
    (supplies : entry.Supplies tree signature.parameters means)
    (room : 512 * tree.size + 2 ^ 34 ≤ (entry.get .rsp).toNat)
    (done : compile tree signature root work = .ok compiled after) :
    (∃ final, entry.run natives compiled.instructions = some final ∧
      final.get .rsp = entry.get .rsp ∧
      final.load (final.get .rsp) = entry.load (entry.get .rsp) ∧
      ∀ register ∈ .rbp :: Convention.calleeSaved, final.get register = entry.get register) ∧
    ∃ size prologue body,
      assemble (Transfer.prologue Convention.calleeSaved size) = ⟨prologue, none⟩ ∧
      compiled.instructions = prologue ++ body ∧
      ∀ before instruction later place,
        compiled.instructions = before ++ instruction :: later →
        instruction.target? (entry.after natives before) = some place →
        place.toNat + 8 ≤ (entry.get .rsp).toNat ∧
          (prologue.length ≤ before.length →
            place.toNat + 8 + 40 ≤ ((entry.after natives prologue).get .rbp).toNat) := by
  obtain ⟨final, executes⟩ :=
    compile_executes built.formed fits configured small lawful supplies done
  obtain ⟨size, prologue, body, granted, whole, base, saves, writes⟩ := executes.writes
  have returned : final.load (final.get .rsp) = entry.load (entry.get .rsp) := by
    rw [executes.stack]
    exact executes.returns
  refine ⟨⟨final, executes.run, executes.stack, returned, executes.saved⟩, size, prologue, body,
    granted, whole, fun before instruction later place split target => ?_⟩
  have frame : ((entry.after natives prologue).get .rbp).toNat + 8 = (entry.get .rsp).toNat := by
    simp only [base, BitVec.toNat_sub, BitVec.reduceToNat]
    omega
  rw [whole] at split
  rcases List.append_eq_append_iff.mp split with ⟨rest, rfl, tail⟩ | ⟨rest, rfl, tail⟩
  · rw [Machine.after_append] at target
    obtain ⟨above, within⟩ := (tail ▸ writes).target target
    rw [BitVec.toNat_sub] at above within
    omega
  · cases rest with
    | nil =>
      rw [List.append_nil] at writes frame ⊢
      rw [List.nil_append] at tail
      obtain ⟨above, within⟩ := (tail.symm ▸ writes).1 place target
      rw [BitVec.toNat_sub] at above within
      omega
    | cons first rest =>
      obtain ⟨rfl, _⟩ := List.cons.inj tail
      obtain ⟨above, within⟩ := saves.target target
      rw [BitVec.toNat_sub] at above within
      rw [List.length_append, List.length_cons]
      omega

/-- A function that calls another one and adds to its result gives the caller its stack and its
registers back. -/
theorem compile_conforms_call :
    let tree : Tree := ⟨#[⟨.ptr, .constant 4096, 1⟩, ⟨.i64, .parameter 0, 2⟩,
      ⟨.i64, .call 0 [1], 1⟩, ⟨.i64, .arith .add 1 2, 0⟩]⟩
    let natives : Natives := fun _ machine => machine.set .rcx 0
    let entry : Machine :=
      ⟨fun register => if register = 4 then 0x7ffffffffff8 else 0, fun _ => 0, fun _ => 0⟩
    ∃ compiled after final,
      compile tree ⟨[.i64], .i64⟩ 3 (.new .default) = .ok compiled after ∧
      entry.run natives compiled.instructions = some final ∧
      final.get .rsp = entry.get .rsp ∧
      ∀ register ∈ .rbp :: Convention.calleeSaved, final.get register = entry.get register := by
  intro tree natives entry
  have leaves : Tree.Built ⟨#[⟨.ptr, .constant 4096, 0⟩, ⟨.i64, .parameter 0, 0⟩]⟩ :=
    .parameter (.constant .empty .ptr 4096) .i64 0
  have called : Tree.Built ⟨#[⟨.ptr, .constant 4096, 1⟩, ⟨.i64, .parameter 0, 1⟩,
      ⟨.i64, .call 0 [1], 0⟩]⟩ :=
    .call leaves (by decide) (rfl : Tree.call _ 0 ⟨[.i64], .i64⟩ [⟨1, .i64⟩] = .ok (2, _))
  have built : tree.Built := .arith called (rfl : Tree.arith _ .add .i64 1 2 = .ok (3, _))
  have preserved : ∀ register ∈ .rsp :: .rbp :: Convention.calleeSaved,
      register.InBank ∧ register ≠ .rcx := by decide
  have lawful : tree.Lawful natives (entry.Beneath tree) fun _ _ => True := {
    constant := fun _ _ _ _ _ => trivial
    arith := fun _ _ _ _ _ _ _ _ _ _ _ => trivial
    preserves := fun _ _ _ _ _ _ _ _ => {
      registers := fun machine _ register listed => Machine.get_set_other machine 0 (by decide)
        (preserved register listed).1 (preserved register listed).2
      memory := fun machine place _ _ _ => congrFun (Machine.memory_set ..) place }
    returns := fun _ _ _ _ _ _ _ _ _ _ => trivial }
  have room : 512 * tree.size + 2 ^ 34 ≤ (entry.get .rsp).toNat := by decide
  have supplies : entry.Supplies tree [.i64] fun _ _ => True := fun _ _ _ _ _ _ _ => trivial
  obtain ⟨compiled, after, done⟩ : ∃ compiled after,
      compile tree ⟨[.i64], .i64⟩ 3 (.new .default) = .ok compiled after := by decide +kernel
  obtain ⟨final, ran, stack, _, saved⟩ :=
    (compile_conforms built (by decide) (Workspace.configured_new .default) (by decide) lawful
      supplies room done).1
  exact ⟨compiled, after, final, done, ran, stack, saved⟩

end NativeExpr
