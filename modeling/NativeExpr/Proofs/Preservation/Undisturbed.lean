import NativeExpr.Proofs.Preservation.Generation

/-!
# Code generation disturbs no live location

A workspace stands in a state of the machine when the code written so far has led there. Whatever
is generated next, and whatever value is moved to a register or parked, the code that is written
leaves the stack where it is and keeps every live register, every home and every slot that is
not free, although the functions that are called may overwrite most registers.
-/

namespace NativeExpr

/-- Whether a location is in use: a live register or a slot that is not free. -/
def Workspace.Uses (work : Workspace) (routine : Routine) : Location → Prop
  | .register register => work.pool.live.contains register
  | .slot slot => routine.frame.Covers slot ∧ slot ∉ routine.frame.free
  | .constant _ => True

/-- Whether a workspace is one of a function that has been begun, whose code has led to a state
with the stack pointer below the frame. The values that are kept for nodes are in locations
that are in use; who owns the others does not matter. -/
structure Workspace.Standing (tree : Tree) (means : NodeId → Word → Prop) (work : Workspace)
    (routine : Routine) (machine : Machine) : Prop where
  begun : work.routine = some routine
  pool : work.pool.Sound
  frame : routine.frame.Sound
  below : 56 + routine.frame.size.toNat ≤ machine.depth
  above : machine.depth ≤ 2 ^ 62
  kept : ∀ (id : NodeId) (storage : Storage), work.caches[id]? = some storage →
    storage.kind = tree.kindOf id ∧ work.Uses routine storage.location ∧
      means id (machine.value storage.location)
  bank : ∀ (id : NodeId) (storage : Storage) (register : Register),
    work.caches[id]? = some storage → storage.location = .register register →
      register.bank = storage.kind.bank
  parameters : ∀ (index : Nat) (home : Offset) (id : NodeId) (node : Node),
    routine.frame.homes[index]? = some home → tree.node? id = some node →
      node.operation = .parameter index → means id (machine.value (.slot home))

/-- Whether a workspace holds the same function with more instructions. -/
def Workspace.Continues (work : Workspace) (routine : Routine) (instructions : List Instruction) :
    Prop :=
  ∃ later, work.routine = some later ∧
    later.code.toList = routine.code.toList ++ instructions

/-- Whether a later state has the stack pointer, the frame pointer, the live registers, the homes
and the slots that are not free as they were. -/
structure Workspace.Undisturbed (work : Workspace) (routine : Routine) (machine later : Machine) :
    Prop where
  stack : later.get .rsp = machine.get .rsp
  base : later.get .rbp = machine.get .rbp
  registers : ∀ register, work.pool.live.contains register →
    later.get register = machine.get register
  homes : ∀ home ∈ routine.frame.homes, later.value (.slot home) = machine.value (.slot home)
  slots : ∀ slot, routine.frame.Covers slot → slot ∉ routine.frame.free →
    later.value (.slot slot) = machine.value (.slot slot)

/-- The states in which the nodes of a tree may call functions from a state on: they have the frame
of that state, and are as far below it as the nodes can take the stack. -/
def Machine.Ahead (machine : Machine) (tree : Tree) : Machine → Prop :=
  Within (machine.get .rbp) (machine.depth + (512 * tree.size + 2 ^ 33))

/-- The site of a workspace that stands: settled are constants, homes and what is kept. -/
def Site.ofStanding (work : Workspace) (routine : Routine) : Site where
  work := work
  routine := routine
  settled location := (∃ bits, location = .constant bits) ∨
    (∃ home ∈ routine.frame.homes, location = .slot home) ∨
    ∃ (id : NodeId) (storage : Storage),
      work.caches[id]? = some storage ∧ location = storage.location

theorem Site.taken_ofStanding {work : Workspace} {routine : Routine} {location : Location} :
    (ofStanding work routine).Taken location ↔ work.Uses routine location := by
  cases location <;> rfl

namespace Workspace

variable {tree : Tree} {natives : Natives} {means : NodeId → Word → Prop} {work after : Workspace}
variable {routine : Routine} {machine later : Machine} {instructions : List Instruction}

/-- The run of a tree from a state on. It may go as far below that state as the nodes of the tree
can take it. -/
def runFrom (tree : Tree) (natives : Natives) (means : NodeId → Word → Prop) (routine : Routine)
    (machine : Machine) : Run where
  tree := tree
  natives := natives
  origin := machine
  written := routine.code.size
  means := means
  limit := min (machine.depth + (512 * tree.size + 2 ^ 33)) (2 ^ 63)
  bounded := Nat.min_le_right ..

theorem state_runFrom {continued : Routine}
    (code : continued.code.toList = routine.code.toList ++ instructions) :
    (runFrom tree natives means routine machine).state continued =
      machine.after natives instructions := by
  simp only [Run.state, runFrom, code, ← Array.length_toList, List.drop_left]

theorem state_runFrom_self :
    (runFrom tree natives means routine machine).state routine = machine :=
  state_runFrom (List.append_nil _).symm

/-- What stands is consistent. -/
theorem Standing.consistent (standing : work.Standing tree means routine machine)
    (natives : Natives) :
    (runFrom tree natives means routine machine).Consistent (.ofStanding work routine) := by
  have home {home : Offset} (listed : home ∈ routine.frame.homes) :
      (Site.ofStanding work routine).Taken (.slot home) :=
    ⟨standing.frame.homes home listed, standing.frame.apart home listed⟩
  exact {
    begun := standing.begun
    base := by rw [Site.ofStanding, state_runFrom_self]; rfl
    written := Nat.le_refl _
    pool := standing.pool
    frame := standing.frame
    below := by
      rw [Site.ofStanding, state_runFrom_self]
      exact standing.below
    room := by
      have below := standing.below
      have above := standing.above
      change 56 + routine.frame.size.toNat ≤ min _ _
      omega
    constants := fun bits => .inl ⟨bits, rfl⟩
    homes := fun home listed => .inr (.inl ⟨home, listed, rfl⟩)
    taken := fun location settled => by
      rcases settled with ⟨bits, rfl⟩ | ⟨place, listed, rfl⟩ | ⟨id, storage, cached, rfl⟩
      · trivial
      · exact home listed
      · exact Site.taken_ofStanding.mpr (standing.kept id storage cached).2.1
    kept := fun id storage cached => by
      obtain ⟨kind, used, means⟩ := standing.kept id storage cached
      refine ⟨.inr (.inr ⟨id, storage, cached, rfl⟩), kind, Site.taken_ofStanding.mpr used,
        fun register => standing.bank id storage register cached, ?_⟩
      rw [Site.ofStanding, state_runFrom_self]
      exact means
    parameters := by
      rw [Site.ofStanding, state_runFrom_self]
      exact standing.parameters }

/-- What is taken at a site is not disturbed by what keeps it. -/
theorem Standing.undisturbed (natives : Natives)
    (standing : work.Standing tree means routine machine)
    (keeps : (runFrom tree natives means routine machine).Keeps (.ofStanding work routine) later)
    (stack : later.get .rsp = machine.get .rsp) : work.Undisturbed routine machine later := by
  have value {location : Location} (used : work.Uses routine location) :
      later.value location = machine.value location := by
    have same := keeps.value (standing.consistent natives) (Site.taken_ofStanding.mpr used)
    rwa [Site.ofStanding, state_runFrom_self] at same
  have base := keeps.base
  rw [Site.ofStanding, state_runFrom_self] at base
  exact {
    stack := stack
    base := base
    registers := fun register live => (value live : later.value (.register register) = _)
    homes := fun home listed =>
      value ⟨standing.frame.homes home listed, standing.frame.apart home listed⟩
    slots := fun slot covered used => value ⟨covered, used⟩ }

/-- A workspace that agrees with a state stands in it. -/
theorem standing_of_consistent {run : Run} {site : Site} (consistent : run.Consistent site)
    (above : (run.state site.routine).depth ≤ 2 ^ 62) :
    site.work.Standing run.tree run.means site.routine (run.state site.routine) where
  begun := consistent.begun
  pool := consistent.pool
  frame := consistent.frame
  below := consistent.below
  above := above
  kept id storage cached := by
    obtain ⟨_, right⟩ := consistent.kept id storage cached
    refine ⟨right.kind, ?_, right.means⟩
    have taken := right.taken
    cases location : storage.location with
    | register register | slot slot =>
      rw [location] at taken
      exact taken
    | constant bits => trivial
  bank id storage register cached location :=
    (consistent.kept id storage cached).2.bank register location
  parameters := consistent.parameters

theorem Undisturbed.refl : work.Undisturbed routine machine machine :=
  ⟨rfl, rfl, fun _ _ => rfl, fun _ _ => rfl, fun _ _ _ => rfl⟩

theorem Continues.refl (begun : work.routine = some routine) : work.Continues routine [] :=
  ⟨routine, begun, (List.append_nil _).symm⟩

/-- The functions that are called in a run are called ahead of its origin. -/
theorem ahead_of_calling {other : Machine}
    (calls : (runFrom tree natives means routine machine).Calling other) :
    machine.Ahead tree other :=
  Machine.Within.mono calls (Nat.min_le_left ..)

/-- Generating a node leads from a workspace that stands to a site that has the value of the node. -/
theorem Standing.generates {id : NodeId} {hint : Option Register} {result : Storage}
    (standing : work.Standing tree means routine machine) (formed : tree.Formed)
    (fits : tree.size ≤ 2 ^ 52) (lawful : tree.Lawful natives (machine.Ahead tree) means)
    (done : Generation.visit tree id hint work = .ok result after) :
    let run := runFrom tree natives means routine machine
    ∃ later : Site, later.work = after ∧ run.Generates (.ofStanding work routine)
      (run.callers (Generation.order tree tree.size work.label work.keeps id)) [(id, result)]
      later := by
  intro run
  have above := standing.above
  have room : (run.state routine).depth + (512 * tree.size + 2 ^ 33) ≤ run.limit := by
    rw [state_runFrom_self]
    change _ ≤ min _ _
    omega
  have visits : run.Visits _ (Generation.visit tree) _ :=
    Run.visits_within formed (lawful.mono fun _ => ahead_of_calling) tree.size
  exact visits.generates (.ofStanding work routine) id hint result after
    (standing.consistent natives) room done

/-- Generating a node keeps what is in use and yields its value, the call nodes among those that
are generated call, and generation may go on where the code leads. -/
theorem Standing.visit {id : NodeId} {hint : Option Register} {result : Storage}
    (standing : work.Standing tree means routine machine) (formed : tree.Formed)
    (fits : tree.size ≤ 2 ^ 52) (lawful : tree.Lawful natives (machine.Ahead tree) means)
    (done : Generation.visit tree id hint work = .ok result after) :
    let run := runFrom tree natives means routine machine
    ∃ instructions later, later.code.toList = routine.code.toList ++ instructions ∧
      run.Emits machine instructions
        (run.callers (Generation.order tree tree.size work.label work.keeps id)) ∧
      run.Keeps (.ofStanding work routine) (machine.after natives instructions) ∧
      (machine.after natives instructions).get .rsp = machine.get .rsp ∧
      means id ((machine.after natives instructions).value result.location) ∧
      after.Standing tree means later (machine.after natives instructions) := by
  intro run
  have above := standing.above
  obtain ⟨later, rfl, generates⟩ := standing.generates formed fits lawful done
  obtain ⟨instructions, code, _, emits⟩ := generates.code
  have state : run.state later.routine = machine.after natives instructions := state_runFrom code
  have stack := generates.stack
  have depth := generates.depth
  rw [Site.ofStanding, state_runFrom_self] at stack depth emits
  refine ⟨instructions, later.routine, code, emits, ?_⟩
  rw [← state]
  exact ⟨generates.toKeeps, stack, (generates.right _ List.mem_cons_self).means,
    standing_of_consistent generates.consistent (depth ▸ above)⟩

/-- Bringing a value into a register that is free keeps what is in use. -/
theorem Standing.fetch (natives : Natives) {register : Register} {source : Location}
    (standing : work.Standing tree means routine machine)
    (allowed : work.pool.allocatable.contains register) (free : ¬work.pool.live.contains register)
    (granted : assemble (Transfer.intoRegister register source) = ⟨instructions, none⟩) :
    (runFrom tree natives means routine machine).Keeps (.ofStanding work routine)
        (machine.after natives instructions) ∧
      (machine.after natives instructions).get .rsp = machine.get .rsp ∧
      (machine.after natives instructions).get register = machine.value source := by
  have consistent := standing.consistent natives
  have usable := standing.pool.usable register allowed
  obtain ⟨value, agree⟩ := Run.agree_intoRegister natives machine usable.inBank source
  rw [← after_of_assemble natives machine granted] at value agree
  refine ⟨?_, agree.get .rsp (by decide) (by simp [usable.ne_rsp.symm]), value⟩
  have here : Machine.AgreeOutside [register, .r11]
      ((runFrom tree natives means routine machine).state
        (Site.ofStanding work routine).routine) (machine.after natives instructions) := by
    rw [Site.ofStanding, state_runFrom_self]
    exact agree
  have fresh : ¬(Site.ofStanding work routine).work.pool.live.contains register := free
  exact Run.Keeps.of_agree consistent here (by simp [usable.ne_rbp.symm])
    (by simpa using ⟨by simpa using fresh, by simpa using consistent.scratch⟩)

/-- Storing a register in a slot that is free keeps what is in use. -/
theorem keeps_spill (natives : Natives) {offset : Offset} {register : Register}
    (free : offset ∈ routine.frame.free)
    (granted : assemble [.store .rbp offset register] = ⟨instructions, none⟩) :
    (runFrom tree natives means routine machine).Keeps (.ofStanding work routine)
        (machine.after natives instructions) ∧
      (machine.after natives instructions).get .rsp = machine.get .rsp ∧
      (machine.after natives instructions).value (.slot offset) = machine.get register := by
  have stored : machine.after natives instructions =
      machine.store (machine.slot offset) (machine.get register) :=
    after_of_assemble natives machine granted
  have keeps := Run.Keeps.of_store (runFrom tree natives means routine machine)
    (.ofStanding work routine) free (machine.get register)
  rw [Site.ofStanding, state_runFrom_self] at keeps
  rw [stored]
  refine ⟨keeps, Machine.get_store .., ?_⟩
  simp only [Machine.value, Machine.get_store]
  exact Machine.load_store ..

/-- Moving a value to a register disturbs nothing. -/
theorem Standing.moveToRegister {storage result : Storage} {register : Register}
    (standing : work.Standing tree means routine machine)
    (done : Build.moveToRegister tree storage register work = .ok result after) :
    ∃ instructions, after.Continues routine instructions ∧
      work.Undisturbed routine machine (machine.after natives instructions) ∧
      (machine.after natives instructions).value result.location =
        machine.value storage.location := by
  rcases Build.of_moveToRegister standing.begun done with
    ⟨rfl, rfl⟩ | ⟨instructions, later, allowed, free, granted, rfl, begun, code⟩
  · exact ⟨[], .refl standing.begun, .refl, rfl⟩
  · obtain ⟨keeps, stack, value⟩ := standing.fetch natives allowed free granted
    exact ⟨instructions, ⟨later, begun, by rw [code, Routine.code_append]⟩,
      standing.undisturbed natives keeps stack, value⟩

/-- Parking a value disturbs nothing. -/
theorem Standing.park {storage result : Storage}
    (standing : work.Standing tree means routine machine)
    (done : Build.park tree storage work = .ok result after) :
    ∃ instructions, after.Continues routine instructions ∧
      work.Undisturbed routine machine (machine.after natives instructions) ∧
      (machine.after natives instructions).value result.location =
        machine.value storage.location := by
  rcases Build.of_park standing.begun done with
    ⟨rfl, rfl⟩ | ⟨register, offset, rest, instructions, pool, owned, free, rfl, granted, _, same, _⟩
  · exact ⟨[], .refl standing.begun, .refl, rfl⟩
  · obtain ⟨keeps, stack, value⟩ := keeps_spill natives (free ▸ List.mem_cons_self) granted
    have continued : after.Continues routine instructions := by
      rw [same]
      exact ⟨_, rfl, Routine.code_append ..⟩
    obtain ⟨location, _⟩ := Storage.location_of_ownedRegister owned
    refine ⟨instructions, continued, standing.undisturbed natives keeps stack, ?_⟩
    rw [location]
    exact value

end Workspace

variable {tree : Tree} {natives : Natives} {means : NodeId → Word → Prop} {work : Workspace}
variable {routine : Routine} {machine : Machine}

/-- Generating any node, moving any value to a register and parking it disturb no live location
of a function that has been begun; a value that is moved is carried to its new location. -/
theorem generation_undisturbed (built : tree.Built) (fits : tree.size ≤ 2 ^ 52)
    (lawful : tree.Lawful natives (machine.Ahead tree) means)
    (standing : work.Standing tree means routine machine) :
    (∀ id hint result after, Generation.visit tree id hint work = .ok result after →
      ∃ instructions, after.Continues routine instructions ∧
        work.Undisturbed routine machine (machine.after natives instructions)) ∧
    (∀ storage register result after,
      Build.moveToRegister tree storage register work = .ok result after →
      ∃ instructions, after.Continues routine instructions ∧
        work.Undisturbed routine machine (machine.after natives instructions) ∧
        (machine.after natives instructions).value result.location =
          machine.value storage.location) ∧
    (∀ storage result after, Build.park tree storage work = .ok result after →
      ∃ instructions, after.Continues routine instructions ∧
        work.Undisturbed routine machine (machine.after natives instructions) ∧
        (machine.after natives instructions).value result.location =
          machine.value storage.location) := by
  refine ⟨fun id hint result after done => ?_, fun storage register result after done => ?_,
    fun storage result after done => ?_⟩
  · obtain ⟨instructions, later, code, _, keeps, stack, _, there⟩ :=
      standing.visit built.formed fits lawful done
    exact ⟨instructions, ⟨later, there.begun, code⟩, standing.undisturbed natives keeps stack⟩
  · exact standing.moveToRegister done
  · exact standing.park done

/-- A register of the host is kept across a call that overwrites it. -/
theorem generation_undisturbed_call :
    let tree : Tree := ⟨#[⟨.ptr, .constant 4096, 1⟩, ⟨.i64, .parameter 0, 2⟩,
      ⟨.i64, .call 0 [1], 1⟩, ⟨.i64, .arith .add 1 2, 0⟩]⟩
    let natives : Natives := fun _ machine => machine.set .rcx 0
    let routine : Routine := .new [.i64] 16
    let work : Workspace := { Workspace.new .default with
      labels := .ofList [(0, 1), (1, 1), (2, 1), (3, 2)]
      pool := (RegisterPool.new Options.default.allocatable).assign .rcx none
      routine := some routine }
    let machine : Machine := ⟨fun register => if register = 4 then -176 else 0, fun _ => 0, fun _ => 0⟩
    ∃ result after instructions, Generation.visit tree 3 none work = .ok result after ∧
      after.Continues routine instructions ∧
      work.Undisturbed routine machine (machine.after natives instructions) := by
  intro tree natives routine work machine
  have leaves : Tree.Built ⟨#[⟨.ptr, .constant 4096, 0⟩, ⟨.i64, .parameter 0, 0⟩]⟩ :=
    .parameter (.constant .empty .ptr 4096) .i64 0
  have called : Tree.Built ⟨#[⟨.ptr, .constant 4096, 1⟩, ⟨.i64, .parameter 0, 1⟩,
      ⟨.i64, .call 0 [1], 0⟩]⟩ :=
    .call leaves (by decide) (rfl : Tree.call _ 0 ⟨[.i64], .i64⟩ [⟨1, .i64⟩] = .ok (2, _))
  have built : tree.Built := .arith called (rfl : Tree.arith _ .add .i64 1 2 = .ok (3, _))
  have kept (register : Register) (real : register.InBank) (other : register ≠ .rcx)
      (machine : Machine) : (machine.set .rcx 0).get register = machine.get register :=
    Machine.get_set_other machine 0 (by decide) real other
  have preserved : ∀ register ∈ .rsp :: .rbp :: Convention.calleeSaved,
      register.InBank ∧ register ≠ .rcx := by decide
  have lawful : tree.Lawful natives (machine.Ahead tree) fun _ _ => True := {
    constant := fun _ _ _ _ _ => trivial
    arith := fun _ _ _ _ _ _ _ _ _ _ _ => trivial
    preserves := fun _ _ _ _ _ _ _ _ => {
      registers := fun machine _ register listed =>
        kept register (preserved register listed).1 (preserved register listed).2 machine
      memory := fun machine place _ _ _ => congrFun (Machine.memory_set ..) place }
    returns := fun _ _ _ _ _ _ _ _ _ _ => trivial }
  have standing : work.Standing tree (fun _ _ => True) routine machine := {
    begun := rfl
    pool := (RegisterPool.sound_new fun _ => Options.usable_of_allocatable).assign (by decide) none
    frame := Frame.sound_new (by decide)
    below := by decide
    above := by decide
    kept := fun _ _ cached => by simp [work, Workspace.new] at cached
    bank := fun _ _ _ cached => by simp [work, Workspace.new] at cached
    parameters := fun _ _ _ _ _ _ _ => trivial }
  obtain ⟨result, after, done⟩ : ∃ result after,
      Generation.visit tree 3 none work = .ok result after := by decide +kernel
  obtain ⟨instructions, continues, undisturbed⟩ :=
    (generation_undisturbed built (by decide) lawful standing).1 3 none result after done
  exact ⟨result, after, instructions, done, continues, undisturbed⟩

end NativeExpr
