import NativeExpr.Proofs.Preservation.Placement

/-!
# What a call leaves alone

A native function that follows the convention keeps the registers that a callee has to
preserve and its caller's frame above the area of its arguments. So does a whole call, from
the reservation of the outgoing area to the moment when it is given up; and in between the
function finds its arguments in their places.
-/

namespace NativeExpr

/-- The bytes of stack that hold the arguments of a call. -/
def Signature.argumentArea (signature : Signature) : Nat :=
  (Assigner.new.final signature.parameters).stackSize

/-- Whether the native function at an address follows System V when it is called under a
signature: it preserves what belongs to its caller. Only the states that it may be called in
count. A function that writes variables of its own follows System V for the callers in whose
frames they are not. -/
structure Natives.Preserves (natives : Natives) (callers : Machine → Prop) (address : Word)
    (signature : Signature) : Prop where
  registers : ∀ machine, callers machine → ∀ register ∈ .rsp :: .rbp :: Convention.calleeSaved,
    (natives address machine).get register = machine.get register
  memory : ∀ machine place, callers machine → 0 < machine.below place →
    machine.below place + signature.argumentArea ≤ machine.depth →
    (natives address machine).memory place = machine.memory place

/-- What follows System V for some callers does so for fewer. -/
theorem Natives.Preserves.mono {natives : Natives} {callers fewer : Machine → Prop}
    {address : Word} {signature : Signature} (preserves : natives.Preserves callers address signature)
    (within : ∀ machine, fewer machine → callers machine) :
    natives.Preserves fewer address signature where
  registers machine calls := preserves.registers machine (within machine calls)
  memory machine place calls := preserves.memory machine place (within machine calls)

namespace Stage

variable {tree : Tree} {arguments : List NodeId} {stage : Stage} {routine : Routine}
variable {values : List Storage} {target : Storage} {natives : Natives} {machine : Machine}

/-- The outgoing area of a call of few enough arguments. -/
theorem Of.lowered (of : stage.Of tree arguments) (few : arguments.length ≤ 2 ^ 28 - 8)
    (routine : Routine) :
    stage.assigner.stackSize ≤ (stage.lowered routine).toNat ∧
      (stage.lowered routine).toNat < 2 ^ 31 ∧
      ((stage.lowered routine).signExtend 64).toNat = (stage.lowered routine).toNat := by
  have words := (Assigner.stack_final .new (arguments.map tree.kindOf)).2
  rw [← of.assigner, List.length_map] at words
  have area : stage.assigner.stackSize ≤ 2 ^ 31 - 64 := by
    simp only [Assigner.stackSize, Assigner.new] at words ⊢
    omega
  have padding : (routine.callPadding stage.stackSize).toNat < 16 := by
    rw [Routine.callPadding, BitVec.toNat_umod]
    exact Nat.mod_lt _ (by decide)
  have lowered : (stage.lowered routine).toNat =
      stage.assigner.stackSize + (routine.callPadding stage.stackSize).toNat := by
    rw [Stage.lowered, BitVec.toNat_add, Stage.stackSize, BitVec.toNat_ofNat]
    rw [Stage.stackSize] at padding
    omega
  have small : (stage.lowered routine).toNat < 2 ^ 31 := by omega
  exact ⟨by omega, small, Machine.toNat_signExtend_of_lt small⟩

/-- The targets of the moves of a call. -/
theorem mem_moves {move : Move} (member : move ∈ stage.moves values target) :
    (∃ argument value, (argument, value) ∈ stage.arguments.zip values ∧
      move = ⟨argument.place, value.location⟩) ∨
    move = ⟨.register Convention.callTarget, target.location⟩ := by
  rcases List.mem_append.mp member with member | member
  · obtain ⟨⟨argument, value⟩, paired, rfl⟩ := List.mem_map.mp member
    exact .inl ⟨argument, value, paired, rfl⟩
  · exact .inr (List.mem_singleton.mp member)

/-- The registers that a call moves values to may hold values, and a callee may overwrite
them. -/
theorem Of.target_register (of : stage.Of tree arguments) {move : Move}
    (member : move ∈ stage.moves values target) {register : Register}
    (place : move.target = .register register) :
    register.Usable ∧ register ∉ Convention.calleeSaved := by
  rcases mem_moves member with ⟨argument, value, paired, rfl⟩ | rfl
  · obtain ⟨usable, other⟩ := of.usable (List.of_mem_zip paired).1 place
    exact ⟨usable, fun saved => other (List.mem_cons_of_mem _ saved)⟩
  · obtain rfl := Place.register.inj place
    decide

/-- The words that a call moves values to are in its outgoing area. -/
theorem Of.target_stack (of : stage.Of tree arguments) (few : arguments.length ≤ 2 ^ 28 - 8)
    {move : Move} (member : move ∈ stage.moves values target) {offset : Offset}
    (place : move.target = .stack offset) :
    ∃ position, 8 ∣ position ∧ position + 8 ≤ stage.assigner.stackSize ∧
      offset.toInt = position ∧ (offset.signExtend 64).toNat = position := by
  rcases mem_moves member with ⟨argument, value, paired, rfl⟩ | rfl
  · have listed : argument.place ∈ Convention.places (arguments.map tree.kindOf) :=
      of.places ▸ List.mem_map_of_mem (List.of_mem_zip paired).1
    rw [show argument.place = .stack offset from place] at listed
    obtain ⟨position, rfl, words, _, within⟩ := Assigner.proper_new.stack_mem listed
    have bound := (Assigner.stack_final .new (arguments.map tree.kindOf)).2
    rw [List.length_map] at bound
    have total : (Assigner.new.final (arguments.map tree.kindOf)).stack ≤
        stage.assigner.stackSize := by
      rw [of.assigner, Assigner.stackSize]
      omega
    have small : position < 2 ^ 31 := by
      simp only [Assigner.new] at bound within
      omega
    have number : (BitVec.ofNat 32 position).toNat = position := by
      rw [BitVec.toNat_ofNat]
      omega
    refine ⟨position, words, by omega, ?_, ?_⟩
    · rw [BitVec.toInt_eq_toNat_of_lt (by omega), number]
    · rw [Machine.toNat_signExtend_of_lt (by omega), number]
  · cases place

/-- Where a function is called the caller's frame is as it was, above a lower stack pointer. -/
theorem Of.calling_keeps (of : stage.Of tree arguments) (few : arguments.length ≤ 2 ^ 28 - 8)
    (routine : Routine) (values : List Storage) (target : Storage) (natives : Natives)
    {machine : Machine} (room : machine.depth + 2 ^ 31 ≤ 2 ^ 63) :
    let state := calling natives (stage.lowered routine) (stage.moves values target) machine
    (∀ register ∈ .rbp :: Convention.calleeSaved, state.get register = machine.get register) ∧
    state.get .rsp = machine.get .rsp - (stage.lowered routine).signExtend 64 ∧
    (∀ place, 0 < machine.below place → machine.below place ≤ machine.depth →
      state.memory place = machine.memory place) := by
  intro state
  obtain ⟨area, small, width⟩ := of.lowered few routine
  have confined : MoveSchedule.Confined (stage.moves values target) _ state :=
    MoveSchedule.ofMoves_confined natives
      (fun move listed register place => (of.target_register listed place).1.inBank) _
  have saved : ∀ register ∈ .rbp :: Convention.calleeSaved, register.InBank ∧
      register ≠ .r11 ∧ register ≠ .xmm 15 ∧ register ≠ .rsp := by decide
  refine ⟨fun register listed => ?_, ?_, fun place inside above => ?_⟩
  · obtain ⟨real, notR11, notXmm15, notStack⟩ := saved register listed
    refine (confined.get register real notR11 notXmm15 fun move member place => ?_).trans
      (Machine.get_set_other _ _ (by decide) real notStack)
    obtain ⟨usable, other⟩ := of.target_register member place
    rcases List.mem_cons.mp listed with rfl | listed
    · exact usable.ne_rbp rfl
    · exact other listed
  · refine (confined.get .rsp (by decide) (by decide) (by decide) fun move member place => ?_).trans
      (Machine.get_set_self ..)
    exact (of.target_register member place).1.ne_rsp rfl
  · refine (confined.memory place fun move member offset target => ?_).trans
      (congrFun (Machine.memory_set ..) place)
    obtain ⟨position, _, within, _, distance⟩ := of.target_stack few member target
    simp only [Machine.outgoing, Machine.get_set_self, Machine.depth, Machine.below,
      BitVec.toNat_sub, BitVec.toNat_add, width, distance] at *
    omega

/-- Where a function is called the stack is lower by the outgoing area. -/
theorem Of.calling_depth (of : stage.Of tree arguments) (few : arguments.length ≤ 2 ^ 28 - 8)
    (routine : Routine) (values : List Storage) (target : Storage) (natives : Natives)
    {machine : Machine} (room : machine.depth + 2 ^ 31 ≤ 2 ^ 63) :
    (calling natives (stage.lowered routine) (stage.moves values target) machine).depth =
      machine.depth + (stage.lowered routine).toNat := by
  obtain ⟨_, small, width⟩ := of.lowered few routine
  obtain ⟨registers, stack, _⟩ := of.calling_keeps few routine values target natives room
  have base := registers .rbp List.mem_cons_self
  simp only [Machine.depth, Machine.below, base, stack, BitVec.toNat_sub, BitVec.toNat_add,
    width] at *
  omega

/-- A function is called in the frame of its caller, not far below where the stack was. -/
theorem Of.calling_within (of : stage.Of tree arguments) (few : arguments.length ≤ 2 ^ 28 - 8)
    (routine : Routine) (values : List Storage) (target : Storage) (natives : Natives)
    {machine : Machine} {limit : Nat} (bounded : limit ≤ 2 ^ 63)
    (room : machine.depth + 2 ^ 31 ≤ limit) :
    (calling natives (stage.lowered routine) (stage.moves values target) machine).Within
      (machine.get .rbp) limit := by
  obtain ⟨_, small, _⟩ := of.lowered few routine
  obtain ⟨registers, _, _⟩ := of.calling_keeps few routine values target natives
    (room.trans bounded)
  have depth := of.calling_depth few routine values target natives (room.trans bounded)
  exact ⟨registers .rbp List.mem_cons_self, by omega⟩

/-- Up to the call of the function nothing is written but its outgoing area, below which the
return address is put. -/
theorem Of.calling_writes (of : stage.Of tree arguments) (few : arguments.length ≤ 2 ^ 28 - 8)
    (routine : Routine) (values : List Storage) (target : Storage) (natives : Natives)
    {machine : Machine} {limit : Nat} (bounded : limit ≤ 2 ^ 63) (above : 56 ≤ machine.depth)
    (room : machine.depth + 2 ^ 32 ≤ limit) :
    let state := calling natives (stage.lowered routine) (stage.moves values target) machine
    Request.Writes natives (fun place => 64 ≤ machine.below place ∧ machine.below place ≤ limit)
        (machine.set .rsp (machine.get .rsp - (stage.lowered routine).signExtend 64))
        (MoveSchedule.ofMoves (stage.moves values target)).requests ∧
      64 ≤ machine.below (state.get .rsp - 8) ∧ machine.below (state.get .rsp - 8) ≤ limit := by
  intro state
  obtain ⟨area, small, width⟩ := of.lowered few routine
  obtain ⟨_, stack, _⟩ := of.calling_keeps few routine values target natives
    (by omega : machine.depth + 2 ^ 31 ≤ 2 ^ 63)
  refine ⟨MoveSchedule.ofMoves_writes natives fun move member offset place => ?_, ?_⟩
  · obtain ⟨position, _, within, _, distance⟩ := of.target_stack few member place
    simp only [Machine.outgoing, Machine.get_set_self, Machine.depth, Machine.below,
      BitVec.toNat_sub, BitVec.toNat_add, width, distance] at *
    omega
  · rw [stack]
    simp only [Machine.depth, Machine.below, BitVec.toNat_sub, BitVec.toNat_add, width,
      BitVec.reduceToNat] at *
    omega

/-- A call of a function that follows the convention preserves what belongs to its caller. -/
theorem Of.call_keeps (of : stage.Of tree arguments) (few : arguments.length ≤ 2 ^ 28 - 8)
    {kind : Kind} {callers : Machine → Prop} (room : machine.depth + 2 ^ 31 ≤ 2 ^ 63) :
    let state := calling natives (stage.lowered routine) (stage.moves values target) machine
    let returned := natives (state.get Convention.callTarget) state
    let later := returned.set .rsp (returned.get .rsp + (stage.lowered routine).signExtend 64)
    callers state →
    natives.Preserves callers (state.get Convention.callTarget)
      (tree.callSignature arguments kind) →
    (∀ register ∈ .rsp :: .rbp :: Convention.calleeSaved,
      later.get register = machine.get register) ∧
    (∀ place, 0 < machine.below place → machine.below place ≤ machine.depth →
      later.memory place = machine.memory place) ∧
    (∀ register : Register, register.InBank → register ≠ .rsp →
      later.get register = returned.get register) := by
  intro state returned later calls preserves
  obtain ⟨area, _, _⟩ := of.lowered few routine
  obtain ⟨registers, stack, memory⟩ := of.calling_keeps few routine values target natives room
  have base : state.get .rbp = machine.get .rbp := registers .rbp List.mem_cons_self
  have below (place : Word) : state.below place = machine.below place := by
    simp only [Machine.below, base]
  have depth : state.depth = machine.depth + (stage.lowered routine).toNat :=
    of.calling_depth few routine values target natives room
  have areaSize : (tree.callSignature arguments kind).argumentArea = stage.assigner.stackSize := by
    rw [of.assigner]
    rfl
  have saved : ∀ register ∈ .rbp :: Convention.calleeSaved, register.InBank ∧
      register ≠ .rsp := by decide
  refine ⟨fun register listed => ?_, fun place inside above => ?_, fun register real other => ?_⟩
  · rcases List.mem_cons.mp listed with rfl | listed
    · have pointer := preserves.registers state calls .rsp List.mem_cons_self
      have lower : state.get .rsp = machine.get .rsp - (stage.lowered routine).signExtend 64 :=
        stack
      simp only [later, returned, Machine.get_set_self, pointer, lower, BitVec.sub_add_cancel]
    · obtain ⟨real, notStack⟩ := saved register listed
      refine (Machine.get_set_other _ _ (by decide) real notStack).trans ?_
      exact (preserves.registers state calls register (List.mem_cons_of_mem _ listed)).trans
        (registers register listed)
  · refine (congrFun (Machine.memory_set ..) place).trans ?_
    refine (preserves.memory state place calls (by rw [below]; exact inside) ?_).trans
      (memory place inside above)
    rw [below, areaSize, depth]
    omega
  · exact Machine.get_set_other _ _ (by decide) real other

/-- The register of an argument is of the argument's bank. -/
theorem Of.bank (of : stage.Of tree arguments) {argument : Staged}
    (member : argument ∈ stage.arguments) {register : Register}
    (place : argument.place = .register register) : register.bank = argument.kind.bank := by
  have places : stage.arguments.map Staged.place =
      Assigner.new.assignAll (arguments.map tree.kindOf) := of.places
  have listed : (argument.kind, Place.register register) ∈
      (arguments.map tree.kindOf).zip (Assigner.new.assignAll (arguments.map tree.kindOf)) := by
    rw [← places, ← of.kinds, List.zip_map', ← place]
    exact List.mem_map_of_mem member
  exact Assigner.proper_new.bank_zip listed

/-- The targets of the moves of a call are all different. -/
theorem Of.nodup_targets (of : stage.Of tree arguments) (few : arguments.length ≤ 2 ^ 28 - 8)
    (complete : stage.arguments.length = values.length) :
    ((stage.moves values target).map Move.target).Nodup := by
  have targets : (stage.moves values target).map Move.target =
      Convention.places (arguments.map tree.kindOf) ++ [.register Convention.callTarget] := by
    have first : (stage.arguments.zip values).map Prod.fst = stage.arguments :=
      List.map_fst_zip (Nat.le_of_eq complete)
    rw [← of.places, Stage.moves, List.map_append, List.map_map]
    congr 1
    conv_rhs => rw [← first, List.map_map]
    rfl
  have bound := (Assigner.stack_final .new (arguments.map tree.kindOf)).2
  rw [List.length_map] at bound
  have distinct : (Convention.places (arguments.map tree.kindOf)).Nodup := by
    apply Assigner.proper_new.nodup_assignAll
    simp only [Assigner.new] at bound ⊢
    omega
  rw [targets, List.nodup_append]
  refine ⟨distinct, List.nodup_singleton _, fun place listed other callTarget same => ?_⟩
  rw [List.mem_singleton] at callTarget
  rw [same, callTarget] at listed
  exact (Convention.usable_of_mem_places listed).2 List.mem_cons_self

/-- Where a function is called the arguments and the function are in their places. -/
theorem Of.calling_delivers (of : stage.Of tree arguments) (few : arguments.length ≤ 2 ^ 28 - 8)
    (routine : Routine) (natives : Natives) (room : machine.depth + 2 ^ 31 ≤ 2 ^ 63)
    (complete : stage.arguments.length = values.length)
    (registers : ∀ move ∈ stage.moves values target, ∀ register,
      move.source = .register register → register.Usable)
    (slots : ∀ move ∈ stage.moves values target, ∀ slot, move.source = .slot slot →
      64 ≤ machine.below (machine.slot slot) ∧ machine.below (machine.slot slot) ≤ machine.depth)
    (banks : ∀ argument value, (argument, value) ∈ stage.arguments.zip values → ∀ register,
      value.location = .register register → register.bank = argument.kind.bank)
    (pointer : ∀ register, target.location = .register register →
      register.bank = .generalPurpose) :
    let state := calling natives (stage.lowered routine) (stage.moves values target) machine
    ∀ move ∈ stage.moves values target, state.argument move.target = machine.value move.source := by
  intro state move member
  obtain ⟨area, small, width⟩ := of.lowered few routine
  have parallel : MoveSchedule.Parallel (stage.moves values target) := {
    distinct := of.nodup_targets few complete
    aligned := fun move listed offset place => by
      obtain ⟨position, words, _, number, _⟩ := of.target_stack few listed place
      rw [number]
      exact Int.natCast_dvd_natCast.mpr words
    target := fun move listed register place => (of.target_register listed place).1
    source := registers
    bank := fun move listed goal source place read => by
      rcases mem_moves listed with ⟨argument, value, paired, rfl⟩ | rfl
      · rw [banks argument value paired source read, of.bank (List.of_mem_zip paired).1 place]
      · obtain rfl := Place.register.inj place
        exact pointer source read }
  have frame : (machine.set .rsp (machine.get .rsp -
      (stage.lowered routine).signExtend 64)).get .rbp = machine.get .rbp :=
    Machine.get_set_other _ _ (by decide) (by decide) (by decide)
  have apart : MoveSchedule.ReadsApart
      (machine.set .rsp (machine.get .rsp - (stage.lowered routine).signExtend 64))
      (stage.moves values target) := by
    intro writer written reader read offset slot place source
    obtain ⟨position, _, within, _, distance⟩ := of.target_stack few written place
    obtain ⟨low, high⟩ := slots reader read slot source
    simp only [Machine.Apart, Machine.outgoing, Machine.slot, Machine.get_set_self, frame,
      Machine.depth, Machine.below, BitVec.toNat_sub, BitVec.toNat_add, width, distance] at *
    omega
  refine (MoveSchedule.ofMoves_delivers natives parallel apart move member).trans ?_
  cases source : move.source with
  | register register =>
    have usable := registers move member register source
    exact Machine.get_set_other _ _ (by decide) usable.inBank usable.ne_rsp
  | slot slot => simp only [Machine.value, frame, Machine.load_set]
  | constant bits => rfl

end Stage

end NativeExpr
