import NativeExpr.Proofs.Preservation.Site

/-!
# From one site to another

`Carries` and `Generates` compose: what is claimed at a site in between is taken there, so it
is carried on, and what is newly claimed was not taken, so it is nobody else's.
-/

namespace NativeExpr.Run

variable {run : Run} {before between after : Site} {claims more : List (NodeId × Storage)}
variable {called others : List NodeId} {machine : Machine}

theorem Emits.nil (run : Run) (machine : Machine) : run.Emits machine [] [] :=
  ⟨List.not_mem_nil, trivial, .nil⟩

/-- Code that emits what it may is followed by more such code, if the frame is the same. -/
theorem Emits.append {first second : List Instruction} (emits : run.Emits machine first called)
    (base : (machine.after run.natives first).get .rbp = machine.get .rbp)
    (rest : run.Emits (machine.after run.natives first) second others) :
    run.Emits machine (first ++ second) (called ++ others) where
  straight := by
    rw [List.mem_append, not_or]
    exact ⟨emits.straight, rest.straight⟩
  writes := by
    refine Machine.writes_append.mpr ⟨emits.writes, rest.writes.mono fun place allowed => ?_⟩
    simpa only [Machine.below, base] using allowed
  calls := by
    rw [Machine.calls_append]
    exact List.rel_append emits.calls rest.calls

/-- Straight code that writes nothing emits what it may. -/
theorem Emits.of_quiet (run : Run) (machine : Machine) {instructions : List Instruction}
    (straight : Straight instructions) (quiet : Quiet instructions) :
    run.Emits machine instructions [] where
  straight := straight.ret
  writes := quiet.writes ..
  calls := by
    rw [straight.calls]
    exact .nil

theorem state_append {routine : Routine} (written : run.written ≤ routine.code.size)
    (instructions : List Instruction) :
    run.state (routine.append instructions) =
      (run.state routine).after run.natives instructions := by
  have long : run.written ≤ routine.code.toList.length := by simpa using written
  simp only [state, Routine.code_append, List.drop_append_of_le_length long,
    Machine.after_append]

/-- Slots that are free later were free before. -/
theorem Carries.free (carries : run.Carries before called claims after) {slot : Offset}
    (member : slot ∈ after.routine.frame.free) : slot ∈ before.routine.frame.free := by
  apply Classical.byContradiction
  intro used
  have covers := carries.consistent.frame.free slot member
  have taken : before.Taken (.slot slot) :=
    ⟨by simpa only [Frame.Covers, carries.size] using covers, used⟩
  exact (carries.taken _ taken).2 member

/-- A byte of a taken slot is in the frame and in no free slot. -/
theorem Consistent.slot_byte (consistent : run.Consistent before) {slot : Offset}
    (taken : before.Taken (.slot slot)) {position : Nat} (within : position < 8) :
    let machine := run.state before.routine
    let place := machine.slot slot + BitVec.ofNat 64 position
    0 < machine.below place ∧ machine.below place ≤ machine.depth ∧
      ∀ other ∈ before.routine.frame.free, 8 ≤ (place - machine.slot other).toNat := by
  intro machine place
  obtain ⟨covers, used⟩ := taken
  have distance := covers.distance machine
  have below : 56 + before.routine.frame.size.toNat ≤ machine.depth := consistent.below
  have here : machine.below place = machine.below (machine.slot slot) - position :=
    machine.below_add (by omega)
  refine ⟨by omega, by omega, fun other free => ?_⟩
  have apart := (consistent.frame.free other free).apart covers
    (fun same => used (same ▸ free)) machine
  exact apart.outside within

/-- What is taken keeps its value. -/
theorem Keeps.value (consistent : run.Consistent before) {later : Machine}
    (keeps : run.Keeps before later) {location : Location} (taken : before.Taken location) :
    later.value location = (run.state before.routine).value location := by
  cases location with
  | register register => exact keeps.registers register taken
  | slot slot =>
    simp only [Machine.value, keeps.base]
    apply Machine.load_congr
    intro position within
    obtain ⟨inside, above, apart⟩ := consistent.slot_byte taken within
    exact keeps.memory _ inside above apart
  | constant bits => rfl

theorem Keeps.depth {later : Machine} (keeps : run.Keeps before later)
    (stack : later.get .rsp = (run.state before.routine).get .rsp) :
    later.depth = (run.state before.routine).depth := by
  simp only [Machine.depth, Machine.below, keeps.base, stack]

theorem Keeps.refl (run : Run) (site : Site) : run.Keeps site (run.state site.routine) :=
  ⟨rfl, fun _ _ => rfl, fun _ _ _ _ => rfl⟩

/-- A step that changes registers only keeps what is taken if they are not live. -/
theorem Keeps.of_agree {changed : List Register} {later : Machine}
    (consistent : run.Consistent before)
    (agree : Machine.AgreeOutside changed (run.state before.routine) later)
    (frame : Register.rbp ∉ changed)
    (free : ∀ register ∈ changed, ¬before.work.pool.live.contains register) :
    run.Keeps before later where
  base := agree.get .rbp (by decide) frame
  registers register live := by
    have usable := consistent.pool.usable_of_live live
    exact agree.get register usable.inBank fun member => free register member live
  memory place _ _ _ := by rw [agree.memory]

/-- Storing in a free slot keeps what is taken. -/
theorem Keeps.of_store (run : Run) (before : Site) {slot : Offset}
    (free : slot ∈ before.routine.frame.free) (value : Word) :
    run.Keeps before
      ((run.state before.routine).store ((run.state before.routine).slot slot) value) where
  base := Machine.get_store ..
  registers _ _ := Machine.get_store ..
  memory _ _ _ apart := Machine.memory_store_of_le _ _ (apart slot free)

/-- What a location is right for it stays right for. -/
theorem Carries.right_of (consistent : run.Consistent before)
    (carries : run.Carries before called claims after) {id : NodeId} {storage : Storage}
    (right : run.Right before id storage) : run.Right after id storage where
  kind := right.kind
  taken := carries.taken _ right.taken
  bank := right.bank
  means := by
    rw [carries.toKeeps.value consistent right.taken]
    exact right.means

theorem Consistent.carries (consistent : run.Consistent before) : run.Carries before [] [] before where
  consistent := consistent
  code := ⟨[], (List.append_nil _).symm, rfl, .nil run _⟩
  allocatable := rfl
  homes := rfl
  size := rfl
  base := rfl
  taken _ taken := taken
  registers _ _ := rfl
  memory _ _ _ _ := rfl
  settled _ settled := settled
  fresh _ settled := .inl settled
  right _ member := (List.not_mem_nil member).elim
  owned _ member := (List.not_mem_nil member).elim
  shared _ member := (List.not_mem_nil member).elim
  distinct := List.nodup_nil

theorem Consistent.generates (consistent : run.Consistent before) :
    run.Generates before [] [] before :=
  { consistent.carries with stack := rfl }

/-- What is carried over twice is carried over, if the stack is not less deep in between. -/
theorem Carries.trans (first : run.Carries before called claims between)
    (second : run.Carries between others more after)
    (deep : (run.state before.routine).depth ≤ (run.state between.routine).depth) :
    run.Carries before (called ++ others) (claims ++ more) after where
  consistent := second.consistent
  code := by
    obtain ⟨instructions, code, state, emits⟩ := first.code
    obtain ⟨rest, further, next, restEmits⟩ := second.code
    refine ⟨instructions ++ rest, by rw [further, code, List.append_assoc], ?_, ?_⟩
    · rw [next, state, Machine.after_append]
    · rw [state] at restEmits
      exact emits.append (state ▸ first.base) restEmits
  allocatable := second.allocatable.trans first.allocatable
  homes := second.homes.trans first.homes
  size := second.size.trans first.size
  base := second.base.trans first.base
  taken location taken := second.taken _ (first.taken _ taken)
  registers register live :=
    (second.registers register (first.taken (.register register) live)).trans
      (first.registers register live)
  memory place inside above apart := by
    have same : (run.state between.routine).below place = (run.state before.routine).below place := by
      simp only [Machine.below, first.base]
    refine (second.memory place (same ▸ inside) (by omega) fun slot free => ?_).trans
      (first.memory place inside above apart)
    simp only [Machine.slot, first.base]
    exact apart slot (first.free free)
  settled location settled := second.settled _ (first.settled _ settled)
  fresh location settled := by
    rcases second.fresh location settled with settled | untaken
    · exact first.fresh location settled
    · exact .inr fun taken => untaken (first.taken _ taken)
  right claim member := by
    rcases List.mem_append.mp member with member | member
    · exact second.right_of first.consistent (first.right claim member)
    · exact second.right claim member
  owned claim member own := by
    rcases List.mem_append.mp member with member | member
    · obtain ⟨untaken, unsettled⟩ := first.owned claim member own
      refine ⟨untaken, fun settled => ?_⟩
      rcases second.fresh _ settled with settled | free
      · exact unsettled settled
      · exact free (first.right claim member).taken
    · obtain ⟨untaken, unsettled⟩ := second.owned claim member own
      exact ⟨fun taken => untaken (first.taken _ taken), unsettled⟩
  shared claim member borrowed := by
    rcases List.mem_append.mp member with member | member
    · exact second.settled _ (first.shared claim member borrowed)
    · exact second.shared claim member borrowed
  distinct := by
    rw [List.filter_append, List.map_append, List.nodup_append]
    refine ⟨first.distinct, second.distinct, ?_⟩
    intro location left other right same
    obtain ⟨claim, member, rfl⟩ := List.mem_map.mp left
    obtain ⟨claim', member', rfl⟩ := List.mem_map.mp right
    obtain ⟨member, _⟩ := List.mem_filter.mp member
    obtain ⟨member', own⟩ := List.mem_filter.mp member'
    apply (second.owned claim' member' own).1
    rw [← same]
    exact (first.right claim member).taken

theorem Generates.depth (generates : run.Generates before called claims after) :
    (run.state after.routine).depth = (run.state before.routine).depth :=
  generates.toKeeps.depth generates.stack

theorem Generates.trans (first : run.Generates before called claims between)
    (second : run.Generates between others more after) :
    run.Generates before (called ++ others) (claims ++ more) after :=
  { first.toCarries.trans second.toCarries first.depth.ge with
    stack := second.stack.trans first.stack }

/-- Nothing is called in what follows. -/
theorem Generates.further (first : run.Generates before called claims between)
    (second : run.Generates between [] more after) :
    run.Generates before called (claims ++ more) after := by
  simpa using first.trans second

/-- The order of claims does not matter. -/
theorem Carries.perm (carries : run.Carries before called claims after) (same : claims.Perm more) :
    run.Carries before called more after :=
  { carries with
    right := fun claim member => carries.right claim (same.mem_iff.mpr member)
    owned := fun claim member => carries.owned claim (same.mem_iff.mpr member)
    shared := fun claim member => carries.shared claim (same.mem_iff.mpr member)
    distinct := ((same.filter _).map _).nodup_iff.mp carries.distinct }

theorem Generates.perm (generates : run.Generates before called claims after) (same : claims.Perm more) :
    run.Generates before called more after :=
  { generates.toCarries.perm same with stack := generates.stack }

/-- A claim may be given up. -/
theorem Carries.drop {claim : NodeId × Storage}
    (carries : run.Carries before called (claim :: claims) after) :
    run.Carries before called claims after :=
  { carries with
    right := fun other member => carries.right other (List.mem_cons_of_mem _ member)
    owned := fun other member => carries.owned other (List.mem_cons_of_mem _ member)
    shared := fun other member => carries.shared other (List.mem_cons_of_mem _ member)
    distinct := carries.distinct.sublist (((List.sublist_cons_self claim claims).filter _).map _) }

end NativeExpr.Run
