import NativeExpr.Proofs.Preservation.Undisturbed

/-!
# What is lent while a function is generated

The registers and slots of the storages that a host holds are lent to it until it gives them back.
None of them is the home of a parameter or has the value that is kept for a node, so the host may
overwrite what it was lent and give it back, and generation goes on from a workspace that stands.
-/

namespace NativeExpr

namespace Storage

variable {storage : Storage} {held others : List Storage}

/-- The registers and slots that the holder of storages has to give back. -/
def lent (held : List Storage) : List Location := (held.filter isOwned).map location

theorem lent_of_owned (owned : storage.isOwned = true) :
    lent (storage :: held) = storage.location :: lent held := by
  simp [lent, owned]

theorem lent_of_shared (shared : storage.isOwned = false) : lent (storage :: held) = lent held := by
  simp [lent, shared]

theorem lent_perm (same : held.Perm others) : (lent held).Perm (lent others) :=
  (same.filter _).map _

end Storage

namespace Workspace

/-- Whether what the holder of storages has to give back is in use, each location once, and is
neither the home of a parameter nor where a value is kept. -/
structure Lends (work : Workspace) (routine : Routine) (held : List Storage) : Prop where
  used : ∀ location ∈ Storage.lent held, work.Uses routine location
  unsettled : ∀ location ∈ Storage.lent held, ¬(Site.ofStanding work routine).settled location
  distinct : (Storage.lent held).Nodup

/-- Whether a workspace in which storages are held follows from one of the same function: its code
leads on from there, with the stack where it was, and the parameters are still in their homes. -/
structure Serves (tree : Tree) (natives : Natives) (means : NodeId → Word → Prop)
    (routine : Routine) (machine : Machine) (after : Workspace) (held : List Storage)
    (continued : Routine) (later : Machine) : Prop where
  code : ∃ instructions, continued.code.toList = routine.code.toList ++ instructions ∧
    later = machine.after natives instructions
  stack : later.get .rsp = machine.get .rsp
  base : later.get .rbp = machine.get .rbp
  homes : continued.frame.homes = routine.frame.homes
  parameters : ∀ home ∈ routine.frame.homes,
    later.value (.slot home) = machine.value (.slot home)
  standing : after.Standing tree means continued later
  lends : after.Lends continued held

variable {tree : Tree} {natives : Natives} {means : NodeId → Word → Prop}
variable {work between after : Workspace} {routine middle continued : Routine}
variable {machine reached later : Machine} {held others : List Storage} {storage result : Storage}
variable {register : Register} {kind : Kind} {instructions : List Instruction}

theorem Lends.perm (lends : work.Lends routine held) (same : held.Perm others) :
    work.Lends routine others where
  used location member := lends.used location ((Storage.lent_perm same).mem_iff.mpr member)
  unsettled location member :=
    lends.unsettled location ((Storage.lent_perm same).mem_iff.mpr member)
  distinct := (Storage.lent_perm same).nodup_iff.mp lends.distinct

/-- What is owned by a storage that comes to be held was not lent before. -/
theorem Lends.cons (lends : work.Lends routine held)
    (used : storage.isOwned = true → work.Uses routine storage.location)
    (unsettled : storage.isOwned = true → ¬(Site.ofStanding work routine).settled storage.location)
    (fresh : storage.isOwned = true → storage.location ∉ Storage.lent held) :
    work.Lends routine (storage :: held) := by
  cases owned : storage.isOwned with
  | true =>
    have lent : Storage.lent (storage :: held) = _ := Storage.lent_of_owned owned
    exact {
      used := fun location member => by
        rcases List.mem_cons.mp (lent ▸ member) with rfl | member
        · exact used owned
        · exact lends.used location member
      unsettled := fun location member => by
        rcases List.mem_cons.mp (lent ▸ member) with rfl | member
        · exact unsettled owned
        · exact lends.unsettled location member
      distinct := by
        rw [lent]
        exact List.nodup_cons.mpr ⟨fresh owned, lends.distinct⟩ }
  | false =>
    have lent : Storage.lent (storage :: held) = _ := Storage.lent_of_shared owned
    exact ⟨lent ▸ lends.used, lent ▸ lends.unsettled, lent ▸ lends.distinct⟩

theorem Serves.trans (first : Serves tree natives means routine machine between held middle reached)
    (second : Serves tree natives means middle reached after others continued later) :
    Serves tree natives means routine machine after others continued later where
  code := by
    obtain ⟨earlier, code, rfl⟩ := first.code
    obtain ⟨further, last, rfl⟩ := second.code
    exact ⟨earlier ++ further, by rw [last, code, List.append_assoc],
      (Machine.after_append ..).symm⟩
  stack := second.stack.trans first.stack
  base := second.base.trans first.base
  homes := second.homes.trans first.homes
  parameters home listed :=
    (second.parameters home (first.homes ▸ listed)).trans (first.parameters home listed)
  standing := second.standing
  lends := second.lends

/-- Statistics do not matter. -/
theorem Serves.withStatistics
    (serves : Serves tree natives means routine machine after held continued later)
    (statistics : Statistics) :
    Serves tree natives means routine machine { after with statistics := statistics } held continued
      later where
  code := serves.code
  stack := serves.stack
  base := serves.base
  homes := serves.homes
  parameters := serves.parameters
  standing := ⟨serves.standing.begun, serves.standing.pool, serves.standing.frame,
    serves.standing.below, serves.standing.above, serves.standing.kept, serves.standing.bank,
    serves.standing.parameters⟩
  lends := ⟨serves.lends.used, serves.lends.unsettled, serves.lends.distinct⟩

/-- A workspace stands where the code leads if the stack is where it was and what is settled is in
use and has its value. -/
theorem Standing.goesOn (standing : work.Standing tree means routine machine)
    (begun : after.routine = some continued) (pool : after.pool.Sound)
    (frame : continued.frame.Sound) (caches : after.caches = work.caches)
    (homes : continued.frame.homes = routine.frame.homes)
    (size : continued.frame.size = routine.frame.size)
    (stack : later.get .rsp = machine.get .rsp) (base : later.get .rbp = machine.get .rbp)
    (settled : ∀ location, (Site.ofStanding work routine).settled location →
      after.Uses continued location ∧ later.value location = machine.value location) :
    after.Standing tree means continued later := by
  have depth : later.depth = machine.depth := by
    simp only [Machine.depth, Machine.below, base, stack]
  exact {
    begun := begun
    pool := pool
    frame := frame
    below := by
      rw [size, depth]
      exact standing.below
    above := depth ▸ standing.above
    kept := fun id storage cached => by
      rw [caches] at cached
      obtain ⟨kind, _, holds⟩ := standing.kept id storage cached
      obtain ⟨used, value⟩ := settled storage.location (.inr (.inr ⟨id, storage, cached, rfl⟩))
      exact ⟨kind, used, value ▸ holds⟩
    bank := fun id storage register cached => standing.bank id storage register (caches ▸ cached)
    parameters := fun index home id node found here operation => by
      rw [homes] at found
      obtain ⟨_, value⟩ :=
        settled (.slot home) (.inr (.inl ⟨home, List.mem_of_getElem? found, rfl⟩))
      rw [value]
      exact standing.parameters index home id node found here operation }

/-- What is settled is in use. -/
theorem Standing.uses (standing : work.Standing tree means routine machine) {location : Location}
    (settled : (Site.ofStanding work routine).settled location) : work.Uses routine location :=
  Site.taken_ofStanding.mp
    ((standing.consistent fun _ machine => machine).taken location settled)

/-- Nothing has happened. -/
theorem Standing.serves_refl (natives : Natives)
    (standing : work.Standing tree means routine machine) (lends : work.Lends routine held) :
    Serves tree natives means routine machine work held routine machine where
  code := ⟨[], (List.append_nil _).symm, rfl⟩
  stack := rfl
  base := rfl
  homes := rfl
  parameters _ _ := rfl
  standing := standing
  lends := lends

/-- A register that was free is lent. -/
theorem Standing.serves_assign (natives : Natives)
    (standing : work.Standing tree means routine machine) (lends : work.Lends routine held)
    (allowed : work.pool.allocatable.contains register) (free : ¬work.pool.live.contains register)
    (owner : Option NodeId) (kind : Kind) :
    Serves tree natives means routine machine
      { work with pool := work.pool.assign register owner }
      (.own (.register register) kind :: held) routine machine := by
  have real := (standing.pool.usable register allowed).inBank
  have live (other : Register) :
      (work.pool.assign register owner).live.contains other ↔
        work.pool.live.contains other ∨ other = register :=
    RegisterPool.live_assign work.pool real owner
  have uses {location : Location} (used : work.Uses routine location) :
      ({ work with pool := work.pool.assign register owner } : Workspace).Uses routine
        location := by
    cases location with
    | register other => exact (live other).mpr (.inl used)
    | slot slot => exact used
    | constant bits => trivial
  refine ⟨⟨[], (List.append_nil _).symm, rfl⟩, rfl, rfl, rfl, fun _ _ => rfl, ?_, ?_⟩
  · exact standing.goesOn standing.begun (standing.pool.assign allowed owner) standing.frame rfl rfl
      rfl rfl rfl fun location settled => ⟨uses (standing.uses settled), rfl⟩
  · have kept : ({ work with pool := work.pool.assign register owner } : Workspace).Lends
        routine held :=
      ⟨fun location member => uses (lends.used location member), lends.unsettled, lends.distinct⟩
    refine kept.cons (fun _ => (live register).mpr (.inr rfl)) (fun _ settled => ?_)
      (fun _ member => free (lends.used _ member))
    exact free (standing.uses settled)

/-- The first free slot is lent. -/
theorem Standing.serves_take (natives : Natives)
    (standing : work.Standing tree means routine machine) (lends : work.Lends routine held)
    {offset : Offset} {rest : List Offset} (free : routine.frame.free = offset :: rest)
    (kind : Kind) :
    let taken : Routine := { routine with frame := { routine.frame with free := rest } }
    Serves tree natives means routine machine { work with routine := some taken }
      (.own (.slot offset) kind :: held) taken machine := by
  intro taken
  have member : offset ∈ routine.frame.free := free ▸ List.mem_cons_self
  have fewer : ∀ slot ∈ rest, slot ∈ routine.frame.free := fun slot listed =>
    free ▸ List.mem_cons_of_mem _ listed
  have distinct := standing.frame.distinct
  rw [free, List.nodup_cons] at distinct
  have frame : taken.frame.Sound := {
    homes := standing.frame.homes
    free := fun slot listed => standing.frame.free slot (fewer slot listed)
    distinct := distinct.2
    apart := fun home listed later => standing.frame.apart home listed (fewer home later) }
  have uses {location : Location} (used : work.Uses routine location) :
      ({ work with routine := some taken } : Workspace).Uses taken location := by
    cases location with
    | register other => exact used
    | slot slot => exact ⟨used.1, fun listed => used.2 (fewer slot listed)⟩
    | constant bits => trivial
  refine ⟨⟨[], (List.append_nil _).symm, rfl⟩, rfl, rfl, rfl, fun _ _ => rfl, ?_, ?_⟩
  · exact standing.goesOn rfl standing.pool frame rfl rfl rfl rfl rfl
      fun location settled => ⟨uses (standing.uses settled), rfl⟩
  · have kept : ({ work with routine := some taken } : Workspace).Lends taken held :=
      ⟨fun location member => uses (lends.used location member), lends.unsettled, lends.distinct⟩
    refine kept.cons (fun _ => ⟨standing.frame.free offset member, distinct.1⟩)
      (fun _ settled => ?_) (fun _ listed => (lends.used _ listed).2 member)
    exact (standing.uses settled : work.Uses routine (.slot offset)).2 member

/-- Where everything else that was in use is in use, what was lent may be given back. -/
theorem Standing.serves_giveBack (natives : Natives)
    (standing : work.Standing tree means routine machine)
    (lends : work.Lends routine (storage :: held)) (owned : storage.isOwned = true)
    (begun : after.routine = some continued) (code : continued.code = routine.code)
    (pool : after.pool.Sound) (frame : continued.frame.Sound) (caches : after.caches = work.caches)
    (homes : continued.frame.homes = routine.frame.homes)
    (size : continued.frame.size = routine.frame.size)
    (uses : ∀ location, work.Uses routine location → location ≠ storage.location →
      after.Uses continued location) :
    Serves tree natives means routine machine after held continued machine := by
  have lent : Storage.lent (storage :: held) = _ := Storage.lent_of_owned owned
  have mine : storage.location ∈ Storage.lent (storage :: held) := lent ▸ List.mem_cons_self
  have others {location : Location} (member : location ∈ Storage.lent held) :
      location ∈ Storage.lent (storage :: held) := lent ▸ List.mem_cons_of_mem _ member
  have distinct := lends.distinct
  rw [lent, List.nodup_cons] at distinct
  have settled : (Site.ofStanding after continued).settled =
      (Site.ofStanding work routine).settled := by
    simp only [Site.ofStanding, homes, caches]
  refine ⟨⟨[], by rw [code, List.append_nil], rfl⟩, rfl, rfl, homes, fun _ _ => rfl, ?_, ?_⟩
  · refine standing.goesOn begun pool frame caches homes size rfl rfl fun location stays => ?_
    refine ⟨uses location (standing.uses stays) ?_, rfl⟩
    rintro rfl
    exact lends.unsettled _ mine stays
  · refine ⟨fun location member => uses location (lends.used location (others member)) ?_,
      fun location member => settled ▸ lends.unsettled location (others member), distinct.2⟩
    rintro rfl
    exact distinct.1 member

/-- A register that was lent is given back. -/
theorem Standing.serves_freeRegister (natives : Natives)
    (standing : work.Standing tree means routine machine)
    (lends : work.Lends routine (storage :: held)) {pool : RegisterPool}
    (owned : storage.ownedRegister? = some register)
    (released : work.pool.release register = .ok pool) :
    Serves tree natives means routine machine { work with pool := pool } held routine machine := by
  obtain ⟨here, owns⟩ := Storage.location_of_ownedRegister owned
  obtain ⟨_, allocatable, live⟩ := RegisterPool.of_release released
  have sound := standing.pool.of_le allocatable fun other member => ((live other).mp member).1
  refine standing.serves_giveBack natives lends owns standing.begun rfl sound standing.frame rfl rfl
    rfl fun location used different => ?_
  cases location with
  | register other =>
    refine (live other).mpr ⟨used, ?_⟩
    rintro rfl
    exact different here.symm
  | slot slot => exact used
  | constant bits => trivial

/-- A slot that was lent is given back. -/
theorem Standing.serves_releaseSlot (natives : Natives)
    (standing : work.Standing tree means routine machine)
    (lends : work.Lends routine (storage :: held)) {offset : Offset}
    (owned : storage.isOwned = true) (here : storage.location = .slot offset) :
    let given : Routine := { routine with frame := routine.frame.release offset }
    Serves tree natives means routine machine { work with routine := some given } held given
      machine := by
  intro given
  have mine : storage.location ∈ Storage.lent (storage :: held) :=
    Storage.lent_of_owned owned ▸ List.mem_cons_self
  have used : work.Uses routine (.slot offset) := here ▸ lends.used _ mine
  have frame : given.frame.Sound := {
    homes := standing.frame.homes
    free := fun slot listed => by
      rcases List.mem_cons.mp listed with rfl | listed
      · exact used.1
      · exact standing.frame.free slot listed
    distinct := List.nodup_cons.mpr ⟨used.2, standing.frame.distinct⟩
    apart := fun home listed free => by
      rcases List.mem_cons.mp free with rfl | free
      · exact lends.unsettled _ mine (.inr (.inl ⟨home, listed, here⟩))
      · exact standing.frame.apart home listed free }
  refine standing.serves_giveBack natives lends owned rfl rfl standing.pool frame rfl rfl rfl
    fun location used different => ?_
  cases location with
  | register other => exact used
  | slot slot =>
    refine ⟨used.1, fun listed => ?_⟩
    rcases List.mem_cons.mp listed with rfl | listed
    · exact different here.symm
    · exact used.2 listed
  | constant bits => trivial

/-- What was lent is given back. -/
theorem Standing.serves_release (natives : Natives)
    (standing : work.Standing tree means routine machine)
    (lends : work.Lends routine (storage :: held))
    (done : Build.release tree storage work = .ok () after) :
    ∃ continued, Serves tree natives means routine machine after held continued machine := by
  rcases Build.of_release standing.begun done with
    ⟨shared, rfl⟩ | ⟨register, pool, owned, here, released, rfl⟩ | ⟨offset, owned, here, rfl⟩
  · have lent : Storage.lent (storage :: held) = _ := Storage.lent_of_shared shared
    exact ⟨routine, standing.serves_refl natives
      ⟨lent ▸ lends.used, lent ▸ lends.unsettled, lent ▸ lends.distinct⟩⟩
  · exact ⟨_, standing.serves_freeRegister natives lends
      (Storage.ownedRegister_of_isOwned owned here) released⟩
  · exact ⟨_, standing.serves_releaseSlot natives lends owned here⟩

/-- Code is written that keeps what is in use and leaves the stack where it is. -/
theorem Standing.serves_write (standing : work.Standing tree means routine machine)
    (lends : work.Lends routine held)
    (keeps : (runFrom tree natives means routine machine).Keeps (.ofStanding work routine)
      (machine.after natives instructions))
    (stack : (machine.after natives instructions).get .rsp = machine.get .rsp) :
    Serves tree natives means routine machine
      { work with routine := some (routine.append instructions) } held
      (routine.append instructions) (machine.after natives instructions) := by
  have undisturbed := standing.undisturbed natives keeps stack
  have value {location : Location} (settled : (Site.ofStanding work routine).settled location) :
      (machine.after natives instructions).value location = machine.value location := by
    have same := keeps.value (standing.consistent natives)
      (Site.taken_ofStanding.mpr (standing.uses settled))
    rwa [Site.ofStanding, state_runFrom_self] at same
  refine ⟨⟨instructions, Routine.code_append .., rfl⟩, stack, undisturbed.base, rfl,
    undisturbed.homes, ?_, ⟨lends.used, lends.unsettled, lends.distinct⟩⟩
  exact standing.goesOn rfl standing.pool standing.frame rfl rfl rfl stack undisturbed.base
    fun location settled => ⟨standing.uses settled, value settled⟩

/-- A particular register is lent. -/
theorem Standing.serves_allocateRegister (natives : Natives)
    (standing : work.Standing tree means routine machine) (lends : work.Lends routine held)
    (done : Build.allocateRegister kind register work = .ok result after) :
    Serves tree natives means routine machine after (result :: held) routine machine := by
  obtain ⟨_, allowed, free, rfl, rfl⟩ := Build.of_allocateRegister done
  exact standing.serves_assign natives lends allowed free none kind

/-- A register or a slot is lent. -/
theorem Standing.serves_allocateTemporary (natives : Natives)
    (standing : work.Standing tree means routine machine) (lends : work.Lends routine held)
    (done : Build.allocateTemporary tree kind work = .ok result after) :
    ∃ continued, Serves tree natives means routine machine after (result :: held) continued
      machine := by
  rcases Build.of_allocateTemporary done with
    ⟨register, allowed, free, rfl, rfl⟩ | ⟨offset, allocated, rfl⟩
  · exact ⟨routine, standing.serves_assign natives lends allowed free none kind⟩
  · rcases Build.of_allocateSlot standing.begun allocated with
      ⟨none, _⟩ | ⟨offset, rest, taken, free, rfl⟩
    · cases none
    · cases taken
      exact ⟨_, standing.serves_take natives lends free kind⟩

/-- A value is moved to a register that is lent in place of its old location. -/
theorem Standing.serves_moveToRegister (natives : Natives)
    (standing : work.Standing tree means routine machine)
    (lends : work.Lends routine (storage :: held))
    (done : Build.moveToRegister tree storage register work = .ok result after) :
    ∃ continued later,
      Serves tree natives means routine machine after (result :: held) continued later := by
  simp only [Build.moveToRegister] at done
  split at done
  · obtain ⟨rfl, rfl⟩ := estate_pure_eq_ok.mp done
    exact ⟨routine, machine, standing.serves_refl natives lends⟩
  · simp only [estate_bind_eq_ok, estate_pure_eq_ok] at done
    obtain ⟨_, _, allocated, _, _, fetched, _, _, released, rfl, rfl⟩ := done
    obtain ⟨_, allowed, free, rfl, rfl⟩ := Build.of_allocateRegister allocated
    have begun : Workspace.routine { work with pool := work.pool.assign register none } =
        some routine := standing.begun
    obtain ⟨instructions, granted, rfl⟩ := Build.of_write begun fetched
    obtain ⟨keeps, stack, _⟩ := standing.fetch natives allowed free granted
    have written := standing.serves_write lends keeps stack
    have lent := written.standing.serves_assign natives written.lends allowed free none storage.kind
    obtain ⟨continued, given⟩ :=
      lent.standing.serves_release natives (lent.lends.perm (.swap ..)) released
    exact ⟨continued, _, (written.trans lent).trans given⟩

/-- A value is moved to a slot that is lent in place of its register. -/
theorem Standing.serves_park (natives : Natives)
    (standing : work.Standing tree means routine machine)
    (lends : work.Lends routine (storage :: held))
    (done : Build.park tree storage work = .ok result after) :
    ∃ continued later,
      Serves tree natives means routine machine after (result :: held) continued later := by
  rcases Build.of_park standing.begun done with
    ⟨rfl, rfl⟩ | ⟨register, offset, rest, instructions, pool, owned, free, rfl, granted, released,
      same, _⟩
  · exact ⟨routine, machine, standing.serves_refl natives lends⟩
  · have listed : offset ∈ routine.frame.free := free ▸ List.mem_cons_self
    obtain ⟨keeps, stack, _⟩ := keeps_spill natives listed granted
    have written := standing.serves_write lends keeps stack
    have lent := written.standing.serves_take natives written.lends free storage.kind
    have given :=
      lent.standing.serves_freeRegister natives (lent.lends.perm (.swap ..)) owned released
    rw [same]
    exact ⟨_, _, ((written.trans lent).trans given).withStatistics _⟩

/-- What is settled of a workspace that agrees with a state is settled at its site. -/
theorem settled_of_consistent {run : Run} {site : Site} (consistent : run.Consistent site)
    {location : Location}
    (settled : (Site.ofStanding site.work site.routine).settled location) :
    site.settled location := by
  rcases settled with ⟨bits, rfl⟩ | ⟨home, listed, rfl⟩ | ⟨id, storage, cached, rfl⟩
  · exact consistent.constants bits
  · exact consistent.homes home listed
  · exact (consistent.kept id storage cached).1

/-- A node is generated, and what its storage owns is lent. The value of the node is there. -/
theorem Standing.serves_visit {id : NodeId} {hint : Option Register}
    (standing : work.Standing tree means routine machine) (lends : work.Lends routine held)
    (formed : tree.Formed) (fits : tree.size ≤ 2 ^ 52)
    (lawful : tree.Lawful natives (machine.Ahead tree) means)
    (done : Generation.visit tree id hint work = .ok result after) :
    ∃ continued later,
      Serves tree natives means routine machine after (result :: held) continued later ∧
        means id (later.value result.location) := by
  obtain ⟨site, rfl, generates⟩ := standing.generates formed fits lawful done
  obtain ⟨instructions, continued, code, _, keeps, stack, holds, there⟩ :=
    standing.visit formed fits lawful done
  have consistent := generates.consistent
  obtain rfl := Option.some.inj (consistent.begun.symm.trans there.begun)
  have taken {location : Location} (used : work.Uses routine location) :
      site.work.Uses site.routine location :=
    generates.taken location (Site.taken_ofStanding.mpr used)
  have unsettled {location : Location} (used : work.Uses routine location)
      (before : ¬(Site.ofStanding work routine).settled location) :
      ¬(Site.ofStanding site.work site.routine).settled location := by
    intro settled
    rcases generates.fresh location (settled_of_consistent consistent settled) with earlier | unused
    · exact before earlier
    · exact unused (Site.taken_ofStanding.mpr used)
  have lent : site.work.Lends site.routine held := {
    used := fun location member => taken (lends.used location member)
    unsettled := fun location member =>
      unsettled (lends.used location member) (lends.unsettled location member)
    distinct := lends.distinct }
  have undisturbed := standing.undisturbed natives keeps stack
  refine ⟨site.routine, _, ⟨⟨instructions, code, rfl⟩, stack, undisturbed.base, generates.homes,
    undisturbed.homes, there, ?_⟩, holds⟩
  refine lent.cons (fun _ => (generates.right _ List.mem_cons_self).taken)
    (fun owned settled => ?_) (fun owned member => ?_)
  · exact (generates.owned _ List.mem_cons_self owned).2 (settled_of_consistent consistent settled)
  · exact (generates.owned _ List.mem_cons_self owned).1
      (Site.taken_ofStanding.mpr (lends.used _ member))

end Workspace

end NativeExpr
