import NativeExpr.Proofs.Generation.Extension
import NativeExpr.Proofs.Ownership.Basic

/-!
# What steps of generation own and give back

A step takes some of the storages that are held and hands out others. `Workspace.Exchanges` says
that whoever holds what it takes, along with anything else, holds what it hands out in their place
when it has succeeded, and that nothing else has changed hands. A step may be the first one in a
function, which is then begun.
-/

namespace NativeExpr

/-- Whether a step in a function leaves its frame alone. -/
def Routine.Step.Framed {α : Type} (step : Routine.Step α) : Prop :=
  ∀ routine value later, step routine = .ok value later → later.frame = routine.frame

namespace Routine

theorem framed_of_evolves {α : Type} {step : Step α}
    (evolves : step.Evolves fun routine later => later.frame = routine.frame) : step.Framed := by
  intro routine value later done
  have same := evolves routine
  rwa [Step.leaves, done] at same

theorem framed_write (requests : List Request) : (write requests).Framed :=
  framed_of_evolves (evolution_frame.write requests)

theorem framed_save (register : Register) : (save register).Framed :=
  framed_of_evolves (evolution_frame.save register)

theorem framed_restore (register : Register) : (restore register).Framed :=
  framed_of_evolves (evolution_frame.restore register)

theorem framed_home (index : Nat) : (home? index).Framed :=
  framed_of_evolves (evolution_frame.home index)

end Routine

namespace Workspace

variable {work : Workspace} {owners : List Storage} {routine later : Routine}

/-- A function that is begun has all slots of its frame free. -/
theorem OwnedBy.opened (owned : work.OwnedBy owners) (opens : work.Opens routine) :
    ({ work with routine := some routine } : Workspace).OwnedBy owners := by
  rcases opens with begun | ⟨unbegun, parameters, started⟩
  · rwa [← begun]
  · have slots := owned.slots
    simp only [freeSlots, temporaries, unbegun, List.nil_append] at slots
    refine ⟨owned.live, owned.registers, ?_⟩
    rw [slots.eq_nil, List.append_nil]
    simp only [freeSlots, temporaries, Routine.frame_eq_of_start started, Frame.new,
      List.length_map, List.length_range]
    exact .refl _

/-- A step that leaves the frame alone neither takes nor hands out anything. -/
theorem OwnedBy.stepped (owned : work.OwnedBy owners) (opens : work.Opens routine)
    (frame : later.frame = routine.frame) :
    ({ work with routine := some later } : Workspace).OwnedBy owners := by
  refine (owned.opened opens).unchanged rfl ?_ ?_
  · simp only [freeSlots, frame]
  · simp only [temporaries, frame]

/-- What stays as it was while code is generated: the labels, and the homes of the function if there
is one. -/
structure Evolves (before after : Workspace) : Prop where
  labels : after.labels = before.labels
  homes : ∀ routine, before.routine = some routine →
    ∃ later, after.routine = some later ∧ later.frame.homes = routine.frame.homes

namespace Evolves

variable {before between after : Workspace}

theorem of_routine (labels : after.labels = before.labels)
    (routine : after.routine = before.routine) : before.Evolves after :=
  ⟨labels, fun routine begun => ⟨routine, by rwa [← begun], rfl⟩⟩

theorem refl (work : Workspace) : work.Evolves work := .of_routine rfl rfl

theorem trans (first : before.Evolves between) (second : between.Evolves after) :
    before.Evolves after where
  labels := second.labels.trans first.labels
  homes routine begun := by
    obtain ⟨middle, goesOn, same⟩ := first.homes routine begun
    obtain ⟨later, ended, further⟩ := second.homes middle goesOn
    exact ⟨later, ended, further.trans same⟩

/-- A step in the function that leaves the homes alone. -/
theorem of_opens (opens : before.Opens routine)
    (homes : later.frame.homes = routine.frame.homes) :
    before.Evolves { before with routine := some later } where
  labels := rfl
  homes begun here := by
    rcases opens with same | ⟨unbegun, _⟩
    · obtain rfl := Option.some.inj (here.symm.trans same)
      exact ⟨later, rfl, homes⟩
    · rw [here] at unbegun
      cases unbegun

end Evolves

/-- Whether a storage that is in a register owns it, with a node recorded as the owner. -/
def Credits (work : Workspace) (id : NodeId) (storage : Storage) : Prop :=
  ∀ register, storage.location = .register register →
    storage.ownedRegister? = some register ∧ work.pool.owner? register = some (some id)

theorem credits_of_slot {work : Workspace} {id : NodeId} {storage : Storage} {offset : Offset}
    (here : storage.location = .slot offset) : work.Credits id storage := by
  intro register there
  rw [here] at there
  cases there

/-- Whether the nodes whose values are kept in registers are recorded as their owners. -/
def Recorded (work : Workspace) : Prop :=
  ∀ (id : NodeId) (storage : Storage), work.caches[id]? = some storage → work.Credits id storage

/-- What has become of a workspace when some of the storages that are held have been given back
and others have been handed out, some nodes having been asked for. Everybody else holds what they
held, and new values are kept of shared nodes only that are needed for the nodes asked for. -/
structure Exchanges (tree : Tree) (asked : List NodeId) (before : Workspace)
    (given taken : List Storage) (after : Workspace) : Prop extends before.Evolves after where
  balanced : ∀ held, before.Balanced (given ++ held) → after.Balanced (taken ++ held)
  owners : ∀ held, before.Balanced (given ++ held) → ∀ storage ∈ before.storages held,
    ∀ register, storage.ownedRegister? = some register →
      after.pool.owner? register = before.pool.owner? register
  recorded : ∀ held, before.Balanced (given ++ held) → before.Recorded → after.Recorded
  kept : ∀ (id : NodeId) storage, before.caches[id]? = some storage →
    after.caches[id]? = some storage
  fresh : ∀ (id : NodeId) storage, after.caches[id]? = some storage →
    before.caches[id]? = some storage ∨
      tree.isShared id = true ∧ ∃ root ∈ asked, tree.Reaches root id

namespace Exchanges

variable {tree : Tree} {asked others : List NodeId} {before between after : Workspace}
variable {given taken last extra : List Storage}

/-- A step that keeps no new value. -/
theorem of_caches (evolves : before.Evolves after) (caches : after.caches = before.caches)
    (balanced : ∀ held, before.OwnedBy (given ++ before.storages held) →
      after.OwnedBy (taken ++ before.storages held))
    (owners : ∀ held, before.OwnedBy (given ++ before.storages held) →
      ∀ storage ∈ before.storages held, ∀ register, storage.ownedRegister? = some register →
        after.pool.owner? register = before.pool.owner? register) :
    Exchanges tree asked before given taken after := by
  have owned {held : List Storage} (balanced : before.Balanced (given ++ held)) :
      before.OwnedBy (given ++ before.storages held) :=
    OwnedBy.perm balanced (before.perm_storages given held)
  exact {
    toEvolves := evolves
    balanced := fun held balance => by
      have owned := balanced held (owned balance)
      rw [← storages_of_caches caches] at owned
      exact owned.perm (after.perm_storages taken held).symm
    owners := fun held balance => owners held (owned balance)
    recorded := fun held balance recorded id storage kept register location => by
      rw [caches] at kept
      obtain ⟨owns, owner⟩ := recorded id storage kept register location
      refine ⟨owns, ?_⟩
      rw [← owner]
      exact owners held (owned balance) storage (mem_storages.mpr (.inl ⟨id, kept⟩)) register owns
    kept := fun id storage kept => by rwa [caches]
    fresh := fun id storage kept => .inl (by rwa [caches] at kept) }

/-- A step that leaves the pool alone and keeps no new value. -/
theorem of_pool (evolves : before.Evolves after) (pool : after.pool = before.pool)
    (caches : after.caches = before.caches)
    (balanced : ∀ owners, before.OwnedBy (given ++ owners) → after.OwnedBy (taken ++ owners)) :
    Exchanges tree asked before given taken after :=
  .of_caches evolves caches (fun _ owned => balanced _ owned) fun _ _ _ _ _ _ => by rw [pool]

/-- The owner of a register that is held by somebody else stays recorded. -/
theorem credits (exchanges : Exchanges tree asked before given taken after) {held : List Storage}
    (balanced : before.Balanced (given ++ held)) {storage : Storage} (member : storage ∈ held)
    {id : NodeId} (credits : before.Credits id storage) : after.Credits id storage := by
  intro register location
  obtain ⟨owns, owner⟩ := credits register location
  refine ⟨owns, ?_⟩
  rw [← owner]
  exact exchanges.owners held balanced storage (mem_storages.mpr (.inr member)) register owns

theorem refl (tree : Tree) (asked : List NodeId) (work : Workspace) :
    Exchanges tree asked work [] [] work :=
  .of_pool (.refl work) rfl rfl fun _ => id

theorem trans (first : Exchanges tree asked before given taken between)
    (second : Exchanges tree asked between taken last after) :
    Exchanges tree asked before given last after where
  toEvolves := first.toEvolves.trans second.toEvolves
  balanced held balance := second.balanced held (first.balanced held balance)
  owners held balance storage member register owns := by
    have listed : storage ∈ between.storages held := by
      rcases mem_storages.mp member with ⟨id, kept⟩ | member
      · exact mem_storages.mpr (.inl ⟨id, first.kept id storage kept⟩)
      · exact mem_storages.mpr (.inr member)
    rw [second.owners held (first.balanced held balance) storage listed register owns]
    exact first.owners held balance storage member register owns
  recorded held balance recorded :=
    second.recorded held (first.balanced held balance) (first.recorded held balance recorded)
  kept id storage kept := second.kept id storage (first.kept id storage kept)
  fresh id storage kept :=
    (second.fresh id storage kept).elim (first.fresh id storage) .inr

/-- Whatever else is held stays held. -/
theorem beside (exchanges : Exchanges tree asked before given taken after)
    (extra : List Storage) :
    Exchanges tree asked before (given ++ extra) (taken ++ extra) after where
  toEvolves := exchanges.toEvolves
  balanced held balance := by
    rw [List.append_assoc] at *
    exact exchanges.balanced _ balance
  owners held balance storage member := by
    rw [List.append_assoc] at balance
    refine exchanges.owners _ balance storage (mem_storages.mpr ?_)
    exact (mem_storages.mp member).imp_right (List.mem_append_right extra)
  recorded held balance := by
    rw [List.append_assoc] at balance
    exact exchanges.recorded _ balance
  kept := exchanges.kept
  fresh := exchanges.fresh

/-- The order in which storages are given back and handed out does not matter. -/
theorem perm (exchanges : Exchanges tree asked before given taken after)
    {given' taken' : List Storage} (gives : given'.Perm given) (takes : taken.Perm taken') :
    Exchanges tree asked before given' taken' after := by
  have balance {held : List Storage} (balanced : before.Balanced (given' ++ held)) :
      before.Balanced (given ++ held) :=
    balanced.perm (gives.append_right held)
  exact {
    toEvolves := exchanges.toEvolves
    balanced := fun held balanced =>
      (exchanges.balanced held (balance balanced)).perm (takes.append_right held)
    owners := fun held balanced => exchanges.owners held (balance balanced)
    recorded := fun held balanced => exchanges.recorded held (balance balanced)
    kept := exchanges.kept
    fresh := exchanges.fresh }

/-- A step that takes some of what the one before has handed out. -/
theorem andThen (first : Exchanges tree asked before given taken between)
    (second : Exchanges tree asked between extra last after) {rest : List Storage}
    (split : taken.Perm (extra ++ rest)) : Exchanges tree asked before given (last ++ rest) after :=
  first.trans ((second.beside rest).perm split (.refl _))

/-- A step that takes nothing and hands out nothing. -/
theorem further (first : Exchanges tree asked before given taken between)
    (second : Exchanges tree asked between [] [] after) :
    Exchanges tree asked before given taken after :=
  first.andThen second (.refl _)

/-- Nodes are needed for whatever needs a node that they are needed for. -/
theorem mono (exchanges : Exchanges tree asked before given taken after)
    (needs : ∀ id ∈ asked, ∃ root ∈ others, tree.Reaches root id) :
    Exchanges tree others before given taken after where
  toEvolves := exchanges.toEvolves
  balanced := exchanges.balanced
  owners := exchanges.owners
  recorded := exchanges.recorded
  kept := exchanges.kept
  fresh id storage kept := by
    refine (exchanges.fresh id storage kept).imp_right ?_
    rintro ⟨shared, root, listed, reaches⟩
    obtain ⟨top, member, above⟩ := needs root listed
    exact ⟨shared, top, member, above.trans reaches⟩

end Exchanges

end Workspace

namespace Build

variable {tree : Tree} (asked : List NodeId) {before after : Workspace} {storage : Storage}

/-- A step that leaves the frame alone exchanges nothing. -/
theorem exchanges_of_step {α : Type} {step : Routine.Step α} {value : α} (framed : step.Framed)
    (done : onRoutine tree step before = .ok value after) :
    before.Exchanges tree asked [] [] after := by
  obtain ⟨routine, later, opens, stepped, rfl⟩ := of_onRoutine done
  have frame := framed routine value later stepped
  exact .of_pool (.of_opens opens (congrArg _ frame)) rfl rfl fun _ owned =>
    owned.stepped opens frame

/-- A slot that is found is handed out. -/
theorem exchanges_of_allocateSlot {slot : Option Offset} (kind : Kind)
    (done : onRoutine tree Routine.allocateSlot before = .ok slot after) :
    before.Exchanges tree asked []
      (slot.toList.map fun offset => .own (.slot offset) kind) after := by
  obtain ⟨routine, later, opens, stepped, rfl⟩ := of_onRoutine done
  obtain ⟨rfl, rfl⟩ := Routine.allocateSlot_eq_ok.mp stepped
  rcases routine.frame.allocate_cases with ⟨_, result⟩ | ⟨offset, rest, free, result⟩
  · rw [result]
    exact .of_pool (.of_opens opens rfl) rfl rfl fun _ owned => owned.opened opens
  · rw [result]
    exact .of_pool (.of_opens opens rfl) rfl rfl fun _ owned => (owned.opened opens).take rfl free

/-- A register that is found is handed out in the name of its owner. -/
theorem exchanges_of_tryRegister {bank : Bank} {owner : NodeId} {hint : Option Register}
    {register : Register} (kind : Kind)
    (done : tryRegister bank (some owner) hint before = .ok (some register) after) :
    before.Exchanges tree asked [] [.own (.register register) kind] after ∧
      after.Credits owner (.own (.register register) kind) := by
  rcases of_tryRegister done with ⟨none, _⟩ | ⟨_, found, _, allowed, free, rfl⟩
  · cases none
  obtain rfl := Option.some.inj found
  have real := RegisterPool.inBank_of_contains allowed
  refine ⟨.of_caches (.of_routine rfl rfl) rfl
    (fun held owned => owned.assign allowed free (some owner) kind)
      fun held owned storage member other owns => ?_,
    fun other here => ?_⟩
  · have live := owned.live_of_mem member owns
    refine RegisterPool.owner_assign_other real live ?_
    rintro rfl
    exact free live
  · cases here
    exact ⟨rfl, RegisterPool.owner_assign real⟩

/-- A register is given back by its owner. -/
theorem exchanges_of_freeRegister {register : Register} {value : Unit}
    (owns : storage.ownedRegister? = some register)
    (done : freeRegister register before = .ok value after) :
    before.Exchanges tree asked [storage] [] after := by
  obtain ⟨pool, released, rfl⟩ := of_freeRegister done
  refine .of_caches (.of_routine rfl rfl) rfl (fun held owned => owned.giveBackRegister owns released)
    fun held owned other member otherRegister otherOwns => ?_
  exact RegisterPool.owner_release_other released
    (owned.live_of_mem (List.mem_cons_of_mem _ member) otherOwns)
    (owned.ne_of_mem owns member otherOwns)

/-- A storage is given back. -/
theorem exchanges_of_release {value : Unit} (done : release tree storage before = .ok value after) :
    before.Exchanges tree asked [storage] [] after := by
  simp only [release] at done
  split at done
  · rename_i owned
    cases location : storage.location with
    | register register =>
      simp only [location] at done
      exact exchanges_of_freeRegister asked (Storage.ownedRegister_of_isOwned owned location) done
    | slot offset =>
      simp only [location] at done
      obtain ⟨routine, later, opens, stepped, rfl⟩ := of_onRoutine done
      obtain rfl := Routine.releaseSlot_eq_ok.mp stepped
      exact .of_pool (.of_opens opens rfl) rfl rfl fun _ balanced =>
        (balanced.opened opens).giveBackSlot rfl owned location
    | constant bits => simp [Storage.isOwned, location] at owned
  · rename_i shared
    obtain ⟨_, rfl⟩ := estate_pure_eq_ok.mp done
    exact .of_pool (.refl _) rfl rfl fun _ owned => owned.drop (by simpa using shared)

/-- A value that is materialized is in a register that its node owns. -/
theorem exchanges_of_materialize {owner : NodeId} {hint : Option Register} {activity : String}
    {register : Register} (kind : Kind)
    (done : materialize tree storage owner hint activity before = .ok register after) :
    before.Exchanges tree asked [storage] [.own (.register register) kind] after ∧
      ∀ held, before.Balanced (storage :: held) →
        after.Credits owner (.own (.register register) kind) := by
  simp only [materialize] at done
  cases owned : storage.ownedRegister? with
  | some mine =>
    simp only [owned] at done
    obtain ⟨pool, changed, rfl⟩ := withPool_eq_ok.mp done
    cases outcome : before.pool.transfer mine (some owner) with
    | error cause => simp [outcome, Except.map] at changed
    | ok moved =>
      simp only [outcome, Except.map, Except.ok.injEq, Prod.mk.injEq] at changed
      obtain ⟨rfl, rfl⟩ := changed
      obtain ⟨_, _, live⟩ := RegisterPool.of_transfer outcome
      obtain ⟨recorded, others⟩ := RegisterPool.owner_transfer outcome
      refine ⟨.of_caches (.of_routine rfl rfl) rfl (fun held balanced => ?_)
        fun held balanced other member otherRegister otherOwns => ?_,
        fun held balanced other here => ?_⟩
      · have slot := Storage.ownedSlot_of_ownedRegister owned
        have owns : (Storage.own (.register mine) kind).ownedRegister? = some mine := rfl
        have slotless : (Storage.own (.register mine) kind).ownedSlot? = none := rfl
        refine (balanced.congr ?_ ?_).unchanged live rfl rfl
        · simp only [List.cons_append, List.filterMap_cons, owns, owned]
        · simp only [List.cons_append, List.filterMap_cons, slot, slotless]
      · exact others otherRegister (balanced.live_of_mem (List.mem_cons_of_mem _ member) otherOwns)
          (balanced.ne_of_mem owned member otherOwns)
      · cases here
        exact ⟨rfl, recorded⟩
  | none =>
    simp only [owned, estate_bind_eq_ok] at done
    obtain ⟨found, between, tried, done⟩ := done
    cases found with
    | none => exact absurd done estate_throw_ne_ok
    | some target =>
      simp only [estate_bind_eq_ok, estate_pure_eq_ok] at done
      obtain ⟨_, fetched, brought, _, _, released, rfl, rfl⟩ := done
      obtain ⟨handed, credits⟩ := exchanges_of_tryRegister asked kind tried
      have fills := exchanges_of_step asked (Routine.framed_write _) brought
      have frees := exchanges_of_release asked released
      refine ⟨((handed.beside [storage]).further fills).andThen frees (.swap ..),
        fun held balanced => ?_⟩
      have there := handed.balanced (storage :: held) balanced
      have filled := (fills.balanced _ there).perm (.swap ..)
      exact frees.credits filled List.mem_cons_self (fills.credits there List.mem_cons_self credits)

/-- A step that changes the statistics only exchanges nothing. -/
theorem exchanges_of_statistics (same : after = { before with statistics := after.statistics }) :
    before.Exchanges tree asked [] [] after := by
  rw [same]
  exact .of_pool (.of_routine rfl rfl) rfl rfl fun _ owned => owned.unchanged rfl rfl rfl

/-- A value that is parked gives back its register for a slot. -/
theorem exchanges_of_park {parked : Storage} (done : park tree storage before = .ok parked after) :
    before.Exchanges tree asked [storage] [parked] after := by
  simp only [park] at done
  cases owned : storage.ownedRegister? with
  | none =>
    simp only [owned, estate_pure_eq_ok] at done
    obtain ⟨rfl, rfl⟩ := done
    exact (Workspace.Exchanges.refl tree asked before).beside [storage]
  | some register =>
    simp only [owned, estate_bind_eq_ok] at done
    obtain ⟨slot, between, allocated, done⟩ := done
    have handed := (exchanges_of_allocateSlot asked storage.kind allocated).beside [storage]
    cases slot with
    | none =>
      obtain ⟨rfl, rfl⟩ := estate_pure_eq_ok.mp done
      exact handed
    | some offset =>
      simp only [estate_bind_eq_ok, estate_pure_eq_ok] at done
      obtain ⟨_, _, spilled, _, _, freed, _, _, counted, rfl, rfl⟩ := done
      have filled := handed.further (exchanges_of_step asked (Routine.framed_write _) spilled)
      have moved := filled.andThen (exchanges_of_freeRegister asked owned freed) (.swap ..)
      exact moved.further (exchanges_of_statistics asked (by rw [count_eq_ok.mp counted]))

theorem exchanges_of_settle {settled : Storage}
    (done : (settled = storage ∧ after = before) ∨
      park tree storage before = .ok settled after) :
    before.Exchanges tree asked [storage] [settled] after := by
  rcases done with ⟨rfl, rfl⟩ | parked
  · exact (Workspace.Exchanges.refl tree asked after).beside [settled]
  · exact exchanges_of_park asked parked

end Build

namespace Stage

variable {tree : Tree} (asked : List NodeId) {before after : Workspace}

/-- Steps that leave the frame alone, one after the other. -/
theorem exchanges_of_forM {step : Register → Routine.Step Unit}
    (framed : ∀ register, (step register).Framed) {registers : List Register} {value : Unit}
    (done : registers.forM (fun register => Build.onRoutine tree (step register)) before =
      .ok value after) : before.Exchanges tree asked [] [] after := by
  induction registers generalizing before with
  | nil =>
    obtain ⟨_, rfl⟩ := estate_pure_eq_ok.mp done
    exact .refl ..
  | cons register rest ih =>
    obtain ⟨_, _, first, remaining⟩ := estate_bind_eq_ok.mp done
    exact (Build.exchanges_of_step asked (framed register) first).trans (ih remaining)

theorem exchanges_of_save {registers : List Register} {value : Unit}
    (done : save tree registers before = .ok value after) :
    before.Exchanges tree asked [] [] after :=
  exchanges_of_forM asked Routine.framed_save (save_eq_forM tree registers ▸ done)

theorem exchanges_of_restore {registers : List Register} {value : Unit}
    (done : restore tree registers before = .ok value after) :
    before.Exchanges tree asked [] [] after :=
  exchanges_of_forM asked Routine.framed_restore (restore_eq_forM tree registers ▸ done)

theorem exchanges_of_releaseAll {storages : List Storage} {value : Unit}
    (done : releaseAll tree storages before = .ok value after) :
    before.Exchanges tree asked storages [] after := by
  induction storages generalizing before with
  | nil =>
    obtain ⟨_, rfl⟩ := estate_pure_eq_ok.mp done
    exact .refl ..
  | cons storage rest ih =>
    simp only [releaseAll, estate_bind_eq_ok] at done
    obtain ⟨_, _, first, remaining⟩ := done
    exact ((Build.exchanges_of_release asked first).beside rest).trans (ih remaining)

/-- The outgoing area of a call is not part of the frame. -/
theorem framed_callThrough (stage : Stage) (moves : List Move) :
    Routine.Step.Framed (do
      let outgoing := stage.stackSize + (← get).callPadding stage.stackSize
      Routine.reserve outgoing
      Routine.write (MoveSchedule.ofMoves moves).requests
      Routine.write [.call Convention.callTarget]
      Routine.giveUp outgoing : Routine.Step Unit) :=
  Routine.framed_of_evolves (Routine.evolution_frame.callThrough stage moves)

theorem exchanges_of_callThrough {stage : Stage} {moves : List Move} {value : Unit}
    (done : stage.callThrough tree moves before = .ok value after) :
    before.Exchanges tree asked [] [] after :=
  Build.exchanges_of_step asked (framed_callThrough stage moves) done

/-- A result is captured in a register that its node owns, or in a slot. -/
theorem exchanges_of_capture {call : NodeId} {kind : Kind} {hint : Option Register}
    {result : Storage} (done : capture tree call kind hint before = .ok result after) :
    before.Exchanges tree asked [] [result] after ∧
      ∀ held, before.Balanced held → after.Credits call result := by
  simp only [capture, estate_bind_eq_ok, estate_get_eq_ok] at done
  obtain ⟨_, _, ⟨rfl, rfl⟩, found, between, tried, done⟩ := done
  cases found with
  | some register =>
    simp only [estate_bind_eq_ok, estate_pure_eq_ok] at done
    obtain ⟨_, _, fetched, rfl, rfl⟩ := done
    obtain ⟨handed, credits⟩ := Build.exchanges_of_tryRegister asked kind tried
    have fills := Build.exchanges_of_step asked (Routine.framed_write _) fetched
    exact ⟨handed.further fills, fun held balanced =>
      fills.credits (handed.balanced held balanced) List.mem_cons_self credits⟩
  | none =>
    rcases Build.of_tryRegister tried with ⟨_, rfl⟩ | ⟨_, some, _⟩
    case inr => cases some
    simp only [estate_bind_eq_ok] at done
    obtain ⟨slot, between, allocated, done⟩ := done
    cases slot with
    | none => exact absurd done estate_throw_ne_ok
    | some offset =>
      simp only [estate_bind_eq_ok, estate_pure_eq_ok] at done
      obtain ⟨_, _, spilled, rfl, rfl⟩ := done
      have handed := Build.exchanges_of_allocateSlot asked kind allocated
      exact ⟨handed.further (Build.exchanges_of_step asked (Routine.framed_write _) spilled),
        fun _ _ => Workspace.credits_of_slot rfl⟩

end Stage

end NativeExpr
