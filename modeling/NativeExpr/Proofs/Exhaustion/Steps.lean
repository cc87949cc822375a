import NativeExpr.Proofs.Ownership.Generation

/-!
# Steps that fail for want of room only

Once a function has been begun and its nodes have labels, no step of its generation fails unless
neither a register nor a slot is left: whatever is given back is owned, and whatever is written
names registers of the machine in banks that the instructions work on.
-/

namespace NativeExpr

/-- Whether a step succeeds with a result of which something holds, unless registers and slots
run out. -/
def Build.Yields {α : Type} (step : Build α) (work : Workspace) (holds : α → Workspace → Prop) :
    Prop :=
  match step work with
  | .ok value after => holds value after
  | .error cause _ => cause.isExhaustion = true

namespace Build

variable {α β : Type} {step : Build α} {next : α → Build β} {work : Workspace}
variable {holds : α → Workspace → Prop} {later : β → Workspace → Prop}

/-- After a step that succeeds the next one is taken. -/
theorem Yields.after {value : α} {after : Workspace} (done : step work = .ok value after)
    (rest : (next value).Yields after later) : (step >>= next).Yields work later := by
  unfold Yields at rest ⊢
  simp only [Bind.bind, EStateM.bind, done]
  exact rest

/-- Steps that go by the workspace. -/
theorem Yields.afterGet {next : Workspace → Build β} (rest : (next work).Yields work later) :
    ((get : Build Workspace) >>= next).Yields work later :=
  rest

theorem Yields.afterModify {next : Unit → Build β} {change : Workspace → Workspace}
    (rest : (next ()).Yields (change work) later) :
    ((modify change : Build Unit) >>= next).Yields work later :=
  rest

theorem Yields.bind (first : step.Yields work holds)
    (rest : ∀ value after, step work = .ok value after → holds value after →
      (next value).Yields after later) :
    (step >>= next).Yields work later := by
  unfold Yields at first ⊢
  simp only [Bind.bind, EStateM.bind]
  cases done : step work with
  | ok value after =>
    rw [done] at first
    exact rest value after done first
  | error cause after =>
    rw [done] at first
    exact first

/-- Steps after one of which two things are known. -/
theorem Yields.bindBoth {also : α → Workspace → Prop}
    (first : step.Yields work fun value after => holds value after ∧ also value after)
    (rest : ∀ value after, holds value after → also value after →
      (next value).Yields after later) :
    (step >>= next).Yields work later :=
  first.bind fun value after _ both => rest value after both.1 both.2

theorem Yields.mono (yields : step.Yields work holds) {weaker : α → Workspace → Prop}
    (implies : ∀ value after, step work = .ok value after → holds value after →
      weaker value after) : step.Yields work weaker := by
  unfold Yields at yields ⊢
  cases done : step work with
  | ok value after =>
    rw [done] at yields
    exact implies value after done yields
  | error cause after =>
    rw [done] at yields
    exact yields

theorem yields_pure {value : α} (here : holds value work) :
    (pure value : Build α).Yields work holds := here

theorem yields_exhausted (bank : Bank) (activity : String) :
    (throw (.exhausted bank activity) : Build α).Yields work holds :=
  (rfl : (CompileError.exhausted bank activity).isExhaustion = true)

end Build

/-- Whether a step in a function succeeds in every function. -/
def Routine.Step.Succeeds {α : Type} (step : Routine.Step α) : Prop :=
  ∀ routine, ∃ value later, step routine = .ok value later

namespace Routine

theorem succeeds_bind {α β : Type} {step : Step α} {next : α → Step β} (first : step.Succeeds)
    (rest : ∀ value, (next value).Succeeds) : (step >>= next).Succeeds := by
  intro routine
  obtain ⟨value, between, done⟩ := first routine
  obtain ⟨last, later, further⟩ := rest value between
  exact ⟨last, later, estate_bind_eq_ok.mpr ⟨value, between, done, further⟩⟩

theorem succeeds_modify (change : Routine → Routine) : Step.Succeeds (modify change) :=
  fun routine => ⟨(), change routine, rfl⟩

/-- Requests that are granted are written. -/
theorem succeeds_write {requests : List Request} (granted : ∀ request ∈ requests, request.Granted) :
    (write requests).Succeeds := by
  intro routine
  obtain ⟨instructions, assembled⟩ := assemble_of_granted granted
  exact ⟨(), _, write_eq_ok.mpr ⟨instructions, assembled, rfl⟩⟩

theorem succeeds_save {register : Register} (real : register.InBank) : (save register).Succeeds := by
  refine succeeds_bind (succeeds_write ?_) fun _ => succeeds_modify _
  have top := Request.granted_general (rfl : Register.rsp.bank = .generalPurpose) (by decide)
  split
  · rename_i general
    simpa using (Request.granted_general general real).1
  · simpa using ⟨top.2.2.2 .sub 8, Request.granted_store real rfl (by decide) 0⟩

theorem succeeds_restore {register : Register} (real : register.InBank) :
    (restore register).Succeeds := by
  refine succeeds_bind (succeeds_write ?_) fun _ => succeeds_modify _
  have top := Request.granted_general (rfl : Register.rsp.bank = .generalPurpose) (by decide)
  split
  · rename_i general
    simpa using (Request.granted_general general real).2.1
  · simpa using ⟨Request.granted_load real rfl (by decide) 0, top.2.2.2 .add 8⟩

theorem succeeds_reserve (bytes : BitVec 32) : (reserve bytes).Succeeds := by
  have top := Request.granted_general (rfl : Register.rsp.bank = .generalPurpose) (by decide)
  simp only [reserve]
  split
  · refine succeeds_bind (succeeds_write ?_) fun _ => succeeds_modify _
    simpa using top.2.2.2 .sub bytes
  · exact fun routine => ⟨(), routine, rfl⟩

theorem succeeds_giveUp (bytes : BitVec 32) : (giveUp bytes).Succeeds := by
  have top := Request.granted_general (rfl : Register.rsp.bank = .generalPurpose) (by decide)
  simp only [giveUp]
  split
  · refine succeeds_bind (succeeds_write ?_) fun _ => succeeds_modify _
    simpa using top.2.2.2 .add bytes
  · exact fun routine => ⟨(), routine, rfl⟩

end Routine

/-- Whether a storage may hold a value of a kind: it says so, and a register that it is in is one
of the machine and of the kind's bank. -/
structure Storage.Suits (storage : Storage) (expected : Kind) : Prop where
  kind : storage.kind = expected
  register : ∀ register, storage.location = .register register →
    register.bank = expected.bank ∧ register.InBank

theorem Storage.suits_of_slot {storage : Storage} {kind : Kind} {offset : Offset}
    (here : storage.location = .slot offset) (same : storage.kind = kind) : storage.Suits kind where
  kind := same
  register := by simp [here]

theorem Storage.suits_of_register {register : Register} {kind : Kind}
    (own : register.bank = kind.bank) (real : register.InBank) :
    (Storage.own (.register register) kind).Suits kind where
  kind := rfl
  register other here := by
    obtain rfl := Location.register.inj here
    exact ⟨own, real⟩

/-- Whether a node has a label. -/
def Workspace.Labels (work : Workspace) (id : NodeId) : Prop :=
  ∃ count, work.labels[id]? = some count

/-- Whether the nodes that are needed can be generated in a function of so many parameters. -/
structure Workspace.Ready (tree : Tree) (needed : NodeId → Prop) (parameters : Nat)
    (work : Workspace) (held : List Storage) : Prop where
  balanced : work.Balanced held
  begun : ∃ routine, work.routine = some routine ∧ routine.frame.homes.length = parameters
  labeled : ∀ id, needed id → work.Labels id
  kept : ∀ (id : NodeId) storage, work.caches[id]? = some storage →
    storage.Suits (tree.kindOf id)

namespace Workspace.Ready

variable {tree : Tree} {needed : NodeId → Prop} {parameters : Nat} {work after : Workspace}
variable {held : List Storage}

theorem perm (ready : work.Ready tree needed parameters held) {taken : List Storage}
    (same : held.Perm taken) :
    work.Ready tree needed parameters taken :=
  { ready with balanced := ready.balanced.perm same }

/-- What is ready stays so if what is newly kept suits its nodes. -/
theorem exchange (given taken : List Storage)
    (ready : work.Ready tree needed parameters (given ++ held)) {asked : List NodeId}
    (exchanges : work.Exchanges tree asked given taken after)
    (kept : ∀ (id : NodeId) storage, after.caches[id]? = some storage →
      storage.Suits (tree.kindOf id)) :
    after.Ready tree needed parameters (taken ++ held) where
  balanced := exchanges.balanced held ready.balanced
  begun := by
    obtain ⟨routine, begun, count⟩ := ready.begun
    obtain ⟨later, goesOn, same⟩ := exchanges.homes routine begun
    exact ⟨later, goesOn, by rw [same, count]⟩
  labeled := by
    simp only [Labels, exchanges.labels]
    exact ready.labeled
  kept := kept

/-- What is ready stays so in a step that asks for no node. -/
theorem step (given taken : List Storage)
    (ready : work.Ready tree needed parameters (given ++ held))
    (exchanges : work.Exchanges tree [] given taken after) :
    after.Ready tree needed parameters (taken ++ held) :=
  exchange given taken ready exchanges fun id storage kept => by
    rcases exchanges.fresh id storage kept with earlier | ⟨_, root, listed, _⟩
    · exact ready.kept id storage earlier
    · exact (List.not_mem_nil listed).elim

end Workspace.Ready

namespace Build

variable {tree : Tree} {needed : NodeId → Prop} {parameters : Nat} {work : Workspace}
variable {held : List Storage} {storage : Storage}

/-- The label of a node that has one is found. -/
theorem label_ok {id : NodeId} {node : Node} (found : tree.node? id = some node)
    (labeled : work.Labels id) : ∃ count, label tree id work = .ok count work := by
  obtain ⟨count, labeled⟩ := labeled
  exact ⟨count, by rw [label_eq found, labeled]⟩

/-- A step in the function that succeeds and leaves the frame alone. -/
theorem yields_step {α : Type} {step : Routine.Step α}
    (ready : work.Ready tree needed parameters held) (framed : step.Framed)
    (succeeds : step.Succeeds) :
    (onRoutine tree step).Yields work fun _ after =>
      after.Ready tree needed parameters held := by
  obtain ⟨routine, begun, _⟩ := ready.begun
  obtain ⟨value, later, stepped⟩ := succeeds routine
  have done : onRoutine tree step work = .ok value { work with routine := some later } :=
    (onRoutine_eq_ok begun).mpr ⟨later, stepped, rfl⟩
  rw [Yields, done]
  exact Workspace.Ready.step [] [] ready (exchanges_of_step [] framed done)

/-- Requests that are granted are written. -/
theorem yields_write {requests : List Request} (ready : work.Ready tree needed parameters held)
    (granted : ∀ request ∈ requests, request.Granted) :
    (onRoutine tree (Routine.write requests)).Yields work fun _ after =>
      after.Ready tree needed parameters held :=
  yields_step ready (Routine.framed_write requests) (Routine.succeeds_write granted)

/-- A slot is found, or none is. -/
theorem yields_allocateSlot (ready : work.Ready tree needed parameters held) (kind : Kind) :
    (onRoutine tree Routine.allocateSlot).Yields work fun slot after =>
      after.Ready tree needed parameters
        ((slot.toList.map fun offset => .own (.slot offset) kind) ++ held) := by
  obtain ⟨routine, begun, _⟩ := ready.begun
  have done : onRoutine tree Routine.allocateSlot work = .ok routine.frame.allocate.1 { work with
      routine := some { routine with frame := routine.frame.allocate.2 } } :=
    (onRoutine_eq_ok begun).mpr ⟨_, Routine.allocateSlot_eq_ok.mpr ⟨rfl, rfl⟩, rfl⟩
  rw [Yields, done]
  exact Workspace.Ready.step [] _ ready (exchanges_of_allocateSlot [] kind done)

/-- A register of a bank is found, or none is. -/
theorem yields_tryRegister (ready : work.Ready tree needed parameters held) (kind : Kind)
    (owner : NodeId) (hint : Option Register) :
    (tryRegister kind.bank (some owner) hint).Yields work fun found after =>
      (found = none ∧ after = work) ∨
        ∃ register, found = some register ∧ (Storage.own (.register register) kind).Suits kind ∧
          after.Ready tree needed parameters (.own (.register register) kind :: held) := by
  obtain ⟨found, after, done⟩ := tryRegister_ok kind.bank (some owner) hint work
  rw [Yields, done]
  rcases of_tryRegister done with same | ⟨register, rfl, own, allowed, _⟩
  · exact .inl same
  · refine .inr ⟨register, rfl,
      Storage.suits_of_register own (RegisterPool.inBank_of_contains allowed), ?_⟩
    · exact Workspace.Ready.step [] [_] ready
        (exchanges_of_tryRegister [] kind done).1

/-- A register is given back by its owner. -/
theorem yields_freeRegister {register : Register}
    (ready : work.Ready tree needed parameters (storage :: held))
    (owns : storage.ownedRegister? = some register) :
    (freeRegister register).Yields work fun _ after => after.Ready tree needed parameters held := by
  have live : work.pool.live.contains register :=
    Workspace.OwnedBy.live_of_mem ready.balanced
      (Workspace.mem_storages.mpr (.inr List.mem_cons_self)) owns
  obtain ⟨pool, released⟩ : ∃ pool, work.pool.release register = .ok pool :=
    ⟨_, by simp only [RegisterPool.release, live, if_true]; rfl⟩
  have done : freeRegister register work = .ok () { work with pool := pool } :=
    withPool_eq_ok.mpr ⟨pool, by simp only [released, Except.map], rfl⟩
  rw [Yields, done]
  exact Workspace.Ready.step [_] [] ready
    (exchanges_of_freeRegister [] owns done)

/-- What is held is given back. -/
theorem yields_release (ready : work.Ready tree needed parameters (storage :: held)) :
    (release tree storage).Yields work fun _ after =>
      after.Ready tree needed parameters held := by
  suffices outcome : (release tree storage).Yields work fun _ _ => True from
    outcome.mono fun _ after done _ => Workspace.Ready.step [_] [] ready
      (exchanges_of_release [] done)
  simp only [release]
  split
  · rename_i owned
    cases location : storage.location with
    | register register =>
      have owns := Storage.ownedRegister_of_isOwned owned location
      exact (yields_freeRegister ready owns).mono fun _ _ _ _ => trivial
    | slot offset =>
      obtain ⟨routine, begun, _⟩ := ready.begun
      have done : onRoutine tree (Routine.releaseSlot offset) work = .ok () { work with
          routine := some { routine with frame := routine.frame.release offset } } :=
        (onRoutine_eq_ok begun).mpr ⟨_, Routine.releaseSlot_eq_ok.mpr rfl, rfl⟩
      simp only [Yields, done]
    | constant bits => exact yields_pure trivial
  · exact yields_pure trivial

/-- A value is brought into a register, its own one or one of its bank. -/
theorem yields_materialize {kind : Kind} (ready : work.Ready tree needed parameters (storage :: held))
    (suits : storage.Suits kind) (owner : NodeId) (hint : Option Register) (activity : String) :
    (materialize tree storage owner hint activity).Yields work fun register after =>
      (Storage.own (.register register) kind).Suits kind ∧
        after.Ready tree needed parameters (.own (.register register) kind :: held) := by
  suffices outcome : (materialize tree storage owner hint activity).Yields work fun register _ =>
      (Storage.own (.register register) kind).Suits kind from
    outcome.mono fun register after done here => ⟨here, Workspace.Ready.step [_] [_]
      ready (exchanges_of_materialize [] kind done).1⟩
  simp only [materialize]
  cases owned : storage.ownedRegister? with
  | some register =>
    have live : work.pool.live.contains register :=
      Workspace.OwnedBy.live_of_mem ready.balanced
        (Workspace.mem_storages.mpr (.inr List.mem_cons_self)) owned
    obtain ⟨pool, moved⟩ : ∃ pool, work.pool.transfer register (some owner) = .ok pool :=
      ⟨_, by simp only [RegisterPool.transfer, live, if_true]; rfl⟩
    have done : withPool (fun pool => (pool.transfer register (some owner)).map fun pool =>
        (register, pool)) work = .ok register { work with pool := pool } :=
      withPool_eq_ok.mpr ⟨pool, by simp only [moved, Except.map], rfl⟩
    simp only [Yields, done]
    obtain ⟨own, real⟩ := suits.register register (Storage.location_of_ownedRegister owned).1
    exact Storage.suits_of_register own real
  | none =>
    rw [suits.kind]
    refine (yields_tryRegister ready kind owner hint).bind fun found between _ outcome => ?_
    rcases outcome with ⟨rfl, rfl⟩ | ⟨register, rfl, here, ready⟩
    · exact yields_exhausted _ _
    · refine (yields_write ready (Transfer.granted_intoRegister
        (here.register register rfl).2 fun source there => (suits.register source there).2)).bind
        fun _ fetched _ ready => ?_
      refine (yields_release (ready.perm (.swap ..))).bind fun _ _ _ _ => ?_
      exact yields_pure here

/-- Counting changes nothing that matters. -/
theorem yields_count (ready : work.Ready tree needed parameters held)
    (change : Statistics → Statistics) :
    (count change).Yields work fun _ after => after.Ready tree needed parameters held :=
  Workspace.Ready.step [] [] ready (exchanges_of_statistics [] rfl)

theorem granted_spill {register : Register} (real : register.InBank) (offset : Offset) :
    ∀ request ∈ [Request.store .rbp offset register], request.Granted := by
  intro request listed
  rw [List.mem_singleton.mp listed]
  exact Request.granted_store real rfl (by decide) offset

/-- A value is parked in a slot, or stays where it is. -/
theorem yields_park {kind : Kind} (ready : work.Ready tree needed parameters (storage :: held))
    (suits : storage.Suits kind) :
    (park tree storage).Yields work fun parked after =>
      parked.Suits kind ∧ after.Ready tree needed parameters (parked :: held) := by
  suffices outcome : (park tree storage).Yields work fun parked _ => parked.Suits kind from
    outcome.mono fun parked after done here => ⟨here, Workspace.Ready.step [_] [_]
      ready (exchanges_of_park [] done)⟩
  simp only [park]
  cases owns : storage.ownedRegister? with
  | none => exact yields_pure suits
  | some register =>
    have real := (suits.register register (Storage.location_of_ownedRegister owns).1).2
    refine (yields_allocateSlot ready kind).bind fun slot _ _ ready => ?_
    cases slot with
    | none => exact yields_pure suits
    | some offset =>
      refine (yields_write ready (granted_spill real offset)).bind fun _ _ _ ready => ?_
      refine (yields_freeRegister (ready.perm (.swap ..)) owns).bind fun _ _ _ ready => ?_
      refine (yields_count ready _).bind fun _ _ _ _ => ?_
      exact yields_pure (Storage.suits_of_slot rfl suits.kind)

theorem yields_parkUnderPressure {kind : Kind}
    (ready : work.Ready tree needed parameters (storage :: held)) (suits : storage.Suits kind)
    (required : Nat) (bank : Bank) :
    (parkUnderPressure tree storage required bank).Yields work fun parked after =>
      parked.Suits kind ∧ after.Ready tree needed parameters (parked :: held) := by
  simp only [parkUnderPressure]
  split
  · exact yields_pure ⟨suits, ready⟩
  · refine Yields.afterGet ?_
    split
    · exact yields_park ready suits
    · exact yields_pure ⟨suits, ready⟩

end Build

end NativeExpr
