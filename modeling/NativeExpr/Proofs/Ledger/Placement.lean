import NativeExpr.Proofs.Ledger.Basic
import NativeExpr.Proofs.Ledger.Pool
import NativeExpr.Proofs.Ownership.Exchange

/-!
# Placements as a ledger shows them

Every workspace has a ledger. `Build.Booked` says that a step does to the ledger of its workspace
what a step of the ledger does, with a value that holds as much, or that both find no room for the
same reason. How a step fails otherwise is left open: that it does not is another matter.
-/

namespace NativeExpr

/-- The statistics without what depends on the names of registers. -/
def Statistics.nameless (statistics : Statistics) : Statistics :=
  { statistics with registersSaved := 0 }

/-- What the holder of a storage has to give back. -/
def Storage.holding (storage : Storage) : Holding :=
  if storage.isOwned then
    match storage.location with
    | .register register => .register register.bank
    | .slot _ => .slot
    | .constant _ => .nothing
  else
    .nothing

namespace Storage

theorem holding_of_ownedRegister {storage : Storage} {register : Register}
    (owned : storage.ownedRegister? = some register) :
    storage.holding = .register register.bank := by
  obtain ⟨location, mine⟩ := location_of_ownedRegister owned
  simp [holding, mine, location]

theorem holding_of_unregistered {storage : Storage} (unowned : storage.ownedRegister? = none)
    (bank : Bank) : storage.holding ≠ .register bank := by
  obtain ⟨location, kind, mine⟩ := storage
  cases location <;> cases mine <;>
    simp_all [holding, isOwned, ownedRegister?, register?, Location.register?]

theorem holding_of_shared {storage : Storage} (shared : storage.isOwned = false) :
    storage.holding = .nothing := by
  simp [holding, shared]

end Storage

/-- What a workspace has handed out and what it keeps, by numbers only. -/
def Workspace.ledger (work : Workspace) : Ledger where
  limit := work.pool.allocatable.countIn
  free := work.pool.freeCount
  peak := work.pool.peaks.get
  slots := work.freeSlots.length
  kept id := work.caches[id]?.isSome
  statistics := work.statistics.nameless

/-- What a ledger relies on: no register is live that may not be handed out, a function has been
begun, the nodes that are needed have the labels that the ledger goes by, and kept values have the
kinds of their nodes. -/
structure Workspace.Orderly (tree : Tree) (labels : NodeId → Nat) (needed : NodeId → Prop)
    (work : Workspace) : Prop where
  sound : work.pool.Sound
  begun : ∃ routine, work.routine = some routine
  labeled : ∀ id, needed id → work.label id = labels id
  kinds : ∀ (id : NodeId) storage, work.caches[id]? = some storage →
    storage.kind = tree.kindOf id

namespace Build

/-- Whether a step goes as one of the ledger does: it succeeds with a related value and comes to the
same ledger, or there is no room for the same reason, or it fails for lack of something else. -/
inductive Booked {α β : Type} (orderly : Workspace → Prop) (values : α → β → Prop) :
    EStateM.Result CompileError Workspace α → EStateM.Result Shortage Ledger β → Prop where
  | ok {value : α} {entry : β} {after : Workspace} {later : Ledger} (suits : values value entry)
      (inOrder : orderly after) (books : after.ledger = later) :
      Booked orderly values (.ok value after) (.ok entry later)
  | exhausted (bank : Bank) (activity : String) (after : Workspace) (later : Ledger) :
      Booked orderly values (.error (.exhausted bank activity) after)
        (.error ⟨bank, activity⟩ later)
  | failed {cause : CompileError} (other : cause.isExhaustion = false) (after : Workspace)
      (result : EStateM.Result Shortage Ledger β) :
      Booked orderly values (.error cause after) result

variable {α β γ δ : Type} {orderly : Workspace → Prop}
variable {values : α → β → Prop} {ends : γ → δ → Prop} {work : Workspace} {ledger : Ledger}

/-- Steps that go as booked, one after the other. -/
theorem Booked.bind {step : Build α} {entry : Ledger.Step β} {next : α → Build γ}
    {follow : β → Ledger.Step δ} (first : Booked orderly values (step work) (entry ledger))
    (rest : ∀ value other after, values value other → orderly after →
      Booked orderly ends (next value after) (follow other after.ledger)) :
    Booked orderly ends ((step >>= next) work) ((entry >>= follow) ledger) := by
  simp only [Bind.bind, EStateM.bind]
  generalize step work = ended, entry ledger = booked at first ⊢
  cases first with
  | ok suits inOrder books => exact books ▸ rest _ _ _ suits inOrder
  | exhausted bank activity after later => exact .exhausted bank activity after later
  | failed other after => exact .failed other after _

/-- A step of which the ledger shows nothing. -/
theorem Booked.skip {step : Build α} {next : α → Build γ} {entry : Ledger.Step δ}
    (first : Booked orderly (fun _ (_ : Unit) => True) (step work) (.ok () work.ledger))
    (rest : ∀ value after, step work = .ok value after → orderly after →
      Booked orderly ends (next value after) (entry after.ledger)) :
    Booked orderly ends ((step >>= next) work) (entry work.ledger) := by
  simp only [Bind.bind, EStateM.bind]
  generalize ended : step work = outcome at first
  cases first with
  | ok _ inOrder books => exact books ▸ rest _ _ ended inOrder
  | failed other after => exact .failed other after _

/-- A step whose value is used in another form. -/
theorem Booked.map {step : Build α} {change : α → γ} {result : EStateM.Result Shortage Ledger β}
    {ends : γ → β → Prop} (first : Booked orderly values (step work) result)
    (implies : ∀ value entry, values value entry → ends (change value) entry) :
    Booked orderly ends ((step >>= fun value => pure (change value)) work) result := by
  simp only [Bind.bind, EStateM.bind]
  generalize step work = ended at first
  cases first with
  | ok suits inOrder books => exact .ok (implies _ _ suits) inOrder books
  | exhausted bank activity after later => exact .exhausted bank activity after later
  | failed other after => exact .failed other after _

/-- A step that is known to succeed and of which the ledger shows nothing. -/
theorem Booked.after {step : Build α} {next : α → Build γ} {value : α} {after : Workspace}
    {result : EStateM.Result Shortage Ledger δ} (done : step work = .ok value after)
    (rest : Booked orderly ends (next value after) result) :
    Booked orderly ends ((step >>= next) work) result := by
  simpa only [Bind.bind, EStateM.bind, done] using rest

/-- Steps that go by the workspace. -/
theorem Booked.afterGet {next : Workspace → Build γ} {result : EStateM.Result Shortage Ledger δ}
    (rest : Booked orderly ends (next work work) result) :
    Booked orderly ends (((get : Build Workspace) >>= next) work) result :=
  rest

theorem booked_pure {value : α} {entry : β} (suits : values value entry) (inOrder : orderly work) :
    Booked orderly values ((pure value : Build α) work)
      ((pure entry : Ledger.Step β) work.ledger) :=
  .ok suits inOrder rfl

/-- A result that does not depend on the workspace, and no room is asked for. -/
theorem booked_lift {result : Except CompileError α}
    (other : ∀ cause, result = .error cause → cause.isExhaustion = false) (inOrder : orderly work) :
    Booked orderly (fun _ (_ : Unit) => True) (lift result work) (.ok () work.ledger) := by
  cases result with
  | ok value => exact .ok trivial inOrder rfl
  | error cause => exact .failed (other cause rfl) _ _

end Build

namespace Workspace

variable {tree : Tree} {labels : NodeId → Nat} {needed : NodeId → Prop} {work : Workspace}
variable {register : Register}

/-- A register that is handed out is withdrawn from the ledger. -/
theorem ledger_assign (sound : work.pool.Sound)
    (allowed : work.pool.allocatable.contains register)
    (free : ¬work.pool.live.contains register) (owner : Option NodeId) :
    ({ work with pool := work.pool.assign register owner } : Workspace).ledger =
      work.ledger.withdraw register.bank := by
  have count := work.pool.freeCount_assign allowed free owner
  have total := RegisterPool.live_add_free (sound.assign allowed owner).live register.bank
  have left : (work.pool.assign register owner).freeCount register.bank =
      work.pool.freeCount register.bank - 1 := by
    have here := count register.bank
    rw [if_pos rfl] at here
    omega
  ext bank
  · rfl
  · by_cases own : bank = register.bank
    · subst own
      simpa [ledger, Ledger.withdraw] using left
    · have here := count bank
      simp only [if_neg own, Nat.add_zero] at here
      simp [ledger, Ledger.withdraw, own, here]
  · by_cases own : bank = register.bank
    · subst own
      have live : (work.pool.live.insert register).countIn register.bank =
          work.pool.allocatable.countIn register.bank -
            (work.pool.freeCount register.bank - 1) := by
        rw [← left]
        exact Nat.eq_sub_of_add_eq total
      simp [ledger, Ledger.withdraw, RegisterPool.assign, PerBank.get_set, live]
    · simp [ledger, Ledger.withdraw, RegisterPool.assign, PerBank.get_set, own]
  · rfl
  · rfl
  · rfl

/-- A register that is taken back is refunded. -/
theorem ledger_release (sound : work.pool.Sound) {pool : RegisterPool}
    (released : work.pool.release register = .ok pool) :
    ({ work with pool := pool } : Workspace).ledger =
      work.ledger.refund (.register register.bank) := by
  have count := sound.freeCount_release released
  obtain ⟨live, same, _⟩ := RegisterPool.of_release released
  have peaks : pool.peaks = work.pool.peaks := by
    simp only [RegisterPool.release, live, if_true, Except.ok.injEq] at released
    rw [← released]
  ext bank
  · simp [ledger, Ledger.refund, same]
  · by_cases own : bank = register.bank
    · subst own
      simpa [ledger, Ledger.refund] using count register.bank
    · simpa [ledger, Ledger.refund, own] using count bank
  · simp [ledger, Ledger.refund, peaks]
  · rfl
  · rfl
  · rfl

/-- A register that changes its owner is neither withdrawn nor refunded. -/
theorem ledger_transfer {owner : Option NodeId} {pool : RegisterPool}
    (moved : work.pool.transfer register owner = .ok pool) :
    ({ work with pool := pool } : Workspace).ledger = work.ledger := by
  obtain ⟨held, _⟩ := RegisterPool.of_transfer moved
  simp only [RegisterPool.transfer, held, if_true, Except.ok.injEq] at moved
  rw [← moved]
  rfl

/-- A value that is kept is entered for its node. -/
theorem ledger_keep (work : Workspace) (id : NodeId) (storage : Storage) :
    ({ work with caches := work.caches.insert id storage } : Workspace).ledger =
      { work.ledger with kept := Function.update work.ledger.kept id true } := by
  ext other
  case kept =>
    simp only [ledger, Std.TreeMap.getElem?_insert]
    by_cases here : other = id
    · simp [here]
    · simp [here, Ne.symm here]
  all_goals rfl

namespace Orderly

/-- Steps in the function leave a workspace in order. -/
theorem onRoutine (orderly : work.Orderly tree labels needed) (later : Routine) :
    ({ work with routine := some later } : Workspace).Orderly tree labels needed :=
  { orderly with begun := ⟨later, rfl⟩ }

theorem withPool (orderly : work.Orderly tree labels needed) {pool : RegisterPool}
    (sound : pool.Sound) : ({ work with pool := pool } : Workspace).Orderly tree labels needed :=
  { orderly with sound := sound }

end Orderly

end Workspace

namespace Build

variable {tree : Tree} {labels : NodeId → Nat} {needed : NodeId → Prop} {work : Workspace}
variable {storage : Storage}

/-- Whether a storage holds a value of a kind and has so much to give back. -/
def Holds (kind : Kind) (storage : Storage) (holding : Holding) : Prop :=
  storage.kind = kind ∧ storage.holding = holding

/-- Writing code is not booked. -/
theorem booked_onRoutine {α : Type} {step : Routine.Step α} (framed : step.Framed)
    (orderly : work.Orderly tree labels needed) :
    Booked (Workspace.Orderly tree labels needed) (fun _ (_ : Unit) => True)
      (onRoutine tree step work) (.ok () work.ledger) := by
  obtain ⟨routine, begun⟩ := orderly.begun
  rw [onRoutine_eq tree step begun]
  cases stepped : step routine with
  | ok value later =>
    refine .ok trivial (orderly.onRoutine later) ?_
    simp only [Workspace.ledger, Workspace.freeSlots, begun, framed routine value later stepped]
  | error cause later => exact .failed rfl _ _

theorem booked_allocateSlot (orderly : work.Orderly tree labels needed) :
    Booked (Workspace.Orderly tree labels needed) (fun slot taken => slot.isSome = taken)
      (onRoutine tree Routine.allocateSlot work) (Ledger.takeSlot work.ledger) := by
  obtain ⟨routine, begun⟩ := orderly.begun
  have slots : work.ledger.slots = routine.frame.free.length := by
    simp only [Workspace.ledger, Workspace.freeSlots, begun]
  have stepped : Routine.allocateSlot routine = .ok routine.frame.allocate.1
      { routine with frame := routine.frame.allocate.2 } :=
    Routine.allocateSlot_eq_ok.mpr ⟨rfl, rfl⟩
  rw [onRoutine_eq tree _ begun, stepped]
  rcases Frame.allocate_cases routine.frame with ⟨none, same⟩ | ⟨offset, rest, free, same⟩
  · rw [none] at slots
    simp only [same, Ledger.takeSlot, slots, List.length_nil, if_true]
    refine .ok rfl (orderly.onRoutine routine) ?_
    rw [← begun]
  · rw [free] at slots
    simp only [same, Ledger.takeSlot, slots, List.length_cons, Nat.add_eq_zero_iff, Nat.one_ne_zero,
      and_false, if_false, Nat.add_sub_cancel]
    exact .ok rfl (orderly.onRoutine _) rfl

/-- A register is found if and only if one is free. -/
theorem booked_tryRegister (bank : Bank) (owner : Option NodeId) (hint : Option Register)
    (orderly : work.Orderly tree labels needed) :
    Booked (Workspace.Orderly tree labels needed)
      (fun found taken => found.map Register.bank = if taken then some bank else none)
      (tryRegister bank owner hint work) (Ledger.takeRegister bank work.ledger) := by
  rw [tryRegister_eq]
  cases allocated : work.pool.allocate bank owner hint .empty with
  | error cause =>
    have none : work.ledger.free bank = 0 := RegisterPool.freeCount_of_refused allocated
    simp only [Ledger.takeRegister, none, if_true]
    exact .ok rfl orderly rfl
  | ok found =>
    obtain ⟨register, pool⟩ := found
    obtain ⟨rfl, allowed, free, rfl⟩ := RegisterPool.of_allocate allocated
    have some : work.ledger.free register.bank ≠ 0 :=
      Nat.ne_of_gt (RegisterPool.freeCount_of_allocate allocated)
    simp only [Ledger.takeRegister, some, if_false]
    exact .ok rfl (orderly.withPool (orderly.sound.assign allowed owner))
      (Workspace.ledger_assign orderly.sound allowed free owner)

theorem booked_freeRegister (register : Register) (orderly : work.Orderly tree labels needed) :
    Booked (Workspace.Orderly tree labels needed) (fun _ _ => True)
      (freeRegister register work) (Ledger.giveBack (.register register.bank) work.ledger) := by
  rw [freeRegister, withPool_eq]
  cases released : work.pool.release register with
  | error cause => exact .failed rfl _ _
  | ok pool =>
    obtain ⟨_, same, live⟩ := RegisterPool.of_release released
    refine .ok trivial (orderly.withPool ?_) (Workspace.ledger_release orderly.sound released)
    exact orderly.sound.of_le same fun other still => ((live other).mp still).1

/-- What is added to the statistics may differ in what the ledger does not count. -/
theorem booked_count (change other : Statistics → Statistics)
    (nameless : ∀ statistics, (change statistics).nameless = other statistics.nameless)
    (orderly : work.Orderly tree labels needed) :
    Booked (Workspace.Orderly tree labels needed) (fun _ _ => True) (count change work)
      (Ledger.count other work.ledger) :=
  .ok trivial { orderly with } (by simp only [Workspace.ledger, nameless]; rfl)

theorem booked_releaseSlot (offset : Offset) (orderly : work.Orderly tree labels needed) :
    Booked (Workspace.Orderly tree labels needed) (fun _ _ => True)
      (onRoutine tree (Routine.releaseSlot offset) work) (Ledger.giveBack .slot work.ledger) := by
  obtain ⟨routine, begun⟩ := orderly.begun
  have stepped : Routine.releaseSlot offset routine = .ok ()
      { routine with frame := routine.frame.release offset } := Routine.releaseSlot_eq_ok.mpr rfl
  rw [onRoutine_eq tree _ begun, stepped]
  refine .ok trivial (orderly.onRoutine _) ?_
  simp only [Workspace.ledger, Workspace.freeSlots, begun, Frame.release, List.length_cons,
    Ledger.refund]

/-- What is given back is what was held. -/
theorem booked_release (orderly : work.Orderly tree labels needed) :
    Booked (Workspace.Orderly tree labels needed) (fun _ _ => True) (release tree storage work)
      (Ledger.giveBack storage.holding work.ledger) := by
  simp only [release]
  split
  · rename_i owned
    cases location : storage.location with
    | register register =>
      rw [Storage.holding_of_ownedRegister (Storage.ownedRegister_of_isOwned owned location)]
      exact booked_freeRegister register orderly
    | slot offset =>
      have holding : storage.holding = .slot := by simp [Storage.holding, owned, location]
      rw [holding]
      exact booked_releaseSlot offset orderly
    | constant bits => simp [Storage.isOwned, location] at owned
  · rename_i shared
    rw [Storage.holding_of_shared (by simpa using shared)]
    exact .ok trivial orderly rfl

/-- A register changes its owner without being given back. -/
theorem booked_transfer (register : Register) (owner : NodeId)
    (orderly : work.Orderly tree labels needed) :
    Booked (Workspace.Orderly tree labels needed) (fun target bank => target.bank = bank)
      (withPool (fun pool => (pool.transfer register (some owner)).map fun pool =>
        (register, pool)) work)
      (.ok register.bank work.ledger) := by
  rw [withPool_eq]
  cases moved : work.pool.transfer register (some owner) with
  | error cause => exact .failed rfl _ _
  | ok pool =>
    obtain ⟨_, same, live⟩ := RegisterPool.of_transfer moved
    refine .ok rfl (orderly.withPool (orderly.sound.of_le same fun _ still => live ▸ still)) ?_
    exact Workspace.ledger_transfer moved

/-- A value that is not in a register of its own takes one. -/
theorem booked_materialize (owner : NodeId) (hint : Option Register) (activity : String)
    (orderly : work.Orderly tree labels needed) :
    Booked (Workspace.Orderly tree labels needed) (fun target bank => target.bank = bank)
      (materialize tree storage owner hint activity work)
      (Ledger.materialize storage.holding storage.kind.bank activity work.ledger) := by
  simp only [materialize]
  cases owned : storage.ownedRegister? with
  | some register =>
    rw [Storage.holding_of_ownedRegister owned]
    exact booked_transfer register owner orderly
  | none =>
    rw [Ledger.materialize_eq (Storage.holding_of_unregistered owned)]
    refine (booked_tryRegister _ _ hint orderly).bind fun found taken _ same orderly => ?_
    cases taken with
    | false =>
      obtain rfl : found = none := by simpa using same
      exact .exhausted ..
    | true =>
      obtain ⟨register, rfl, own⟩ := Option.map_eq_some_iff.mp same
      refine (booked_onRoutine (Routine.framed_write _) orderly).skip fun _ _ _ orderly => ?_
      exact (booked_release orderly).bind fun _ _ _ _ orderly => booked_pure own orderly

/-- A value is parked if and only if there is a slot for it. -/
theorem booked_park {kind : Kind} (same : storage.kind = kind)
    (orderly : work.Orderly tree labels needed) :
    Booked (Workspace.Orderly tree labels needed) (Holds kind) (park tree storage work)
      (Ledger.park storage.holding work.ledger) := by
  simp only [park]
  cases owned : storage.ownedRegister? with
  | none =>
    have stays : Ledger.park storage.holding = pure storage.holding := by
      cases held : storage.holding with
      | register bank => exact absurd held (Storage.holding_of_unregistered owned bank)
      | nothing | slot => rfl
    rw [stays]
    exact booked_pure ⟨same, rfl⟩ orderly
  | some register =>
    have held := Storage.holding_of_ownedRegister owned
    rw [held]
    refine (booked_allocateSlot orderly).bind fun slot taken _ found orderly => ?_
    subst found
    cases slot with
    | none => exact booked_pure ⟨same, held⟩ orderly
    | some offset =>
      refine (booked_onRoutine (Routine.framed_write _) orderly).skip fun _ _ _ orderly => ?_
      refine (booked_freeRegister register orderly).bind fun _ _ _ _ orderly => ?_
      refine (booked_count _ _ ?_ orderly).bind fun _ _ _ _ orderly => booked_pure ⟨same, rfl⟩ orderly
      exact fun _ => rfl

theorem booked_parkUnderPressure {kind : Kind} (same : storage.kind = kind) (required : Nat)
    (bank : Bank) (orderly : work.Orderly tree labels needed) :
    Booked (Workspace.Orderly tree labels needed) (Holds kind)
      (parkUnderPressure tree storage required bank work)
      (Ledger.parkUnderPressure storage.holding required bank work.ledger) := by
  cases owned : storage.ownedRegister? with
  | some register =>
    have held := Storage.holding_of_ownedRegister owned
    have location := (Storage.location_of_ownedRegister owned).1
    simp only [parkUnderPressure, Storage.register?, location, Location.register?, held]
    refine Booked.afterGet ?_
    change Booked _ _ _ ((if register.bank = bank ∧ work.pool.freeCount bank < required then
      Ledger.park (.register register.bank) else pure (.register register.bank) :
        Ledger.Step Holding) work.ledger)
    split
    · rw [← held]
      exact booked_park same orderly
    · exact booked_pure ⟨same, held⟩ orderly
  | none =>
    have stays : Ledger.parkUnderPressure storage.holding required bank = pure storage.holding := by
      cases held : storage.holding with
      | register bank => exact absurd held (Storage.holding_of_unregistered owned bank)
      | nothing | slot => rfl
    have parked : park tree storage = pure storage := by simp only [park, owned]
    rw [stays]
    simp only [parkUnderPressure, parked]
    cases storage.register? with
    | none => exact booked_pure ⟨same, rfl⟩ orderly
    | some register =>
      refine Booked.afterGet ?_
      split <;> exact booked_pure ⟨same, rfl⟩ orderly

end Build

end NativeExpr
