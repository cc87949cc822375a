import NativeExpr.Proofs.Exhaustion.Generation
import NativeExpr.Proofs.Failure.Placement
import NativeExpr.Proofs.Ledger.Placement

/-!
# Two generations abreast

A node may be generated from the same state in two ways, with other registers for its values.
`Workspace.Abreast` says what the workspaces have in common that are reached on the way: all but the
names of registers, and what depends on these names, which is the code that is written and which
registers a call saves. Steps that match fail for the same reason or come to workspaces that are
abreast again.
-/

namespace NativeExpr

/-! ## Storages -/

/-- Whether two storages may hold values of a kind, in the same place or each in a register, and
the one has something to give back if the other has. -/
structure Storage.Mirrors (expected : Kind) (storage image : Storage) : Prop where
  suits : storage.Suits expected
  imageSuits : image.Suits expected
  owned : image.isOwned = storage.isOwned
  location : image.location = storage.location ∨
    ∃ register other, storage.location = .register register ∧ image.location = .register other

namespace Storage

variable {expected : Kind} {storage image : Storage}

theorem Suits.mirrors (suits : storage.Suits expected) : storage.Mirrors expected storage :=
  ⟨suits, suits, rfl, .inl rfl⟩

namespace Mirrors

theorem share (mirrors : storage.Mirrors expected image) :
    storage.share.Mirrors expected image.share where
  suits := mirrors.suits.share
  imageSuits := mirrors.imageSuits.share
  owned := by rw [isOwned_share, isOwned_share]
  location := mirrors.location

/-- Values in registers of the same bank, or the same place for both. -/
theorem cases (mirrors : storage.Mirrors expected image) :
    (∃ register other, storage.location = .register register ∧ image.location = .register other ∧
      other.bank = register.bank) ∨
    storage.register? = none ∧ image.location = storage.location := by
  rcases mirrors.location with same | ⟨register, other, here, there⟩
  · cases here : storage.location with
    | register register => exact .inl ⟨register, register, rfl, same.trans here, rfl⟩
    | slot offset | constant bits =>
      exact .inr ⟨by simp [register?, here, Location.register?], same.trans here⟩
  · refine .inl ⟨register, other, here, there, ?_⟩
    rw [(mirrors.suits.register register here).1, (mirrors.imageSuits.register other there).1]

/-- Either value has a register to give back if the other one has. -/
theorem ownedRegisters (mirrors : storage.Mirrors expected image) :
    (∃ register other, storage.ownedRegister? = some register ∧
      image.ownedRegister? = some other ∧ other.bank = register.bank) ∨
    storage.ownedRegister? = none ∧ image.ownedRegister? = none := by
  by_cases owned : storage.isOwned
  · rcases mirrors.cases with ⟨register, other, here, there, bank⟩ | ⟨none, same⟩
    · exact .inl ⟨register, other, ownedRegister_of_isOwned owned here,
        ownedRegister_of_isOwned (mirrors.owned.trans owned) there, bank⟩
    · refine .inr ⟨?_, ?_⟩
      · simp [ownedRegister?, none]
      · rw [register?] at none
        simp [ownedRegister?, register?, same, none]
  · have imageOwned := mirrors.owned
    simp only [owned] at imageOwned
    exact .inr ⟨by simp [ownedRegister?, owned], by simp [ownedRegister?, imageOwned]⟩

end Mirrors

end Storage

/-! ## Workspaces -/

/-- Whether no register is live that may not be handed out, and what is held is accounted for. -/
structure Workspace.Secured (work : Workspace) (held : List Storage) : Prop where
  sound : work.pool.Sound
  accounted : ∃ owners, work.Accounted (held ++ owners)

/-- Whether two workspaces have the same labels, the same numbers in their ledgers and functions
with the same frame, keep values that mirror each other, and have the held storages accounted for. -/
structure Workspace.Level (tree : Tree) (held : List (Storage × Storage)) (work twin : Workspace) :
    Prop where
  options : twin.options = work.options
  labels : twin.labels = work.labels
  ledger : twin.ledger = work.ledger
  frame : twin.routine.map Routine.frame = work.routine.map Routine.frame
  kept : ∀ (id : NodeId) storage image, work.caches[id]? = some storage →
    twin.caches[id]? = some image → storage.Mirrors (tree.kindOf id) image
  secured : work.Secured (held.map Prod.fst)
  imageSecured : twin.Secured (held.map Prod.snd)

/-- Whether two workspaces are level and, before a function is begun, have the same pool, of which
no register is held. A function that is said to have been started has been begun. -/
structure Workspace.Abreast (tree : Tree) (started : Prop) (held : List (Storage × Storage))
    (work twin : Workspace) : Prop extends work.Level tree held twin where
  idle : work.routine = none → twin.pool = work.pool ∧
    ∀ pair ∈ held, pair.1.ownedRegister? = none
  begun : started → ∃ routine, work.routine = some routine

namespace Workspace

namespace Secured

variable {work later : Workspace} {held taken : List Storage} {storage : Storage}

theorem perm (secured : work.Secured held) (same : held.Perm taken) : work.Secured taken where
  sound := secured.sound
  accounted := by
    obtain ⟨owners, account⟩ := secured.accounted
    exact ⟨owners, account.perm (same.append_right owners)⟩

/-- What is held may be left to others. -/
theorem leave (secured : work.Secured (storage :: held)) : work.Secured held where
  sound := secured.sound
  accounted := by
    obtain ⟨owners, account⟩ := secured.accounted
    exact ⟨storage :: owners, account.perm List.perm_middle.symm⟩

theorem add (secured : work.Secured held) (shared : storage.isOwned = false) :
    work.Secured (storage :: held) where
  sound := secured.sound
  accounted := by
    obtain ⟨owners, account⟩ := secured.accounted
    exact ⟨owners, account.add shared⟩

theorem live (secured : work.Secured (storage :: held)) {register : Register}
    (owns : storage.ownedRegister? = some register) : work.pool.live.contains register := by
  obtain ⟨owners, account⟩ := secured.accounted
  exact account.live_of_owned owns

/-- Steps that change neither the pool nor the slots. -/
theorem unchanged (secured : work.Secured held) (pool : later.pool = work.pool)
    (free : later.freeSlots = work.freeSlots) (temporaries : later.temporaries = work.temporaries) :
    later.Secured held where
  sound := pool ▸ secured.sound
  accounted := by
    obtain ⟨owners, account⟩ := secured.accounted
    exact ⟨owners, account.unchanged (by rw [pool]) free temporaries⟩

/-- A register that was free is held by the storage that it is handed out to. -/
theorem assign (secured : work.Secured held) {register : Register}
    (allowed : work.pool.allocatable.contains register)
    (free : ¬work.pool.live.contains register) (owner : Option NodeId) (kind : Kind) :
    ({ work with pool := work.pool.assign register owner } : Workspace).Secured
      (.own (.register register) kind :: held) where
  sound := secured.sound.assign allowed owner
  accounted := by
    obtain ⟨owners, account⟩ := secured.accounted
    exact ⟨owners, account.assign allowed free owner kind⟩

theorem release (secured : work.Secured (storage :: held)) {register : Register}
    {pool : RegisterPool} (owns : storage.ownedRegister? = some register)
    (released : work.pool.release register = .ok pool) :
    ({ work with pool := pool } : Workspace).Secured held where
  sound := by
    obtain ⟨_, same, live⟩ := RegisterPool.of_release released
    exact secured.sound.of_le same fun other still => ((live other).mp still).1
  accounted := by
    obtain ⟨owners, account⟩ := secured.accounted
    exact ⟨owners, account.giveBackRegister owns released⟩

theorem transfer (secured : work.Secured (storage :: held)) {register : Register}
    {owner : Option NodeId} {pool : RegisterPool} (owns : storage.ownedRegister? = some register)
    (moved : work.pool.transfer register owner = .ok pool) (kind : Kind) :
    ({ work with pool := pool } : Workspace).Secured (.own (.register register) kind :: held) where
  sound := by
    obtain ⟨_, same, live⟩ := RegisterPool.of_transfer moved
    exact secured.sound.of_le same fun _ still => live ▸ still
  accounted := by
    obtain ⟨owners, account⟩ := secured.accounted
    exact ⟨owners, account.transfer owns moved kind⟩

theorem stepped (secured : work.Secured held) {routine goesOn : Routine}
    (opens : work.Opens routine) (frame : goesOn.frame = routine.frame) :
    ({ work with routine := some goesOn } : Workspace).Secured held where
  sound := secured.sound
  accounted := by
    obtain ⟨owners, account⟩ := secured.accounted
    exact ⟨owners, account.stepped opens frame⟩

end Secured

variable {tree : Tree} {started : Prop} {held taken : List (Storage × Storage)}
variable {work twin : Workspace}
variable {storage image : Storage}

/-- A workspace is abreast of itself. -/
theorem Abreast.refl (sound : work.pool.Sound)
    (kept : ∀ (id : NodeId) storage, work.caches[id]? = some storage →
      storage.Suits (tree.kindOf id)) : work.Abreast tree False [] work where
  options := rfl
  labels := rfl
  ledger := rfl
  frame := rfl
  kept id storage image here there := by
    obtain rfl := Option.some.inj (here.symm.trans there)
    exact (kept id storage here).mirrors
  secured := ⟨sound, work.exists_accounted⟩
  imageSecured := ⟨sound, work.exists_accounted⟩
  idle _ := ⟨rfl, fun _ listed => absurd listed List.not_mem_nil⟩
  begun := False.elim

theorem Abreast.perm (abreast : work.Abreast tree started held twin) (same : held.Perm taken) :
    work.Abreast tree started taken twin :=
  { abreast with
    secured := abreast.secured.perm (same.map _)
    imageSecured := abreast.imageSecured.perm (same.map _)
    idle := fun none => ⟨(abreast.idle none).1, fun pair listed =>
      (abreast.idle none).2 pair (same.mem_iff.mpr listed)⟩ }

/-- What is held may be left to others. -/
theorem Abreast.leave (abreast : work.Abreast tree started ((storage, image) :: held) twin) :
    work.Abreast tree started held twin :=
  { abreast with
    secured := abreast.secured.leave
    imageSecured := abreast.imageSecured.leave
    idle := fun none => ⟨(abreast.idle none).1, fun pair listed =>
      (abreast.idle none).2 pair (List.mem_cons_of_mem _ listed)⟩ }

/-- Values that need not be given back may be held as well. -/
theorem Abreast.add (abreast : work.Abreast tree started held twin) (shared : storage.isOwned = false)
    (imageShared : image.isOwned = false) : work.Abreast tree started ((storage, image) :: held) twin :=
  { abreast with
    secured := abreast.secured.add shared
    imageSecured := abreast.imageSecured.add imageShared
    idle := fun none => by
      refine ⟨(abreast.idle none).1, fun pair listed => ?_⟩
      rcases List.mem_cons.mp listed with rfl | listed
      · simp [Storage.ownedRegister?, shared]
      · exact (abreast.idle none).2 pair listed }

/-- A function has been begun if one is said to have been. -/
theorem Abreast.restart {other : Prop} (abreast : work.Abreast tree started held twin)
    (begun : other → ∃ routine, work.routine = some routine) : work.Abreast tree other held twin :=
  { abreast with begun := begun }

/-- Once a function has been begun it does not matter whose registers are whose. -/
theorem Level.abreast (level : work.Level tree held twin) {routine : Routine}
    (begun : work.routine = some routine) : work.Abreast tree started held twin :=
  { level with
    idle := fun none => absurd (begun.symm.trans none) nofun
    begun := fun _ => ⟨routine, begun⟩ }

/-- A register is held only once a function has been begun. -/
theorem Abreast.begun_of_owned (abreast : work.Abreast tree started ((storage, image) :: held) twin)
    {register : Register} (owns : storage.ownedRegister? = some register) :
    ∃ routine, work.routine = some routine := by
  cases begun : work.routine with
  | some routine => exact ⟨routine, rfl⟩
  | none =>
    have unowned := (abreast.idle begun).2 (storage, image) List.mem_cons_self
    exact absurd (owns.symm.trans unowned) nofun

/-- Pools with the same numbers take the places of others. -/
theorem Level.withPools (level : work.Level tree held twin) {pool other : RegisterPool}
    (ledger : ({ twin with pool := other } : Workspace).ledger =
      ({ work with pool := pool } : Workspace).ledger)
    (secured : ({ work with pool := pool } : Workspace).Secured (taken.map Prod.fst))
    (imageSecured : ({ twin with pool := other } : Workspace).Secured (taken.map Prod.snd)) :
    ({ work with pool := pool } : Workspace).Level tree taken { twin with pool := other } where
  options := level.options
  labels := level.labels
  ledger := ledger
  frame := level.frame
  kept := level.kept
  secured := secured
  imageSecured := imageSecured

/-- A function with the same frame goes on in both. -/
theorem Level.goesOn (level : work.Level tree held twin) {routine other : Routine}
    (frame : other.frame = routine.frame)
    (secured : ({ work with routine := some routine } : Workspace).Secured (taken.map Prod.fst))
    (imageSecured : ({ twin with routine := some other } : Workspace).Secured
      (taken.map Prod.snd)) :
    ({ work with routine := some routine } : Workspace).Abreast tree started taken
      { twin with routine := some other } where
  options := level.options
  labels := level.labels
  ledger := by
    have slots (work : Workspace) (routine : Routine) :
        ({ work with routine := some routine } : Workspace).ledger =
          { work.ledger with slots := routine.frame.free.length } := rfl
    rw [slots, slots, level.ledger, frame]
  frame := congrArg some frame
  kept := level.kept
  secured := secured
  imageSecured := imageSecured
  idle := nofun
  begun _ := ⟨routine, rfl⟩

end Workspace

/-! ## Steps -/

namespace Build

variable {α β γ δ : Type}

/-- Whether two steps end alike: with values and workspaces that are related, or for the same
reason. -/
inductive Matches (ends : α → β → Workspace → Workspace → Prop) :
    EStateM.Result CompileError Workspace α → EStateM.Result CompileError Workspace β → Prop where
  | ok {value : α} {other : β} {after later : Workspace} (related : ends value other after later) :
      Matches ends (.ok value after) (.ok other later)
  | error (cause : CompileError) (after later : Workspace) :
      Matches ends (.error cause after) (.error cause later)

variable {ends : α → β → Workspace → Workspace → Prop}
variable {last : γ → δ → Workspace → Workspace → Prop} {work twin : Workspace}

/-- Steps that match, one after the other. -/
theorem Matches.bind {step : Build α} {mirror : Build β} {next : α → Build γ} {follow : β → Build δ}
    (first : Matches ends (step work) (mirror twin))
    (rest : ∀ value other after later, ends value other after later →
      Matches last (next value after) (follow other later)) :
    Matches last ((step >>= next) work) ((mirror >>= follow) twin) := by
  simp only [Bind.bind, EStateM.bind]
  generalize step work = ended, mirror twin = otherwise at first ⊢
  cases first with
  | ok related => exact rest _ _ _ _ related
  | error cause after later => exact .error cause after later

/-- After steps that are known to succeed. -/
theorem Matches.after {step : Build α} {mirror : Build β} {next : α → Build γ}
    {follow : β → Build δ} {value : α} {other : β} {after later : Workspace}
    (done : step work = .ok value after) (otherDone : mirror twin = .ok other later)
    (rest : Matches last (next value after) (follow other later)) :
    Matches last ((step >>= next) work) ((mirror >>= follow) twin) := by
  simpa only [Bind.bind, EStateM.bind, done, otherDone] using rest

/-- Steps that go by their workspaces. -/
theorem Matches.afterGet {next : Workspace → Build γ} {follow : Workspace → Build δ}
    (rest : Matches last (next work work) (follow twin twin)) :
    Matches last (((get : Build Workspace) >>= next) work)
      (((get : Build Workspace) >>= follow) twin) :=
  rest

theorem Matches.mono {result : EStateM.Result CompileError Workspace α}
    {otherwise : EStateM.Result CompileError Workspace β} (matching : Matches ends result otherwise)
    {others : α → β → Workspace → Workspace → Prop}
    (implies : ∀ value other after later, ends value other after later →
      others value other after later) : Matches others result otherwise := by
  cases matching with
  | ok related => exact .ok (implies _ _ _ _ related)
  | error cause after later => exact .error cause after later

/-- What the first of two steps has returned may be told from how it was reached. -/
theorem Matches.recall {step : Build α} {otherwise : EStateM.Result CompileError Workspace β}
    (matching : Matches ends (step work) otherwise) :
    Matches (fun value other after later =>
      step work = .ok value after ∧ ends value other after later) (step work) otherwise := by
  generalize step work = ended at matching ⊢
  cases matching with
  | ok related => exact .ok ⟨rfl, related⟩
  | error cause after later => exact .error cause after later

theorem matches_pure {value : α} {other : β} (related : ends value other work twin) :
    Matches ends ((pure value : Build α) work) ((pure other : Build β) twin) :=
  .ok related

theorem matches_throw (cause : CompileError) :
    Matches ends ((throw cause : Build α) work) ((throw cause : Build β) twin) :=
  .error cause work twin

/-- A result that does not depend on the workspace is the same in both. -/
theorem matches_lift (result : Except CompileError α) :
    Matches (fun value other after later =>
      result = .ok value ∧ other = value ∧ after = work ∧ later = twin)
      (lift result work) (lift result twin) := by
  cases result with
  | ok value => exact .ok ⟨rfl, rfl, rfl, rfl⟩
  | error cause => exact .error cause work twin

variable {tree : Tree} {held : List (Storage × Storage)}

/-- The same label is found, or none is. -/
theorem matches_label (level : work.Level tree held twin) (id : NodeId) :
    Matches (fun count other after later => other = count ∧ after = work ∧ later = twin)
      (label tree id work) (label tree id twin) := by
  cases found : tree.node? id with
  | none =>
    simp only [label, Tree.node_missing found]
    exact .error _ work twin
  | some node =>
    rw [label_eq found, label_eq found, level.labels]
    cases work.labels[id]? with
    | none => exact .error _ work twin
    | some count => exact .ok ⟨rfl, rfl, rfl⟩

/-- Functions with the same frame are being generated, or begun. -/
theorem matches_routine (level : work.Level tree held twin) :
    Matches (fun routine other after later => other.frame = routine.frame ∧
        work.Opens routine ∧ twin.Opens other ∧
        after = { work with routine := some routine } ∧
        later = { twin with routine := some other })
      (routine tree work) (routine tree twin) := by
  have frame := level.frame
  cases begun : work.routine with
  | some routine =>
    rw [begun] at frame
    obtain ⟨other, otherBegun, same⟩ := Option.map_eq_some_iff.mp frame
    rw [routine_ok tree begun, routine_ok tree otherBegun]
    refine .ok ⟨same, .inl begun, .inl otherBegun, ?_, ?_⟩
    · rw [← begun]
    · rw [← otherBegun]
  | none =>
    rw [begun] at frame
    have otherBegun := Option.map_eq_none_iff.mp frame
    simp only [Build.routine]
    refine Matches.afterGet ?_
    rw [begun, otherBegun]
    refine (matches_lift tree.inferParameters).bind ?_
    rintro _ parameters work twin ⟨_, rfl, rfl, rfl⟩
    refine Matches.afterGet ?_
    have same : Routine.start parameters twin.options.tempSlots =
        Routine.start parameters work.options.tempSlots := by rw [level.options]
    cases started : Routine.start parameters work.options.tempSlots with
    | error cause =>
      rw [same, started]
      exact .error ..
    | ok routine =>
      have otherStarted := same.trans started
      rw [otherStarted]
      exact .ok ⟨rfl, .inr ⟨begun, parameters, started⟩,
        .inr ⟨otherBegun, parameters, otherStarted⟩, rfl, rfl⟩

/-- Steps in functions with the same frame that both succeed. -/
theorem matches_onRoutine {step : Routine.Step α} {mirror : Routine.Step β}
    (level : work.Level tree held twin)
    (steps : ∀ routine other, work.Opens routine → twin.Opens other →
      other.frame = routine.frame → ∃ value goesOn image further,
        step routine = .ok value goesOn ∧ mirror other = .ok image further ∧
          ends value image { work with routine := some goesOn }
            { twin with routine := some further }) :
    Matches ends (onRoutine tree step work) (onRoutine tree mirror twin) := by
  simp only [onRoutine]
  refine (matches_routine level).bind ?_
  rintro routine other _ _ ⟨frame, opens, otherOpens, rfl, rfl⟩
  obtain ⟨value, goesOn, image, further, stepped, mirrored, related⟩ :=
    steps routine other opens otherOpens frame
  rw [stepped, mirrored]
  exact .ok related

/-- Steps that leave the frame alone. -/
theorem matches_step {step : Routine.Step α} {mirror : Routine.Step β}
    (started : Prop) (level : work.Level tree held twin) (framed : step.Framed) (succeeds : step.Succeeds)
    (mirrorFramed : mirror.Framed) (mirrorSucceeds : mirror.Succeeds) :
    Matches (fun _ _ after later => after.Abreast tree started held later) (onRoutine tree step work)
      (onRoutine tree mirror twin) := by
  refine matches_onRoutine level fun routine other opens otherOpens frame => ?_
  obtain ⟨value, goesOn, stepped⟩ := succeeds routine
  obtain ⟨image, further, mirrored⟩ := mirrorSucceeds other
  have same := framed routine value goesOn stepped
  have otherSame := mirrorFramed other image further mirrored
  refine ⟨value, goesOn, image, further, stepped, mirrored, level.goesOn ?_
    (level.secured.stepped opens same) (level.imageSecured.stepped otherOpens otherSame)⟩
  rw [same, otherSame, frame]

/-- Requests that are granted are written in both functions. -/
theorem matches_write {requests others : List Request} (started : Prop)
    (level : work.Level tree held twin)
    (granted : ∀ request ∈ requests, request.Granted)
    (otherGranted : ∀ request ∈ others, request.Granted) :
    Matches (fun _ _ after later => after.Abreast tree started held later)
      (onRoutine tree (Routine.write requests) work) (onRoutine tree (Routine.write others) twin) :=
  matches_step started level (Routine.framed_write _) (Routine.succeeds_write granted)
    (Routine.framed_write _) (Routine.succeeds_write otherGranted)

/-- The same slot is handed out, or none is. -/
theorem matches_allocateSlot (started : Prop) (level : work.Level tree held twin) (kind : Kind) :
    Matches (fun slot image after later => image = slot ∧ after.Abreast tree started
        ((slot.toList.map fun offset => (.own (.slot offset) kind, .own (.slot offset) kind)) ++ held)
        later)
      (onRoutine tree Routine.allocateSlot work) (onRoutine tree Routine.allocateSlot twin) := by
  refine matches_onRoutine level fun routine other opens otherOpens frame => ?_
  have allocates (routine : Routine) : Routine.allocateSlot routine = .ok routine.frame.allocate.1
      { routine with frame := routine.frame.allocate.2 } := rfl
  refine ⟨_, _, _, _, allocates routine, allocates other, ?_⟩
  rw [frame]
  obtain ⟨owners, account⟩ := level.secured.accounted
  obtain ⟨otherOwners, otherAccount⟩ := level.imageSecured.accounted
  have opened := account.opened opens
  have otherOpened := otherAccount.opened otherOpens
  rcases routine.frame.allocate_cases with ⟨_, result⟩ | ⟨offset, rest, free, result⟩
  · rw [result]
    exact ⟨rfl, level.goesOn rfl ⟨level.secured.sound, owners, opened⟩
      ⟨level.imageSecured.sound, otherOwners, otherAccount.stepped otherOpens frame.symm⟩⟩
  · rw [result]
    have otherFree : other.frame.free = offset :: rest := frame ▸ free
    refine ⟨rfl, level.goesOn rfl ⟨level.secured.sound, owners, opened.take rfl free⟩
      ⟨level.imageSecured.sound, otherOwners, ?_⟩⟩
    rw [← frame]
    exact otherOpened.take rfl otherFree

end Build

end NativeExpr
