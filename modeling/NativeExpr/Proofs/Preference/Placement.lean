import NativeExpr.Proofs.Preference.Abreast

/-!
# Placements abreast

Two pools of which as many registers are free both have a register for a value or both have none,
whatever register is preferred, and two functions with the same frame have the same slots. So a
value is placed in both or in neither, and parked in both or in neither.
-/

namespace NativeExpr.Build

open Workspace (Level Abreast)

variable {tree : Tree} {started : Prop} {held : List (Storage × Storage)}
variable {work twin : Workspace}
variable {storage image : Storage} {expected : Kind}

/-- A register is handed out in both workspaces, or none is free in either. The one may be another
register than the other, so the pools need not be the same any more. -/
theorem matches_tryRegister (abreast : work.Abreast tree started held twin) (kind : Kind)
    (owner : Option NodeId) (hint other : Option Register) :
    Matches (fun found image after later =>
      (found = none ∧ image = none ∧ after.Abreast tree started held later) ∨
      ∃ register mirror, found = some register ∧ image = some mirror ∧
        (Storage.own (.register register) kind).Suits kind ∧
        (Storage.own (.register mirror) kind).Suits kind ∧
        after.Level tree
          ((.own (.register register) kind, .own (.register mirror) kind) :: held) later)
      (tryRegister kind.bank owner hint work) (tryRegister kind.bank owner other twin) := by
  have free : twin.pool.freeCount = work.pool.freeCount := congrArg Ledger.free abreast.ledger
  rw [tryRegister_eq, tryRegister_eq]
  cases allocated : work.pool.allocate kind.bank owner hint .empty with
  | error cause =>
    have none := RegisterPool.freeCount_of_refused allocated
    cases otherAllocated : twin.pool.allocate kind.bank owner other .empty with
    | error cause => exact .ok (.inl ⟨rfl, rfl, abreast⟩)
    | ok result =>
      obtain ⟨mirror, otherPool⟩ := result
      have some := RegisterPool.freeCount_of_allocate otherAllocated
      rw [free, none] at some
      exact absurd some (Nat.lt_irrefl 0)
  | ok result =>
    obtain ⟨register, pool⟩ := result
    have some := RegisterPool.freeCount_of_allocate allocated
    cases otherAllocated : twin.pool.allocate kind.bank owner other .empty with
    | error cause =>
      have none := RegisterPool.freeCount_of_refused otherAllocated
      rw [← free, none] at some
      exact absurd some (Nat.lt_irrefl 0)
    | ok otherResult =>
      obtain ⟨mirror, otherPool⟩ := otherResult
      obtain ⟨own, allowed, unused, rfl⟩ := RegisterPool.of_allocate allocated
      obtain ⟨otherOwn, otherAllowed, otherUnused, rfl⟩ := RegisterPool.of_allocate otherAllocated
      refine .ok (.inr ⟨register, mirror, rfl, rfl,
        Storage.suits_of_register own (RegisterPool.inBank_of_contains allowed),
        Storage.suits_of_register otherOwn (RegisterPool.inBank_of_contains otherAllowed),
        abreast.toLevel.withPools ?_ (abreast.secured.assign allowed unused owner kind)
          (abreast.imageSecured.assign otherAllowed otherUnused owner kind)⟩)
      rw [Workspace.ledger_assign abreast.secured.sound allowed unused,
        Workspace.ledger_assign abreast.imageSecured.sound otherAllowed otherUnused,
        abreast.ledger, own, otherOwn]

/-- Registers of the same bank are given back by those who hold them. -/
theorem matches_freeRegister {register mirror : Register}
    (abreast : work.Abreast tree started ((storage, image) :: held) twin)
    (owns : storage.ownedRegister? = some register)
    (imageOwns : image.ownedRegister? = some mirror) (bank : mirror.bank = register.bank) :
    Matches (fun _ _ after later => after.Abreast tree started held later)
      (freeRegister register work) (freeRegister mirror twin) := by
  obtain ⟨pool, released, done⟩ := freeRegister_ok (abreast.secured.live owns)
  obtain ⟨otherPool, otherReleased, otherDone⟩ :=
    freeRegister_ok (abreast.imageSecured.live imageOwns)
  obtain ⟨routine, begun⟩ := abreast.begun_of_owned owns
  rw [done, otherDone]
  refine .ok ((abreast.toLevel.withPools ?_ (abreast.secured.release owns released)
    (abreast.imageSecured.release imageOwns otherReleased)).abreast begun)
  rw [Workspace.ledger_release abreast.secured.sound released,
    Workspace.ledger_release abreast.imageSecured.sound otherReleased, abreast.ledger, bank]

/-- Registers pass to other owners without being given back. -/
theorem matches_transfer {register mirror : Register}
    (abreast : work.Abreast tree started ((storage, image) :: held) twin)
    (owns : storage.ownedRegister? = some register)
    (imageOwns : image.ownedRegister? = some mirror) (owner : NodeId) (kind : Kind) :
    Matches (fun target other after later => target = register ∧ other = mirror ∧
        after.Abreast tree started
          ((.own (.register register) kind, .own (.register mirror) kind) :: held) later)
      (withPool (fun pool => (pool.transfer register (some owner)).map fun pool =>
        (register, pool)) work)
      (withPool (fun pool => (pool.transfer mirror (some owner)).map fun pool =>
        (mirror, pool)) twin) := by
  obtain ⟨pool, moved, done⟩ := transfer_ok (abreast.secured.live owns) owner
  obtain ⟨otherPool, otherMoved, otherDone⟩ :=
    transfer_ok (abreast.imageSecured.live imageOwns) owner
  obtain ⟨routine, begun⟩ := abreast.begun_of_owned owns
  rw [done, otherDone]
  refine .ok ⟨rfl, rfl, (abreast.toLevel.withPools ?_ (abreast.secured.transfer owns moved kind)
    (abreast.imageSecured.transfer imageOwns otherMoved kind)).abreast begun⟩
  rw [Workspace.ledger_transfer moved, Workspace.ledger_transfer otherMoved, abreast.ledger]

/-- What is counted may differ in the registers that are saved. -/
theorem matches_count {change other : Statistics → Statistics} (entry : Statistics → Statistics)
    (nameless : ∀ statistics, (change statistics).nameless = entry statistics.nameless)
    (otherNameless : ∀ statistics, (other statistics).nameless = entry statistics.nameless)
    (abreast : work.Abreast tree started held twin) :
    Matches (fun _ _ after later => after.Abreast tree started held later) (count change work)
      (count other twin) := by
  refine .ok {
    options := abreast.options
    labels := abreast.labels
    ledger := ?_
    frame := abreast.frame
    kept := abreast.kept
    secured := abreast.secured.unchanged rfl rfl rfl
    imageSecured := abreast.imageSecured.unchanged rfl rfl rfl
    idle := abreast.idle
    begun := abreast.begun }
  have counts (work : Workspace) (change : Statistics → Statistics) :
      ({ work with statistics := change work.statistics } : Workspace).ledger =
        { work.ledger with statistics := (change work.statistics).nameless } := rfl
  have same : twin.statistics.nameless = work.statistics.nameless :=
    congrArg Ledger.statistics abreast.ledger
  rw [counts, counts, nameless, otherNameless, same, abreast.ledger]

/-- The same slot is given back in both functions. -/
theorem matches_releaseSlot {offset : Offset}
    (abreast : work.Abreast tree started ((storage, image) :: held) twin)
    (owned : storage.isOwned = true) (here : storage.location = .slot offset)
    (imageOwned : image.isOwned = true) (there : image.location = .slot offset) :
    Matches (fun _ _ after later => after.Abreast tree started held later)
      (onRoutine tree (Routine.releaseSlot offset) work)
      (onRoutine tree (Routine.releaseSlot offset) twin) := by
  refine matches_onRoutine abreast.toLevel fun routine other opens otherOpens frame => ?_
  have releases (routine : Routine) : Routine.releaseSlot offset routine = .ok ()
      { routine with frame := routine.frame.release offset } := rfl
  refine ⟨_, _, _, _, releases routine, releases other, abreast.goesOn ?_ ?_ ?_⟩
  · rw [frame]
  · obtain ⟨owners, account⟩ := abreast.secured.accounted
    exact ⟨abreast.secured.sound, owners, (account.opened opens).giveBackSlot rfl owned here⟩
  · obtain ⟨owners, account⟩ := abreast.imageSecured.accounted
    exact ⟨abreast.imageSecured.sound, owners,
      (account.opened otherOpens).giveBackSlot rfl imageOwned there⟩

/-- What is held is given back in both workspaces. -/
theorem matches_release (mirrors : storage.Mirrors expected image)
    (abreast : work.Abreast tree started ((storage, image) :: held) twin) :
    Matches (fun _ _ after later => after.Abreast tree started held later) (release tree storage work)
      (release tree image twin) := by
  simp only [release, mirrors.owned]
  split
  · rename_i owned
    have imageOwned := mirrors.owned.trans owned
    rcases mirrors.cases with ⟨register, other, here, there, bank⟩ | ⟨unregistered, same⟩
    · rw [here, there]
      exact matches_freeRegister abreast (Storage.ownedRegister_of_isOwned owned here)
        (Storage.ownedRegister_of_isOwned imageOwned there) bank
    · rw [same]
      cases here : storage.location with
      | register register => simp [Storage.register?, here, Location.register?] at unregistered
      | slot offset =>
        exact matches_releaseSlot abreast owned here imageOwned (same.trans here)
      | constant bits => exact matches_pure abreast.leave
  · exact matches_pure abreast.leave

/-- A value is brought into a register in both workspaces, or there is none in either. -/
theorem matches_materialize (mirrors : storage.Mirrors expected image)
    (abreast : work.Abreast tree started ((storage, image) :: held) twin) (owner : NodeId)
    (hint other : Option Register) (activity : String) :
    Matches (fun target mirror after later =>
        (Storage.own (.register target) expected).Suits expected ∧
        (Storage.own (.register mirror) expected).Suits expected ∧
        after.Abreast tree started
          ((.own (.register target) expected, .own (.register mirror) expected) :: held) later)
      (materialize tree storage owner hint activity work)
      (materialize tree image owner other activity twin) := by
  simp only [materialize]
  rcases mirrors.ownedRegisters with ⟨register, mirror, owns, imageOwns, _⟩ | ⟨none, imageNone⟩
  · rw [owns, imageOwns]
    refine (matches_transfer abreast owns imageOwns owner expected).mono ?_
    rintro _ _ after later ⟨rfl, rfl, abreast⟩
    obtain ⟨own, real⟩ := mirrors.suits.register _ (Storage.location_of_ownedRegister owns).1
    obtain ⟨imageOwn, imageReal⟩ :=
      mirrors.imageSuits.register _ (Storage.location_of_ownedRegister imageOwns).1
    exact ⟨Storage.suits_of_register own real, Storage.suits_of_register imageOwn imageReal, abreast⟩
  · rw [none, imageNone, mirrors.suits.kind, mirrors.imageSuits.kind]
    refine (matches_tryRegister abreast expected (some owner) hint other).bind ?_
    rintro _ _ between between' (⟨rfl, rfl, _⟩ | ⟨register, mirror, rfl, rfl, suits, imageSuits, level⟩)
    · exact matches_throw _
    · -- The registers differ from here on, so a function has to be begun with the next step.
      have real := (suits.register register rfl).2
      have imageReal := (imageSuits.register mirror rfl).2
      refine (matches_write started level
        (Transfer.granted_intoRegister real fun source here => mirrors.suits.real source here)
        (Transfer.granted_intoRegister imageReal fun source here =>
          mirrors.imageSuits.real source here)).bind fun _ _ _ _ abreast => ?_
      refine (matches_release mirrors (abreast.perm (.swap ..))).bind fun _ _ _ _ abreast => ?_
      exact matches_pure ⟨suits, imageSuits, abreast⟩

/-- A value is moved to the same slot in both functions, or stays where it is. -/
theorem matches_park (mirrors : storage.Mirrors expected image)
    (abreast : work.Abreast tree started ((storage, image) :: held) twin) :
    Matches (fun parked other after later =>
        parked.Mirrors expected other ∧ after.Abreast tree started ((parked, other) :: held) later)
      (park tree storage work) (park tree image twin) := by
  simp only [park]
  rcases mirrors.ownedRegisters with ⟨register, mirror, owns, imageOwns, bank⟩ | ⟨none, imageNone⟩
  · rw [owns, imageOwns]
    refine (matches_allocateSlot started abreast.toLevel expected).bind ?_
    rintro _ slot _ _ ⟨rfl, abreast⟩
    cases slot with
    | none => exact matches_pure ⟨mirrors, abreast⟩
    | some offset =>
      have real := mirrors.suits.real register (Storage.location_of_ownedRegister owns).1
      have imageReal :=
        mirrors.imageSuits.real mirror (Storage.location_of_ownedRegister imageOwns).1
      refine (matches_write started abreast.toLevel (granted_spill real offset)
        (granted_spill imageReal offset)).bind fun _ _ _ _ abreast => ?_
      refine (matches_freeRegister (abreast.perm (.swap ..)) owns imageOwns bank).bind
        fun _ _ _ _ abreast => ?_
      let parks (statistics : Statistics) : Statistics :=
        { statistics with valuesParked := statistics.valuesParked + 1 }
      refine (matches_count parks (fun _ => rfl) (fun _ => rfl) abreast).bind
        fun _ _ _ _ abreast => ?_
      have suits : (Storage.own (.slot offset) expected).Suits expected :=
        Storage.suits_of_slot rfl rfl
      rw [mirrors.suits.kind, mirrors.imageSuits.kind]
      exact matches_pure ⟨suits.mirrors, abreast⟩
  · rw [none, imageNone]
    exact matches_pure ⟨mirrors, abreast⟩

/-- Where as many registers are free in both workspaces, a value is parked in both or in neither. -/
theorem matches_parkUnderPressure (mirrors : storage.Mirrors expected image)
    (abreast : work.Abreast tree started ((storage, image) :: held) twin) (needed : Nat) (bank : Bank) :
    Matches (fun parked other after later =>
        parked.Mirrors expected other ∧ after.Abreast tree started ((parked, other) :: held) later)
      (parkUnderPressure tree storage needed bank work)
      (parkUnderPressure tree image needed bank twin) := by
  have free : twin.pool.freeCount bank = work.pool.freeCount bank :=
    congrFun (congrArg Ledger.free abreast.ledger) bank
  simp only [parkUnderPressure]
  rcases mirrors.cases with ⟨register, other, here, there, same⟩ | ⟨unregistered, same⟩
  · simp only [Storage.register?, here, there, Location.register?]
    refine Matches.afterGet ?_
    rw [same, free]
    split
    · exact matches_park mirrors abreast
    · exact matches_pure ⟨mirrors, abreast⟩
  · have imageUnregistered : image.register? = none := by
      rw [Storage.register?, same]
      exact unregistered
    rw [unregistered, imageUnregistered]
    exact matches_pure ⟨mirrors, abreast⟩

end NativeExpr.Build
