import NativeExpr.Proofs.Failure.Account

/-!
# What placements that fail leave behind

A placement that fails leaves behind the value that was to be placed, and at most one location that
was found for it. The registers and slots that a host asks for are its own to give back; where one
of its requests fails, the value that it gave up with the request stays where it was.
-/

namespace NativeExpr

namespace Build

section Steps

variable {tree : Tree} (asked : List NodeId) {work : Workspace} {storage : Storage} {kind : Kind}
variable {register : Register}

/-- Looking something up takes nothing and leaves nothing behind. -/
theorem trades_lift {α : Type} (result : Except CompileError α) :
    Trades tree asked (lift result) work [] (fun _ => []) (· = []) := by
  cases result with
  | ok value => exact trades_pure (.refl _)
  | error cause => exact trades_throw rfl

theorem trades_label (id : NodeId) :
    Trades tree asked (label tree id) work [] (fun _ => []) (· = []) := by
  refine (trades_lift asked (tree.node id)).bind fun node after _ => Trades.afterGet ?_
  split
  · exact trades_pure (.refl _)
  · exact trades_throw rfl

theorem trades_count (change : Statistics → Statistics) :
    Trades tree asked (count change) work [] (fun _ => []) fun _ => False :=
  trades_of_ok rfl rfl fun _ account => account.unchanged rfl rfl rfl

/-- A step that leaves the frame alone changes no account. -/
theorem ends_step {α : Type} {step : Routine.Step α} (stable : step.Stable) {owners : List Storage}
    (account : work.Accounted owners) :
    (onRoutine tree step).Ends work
      (fun _ after => after.caches = work.caches ∧ after.Accounted owners)
      fun after => after.caches = work.caches ∧ after.Accounted owners := by
  refine ends_onRoutine ⟨rfl, account⟩ fun routine opens => ?_
  have frame := stable routine
  cases stepped : step routine with
  | ok value later | error fault later =>
    rw [stepped] at frame
    exact ⟨rfl, account.stepped opens frame⟩

theorem trades_step {α : Type} {step : Routine.Step α} (stable : step.Stable) :
    Trades tree asked (onRoutine tree step) work [] (fun _ => []) (· = []) :=
  fun _ account => (ends_step stable account).mono (fun _ _ here => .of_caches here.1 here.2)
    fun _ here => ⟨[], rfl, .of_caches here.1 here.2⟩

/-- In a function that has been begun a step that succeeds is taken. -/
theorem step_ok {α : Type} {step : Routine.Step α} (tree : Tree) {routine : Routine}
    (begun : work.routine = some routine) (framed : step.Framed) (succeeds : step.Succeeds) :
    ∃ value later, onRoutine tree step work = .ok value { work with routine := some later } ∧
      later.frame = routine.frame := by
  obtain ⟨value, later, stepped⟩ := succeeds routine
  exact ⟨value, later, (onRoutine_eq_ok begun).mpr ⟨later, stepped, rfl⟩,
    framed routine value later stepped⟩

/-- In a function that has been begun a register of the machine can be stored. -/
theorem spill_ok (tree : Tree) {routine : Routine} (begun : work.routine = some routine)
    (real : register.InBank) (offset : Offset) :
    ∃ later, onRoutine tree (Routine.spill register offset) work =
      .ok () { work with routine := some later } ∧ later.frame = routine.frame := by
  obtain ⟨_, stored⟩ := step_ok tree begun (Routine.framed_write _)
    (Routine.succeeds_write (granted_spill real offset))
  exact stored

/-- A live register can be given back. -/
theorem freeRegister_ok (live : work.pool.live.contains register) :
    ∃ pool, work.pool.release register = .ok pool ∧
      freeRegister register work = .ok () { work with pool := pool } := by
  have released : work.pool.release register = .ok _ := if_pos live
  exact ⟨_, released, withPool_eq_ok.mpr ⟨_, by rw [released]; rfl, rfl⟩⟩

/-- A slot is handed out if one is free. -/
theorem ends_allocateSlot (kind : Kind) {owners : List Storage} (account : work.Accounted owners) :
    (onRoutine tree Routine.allocateSlot).Ends work
      (fun slot after => after.caches = work.caches ∧ after.Accounted
        ((slot.toList.map fun offset => Storage.own (.slot offset) kind) ++ owners))
      fun after => after.caches = work.caches ∧ after.Accounted owners := by
  refine ends_onRoutine ⟨rfl, account⟩ fun routine opens => ?_
  have stepped : Routine.allocateSlot routine = .ok routine.frame.allocate.1
      { routine with frame := routine.frame.allocate.2 } := rfl
  rw [stepped]
  have opened := account.opened opens
  rcases routine.frame.allocate_cases with ⟨_, result⟩ | ⟨offset, rest, free, result⟩
  · rw [result]
    exact ⟨rfl, opened⟩
  · rw [result]
    exact ⟨rfl, opened.take rfl free⟩

theorem trades_allocateSlot (kind : Kind) :
    Trades tree asked (onRoutine tree Routine.allocateSlot) work []
      (fun slot => slot.toList.map fun offset => .own (.slot offset) kind) (· = []) :=
  fun _ account => (ends_allocateSlot kind account).mono
    (fun _ _ here => .of_caches here.1 here.2) fun _ here => ⟨[], rfl, .of_caches here.1 here.2⟩

/-- A register is handed out if one is free. -/
theorem trades_tryRegister (bank : Bank) (owner : Option NodeId) (hint : Option Register)
    (kind : Kind) :
    Trades tree asked (tryRegister bank owner hint) work []
      (fun found => found.toList.map fun register => .own (.register register) kind)
      fun _ => False := by
  obtain ⟨found, after, done⟩ := tryRegister_ok bank owner hint work
  rcases of_tryRegister done with ⟨rfl, rfl⟩ | ⟨register, rfl, _, allowed, free, rfl⟩
  · exact trades_of_ok done rfl fun _ account => account
  · exact trades_of_ok done rfl fun _ account => account.assign allowed free owner kind

/-- A register is always taken back from its owner. -/
theorem trades_freeRegister (owns : storage.ownedRegister? = some register) :
    Trades tree asked (freeRegister register) work [storage] (fun _ => []) fun _ => False := by
  intro owners account
  obtain ⟨pool, released, done⟩ := freeRegister_ok (account.live_of_owned owns)
  exact ends_of_ok done (.of_caches rfl (account.giveBackRegister owns released))

/-- A storage that cannot be given back stays behind. -/
theorem trades_release :
    Trades tree asked (release tree storage) work [storage] (fun _ => []) (· = [storage]) := by
  simp only [release]
  split
  · rename_i owned
    cases location : storage.location with
    | register register =>
      exact (trades_freeRegister asked (Storage.ownedRegister_of_isOwned owned location)).mono
        fun _ => False.elim
    | slot offset =>
      intro owners account
      refine ends_onRoutine ⟨[storage], rfl, .of_caches rfl account⟩ fun routine opens => ?_
      exact .of_caches rfl ((account.opened opens).giveBackSlot rfl owned location)
    | constant bits => simp [Storage.isOwned, location] at owned
  · rename_i shared
    exact trades_of_ok (by rfl) rfl fun _ account => account.drop (by simpa using shared)

/-- A live register may change its owner. -/
theorem transfer_ok (live : work.pool.live.contains register) (owner : NodeId) :
    ∃ pool, work.pool.transfer register (some owner) = .ok pool ∧
      withPool (fun pool => (pool.transfer register (some owner)).map fun pool => (register, pool))
        work = .ok register { work with pool := pool } := by
  have moved : work.pool.transfer register (some owner) = .ok _ := if_pos live
  exact ⟨_, moved, withPool_eq_ok.mpr ⟨_, by rw [moved]; rfl, rfl⟩⟩

/-- The owner of a register may pass it on. -/
theorem trades_transfer (owns : storage.ownedRegister? = some register) (owner : NodeId) :
    Trades tree asked (withPool fun pool =>
      (pool.transfer register (some owner)).map fun pool => (register, pool)) work [storage]
      (fun register => [.own (.register register) kind]) fun _ => False := by
  intro owners account
  obtain ⟨pool, moved, done⟩ := transfer_ok (account.live_of_owned owns) owner
  exact ends_of_ok done (.of_caches rfl (account.transfer owns moved kind))

/-- A value that finds no register stays where it is; one that cannot be brought into the register
that was found for it stays there besides. -/
theorem trades_materialize (owner : NodeId) (hint : Option Register) (activity : String)
    (kind : Kind) :
    Trades tree asked (materialize tree storage owner hint activity) work [storage]
      (fun register => [.own (.register register) kind])
      fun remains => remains = [storage] ∨ ∃ target, remains = [target, storage] := by
  simp only [materialize]
  cases owned : storage.ownedRegister? with
  | some register => exact (trades_transfer asked owned owner).mono fun _ => False.elim
  | none =>
    refine ((trades_tryRegister asked storage.kind.bank (some owner) hint kind).surely [storage]
      (.refl _) fun _ => .refl _).bind fun found between _ => ?_
    cases found with
    | none => exact trades_throw (.inl rfl)
    | some register =>
      refine ((trades_step asked (Routine.stable_write _)).among
        [.own (.register register) kind, storage] (.refl _) (fun _ => .refl _) ?_).bind
        fun _ fetched _ => ?_
      · rintro _ rfl
        exact ⟨_, .inr ⟨_, rfl⟩, .refl _⟩
      refine ((trades_release asked).among [.own (.register register) kind] (.swap ..)
        (fun _ => .refl _) ?_).bind fun _ _ _ => trades_pure (.refl _)
      rintro _ rfl
      exact ⟨_, .inr ⟨_, rfl⟩, .swap ..⟩

/-- A value that cannot be parked stays where it is. -/
theorem trades_park :
    Trades tree asked (park tree storage) work [storage] (fun parked => [parked])
      (· = [storage]) := by
  intro owners account
  revert owners account
  simp only [park]
  cases owned : storage.ownedRegister? with
  | none => exact trades_pure (.refl _)
  | some register =>
    intro owners account
    have real := RegisterPool.inBank_of_contains (account.live_of_owned owned)
    refine Trades.bind ((trades_allocateSlot asked storage.kind).among [storage] (.refl _)
      (fun _ => .refl _) ?_) (fun slot between done => ?_) owners account
    · rintro _ rfl
      exact ⟨_, rfl, .refl _⟩
    cases slot with
    | none => exact trades_pure (.refl _)
    | some offset =>
      obtain ⟨_, taken, _, _, rfl⟩ := of_onRoutine done
      -- The function has been begun and the register is one of the machine: it can be stored.
      have begun : Workspace.routine { work with routine := some taken } = some taken := rfl
      obtain ⟨later, spilled, frame⟩ := spill_ok tree begun real offset
      have stores : Trades tree asked (onRoutine tree (Routine.spill register offset))
          { work with routine := some taken } [] (fun _ => []) fun _ => False :=
        trades_of_ok spilled rfl fun _ account => account.stepped (.inl begun) frame
      refine (stores.surely
        [.own (.slot offset) storage.kind, storage] (.refl _) fun _ => .refl _).bind fun _ _ _ => ?_
      refine ((trades_freeRegister asked owned).surely [.own (.slot offset) storage.kind]
        (.swap ..) fun _ => .refl _).bind fun _ _ _ => ?_
      exact ((trades_count asked _).surely [.own (.slot offset) storage.kind] (.refl _)
        fun _ => .refl _).bind fun _ _ _ => trades_pure (.refl _)

theorem trades_parkUnderPressure (needed : Nat) (bank : Bank) :
    Trades tree asked (parkUnderPressure tree storage needed bank) work [storage]
      (fun parked => [parked]) (· = [storage]) := by
  simp only [parkUnderPressure]
  split
  · exact trades_pure (.refl _)
  · refine Trades.afterGet ?_
    split
    · exact trades_park asked
    · exact trades_pure (.refl _)

end Steps

section Requests

variable {tree : Tree} {work : Workspace} {storage : Storage} {register : Register}
variable {owners : List Storage}

/-- A pool that refuses a request stays as it is. -/
theorem ends_withPool {α : Type} (change : RegisterPool → Except RegisterError (α × RegisterPool))
    (work : Workspace) :
    (withPool change).Ends work (fun _ _ => True) fun after => after = work := by
  rw [Ends, withPool_eq]
  cases change work.pool with
  | ok found => trivial
  | error cause => rfl

theorem ends_allocateRegister (kind : Kind) (register : Register) (work : Workspace) :
    (allocateRegister kind register).Ends work (fun _ _ => True) fun after => after = work := by
  simp only [allocateRegister]
  split
  · exact ends_of_error rfl rfl
  · exact (ends_withPool _ work).bind fun _ _ _ _ => ends_pure trivial

/-- Where neither a register nor a slot is found no account changes. -/
theorem ends_temporary (kind : Kind) (activity : String) (account : work.Accounted owners) :
    (temporary tree kind activity).Ends work (fun _ _ => True)
      fun after => after.caches = work.caches ∧ after.Accounted owners := by
  simp only [temporary]
  obtain ⟨found, between, done⟩ := tryRegister_ok kind.bank none none work
  refine Ends.after done ?_
  rcases of_tryRegister done with ⟨rfl, rfl⟩ | ⟨register, rfl, _⟩
  · refine (ends_allocateSlot kind account).bind fun slot _ _ there => ?_
    cases slot with
    | some offset => exact ends_pure trivial
    | none => exact ends_throw there
  · exact ends_pure trivial

/-- A storage that cannot be given back, whoever owns what it names, changes no account. -/
theorem ends_release (account : work.Accounted owners) :
    (release tree storage).Ends work (fun _ _ => True)
      fun after => after.caches = work.caches ∧ after.Accounted owners := by
  simp only [release]
  split
  · cases storage.location with
    | register register =>
      refine (ends_withPool _ work).mono (fun _ _ _ => trivial) fun _ same => ?_
      rw [same]
      exact ⟨rfl, account⟩
    | slot offset => exact ends_onRoutine ⟨rfl, account⟩ fun _ _ => trivial
    | constant bits => exact ends_pure trivial
  · exact ends_pure trivial

/-- A value that cannot be moved into a register, whoever owns where it is, leaves nothing behind
but the register. -/
theorem ends_moveToRegister (account : work.Accounted owners) :
    (moveToRegister tree storage register).Ends work (fun _ _ => True)
      fun after => after.caches = work.caches ∧ (after.Accounted owners ∨
        after.Accounted (.own (.register register) storage.kind :: owners)) := by
  simp only [moveToRegister]
  split
  · exact ends_pure trivial
  · have refused := ends_allocateRegister storage.kind register work
    refine (refused.mono (fun _ _ _ => trivial) fun _ same => ?_).bind fun target between done _ => ?_
    · rw [same]
      exact ⟨rfl, .inl account⟩
    · obtain ⟨_, allowed, free, rfl, rfl⟩ := of_allocateRegister done
      have handed := account.assign allowed free none storage.kind
      refine ((ends_step (Routine.stable_write _) handed).mono (fun _ _ => id) fun _ here =>
        ⟨here.1, .inr here.2⟩).bind fun _ _ _ there => ?_
      exact ((ends_release there.2).mono (fun _ _ _ => trivial) fun _ here =>
        ⟨here.1.trans there.1, .inr here.2⟩).bind fun _ _ _ _ => ends_pure trivial

/-- A value that cannot be parked, whoever owns where it is, leaves nothing behind, or a slot if its
register has been given back already. -/
theorem ends_park (account : work.Accounted owners) :
    (park tree storage).Ends work (fun _ _ => True)
      fun after => after.caches = work.caches ∧ (after.Accounted owners ∨
        ∃ register offset, storage.ownedRegister? = some register ∧
          work.pool.live.contains register = false ∧
          after.Accounted (.own (.slot offset) storage.kind :: owners)) := by
  simp only [park]
  cases owned : storage.ownedRegister? with
  | none => exact ends_pure trivial
  | some register =>
    refine ((ends_allocateSlot storage.kind account).mono (fun _ _ => id) fun _ here =>
      ⟨here.1, .inl here.2⟩).bind fun slot between done there => ?_
    cases slot with
    | none => exact ends_pure trivial
    | some offset =>
      obtain ⟨_, taken, _, _, rfl⟩ := of_onRoutine done
      have begun : Workspace.routine { work with routine := some taken } = some taken := rfl
      by_cases live : work.pool.live.contains register
      · -- Nothing keeps a live register from being stored and given back.
        obtain ⟨stored, spilled, _⟩ :=
          spill_ok tree begun (RegisterPool.inBank_of_contains live) offset
        have lives : ({ work with routine := some stored } : Workspace).pool.live.contains
          register := live
        obtain ⟨_, _, freed⟩ := freeRegister_ok lives
        exact .after spilled (.after freed (.afterModify (ends_pure trivial)))
      · have stale (final : Workspace) (caches : final.caches = work.caches)
            (taken : final.Accounted (.own (.slot offset) storage.kind :: owners)) :
            final.caches = work.caches ∧ (final.Accounted owners ∨
              ∃ other slot, some register = some other ∧
                work.pool.live.contains other = false ∧
                final.Accounted (.own (.slot slot) storage.kind :: owners)) :=
          ⟨caches, .inr ⟨register, offset, rfl, by simpa using live, taken⟩⟩
        refine ((ends_step (Routine.stable_write _) there.2).mono (fun _ _ => id) fun _ here =>
          stale _ (here.1.trans there.1) here.2).bind fun _ _ _ here => ?_
        refine ((ends_withPool _ _).mono (fun _ _ _ => trivial) fun final same => ?_).bind
          fun _ _ _ _ => ?_
        · rw [same]
          exact stale _ (here.1.trans there.1) here.2
        · exact Ends.afterModify (ends_pure trivial)

end Requests

end Build

end NativeExpr
