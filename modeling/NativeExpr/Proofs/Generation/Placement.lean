import NativeExpr.Generation.Placement
import NativeExpr.Proofs.Build

/-!
# Successful placements

What finding a place for a value, moving it there and giving its old place back have done to
the workspace when they succeed.
-/

namespace NativeExpr

theorem Storage.location_of_ownedRegister {storage : Storage} {register : Register}
    (owned : storage.ownedRegister? = some register) :
    storage.location = .register register ∧ storage.isOwned = true := by
  obtain ⟨location, kind, mine⟩ := storage
  cases location <;> cases mine <;>
    simp_all [Storage.ownedRegister?, Storage.isOwned, Storage.register?, Location.register?]

theorem Storage.ownedRegister_of_isOwned {storage : Storage} {register : Register}
    (owned : storage.isOwned = true) (location : storage.location = .register register) :
    storage.ownedRegister? = some register := by
  simp [Storage.ownedRegister?, owned, Storage.register?, location, Location.register?]

theorem Frame.allocate_cases (frame : Frame) :
    (frame.free = [] ∧ frame.allocate = (none, frame)) ∨
      ∃ offset rest, frame.free = offset :: rest ∧
        frame.allocate = (some offset, { frame with free := rest }) := by
  cases free : frame.free with
  | nil => exact .inl ⟨rfl, by simp [allocate, free]⟩
  | cons offset rest => exact .inr ⟨offset, rest, rfl, by simp [allocate, free]⟩

namespace Build

variable {before after : Workspace} {routine : Routine} {tree : Tree}

/-- A slot that is found is the first free one; none is found without change. -/
theorem of_allocateSlot {slot : Option Offset} (begun : before.routine = some routine)
    (done : onRoutine tree Routine.allocateSlot before = .ok slot after) :
    (slot = none ∧ after = before) ∨
      ∃ offset rest, slot = some offset ∧ routine.frame.free = offset :: rest ∧
        after = { before with
          routine := some { routine with frame := { routine.frame with free := rest } } } := by
  obtain ⟨later, stepped, rfl⟩ := (onRoutine_eq_ok begun).mp done
  obtain ⟨rfl, rfl⟩ := Routine.allocateSlot_eq_ok.mp stepped
  rcases Frame.allocate_cases routine.frame with ⟨_, result⟩ | ⟨offset, rest, free, result⟩
  · rw [result]
    exact .inl ⟨rfl, by simp [← begun]⟩
  · rw [result]
    exact .inr ⟨offset, rest, rfl, free, rfl⟩

/-- What is given back is the register or the slot of an owned value. -/
theorem of_release {storage : Storage} {value : Unit} (begun : before.routine = some routine)
    (done : release tree storage before = .ok value after) :
    (storage.isOwned = false ∧ after = before) ∨
    (∃ register pool, storage.isOwned = true ∧ storage.location = .register register ∧
      before.pool.release register = .ok pool ∧ after = { before with pool := pool }) ∨
    (∃ offset, storage.isOwned = true ∧ storage.location = .slot offset ∧
      after = { before with
        routine := some { routine with frame := routine.frame.release offset } }) := by
  simp only [release] at done
  split at done
  · rename_i owned
    cases location : storage.location with
    | register register =>
      simp only [location] at done
      obtain ⟨pool, released, rfl⟩ := of_freeRegister done
      exact .inr (.inl ⟨register, pool, owned, rfl, released, rfl⟩)
    | slot offset =>
      simp only [location] at done
      obtain ⟨later, stepped, rfl⟩ := (onRoutine_eq_ok begun).mp done
      obtain rfl := Routine.releaseSlot_eq_ok.mp stepped
      exact .inr (.inr ⟨offset, owned, rfl, rfl⟩)
    | constant bits => simp [Storage.isOwned, location] at owned
  · rename_i shared
    obtain ⟨_, rfl⟩ := estate_pure_eq_ok.mp done
    exact .inl ⟨by simpa using shared, rfl⟩

/-- A value is materialized where it is, if it has a register to give back, or in a register
that was free. -/
theorem of_materialize {storage : Storage} {owner : NodeId} {hint : Option Register}
    {activity : String} {register : Register}
    (done : materialize tree storage owner hint activity before = .ok register after) :
    (∃ pool, storage.ownedRegister? = some register ∧
      before.pool.transfer register (some owner) = .ok pool ∧
      after = { before with pool := pool }) ∨
    (storage.ownedRegister? = none ∧ register.bank = storage.kind.bank ∧
      before.pool.allocatable.contains register ∧ ¬before.pool.live.contains register ∧
      ∃ between, fetch tree register storage.location
          { before with pool := before.pool.assign register (some owner) } = .ok () between ∧
        release tree storage between = .ok () after) := by
  simp only [materialize] at done
  cases owned : storage.ownedRegister? with
  | some held =>
    simp only [owned] at done
    obtain ⟨pool, transferred, rfl⟩ := withPool_eq_ok.mp done
    cases outcome : before.pool.transfer held (some owner) with
    | error cause => simp [outcome, Except.map] at transferred
    | ok moved =>
      simp only [outcome, Except.map, Except.ok.injEq, Prod.mk.injEq] at transferred
      obtain ⟨rfl, rfl⟩ := transferred
      exact .inl ⟨moved, rfl, outcome, rfl⟩
  | none =>
    simp only [owned, estate_bind_eq_ok] at done
    obtain ⟨found, between, tried, done⟩ := done
    rcases of_tryRegister tried with ⟨rfl, rfl⟩ | ⟨register, rfl, own, allowed, free, rfl⟩
    · exact absurd done estate_throw_ne_ok
    · simp only [estate_bind_eq_ok, estate_pure_eq_ok] at done
      obtain ⟨_, fetched, brought, _, _, released, rfl, rfl⟩ := done
      exact .inr ⟨rfl, own, allowed, free, fetched, brought, released⟩

/-- A value is parked in the first free slot and its register is given back; otherwise it stays
where it is. -/
theorem of_park {storage parked : Storage} (begun : before.routine = some routine)
    (done : park tree storage before = .ok parked after) :
    (parked = storage ∧ after = before) ∨
    ∃ register offset rest instructions pool, storage.ownedRegister? = some register ∧
      routine.frame.free = offset :: rest ∧ parked = .own (.slot offset) storage.kind ∧
      assemble [.store .rbp offset register] = ⟨instructions, none⟩ ∧
      before.pool.release register = .ok pool ∧
      after = { before with
        routine := some (({ routine with frame := { routine.frame with free := rest } } :
          Routine).append instructions)
        pool := pool
        statistics := after.statistics } ∧
      after.statistics =
        { before.statistics with valuesParked := before.statistics.valuesParked + 1 } := by
  simp only [park] at done
  cases owned : storage.ownedRegister? with
  | none =>
    simp only [owned, estate_pure_eq_ok] at done
    obtain ⟨rfl, rfl⟩ := done
    exact .inl ⟨rfl, rfl⟩
  | some register =>
    simp only [owned, estate_bind_eq_ok] at done
    obtain ⟨slot, between, allocated, done⟩ := done
    rcases of_allocateSlot begun allocated with ⟨rfl, rfl⟩ | ⟨offset, rest, rfl, free, rfl⟩
    · obtain ⟨rfl, rfl⟩ := estate_pure_eq_ok.mp done
      exact .inl ⟨rfl, rfl⟩
    · simp only [estate_bind_eq_ok, count_eq_ok, estate_pure_eq_ok] at done
      obtain ⟨_, _, spilled, _, _, freed, _, _, rfl, rfl, rfl⟩ := done
      obtain ⟨instructions, granted, rfl⟩ := of_write rfl spilled
      obtain ⟨pool, released, rfl⟩ := of_freeRegister freed
      exact .inr ⟨register, offset, rest, instructions, pool, rfl, free, rfl, granted, released, rfl,
        rfl⟩

/-- Under pressure a value is parked, otherwise it stays where it is. -/
theorem of_parkUnderPressure {storage parked : Storage} {needed : Nat} {bank : Bank}
    (done : parkUnderPressure tree storage needed bank before = .ok parked after) :
    (parked = storage ∧ after = before) ∨ park tree storage before = .ok parked after := by
  simp only [parkUnderPressure] at done
  cases held : storage.register? with
  | none =>
    simp only [held, estate_pure_eq_ok] at done
    obtain ⟨rfl, rfl⟩ := done
    exact .inl ⟨rfl, rfl⟩
  | some register =>
    simp only [held, estate_bind_eq_ok, estate_get_eq_ok] at done
    obtain ⟨_, _, ⟨rfl, rfl⟩, done⟩ := done
    split at done
    · exact .inr done
    · obtain ⟨rfl, rfl⟩ := estate_pure_eq_ok.mp done
      exact .inl ⟨rfl, rfl⟩

/-- What the host is given is a register that was free or, if there is none, a slot. -/
theorem of_allocateTemporary {kind : Kind} {storage : Storage}
    (done : allocateTemporary tree kind before = .ok storage after) :
    (∃ register, before.pool.allocatable.contains register ∧
      ¬before.pool.live.contains register ∧ storage = .own (.register register) kind ∧
        after = { before with pool := before.pool.assign register none }) ∨
    ∃ offset, onRoutine tree Routine.allocateSlot before = .ok (some offset) after ∧
      storage = .own (.slot offset) kind := by
  simp only [allocateTemporary, temporary, estate_bind_eq_ok] at done
  obtain ⟨found, between, tried, done⟩ := done
  rcases of_tryRegister tried with ⟨rfl, rfl⟩ | ⟨register, rfl, _, allowed, free, rfl⟩
  · simp only [estate_bind_eq_ok] at done
    obtain ⟨slot, _, allocated, done⟩ := done
    cases slot with
    | some offset =>
      obtain ⟨rfl, rfl⟩ := estate_pure_eq_ok.mp done
      exact .inr ⟨offset, allocated, rfl⟩
    | none => exact absurd done estate_throw_ne_ok
  · obtain ⟨rfl, rfl⟩ := estate_pure_eq_ok.mp done
    exact .inl ⟨register, allowed, free, rfl, rfl⟩

/-- A particular register is handed out if it was free. -/
theorem of_allocateRegister {kind : Kind} {register : Register} {storage : Storage}
    (done : allocateRegister kind register before = .ok storage after) :
    register.bank = kind.bank ∧ before.pool.allocatable.contains register ∧
      ¬before.pool.live.contains register ∧ storage = .own (.register register) kind ∧
      after = { before with pool := before.pool.assign register none } := by
  simp only [allocateRegister] at done
  split at done
  · simp only [estate_bind_eq_ok] at done
    obtain ⟨_, _, thrown, _⟩ := done
    exact absurd thrown estate_throw_ne_ok
  · rename_i own
    simp only [estate_bind_eq_ok, estate_pure_eq_ok] at done
    obtain ⟨_, _, taken, rfl, rfl⟩ := done
    obtain ⟨pool, allocated, rfl⟩ := withPool_eq_ok.mp taken
    cases outcome : before.pool.allocateExactly register none with
    | error cause => simp [outcome, Except.map] at allocated
    | ok assigned =>
      simp only [outcome, Except.map, Except.ok.injEq, Prod.mk.injEq, true_and] at allocated
      subst allocated
      obtain ⟨allowed, free, rfl⟩ := RegisterPool.of_allocateExactly outcome
      exact ⟨by simpa using own, allowed, free, rfl, rfl⟩

/-- Giving a location back writes no code and leaves the frame as large as it is. -/
theorem code_of_release {storage : Storage} {value : Unit} (begun : before.routine = some routine)
    (done : release tree storage before = .ok value after) :
    ∃ later, after.routine = some later ∧ later.code = routine.code ∧
      later.frame.size = routine.frame.size := by
  rcases of_release begun done with ⟨_, rfl⟩ | ⟨_, _, _, _, _, rfl⟩ | ⟨offset, _, _, rfl⟩
  · exact ⟨routine, begun, rfl, rfl⟩
  · exact ⟨routine, begun, rfl, rfl⟩
  · exact ⟨_, rfl, rfl, rfl⟩

/-- A value that is not yet in the register is copied there if the register was free. -/
theorem of_moveToRegister {storage result : Storage} {register : Register}
    (begun : before.routine = some routine)
    (done : moveToRegister tree storage register before = .ok result after) :
    (result = storage ∧ after = before) ∨
    ∃ instructions later, before.pool.allocatable.contains register ∧
      ¬before.pool.live.contains register ∧
      assemble (Transfer.intoRegister register storage.location) = ⟨instructions, none⟩ ∧
      result = .own (.register register) storage.kind ∧
      after.routine = some later ∧ later.code = (routine.append instructions).code := by
  simp only [moveToRegister] at done
  split at done
  · obtain ⟨rfl, rfl⟩ := estate_pure_eq_ok.mp done
    exact .inl ⟨rfl, rfl⟩
  · simp only [estate_bind_eq_ok, estate_pure_eq_ok] at done
    obtain ⟨_, _, allocated, _, _, fetched, _, _, released, rfl, rfl⟩ := done
    obtain ⟨_, allowed, free, rfl, rfl⟩ := of_allocateRegister allocated
    have standing : Workspace.routine { before with
        pool := before.pool.assign register none } = some routine := begun
    obtain ⟨instructions, granted, rfl⟩ := of_write standing fetched
    obtain ⟨later, kept, code, _⟩ := code_of_release rfl released
    exact .inr ⟨instructions, later, allowed, free, granted, rfl, kept, code⟩

end Build

end NativeExpr
