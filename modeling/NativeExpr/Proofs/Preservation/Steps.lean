import NativeExpr.Proofs.Preservation.Carrying

/-!
# Single steps between sites

A step writes code that leaves alone what is taken, hands out a register or a slot, or takes
one back. Each of them leads from a site to another one that it carries over to.
-/

namespace NativeExpr

namespace Site

/-- A site with more code. -/
def withCode (site : Site) (instructions : List Instruction) : Site :=
  { site with
    work := { site.work with routine := some (site.routine.append instructions) }
    routine := site.routine.append instructions }

/-- A site with another pool of registers. -/
def withPool (site : Site) (pool : RegisterPool) : Site :=
  { site with work := { site.work with pool := pool } }

/-- A site with other free slots. -/
def withFree (site : Site) (free : List Offset) : Site :=
  { site with
    work := { site.work with
      routine := some { site.routine with frame := { site.routine.frame with free := free } } }
    routine := { site.routine with frame := { site.routine.frame with free := free } } }

/-- A site with other statistics. -/
def withCounts (site : Site) (statistics : Statistics) : Site :=
  { site with work := { site.work with statistics := statistics } }

end Site

namespace Run

variable {run : Run} {before after : Site} {claims : List (NodeId × Storage)}
variable {called : List NodeId}

/-- A consistent site carries over to any site that keeps what is taken, with more code, more
live registers and fewer free slots. -/
theorem Consistent.advance (consistent : run.Consistent before) {instructions : List Instruction}
    (begun : after.work.routine = some after.routine)
    (code : after.routine.code.toList = before.routine.code.toList ++ instructions)
    (emits : run.Emits (run.state before.routine) instructions called)
    (keeps : run.Keeps before (run.state after.routine))
    (below : 56 + before.routine.frame.size.toNat ≤ (run.state after.routine).depth)
    (pool : after.work.pool.Sound)
    (allocatable : after.work.pool.allocatable = before.work.pool.allocatable)
    (live : ∀ register, before.work.pool.live.contains register →
      after.work.pool.live.contains register)
    (frame : after.routine.frame.Sound)
    (homes : after.routine.frame.homes = before.routine.frame.homes)
    (size : after.routine.frame.size = before.routine.frame.size)
    (free : ∀ slot ∈ after.routine.frame.free, slot ∈ before.routine.frame.free)
    (settled : after.settled = before.settled)
    (caches : after.work.caches = before.work.caches) : run.Carries before called [] after := by
  have taken (location : Location) (taken : before.Taken location) : after.Taken location := by
    cases location with
    | register register => exact live register taken
    | slot slot =>
      refine ⟨?_, fun member => taken.2 (free slot member)⟩
      simpa only [Frame.Covers, size] using taken.1
    | constant bits => trivial
  have value {location : Location} (used : before.Taken location) :=
    keeps.value consistent used
  have long : run.written ≤ before.routine.code.toList.length := by simpa using consistent.written
  have state : run.state after.routine =
      (run.state before.routine).after run.natives instructions := by
    simp only [Run.state, code, List.drop_append_of_le_length long, Machine.after_append]
  refine { keeps with
    consistent := ?_
    code := ⟨instructions, code, state, emits⟩
    allocatable := allocatable
    homes := homes
    size := size
    taken := taken
    settled := fun location => by rw [settled]; exact id
    fresh := fun location => by rw [settled]; exact .inl
    right := fun _ member => (List.not_mem_nil member).elim
    owned := fun _ member => (List.not_mem_nil member).elim
    shared := fun _ member => (List.not_mem_nil member).elim
    distinct := List.nodup_nil }
  refine {
    begun := begun
    base := keeps.base.trans consistent.base
    written := ?_
    pool := pool
    frame := frame
    below := size ▸ below
    room := size ▸ consistent.room
    constants := settled ▸ consistent.constants
    homes := by
      rw [homes, settled]
      exact consistent.homes
    taken := fun location used => taken _ (consistent.taken location (settled ▸ used))
    kept := fun id storage cached => ?_
    parameters := fun index home id node found here operation => ?_ }
  · rw [← Array.length_toList, code, List.length_append]
    omega
  · obtain ⟨stays, right⟩ := consistent.kept id storage (caches ▸ cached)
    refine ⟨settled ▸ stays, right.kind, taken _ right.taken, right.bank, ?_⟩
    rw [value right.taken]
    exact right.means
  · rw [homes] at found
    have home' : before.Taken (.slot home) :=
      consistent.taken _ (consistent.homes home (List.mem_of_getElem? found))
    rw [value home']
    exact consistent.parameters index home id node found here operation

/-- Code that leaves alone what is taken and the stack pointer. -/
theorem Consistent.withCode (consistent : run.Consistent before) {instructions : List Instruction}
    (emits : run.Emits (run.state before.routine) instructions called) {later : Machine}
    (effect : (run.state before.routine).after run.natives instructions = later)
    (keeps : run.Keeps before later)
    (stack : later.get .rsp = (run.state before.routine).get .rsp) :
    run.Generates before called [] (before.withCode instructions) := by
  have state : run.state (before.withCode instructions).routine = later :=
    (state_append consistent.written instructions).trans effect
  have depth : later.depth = (run.state before.routine).depth := by
    simp only [Machine.depth, Machine.below, keeps.base, stack]
  have carries : run.Carries before called [] (before.withCode instructions) :=
    consistent.advance rfl (Routine.code_append before.routine instructions) emits
      (state ▸ keeps) (by rw [state, depth]; exact consistent.below) consistent.pool rfl
      (fun _ live => live) consistent.frame rfl rfl (fun _ free => free) rfl rfl
  exact { carries with stack := by rw [state]; exact stack }

theorem Consistent.withPool (consistent : run.Consistent before) {pool : RegisterPool}
    (sound : pool.Sound) (allocatable : pool.allocatable = before.work.pool.allocatable)
    (live : ∀ register, before.work.pool.live.contains register → pool.live.contains register) :
    run.Generates before [] [] (before.withPool pool) := by
  have carries : run.Carries before [] [] (before.withPool pool) :=
    consistent.advance consistent.begun (List.append_nil _).symm (.nil run _)
      (Keeps.refl run before) consistent.below sound allocatable live consistent.frame rfl rfl
      (fun _ free => free) rfl rfl
  exact { carries with stack := rfl }

/-- Statistics and the counted depth do not matter. -/
theorem Carries.congr (carries : run.Carries before called claims after) (later : Site)
    (begun : later.work.routine = some later.routine)
    (code : later.routine.code = after.routine.code)
    (frame : later.routine.frame = after.routine.frame)
    (pool : later.work.pool = after.work.pool) (caches : later.work.caches = after.work.caches)
    (settled : later.settled = after.settled) : run.Carries before called claims later := by
  have state : run.state later.routine = run.state after.routine := by
    simp only [Run.state, code]
  have consistent := carries.consistent
  have step : run.Carries after [] [] later :=
    consistent.advance begun (by rw [code, List.append_nil]) (.nil run _)
      (state ▸ Keeps.refl run after) (state ▸ consistent.below) (pool ▸ consistent.pool)
      (by rw [pool]) (fun _ live => pool ▸ live) (frame ▸ consistent.frame) (by rw [frame])
      (by rw [frame]) (fun _ free => frame ▸ free) settled caches
  have keeps : run.Keeps before (run.state later.routine) := state ▸ carries.toKeeps
  exact { keeps with
    consistent := step.consistent
    code := by
      rw [code, state]
      exact carries.code
    allocatable := step.allocatable.trans carries.allocatable
    homes := step.homes.trans carries.homes
    size := step.size.trans carries.size
    taken := fun location used => step.taken _ (carries.taken location used)
    settled := fun location stays => step.settled _ (carries.settled location stays)
    fresh := fun location stays => carries.fresh location (settled ▸ stays)
    right := fun claim member => step.right_of consistent (carries.right claim member)
    owned := fun claim member owned => by
      rw [settled]
      exact carries.owned claim member owned
    shared := fun claim member borrowed => by
      rw [settled]
      exact carries.shared claim member borrowed
    distinct := carries.distinct }

theorem Generates.withCounts (generates : run.Generates before called claims after)
    (statistics : Statistics) : run.Generates before called claims (after.withCounts statistics) :=
  { generates.toCarries.congr (after.withCounts statistics) generates.consistent.begun rfl rfl rfl
      rfl rfl with stack := generates.stack }

/-- The first claim at a site. -/
theorem Carries.claim (carries : run.Carries before called [] after) {id : NodeId} {storage : Storage}
    (right : run.Right after id storage)
    (owned : storage.isOwned = true →
      ¬before.Taken storage.location ∧ ¬after.settled storage.location)
    (shared : storage.isOwned = false → after.settled storage.location) :
    run.Carries before called [(id, storage)] after := by
  refine { carries with
    right := fun claim member => ?_
    owned := fun claim member own => ?_
    shared := fun claim member borrowed => ?_
    distinct := ?_ }
  · rw [List.mem_singleton] at member
    exact member ▸ right
  · rw [List.mem_singleton] at member
    subst member
    exact owned own
  · rw [List.mem_singleton] at member
    subst member
    exact shared borrowed
  · exact (List.nodup_singleton _).sublist (List.filter_sublist.map _)

theorem Generates.claim (generates : run.Generates before called [] after) {id : NodeId}
    {storage : Storage} (right : run.Right after id storage)
    (owned : storage.isOwned = true →
      ¬before.Taken storage.location ∧ ¬after.settled storage.location)
    (shared : storage.isOwned = false → after.settled storage.location) :
    run.Generates before called [(id, storage)] after :=
  { generates.toCarries.claim right owned shared with stack := generates.stack }

end Run

end NativeExpr
