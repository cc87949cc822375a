import NativeExpr.Proofs.Preservation.Steps

/-!
# Claims that move

Giving back what is claimed, bringing a claimed value into a register that may be overwritten,
and parking it in a slot.
-/

namespace NativeExpr.Run

variable {run : Run} {before after : Site} {claims : List (NodeId × Storage)}
variable {id : NodeId} {storage : Storage} {called : List NodeId}

theorem Carries.ne_of_mem {claim other : NodeId × Storage}
    (carries : run.Carries before called (claim :: claims) after) (own : claim.2.isOwned = true)
    (member : other ∈ claims) : other.2.location ≠ claim.2.location := by
  intro same
  cases owned : other.2.isOwned with
  | true =>
    have distinct := carries.distinct
    rw [List.filter_cons_of_pos (by simpa using own), List.map_cons, List.nodup_cons] at distinct
    apply distinct.1
    rw [← same]
    exact List.mem_map_of_mem (List.mem_filter.mpr ⟨member, by simpa using owned⟩)
  | false =>
    apply (carries.owned claim List.mem_cons_self own).2
    rw [← same]
    exact carries.shared other (List.mem_cons_of_mem _ member) owned

/-- An owned claim may be given back: nothing else depends on its location. -/
theorem Generates.giveBack {claim : NodeId × Storage}
    (generates : run.Generates before called (claim :: claims) after) (own : claim.2.isOwned = true)
    (later : Site)
    (begun : later.work.routine = some later.routine)
    (code : later.routine.code = after.routine.code) (pool : later.work.pool.Sound)
    (allocatable : later.work.pool.allocatable = after.work.pool.allocatable)
    (frame : later.routine.frame.Sound)
    (homes : later.routine.frame.homes = after.routine.frame.homes)
    (size : later.routine.frame.size = after.routine.frame.size)
    (settled : later.settled = after.settled) (caches : later.work.caches = after.work.caches)
    (taken : ∀ location, after.Taken location → location ≠ claim.2.location →
      later.Taken location) : run.Generates before called claims later := by
  have state : run.state later.routine = run.state after.routine := by
    simp only [Run.state, code]
  have consistent := generates.consistent
  obtain ⟨untaken, unsettled⟩ := generates.owned claim List.mem_cons_self own
  have right {id : NodeId} {storage : Storage} (right : run.Right after id storage)
      (other : storage.location ≠ claim.2.location) : run.Right later id storage :=
    ⟨right.kind, taken _ right.taken other, right.bank, state ▸ right.means⟩
  have settledTaken : ∀ location, later.settled location → later.Taken location := by
    intro location stays
    rw [settled] at stays
    apply taken _ (consistent.taken location stays)
    rintro rfl
    exact unsettled stays
  have consistentLater : run.Consistent later := {
    begun := begun
    base := state ▸ consistent.base
    written := code ▸ consistent.written
    pool := pool
    frame := frame
    below := by
      rw [state, size]
      exact consistent.below
    room := size ▸ consistent.room
    constants := settled ▸ consistent.constants
    homes := by
      rw [homes, settled]
      exact consistent.homes
    taken := settledTaken
    kept := fun id storage cached => by
      obtain ⟨stays, here⟩ := consistent.kept id storage (caches ▸ cached)
      refine ⟨settled ▸ stays, right here ?_⟩
      intro same
      exact unsettled (same ▸ stays)
    parameters := by
      rw [homes, state]
      exact consistent.parameters }
  have dropped := generates.toCarries.drop
  have keeps : run.Keeps before (run.state later.routine) := state ▸ generates.toKeeps
  exact { keeps with
    consistent := consistentLater
    code := by
      rw [code, state]
      exact generates.code
    allocatable := allocatable.trans generates.allocatable
    homes := homes.trans generates.homes
    size := size.trans generates.size
    taken := fun location used => by
      apply taken _ (generates.taken location used)
      rintro rfl
      exact untaken used
    settled := fun location stays => settled ▸ generates.settled location stays
    fresh := fun location stays => generates.fresh location (settled ▸ stays)
    right := fun other member =>
      right (dropped.right other member) (generates.ne_of_mem own member)
    owned := fun other member owned => by
      rw [settled]
      exact dropped.owned other member owned
    shared := fun other member borrowed => by
      rw [settled]
      exact dropped.shared other member borrowed
    distinct := dropped.distinct
    stack := by
      rw [state]
      exact generates.stack }

/-- Giving back the register of an owned claim. -/
theorem Generates.giveBackRegister {register : Register} {pool : RegisterPool}
    (generates : run.Generates before called ((id, storage) :: claims) after)
    (own : storage.isOwned = true) (location : storage.location = .register register)
    (allocatable : pool.allocatable = after.work.pool.allocatable)
    (live : ∀ other, pool.live.contains other ↔
      after.work.pool.live.contains other ∧ other ≠ register) :
    run.Generates before called claims (after.withPool pool) := by
  have consistent := generates.consistent
  apply generates.giveBack own (after.withPool pool) consistent.begun rfl
    (consistent.pool.of_le allocatable fun other member => ((live other).mp member).1)
    allocatable consistent.frame rfl rfl rfl rfl
  intro other used different
  cases other with
  | register other =>
    refine (live other).mpr ⟨used, ?_⟩
    rintro rfl
    exact different location.symm
  | slot slot => exact used
  | constant bits => trivial

/-- Giving back the slot of an owned claim. -/
theorem Generates.giveBackSlot {offset : Offset}
    (generates : run.Generates before called ((id, storage) :: claims) after)
    (own : storage.isOwned = true) (location : storage.location = .slot offset) :
    run.Generates before called claims (after.withFree (offset :: after.routine.frame.free)) := by
  have consistent := generates.consistent
  have taken : after.Taken (.slot offset) :=
    location ▸ (generates.right _ List.mem_cons_self).taken
  have unsettled := (generates.owned _ List.mem_cons_self own).2
  rw [location] at unsettled
  have frame : (after.withFree (offset :: after.routine.frame.free)).routine.frame.Sound := {
    homes := consistent.frame.homes
    free := fun slot member => by
      rcases List.mem_cons.mp member with rfl | member
      · exact taken.1
      · exact consistent.frame.free slot member
    distinct := List.nodup_cons.mpr ⟨taken.2, consistent.frame.distinct⟩
    apart := fun home listed member => by
      rcases List.mem_cons.mp member with rfl | member
      · exact unsettled (consistent.homes home listed)
      · exact consistent.frame.apart home listed member }
  apply generates.giveBack own (after.withFree (offset :: after.routine.frame.free)) rfl rfl
    consistent.pool rfl frame rfl rfl rfl rfl
  intro other used different
  cases other with
  | register register => exact used
  | slot slot =>
    refine ⟨used.1, fun member => ?_⟩
    rcases List.mem_cons.mp member with rfl | member
    · exact different location.symm
    · exact used.2 member
  | constant bits => trivial

/-- Releasing a claim gives it back if it is owned, and writes no code. -/
theorem Generates.release {work : Workspace} {value : Unit}
    (generates : run.Generates before called ((id, storage) :: claims) after)
    (done : Build.release run.tree storage after.work = .ok value work) :
    ∃ later : Site, later.work = work ∧ run.state later.routine = run.state after.routine ∧
      run.Generates before called claims later := by
  rcases Build.of_release generates.consistent.begun done with
    ⟨_, rfl⟩ | ⟨register, pool, own, location, released, rfl⟩ | ⟨offset, own, location, rfl⟩
  · exact ⟨after, rfl, rfl, { generates.toCarries.drop with stack := generates.stack }⟩
  · obtain ⟨_, allocatable, live⟩ := RegisterPool.of_release released
    exact ⟨after.withPool pool, rfl, rfl, generates.giveBackRegister own location allocatable live⟩
  · exact ⟨after.withFree (offset :: after.routine.frame.free), rfl, rfl,
      generates.giveBackSlot own location⟩

theorem Generates.releaseAll {work : Workspace} {value : Unit}
    (generates : run.Generates before called claims after)
    (done : Stage.releaseAll run.tree (claims.map Prod.snd) after.work = .ok value work) :
    ∃ later : Site, later.work = work ∧ run.state later.routine = run.state after.routine ∧
      run.Generates before called [] later := by
  induction claims generalizing after with
  | nil =>
    obtain ⟨_, rfl⟩ := estate_pure_eq_ok.mp done
    exact ⟨after, rfl, rfl, generates⟩
  | cons claim rest ih =>
    simp only [List.map_cons, Stage.releaseAll, estate_bind_eq_ok] at done
    obtain ⟨_, between, first, remaining⟩ := done
    obtain ⟨site, rfl, same, released⟩ := generates.release first
    obtain ⟨later, reached, state, all⟩ := ih released remaining
    exact ⟨later, reached, state.trans same, all⟩

/-- A register that is not live is not taken, and nothing settled is in it. -/
theorem Consistent.unsettled (consistent : run.Consistent before) {register : Register}
    (free : ¬before.work.pool.live.contains register) : ¬before.settled (.register register) :=
  fun stays => free (consistent.taken _ stays)

theorem Consistent.unsettled_slot (consistent : run.Consistent before) {slot : Offset}
    (free : slot ∈ before.routine.frame.free) :
    ¬before.Taken (.slot slot) ∧ ¬before.settled (.slot slot) :=
  ⟨fun used => used.2 free, fun stays => (consistent.taken _ stays).2 free⟩

/-- The scratch register is never live. -/
theorem Consistent.scratch (consistent : run.Consistent before) :
    ¬before.work.pool.live.contains .r11 :=
  fun live => (consistent.pool.usable_of_live live).ne_r11 rfl

/-- Code that puts a value into a free register, which is then handed out. -/
theorem Consistent.fill (consistent : run.Consistent before) {register : Register}
    (allowed : before.work.pool.allocatable.contains register)
    (free : ¬before.work.pool.live.contains register) {instructions : List Instruction}
    (emits : run.Emits (run.state before.routine) instructions called) {later : Machine}
    (effect : (run.state before.routine).after run.natives instructions = later)
    (keeps : run.Keeps before later)
    (below : 56 + before.routine.frame.size.toNat ≤ later.depth) {kind : Kind}
    (same : kind = run.tree.kindOf id) (bank : register.bank = kind.bank)
    (means : run.means id (later.get register)) (owner : Option NodeId) :
    run.Carries before called [(id, .own (.register register) kind)]
      ((before.withCode instructions).withPool (before.work.pool.assign register owner)) := by
  have real := (consistent.pool.usable register allowed).inBank
  have state : run.state (before.withCode instructions).routine = later :=
    (state_append consistent.written instructions).trans effect
  have live (other : Register) : _ ↔ _ ∨ other = register :=
    RegisterPool.live_assign before.work.pool real owner
  have carries : run.Carries before called []
      ((before.withCode instructions).withPool (before.work.pool.assign register owner)) :=
    consistent.advance rfl (Routine.code_append before.routine instructions) emits
      (state ▸ keeps) (state ▸ below) (consistent.pool.assign allowed owner) rfl
      (fun other used => (live other).mpr (.inl used)) consistent.frame rfl rfl
      (fun _ unused => unused) rfl rfl
  refine carries.claim ⟨same, (live register).mpr (.inr rfl), ?_, ?_⟩ ?_ ?_
  · intro other location
    obtain rfl := Location.register.inj location
    exact bank
  · exact state ▸ means
  · exact fun _ => ⟨free, consistent.unsettled free⟩
  · intro shared
    cases shared

/-- Code that puts a value into the first free slot, which is then handed out. -/
theorem Consistent.fillSlot (consistent : run.Consistent before) {offset : Offset}
    {rest : List Offset} (free : before.routine.frame.free = offset :: rest)
    {instructions : List Instruction}
    (emits : run.Emits (run.state before.routine) instructions called) {later : Machine}
    (effect : (run.state before.routine).after run.natives instructions = later)
    (keeps : run.Keeps before later)
    (below : 56 + before.routine.frame.size.toNat ≤ later.depth) {kind : Kind}
    (same : kind = run.tree.kindOf id) (means : run.means id (later.value (.slot offset))) :
    run.Carries before called [(id, .own (.slot offset) kind)]
      ((before.withCode instructions).withFree rest) := by
  have state : run.state (before.withCode instructions).routine = later :=
    (state_append consistent.written instructions).trans effect
  have fewer : ∀ slot ∈ rest, slot ∈ before.routine.frame.free := by
    intro slot member
    rw [free]
    exact List.mem_cons_of_mem offset member
  have member : offset ∈ before.routine.frame.free := free ▸ List.mem_cons_self
  obtain ⟨used, distinct⟩ := List.nodup_cons.mp (free ▸ consistent.frame.distinct)
  have frame : ((before.withCode instructions).withFree rest).routine.frame.Sound :=
    ⟨consistent.frame.homes, fun slot member => consistent.frame.free slot (fewer slot member),
      distinct, fun home listed member => consistent.frame.apart home listed (fewer home member)⟩
  have carries : run.Carries before called [] ((before.withCode instructions).withFree rest) :=
    consistent.advance rfl (Routine.code_append before.routine instructions) emits
      (state ▸ keeps) (state ▸ below) consistent.pool rfl (fun _ live => live) frame rfl rfl
      fewer rfl rfl
  refine carries.claim ⟨same, ⟨consistent.frame.free offset member, used⟩, ?_, ?_⟩ ?_ ?_
  · intro register location
    cases location
  · exact state ▸ means
  · exact fun _ => consistent.unsettled_slot member
  · intro shared
    cases shared

/-- Bringing a value into a register changes at most that register and the scratch register. -/
theorem agree_intoRegister (natives : Natives) (machine : Machine) {register : Register}
    (real : register.InBank) (source : Location) :
    (Request.effects natives machine (Transfer.intoRegister register source)).get register =
        machine.value source ∧
      Machine.AgreeOutside [register, .r11] machine
        (Request.effects natives machine (Transfer.intoRegister register source)) := by
  obtain ⟨value, agree⟩ := Transfer.effects_intoRegister natives machine real source
  refine ⟨value, agree.mono ?_⟩
  split <;> simp

/-- Fetching a value into a register that was handed out for it. -/
theorem Consistent.fetch (consistent : run.Consistent before) {register : Register}
    (allowed : before.work.pool.allocatable.contains register)
    (free : ¬before.work.pool.live.contains register) {source : Location}
    {instructions : List Instruction}
    (granted : assemble (Transfer.intoRegister register source) = ⟨instructions, none⟩)
    {kind : Kind} (same : kind = run.tree.kindOf id) (bank : register.bank = kind.bank)
    (means : run.means id ((run.state before.routine).value source)) (owner : Option NodeId) :
    run.Generates before [] [(id, .own (.register register) kind)]
      ((before.withCode instructions).withPool (before.work.pool.assign register owner)) := by
  have usable := consistent.pool.usable register allowed
  obtain ⟨value, agree⟩ := agree_intoRegister run.natives (run.state before.routine)
    usable.inBank source
  have effect := after_of_assemble run.natives (run.state before.routine) granted
  have keeps := Keeps.of_agree consistent agree (by simp [usable.ne_rbp.symm])
    (by simpa using ⟨by simpa using free, by simpa using consistent.scratch⟩)
  have stack := agree.get .rsp (by decide) (by simp [usable.ne_rsp.symm])
  have filled := consistent.fill allowed free
    (.of_quiet run _ (straight_of_assemble granted (Transfer.plain_intoRegister register source))
      (quiet_of_assemble granted (Transfer.quiet_intoRegister register source))) effect keeps
    (keeps.depth stack ▸ consistent.below) same bank (value ▸ means) owner
  have state := (state_append consistent.written instructions).trans effect
  exact { filled with stack := (congrArg (Machine.get · .rsp) state).trans stack }

/-- A register is stored in a slot below the saved registers. -/
theorem Consistent.emits_spill (consistent : run.Consistent before) {slot : Offset}
    (free : slot ∈ before.routine.frame.free) {machine : Machine} {register : Register}
    {instructions : List Instruction}
    (granted : assemble [.store .rbp slot register] = ⟨instructions, none⟩) :
    run.Emits machine instructions [] := by
  have plain : ∀ request ∈ [Request.store .rbp slot register], request.Plain := by
    simp [Request.Plain]
  have distance := (consistent.frame.free slot free).distance machine
  exact {
    straight := (straight_of_assemble granted plain).ret
    writes := writes_of_assemble granted ⟨fun place target => by
      obtain rfl := Option.some.inj target
      exact ⟨distance.2.1, Nat.le_trans distance.2.2 consistent.room⟩, trivial⟩
    calls := by
      rw [(straight_of_assemble granted plain).calls]
      exact .nil }

/-- Storing a register in the first free slot, which is then handed out. -/
theorem Consistent.spill (consistent : run.Consistent before) {offset : Offset}
    {rest : List Offset} (free : before.routine.frame.free = offset :: rest)
    {register : Register} {instructions : List Instruction}
    (granted : assemble [.store .rbp offset register] = ⟨instructions, none⟩) {kind : Kind}
    (same : kind = run.tree.kindOf id)
    (means : run.means id ((run.state before.routine).get register)) :
    run.Generates before [] [(id, .own (.slot offset) kind)]
      ((before.withCode instructions).withFree rest) := by
  have member : offset ∈ before.routine.frame.free := free ▸ List.mem_cons_self
  have effect := after_of_assemble run.natives (run.state before.routine) granted
  have keeps := Keeps.of_store run before member ((run.state before.routine).get register)
  have stack := Machine.get_store (run.state before.routine)
    ((run.state before.routine).slot offset) ((run.state before.routine).get register) .rsp
  have filled := consistent.fillSlot free
    (consistent.emits_spill member granted) effect keeps
    (keeps.depth stack ▸ consistent.below) same (by
      simpa [Request.effect, Machine.value, Machine.slot] using means)
  have state := (state_append consistent.written instructions).trans effect
  exact { filled with stack := (congrArg (Machine.get · .rsp) state).trans stack }

/-- A claimed value is materialized in a register of its own. -/
theorem Generates.materialize {owner : NodeId} {hint : Option Register} {activity : String}
    {register : Register} {work : Workspace}
    (generates : run.Generates before called ((id, storage) :: claims) after)
    (done : Build.materialize run.tree storage owner hint activity after.work =
      .ok register work) :
    ∃ later : Site, later.work = work ∧ register.bank = storage.kind.bank ∧
      run.Generates before called ((id, .own (.register register) storage.kind) :: claims) later := by
  have consistent := generates.consistent
  have right := generates.right _ List.mem_cons_self
  rcases Build.of_materialize done with
    ⟨pool, owned, transferred, rfl⟩ | ⟨_, bank, allowed, free, between, fetched, released⟩
  · obtain ⟨live, allocatable, same⟩ := RegisterPool.of_transfer transferred
    obtain ⟨location, own⟩ := Storage.location_of_ownedRegister owned
    have unchanged : storage = .own (.register register) storage.kind := by
      obtain ⟨place, kind, mine⟩ := storage
      simp only at location
      subst location
      simp only [Storage.isOwned] at own
      rw [own]
      rfl
    have moved := consistent.withPool
      (consistent.pool.of_le allocatable fun other member => same ▸ member) allocatable
      fun other member => same ▸ member
    refine ⟨after.withPool pool, rfl, right.bank register location, ?_⟩
    rw [← unchanged]
    simpa using generates.further moved
  · have begun : Workspace.routine { after.work with
        pool := after.work.pool.assign register (some owner) } = some after.routine :=
      consistent.begun
    obtain ⟨instructions, granted, rfl⟩ := Build.of_write begun fetched
    have filled := consistent.fetch allowed free granted right.kind bank right.means (some owner)
    obtain ⟨later, reached, _, gaveBack⟩ := (generates.further filled).release released
    exact ⟨later, reached, bank, gaveBack.perm (List.perm_append_comm ..)⟩

/-- A claimed value is parked in a slot or stays where it is. -/
theorem Generates.park {parked : Storage} {work : Workspace}
    (generates : run.Generates before called ((id, storage) :: claims) after)
    (done : Build.park run.tree storage after.work = .ok parked work) :
    ∃ later : Site, later.work = work ∧ run.Generates before called ((id, parked) :: claims) later := by
  have consistent := generates.consistent
  have right := generates.right _ List.mem_cons_self
  rcases Build.of_park consistent.begun done with
    ⟨rfl, rfl⟩ | ⟨register, offset, rest, instructions, pool, owned, free, rfl, granted, released,
      same, _⟩
  · exact ⟨after, rfl, generates⟩
  · obtain ⟨location, own⟩ := Storage.location_of_ownedRegister owned
    obtain ⟨_, allocatable, live⟩ := RegisterPool.of_release released
    have means := right.means
    rw [location] at means
    have spilled := generates.further (consistent.spill free granted right.kind means)
    have freed := spilled.giveBackRegister own location allocatable live
    refine ⟨(((after.withCode instructions).withFree rest).withPool pool).withCounts
      work.statistics, same.symm, ?_⟩
    exact (freed.perm (List.perm_append_comm ..)).withCounts work.statistics

/-- The register of a claim may be overwritten with the value of another node. -/
theorem Generates.overwrite {node : NodeId} {target : Register} {kind : Kind}
    {instructions : List Instruction} {later : Machine}
    (generates : run.Generates before called ((node, .own (.register target) kind) :: claims) after)
    (straight : Straight instructions) (quiet : Quiet instructions)
    (effect : (run.state after.routine).after run.natives instructions = later)
    (agree : Machine.AgreeOutside [target, .r11] (run.state after.routine) later)
    (same : kind = run.tree.kindOf id) (means : run.means id (later.get target)) :
    run.Generates before called ((id, .own (.register target) kind) :: claims)
      (after.withCode instructions) := by
  -- The register is given back, written while it is free, and handed out again.
  have right := generates.right _ List.mem_cons_self
  have unsettled := (generates.owned _ List.mem_cons_self rfl).2
  have consistent := generates.consistent
  have live : after.work.pool.live.contains target := right.taken
  have usable := consistent.pool.usable_of_live live
  have erased (other : Register) : (after.work.pool.live.erase target).contains other ↔
      after.work.pool.live.contains other ∧ other ≠ target := by
    simp [RegisterSet.contains_erase]
  have freed : run.Generates before called claims
      (after.withPool { after.work.pool with live := after.work.pool.live.erase target }) :=
    generates.giveBackRegister rfl rfl rfl erased
  have keeps := Keeps.of_agree freed.consistent agree (by simp [usable.ne_rbp.symm])
    (by simpa [Site.withPool, erased] using fun member => absurd member consistent.scratch)
  have coded := freed.consistent.withCode (.of_quiet run _ straight quiet) effect keeps
    (agree.get .rsp (by decide) (by simp [usable.ne_rsp.symm]))
  have returned := coded.consistent.withPool consistent.pool rfl
    fun other member => ((erased other).mp member).1
  have state : run.state (after.withCode instructions).routine = later :=
    (state_append consistent.written instructions).trans effect
  have claimed : run.Generates
      (after.withPool { after.work.pool with live := after.work.pool.live.erase target }) []
      [(id, .own (.register target) kind)] (after.withCode instructions) := by
    refine (coded.trans returned).claim ⟨same, live, right.bank, state ▸ means⟩ ?_ ?_
    · intro _
      refine ⟨fun member => ((erased target).mp member).2 rfl, unsettled⟩
    · intro shared
      cases shared
  exact (freed.further claimed).perm (List.perm_append_comm ..)

end NativeExpr.Run
