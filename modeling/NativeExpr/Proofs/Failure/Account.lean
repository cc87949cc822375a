import NativeExpr.Proofs.Failure.Ending

/-!
# Accounts of what is handed out

An account of a workspace lists the storages that own what is handed out: every live register is
owned by exactly one of them, and every slot that is taken by some of them. There is one of every
workspace. `Build.Trades` says how a step changes every account: with what the step is given, it
lists instead what the step hands out or, if the step fails, what it leaves behind.
-/

namespace NativeExpr

namespace Workspace

/-- Whether the live registers are owned by the given storages, each by one of them, and the slots
that are taken by some of them. -/
structure Accounted (work : Workspace) (owners : List Storage) : Prop where
  registers : work.pool.HeldBy (owners.filterMap Storage.ownedRegister?)
  slots : ∀ slot ∈ work.temporaries, slot ∉ work.freeSlots →
    slot ∈ owners.filterMap Storage.ownedSlot?

variable {work later : Workspace} {owners others : List Storage} {storage : Storage}
variable {routine : Routine} {register : Register}

/-- There is an account of every workspace. -/
theorem exists_accounted (work : Workspace) : ∃ owners, work.Accounted owners := by
  let held := work.pool.live.toList.map fun register => Storage.own (.register register) .i64
  let taken := work.temporaries.map fun slot => Storage.own (.slot slot) .i64
  have registers : (held ++ taken).filterMap Storage.ownedRegister? = work.pool.live.toList := by
    simp [held, taken, List.filterMap_map, Function.comp_def, Storage.ownedRegister?, Storage.own,
      Storage.isOwned, Storage.register?, Location.register?]
  have slots : (held ++ taken).filterMap Storage.ownedSlot? = work.temporaries := by
    simp [held, taken, List.filterMap_map, Function.comp_def, Storage.ownedSlot?, Storage.own]
  refine ⟨held ++ taken, ?_, fun slot listed _ => slots ▸ listed⟩
  rw [registers]
  exact ⟨fun register => RegisterSet.mem_toList.symm, RegisterSet.nodup_toList _⟩

/-- What is owned by each once is accounted for. -/
theorem OwnedBy.accounted (owned : work.OwnedBy owners) : work.Accounted owners where
  registers := owned.heldBy
  slots slot listed taken := by
    rcases List.mem_append.mp (owned.slots.mem_iff.mpr listed) with free | here
    · exact absurd free taken
    · exact here

namespace Accounted

theorem perm (account : work.Accounted owners) (same : owners.Perm others) :
    work.Accounted others where
  registers := account.registers.perm (same.filterMap _)
  slots slot listed taken := (same.filterMap _).mem_iff.mp (account.slots slot listed taken)

/-- Nothing changes where the live registers and the slots are the same. -/
theorem unchanged (account : work.Accounted owners) (live : later.pool.live = work.pool.live)
    (free : later.freeSlots = work.freeSlots) (temporaries : later.temporaries = work.temporaries) :
    later.Accounted owners where
  registers := ⟨live ▸ account.registers.live, account.registers.distinct⟩
  slots := by
    rw [free, temporaries]
    exact account.slots

/-- Whoever owns the same registers and slots may take the place of an owner. -/
theorem congr (account : work.Accounted owners)
    (registers : others.filterMap Storage.ownedRegister? = owners.filterMap Storage.ownedRegister?)
    (slots : others.filterMap Storage.ownedSlot? = owners.filterMap Storage.ownedSlot?) :
    work.Accounted others where
  registers := registers ▸ account.registers
  slots := slots ▸ account.slots

theorem drop (account : work.Accounted (storage :: owners)) (shared : storage.isOwned = false) :
    work.Accounted owners := by
  obtain ⟨register, slot⟩ := Storage.owns_nothing shared
  exact account.congr (List.filterMap_cons_none register).symm (List.filterMap_cons_none slot).symm

theorem add (account : work.Accounted owners) (shared : storage.isOwned = false) :
    work.Accounted (storage :: owners) := by
  obtain ⟨register, slot⟩ := Storage.owns_nothing shared
  exact account.congr (List.filterMap_cons_none register) (List.filterMap_cons_none slot)

/-- Owned registers are live. -/
theorem live_of_owned (account : work.Accounted (storage :: owners))
    (owns : storage.ownedRegister? = some register) : work.pool.live.contains register :=
  (account.registers.live register).mpr (List.mem_filterMap.mpr ⟨storage, List.mem_cons_self, owns⟩)

/-- A register that was free is owned by the storage that it is handed out to. -/
theorem assign (account : work.Accounted owners)
    (allowed : work.pool.allocatable.contains register) (free : ¬work.pool.live.contains register)
    (owner : Option NodeId) (kind : Kind) :
    ({ work with pool := work.pool.assign register owner } : Workspace).Accounted
      (.own (.register register) kind :: owners) where
  registers := account.registers.assign allowed free owner
  slots := account.slots

/-- A register is given back by its owner. -/
theorem giveBackRegister (account : work.Accounted (storage :: owners)) {pool : RegisterPool}
    (owns : storage.ownedRegister? = some register)
    (released : work.pool.release register = .ok pool) :
    ({ work with pool := pool } : Workspace).Accounted owners where
  registers := by
    have held := account.registers
    rw [List.filterMap_cons_some owns] at held
    exact held.release released
  slots := by
    have slots := account.slots
    rw [List.filterMap_cons_none (Storage.ownedSlot_of_ownedRegister owns)] at slots
    exact slots

/-- The owner of a register may pass it on. -/
theorem transfer (account : work.Accounted (storage :: owners)) {owner : Option NodeId}
    {pool : RegisterPool} (owns : storage.ownedRegister? = some register)
    (moved : work.pool.transfer register owner = .ok pool) (kind : Kind) :
    ({ work with pool := pool } : Workspace).Accounted
      (.own (.register register) kind :: owners) := by
  obtain ⟨_, _, same⟩ := RegisterPool.of_transfer moved
  have slot := Storage.ownedSlot_of_ownedRegister owns
  have mine : (Storage.own (.register register) kind).ownedRegister? = some register := rfl
  have slotless : (Storage.own (.register register) kind).ownedSlot? = none := rfl
  refine (account.congr ?_ ?_).unchanged same rfl rfl
  · simp only [List.filterMap_cons, mine, owns]
  · simp only [List.filterMap_cons, slot, slotless]

/-- The first free slot is owned by the storage that it is handed out to. -/
theorem take (account : work.Accounted owners) (begun : work.routine = some routine)
    {offset : Offset} {rest : List Offset} (free : routine.frame.free = offset :: rest)
    {kind : Kind} :
    ({ work with routine := some { routine with
        frame := { routine.frame with free := rest } } } : Workspace).Accounted
      (.own (.slot offset) kind :: owners) where
  registers := account.registers
  slots slot listed taken := by
    have earlier := account.slots slot
    simp only [temporaries, freeSlots, begun, free, List.mem_cons, not_or] at earlier listed taken
    rw [List.filterMap_cons_some (rfl : (Storage.own (.slot offset) kind).ownedSlot? = some offset)]
    rcases Decidable.em (slot = offset) with rfl | other
    · exact List.mem_cons_self
    · exact List.mem_cons_of_mem _ (earlier listed ⟨other, taken⟩)

/-- A slot is given back by its owner. -/
theorem giveBackSlot (account : work.Accounted (storage :: owners))
    (begun : work.routine = some routine) {offset : Offset} (owns : storage.isOwned = true)
    (location : storage.location = .slot offset) :
    ({ work with routine := some { routine with
        frame := routine.frame.release offset } } : Workspace).Accounted owners := by
  obtain ⟨mine, register⟩ := Storage.ownedSlot_of_isOwned owns location
  have registers := account.registers
  have slots := account.slots
  rw [List.filterMap_cons_none register] at registers
  rw [List.filterMap_cons_some mine] at slots
  simp only [temporaries, freeSlots, begun] at slots
  refine ⟨registers, fun slot listed taken => ?_⟩
  simp only [temporaries, freeSlots, Frame.release, List.mem_cons, not_or] at listed taken
  exact (List.mem_cons.mp (slots slot listed taken.2)).resolve_left taken.1

/-- A function that is begun has all slots of its frame free. -/
theorem opened (account : work.Accounted owners) (opens : work.Opens routine) :
    ({ work with routine := some routine } : Workspace).Accounted owners := by
  rcases opens with begun | ⟨unbegun, parameters, started⟩
  · rwa [← begun]
  · refine ⟨account.registers, fun slot listed taken => absurd ?_ taken⟩
    simpa only [temporaries, freeSlots, Routine.frame_eq_of_start started, Frame.new,
      List.length_map, List.length_range] using listed

/-- A step that leaves the frame alone neither takes nor hands out anything. -/
theorem stepped (account : work.Accounted owners) (opens : work.Opens routine) {goesOn : Routine}
    (frame : goesOn.frame = routine.frame) :
    ({ work with routine := some goesOn } : Workspace).Accounted owners := by
  refine (account.opened opens).unchanged rfl ?_ ?_
  · simp only [freeSlots, frame]
  · simp only [temporaries, frame]

end Accounted

/-- What has become of a workspace with an account, some nodes having been asked for: what is kept
stays kept, new values are kept of shared nodes only that are needed for the nodes asked for, and an
account lists what is held and the new values besides. -/
structure Accounts (tree : Tree) (asked : List NodeId) (before : Workspace)
    (owners held : List Storage) (after : Workspace) : Prop where
  persists : ∀ (id : NodeId) storage, before.caches[id]? = some storage →
    after.caches[id]? = some storage
  fresh : ∀ (id : NodeId) storage, after.caches[id]? = some storage →
    before.caches[id]? = some storage ∨
      tree.isShared id = true ∧ ∃ root ∈ asked, tree.Reaches root id
  accounted : ∃ kept : List (NodeId × Storage),
    (∀ entry ∈ kept,
      before.caches[entry.1]? = none ∧ after.caches[entry.1]? = some entry.2) ∧
    after.Accounted (held ++ (kept.map Prod.snd ++ owners))

namespace Accounts

variable {tree : Tree} {asked roots : List NodeId} {before between after : Workspace}
variable {owners held : List Storage}

/-- A step that keeps no new value. -/
theorem of_caches (caches : after.caches = before.caches)
    (account : after.Accounted (held ++ owners)) :
    Accounts tree asked before owners held after where
  persists id storage kept := by rwa [caches]
  fresh id storage kept := .inl (by rwa [caches] at kept)
  accounted := ⟨[], fun _ none => absurd none List.not_mem_nil, account⟩

theorem perm (accounts : Accounts tree asked before owners held after) {others : List Storage}
    (same : held.Perm others) : Accounts tree asked before owners others after where
  persists := accounts.persists
  fresh := accounts.fresh
  accounted := by
    obtain ⟨kept, new, account⟩ := accounts.accounted
    exact ⟨kept, new, account.perm (same.append_right _)⟩

/-- Some of the owners may be named as held. -/
theorem beside {extra : List Storage}
    (accounts : Accounts tree asked before (extra ++ owners) held after) :
    Accounts tree asked before owners (held ++ extra) after where
  persists := accounts.persists
  fresh := accounts.fresh
  accounted := by
    obtain ⟨kept, new, account⟩ := accounts.accounted
    refine ⟨kept, new, account.perm ?_⟩
    have swapped : (kept.map Prod.snd ++ (extra ++ owners)).Perm
        (extra ++ (kept.map Prod.snd ++ owners)) := by
      simp only [← List.append_assoc]
      exact List.perm_append_comm.append_right owners
    simpa only [List.append_assoc] using swapped.append_left held

/-- What has been reached goes on with an account of its own. -/
theorem exists_further (accounts : Accounts tree asked before owners held between) :
    ∃ others, between.Accounted (held ++ others) ∧
      ∀ last after, Accounts tree asked between others last after →
        Accounts tree asked before owners last after := by
  obtain ⟨kept, new, account⟩ := accounts.accounted
  refine ⟨kept.map Prod.snd ++ owners, account, fun last after further => ?_⟩
  obtain ⟨more, newer, later⟩ := further.accounted
  exact {
    persists := fun id storage kept =>
      further.persists id storage (accounts.persists id storage kept)
    fresh := fun id storage kept =>
      (further.fresh id storage kept).elim (accounts.fresh id storage) .inr
    accounted := by
      refine ⟨more ++ kept, fun entry member => ?_, ?_⟩
      · rcases List.mem_append.mp member with member | member
        · obtain ⟨absent, present⟩ := newer entry member
          refine ⟨?_, present⟩
          cases earlier : before.caches[entry.1]? with
          | none => rfl
          | some storage =>
            rw [accounts.persists entry.1 storage earlier] at absent
            cases absent
        · obtain ⟨absent, present⟩ := new entry member
          exact ⟨absent, further.persists _ _ present⟩
      · simpa only [List.map_append, List.append_assoc] using later }

/-- Nodes are needed for whatever needs a node that they are needed for. -/
theorem mono (accounts : Accounts tree asked before owners held after)
    (needs : ∀ id ∈ asked, ∃ root ∈ roots, tree.Reaches root id) :
    Accounts tree roots before owners held after where
  persists := accounts.persists
  fresh id storage kept := by
    refine (accounts.fresh id storage kept).imp_right ?_
    rintro ⟨shared, root, listed, reaches⟩
    obtain ⟨top, member, above⟩ := needs root listed
    exact ⟨shared, top, member, above.trans reaches⟩
  accounted := accounts.accounted

end Accounts

end Workspace

/-- Whether a step takes storages that an account lists and hands out others in their place or, if
it fails, leaves some behind. -/
def Build.Trades {α : Type} (tree : Tree) (asked : List NodeId) (step : Build α) (work : Workspace)
    (given : List Storage) (taken : α → List Storage) (left : List Storage → Prop) : Prop :=
  ∀ owners, work.Accounted (given ++ owners) →
    step.Ends work (fun value after => work.Accounts tree asked owners (taken value) after)
      fun after => ∃ remains, left remains ∧ work.Accounts tree asked owners remains after

namespace Build

variable {α β : Type} {tree : Tree} {asked roots : List NodeId} {step : Build α}
variable {next : α → Build β} {work : Workspace} {given : List Storage} {taken : α → List Storage}
variable {last : β → List Storage} {left : List Storage → Prop}

theorem Trades.bind (first : Trades tree asked step work given taken left)
    (rest : ∀ value after, step work = .ok value after →
      Trades tree asked (next value) after (taken value) last left) :
    Trades tree asked (step >>= next) work given last left := by
  intro owners account
  refine (first owners account).bind fun value after done accounts => ?_
  obtain ⟨others, account, further⟩ := accounts.exists_further
  refine (rest value after done others account).mono (fun _ _ => further _ _) fun final => ?_
  rintro ⟨remains, here, accounts⟩
  exact ⟨remains, here, further _ _ accounts⟩

/-- A step that is taken while other storages are held. -/
theorem Trades.among (trades : Trades tree asked step work given taken left)
    (extra : List Storage) {held : List Storage} {handed : α → List Storage}
    {behind : List Storage → Prop} (split : held.Perm (given ++ extra))
    (takes : ∀ value, (taken value ++ extra).Perm (handed value))
    (leaves : ∀ remains, left remains → ∃ others, behind others ∧ (remains ++ extra).Perm others) :
    Trades tree asked step work held handed behind := by
  intro owners account
  have account := account.perm (split.append_right owners)
  rw [List.append_assoc] at account
  refine (trades _ account).mono (fun value _ accounts => accounts.beside.perm (takes value))
    fun after => ?_
  rintro ⟨remains, here, accounts⟩
  obtain ⟨others, there, same⟩ := leaves remains here
  exact ⟨others, there, accounts.beside.perm same⟩

/-- A step that never fails. -/
theorem Trades.surely (trades : Trades tree asked step work given taken fun _ => False)
    (extra : List Storage) {held : List Storage} {handed : α → List Storage}
    (split : held.Perm (given ++ extra))
    (takes : ∀ value, (taken value ++ extra).Perm (handed value)) :
    Trades tree asked step work held handed left :=
  trades.among extra split takes fun _ never => never.elim

theorem Trades.mono (trades : Trades tree asked step work given taken left)
    {behind : List Storage → Prop} (leaves : ∀ remains, left remains → behind remains) :
    Trades tree asked step work given taken behind := by
  refine trades.among [] (by simp) (fun _ => by simp) fun remains here => ?_
  exact ⟨remains, leaves remains here, by simp⟩

theorem Trades.needs (trades : Trades tree asked step work given taken left)
    (needs : ∀ id ∈ asked, ∃ root ∈ roots, tree.Reaches root id) :
    Trades tree roots step work given taken left := by
  intro owners account
  refine (trades owners account).mono (fun _ _ accounts => accounts.mono needs) fun after => ?_
  rintro ⟨remains, here, accounts⟩
  exact ⟨remains, here, accounts.mono needs⟩

/-- Steps that go by the workspace. -/
theorem Trades.afterGet {next : Workspace → Build β}
    (rest : Trades tree asked (next work) work given last left) :
    Trades tree asked ((get : Build Workspace) >>= next) work given last left :=
  rest

theorem trades_pure {value : α} (same : given.Perm (taken value)) :
    Trades tree asked (pure value) work given taken left :=
  fun owners account => .of_caches rfl (account.perm (same.append_right owners))

theorem trades_throw {cause : CompileError} (here : left given) :
    Trades tree asked (throw cause) work given taken left :=
  fun _ account => ⟨given, here, .of_caches rfl account⟩

/-- A step that keeps no value and never fails. -/
theorem trades_of_ok {value : α} {after : Workspace} (done : step work = .ok value after)
    (caches : after.caches = work.caches)
    (account : ∀ owners, work.Accounted (given ++ owners) →
      after.Accounted (taken value ++ owners)) :
    Trades tree asked step work given taken left :=
  fun owners before => ends_of_ok done (.of_caches caches (account owners before))

end Build

end NativeExpr
