import Mathlib.Data.List.Perm.Basic
import NativeExpr.Proofs.Compilation

/-!
# Owners of registers and slots

A register or a slot that is handed out is owned by the storage whose holder has to give it back:
the kept value of a node, or a storage that is held by somebody else. A workspace is balanced when
the live registers and the slots that are not free are what is owned, each by one storage.
-/

namespace NativeExpr

/-- The slot of a storage that has one to give back. -/
def Storage.ownedSlot? (storage : Storage) : Option Offset :=
  match storage.location with
  | .slot offset => if storage.owned then some offset else none
  | _ => none

theorem Storage.ownedSlot_of_isOwned {storage : Storage} {offset : Offset}
    (owned : storage.isOwned = true) (location : storage.location = .slot offset) :
    storage.ownedSlot? = some offset ∧ storage.ownedRegister? = none := by
  obtain ⟨_, kind, mine⟩ := storage
  cases location
  cases mine <;>
    simp_all [ownedSlot?, ownedRegister?, isOwned, Storage.register?, Location.register?]

theorem Storage.ownedSlot_of_ownedRegister {storage : Storage} {register : Register}
    (owned : storage.ownedRegister? = some register) : storage.ownedSlot? = none := by
  obtain ⟨location, _⟩ := location_of_ownedRegister owned
  simp [ownedSlot?, location]

theorem Storage.owns_nothing {storage : Storage} (shared : storage.isOwned = false) :
    storage.ownedRegister? = none ∧ storage.ownedSlot? = none := by
  obtain ⟨location, kind, mine⟩ := storage
  cases location <;> cases mine <;> simp_all [ownedSlot?, ownedRegister?, isOwned]

theorem Storage.isOwned_share (storage : Storage) : storage.share.isOwned = false := by
  obtain ⟨location, kind, owned⟩ := storage
  cases location <;> rfl

namespace RegisterPool

variable {pool later : RegisterPool} {register other : Register} {owner : Option NodeId}

theorem inBank_of_contains {set : RegisterSet} (member : set.contains register) :
    register.InBank :=
  RegisterSet.number_lt_of_contains member

/-- Registers of the machine have records of their own. -/
theorem index_injective (real : register.InBank) (otherReal : other.InBank)
    (same : register.index = other.index) : register = other := by
  obtain ⟨bank, number⟩ := register
  obtain ⟨otherBank, otherNumber⟩ := other
  simp only [Register.InBank, Bank.size] at real otherReal
  cases bank <;> cases otherBank <;>
    simp only [Register.index, Bank.index, Bank.size] at same <;> first | omega | skip
  all_goals
    obtain rfl : number = otherNumber := by omega
    rfl

theorem index_lt (real : register.InBank) : register.index < 32 := by
  obtain ⟨bank, number⟩ := register
  simp only [Register.InBank, Bank.size] at real
  cases bank <;> simp only [Register.index, Bank.index, Bank.size] <;> omega

/-- Recording an owner changes the record of one register. -/
theorem owner_setIfInBounds (real : register.InBank) (otherReal : other.InBank)
    (owners : Vector (Option NodeId) 32) (different : other ≠ register) :
    (owners.setIfInBounds register.index owner)[other.index]? = owners[other.index]? := by
  apply Vector.getElem?_setIfInBounds_ne
  intro same
  exact different (index_injective otherReal real same.symm)

theorem owner_assign (real : register.InBank) :
    (pool.assign register owner).owner? register = some owner := by
  simp [owner?, assign, index_lt real]

theorem owner_assign_other (real : register.InBank) (live : pool.live.contains other)
    (different : other ≠ register) : (pool.assign register owner).owner? other = pool.owner? other :=
  owner_setIfInBounds real (inBank_of_contains live) pool.owners different

theorem owner_release_other (released : pool.release register = .ok later)
    (live : pool.live.contains other) (different : other ≠ register) :
    later.owner? other = pool.owner? other := by
  simp only [release] at released
  split at released
  · rename_i held
    cases released
    exact owner_setIfInBounds (inBank_of_contains held) (inBank_of_contains live) pool.owners
      different
  · cases released

theorem owner_transfer (transferred : pool.transfer register owner = .ok later) :
    later.owner? register = some owner ∧
      ∀ other, pool.live.contains other → other ≠ register → later.owner? other = pool.owner? other := by
  simp only [transfer] at transferred
  split at transferred
  · rename_i held
    cases transferred
    refine ⟨by simp [owner?, index_lt (inBank_of_contains held)], fun other live different => ?_⟩
    exact owner_setIfInBounds (inBank_of_contains held) (inBank_of_contains live) pool.owners
      different
  · cases transferred

/-- Whether the live registers of a pool are the given ones, each listed once. -/
structure HeldBy (pool : RegisterPool) (registers : List Register) : Prop where
  live : ∀ register, pool.live.contains register ↔ register ∈ registers
  distinct : registers.Nodup

namespace HeldBy

variable {registers others : List Register}

theorem perm (held : pool.HeldBy registers) (same : registers.Perm others) : pool.HeldBy others where
  live register := (held.live register).trans same.mem_iff
  distinct := same.nodup_iff.mp held.distinct

/-- A register that was free is live. -/
theorem assign (held : pool.HeldBy registers) (allowed : pool.allocatable.contains register)
    (free : ¬pool.live.contains register) (owner : Option NodeId) :
    (pool.assign register owner).HeldBy (register :: registers) where
  live other := by
    rw [live_assign _ (inBank_of_contains allowed), held.live, List.mem_cons, or_comm]
  distinct := List.nodup_cons.mpr ⟨fun member => free ((held.live register).mpr member), held.distinct⟩

/-- A register that is given back is live no more. -/
theorem release (held : pool.HeldBy (register :: registers))
    (released : pool.release register = .ok later) : later.HeldBy registers := by
  obtain ⟨absent, distinct⟩ := List.nodup_cons.mp held.distinct
  obtain ⟨_, _, remains⟩ := of_release released
  refine ⟨fun other => ?_, distinct⟩
  rw [remains, held.live, List.mem_cons]
  constructor
  · rintro ⟨rfl | member, different⟩
    · exact absurd rfl different
    · exact member
  · intro member
    refine ⟨.inr member, ?_⟩
    rintro rfl
    exact absent member

end HeldBy

end RegisterPool

namespace Workspace

/-- The slots of the frame that are for values without a register. -/
def temporaries (work : Workspace) : List Offset :=
  match work.routine with
  | some routine => (Frame.new routine.frame.homes.length work.options.tempSlots).free
  | none => []

/-- Those of them that are not handed out. -/
def freeSlots (work : Workspace) : List Offset :=
  match work.routine with
  | some routine => routine.frame.free
  | none => []

/-- Whether what is handed out is owned by the given storages, each register and each slot by
one of them. -/
structure OwnedBy (work : Workspace) (owners : List Storage) : Prop where
  live : ∀ register,
    work.pool.live.contains register ↔ register ∈ owners.filterMap Storage.ownedRegister?
  registers : (owners.filterMap Storage.ownedRegister?).Nodup
  slots : (work.freeSlots ++ owners.filterMap Storage.ownedSlot?).Perm work.temporaries

/-- The storages of the values that are kept and of those that are held otherwise. -/
def storages (work : Workspace) (held : List Storage) : List Storage :=
  work.caches.toList.map Prod.snd ++ held

/-- Whether what is handed out is owned by the values that are kept and by the storages that are
held otherwise, each register and each slot once. -/
def Balanced (work : Workspace) (held : List Storage) : Prop := work.OwnedBy (work.storages held)

variable {work later : Workspace} {owners others held : List Storage} {storage : Storage}
variable {routine : Routine} {register : Register} {id : NodeId}

theorem mem_storages : storage ∈ work.storages held ↔
    (∃ id : NodeId, work.caches[id]? = some storage) ∨ storage ∈ held := by
  simp only [storages, List.mem_append, List.mem_map, Prod.exists, exists_eq_right,
    Std.TreeMap.mem_toList_iff_getElem?_eq_some]

theorem storages_of_caches (same : later.caches = work.caches) (held : List Storage) :
    later.storages held = work.storages held := by
  rw [storages, storages, same]

/-- A storage that is held comes first, in some order. -/
theorem perm_storages (work : Workspace) (given held : List Storage) :
    (work.storages (given ++ held)).Perm (given ++ work.storages held) := by
  simp only [storages, ← List.append_assoc]
  exact List.perm_append_comm.append_right held

/-- The value of a node that was not kept joins the others. -/
theorem perm_storages_insert (uncached : work.caches[id]? = none) (held : List Storage) :
    ({ work with caches := work.caches.insert id storage } : Workspace).storages held |>.Perm
      (storage :: work.storages held) := by
  have others : work.caches.toList.filter (fun entry => !id == entry.1) = work.caches.toList := by
    rw [List.filter_eq_self]
    intro entry member
    have kept := Std.TreeMap.mem_toList_iff_getElem?_eq_some.mp member
    have different : id ≠ entry.1 := by
      rintro rfl
      rw [uncached] at kept
      cases kept
    simpa using different
  have entries := Std.TreeMap.toList_insert_perm (t := work.caches) (k := id) (v := storage)
  simp only [Bool.not_eq_true, Bool.decide_eq_false, others] at entries
  exact (entries.map Prod.snd).append_right held

namespace OwnedBy

theorem heldBy (owned : work.OwnedBy owners) :
    work.pool.HeldBy (owners.filterMap Storage.ownedRegister?) :=
  ⟨owned.live, owned.registers⟩

theorem perm (owned : work.OwnedBy owners) (same : owners.Perm others) : work.OwnedBy others where
  live register := (owned.live register).trans (same.filterMap _).mem_iff
  registers := (same.filterMap _).nodup_iff.mp owned.registers
  slots := ((same.filterMap _).symm.append_left _).trans owned.slots

/-- Whoever owns the same registers and slots may take the place of an owner. -/
theorem congr (owned : work.OwnedBy owners)
    (registers : others.filterMap Storage.ownedRegister? = owners.filterMap Storage.ownedRegister?)
    (slots : others.filterMap Storage.ownedSlot? = owners.filterMap Storage.ownedSlot?) :
    work.OwnedBy others where
  live := registers ▸ owned.live
  registers := registers ▸ owned.registers
  slots := slots ▸ owned.slots

/-- Nothing changes where the live registers and the slots are the same. -/
theorem unchanged (owned : work.OwnedBy owners) (live : later.pool.live = work.pool.live)
    (free : later.freeSlots = work.freeSlots) (temporaries : later.temporaries = work.temporaries) :
    later.OwnedBy owners where
  live := live ▸ owned.live
  registers := owned.registers
  slots := by rw [free, temporaries]; exact owned.slots

theorem drop (owned : work.OwnedBy (storage :: owners)) (shared : storage.isOwned = false) :
    work.OwnedBy owners := by
  obtain ⟨register, slot⟩ := Storage.owns_nothing shared
  exact owned.congr (List.filterMap_cons_none register).symm (List.filterMap_cons_none slot).symm

theorem add (owned : work.OwnedBy owners) (shared : storage.isOwned = false) :
    work.OwnedBy (storage :: owners) := by
  obtain ⟨register, slot⟩ := Storage.owns_nothing shared
  exact owned.congr (List.filterMap_cons_none register) (List.filterMap_cons_none slot)

/-- Owned registers are live. -/
theorem live_of_mem (owned : work.OwnedBy owners) (member : storage ∈ owners)
    (owns : storage.ownedRegister? = some register) : work.pool.live.contains register :=
  (owned.live register).mpr (List.mem_filterMap.mpr ⟨storage, member, owns⟩)

/-- A register that is owned by one storage is owned by no other one. -/
theorem ne_of_mem (owned : work.OwnedBy (storage :: owners)) {other : Storage}
    {otherRegister : Register} (owns : storage.ownedRegister? = some register)
    (member : other ∈ owners) (otherOwns : other.ownedRegister? = some otherRegister) :
    otherRegister ≠ register := by
  have distinct := owned.registers
  rw [List.filterMap_cons_some owns, List.nodup_cons] at distinct
  rintro rfl
  exact distinct.1 (List.mem_filterMap.mpr ⟨other, member, otherOwns⟩)

/-- A register that was free is owned by the storage that it is handed out to. -/
theorem assign (owned : work.OwnedBy owners) (allowed : work.pool.allocatable.contains register)
    (free : ¬work.pool.live.contains register) (owner : Option NodeId) (kind : Kind) :
    ({ work with pool := work.pool.assign register owner } : Workspace).OwnedBy
      (.own (.register register) kind :: owners) := by
  have owns : (Storage.own (.register register) kind).ownedRegister? = some register := rfl
  have slot : (Storage.own (.register register) kind).ownedSlot? = none := rfl
  have held := owned.heldBy.assign allowed free owner
  rw [← List.filterMap_cons_some owns] at held
  exact ⟨held.live, held.distinct, by rw [List.filterMap_cons_none slot]; exact owned.slots⟩

/-- A register is given back by its owner. -/
theorem giveBackRegister (owned : work.OwnedBy (storage :: owners)) {pool : RegisterPool}
    (owns : storage.ownedRegister? = some register) (released : work.pool.release register = .ok pool) :
    ({ work with pool := pool } : Workspace).OwnedBy owners := by
  have held := owned.heldBy
  have slots := owned.slots
  rw [List.filterMap_cons_some owns] at held
  rw [List.filterMap_cons_none (Storage.ownedSlot_of_ownedRegister owns)] at slots
  have remains := held.release released
  exact ⟨remains.live, remains.distinct, slots⟩

/-- The first free slot is owned by the storage that it is handed out to. -/
theorem take (owned : work.OwnedBy owners) (begun : work.routine = some routine) {offset : Offset}
    {rest : List Offset} (free : routine.frame.free = offset :: rest) {kind : Kind} :
    ({ work with routine := some { routine with
        frame := { routine.frame with free := rest } } } : Workspace).OwnedBy
      (.own (.slot offset) kind :: owners) where
  live := owned.live
  registers := owned.registers
  slots := by
    have slots := owned.slots
    simp only [freeSlots, temporaries, begun, free] at slots
    exact List.perm_middle.trans slots

/-- A slot is given back by its owner. -/
theorem giveBackSlot (owned : work.OwnedBy (storage :: owners)) (begun : work.routine = some routine)
    {offset : Offset} (owns : storage.isOwned = true) (location : storage.location = .slot offset) :
    ({ work with routine := some { routine with
        frame := routine.frame.release offset } } : Workspace).OwnedBy owners := by
  obtain ⟨slot, register⟩ := Storage.ownedSlot_of_isOwned owns location
  have live := owned.live
  have distinct := owned.registers
  have slots := owned.slots
  rw [List.filterMap_cons_none register] at distinct
  simp only [List.filterMap_cons_none register] at live
  rw [List.filterMap_cons_some slot] at slots
  simp only [freeSlots, temporaries, begun] at slots
  exact ⟨live, distinct, List.perm_middle.symm.trans slots⟩

end OwnedBy

theorem Balanced.perm (balanced : work.Balanced held) {others : List Storage}
    (same : held.Perm others) : work.Balanced others :=
  OwnedBy.perm balanced (same.append_left _)

/-- A storage that is held may become the kept value of a node that had none. -/
theorem Balanced.keep (balanced : work.Balanced (storage :: held))
    (uncached : work.caches[id]? = none) :
    ({ work with caches := work.caches.insert id storage } : Workspace).Balanced held := by
  have owned := OwnedBy.perm balanced
    ((work.perm_storages [storage] held).trans (perm_storages_insert uncached held).symm)
  exact owned.unchanged rfl rfl rfl

theorem Balanced.add (balanced : work.Balanced held) (shared : storage.isOwned = false) :
    work.Balanced (storage :: held) :=
  OwnedBy.perm (OwnedBy.add balanced shared) (work.perm_storages [storage] held).symm

/-- Before a function is begun nothing is handed out if no register is live and no value kept. -/
theorem balanced_of_empty (live : work.pool.live = .empty) (caches : work.caches = ∅)
    (unbegun : work.routine = none) : work.Balanced [] := by
  have none : work.storages [] = [] := by rw [storages, caches]; rfl
  rw [Balanced, none]
  refine ⟨fun register => by simp [live], List.nodup_nil, ?_⟩
  simp only [freeSlots, temporaries, unbegun]
  exact .refl _

end Workspace

end NativeExpr
