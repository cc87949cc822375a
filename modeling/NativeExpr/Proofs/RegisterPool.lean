import Mathlib.Data.List.Nodup
import NativeExpr.Options
import NativeExpr.Proofs.Machine.Agreement
import NativeExpr.RegisterPool

/-!
# Sound register pools

A sound pool hands out only registers that may hold values. What it hands
out was not live before, and what it takes back was.
-/

namespace NativeExpr

theorem RegisterSet.nodup_membersIn (set : RegisterSet) (bank : Bank) :
    (set.membersIn bank).Nodup := by
  apply List.Nodup.filter
  apply List.Nodup.map _ List.nodup_range
  intro left right same
  exact (Register.mk.inj same).2

theorem RegisterSet.nodup_toList (set : RegisterSet) : set.toList.Nodup := by
  simp only [toList, Bank.all, List.flatMap_cons, List.flatMap_nil, List.append_nil,
    List.nodup_append]
  refine ⟨nodup_membersIn .., nodup_membersIn .., fun left general right xmm same => ?_⟩
  rw [mem_membersIn] at general xmm
  rw [same, xmm.1] at general
  cases general.1

/-- No bank has more members than it has registers. -/
theorem RegisterSet.countIn_le (set : RegisterSet) (bank : Bank) : set.countIn bank ≤ 16 := by
  refine Nat.le_trans (List.length_filter_le ..) ?_
  rw [List.length_map, List.length_range]
  exact Nat.le_refl _

theorem RegisterSet.contains_ofList {registers : List Register} {register : Register} :
    (RegisterSet.ofList registers).contains register ↔
      register ∈ registers ∧ register.InBank := by
  have folded (set : RegisterSet) : (registers.foldl RegisterSet.insert set).contains register ↔
      set.contains register ∨ register ∈ registers ∧ register.InBank := by
    induction registers generalizing set with
    | nil => simp
    | cons first rest ih =>
      simp only [List.foldl_cons, ih, RegisterSet.contains_insert, Bool.or_eq_true,
        decide_eq_true_eq, List.mem_cons]
      constructor
      · rintro ((member | ⟨rfl, real⟩) | ⟨listed, real⟩)
        · exact .inl member
        · exact .inr ⟨.inl rfl, real⟩
        · exact .inr ⟨.inr listed, real⟩
      · rintro (member | ⟨rfl | listed, real⟩)
        · exact .inl (.inl member)
        · exact .inl (.inr ⟨rfl, real⟩)
        · exact .inr ⟨listed, real⟩
  simpa [RegisterSet.ofList] using folded .empty

/-- Every register that the options allow may hold a value. -/
theorem Options.usable_of_allocatable {options : Options} {register : Register}
    (allowed : options.allocatable.contains register) : register.Usable := by
  have listed := (RegisterSet.contains_ofList.mp allowed).1
  rcases List.mem_append.mp listed with listed | listed
  · have order : ∀ register ∈ Convention.allocationOrder.generalPurpose, register.Usable := by
      decide
    exact order register (List.mem_of_mem_take listed)
  · have order : ∀ register ∈ Convention.allocationOrder.xmm, register.Usable := by decide
    exact order register (List.mem_of_mem_take listed)

namespace RegisterPool

/-- A pool of registers that may hold values. -/
structure Sound (pool : RegisterPool) : Prop where
  usable : ∀ register, pool.allocatable.contains register → register.Usable
  live : ∀ register, pool.live.contains register → pool.allocatable.contains register

variable {pool later : RegisterPool} {register : Register}

theorem Sound.usable_of_live (sound : pool.Sound) (live : pool.live.contains register) :
    register.Usable :=
  sound.usable register (sound.live register live)

theorem sound_new {allocatable : RegisterSet}
    (usable : ∀ register, allocatable.contains register → register.Usable) :
    (new allocatable).Sound :=
  ⟨usable, fun register live => by simp [new] at live⟩

theorem live_assign (pool : RegisterPool) {assigned : Register} (real : assigned.InBank)
    (owner : Option NodeId) :
    (pool.assign assigned owner).live.contains register ↔
      pool.live.contains register ∨ register = assigned := by
  have within : assigned.number < Bank.size := real
  simp [assign, RegisterSet.contains_insert, within]

theorem Sound.assign (sound : pool.Sound) (allowed : pool.allocatable.contains register)
    (owner : Option NodeId) : (pool.assign register owner).Sound where
  usable := sound.usable
  live other live := by
    rcases (live_assign pool (sound.usable register allowed).inBank owner).mp live with live | rfl
    · exact sound.live other live
    · exact allowed

/-- A register that is chosen belongs to the bank and is free. -/
theorem of_choose {bank : Bank} {hint : Option Register} {excluded : RegisterSet}
    (chosen : pool.choose? bank hint excluded = some register) :
    register.bank = bank ∧ pool.allocatable.contains register ∧ ¬pool.live.contains register := by
  simp only [choose?] at chosen
  split at chosen
  · rename_i hinted accepted
    obtain ⟨_, accepts⟩ := Option.filter_eq_some_iff.mp accepted
    cases chosen
    simp only [isFree, Bool.and_eq_true, beq_iff_eq, Bool.not_eq_eq_eq_not, Bool.not_true] at accepts
    exact ⟨accepts.1.1, accepts.1.2.1, by simp [accepts.1.2.2]⟩
  · have member := List.mem_of_mem_head? (Option.mem_def.mpr chosen)
    obtain ⟨own, contained⟩ := RegisterSet.mem_membersIn.mp member
    simp only [freeIn, RegisterSet.contains_diff, RegisterSet.contains_inter, Bool.and_eq_true,
      Bool.not_eq_eq_eq_not, Bool.not_true] at contained
    exact ⟨own, contained.1.1.1, by simp [contained.1.2]⟩

theorem of_allocate {bank : Bank} {owner : Option NodeId} {hint : Option Register}
    {excluded : RegisterSet}
    (allocated : pool.allocate bank owner hint excluded = .ok (register, later)) :
    register.bank = bank ∧ pool.allocatable.contains register ∧
      ¬pool.live.contains register ∧ later = pool.assign register owner := by
  simp only [allocate] at allocated
  split at allocated
  · rename_i chosen
    cases allocated
    obtain ⟨own, allowed, free⟩ := of_choose chosen
    exact ⟨own, allowed, free, rfl⟩
  · cases allocated

theorem of_allocateExactly {owner : Option NodeId}
    (allocated : pool.allocateExactly register owner = .ok later) :
    pool.allocatable.contains register ∧ ¬pool.live.contains register ∧
      later = pool.assign register owner := by
  simp only [allocateExactly] at allocated
  split at allocated
  · cases allocated
  · rename_i allowed
    split at allocated
    · cases allocated
    · rename_i free
      cases allocated
      exact ⟨by simpa using allowed, free, rfl⟩

theorem of_release (released : pool.release register = .ok later) :
    pool.live.contains register ∧ later.allocatable = pool.allocatable ∧
      ∀ other, later.live.contains other ↔ pool.live.contains other ∧ other ≠ register := by
  simp only [release] at released
  split at released
  · rename_i live
    cases released
    exact ⟨live, rfl, fun other => by simp [RegisterSet.contains_erase]⟩
  · cases released

theorem of_transfer {owner : Option NodeId} (transferred : pool.transfer register owner = .ok later) :
    pool.live.contains register ∧ later.allocatable = pool.allocatable ∧ later.live = pool.live := by
  simp only [transfer] at transferred
  split at transferred
  · rename_i live
    cases transferred
    exact ⟨live, rfl, rfl⟩
  · cases transferred

/-- A pool that hands out the same registers, of which no others are live, is as sound. -/
theorem Sound.of_le (sound : pool.Sound) (same : later.allocatable = pool.allocatable)
    (fewer : ∀ register, later.live.contains register → pool.live.contains register) :
    later.Sound where
  usable register allowed := sound.usable register (same ▸ allowed)
  live register live := same ▸ sound.live register (fewer register live)

end RegisterPool

end NativeExpr
