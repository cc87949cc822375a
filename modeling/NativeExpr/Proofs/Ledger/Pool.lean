import NativeExpr.Proofs.Ownership.Basic

/-!
# How many registers are free

Handing a register out takes one from the free registers of its bank and taking it back returns
one, whichever register it is. A pool refuses a register of a bank only if none is free, and what
is live and what is free is together all that it may hand out.
-/

namespace NativeExpr

namespace RegisterSet

variable {smaller larger : RegisterSet} {register : Register}

/-- One more member is one more in its bank. -/
theorem countIn_add (fresh : ¬smaller.contains register)
    (members : ∀ other, larger.contains other ↔ smaller.contains other ∨ other = register)
    (bank : Bank) :
    larger.countIn bank = smaller.countIn bank + if bank = register.bank then 1 else 0 := by
  by_cases own : bank = register.bank
  · subst own
    have listed : (larger.membersIn register.bank).Perm
        (register :: smaller.membersIn register.bank) := by
      refine (List.perm_ext_iff_of_nodup (nodup_membersIn ..) ?_).mpr fun other => ?_
      · refine List.nodup_cons.mpr ⟨fun member => ?_, nodup_membersIn ..⟩
        exact fresh (mem_membersIn.mp member).2
      · simp only [mem_membersIn, List.mem_cons, members]
        constructor
        · rintro ⟨inBank, earlier | rfl⟩
          · exact .inr ⟨inBank, earlier⟩
          · exact .inl rfl
        · rintro (rfl | ⟨inBank, earlier⟩)
          · exact ⟨rfl, .inr rfl⟩
          · exact ⟨inBank, .inl earlier⟩
    simpa only [countIn, if_true, List.length_cons] using listed.length_eq
  · have listed : (larger.membersIn bank).Perm (smaller.membersIn bank) := by
      refine (List.perm_ext_iff_of_nodup (nodup_membersIn ..) (nodup_membersIn ..)).mpr
        fun other => ?_
      simp only [mem_membersIn, members]
      constructor
      · rintro ⟨rfl, earlier | rfl⟩
        · exact ⟨rfl, earlier⟩
        · exact absurd rfl own
      · rintro ⟨inBank, earlier⟩
        exact ⟨inBank, .inl earlier⟩
    simpa only [countIn, if_neg own, Nat.add_zero] using listed.length_eq

/-- A set with more members has no fewer in any bank. -/
theorem countIn_le_of_subset
    (subset : ∀ register, smaller.contains register → larger.contains register) (bank : Bank) :
    smaller.countIn bank ≤ larger.countIn bank := by
  have listed : smaller.membersIn bank ⊆ larger.membersIn bank := by
    intro register member
    obtain ⟨own, contained⟩ := mem_membersIn.mp member
    exact mem_membersIn.mpr ⟨own, subset register contained⟩
  exact ((nodup_membersIn ..).subperm listed).length_le

end RegisterSet

namespace RegisterPool

variable {pool later : RegisterPool} {register : Register} {bank : Bank}

theorem contains_freeIn (pool : RegisterPool) (bank : Bank) (register : Register) :
    (pool.freeIn bank).contains register ↔
      register.bank = bank ∧ pool.allocatable.contains register ∧ ¬pool.live.contains register := by
  simp only [freeIn, RegisterSet.contains_diff, RegisterSet.contains_inter,
    RegisterSet.contains_allIn, Bool.and_eq_true, decide_eq_true_eq, Bool.not_eq_true',
    Bool.not_eq_true]
  constructor
  · rintro ⟨⟨allowed, own, _⟩, free⟩
    exact ⟨own, allowed, free⟩
  · rintro ⟨own, allowed, free⟩
    exact ⟨⟨allowed, own, inBank_of_contains allowed⟩, free⟩

/-- What is live and what is free is what may be handed out. -/
theorem live_add_free
    (within : ∀ register, pool.live.contains register → pool.allocatable.contains register)
    (bank : Bank) :
    pool.live.countIn bank + pool.freeCount bank = pool.allocatable.countIn bank := by
  have listed : (pool.live.membersIn bank ++ (pool.freeIn bank).membersIn bank).Perm
      (pool.allocatable.membersIn bank) := by
    refine (List.perm_ext_iff_of_nodup ?_ (RegisterSet.nodup_membersIn ..)).mpr fun register => ?_
    · refine List.nodup_append.mpr ⟨RegisterSet.nodup_membersIn .., RegisterSet.nodup_membersIn ..,
        ?_⟩
      rintro register live _ free rfl
      rw [RegisterSet.mem_membersIn] at live free
      exact ((contains_freeIn ..).mp free.2).2.2 live.2
    · simp only [List.mem_append, RegisterSet.mem_membersIn, contains_freeIn]
      constructor
      · rintro (⟨own, live⟩ | ⟨own, _, allowed, _⟩)
        · exact ⟨own, within register live⟩
        · exact ⟨own, allowed⟩
      · rintro ⟨own, allowed⟩
        by_cases live : pool.live.contains register
        · exact .inl ⟨own, live⟩
        · exact .inr ⟨own, own, allowed, live⟩
  simpa only [freeCount, RegisterSet.countIn, List.length_append] using listed.length_eq

/-- A pool that has one register more that is live has one fewer that is free. -/
theorem freeCount_take (allowed : pool.allocatable.contains register)
    (free : ¬pool.live.contains register) (same : later.allocatable = pool.allocatable)
    (live : ∀ other, later.live.contains other ↔ pool.live.contains other ∨ other = register)
    (bank : Bank) :
    pool.freeCount bank = later.freeCount bank + if bank = register.bank then 1 else 0 := by
  by_cases own : bank = register.bank
  · refine @RegisterSet.countIn_add _ _ register ?_ (fun other => ?_) bank
    · rw [contains_freeIn, live]
      exact fun taken => taken.2.2 (.inr rfl)
    · simp only [contains_freeIn, same, live, not_or]
      constructor
      · rintro ⟨inBank, allowed, free⟩
        by_cases here : other = register
        · exact .inr here
        · exact .inl ⟨inBank, allowed, free, here⟩
      · rintro (⟨inBank, allowed, free, _⟩ | rfl)
        · exact ⟨inBank, allowed, free⟩
        · exact ⟨own.symm, allowed, free⟩
  · have fewer : (later.freeIn bank).contains = (pool.freeIn bank).contains := by
      funext other
      rw [Bool.eq_iff_iff]
      simp only [contains_freeIn, same, live, not_or]
      constructor
      · rintro ⟨inBank, allowed, free, _⟩
        exact ⟨inBank, allowed, free⟩
      · rintro ⟨inBank, allowed, free⟩
        refine ⟨inBank, allowed, free, ?_⟩
        rintro rfl
        exact own inBank.symm
    simp only [freeCount, RegisterSet.countIn, RegisterSet.membersIn, fewer, if_neg own,
      Nat.add_zero]

theorem freeCount_assign (allowed : pool.allocatable.contains register)
    (free : ¬pool.live.contains register) (owner : Option NodeId) (bank : Bank) :
    pool.freeCount bank =
      (pool.assign register owner).freeCount bank + if bank = register.bank then 1 else 0 := by
  have same : (pool.assign register owner).allocatable = pool.allocatable := rfl
  exact freeCount_take allowed free same
    (fun _ => live_assign pool (inBank_of_contains allowed) owner) bank

theorem Sound.freeCount_release (sound : pool.Sound) (released : pool.release register = .ok later)
    (bank : Bank) :
    later.freeCount bank = pool.freeCount bank + if bank = register.bank then 1 else 0 := by
  obtain ⟨held, same, live⟩ := of_release released
  refine freeCount_take (same ▸ sound.live register held) (fun still => ?_) same.symm
    (fun other => ?_) bank
  · exact ((live register).mp still).2 rfl
  · rw [live]
    by_cases here : other = register
    · simp [here, held]
    · simp [here]

/-- One that is handed out was free. -/
theorem freeCount_of_allocate {owner : Option NodeId} {hint : Option Register}
    {excluded : RegisterSet}
    (allocated : pool.allocate bank owner hint excluded = .ok (register, later)) :
    0 < pool.freeCount bank := by
  obtain ⟨rfl, allowed, free, _⟩ := of_allocate allocated
  have count := pool.freeCount_assign allowed free owner register.bank
  rw [if_pos rfl] at count
  exact count ▸ Nat.succ_pos _

/-- None is refused while one is free. -/
theorem freeCount_of_refused {owner : Option NodeId} {hint : Option Register}
    {cause : RegisterError} (refused : pool.allocate bank owner hint .empty = .error cause) :
    pool.freeCount bank = 0 := by
  simp only [allocate] at refused
  split at refused
  · cases refused
  · rename_i none
    simp only [choose?] at none
    split at none
    · cases none
    · have same : (((pool.freeIn bank).diff .empty).membersIn bank) =
          (pool.freeIn bank).membersIn bank := by
        have contains : ((pool.freeIn bank).diff .empty).contains = (pool.freeIn bank).contains := by
          funext register
          simp [RegisterSet.contains_diff]
        simp only [RegisterSet.membersIn, contains]
      rw [RegisterSet.lowestIn?, same, List.head?_eq_none_iff] at none
      simp only [freeCount, RegisterSet.countIn, none, List.length_nil]

end RegisterPool

end NativeExpr
