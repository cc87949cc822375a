import NativeExpr.Proofs.Machine.Agreement
import NativeExpr.Proofs.Machine.Writing

/-!
# Registers on the stack

Pushing registers leaves their values on the stack and everything above it alone; popping
them in the opposite order puts the values back, whatever the registers have held in the
meantime.
-/

namespace NativeExpr.Machine

/-- Whether the words from an address on are the values of registers. -/
def Stacked (machine : Machine) (values : Register → Word) : Word → List Register → Prop
  | _, [] => True
  | address, register :: rest =>
    machine.load address = values register ∧ machine.Stacked values (address + 8) rest

variable {machine later : Machine} {values : Register → Word} {address : Word}
variable {first second registers : List Register}

theorem stacked_append :
    machine.Stacked values address (first ++ second) ↔
      machine.Stacked values address first ∧
        machine.Stacked values (address + 8 * BitVec.ofNat 64 first.length) second := by
  induction first generalizing address with
  | nil => simp [Stacked]
  | cons register rest ih =>
    have next : address + 8 + 8 * BitVec.ofNat 64 rest.length =
        address + 8 * BitVec.ofNat 64 (register :: rest).length := by
      rw [List.length_cons, BitVec.ofNat_add, BitVec.mul_add, BitVec.add_assoc,
        BitVec.add_comm (8 : Word)]
      rfl
    simp only [List.cons_append, Stacked, ih, next, and_assoc]

/-- Words on the stack are determined by their bytes. -/
theorem Stacked.congr (stacked : machine.Stacked values address registers)
    (small : registers.length < 2 ^ 32)
    (same : ∀ place : Word, (place - address).toNat < 8 * registers.length →
      later.memory place = machine.memory place) :
    later.Stacked values address registers := by
  induction registers generalizing address with
  | nil => trivial
  | cons register rest ih =>
    obtain ⟨here, above⟩ := stacked
    rw [List.length_cons] at small same
    constructor
    · rw [← here]
      apply load_congr
      intro position within
      apply same
      rw [add_sub_address, BitVec.toNat_ofNat]
      omega
    · apply ih above (by omega)
      intro place within
      apply same
      simp only [BitVec.toNat_sub, BitVec.toNat_add, BitVec.reduceToNat] at within
      rw [BitVec.toNat_sub]
      omega

theorem Stacked.of_memory (stacked : machine.Stacked values address registers)
    (same : later.memory = machine.memory) : later.Stacked values address registers := by
  induction registers generalizing address with
  | nil => trivial
  | cons register rest ih =>
    obtain ⟨here, above⟩ := stacked
    refine ⟨?_, ih above⟩
    rw [← here, load, load, same]

theorem Stacked.values_congr {others : Register → Word}
    (stacked : machine.Stacked values address registers)
    (same : ∀ register ∈ registers, others register = values register) :
    machine.Stacked others address registers := by
  induction registers generalizing address with
  | nil => trivial
  | cons register rest ih =>
    obtain ⟨here, above⟩ := stacked
    exact ⟨here.trans (same register List.mem_cons_self).symm,
      ih above fun other listed => same other (List.mem_cons_of_mem _ listed)⟩

/-- What a push does. -/
theorem push_effect (natives : Natives) (machine : Machine) (register : Register) :
    (∀ other : Register, other.InBank → other ≠ .rsp →
      (Request.effect natives machine (.push register)).get other = machine.get other) ∧
    (Request.effect natives machine (.push register)).get .rsp = machine.get .rsp - 8 ∧
    (Request.effect natives machine (.push register)).load (machine.get .rsp - 8) =
      machine.get register ∧
    (∀ place : Word, 8 ≤ (place - (machine.get .rsp - 8)).toNat →
      (Request.effect natives machine (.push register)).memory place = machine.memory place) := by
  refine ⟨fun other real different => ?_, ?_, ?_, fun place outside => ?_⟩
  · rw [Request.effect, get_store, get_set_other _ _ (by decide) real different]
  · rw [Request.effect, get_store, get_set_self]
  · rw [Request.effect, load_store]
  · rw [Request.effect, memory_store_of_le _ _ outside, memory_set]

/-- Pushing registers lowers the stack pointer and leaves their values on the stack. -/
theorem pushes_effect (natives : Natives) (machine : Machine) {registers : List Register}
    (small : registers.length < 2 ^ 32)
    (usable : ∀ register ∈ registers, register.InBank ∧ register ≠ .rsp) :
    let later := Request.effects natives machine (registers.map .push)
    (∀ other : Register, other.InBank → other ≠ .rsp → later.get other = machine.get other) ∧
    later.get .rsp = machine.get .rsp - 8 * BitVec.ofNat 64 registers.length ∧
    (∀ place : Word, 8 * registers.length ≤ (place - later.get .rsp).toNat →
      later.memory place = machine.memory place) ∧
    later.Stacked machine.get (later.get .rsp) registers.reverse := by
  induction registers generalizing machine with
  | nil => simp [Stacked]
  | cons register rest ih =>
    intro later
    obtain ⟨kept, lowered, stored, memory⟩ := push_effect natives machine register
    obtain ⟨restKept, restLowered, restMemory, restStacked⟩ :=
      ih (Request.effect natives machine (.push register)) (by simp at small; omega)
        fun other listed => usable other (List.mem_cons_of_mem _ listed)
    rw [List.length_cons] at small ⊢
    have bottom : later.get .rsp =
        machine.get .rsp - 8 * BitVec.ofNat 64 (rest.length + 1) := by
      refine restLowered.trans ?_
      rw [lowered, BitVec.sub_sub, BitVec.ofNat_add, BitVec.mul_add, BitVec.add_comm]
      rfl
    have words : (8 * BitVec.ofNat 64 (rest.length + 1)).toNat = 8 * (rest.length + 1) := by
      simp only [BitVec.toNat_mul, BitVec.toNat_ofNat, BitVec.reduceToNat]
      omega
    refine ⟨fun other real different => ?_, bottom, fun place outside => ?_, ?_⟩
    · exact (restKept other real different).trans (kept other real different)
    · refine (restMemory place ?_).trans (memory place ?_)
      · exact Nat.le_trans (by omega) outside
      · rw [bottom, BitVec.toNat_sub, BitVec.toNat_sub, words] at outside
        simp only [BitVec.toNat_sub, BitVec.reduceToNat]
        omega
    · rw [List.reverse_cons, stacked_append]
      refine ⟨restStacked.values_congr fun other listed => ?_, ?_⟩
      · obtain ⟨real, different⟩ := usable other (List.mem_cons_of_mem _ (by simpa using listed))
        exact (kept other real different).symm
      · -- The word of the first register is above those of the others.
        have above : later.get .rsp + 8 * BitVec.ofNat 64 rest.reverse.length =
            machine.get .rsp - 8 := by
          rw [List.length_reverse, ← lowered]
          exact (congrArg (· + _) restLowered).trans (BitVec.sub_add_cancel _ _)
        refine ⟨?_, trivial⟩
        rw [above, ← stored]
        refine load_congr_above restMemory ?_ ?_ <;>
          simp only [restLowered, lowered, BitVec.toNat_sub, BitVec.toNat_ofNat,
            BitVec.toNat_mul, BitVec.reduceToNat] <;> omega

/-- Pushing registers writes the words below the stack pointer, one for each. -/
theorem writes_pushes (natives : Natives) {machine : Machine} {registers : List Register}
    {allowed : Word → Prop}
    (each : ∀ position < registers.length,
      allowed (machine.get .rsp - 8 * BitVec.ofNat 64 (position + 1))) :
    Request.Writes natives allowed machine (registers.map .push) := by
  induction registers generalizing machine with
  | nil => trivial
  | cons register rest ih =>
    obtain ⟨_, lowered, _, _⟩ := push_effect natives machine register
    refine ⟨fun place target => ?_, ih fun position within => ?_⟩
    · obtain rfl := Option.some.inj target
      exact each 0 (Nat.zero_lt_succ _)
    · rw [lowered]
      have next := each (position + 1) (Nat.succ_lt_succ within)
      rwa [BitVec.ofNat_add, BitVec.mul_add, BitVec.add_comm, ← BitVec.sub_sub] at next

/-- What a pop does. -/
theorem pop_effect (natives : Natives) (machine : Machine) {register : Register}
    (real : register.InBank) (different : register ≠ .rsp) :
    (Request.effect natives machine (.pop register)).get register =
        machine.load (machine.get .rsp) ∧
    (∀ other : Register, other.InBank → other ≠ .rsp → other ≠ register →
      (Request.effect natives machine (.pop register)).get other = machine.get other) ∧
    (Request.effect natives machine (.pop register)).get .rsp = machine.get .rsp + 8 ∧
    (Request.effect natives machine (.pop register)).memory = machine.memory := by
  refine ⟨?_, fun other otherReal notStack notPopped => ?_, ?_, ?_⟩
  · rw [Request.effect, get_set_self]
  · rw [Request.effect, get_set_other _ _ real otherReal notPopped,
      get_set_other _ _ (by decide) otherReal notStack]
  · rw [Request.effect, get_set_other _ _ real (by decide) different.symm, get_set_self]
  · rw [Request.effect, memory_set, memory_set]

/-- Popping registers gives them the values on the stack. -/
theorem pops_effect (natives : Natives) {machine : Machine} {registers : List Register}
    {values : Register → Word} (distinct : registers.Nodup)
    (usable : ∀ register ∈ registers, register.InBank ∧ register ≠ .rsp)
    (stacked : machine.Stacked values (machine.get .rsp) registers) :
    let later := Request.effects natives machine (registers.map .pop)
    (∀ register ∈ registers, later.get register = values register) ∧
    (∀ other : Register, other.InBank → other ≠ .rsp → other ∉ registers →
      later.get other = machine.get other) ∧
    later.get .rsp = machine.get .rsp + 8 * BitVec.ofNat 64 registers.length ∧
    later.memory = machine.memory := by
  induction registers generalizing machine with
  | nil => simp
  | cons register rest ih =>
    intro later
    obtain ⟨fresh, restDistinct⟩ := List.nodup_cons.mp distinct
    obtain ⟨real, different⟩ := usable register List.mem_cons_self
    obtain ⟨popped, kept, raised, memory⟩ := pop_effect natives machine real different
    obtain ⟨here, above⟩ := stacked
    have restStacked : (Request.effect natives machine (.pop register)).Stacked values
        ((Request.effect natives machine (.pop register)).get .rsp) rest := by
      rw [raised]
      exact above.of_memory memory
    obtain ⟨restPopped, restKept, restRaised, restMemory⟩ := ih restDistinct
      (fun other listed => usable other (List.mem_cons_of_mem _ listed)) restStacked
    refine ⟨fun other listed => ?_, fun other otherReal notStack notListed => ?_, ?_, ?_⟩
    · rcases List.mem_cons.mp listed with rfl | listed
      · exact (restKept other real different fresh).trans (popped.trans here)
      · exact restPopped other listed
    · rw [List.mem_cons, not_or] at notListed
      exact (restKept other otherReal notStack notListed.2).trans
        (kept other otherReal notStack notListed.1)
    · refine restRaised.trans ?_
      rw [raised, List.length_cons, BitVec.ofNat_add, BitVec.mul_add, BitVec.add_assoc,
        BitVec.add_comm (8 : Word)]
      rfl
    · exact restMemory.trans memory

end NativeExpr.Machine
