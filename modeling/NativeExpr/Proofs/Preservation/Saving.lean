import NativeExpr.Proofs.Preservation.Calling
import NativeExpr.Proofs.Preservation.Placement

/-!
# Registers saved around a call

The registers that a callee may overwrite are pushed before a call and popped after it.
`Run.Saves` says of a state in between that those registers are on the stack, and that all
else which is taken at a site is as it was there. Pushing more registers, the call itself and
the capture of its result keep it so, and popping the registers brings back all of them.
-/

namespace NativeExpr

theorem RegisterSet.length_toList (set : RegisterSet) : set.toList.length ≤ 32 := by
  have general := set.countIn_le .generalPurpose
  have xmm := set.countIn_le .xmm
  simp only [countIn] at general xmm
  simp only [toList, Bank.all, List.flatMap_cons, List.flatMap_nil, List.append_nil,
    List.length_append]
  omega

/-- Live registers may be pushed and popped. -/
theorem RegisterPool.Sound.pushable {pool : RegisterPool} {registers : List Register}
    (sound : pool.Sound) (live : ∀ register ∈ registers, pool.live.contains register) :
    ∀ register ∈ registers, register.InBank ∧ register ≠ .rsp := by
  intro register member
  have usable := sound.usable_of_live (live register member)
  exact ⟨usable.inBank, usable.ne_rsp⟩

namespace Machine

variable {machine later : Machine} {registers : List Register}

/-- Whether registers have been pushed: they are on the stack, and the other registers and all
that is above are as they were. -/
structure Pushed (machine : Machine) (registers : List Register) (later : Machine) : Prop where
  kept : ∀ register : Register, register.InBank → register ≠ .rsp →
    later.get register = machine.get register
  depth : later.depth = machine.depth + 8 * registers.length
  lowered : later.get .rsp = machine.get .rsp - 8 * BitVec.ofNat 64 registers.length
  memory : ∀ place, 0 < machine.below place → machine.below place ≤ machine.depth →
    later.memory place = machine.memory place
  stacked : later.Stacked machine.get (later.get .rsp) registers.reverse

theorem pushed_effects (natives : Natives) (machine : Machine) {registers : List Register}
    (few : registers.length ≤ 64)
    (usable : ∀ register ∈ registers, register.InBank ∧ register ≠ .rsp)
    (room : machine.depth + 512 < 2 ^ 64) :
    machine.Pushed registers (Request.effects natives machine (registers.map .push)) := by
  obtain ⟨kept, lowered, memory, stacked⟩ := pushes_effect natives machine (by omega) usable
  generalize Request.effects natives machine (registers.map .push) = later at *
  have base : later.get .rbp = machine.get .rbp := kept .rbp (by decide) (by decide)
  have words : (8 * BitVec.ofNat 64 registers.length).toNat = 8 * registers.length := by
    simp only [BitVec.toNat_mul, BitVec.toNat_ofNat, BitVec.reduceToNat]
    omega
  refine ⟨kept, ?_, lowered, fun place inside within => memory place ?_, stacked⟩
  · simp only [depth, below, base, lowered, BitVec.toNat_sub, words] at room ⊢
    omega
  · simp only [depth, below, lowered, BitVec.toNat_sub, words] at room inside within ⊢
    omega

theorem Pushed.base (pushed : machine.Pushed registers later) :
    later.get .rbp = machine.get .rbp :=
  pushed.kept .rbp (by decide) (by decide)

theorem Pushed.register {register : Register} (pushed : machine.Pushed registers later)
    (usable : register.Usable) : later.get register = machine.get register :=
  pushed.kept register usable.inBank usable.ne_rsp

/-- The stack holds the values that the registers have now. -/
theorem Pushed.stacked_self (pushed : machine.Pushed registers later)
    (usable : ∀ register ∈ registers, register.InBank ∧ register ≠ .rsp) :
    later.Stacked later.get (later.get .rsp) registers.reverse :=
  pushed.stacked.values_congr fun register listed =>
    have real := usable register (List.mem_reverse.mp listed)
    pushed.kept register real.1 real.2

/-- What is in registers that may hold values and in slots of the frame is left alone. -/
theorem Pushed.value {location : Location} (pushed : machine.Pushed registers later)
    (usable : ∀ register, location = .register register → register.Usable)
    (within : ∀ slot, location = .slot slot →
      64 ≤ machine.below (machine.slot slot) ∧ machine.below (machine.slot slot) ≤ machine.depth) :
    later.value location = machine.value location := by
  cases location with
  | register register => exact pushed.register (usable register rfl)
  | slot slot =>
    obtain ⟨low, high⟩ := within slot rfl
    simp only [Machine.value, pushed.base]
    apply Machine.load_congr
    intro position within
    have here := machine.below_add (by omega : position ≤ machine.below (machine.slot slot))
    exact pushed.memory (machine.slot slot + BitVec.ofNat 64 position) (by omega) (by omega)
  | constant bits => rfl

end Machine

/-- What is pushed below the saved registers of a frame is written there. -/
theorem Machine.writes_beneath (natives : Natives) {machine : Machine}
    {registers : List Register} {limit : Nat} (bounded : limit ≤ 2 ^ 63)
    (above : 56 ≤ machine.depth) (room : machine.depth + 8 * registers.length ≤ limit) :
    Request.Writes natives (fun place => 64 ≤ machine.below place ∧ machine.below place ≤ limit)
      machine (registers.map .push) := by
  apply writes_pushes natives
  intro position within
  simp only [depth, below, BitVec.toNat_sub, BitVec.toNat_mul, BitVec.toNat_ofNat,
    BitVec.reduceToNat] at above room ⊢
  omega

namespace Run

variable {run : Run} {site : Site} {saved more : List Register} {machine : Machine}

/-- A state in which registers are saved on the stack and nothing else is lost that is taken at
a site. -/
structure Saves (run : Run) (site : Site) (saved : List Register) (machine : Machine) : Prop where
  base : machine.get .rbp = (run.state site.routine).get .rbp
  registers : ∀ register, site.work.pool.live.contains register → register ∉ saved →
    machine.get register = (run.state site.routine).get register
  memory : ∀ place, 0 < (run.state site.routine).below place →
    (run.state site.routine).below place ≤ (run.state site.routine).depth →
    (∀ slot ∈ site.routine.frame.free,
      8 ≤ (place - (run.state site.routine).slot slot).toNat) →
    machine.memory place = (run.state site.routine).memory place
  stacked : machine.Stacked (run.state site.routine).get (machine.get .rsp) saved.reverse
  /-- The saved registers are below the body of the frame. -/
  beneath : 56 + site.routine.frame.size.toNat + 8 * saved.length ≤ machine.depth
  deep : (run.state site.routine).depth ≤ machine.depth
  few : saved.length ≤ 64

/-- Nothing of a slot is below the body of the frame. -/
theorem Consistent.beneath (consistent : run.Consistent site) {place : Word}
    (beneath : 56 + site.routine.frame.size.toNat < (run.state site.routine).below place)
    {slot : Offset} (free : slot ∈ site.routine.frame.free) :
    8 ≤ (place - (run.state site.routine).slot slot).toNat := by
  have distance := (consistent.frame.free slot free).distance (run.state site.routine)
  simp only [Machine.below, BitVec.toNat_sub] at distance beneath ⊢
  omega

theorem Saves.below (saves : run.Saves site saved machine) (place : Word) :
    machine.below place = (run.state site.routine).below place := by
  simp only [Machine.below, saves.base]

/-- A byte of a saved register is above the stack pointer and below the body of the frame. -/
theorem Saves.saved_byte (saves : run.Saves site saved machine) {place : Word}
    (within : (place - machine.get .rsp).toNat < 8 * saved.length) :
    56 + site.routine.frame.size.toNat < machine.below place ∧
      machine.below place ≤ machine.depth := by
  have beneath := saves.beneath
  simp only [Machine.depth, Machine.below, BitVec.toNat_sub] at beneath within ⊢
  omega

/-- Pushing live registers saves them. -/
theorem Saves.push {later : Machine} (saves : run.Saves site saved machine)
    (sound : site.work.pool.Sound)
    (live : ∀ register ∈ more, site.work.pool.live.contains register ∧ register ∉ saved)
    (few : saved.length + more.length ≤ 64) (pushed : machine.Pushed more later) :
    run.Saves site (saved ++ more) later where
  base := pushed.base.trans saves.base
  registers register used unsaved := by
    rw [List.mem_append, not_or] at unsaved
    exact (pushed.register (sound.usable_of_live used)).trans
      (saves.registers register used unsaved.1)
  memory place inside within apart := by
    have deep := saves.deep
    refine (pushed.memory place ?_ ?_).trans (saves.memory place inside within apart)
    · rw [saves.below]
      exact inside
    · rw [saves.below]
      omega
  stacked := by
    rw [List.reverse_append, Machine.stacked_append]
    constructor
    · exact pushed.stacked.values_congr fun register listed =>
        have pushed := live register (List.mem_reverse.mp listed)
        (saves.registers register pushed.1 pushed.2).symm
    · have bottom : later.get .rsp + 8 * BitVec.ofNat 64 more.reverse.length =
          machine.get .rsp := by
        rw [List.length_reverse, pushed.lowered, BitVec.sub_add_cancel]
      rw [bottom]
      apply saves.stacked.congr
      · rw [List.length_reverse]
        omega
      · intro place within
        rw [List.length_reverse] at within
        obtain ⟨low, high⟩ := saves.saved_byte within
        exact pushed.memory place (by omega) high
  beneath := by
    have beneath := saves.beneath
    rw [pushed.depth, List.length_append]
    omega
  deep := Nat.le_trans saves.deep (by rw [pushed.depth]; omega)
  few := by
    rw [List.length_append]
    exact few

/-- Saving live registers writes the code that pushes them, and nothing else. -/
theorem Consistent.saving {before : Site} {registers : List Register} {value : Unit}
    {after : Workspace} (consistent : run.Consistent before)
    (live : ∀ register ∈ registers, before.work.pool.live.contains register)
    (few : registers.length ≤ 32) (deep : (run.state before.routine).depth + 512 ≤ run.limit)
    (done : Stage.save run.tree registers before.work = .ok value after) :
    ∃ pushes, after = { before.work with
        routine := some { before.routine.append pushes with
          pushed := before.routine.pushed + BitVec.ofNat 32 (8 * registers.length) } } ∧
      run.Emits (run.state before.routine) pushes [] ∧
      (run.state before.routine).Pushed registers
        ((run.state before.routine).after run.natives pushes) := by
  obtain ⟨pushes, straight, rfl, effect, written⟩ := Stage.of_save consistent.begun done
  have bounded := run.bounded
  have below := consistent.below
  have pushed := Machine.pushed_effects run.natives (run.state before.routine) (by omega)
    (consistent.pool.pushable live) (by omega)
  refine ⟨pushes, rfl, ⟨straight.ret, ?_, ?_⟩, effect run.natives _ ▸ pushed⟩
  · exact written run.natives _ _
      (Machine.writes_beneath run.natives bounded (by omega) (by omega))
  · rw [straight.calls]
    exact .nil

/-- The bytes of the frame and of the saved registers are kept, and the registers that are not
saved: then the same registers are saved. -/
theorem Saves.keep {later : Machine} (saves : run.Saves site saved machine)
    (base : later.get .rbp = machine.get .rbp) (stack : later.get .rsp = machine.get .rsp)
    (registers : ∀ register, site.work.pool.live.contains register → register ∉ saved →
      later.get register = machine.get register)
    (memory : ∀ place, 0 < machine.below place → machine.below place ≤ machine.depth →
      (∀ slot ∈ site.routine.frame.free, 8 ≤ (place - machine.slot slot).toNat) →
      later.memory place = machine.memory place)
    (consistent : run.Consistent site) : run.Saves site saved later := by
  have slot (offset : Offset) : machine.slot offset = (run.state site.routine).slot offset := by
    simp only [Machine.slot, saves.base]
  have depth : later.depth = machine.depth := by simp only [Machine.depth, Machine.below, base, stack]
  have deep := saves.deep
  exact {
    base := base.trans saves.base
    registers := fun register used unsaved =>
      (registers register used unsaved).trans (saves.registers register used unsaved)
    memory := fun place inside within apart => by
      refine (memory place ?_ ?_ ?_).trans (saves.memory place inside within apart)
      · rw [saves.below]
        exact inside
      · rw [saves.below]
        omega
      · intro offset free
        rw [slot]
        exact apart offset free
    stacked := by
      rw [stack]
      apply saves.stacked.congr
      · have few := saves.few
        rw [List.length_reverse]
        omega
      · intro place within
        rw [List.length_reverse] at within
        obtain ⟨low, high⟩ := saves.saved_byte within
        refine memory place (by omega) high fun offset free => ?_
        rw [slot]
        exact consistent.beneath (saves.below place ▸ low) free
    beneath := depth ▸ saves.beneath
    deep := depth ▸ deep
    few := saves.few }

/-- Popping the saved registers brings back all that was taken. -/
theorem Saves.pop (saves : run.Saves site saved machine) (sound : site.work.pool.Sound)
    (distinct : saved.Nodup)
    (live : ∀ register ∈ saved, site.work.pool.live.contains register) :
    let later := Request.effects run.natives machine (saved.reverse.map .pop)
    run.Keeps site later ∧
      (∀ register : Register, register.InBank → register ≠ .rsp → register ∉ saved →
        later.get register = machine.get register) ∧
      later.depth + 8 * saved.length = machine.depth ∧ later.memory = machine.memory := by
  intro later
  have usable := sound.pushable fun register member => live register (List.mem_reverse.mp member)
  obtain ⟨popped, kept, raised, memory⟩ := Machine.pops_effect run.natives
    (List.nodup_reverse.mpr distinct) usable saves.stacked
  have lifted : later.get .rsp = machine.get .rsp + 8 * BitVec.ofNat 64 saved.length :=
    List.length_reverse ▸ raised
  have other (register : Register) (real : register.InBank) (notStack : register ≠ .rsp)
      (unsaved : register ∉ saved) : later.get register = machine.get register :=
    kept register real notStack fun member => unsaved (List.mem_reverse.mp member)
  have base : later.get .rbp = machine.get .rbp :=
    other .rbp (by decide) (by decide) fun member =>
      (sound.usable_of_live (live .rbp member)).ne_rbp rfl
  have depth : later.depth + 8 * saved.length = machine.depth := by
    have few := saves.few
    have beneath := saves.beneath
    have words : (8 * BitVec.ofNat 64 saved.length).toNat = 8 * saved.length := by
      simp only [BitVec.toNat_mul, BitVec.toNat_ofNat, BitVec.reduceToNat]
      omega
    simp only [Machine.depth, Machine.below, base, lifted, BitVec.toNat_sub, BitVec.toNat_add,
      words] at beneath ⊢
    omega
  refine ⟨?_, other, depth, memory⟩
  exact {
    base := base.trans saves.base
    registers := fun register used => by
      by_cases member : register ∈ saved
      · exact popped register (List.mem_reverse.mpr member)
      · have usable := sound.usable_of_live used
        exact (other register usable.inBank usable.ne_rsp member).trans
          (saves.registers register used member)
    memory := fun place inside within apart =>
      (congrFun memory place).trans (saves.memory place inside within apart) }

end Run

end NativeExpr
