import NativeExpr.MoveSchedule
import NativeExpr.Proofs.Machine.Agreement

/-!
# Stores in the outgoing area

A schedule of moves begins with the values that go to the outgoing area. Their words share no
byte with one another and none with the slots that are read, so the order of the stores does
not matter; `effects_outgoing_delivers` says what they leave behind.
-/

namespace NativeExpr

namespace Machine

/-- The address of a place in the outgoing area. -/
def outgoing (machine : Machine) (offset : Offset) : Word :=
  machine.get .rsp + offset.signExtend 64

/-- The address of a slot of the frame. -/
def slot (machine : Machine) (offset : Offset) : Word :=
  machine.get .rbp + offset.signExtend 64

/-- Offsets that are different multiples of eight lead to words that share no byte. -/
theorem apart_of_aligned (base : Word) {left right : Offset} (differ : left ≠ right)
    (leftAligned : 8 ∣ left.toInt) (rightAligned : 8 ∣ right.toInt) :
    Apart (base + left.signExtend 64) (base + right.signExtend 64) := by
  have distinct : left.toInt ≠ right.toInt := fun same => differ (BitVec.toInt_inj.mp same)
  have leftWord := toNat_offset left
  have rightWord := toNat_offset right
  have leftBounds : -2 ^ 31 ≤ left.toInt ∧ left.toInt < 2 ^ 31 :=
    ⟨BitVec.le_toInt left, BitVec.toInt_lt⟩
  have rightBounds : -2 ^ 31 ≤ right.toInt ∧ right.toInt < 2 ^ 31 :=
    ⟨BitVec.le_toInt right, BitVec.toInt_lt⟩
  rw [Apart, BitVec.toNat_sub, BitVec.toNat_sub, BitVec.toNat_add, BitVec.toNat_add]
  omega

end Machine

namespace Transfer

/-- Putting a value into the outgoing area changes its word there, and no register but the
general-purpose scratch register. -/
theorem effects_intoOutgoing (natives : Natives) (machine : Machine) (offset : Offset)
    (source : Location) :
    (∀ register : Register, register.InBank → register ≠ .r11 →
      (Request.effects natives machine (intoOutgoing offset source)).get register =
        machine.get register) ∧
    (Request.effects natives machine (intoOutgoing offset source)).memory =
      (machine.store (machine.outgoing offset) (machine.value source)).memory := by
  have base (value : Word) : (machine.set .r11 value).get .rsp = machine.get .rsp :=
    Machine.get_set_other machine value (by decide) (by decide) (by decide)
  cases source with
  | register source =>
    simp only [intoOutgoing, Request.effects_cons, Request.effects_nil, Request.effect]
    exact ⟨fun register _ _ => Machine.get_store .., rfl⟩
  | slot _ | constant _ =>
    simp only [intoOutgoing, Request.effects_cons, Request.effects_nil, Request.effect,
      Convention.scratch, base, Machine.get_set_self]
    refine ⟨fun register real other => ?_, ?_⟩
    · rw [Machine.get_store]
      exact Machine.get_set_other machine _ (by decide) real other
    · simp [Machine.store, Machine.outgoing, Machine.value]

end Transfer

namespace MoveSchedule

/-- Whether the words that moves write in the outgoing area share no byte with one another and
none with the slots that moves read. -/
structure Separate (machine : Machine) (moves : List Move) : Prop where
  written : ∀ offset other : Offset, (∃ move ∈ moves, move.target = .stack offset) →
    (∃ move ∈ moves, move.target = .stack other) → offset ≠ other →
      Machine.Apart (machine.outgoing offset) (machine.outgoing other)
  read : ∀ offset slot : Offset, (∃ move ∈ moves, move.target = .stack offset) →
    (∃ move ∈ moves, move.source = .slot slot) →
      Machine.Apart (machine.outgoing offset) (machine.slot slot)

/-- States with the same stack and frame pointers find the outgoing area and the slots at the
same addresses. -/
theorem Separate.congr {machine later : Machine} {moves : List Move}
    (separate : Separate machine moves) (stack : later.get .rsp = machine.get .rsp)
    (frame : later.get .rbp = machine.get .rbp) : Separate later moves := by
  constructor
  · intro offset other
    simp only [Machine.outgoing, stack]
    exact separate.written offset other
  · intro offset slot
    simp only [Machine.outgoing, Machine.slot, stack, frame]
    exact separate.read offset slot

theorem Separate.tail {machine : Machine} {move : Move} {rest : List Move}
    (separate : Separate machine (move :: rest)) : Separate machine rest where
  written offset other left right :=
    separate.written offset other (left.imp fun _ found => ⟨List.mem_cons_of_mem _ found.1, found.2⟩)
      (right.imp fun _ found => ⟨List.mem_cons_of_mem _ found.1, found.2⟩)
  read offset slot left right :=
    separate.read offset slot (left.imp fun _ found => ⟨List.mem_cons_of_mem _ found.1, found.2⟩)
      (right.imp fun _ found => ⟨List.mem_cons_of_mem _ found.1, found.2⟩)

/-- Stores in the outgoing area change the words that they name there, and no register but the
general-purpose scratch register. -/
theorem effects_outgoing_agrees (natives : Natives) (moves : List Move) (machine : Machine) :
    (∀ register : Register, register.InBank → register ≠ .r11 →
      (Request.effects natives machine (outgoing moves)).get register = machine.get register) ∧
    (∀ place : Word, (∀ move ∈ moves, ∀ offset, move.target = .stack offset →
        8 ≤ (place - machine.outgoing offset).toNat) →
      (Request.effects natives machine (outgoing moves)).memory place = machine.memory place) := by
  induction moves generalizing machine with
  | nil => exact ⟨fun _ _ _ => rfl, fun _ _ => rfl⟩
  | cons move rest ih =>
    simp only [outgoing, List.flatMap_cons, Request.effects_append] at ih ⊢
    cases target : move.target with
    | register register =>
      obtain ⟨registers, memory⟩ := ih machine
      exact ⟨registers, fun place outside =>
        memory place fun other listed => outside other (List.mem_cons_of_mem _ listed)⟩
    | stack offset =>
      obtain ⟨firstRegisters, firstMemory⟩ :=
        Transfer.effects_intoOutgoing natives machine offset move.source
      obtain ⟨registers, memory⟩ :=
        ih (Request.effects natives machine (Transfer.intoOutgoing offset move.source))
      refine ⟨fun register real other => ?_, fun place outside => ?_⟩
      · exact (registers register real other).trans (firstRegisters register real other)
      · rw [memory place, firstMemory]
        · exact Machine.memory_store_of_le machine _
            (outside move List.mem_cons_self offset target)
        · intro other listed otherOffset otherTarget
          rw [Machine.outgoing, firstRegisters .rsp (by decide) (by decide)]
          exact outside other (List.mem_cons_of_mem _ listed) otherOffset otherTarget

/-- A store in the outgoing area leaves alone what the moves after it read. -/
theorem value_after_intoOutgoing (natives : Natives) {machine : Machine} {offset : Offset}
    {source read : Location}
    (register : ∀ register, read = .register register → register.InBank ∧ register ≠ .r11)
    (slot : ∀ slot, read = .slot slot →
      Machine.Apart (machine.outgoing offset) (machine.slot slot)) :
    (Request.effects natives machine (Transfer.intoOutgoing offset source)).value read =
      machine.value read := by
  obtain ⟨registers, memory⟩ := Transfer.effects_intoOutgoing natives machine offset source
  cases read with
  | register kept => exact registers kept (register kept rfl).1 (register kept rfl).2
  | slot place =>
    have apart := slot place rfl
    simp only [Machine.value, registers .rbp (by decide) (by decide), Machine.load, memory]
    exact Machine.load_store_apart machine (machine.value source) apart
  | constant bits => rfl

/-- Stores in the outgoing area put there what their sources held before the first of them. -/
theorem effects_outgoing_delivers (natives : Natives) {moves : List Move}
    (distinct : (moves.map Move.target).Nodup)
    (sources : ∀ move ∈ moves, ∀ register, move.source = .register register →
      register.InBank ∧ register ≠ .r11)
    {machine : Machine} (separate : Separate machine moves) :
    ∀ move ∈ moves, ∀ offset, move.target = .stack offset →
      (Request.effects natives machine (outgoing moves)).load (machine.outgoing offset) =
        machine.value move.source := by
  induction moves generalizing machine with
  | nil => exact fun move member => (List.not_mem_nil member).elim
  | cons first rest ih =>
    simp only [List.map_cons, List.nodup_cons] at distinct
    intro move member offset target
    cases firstTarget : first.target with
    | register register =>
      have other : move ≠ first := by
        rintro rfl
        rw [target] at firstTarget
        cases firstTarget
      simp only [outgoing, List.flatMap_cons, firstTarget, List.nil_append]
      exact ih distinct.2 (fun move listed => sources move (List.mem_cons_of_mem _ listed))
        separate.tail move ((List.mem_cons.mp member).resolve_left other) offset target
    | stack firstOffset =>
      have step := Transfer.effects_intoOutgoing natives machine firstOffset first.source
      have stack := step.1 .rsp (by decide) (by decide)
      have frame := step.1 .rbp (by decide) (by decide)
      simp only [outgoing, List.flatMap_cons, firstTarget, Request.effects_append]
      rcases List.mem_cons.mp member with rfl | listed
      · -- The stores that follow are all to other words.
        obtain rfl : offset = firstOffset := by
          rw [target] at firstTarget
          cases firstTarget
          rfl
        have kept := (effects_outgoing_agrees natives rest
          (Request.effects natives machine (Transfer.intoOutgoing offset move.source))).2
        refine (Machine.load_congr fun position within => kept _ ?_).trans ?_
        · intro other otherListed otherOffset otherTarget
          have differ : otherOffset ≠ offset := by
            rintro rfl
            exact distinct.1 (List.mem_map.mpr ⟨other, otherListed, otherTarget.trans target.symm⟩)
          simp only [Machine.outgoing, stack]
          exact (separate.written otherOffset offset
            ⟨other, List.mem_cons_of_mem _ otherListed, otherTarget⟩
            ⟨move, List.mem_cons_self, target⟩ differ).outside within
        · simp only [Machine.load, step.2]
          exact Machine.load_store machine _ _
      · have later := ih distinct.2
          (fun move listed => sources move (List.mem_cons_of_mem _ listed))
          (separate.tail.congr stack frame) move listed offset target
        rw [Machine.outgoing, stack] at later
        refine later.trans (value_after_intoOutgoing natives ?_ ?_)
        · exact sources move (List.mem_cons_of_mem _ listed)
        · intro slot source
          exact separate.read firstOffset slot ⟨first, List.mem_cons_self, firstTarget⟩
            ⟨move, List.mem_cons_of_mem _ listed, source⟩

end MoveSchedule

end NativeExpr
