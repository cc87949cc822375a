import NativeExpr.Frame
import NativeExpr.Proofs.MoveSchedule.Outgoing

/-!
# The words of a frame

Distances below the frame, and which offsets are words of its body. A frame that is small enough
for its offsets is sound when it is new: its homes and its free slots are different words of
the body.
-/

namespace NativeExpr

namespace Machine

/-- The distance of an address below the frame, which ends with the return address. -/
def below (machine : Machine) (place : Word) : Nat := (machine.get .rbp + 16 - place).toNat

/-- The distance of the stack pointer below the frame. -/
def depth (machine : Machine) : Nat := machine.below (machine.get .rsp)

/-- Whether a state has the frame of a base, with the stack pointer at most so far below it. -/
def Within (base : Word) (limit : Nat) (machine : Machine) : Prop :=
  machine.get .rbp = base ∧ machine.depth ≤ limit

theorem Within.mono {base : Word} {limit further : Nat} {machine : Machine}
    (within : machine.Within base limit) (le : limit ≤ further) : machine.Within base further :=
  ⟨within.1, within.2.trans le⟩

/-- A byte that follows an address is less far below the frame. -/
theorem below_add (machine : Machine) {place : Word} {position : Nat}
    (within : position ≤ machine.below place) :
    machine.below (place + BitVec.ofNat 64 position) = machine.below place - position := by
  simp only [below, BitVec.toNat_sub, BitVec.toNat_add, BitVec.toNat_ofNat] at within ⊢
  omega

end Machine

namespace Frame

/-- Whether an offset is that of a word in the body of a frame. -/
def Covers (frame : Frame) (offset : Offset) : Prop :=
  8 ∣ offset.toInt ∧ offset.toInt ≤ -48 ∧ -(40 + (frame.size.toNat : Int)) ≤ offset.toInt

/-- A frame whose homes and free slots are words of its body. -/
structure Sound (frame : Frame) : Prop where
  homes : ∀ home ∈ frame.homes, frame.Covers home
  free : ∀ slot ∈ frame.free, frame.Covers slot
  distinct : frame.free.Nodup
  apart : ∀ home ∈ frame.homes, home ∉ frame.free

variable {frame : Frame} {slot other : Offset}

theorem Covers.distance (covers : frame.Covers slot) (machine : Machine) :
    8 ∣ machine.below (machine.slot slot) ∧ 64 ≤ machine.below (machine.slot slot) ∧
      machine.below (machine.slot slot) ≤ 56 + frame.size.toNat := by
  obtain ⟨words, above, within⟩ := covers
  have word := Machine.toNat_offset slot
  have bounds : -2 ^ 31 ≤ slot.toInt := BitVec.le_toInt slot
  have distance : (machine.below (machine.slot slot) : Int) = 16 - slot.toInt := by
    simp only [Machine.below, Machine.slot, BitVec.toNat_sub, BitVec.toNat_add, BitVec.reduceToNat]
    omega
  omega

/-- Different slots share no byte. -/
theorem Covers.apart (covers : frame.Covers slot) (others : frame.Covers other)
    (different : slot ≠ other) (machine : Machine) :
    Machine.Apart (machine.slot slot) (machine.slot other) :=
  Machine.apart_of_aligned _ different covers.1 others.1

/-- The cell at a position is as far below the saved registers as it says. -/
theorem toInt_cell {position : Nat} (small : position < 2 ^ 28 - 5) :
    (cell position).toInt = -(48 + 8 * position : Int) := by
  have word : (8 * (BitVec.ofNat 32 position + 1) : Offset).toNat = 8 * position + 8 := by
    simp only [BitVec.toNat_mul, BitVec.toNat_add, BitVec.toNat_ofNat, BitVec.reduceToNat]
    omega
  have area : (-savedArea).toNat = 4294967256 := by decide
  have signed := BitVec.toInt_eq_toNat_cond (cell position)
  rw [cell, BitVec.toNat_sub, word, area] at signed
  rw [cell]
  split at signed <;> omega

/-- The body is an odd number of words, counted in 32 bits. -/
theorem toNat_bodySize_eq (cells : Nat) :
    (bodySize cells).toNat = 16 * (cells % 2 ^ 29 / 2) + 8 := by
  have words : (8 * BitVec.ofNat 32 cells).toNat = 8 * (cells % 2 ^ 29) := by
    simp only [BitVec.toNat_mul, BitVec.toNat_ofNat, BitVec.reduceToNat]
    omega
  have odd : 8 * BitVec.ofNat 32 cells % 16 = 8 ↔ cells % 2 = 1 := by
    rw [BitVec.toNat_eq, BitVec.toNat_umod, words]
    simp only [BitVec.reduceToNat]
    omega
  simp only [bodySize, odd]
  split
  · omega
  · simp only [BitVec.toNat_add, words, BitVec.reduceToNat]
    omega

/-- The body is as large as its cells, and at most one word larger. -/
theorem toNat_bodySize {cells : Nat} (small : cells ≤ 2 ^ 28 - 5) :
    8 * cells ≤ (bodySize cells).toNat ∧ (bodySize cells).toNat ≤ 8 * cells + 8 := by
  rw [toNat_bodySize_eq]
  omega

/-- The body of a frame makes up for the words that are saved above it. -/
theorem toNat_bodySize_mod (cells : Nat) : (bodySize cells).toNat % 16 = 8 := by
  rw [toNat_bodySize_eq]
  omega

/-- Different cells of a small frame have different offsets. -/
theorem cell_injective {first second : Nat} (firstSmall : first < 2 ^ 28 - 5)
    (secondSmall : second < 2 ^ 28 - 5) (same : cell first = cell second) : first = second := by
  have number := toInt_cell firstSmall
  rw [same, toInt_cell secondSmall] at number
  omega

/-- The homes of a new frame that is small enough are different. -/
theorem nodup_homes_new {parameters slots : Nat} (small : slots + parameters ≤ 2 ^ 28 - 5) :
    (new parameters slots).homes.Nodup := by
  refine List.pairwise_map.mpr (List.nodup_range.imp_of_mem ?_)
  intro first second firstWithin secondWithin different same
  rw [List.mem_range] at firstWithin secondWithin
  exact different (cell_injective (by omega) (by omega) same)

/-- A new frame that is small enough is sound. -/
theorem sound_new {parameters slots : Nat} (small : slots + parameters ≤ 2 ^ 28 - 5) :
    (new parameters slots).Sound := by
  have body := (toNat_bodySize (by omega) : 8 * (parameters + slots) ≤ _ ∧ _)
  have covers {position : Nat} (within : position < parameters + slots) :
      (new parameters slots).Covers (cell position) := by
    have number := (toInt_cell (by omega) : (cell position).toInt = _)
    simp only [Covers, new]
    omega
  exact {
    homes := fun home listed => by
      obtain ⟨position, within, rfl⟩ := List.mem_map.mp listed
      rw [List.mem_range] at within
      exact covers (by omega)
    free := fun slot listed => by
      obtain ⟨position, within, rfl⟩ := List.mem_map.mp listed
      rw [List.mem_range'_1] at within
      exact covers (by omega)
    distinct := by
      refine List.pairwise_map.mpr ((List.nodup_range').imp_of_mem ?_)
      intro first second firstWithin secondWithin different same
      rw [List.mem_range'_1] at firstWithin secondWithin
      exact different (cell_injective (by omega) (by omega) same)
    apart := fun home listed free => by
      obtain ⟨position, within, rfl⟩ := List.mem_map.mp listed
      obtain ⟨other, otherWithin, same⟩ := List.mem_map.mp free
      rw [List.mem_range] at within
      rw [List.mem_range'_1] at otherWithin
      have equal := cell_injective (by omega) (by omega) same
      omega }

end Frame

end NativeExpr
