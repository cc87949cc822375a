import Mathlib.Algebra.Order.Ring.Int
import NativeExpr.Machine

/-!
# Words in memory

A word occupies eight bytes, so what a store changes is known byte by byte. Two words
that share no byte can be read and written independently of each other.
-/

namespace NativeExpr.Machine

/-- Whether the words at two addresses share no byte. -/
def Apart (left right : Word) : Prop := 8 ≤ (left - right).toNat ∧ 8 ≤ (right - left).toNat

/-- The bytes of a word are outside any word that shares no byte with it. -/
theorem Apart.outside {address place : Word} (apart : Apart address place) {position : Nat}
    (within : position < 8) : 8 ≤ (place + BitVec.ofNat 64 position - address).toNat := by
  obtain ⟨below, above⟩ := apart
  rw [BitVec.toNat_sub] at below above ⊢
  rw [BitVec.toNat_add, BitVec.toNat_ofNat]
  omega

/-- The eight bytes of a word, put together again. -/
theorem extract_append (value : Word) :
    value.extractLsb' 56 8 ++ value.extractLsb' 48 8 ++ value.extractLsb' 40 8 ++
      value.extractLsb' 32 8 ++ value.extractLsb' 24 8 ++ value.extractLsb' 16 8 ++
      value.extractLsb' 8 8 ++ value.extractLsb' 0 8 = value := by
  iterate 7 rw [BitVec.extractLsb'_append_extractLsb'_eq_extractLsb' (by omega)]
  exact BitVec.extractLsb'_eq_self

theorem add_sub_address (address offset : Word) : address + offset - address = offset := by
  rw [BitVec.add_comm, BitVec.add_sub_cancel]

theorem writeWord_add (memory : Word → BitVec 8) (address value : Word) {position : Nat}
    (within : position < 8) :
    writeWord memory address value (address + BitVec.ofNat 64 position) =
      value.extractLsb' (8 * position) 8 := by
  have distance : (address + BitVec.ofNat 64 position - address).toNat = position := by
    rw [add_sub_address, BitVec.toNat_ofNat]
    omega
  simp only [writeWord, distance, if_pos within]

theorem writeWord_of_le (memory : Word → BitVec 8) (value : Word) {address place : Word}
    (outside : 8 ≤ (place - address).toNat) :
    writeWord memory address value place = memory place := by
  simp only [writeWord, if_neg (Nat.not_lt.mpr outside)]

theorem readWord_writeWord (memory : Word → BitVec 8) (address value : Word) :
    readWord (writeWord memory address value) address = value := by
  have byte (position : Nat) (within : position < 8) :
      writeWord memory address value (address + BitVec.ofNat 64 position) =
        value.extractLsb' (8 * position) 8 :=
    writeWord_add memory address value within
  have lowest : writeWord memory address value address = value.extractLsb' 0 8 := by
    simpa using byte 0 (by omega)
  simp only [readWord, BitVec.ofNat_eq_ofNat]
  rw [lowest, byte 1 (by omega), byte 2 (by omega), byte 3 (by omega),
    byte 4 (by omega), byte 5 (by omega), byte 6 (by omega), byte 7 (by omega)]
  exact extract_append value

/-- A word is determined by its eight bytes. -/
theorem readWord_congr {left right : Word → BitVec 8} {address : Word}
    (same : ∀ position < 8, left (address + BitVec.ofNat 64 position) =
      right (address + BitVec.ofNat 64 position)) :
    readWord left address = readWord right address := by
  have lowest : left address = right address := by simpa using same 0 (by omega)
  simp only [readWord, BitVec.ofNat_eq_ofNat]
  rw [lowest, same 1 (by omega), same 2 (by omega), same 3 (by omega),
    same 4 (by omega), same 5 (by omega), same 6 (by omega), same 7 (by omega)]

@[simp] theorem load_store (machine : Machine) (address value : Word) :
    (machine.store address value).load address = value :=
  readWord_writeWord machine.memory address value

theorem load_congr {left right : Machine} {address : Word}
    (same : ∀ position < 8, left.memory (address + BitVec.ofNat 64 position) =
      right.memory (address + BitVec.ofNat 64 position)) :
    left.load address = right.load address :=
  readWord_congr same

/-- A word is the same where memory differs only in some bytes below it. -/
theorem load_congr_above {left right : Machine} {region address : Word} {size : Nat}
    (same : ∀ place, size ≤ (place - region).toNat → left.memory place = right.memory place)
    (above : size ≤ (address - region).toNat) (room : (address - region).toNat + 8 ≤ 2 ^ 64) :
    left.load address = right.load address := by
  refine load_congr fun position within => same _ ?_
  rw [BitVec.toNat_sub] at above room ⊢
  rw [BitVec.toNat_add, BitVec.toNat_ofNat]
  omega

theorem memory_store_of_le (machine : Machine) (value : Word) {address place : Word}
    (outside : 8 ≤ (place - address).toNat) :
    (machine.store address value).memory place = machine.memory place :=
  writeWord_of_le machine.memory value outside

/-- A store leaves a word alone that shares no byte with it. -/
theorem load_store_apart (machine : Machine) (value : Word) {address place : Word}
    (apart : Apart address place) :
    (machine.store address value).load place = machine.load place :=
  load_congr fun _ within => memory_store_of_le machine value (apart.outside within)

/-- The word that an offset stands for. -/
theorem toNat_offset (offset : BitVec 32) :
    ((offset.signExtend 64).toNat : Int) = offset.toInt % 2 ^ 64 := by
  simp only [BitVec.signExtend, BitVec.toNat_ofInt]
  omega

/-- A number below the sign bit is extended to itself. -/
theorem toNat_signExtend_of_lt {number : BitVec 32} (small : number.toNat < 2 ^ 31) :
    (number.signExtend 64).toNat = number.toNat := by
  have extended := toNat_offset number
  rw [BitVec.toInt_eq_toNat_of_lt (by omega)] at extended
  omega

/-- The low 32 bits of an extended number are the number. -/
theorem toNat_signExtend_mod (number : BitVec 32) :
    (number.signExtend 64).toNat % 2 ^ 32 = number.toNat := by
  have extended := toNat_offset number
  have signed := BitVec.toInt_eq_toNat_cond number
  split at signed <;> omega

end NativeExpr.Machine
