import NativeExpr.Instruction.Decoding
import NativeExpr.Proofs.Routine

/-!
# Machine code reads back as what was asked for

The reader undoes the writer. A REX byte gives the top bits of the registers back, an operand byte
the low ones, and every displacement and constant its value, whichever length it was written in.
An instruction is therefore read from the front of its bytes whatever follows them, and code is
read as the instructions that it was written for, none of them relative to its place.
-/

namespace NativeExpr

open Encoding

namespace Decoding

variable {wide : Bool} {own other : Fin 16} {rest : List Byte}

/-- The REX byte of an instruction without an index. -/
def Rex.naming (wide : Bool) (own other : Fin 16) : Rex :=
  ⟨wide, decide (8 ≤ own.val), false, decide (8 ≤ other.val)⟩

theorem register_low (register : Fin 16) :
    Decoding.register (decide (8 ≤ register.val)) ((low register).setWidth 3) = register := by
  revert register
  decide

theorem toNat_low (register : Fin 16) : (low register).toNat < 8 := by
  revert register
  decide

/-- The bits of a REX byte for 64 bits. It is none of the bytes that may come before it. -/
theorem rexWide_bits (own other : Fin 16) :
    rexWide own other ≠ 0x66 ∧ rexWide own other ≠ 0xF3 ∧
      (rexWide own other).extractLsb' 4 4 = 4 ∧
      (⟨(rexWide own other).getLsbD 3, (rexWide own other).getLsbD 2,
        (rexWide own other).getLsbD 1, (rexWide own other).getLsbD 0⟩ : Rex) =
          .naming true own other := by
  revert own other
  decide

/-- A narrow instruction has no REX byte, or one with the top bits of its registers. -/
theorem rexNarrow_cases (own other : Fin 16) :
    (rexNarrow own other = [] ∧ Rex.naming false own other = ⟨false, false, false, false⟩) ∨
      ∃ first, rexNarrow own other = [first] ∧ first ≠ 0x66 ∧ first ≠ 0xF3 ∧
        first.extractLsb' 4 4 = 4 ∧
        (⟨first.getLsbD 3, first.getLsbD 2, first.getLsbD 1, first.getLsbD 0⟩ : Rex) =
          .naming false own other := by
  have bits : ∀ own other : Fin 16, 4 * high own + high other = 0 ∧
      Rex.naming false own other = ⟨false, false, false, false⟩ ∨
      4 * high own + high other ≠ 0 ∧
        let first : Byte := 0x40 + (4 * high own + high other)
        first ≠ 0x66 ∧ first ≠ 0xF3 ∧ first.extractLsb' 4 4 = 4 ∧
        (⟨first.getLsbD 3, first.getLsbD 2, first.getLsbD 1, first.getLsbD 0⟩ : Rex) =
          .naming false own other := by decide
  rcases bits own other with ⟨none, same⟩ | ⟨some, first⟩
  · exact .inl ⟨if_pos none, same⟩
  · exact .inr ⟨_, if_neg some, first⟩

theorem selector_rexWide :
    selector (rexWide own other :: rest) = (none, rexWide own other :: rest) := by
  obtain ⟨notOne, notOther, _⟩ := rexWide_bits own other
  simp only [selector, notOne, notOther, or_self, if_false]

theorem rex_rexWide : rex (rexWide own other :: rest) = (.naming true own other, rest) := by
  obtain ⟨_, _, tag, bits⟩ := rexWide_bits own other
  rw [rex, if_pos tag, bits]

theorem rex_rexNarrow {opcode : Byte} (untagged : opcode.extractLsb' 4 4 ≠ 4) :
    rex (rexNarrow own other ++ opcode :: rest) = (.naming false own other, opcode :: rest) := by
  rcases rexNarrow_cases own other with ⟨none, same⟩ | ⟨first, one, _, _, tag, bits⟩
  · rw [none, List.nil_append, rex, if_neg untagged, same]
  · rw [one, List.singleton_append, rex, if_pos tag, bits]

theorem selector_rexNarrow {opcode : Byte} (notOne : opcode ≠ 0x66) (notOther : opcode ≠ 0xF3) :
    selector (rexNarrow own other ++ opcode :: rest) =
      (none, rexNarrow own other ++ opcode :: rest) := by
  rcases rexNarrow_cases own other with ⟨none, _⟩ | ⟨first, one, firstNotOne, firstNotOther, _⟩
  · simp only [none, List.nil_append, selector, notOne, notOther, or_self, if_false]
  · simp only [one, List.singleton_append, selector, firstNotOne, firstNotOther, or_self, if_false]

/-- The fields of an operand byte. -/
theorem operandByte_fields (mode : Byte) {operand target : Byte} (mode_lt : mode.toNat < 4)
    (operand_lt : operand.toNat < 8) (target_lt : target.toNat < 8) :
    (operandByte mode operand target).extractLsb' 6 2 = mode.setWidth 2 ∧
      (operandByte mode operand target).extractLsb' 3 3 = operand.setWidth 3 ∧
      (operandByte mode operand target).extractLsb' 0 3 = target.setWidth 3 := by
  have sum : (operandByte mode operand target).toNat =
      64 * mode.toNat + 8 * operand.toNat + target.toNat := by
    simp only [operandByte, BitVec.toNat_add, BitVec.toNat_mul, BitVec.ofNat_eq_ofNat,
      BitVec.toNat_ofNat]
    omega
  refine ⟨?_, ?_, ?_⟩ <;> apply BitVec.eq_of_toNat_eq <;>
    simp only [BitVec.extractLsb'_toNat, BitVec.toNat_setWidth, Nat.shiftRight_eq_div_pow, sum] <;>
    omega

/-- Bytes in little-endian order give the part of a quantity back that they were taken from. -/
theorem quantity_range {width : Nat} (value : BitVec width) (start count : Nat)
    (rest : List Byte) :
    quantity count (((List.range count).map fun position =>
        value.extractLsb' (start + 8 * position) 8) ++ rest) =
      some (value.extractLsb' start (8 * count), rest) := by
  induction count generalizing start with
  | zero => simp [quantity]
  | succ count ih =>
    have shifted : (fun position => value.extractLsb' (start + 8 * position) 8) ∘ Nat.succ =
        fun position => value.extractLsb' (start + 8 + 8 * position) 8 := by
      funext position
      simp only [Function.comp, Nat.succ_eq_add_one, Nat.mul_add, Nat.mul_one, Nat.add_assoc,
        Nat.add_comm 8]
    rw [List.range_succ_eq_map, List.map_cons, List.cons_append, quantity, List.map_map, shifted,
      ih (start + 8)]
    simp only [Option.bind_eq_bind, Option.bind_some, Nat.mul_zero, Nat.add_zero]
    rw [BitVec.extractLsb'_append_extractLsb'_eq_extractLsb' (by omega)]
    rfl

theorem quantity_littleEndian {width : Nat} (count : Nat) (value : BitVec width) :
    quantity count (littleEndian count value ++ rest) =
      some (value.extractLsb' 0 (8 * count), rest) := by
  have whole := quantity_range value 0 count rest
  simp only [Nat.zero_add] at whole
  exact whole

/-- What fits into a byte is the byte with its sign extended. -/
theorem signExtend_of_fitsByte {value : BitVec 32} (fits : fitsByte value = true) :
    (value.extractLsb' 0 8).signExtend 32 = value := by
  simp only [fitsByte, Bool.and_eq_true, decide_eq_true_eq] at fits
  apply BitVec.eq_of_toInt_eq
  rw [BitVec.toInt_signExtend_of_le (by omega), BitVec.toInt_eq_toNat_bmod,
    BitVec.extractLsb'_toNat]
  rw [BitVec.toInt_eq_toNat_bmod] at fits ⊢
  simp only [Nat.shiftRight_zero, Int.bmod] at *
  omega

theorem constant_short {value : BitVec 32} (fits : fitsByte value = true) :
    constant true (littleEndian 1 value ++ rest) = some (value, rest) := by
  simp only [constant, if_true, quantity_littleEndian, Option.bind_eq_bind, Option.bind_some,
    Option.pure_def, signExtend_of_fitsByte fits]

theorem constant_long (value : BitVec 32) :
    constant false (littleEndian 4 value ++ rest) = some (value, rest) := by
  simp only [constant, quantity_littleEndian]
  exact congrArg (fun value => some (value, rest)) BitVec.extractLsb'_eq_self

theorem operands_register (wide : Bool) (own other : Fin 16) (rest : List Byte) :
    operands (.naming wide own other) (registerOperand (low own) (low other) ++ rest) =
      some ((own, .register other), rest) := by
  obtain ⟨mode, first, second⟩ :=
    operandByte_fields 3 (by decide) (toNat_low own) (toNat_low other)
  rw [registerOperand, List.singleton_append, operands, mode, first, second,
    if_pos (by decide)]
  simp only [Rex.naming, register_low, Option.pure_def]

/-- The low bits of a base are read from the operand byte, or from a byte of their own. -/
theorem base_second (mode : BitVec 2) :
    base (.naming wide own other) mode ((low other).setWidth 3)
        ((if low other = 4 then [0x24] else []) ++ rest) =
      some ((low other).setWidth 3, rest) := by
  have stack : ∀ register : Fin 16,
      (low register).setWidth 3 = (4 : BitVec 3) ↔ low register = 4 := by decide
  by_cases scaled : low other = 4
  · have field : ((0x24 : Byte).extractLsb' 0 3) = 4 ∧ ((0x24 : Byte).extractLsb' 3 3) = 4 := by
      decide
    have based : ¬(mode = 0 ∧ (4 : BitVec 3) = 5) := fun both => absurd both.2 (by decide)
    simp only [base, (stack other).mpr scaled, if_pos scaled, List.singleton_append, if_true, field,
      Rex.naming, based, not_false_eq_true, and_self]
  · simp only [base, if_neg (mt (stack other).mp scaled), if_neg scaled, List.nil_append]

/-- The three lengths of a displacement. -/
theorem displacement_cases (base : Byte) (offset : Offset) :
    ∃ (mode : Byte) (written : List Byte),
      (∀ operand : Byte, ∀ address : Address, low address.base = base → address.offset = offset →
        memoryOperand operand address =
          operandByte mode operand base :: ((if base = 4 then [0x24] else []) ++ written)) ∧
      mode.toNat < 3 ∧ (mode = 0 → base ≠ 5) ∧
      ∀ rest, displacement (mode.setWidth 2) (written ++ rest) = some (offset, rest) := by
  by_cases none : (offset = 0 && base != 5) = true
  · refine ⟨0, [], fun operand address same here => ?_, by decide, fun _ => ?_, fun rest => ?_⟩
    · simp only [memoryOperand, same, here, none, if_true, List.append_nil]
    · exact bne_iff_ne.mp (Bool.and_eq_true_iff.mp none).2
    · have zero : offset = 0 := of_decide_eq_true (Bool.and_eq_true_iff.mp none).1
      rw [zero]
      rfl
  · by_cases short : fitsByte offset = true
    · refine ⟨1, littleEndian 1 offset, fun operand address same here => ?_, by decide,
        fun same => absurd same (by decide), fun rest => ?_⟩
      · simp only [memoryOperand, same, here, if_neg none, short, if_true]
        rfl
      · exact constant_short short
    · refine ⟨2, littleEndian 4 offset, fun operand address same here => ?_, by decide,
        fun same => absurd same (by decide), fun rest => ?_⟩
      · simp only [memoryOperand, same, here, if_neg none, if_neg short]
        rfl
      · exact constant_long offset

theorem operands_memory (address : Address) :
    operands (.naming wide own address.base) (memoryOperand (low own) address ++ rest) =
      some ((own, .memory address), rest) := by
  obtain ⟨mode, written, bytes, mode_lt, unbased, displaced⟩ :=
    displacement_cases (low address.base) address.offset
  obtain ⟨modeField, first, second⟩ :=
    operandByte_fields mode (by omega) (toNat_low own) (toNat_low address.base)
  have notRegister : mode.setWidth 2 ≠ (3 : BitVec 2) := by
    intro same
    have number := congrArg BitVec.toNat same
    simp only [BitVec.toNat_setWidth, BitVec.ofNat_eq_ofNat, BitVec.toNat_ofNat] at number
    omega
  have notRelative : ¬(mode.setWidth 2 = (0 : BitVec 2) ∧
      (low address.base).setWidth 3 = (5 : BitVec 3)) := by
    rintro ⟨none, frame⟩
    have frameBase : ∀ register : Fin 16, (low register).setWidth 3 = (5 : BitVec 3) →
        low register = 5 := by decide
    refine unbased (BitVec.eq_of_toNat_eq ?_) (frameBase _ frame)
    have number := congrArg BitVec.toNat none
    simp only [BitVec.toNat_setWidth, BitVec.ofNat_eq_ofNat, BitVec.toNat_ofNat] at number ⊢
    omega
  rw [bytes (low own) address rfl rfl, List.cons_append, operands, modeField, first, second,
    if_neg notRegister, if_neg notRelative, List.append_assoc, base_second]
  simp only [Option.bind_eq_bind, Option.bind_some, displaced, Rex.naming, register_low,
    Option.pure_def]

/-- An instruction on 64 bits begins with a REX byte. -/
theorem next_wide {opcode : Byte} (unescaped : opcode ≠ 0x0F) :
    next (rexWide own other :: opcode :: rest) =
      operation (.naming true own other) opcode rest := by
  simp only [next, selector_rexWide, rex_rexWide, if_neg unescaped, Option.isSome_none,
    Bool.false_eq_true, if_false]

theorem next_wide_escaped :
    next (rexWide own other :: 0x0F :: rest) = escaped none (.naming true own other) rest := by
  simp only [next, selector_rexWide, rex_rexWide, if_true]

theorem next_selected_wide :
    next (0x66 :: rexWide own other :: 0x0F :: rest) =
      escaped (some 0x66) (.naming true own other) rest := by
  simp only [next, selector, true_or, if_true, rex_rexWide]

theorem next_selected_narrow {first : Byte} (selects : first = 0x66 ∨ first = 0xF3) :
    next (first :: (rexNarrow own other ++ 0x0F :: rest)) =
      escaped (some first) (.naming false own other) rest := by
  have untagged : (0x0F : Byte).extractLsb' 4 4 ≠ 4 := by decide
  simp only [next, selector, if_pos selects, rex_rexNarrow untagged, if_true]

theorem next_narrow {opcode : Byte} (notOne : opcode ≠ 0x66) (notOther : opcode ≠ 0xF3)
    (untagged : opcode.extractLsb' 4 4 ≠ 4) (unescaped : opcode ≠ 0x0F) :
    next (rexNarrow own other ++ opcode :: rest) =
      operation (.naming false own other) opcode rest := by
  simp only [next, selector_rexNarrow notOne notOther, rex_rexNarrow untagged, if_neg unescaped,
    Option.isSome_none, Bool.false_eq_true, if_false]

theorem Rex.naming_wide : (Rex.naming wide own other).wide = wide := rfl

theorem Rex.naming_target : (Rex.naming wide own other).target = decide (8 ≤ other.val) := rfl

/-- The opcodes of one byte that take a register and a register or memory. -/
def plain : List Byte := [0x89, 0x8B, 0x01, 0x29, 0x03, 0x2B, 0x8D]

theorem next_plain {opcode : Byte} (known : opcode ∈ plain) :
    next (rexWide own other :: opcode :: rest) = do
      let ((own, operand), rest) ← operands (.naming true own other) rest
      let decoded ← onOperand (onRegister opcode own) (onMemory opcode own) operand
      return (decoded, rest) := by
  simp only [plain, List.mem_cons, List.not_mem_nil, or_false] at known
  rcases known with rfl | rfl | rfl | rfl | rfl | rfl | rfl <;> exact next_wide (by decide)

theorem next_onRegister {opcode : Byte} {instruction : Instruction} (known : opcode ∈ plain)
    (found : onRegister opcode own other = some instruction) :
    next (rexWide own other :: opcode :: registerOperand (low own) (low other) ++ rest) =
      some (.instruction instruction, rest) := by
  rw [List.cons_append, List.cons_append, next_plain known, operands_register]
  simp only [Option.bind_eq_bind, Option.bind_some, onOperand, found, Option.map_some,
    Option.pure_def]

theorem next_onMemory {opcode : Byte} {address : Address} {instruction : Instruction}
    (known : opcode ∈ plain) (found : onMemory opcode own address = some instruction) :
    next (rexWide own address.base :: opcode :: memoryOperand (low own) address ++ rest) =
      some (.instruction instruction, rest) := by
  rw [List.cons_append, List.cons_append, next_plain known, operands_memory]
  simp only [Option.bind_eq_bind, Option.bind_some, onOperand, found, Option.map_some,
    Option.pure_def]

theorem escaped_onRegister {selector : Option Byte} {opcode : Byte} {instruction : Instruction}
    (found : escapedOnRegister selector wide opcode own other = some instruction) :
    escaped selector (.naming wide own other)
        (opcode :: (registerOperand (low own) (low other) ++ rest)) =
      some (.instruction instruction, rest) := by
  simp only [escaped, operands_register, Option.bind_eq_bind, Option.bind_some, onOperand,
    Rex.naming_wide, found, Option.map_some, Option.pure_def]

theorem escaped_onMemory {selector : Option Byte} {opcode : Byte} {address : Address}
    {instruction : Instruction}
    (found : escapedOnMemory selector wide opcode own address = some instruction) :
    escaped selector (.naming wide own address.base)
        (opcode :: (memoryOperand (low own) address ++ rest)) =
      some (.instruction instruction, rest) := by
  simp only [escaped, operands_memory, Option.bind_eq_bind, Option.bind_some, onOperand,
    Rex.naming_wide, found, Option.map_some, Option.pure_def]

/-- What an opcode with a register in its low bits says, and which opcodes it is not. -/
theorem opcode_naming (register : Fin 16) {first : Byte}
    (known : first = 0x50 ∨ first = 0x58 ∨ first = 0xB8) :
    (first + low register).extractLsb' 3 5 = first.extractLsb' 3 5 ∧
      (first + low register).extractLsb' 0 3 = (low register).setWidth 3 ∧
      (first + low register).extractLsb' 4 4 ≠ 4 ∧
      first + low register ≠ 0x66 ∧ first + low register ≠ 0xF3 ∧ first + low register ≠ 0x0F ∧
      first + low register ≠ 0xC3 ∧ first + low register ≠ 0xFF := by
  rcases known with rfl | rfl | rfl <;> revert register <;> decide

theorem arithmetic_read {digit target : Fin 16} {operation : Arithmetic} {value : BitVec 32}
    {short : Bool} {written : List Byte} (means : arithmeticOf (digit.val % 8) = some operation)
    (read : constant short (written ++ rest) = some (value, rest)) :
    arithmetic (.naming true digit target) short
        (registerOperand (low digit) (low target) ++ (written ++ rest)) =
      some (.instruction (.arithConstant operation target value), rest) := by
  simp only [arithmetic, operands_register, read, means, Option.bind_eq_bind, Option.bind_some,
    Option.pure_def]

theorem product_read {target : Fin 16} {value : BitVec 32} {short : Bool} {written : List Byte}
    (read : constant short (written ++ rest) = some (value, rest)) :
    product (.naming true target target) short
        (registerOperand (low target) (low target) ++ (written ++ rest)) =
      some (.instruction (.arithConstant .mul target value), rest) := by
  simp only [product, operands_register, read, Option.bind_eq_bind, Option.bind_some,
    Option.pure_def, if_true]

theorem accumulator_long {operation : Arithmetic} {value : BitVec 32} :
    accumulator operation (littleEndian 4 value ++ rest) =
      some (.instruction (.arithConstant operation 0 value), rest) := by
  simp only [accumulator, constant_long, Option.bind_eq_bind, Option.bind_some, Option.pure_def]

theorem next_push (source : Gpr) :
    next ((Instruction.push source).bytes ++ rest) = some (.instruction (.push source), rest) := by
  obtain ⟨group, named, untagged, notOne, notOther, unescaped, notReturn, _⟩ :=
    opcode_naming source (.inl rfl)
  rw [Instruction.bytes, List.append_assoc, List.singleton_append,
    next_narrow notOne notOther untagged unescaped, operation, if_neg notReturn, group, named,
    if_pos (by decide), Rex.naming_target, register_low]

theorem next_pop (target : Gpr) :
    next ((Instruction.pop target).bytes ++ rest) = some (.instruction (.pop target), rest) := by
  obtain ⟨group, named, untagged, notOne, notOther, unescaped, notReturn, _⟩ :=
    opcode_naming target (.inr (.inl rfl))
  rw [Instruction.bytes, List.append_assoc, List.singleton_append,
    next_narrow notOne notOther untagged unescaped, operation, if_neg notReturn, group, named,
    if_neg (by decide), if_pos (by decide), Rex.naming_target, register_low]

theorem next_constant (target : Gpr) (value : Word) :
    next ((Instruction.constant target value).bytes ++ rest) =
      some (.instruction (.constant target value), rest) := by
  obtain ⟨group, named, _, _, _, unescaped, notReturn, notCall⟩ :=
    opcode_naming target (.inr (.inr rfl))
  rw [Instruction.bytes, List.cons_append, List.cons_append, next_wide unescaped, operation,
    if_neg notReturn, group, named, if_neg (by decide), if_neg (by decide), if_neg notCall,
    Rex.naming_wide, if_pos rfl, wideOperation, group, named, if_pos (by decide),
    quantity_littleEndian, Rex.naming_target, register_low]
  exact congrArg (fun value => some (Decoded.instruction (.constant target value), rest))
    BitVec.extractLsb'_eq_self

theorem next_call (target : Gpr) :
    next ((Instruction.call target).bytes ++ rest) = some (.instruction (.call target), rest) := by
  have digit : rexNarrow 0 target = rexNarrow 2 target := rfl
  rw [Instruction.bytes, List.append_assoc, List.cons_append, digit,
    next_narrow (by decide) (by decide) (by decide) (by decide)]
  exact (congrArg (· >>= _) (operands_register false 2 target rest)).trans rfl

/-- A sum or a difference with a constant, in the form for any register. -/
theorem next_arithmetic (digit : Fin 16) {target : Fin 16} {operation : Arithmetic}
    {value : BitVec 32} (means : arithmeticOf (digit.val % 8) = some operation) :
    next ((if fitsByte value then
        rexWide digit target :: 0x83 :: registerOperand (low digit) (low target) ++
          littleEndian 1 value
      else
        rexWide digit target :: 0x81 :: registerOperand (low digit) (low target) ++
          littleEndian 4 value) ++ rest) =
      some (.instruction (.arithConstant operation target value), rest) := by
  by_cases short : fitsByte value = true
  · simp only [short, if_true, List.cons_append, List.append_assoc]
    exact (next_wide (by decide)).trans (arithmetic_read means (constant_short short))
  · simp only [short, Bool.false_eq_true, if_false, List.cons_append, List.append_assoc]
    exact (next_wide (by decide)).trans (arithmetic_read means (constant_long value))

theorem next_product (target : Gpr) (value : BitVec 32) :
    next ((Instruction.arithConstant .mul target value).bytes ++ rest) =
      some (.instruction (.arithConstant .mul target value), rest) := by
  by_cases short : fitsByte value = true
  · simp only [Instruction.bytes, short, if_true, List.cons_append, List.append_assoc]
    exact (next_wide (by decide)).trans (product_read (constant_short short))
  · simp only [Instruction.bytes, short, Bool.false_eq_true, if_false, List.cons_append,
      List.append_assoc]
    exact (next_wide (by decide)).trans (product_read (constant_long value))

theorem next_arithConstant (operation : Arithmetic) (target : Gpr) (value : BitVec 32) :
    next ((Instruction.arithConstant operation target value).bytes ++ rest) =
      some (.instruction (.arithConstant operation target value), rest) := by
  by_cases accumulator : target = 0
  · subst accumulator
    cases operation with
    | mul => exact next_product 0 value
    | add => exact (@next_wide 0 0 _ _ (by decide)).trans accumulator_long
    | sub => exact (@next_wide 0 0 _ _ (by decide)).trans accumulator_long
  · cases operation with
    | mul => exact next_product target value
    | add =>
      simp only [Instruction.bytes, accumulator, if_false]
      exact next_arithmetic 0 rfl
    | sub =>
      simp only [Instruction.bytes, accumulator, if_false]
      exact next_arithmetic 5 rfl

/-- An instruction is read from the front of its bytes, whatever follows them. -/
theorem next_bytes (instruction : Instruction) (rest : List Byte) :
    next (instruction.bytes ++ rest) = some (.instruction instruction, rest) := by
  cases instruction with
  | copyGpr target source => exact next_onRegister (by decide) rfl
  | copyXmm target source =>
    simp only [Instruction.bytes, List.cons_append, List.append_assoc]
    exact (next_selected_narrow (.inr rfl)).trans (escaped_onRegister rfl)
  | gprToXmm target source => exact next_selected_wide.trans (escaped_onRegister rfl)
  | xmmToGpr target source => exact next_selected_wide.trans (escaped_onRegister rfl)
  | constant target value => exact next_constant target value
  | loadGpr target source => exact next_onMemory (by decide) rfl
  | loadXmm target source =>
    simp only [Instruction.bytes, List.cons_append, List.append_assoc]
    exact (next_selected_narrow (.inr rfl)).trans (escaped_onMemory rfl)
  | storeGpr target source => exact next_onMemory (by decide) rfl
  | storeXmm target source =>
    simp only [Instruction.bytes, List.cons_append, List.append_assoc]
    exact (next_selected_narrow (.inl rfl)).trans (escaped_onMemory rfl)
  | arith operation target source =>
    cases operation with
    | add => exact next_onRegister (by decide) rfl
    | sub => exact next_onRegister (by decide) rfl
    | mul => exact next_wide_escaped.trans (escaped_onRegister rfl)
  | arithConstant operation target value => exact next_arithConstant operation target value
  | arithMemory operation target source =>
    cases operation with
    | add => exact next_onMemory (by decide) rfl
    | sub => exact next_onMemory (by decide) rfl
    | mul => exact next_wide_escaped.trans (escaped_onMemory rfl)
  | address target source => exact next_onMemory (by decide) rfl
  | push source => exact next_push source
  | pop target => exact next_pop target
  | call target => exact next_call target
  | ret => rfl

theorem bytes_ne_nil (instruction : Instruction) : instruction.bytes ≠ [] := by
  intro nothing
  have read := next_bytes instruction []
  rw [nothing] at read
  exact absurd read (by simp [next, selector, rex])

theorem within_machineCode (instructions : List Instruction) {count : Nat}
    (enough : instructions.length ≤ count) :
    within count (machineCode instructions) = some (instructions.map .instruction) := by
  induction instructions generalizing count with
  | nil => cases count <;> rfl
  | cons first later ih =>
    cases count with
    | zero => exact absurd enough (by simp)
    | succ count =>
      obtain ⟨byte, bytes, front⟩ := List.exists_cons_of_ne_nil (bytes_ne_nil first)
      have read := next_bytes first (machineCode later)
      have goesOn := ih (Nat.le_of_succ_le_succ enough)
      simp only [machineCode, List.flatMap_cons, front, List.cons_append] at read goesOn ⊢
      simp only [within, read, goesOn, Option.bind_eq_bind, Option.bind_some, Option.pure_def,
        List.map_cons]

theorem length_le_machineCode (instructions : List Instruction) :
    instructions.length ≤ (machineCode instructions).length := by
  induction instructions with
  | nil => exact Nat.le_refl 0
  | cons first later ih =>
    have some := List.length_pos_iff.mpr (bytes_ne_nil first)
    simp only [machineCode, List.flatMap_cons, List.length_append, List.length_cons] at ih ⊢
    omega

end Decoding

/-- Machine code is read as the instructions it was written for. -/
theorem decode_machineCode (instructions : List Instruction) :
    decode (machineCode instructions) = some (instructions.map .instruction) :=
  Decoding.within_machineCode instructions (Decoding.length_le_machineCode instructions)

/-- Different instructions have different machine code. -/
theorem machineCode_injective {one other : List Instruction}
    (same : machineCode one = machineCode other) : one = other := by
  have read := congrArg decode same
  rw [decode_machineCode, decode_machineCode, Option.some.injEq] at read
  exact List.map_inj_right (fun _ _ => Decoded.instruction.inj) |>.mp read

namespace Request

/-- What a request is granted as asks for what the request did. -/
theorem map_request_of_instructions {request : Request} {instructions : List Instruction}
    (granted : request.instructions = .ok instructions) :
    instructions.map Instruction.request = [request].filter fun request => !request.isIdle := by
  cases request with
  | move target source =>
    simp only [Request.instructions, moveInstructions] at granted
    split at granted
    case isTrue same =>
      simp only [except_pure_eq_ok] at granted
      simp [← granted, isIdle, same]
    case isFalse differ =>
      have busy : [move target source].filter (fun request => !request.isIdle) =
          [move target source] := by simp [isIdle, differ]
      rw [busy]
      split at granted <;> simp only [except_bind_eq_ok, except_pure_eq_ok] at granted
      · obtain ⟨left, leftReal, right, rightReal, rfl⟩ := granted
        rw [Register.eq_of_toGpr leftReal, Register.eq_of_toGpr rightReal]
        rfl
      · obtain ⟨left, leftReal, right, rightReal, rfl⟩ := granted
        rw [Register.eq_of_toXmm leftReal, Register.eq_of_toXmm rightReal]
        rfl
      · obtain ⟨left, leftReal, right, rightReal, rfl⟩ := granted
        rw [Register.eq_of_toXmm leftReal, Register.eq_of_toGpr rightReal]
        rfl
      · obtain ⟨left, leftReal, right, rightReal, rfl⟩ := granted
        rw [Register.eq_of_toGpr leftReal, Register.eq_of_toXmm rightReal]
        rfl
  | load target base offset =>
    simp only [Request.instructions, except_bind_eq_ok] at granted
    obtain ⟨address, based, granted⟩ := granted
    obtain ⟨rfl, rfl⟩ := eq_of_memory based
    split at granted <;> simp only [except_bind_eq_ok, except_pure_eq_ok] at granted
    · obtain ⟨operand, real, rfl⟩ := granted
      rw [Register.eq_of_toGpr real]
      rfl
    · obtain ⟨operand, real, rfl⟩ := granted
      rw [Register.eq_of_toXmm real]
      rfl
  | store base offset source =>
    simp only [Request.instructions, except_bind_eq_ok] at granted
    obtain ⟨address, based, granted⟩ := granted
    obtain ⟨rfl, rfl⟩ := eq_of_memory based
    split at granted <;> simp only [except_bind_eq_ok, except_pure_eq_ok] at granted
    · obtain ⟨operand, real, rfl⟩ := granted
      rw [Register.eq_of_toGpr real]
      rfl
    · obtain ⟨operand, real, rfl⟩ := granted
      rw [Register.eq_of_toXmm real]
      rfl
  | arith operation target source =>
    simp only [Request.instructions, except_bind_eq_ok, except_pure_eq_ok] at granted
    obtain ⟨left, leftReal, right, rightReal, rfl⟩ := granted
    rw [Register.eq_of_toGpr leftReal, Register.eq_of_toGpr rightReal]
    rfl
  | arithMemory operation target base offset =>
    simp only [Request.instructions, except_bind_eq_ok, except_pure_eq_ok] at granted
    obtain ⟨left, leftReal, address, based, rfl⟩ := granted
    obtain ⟨rfl, rfl⟩ := eq_of_memory based
    rw [Register.eq_of_toGpr leftReal]
    rfl
  | address target base offset =>
    simp only [Request.instructions, except_bind_eq_ok, except_pure_eq_ok] at granted
    obtain ⟨left, leftReal, address, based, rfl⟩ := granted
    obtain ⟨rfl, rfl⟩ := eq_of_memory based
    rw [Register.eq_of_toGpr leftReal]
    rfl
  | ret =>
    simp only [Request.instructions, except_pure_eq_ok] at granted
    subst granted
    rfl
  | constant target _ | arithConstant _ target _ | call target | push target | pop target =>
    simp only [Request.instructions, except_bind_eq_ok, except_pure_eq_ok] at granted
    obtain ⟨operand, real, rfl⟩ := granted
    rw [Register.eq_of_toGpr real]
    rfl

end Request

/-- What a list of requests is granted as asks for what the requests did. -/
theorem map_request_of_assemble {requests : List Request}
    (granted : (assemble requests).fault = none) :
    (assemble requests).instructions.map Instruction.request =
      requests.filter fun request => !request.isIdle := by
  induction requests with
  | nil => rfl
  | cons first later ih =>
    rw [assemble] at granted ⊢
    cases begun : first.instructions with
    | error fault => simp [begun] at granted
    | ok instructions =>
      simp only [begun] at granted ⊢
      rw [List.map_append, Request.map_request_of_instructions begun, ih granted,
        ← List.filter_append, List.singleton_append]

namespace Code

/-- A sequence of operations that succeed writes the instructions that they ask for. -/
theorem map_request_of_write {operations : List (List Request)} {before after : Code}
    (written : operations.forM Code.write before = .ok () after) :
    after.toList.map Instruction.request = before.toList.map Instruction.request ++
      operations.flatten.filter fun request => !request.isIdle := by
  induction operations generalizing before with
  | nil =>
    obtain ⟨_, rfl⟩ := estate_pure_eq_ok.mp written
    simp
  | cons first later ih =>
    obtain ⟨_, middle, begun, goesOn⟩ := estate_bind_eq_ok.mp written
    rw [ih goesOn]
    simp only [Code.write] at begun
    cases granted : (assemble first).fault with
    | some fault => simp [granted] at begun
    | none =>
      simp only [granted, EStateM.Result.ok.injEq, true_and] at begun
      rw [← begun, List.flatten_cons, List.filter_append, Array.toList_appendList, List.map_append,
        map_request_of_assemble granted, List.append_assoc]

end Code

/-- Code that is written by operations that all succeed reads back, from front to back and to the
end, as the instructions that were asked for: every request in order, with its operands, but for
moves of a register to itself. It has as many instructions as were counted, no operand of them is
relative to its place, and no other operations write the same code. -/
theorem write_decode {operations : List (List Request)} {code : Code}
    (written : operations.forM Code.write #[] = .ok () code) :
    ∃ instructions : List Instruction,
      decode (machineCode code.toList) = some (instructions.map .instruction) ∧
      instructions.map Instruction.request =
        operations.flatten.filter (fun request => !request.isIdle) ∧
      instructions.length = code.size ∧
      ∀ {otherOperations : List (List Request)} {otherCode : Code},
        otherOperations.forM Code.write #[] = .ok () otherCode →
        machineCode otherCode.toList = machineCode code.toList →
        otherCode = code ∧ otherOperations.flatten.filter (fun request => !request.isIdle) =
          operations.flatten.filter (fun request => !request.isIdle) := by
  have asked := Code.map_request_of_write written
  rw [List.map_nil, List.nil_append] at asked
  refine ⟨code.toList, decode_machineCode _, asked, Array.length_toList, ?_⟩
  intro otherOperations otherCode otherWritten same
  have sameCode : otherCode = code := Array.toList_inj.mp (machineCode_injective same)
  have otherAsked := Code.map_request_of_write otherWritten
  rw [List.map_nil, List.nil_append] at otherAsked
  exact ⟨sameCode, by rw [← otherAsked, ← asked, sameCode]⟩

/-- Operands that are not encoded in the plain way: bases that take a byte of their own or always
a displacement, the accumulator, and both lengths of displacements and constants. -/
theorem write_decode_irregular :
    let operations : List (List Request) :=
      [[.load (.gp 12) .rsp 0, .store (.gp 13) 0 (.xmm 9)], [.move (.xmm 8) (.xmm 8)],
        [.arithConstant .sub .rax (-129), .arithConstant .mul (.gp 8) 127],
        [.arithMemory .add (.gp 3) (.gp 12) 128, .constant (.gp 15) 0xFFFFFFFFFFFFFFFF]]
    ∃ code : Code, operations.forM Code.write #[] = .ok () code ∧ code.size = 6 ∧
      ∃ instructions : List Instruction,
        decode (machineCode code.toList) = some (instructions.map .instruction) ∧
        instructions.map Instruction.request =
          [.load (.gp 12) .rsp 0, .store (.gp 13) 0 (.xmm 9), .arithConstant .sub .rax (-129),
            .arithConstant .mul (.gp 8) 127, .arithMemory .add (.gp 3) (.gp 12) 128,
            .constant (.gp 15) 0xFFFFFFFFFFFFFFFF] := by
  intro operations
  have written : ∃ code, operations.forM Code.write #[] = .ok () code ∧ code.size = 6 :=
    ⟨_, rfl, by decide⟩
  obtain ⟨code, written, size⟩ := written
  obtain ⟨instructions, read, asked, _⟩ := write_decode written
  exact ⟨code, written, size, instructions, read, asked.trans (by decide)⟩

end NativeExpr
