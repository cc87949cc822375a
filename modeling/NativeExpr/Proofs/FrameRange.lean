import NativeExpr.Proofs.Exhaustion.Compilation
import NativeExpr.Proofs.StackDepth.Compilation

/-!
# The range of frame arithmetic

The offsets and the size of a frame are 32-bit numbers that are computed from counts of any size.
`Frame.Fits` says that none of these computations leaves the range of its numbers. Of what depends
on it, the offsets are the first to go wrong, then the size when it is read as a signed number by
the instruction that reserves the body, and last the size itself. The number of slots is limited
nowhere, so that options can ask for any of these frames.
-/

namespace NativeExpr

namespace Frame

/-- Whether the offset of a cell is computed without leaving the signed 32-bit numbers: each step
from the count of the saved registers and from the position has its true result. -/
structure CellFits (position : Nat) : Prop where
  saved : ¬(8 : Offset).smulOverflow (BitVec.ofNat 32 Convention.calleeSaved.length)
  belowSaved : ¬savedArea.negOverflow
  narrowed : (BitVec.ofNat 32 position).toInt = position
  next : ¬(BitVec.ofNat 32 position).saddOverflow 1
  bytes : ¬(8 : Offset).smulOverflow (BitVec.ofNat 32 position + 1)
  offset : ¬(-savedArea).ssubOverflow (8 * (BitVec.ofNat 32 position + 1))

/-- Whether the size of a body is computed without leaving the unsigned 32-bit numbers. A word is
added only to an even number of them. -/
structure SizeFits (cells : Nat) : Prop where
  narrowed : (BitVec.ofNat 32 cells).toNat = cells
  bytes : ¬(8 : BitVec 32).umulOverflow (BitVec.ofNat 32 cells)
  aligned : 8 * BitVec.ofNat 32 cells % 16 ≠ 8 →
    ¬(8 * BitVec.ofNat 32 cells).uaddOverflow 8

/-- Whether the frame of a function with that many parameters and slots is computed without
leaving the range of its numbers. -/
structure Fits (parameters slots : Nat) : Prop where
  offsets : ∀ position < parameters + slots, CellFits position
  size : SizeFits (parameters + slots)

/-- An offset that is computed in range is what it would be without bounds. -/
theorem CellFits.toInt_cell {position : Nat} (fits : CellFits position) :
    (cell position).toInt = -(48 + 8 * position : Int) := by
  have next := BitVec.toInt_add_of_not_saddOverflow fits.next
  have bytes := BitVec.toInt_mul_of_not_smulOverflow fits.bytes
  have offset := BitVec.toInt_sub_of_not_ssubOverflow fits.offset
  have start : (-savedArea).toInt = -40 := by decide
  rw [cell, offset, start, bytes, next, fits.narrowed]
  simp only [BitVec.reduceToInt]
  omega

theorem cellFits_iff {position : Nat} : CellFits position ↔ position < 2 ^ 28 - 5 := by
  constructor
  · intro fits
    have lowest := BitVec.le_toInt (cell position)
    rw [fits.toInt_cell] at lowest
    omega
  · intro small
    have narrowed : (BitVec.ofNat 32 position).toInt = position := by
      rw [BitVec.toInt_eq_toNat_of_lt] <;> rw [BitVec.toNat_ofNat] <;> omega
    have next : ¬(BitVec.ofNat 32 position).saddOverflow 1 := by
      simp only [BitVec.saddOverflow, narrowed, BitVec.reduceToInt, Bool.or_eq_true,
        decide_eq_true_eq]
      omega
    have following := BitVec.toInt_add_of_not_saddOverflow next
    have bytes : ¬(8 : Offset).smulOverflow (BitVec.ofNat 32 position + 1) := by
      simp only [BitVec.smulOverflow, following, narrowed, BitVec.reduceToInt, Bool.or_eq_true,
        decide_eq_true_eq]
      omega
    have taken := BitVec.toInt_mul_of_not_smulOverflow bytes
    refine ⟨by decide, by decide, narrowed, next, bytes, ?_⟩
    have start : (-savedArea).toInt = -40 := by decide
    simp only [BitVec.ssubOverflow, start, taken, following, narrowed, BitVec.reduceToInt,
      Bool.or_eq_true, decide_eq_true_eq]
    omega

theorem sizeFits_iff {cells : Nat} : SizeFits cells ↔ cells < 2 ^ 29 := by
  have product : (8 : BitVec 32).toNat = 8 := rfl
  constructor
  · intro fits
    have bytes := fits.bytes
    simp only [BitVec.umulOverflow, fits.narrowed, product, decide_eq_true_eq] at bytes
    omega
  · intro small
    have narrowed : (BitVec.ofNat 32 cells).toNat = cells := by
      rw [BitVec.toNat_ofNat]
      omega
    have bytes : ¬(8 : BitVec 32).umulOverflow (BitVec.ofNat 32 cells) := by
      simp only [BitVec.umulOverflow, narrowed, product, decide_eq_true_eq]
      omega
    have taken := BitVec.toNat_mul_of_not_umulOverflow bytes
    refine ⟨narrowed, bytes, fun short => ?_⟩
    -- An even number of words leaves room for one more.
    have even : 8 * cells % 16 ≠ 8 := by
      intro odd
      apply short
      apply BitVec.eq_of_toNat_eq
      rw [BitVec.toNat_umod, taken, narrowed, product]
      exact odd
    simp only [BitVec.uaddOverflow, taken, narrowed, product, decide_eq_true_eq]
    omega

theorem fits_iff {parameters slots : Nat} :
    Fits parameters slots ↔ parameters + slots ≤ 2 ^ 28 - 5 := by
  constructor
  · intro fits
    by_contra many
    have last := cellFits_iff.mp (fits.offsets (2 ^ 28 - 5) (by omega))
    omega
  · intro few
    exact ⟨fun position within => cellFits_iff.mpr (by omega), sizeFits_iff.mpr (by omega)⟩

/-- The words of a new frame are its cells, those of the parameters first. -/
theorem words_new (parameters slots : Nat) :
    (new parameters slots).homes ++ (new parameters slots).free =
      (List.range (parameters + slots)).map cell := by
  rw [new, ← List.map_append, List.range_eq_range', List.range_eq_range', ← List.range'_append,
    Nat.zero_add, Nat.one_mul]

/-- The words of a new frame are below its frame pointer if their offsets are computed in range,
and else one is not. -/
theorem words_below_iff {parameters slots : Nat} :
    (∀ offset ∈ (new parameters slots).homes ++ (new parameters slots).free, offset.toInt < 0) ↔
      parameters + slots ≤ 2 ^ 28 - 5 := by
  simp only [words_new, List.forall_mem_map, List.mem_range]
  constructor
  · intro below
    by_contra many
    have first := below (2 ^ 28 - 5) (by omega)
    exact absurd first (by decide)
  · intro few position within
    rw [toInt_cell (by omega)]
    omega

/-- The size of a body is not negative as a signed number. -/
theorem bodySize_nonneg_iff {cells : Nat} :
    0 ≤ (bodySize cells).toInt ↔ cells % 2 ^ 29 < 2 ^ 28 := by
  rw [BitVec.toInt_pos_iff, toNat_bodySize_eq]
  omega

/-- The size of a body is that of its cells, made up to an odd number of words. -/
theorem bodySize_exact_iff {cells : Nat} :
    (bodySize cells).toNat = 16 * (cells / 2) + 8 ↔ cells < 2 ^ 29 := by
  rw [toNat_bodySize_eq]
  omega

/-- The bottom of a frame is as far below the saved words as the frame is large just if its size is
not negative as a signed number. -/
theorem bottom_eq_iff {frame : Frame} (entry : Machine) :
    frame.bottom entry = entry.get .rsp - 48 - BitVec.ofNat 64 frame.size.toNat ↔
      0 ≤ frame.size.toInt := by
  have extended := Machine.toNat_offset frame.size
  have signed := BitVec.toInt_eq_toNat_cond frame.size
  rw [bottom_eq, BitVec.sub_right_inj, ← BitVec.toNat_inj, BitVec.toNat_ofNat]
  split at signed <;> omega

end Frame

namespace Options

/-- The other variables say nothing about slots. -/
theorem tempSlots_override {resource : Resource} (other : resource ≠ .tempSlots)
    (value? : String → Option String) (state : Options × List String) :
    (override value? state resource).1.tempSlots = state.1.tempSlots := by
  simp only [override]
  split
  · rfl
  · split
    · cases resource with
      | gpRegisters => rfl
      | xmmRegisters => rfl
      | tempSlots => exact absurd rfl other
    · rfl

/-- An environment has the number of slots that its variable counts. -/
theorem tempSlots_ofEnvironment (value? : String → Option String) :
    (ofEnvironment value?).1.tempSlots =
      ((value? Resource.tempSlots.environmentName).bind Text.count?).getD default.tempSlots := by
  have before := (tempSlots_override (by decide : Resource.xmmRegisters ≠ .tempSlots) value?
    (override value? (default, []) .gpRegisters)).trans
      (tempSlots_override (by decide : Resource.gpRegisters ≠ .tempSlots) value? (default, []))
  simp only [ofEnvironment, Resource.all, List.foldl_cons, List.foldl_nil]
  rw [override]
  split
  · rename_i unset
    simpa [unset] using before
  · rename_i text set
    cases counted : Text.count? text with
    | none => simpa [set, counted] using before
    | some count => simp [set, counted, Options.set]

/-- Any number of slots is accepted, whether it is set or comes from the environment. With any
options and parameters, the numbers of a frame are computed in range, and all its words are below
the frame pointer, just if there are at most 2 ^ 28 - 5 words. The size is that of the words, made
up to an odd number, just if there are less than 2 ^ 29. It is not negative as a signed number, and
so a function begins by lowering the stack pointer below the saved words by exactly the size, just
if the number of words is less than 2 ^ 28 modulo 2 ^ 29. -/
theorem frame_range (options : Options) (parameters : List Kind) :
    let cells := parameters.length + options.tempSlots
    let frame := Frame.new parameters.length options.tempSlots
    (Frame.Fits parameters.length options.tempSlots ↔ cells ≤ 2 ^ 28 - 5) ∧
      ((∀ offset ∈ frame.homes ++ frame.free, offset.toInt < 0) ↔ cells ≤ 2 ^ 28 - 5) ∧
      (frame.size.toNat = 16 * (cells / 2) + 8 ↔ cells < 2 ^ 29) ∧
      (0 ≤ frame.size.toInt ↔ cells % 2 ^ 29 < 2 ^ 28) ∧
      (∃ started, Routine.start parameters options.tempSlots = .ok started ∧
        started.frame = frame ∧ ∀ natives (entry : Machine),
          (entry.after natives started.code.toList).get .rsp =
              entry.get .rsp - 48 - BitVec.ofNat 64 frame.size.toNat ↔
            cells % 2 ^ 29 < 2 ^ 28) ∧
      (∀ count, (options.set .tempSlots count).tempSlots = count) ∧
      ∀ value? : String → Option String, (ofEnvironment value?).1.tempSlots =
        ((value? Resource.tempSlots.environmentName).bind Text.count?).getD default.tempSlots := by
  intro cells frame
  obtain ⟨started, starts⟩ := Routine.start_ok parameters options.tempSlots
  have framed : started.frame = frame := Routine.frame_eq_of_start starts
  refine ⟨Frame.fits_iff, Frame.words_below_iff, Frame.bodySize_exact_iff,
    Frame.bodySize_nonneg_iff, ⟨started, starts, framed, fun natives entry => ?_⟩,
    fun count => rfl, tempSlots_ofEnvironment⟩
  calc (entry.after natives started.code.toList).get .rsp =
        entry.get .rsp - 48 - BitVec.ofNat 64 frame.size.toNat
    _ ↔ frame.bottom entry = entry.get .rsp - 48 - BitVec.ofNat 64 frame.size.toNat := by
      rw [← framed, ← Routine.stackPointer_of_start starts natives entry]
      rfl
    _ ↔ 0 ≤ frame.size.toInt := Frame.bottom_eq_iff entry
    _ ↔ cells % 2 ^ 29 < 2 ^ 28 := Frame.bodySize_nonneg_iff

/-- An environment asks for 2 ^ 28 slots and is not refused. A slot of their frame is above the
frame pointer, and the size is read as a negative number: the function begins by raising the stack
pointer. -/
theorem frame_range_exceeded :
    let value? : String → Option String := fun name =>
      if name = "EXPRJIT_TEMP_SLOTS" then some "268435456" else none
    let options := (ofEnvironment value?).1
    let frame := Frame.new 0 options.tempSlots
    (ofEnvironment value?).2 = [] ∧ ¬Frame.Fits 0 options.tempSlots ∧
      (∃ slot ∈ frame.free, slot.toInt = 2147483640) ∧
      frame.size = 2147483656 ∧ frame.size.toInt = -2147483640 ∧
      ∃ started, Routine.start [] options.tempSlots = .ok started ∧
        ∀ natives (entry : Machine), (entry.after natives started.code.toList).get .rsp =
          entry.get .rsp - 48 + 2147483640 := by
  intro value? options frame
  have asked : ofEnvironment value? = (⟨13, 15, 268435456⟩, []) := by decide +kernel
  have slots : options.tempSlots = 268435456 := by simp only [options, asked]
  have size : frame.size = 2147483656 := by
    simp only [frame, slots]
    rfl
  obtain ⟨started, starts⟩ := Routine.start_ok [] options.tempSlots
  have framed : started.frame = frame := Routine.frame_eq_of_start starts
  refine ⟨by rw [asked], ?_, ⟨Frame.cell (2 ^ 28 - 5), ?_, by decide⟩, size, by rw [size]; rfl,
    started, starts, fun natives entry => ?_⟩
  · rw [Frame.fits_iff, slots]
    decide
  · have within : 2 ^ 28 - 5 ∈ List.range' 0 options.tempSlots := by
      rw [List.mem_range'_1, slots]
      decide
    exact List.mem_map_of_mem within
  · have extended : (2147483656 : BitVec 32).signExtend 64 = -2147483640 := by decide
    have stack := Routine.stackPointer_of_start starts natives entry
    rw [framed, Frame.bottom_eq, size, extended, BitVec.sub_neg] at stack
    exact stack

end Options

end NativeExpr
