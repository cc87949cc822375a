import NativeExpr.Register

/-!
# Sets of registers

A set holds one bit per register of the machine. A number past the end of its
bank has no bit: it is never a member, and inserting or erasing it does nothing.
-/

namespace NativeExpr

/-- A set of machine registers, one mask per bank. -/
structure RegisterSet where
  masks : PerBank (BitVec 16)
deriving DecidableEq

namespace RegisterSet

/-- The set without members. -/
def empty : RegisterSet := ⟨.both 0⟩

/-- The mask of one number, empty for a number past the end of a bank. -/
def bit (number : Nat) : BitVec 16 :=
  if number < Bank.size then BitVec.twoPow 16 number else 0

/-- Whether a register is a member. -/
def contains (set : RegisterSet) (register : Register) : Bool :=
  (set.masks.get register.bank).getLsbD register.number

/-- Adds a register. -/
def insert (set : RegisterSet) (register : Register) : RegisterSet :=
  ⟨set.masks.set register.bank (set.masks.get register.bank ||| bit register.number)⟩

/-- Removes a register. -/
def erase (set : RegisterSet) (register : Register) : RegisterSet :=
  ⟨set.masks.set register.bank (set.masks.get register.bank &&& ~~~bit register.number)⟩

/-- The set of the registers in a list. -/
def ofList (registers : List Register) : RegisterSet := registers.foldl insert empty

/-- Every register of one bank. -/
def allIn (bank : Bank) : RegisterSet := ⟨(PerBank.both 0).set bank (BitVec.allOnes 16)⟩

/-- The registers in either set. -/
def union (left right : RegisterSet) : RegisterSet :=
  ⟨left.masks.zipWith (fun mine theirs => mine ||| theirs) right.masks⟩

/-- The registers in both sets. -/
def inter (left right : RegisterSet) : RegisterSet :=
  ⟨left.masks.zipWith (fun mine theirs => mine &&& theirs) right.masks⟩

/-- The registers of the left set that are not in the right one. -/
def diff (left right : RegisterSet) : RegisterSet :=
  ⟨left.masks.zipWith (fun mine theirs => mine &&& ~~~theirs) right.masks⟩

/-- The members in one bank, in ascending number. -/
def membersIn (set : RegisterSet) (bank : Bank) : List Register :=
  ((List.range Bank.size).map (Register.mk bank)).filter set.contains

/-- All members, the general-purpose bank first. -/
def toList (set : RegisterSet) : List Register := Bank.all.flatMap set.membersIn

/-- The lowest-numbered member in one bank. -/
def lowestIn? (set : RegisterSet) (bank : Bank) : Option Register := (set.membersIn bank).head?

/-- The number of members in one bank. -/
def countIn (set : RegisterSet) (bank : Bank) : Nat := (set.membersIn bank).length

/-- Whether the set has no member. -/
def isEmpty (set : RegisterSet) : Bool := set == empty

theorem getLsbD_bit (number position : Nat) :
    (bit number).getLsbD position = decide (position = number ∧ number < Bank.size) := by
  by_cases within : number < Bank.size
  · have : number < 16 := within
    by_cases same : position = number
    · subst same
      simp [bit, within, this]
    · simp [bit, within, same, Ne.symm same]
  · simp [bit, within]

@[simp] theorem contains_empty (register : Register) : empty.contains register = false := by
  simp [contains, empty]

theorem contains_insert (set : RegisterSet) (added register : Register) :
    (set.insert added).contains register =
      (set.contains register || decide (register = added ∧ added.number < Bank.size)) := by
  obtain ⟨addedBank, addedNumber⟩ := added
  obtain ⟨bank, number⟩ := register
  by_cases same : bank = addedBank
  · subst same
    simp [contains, insert, PerBank.get_set, getLsbD_bit]
  · simp [contains, insert, PerBank.get_set, same]

theorem contains_erase (set : RegisterSet) (removed register : Register) :
    (set.erase removed).contains register =
      (set.contains register && decide (register ≠ removed)) := by
  obtain ⟨removedBank, removedNumber⟩ := removed
  obtain ⟨bank, number⟩ := register
  by_cases same : bank = removedBank
  · subst same
    by_cases within : number < 16
    · have other := getLsbD_bit removedNumber number
      by_cases equal : number = removedNumber
      · subst equal
        simp [contains, erase, PerBank.get_set, other, Bank.size, within,
          -BitVec.getLsbD_eq_getElem]
      · simp [contains, erase, PerBank.get_set, other, equal, within,
          -BitVec.getLsbD_eq_getElem]
    · have outside : (set.masks.get bank).getLsbD number = false :=
        BitVec.getLsbD_of_ge _ _ (by omega)
      simp [contains, erase, PerBank.get_set, outside]
  · simp [contains, erase, PerBank.get_set, same]

@[simp] theorem contains_union (left right : RegisterSet) (register : Register) :
    (left.union right).contains register =
      (left.contains register || right.contains register) := by
  simp [contains, union]

@[simp] theorem contains_inter (left right : RegisterSet) (register : Register) :
    (left.inter right).contains register =
      (left.contains register && right.contains register) := by
  simp [contains, inter]

theorem contains_diff (left right : RegisterSet) (register : Register) :
    (left.diff right).contains register =
      (left.contains register && !right.contains register) := by
  by_cases within : register.number < 16
  · simp [contains, diff, within]
  · have outside : (left.masks.get register.bank).getLsbD register.number = false :=
      BitVec.getLsbD_of_ge _ _ (by omega)
    simp [contains, diff, outside]

theorem contains_allIn (bank : Bank) (register : Register) :
    (allIn bank).contains register =
      decide (register.bank = bank ∧ register.number < Bank.size) := by
  by_cases same : register.bank = bank
  · simp only [contains, allIn, PerBank.get_set, same, if_true, BitVec.getLsbD_allOnes,
      Bank.size, true_and]
  · simp [contains, allIn, PerBank.get_set, same]

theorem number_lt_of_contains {set : RegisterSet} {register : Register}
    (member : set.contains register) : register.number < Bank.size := by
  apply Classical.byContradiction
  intro outside
  have absent : (set.masks.get register.bank).getLsbD register.number = false :=
    BitVec.getLsbD_of_ge _ _ (by simpa [Bank.size] using outside)
  simp [contains, absent] at member

theorem mem_membersIn {set : RegisterSet} {bank : Bank} {register : Register} :
    register ∈ set.membersIn bank ↔ register.bank = bank ∧ set.contains register := by
  constructor
  · intro member
    obtain ⟨listed, contained⟩ := List.mem_filter.mp member
    obtain ⟨number, _, rfl⟩ := List.mem_map.mp listed
    exact ⟨rfl, contained⟩
  · rintro ⟨rfl, contained⟩
    refine List.mem_filter.mpr ⟨List.mem_map.mpr ⟨register.number, ?_, rfl⟩, contained⟩
    exact List.mem_range.mpr (number_lt_of_contains contained)

theorem mem_toList {set : RegisterSet} {register : Register} :
    register ∈ set.toList ↔ set.contains register := by
  rcases register with ⟨bank, number⟩
  cases bank <;> simp [toList, Bank.all, mem_membersIn]

end RegisterSet

end NativeExpr
