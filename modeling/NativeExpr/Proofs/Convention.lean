import NativeExpr.Convention
import NativeExpr.Proofs.Machine.Agreement

/-!
# Places of arguments

The places that the convention gives to arguments: argument registers of the bank of each
argument, no register twice, and then words of the outgoing area that follow one another.
-/

namespace NativeExpr

namespace Convention

theorem bank_of_argumentRegister {bank : Bank} {register : Register}
    (member : register ∈ argumentRegisters.get bank) : register.bank = bank := by
  cases bank with
  | generalPurpose =>
    have all : ∀ register ∈ argumentRegisters.get .generalPurpose,
        register.bank = .generalPurpose := by decide
    exact all register member
  | xmm =>
    have all : ∀ register ∈ argumentRegisters.get .xmm, register.bank = .xmm := by decide
    exact all register member

theorem usable_of_argumentRegister {bank : Bank} {register : Register}
    (member : register ∈ argumentRegisters.get bank) :
    register.Usable ∧ register ∉ callTarget :: calleeSaved := by
  cases bank with
  | generalPurpose =>
    have all : ∀ register ∈ argumentRegisters.get .generalPurpose,
        register.Usable ∧ register ∉ callTarget :: calleeSaved := by decide
    exact all register member
  | xmm =>
    have all : ∀ register ∈ argumentRegisters.get .xmm,
        register.Usable ∧ register ∉ callTarget :: calleeSaved := by decide
    exact all register member

theorem nodup_argumentRegisters (bank : Bank) : (argumentRegisters.get bank).Nodup := by
  cases bank <;> decide

end Convention

namespace Assigner

/-- The state after the arguments of the given kinds. -/
def final (assigner : Assigner) (kinds : List Kind) : Assigner :=
  kinds.foldl (fun assigner kind => (assigner.assign kind).2) assigner

@[simp] theorem final_nil (assigner : Assigner) : assigner.final [] = assigner := rfl

@[simp] theorem final_cons (assigner : Assigner) (kind : Kind) (rest : List Kind) :
    assigner.final (kind :: rest) = (assigner.assign kind).2.final rest := rfl

@[simp] theorem assignAll_cons (assigner : Assigner) (kind : Kind) (rest : List Kind) :
    assigner.assignAll (kind :: rest) =
      (assigner.assign kind).1 :: (assigner.assign kind).2.assignAll rest := rfl

/-- Whether the registers that are left are a last part of the argument registers, and the
bytes given out so far are whole words. -/
structure Proper (assigner : Assigner) : Prop where
  left : ∀ bank, assigner.remaining.get bank <:+ Convention.argumentRegisters.get bank
  words : 8 ∣ assigner.stack

theorem proper_new : new.Proper where
  left _ := List.suffix_rfl
  words := Nat.dvd_zero 8

variable {assigner : Assigner} {kind : Kind} {kinds : List Kind}

/-- An argument goes to the next register of its bank or, if there is none, to the stack. -/
theorem assign_cases (assigner : Assigner) (kind : Kind) :
    (∃ register later, assigner.remaining.get kind.bank = register :: later ∧
      assigner.assign kind =
        (.register register, ⟨assigner.remaining.set kind.bank later, assigner.stack⟩)) ∨
    (assigner.remaining.get kind.bank = [] ∧ assigner.assign kind =
      (.stack (BitVec.ofNat 32 assigner.stack), ⟨assigner.remaining, assigner.stack + 8⟩)) := by
  cases rest : assigner.remaining.get kind.bank with
  | nil => exact .inr ⟨rfl, by simp [assign, rest]⟩
  | cons register later => exact .inl ⟨register, later, rfl, by simp [assign, rest]⟩

theorem Proper.assign (proper : assigner.Proper) (kind : Kind) :
    (assigner.assign kind).2.Proper := by
  rcases assign_cases assigner kind with ⟨register, later, rest, result⟩ | ⟨rest, result⟩
  · rw [result]
    constructor
    · intro bank
      rw [PerBank.get_set]
      split
      · rename_i same
        subst same
        exact ((List.suffix_cons register later).trans (rest ▸ List.suffix_rfl)).trans
          (proper.left kind.bank)
      · exact proper.left bank
    · exact proper.words
  · rw [result]
    exact ⟨proper.left, Nat.dvd_add proper.words (Nat.dvd_refl 8)⟩

/-- Giving out places takes up at most one word of the outgoing area each. -/
theorem stack_final (assigner : Assigner) (kinds : List Kind) :
    assigner.stack ≤ (assigner.final kinds).stack ∧
      (assigner.final kinds).stack ≤ assigner.stack + 8 * kinds.length := by
  induction kinds generalizing assigner with
  | nil => simp
  | cons kind rest ih =>
    have remaining := ih (assigner.assign kind).2
    rw [final_cons, List.length_cons]
    rcases assign_cases assigner kind with ⟨register, later, _, result⟩ | ⟨_, result⟩ <;>
      rw [result] at remaining ⊢ <;> dsimp only at remaining ⊢ <;> omega

theorem length_assignAll (assigner : Assigner) (kinds : List Kind) :
    (assigner.assignAll kinds).length = kinds.length := by
  induction kinds generalizing assigner with
  | nil => rfl
  | cons kind rest ih => simp [ih]

/-- A register that is given out is one of those that were left. -/
theorem Proper.register_mem (proper : assigner.Proper) {register : Register}
    (member : Place.register register ∈ assigner.assignAll kinds) :
    register ∈ assigner.remaining.get register.bank := by
  induction kinds generalizing assigner with
  | nil => exact (List.not_mem_nil member).elim
  | cons kind rest ih =>
    rw [assignAll_cons, List.mem_cons] at member
    rcases assign_cases assigner kind with ⟨first, later, left, result⟩ | ⟨left, result⟩
    · have firstBank : first.bank = kind.bank := by
        apply Convention.bank_of_argumentRegister
        exact (proper.left kind.bank).subset (left ▸ List.mem_cons_self)
      rcases member with same | member
      · rw [result] at same
        obtain rfl := Place.register.inj same
        rw [firstBank, left]
        exact List.mem_cons_self
      · have found := ih (proper.assign kind) member
        rw [result, PerBank.get_set] at found
        split at found
        · rename_i same
          rw [same, left]
          exact List.mem_cons_of_mem first found
        · exact found
    · rcases member with same | member
      · rw [result] at same
        cases same
      · have found := ih (proper.assign kind) member
        rw [result] at found
        exact found

/-- A place on the stack is a word between what was given out before and what is given out in
the end. -/
theorem Proper.stack_mem (proper : assigner.Proper) {offset : Offset}
    (member : Place.stack offset ∈ assigner.assignAll kinds) :
    ∃ position, offset = BitVec.ofNat 32 position ∧ 8 ∣ position ∧ assigner.stack ≤ position ∧
      position + 8 ≤ (assigner.final kinds).stack := by
  induction kinds generalizing assigner with
  | nil => exact (List.not_mem_nil member).elim
  | cons kind rest ih =>
    rw [assignAll_cons, List.mem_cons] at member
    rcases member with same | member
    · rcases assign_cases assigner kind with ⟨_, _, _, result⟩ | ⟨_, result⟩
      · rw [result] at same
        cases same
      · have bound := (stack_final (assigner.assign kind).2 rest).1
        rw [result] at same
        refine ⟨assigner.stack, Place.stack.inj same, proper.words, Nat.le_refl _, ?_⟩
        rw [result] at bound
        simpa [result] using bound
    · obtain ⟨position, same, words, above, below⟩ := ih (proper.assign kind) member
      have bound := (stack_final assigner [kind]).1
      rw [final_cons, final_nil] at bound
      exact ⟨position, same, words, by omega, below⟩

/-- No place is given out twice, as long as the outgoing area is smaller than what an offset
can tell. -/
theorem Proper.nodup_assignAll (proper : assigner.Proper)
    (small : (assigner.final kinds).stack ≤ 2 ^ 32) : (assigner.assignAll kinds).Nodup := by
  induction kinds generalizing assigner with
  | nil => exact List.nodup_nil
  | cons kind rest ih =>
    have later := ih (proper.assign kind) small
    rw [assignAll_cons, List.nodup_cons]
    refine ⟨fun member => ?_, later⟩
    rcases assign_cases assigner kind with ⟨first, others, left, result⟩ | ⟨left, result⟩
    · rw [result] at member
      have found := Proper.register_mem (result ▸ proper.assign kind) member
      have distinct : (first :: others).Nodup := by
        rw [← left]
        exact (Convention.nodup_argumentRegisters kind.bank).sublist (proper.left kind.bank).sublist
      have firstBank : first.bank = kind.bank := by
        apply Convention.bank_of_argumentRegister
        exact (proper.left kind.bank).subset (left ▸ List.mem_cons_self)
      rw [PerBank.get_set, if_pos firstBank] at found
      exact (List.nodup_cons.mp distinct).1 found
    · rw [result] at member
      obtain ⟨position, same, _, above, below⟩ :=
        Proper.stack_mem (result ▸ proper.assign kind) member
      have bound : (Assigner.final ⟨assigner.remaining, assigner.stack + 8⟩ rest).stack ≤ 2 ^ 32 := by
        simpa [result] using small
      have equal := congrArg BitVec.toNat same
      simp only [BitVec.toNat_ofNat] at equal above below
      omega

/-- The bank of a register that is given out is that of the argument. -/
theorem Proper.bank_zip (proper : assigner.Proper) {register : Register}
    (member : (kind, Place.register register) ∈ kinds.zip (assigner.assignAll kinds)) :
    register.bank = kind.bank := by
  induction kinds generalizing assigner with
  | nil => exact (List.not_mem_nil member).elim
  | cons first rest ih =>
    rw [assignAll_cons, List.zip_cons_cons, List.mem_cons] at member
    rcases member with same | member
    · obtain ⟨rfl, same⟩ := Prod.mk.inj same
      rcases assign_cases assigner kind with ⟨given, later, left, result⟩ | ⟨_, result⟩
      · rw [result] at same
        obtain rfl := Place.register.inj same
        apply Convention.bank_of_argumentRegister
        exact (proper.left kind.bank).subset (left ▸ List.mem_cons_self)
      · rw [result] at same
        cases same
    · exact ih (proper.assign first) member

end Assigner

namespace Convention

variable {kinds : List Kind}

/-- An argument register of a signature may hold a value; it is not the one through which
functions are called, nor one that a callee preserves. -/
theorem usable_of_mem_places {register : Register}
    (member : Place.register register ∈ places kinds) :
    register.Usable ∧ register ∉ callTarget :: calleeSaved :=
  usable_of_argumentRegister (Assigner.proper_new.register_mem member)

end Convention

end NativeExpr
