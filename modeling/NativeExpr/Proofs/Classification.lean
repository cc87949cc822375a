import Mathlib.Data.List.Induction
import Mathlib.Order.Bounds.Basic
import NativeExpr.Proofs.Convention

/-!
# The classification of arguments

The convention looks at the arguments of a signature one after the other. An argument goes to the
next argument register of its bank and, once the registers of that bank are used up, to the next
word of the outgoing area. What is left after some arguments depends only on how many there were of
each bank and how many of them went to the outgoing area, and so does the place of the next one.
-/

namespace NativeExpr

namespace Place

/-- Whether an argument is passed on the stack. -/
def isStacked (place : Place) : Bool := place.offset?.isSome

/-- Whether two arguments share neither a register nor a byte of the outgoing area. -/
def Apart : Place → Place → Prop
  | .register first, .register second => first ≠ second
  | .stack first, .stack second =>
    first.toInt + 8 ≤ second.toInt ∨ second.toInt + 8 ≤ first.toInt
  | _, _ => True

end Place

namespace Convention

/-- How many arguments of a bank are passed in registers. -/
def registerArguments : Bank → Nat
  | .generalPurpose => 6
  | .xmm => 8

theorem length_argumentRegisters (bank : Bank) :
    (argumentRegisters.get bank).length = registerArguments bank := by
  cases bank <;> rfl

/-- The number of arguments of a bank. -/
def countIn (kinds : List Kind) (bank : Bank) : Nat := kinds.countP fun kind => kind.bank = bank

/-- The number of arguments that are passed on the stack. -/
def stackArguments (places : List Place) : Nat := places.countP Place.isStacked

end Convention

namespace Assigner

open Convention

theorem final_append (assigner : Assigner) (first second : List Kind) :
    assigner.final (first ++ second) = (assigner.final first).final second := by
  rw [final, List.foldl_append]
  rfl

theorem assignAll_append (assigner : Assigner) (first second : List Kind) :
    assigner.assignAll (first ++ second) =
      assigner.assignAll first ++ (assigner.final first).assignAll second := by
  induction first generalizing assigner with
  | nil => rfl
  | cons kind rest ih => simp only [List.cons_append, assignAll_cons, final_cons, ih]

/-- After some arguments, as many registers of each bank are gone as there were arguments of it,
and as many words of the outgoing area as there were arguments without a register. -/
theorem final_new (kinds : List Kind) :
    (∀ bank, (new.final kinds).remaining.get bank =
      (argumentRegisters.get bank).drop (countIn kinds bank)) ∧
    (new.final kinds).stack = 8 * stackArguments (places kinds) := by
  induction kinds using List.reverseRecOn with
  | nil => exact ⟨fun _ => rfl, rfl⟩
  | append_singleton kinds kind ih =>
    obtain ⟨registers, words⟩ := ih
    have count (bank : Bank) : countIn (kinds ++ [kind]) bank =
        countIn kinds bank + if kind.bank = bank then 1 else 0 := by
      simp [countIn, List.countP_append, List.countP_singleton]
    have given : stackArguments (places (kinds ++ [kind])) = stackArguments (places kinds) +
        if ((new.final kinds).assign kind).1.isStacked then 1 else 0 := by
      simp only [stackArguments, places, assignAll_append, List.countP_append]
      exact congrArg _ List.countP_singleton
    rw [final_append, given, final_cons, final_nil]
    rcases assign_cases (new.final kinds) kind with ⟨register, later, left, result⟩ | ⟨left, result⟩
    · rw [result]
      refine ⟨fun bank => ?_, words⟩
      rw [PerBank.get_set, count]
      split
      · rename_i same
        subst same
        rw [registers] at left
        rw [if_pos rfl, ← List.tail_drop, left, List.tail_cons]
      · rename_i other
        rw [if_neg (Ne.symm other), registers, Nat.add_zero]
    · rw [result]
      refine ⟨fun bank => ?_, ?_⟩
      · rw [registers, count]
        split
        · rename_i same
          subst same
          rw [registers] at left
          rw [left, List.drop_eq_nil_of_le]
          exact Nat.le_succ_of_le (List.drop_eq_nil_iff.mp left)
        · rw [Nat.add_zero]
      · rw [words]
        simp only [Place.isStacked, Place.offset?, Option.isSome_some, if_true]
        omega

/-- The word that was given out last ends what has been given out. -/
theorem last_word (kinds : List Kind) :
    (new.final kinds).stack = 0 ∨
      .stack (BitVec.ofNat 32 ((new.final kinds).stack - 8)) ∈ places kinds := by
  induction kinds using List.reverseRecOn with
  | nil => exact .inl rfl
  | append_singleton kinds kind ih =>
    rw [places, assignAll_append, final_append, final_cons, final_nil]
    rcases assign_cases (new.final kinds) kind with ⟨register, later, _, result⟩ | ⟨_, result⟩
    · rw [result]
      exact ih.imp_right fun earlier => List.mem_append_left _ earlier
    · refine .inr (List.mem_append_right _ ?_)
      rw [assignAll_cons, result, Nat.add_sub_cancel]
      exact List.mem_cons_self

/-- The next argument takes the register that as many arguments of its bank have passed over, or
else the word after those that were taken. -/
theorem assign_final_new (kinds : List Kind) (kind : Kind) :
    (countIn kinds kind.bank < registerArguments kind.bank →
      ∃ register, (argumentRegisters.get kind.bank)[countIn kinds kind.bank]? = some register ∧
        ((new.final kinds).assign kind).1 = .register register) ∧
    (registerArguments kind.bank ≤ countIn kinds kind.bank →
      ((new.final kinds).assign kind).1 =
        .stack (BitVec.ofNat 32 (8 * stackArguments (places kinds)))) := by
  obtain ⟨registers, words⟩ := final_new kinds
  have left := registers kind.bank
  rcases assign_cases (new.final kinds) kind with ⟨register, later, rest, result⟩ | ⟨rest, result⟩
  · have first : (argumentRegisters.get kind.bank)[countIn kinds kind.bank]? = some register := by
      rw [← List.head?_drop, ← left, rest, List.head?_cons]
    have within := (List.getElem?_eq_some_iff.mp first).1
    rw [length_argumentRegisters] at within
    exact ⟨fun _ => ⟨register, first, by rw [result]⟩, fun beyond => absurd within (by omega)⟩
  · rw [rest] at left
    have beyond := List.drop_eq_nil_iff.mp left.symm
    rw [length_argumentRegisters] at beyond
    exact ⟨fun within => absurd beyond (by omega), fun _ => by rw [result, words]⟩

end Assigner

namespace Convention

open Assigner

variable {kinds : List Kind}

/-- The place of an argument follows from the arguments before it. -/
theorem places_of_earlier {index : Nat} {kind : Kind} (found : kinds[index]? = some kind) :
    (places kinds).take index = places (kinds.take index) ∧
      (places kinds)[index]? = some ((new.final (kinds.take index)).assign kind).1 := by
  obtain ⟨within, rfl⟩ := List.getElem?_eq_some_iff.mp found
  have length : (places (kinds.take index)).length = index := by
    rw [places, length_assignAll, List.length_take_of_le within.le]
  have whole : places kinds = places (kinds.take index) ++
      (new.final (kinds.take index)).assignAll (kinds.drop index) := by
    rw [places, places, ← assignAll_append, List.take_append_drop]
  constructor
  · rw [whole, List.take_left' length]
  · rw [whole, List.getElem?_append_right length.le, length, Nat.sub_self,
      List.drop_eq_getElem_cons within, assignAll_cons, List.getElem?_cons_zero]

theorem toInt_word {position : Nat} (small : position < 2 ^ 31) :
    (BitVec.ofNat 32 position).toInt = position := by
  have number : (BitVec.ofNat 32 position).toNat = position := by
    rw [BitVec.toNat_ofNat]
    omega
  rw [BitVec.toInt_eq_toNat_of_lt (by omega), number]

/-- A place on the stack is a word within what is given out in the end. -/
theorem toInt_of_stacked (small : 8 * kinds.length < 2 ^ 31) {offset : Offset}
    (member : .stack offset ∈ places kinds) :
    8 ∣ offset.toInt ∧ 0 ≤ offset.toInt ∧ offset.toInt + 8 ≤ (new.final kinds).stack := by
  obtain ⟨position, rfl, words, _, below⟩ := proper_new.stack_mem member
  have bound := (stack_final new kinds).2
  have start : new.stack = 0 := rfl
  have number : (BitVec.ofNat 32 position).toInt = position := toInt_word (by omega)
  omega

/-- Every argument is classified by the arguments before it: it takes the next argument register of
its bank as long as there is one, and the next word of the outgoing area after that. No two of them
share a register or a byte, and the outgoing area is as small as its alignment allows. -/
theorem places_classified (kinds : List Kind) (small : 8 * kinds.length < 2 ^ 31) :
    (places kinds).length = kinds.length ∧
    (∀ (index : Nat) (kind : Kind), kinds[index]? = some kind →
      ∃ place, (places kinds)[index]? = some place ∧
        (countIn (kinds.take index) kind.bank < registerArguments kind.bank →
          ∃ register, (argumentRegisters.get kind.bank)[countIn (kinds.take index) kind.bank]? =
            some register ∧ place = .register register) ∧
        (registerArguments kind.bank ≤ countIn (kinds.take index) kind.bank →
          ∃ offset : Offset, place = .stack offset ∧
            offset.toInt = 8 * stackArguments ((places kinds).take index))) ∧
    (places kinds).Pairwise Place.Apart ∧
    IsLeast {size : Nat | 16 ∣ size ∧
      ∀ offset : Offset, .stack offset ∈ places kinds → offset.toInt + 8 ≤ size}
      (new.final kinds).stackSize := by
  have bound := (stack_final new kinds).2
  have start : new.stack = 0 := rfl
  refine ⟨length_assignAll new kinds, fun index kind found => ?_, ?_, ?_, fun size covers => ?_⟩
  · obtain ⟨before, here⟩ := places_of_earlier found
    obtain ⟨passed, stacked⟩ := assign_final_new (kinds.take index) kind
    refine ⟨_, here, passed, fun beyond => ⟨_, stacked beyond, ?_⟩⟩
    have few : (places (kinds.take index)).length ≤ kinds.length := by
      rw [places, length_assignAll]
      exact List.length_take_le' ..
    have some : stackArguments (places (kinds.take index)) ≤ _ := List.countP_le_length
    rw [before, toInt_word (by omega)]
    omega
  · have distinct : (places kinds).Nodup := proper_new.nodup_assignAll (by omega)
    refine distinct.imp_of_mem fun {first second} firstMember secondMember different => ?_
    cases first with
    | register register =>
      cases second with
      | register other => exact fun same => different (congrArg _ same)
      | stack offset => trivial
    | stack offset =>
      cases second with
      | register register => trivial
      | stack other =>
        have apart : offset.toInt ≠ other.toInt := fun same =>
          different (congrArg _ (BitVec.toInt_inj.mp same))
        have words := toInt_of_stacked small firstMember
        have others := toInt_of_stacked small secondMember
        simp only [Place.Apart]
        omega
  · refine ⟨Nat.dvd_mul_left .., fun offset member => ?_⟩
    have below := (toInt_of_stacked small member).2.2
    simp only [stackSize]
    omega
  · obtain ⟨aligned, covered⟩ := covers
    simp only [stackSize]
    rcases last_word kinds with none | last
    · omega
    · have below := covered _ last
      have word := (toInt_of_stacked small last).2.2
      rw [toInt_word (by omega)] at below word
      omega

/-- Of seven integers and two floats the last integer goes to the stack, and the float after it to
a register again. -/
theorem places_classified_mixed :
    let kinds : List Kind := [.i64, .f64, .i32, .i64, .u64, .ptr, .u32, .i64, .f32]
    8 * kinds.length < 2 ^ 31 ∧ (places kinds)[7]? = some (.stack 0) ∧
      (places kinds)[8]? = some (.register (.xmm 1)) ∧ (places kinds).Pairwise Place.Apart ∧
      IsLeast {size : Nat | 16 ∣ size ∧
        ∀ offset : Offset, .stack offset ∈ places kinds → offset.toInt + 8 ≤ size} 16 := by
  intro kinds
  have small : 8 * kinds.length < 2 ^ 31 := by decide
  obtain ⟨_, classified, apart, least⟩ := places_classified kinds small
  obtain ⟨_, seventh, _, beyond⟩ := classified 7 .i64 rfl
  obtain ⟨offset, rfl, word⟩ := beyond (by decide)
  obtain rfl : offset = 0 := BitVec.toInt_inj.mp (word.trans (by decide))
  obtain ⟨_, eighth, within, _⟩ := classified 8 .f32 rfl
  obtain ⟨register, first, rfl⟩ := within (by decide)
  obtain rfl : .xmm 1 = register := Option.some.inj first
  have size : (new.final kinds).stackSize = 16 := by decide
  exact ⟨small, seventh, eighth, apart, size ▸ least⟩

end Convention

end NativeExpr
