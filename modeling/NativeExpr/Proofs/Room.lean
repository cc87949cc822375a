import NativeExpr.Proofs.Ledger.Compilation
import NativeExpr.Proofs.Ledger.Room

/-!
# Compilation with more room

What is compiled with some registers and slots is compiled with more of them, from whatever state of
the tree. Which values are parked and which registers are free when is not the same then, so the
generated code is not either.
-/

namespace NativeExpr

/-- More registers are allowed by options that ask for more. -/
theorem Options.countIn_allocatable_le {options larger : Options}
    (gp : options.gpRegisters ≤ larger.gpRegisters)
    (xmm : options.xmmRegisters ≤ larger.xmmRegisters) (bank : Bank) :
    options.allocatable.countIn bank ≤ larger.allocatable.countIn bank := by
  refine RegisterSet.countIn_le_of_subset (fun register allowed => ?_) bank
  obtain ⟨listed, real⟩ := RegisterSet.contains_ofList.mp allowed
  refine RegisterSet.contains_ofList.mpr ⟨?_, real⟩
  rcases List.mem_append.mp listed with listed | listed
  · exact List.mem_append_left _ (List.take_subset_take_left _ gp listed)
  · exact List.mem_append_right _ (List.take_subset_take_left _ xmm listed)

/-- A compilation with more room begins ahead. -/
theorem Ledger.ahead_opening {options larger : Options}
    (gp : options.gpRegisters ≤ larger.gpRegisters)
    (xmm : options.xmmRegisters ≤ larger.xmmRegisters)
    (slots : options.tempSlots ≤ larger.tempSlots) : Ahead [] (opening options) (opening larger) where
  free := Options.countIn_allocatable_le gp xmm
  slots := slots
  kept := rfl

variable {options larger : Options} {tree : Tree} {signature : Signature} {root : NodeId}
variable {work other : Workspace}

/-- What is compiled with the registers and slots of some options is compiled with those of any
options that have no fewer. -/
theorem compile_more_room (history : History options tree work)
    (roomier : History larger tree other) (gp : options.gpRegisters ≤ larger.gpRegisters)
    (xmm : options.xmmRegisters ≤ larger.xmmRegisters)
    (slots : options.tempSlots ≤ larger.tempSlots) {compiled : Compiled} {after : Workspace}
    (done : compile tree signature root work = .ok compiled after) :
    ∃ compiled after, compile tree signature root other = .ok compiled after := by
  obtain ⟨_, _, _, _, _, exist, declared, _⟩ := of_compile done
  have tight := compile_booked history declared exist
  have roomy := compile_booked roomier declared exist
  cases ends : Ledger.outcome tree root options with
  | error shortage ledger =>
    rw [ends] at tight
    obtain ⟨_, failed⟩ := tight
    cases done.symm.trans failed
  | ok holding ledger =>
    obtain ⟨twin, later, _, endsToo, _⟩ :=
      Ledger.scales_within history.built.formed tree.size root (Ledger.ahead_opening gp xmm slots)
        (.inr (List.forall_mem_nil _)) ends
    rw [Ledger.outcome, endsToo] at roomy
    obtain ⟨compiled, after, done, _⟩ := roomy
    exact ⟨compiled, after, done⟩

/-- The tree of a difference of two products of two sums each. -/
def Tree.products : Tree :=
  ⟨#[⟨.i64, .parameter 0, 4⟩, ⟨.i64, .constant 1, 4⟩,
    ⟨.i64, .arith .add 0 1, 1⟩, ⟨.i64, .arith .add 0 1, 1⟩, ⟨.i64, .arith .mul 2 3, 1⟩,
    ⟨.i64, .arith .add 0 1, 1⟩, ⟨.i64, .arith .add 0 1, 1⟩, ⟨.i64, .arith .mul 5 6, 1⟩,
    ⟨.i64, .arith .sub 4 7, 0⟩]⟩

theorem History.products (options : Options) : History options .products (.new options) := by
  have leaves : History options ⟨#[⟨.i64, .parameter 0, 0⟩, ⟨.i64, .constant 1, 0⟩]⟩
      (.new options) := .constant (.parameter .new .i64 0) .i64 1
  have first := ((leaves.arith rfl (rfl : Tree.arith _ .add .i64 0 1 = .ok (2, _))).arith
    rfl (rfl : Tree.arith _ .add .i64 0 1 = .ok (3, _))).arith
    rfl (rfl : Tree.arith _ .mul .i64 2 3 = .ok (4, _))
  have second := ((first.arith rfl (rfl : Tree.arith _ .add .i64 0 1 = .ok (5, _))).arith
    rfl (rfl : Tree.arith _ .add .i64 0 1 = .ok (6, _))).arith
    rfl (rfl : Tree.arith _ .mul .i64 5 6 = .ok (7, _))
  exact second.arith rfl (rfl : Tree.arith _ .sub .i64 4 7 = .ok (8, _))

/-- With two registers values are parked, and with four none is. -/
theorem compile_more_room_products :
    (∃ compiled after,
      compile .products ⟨[.i64], .i64⟩ 8 (.new ⟨2, 0, 3⟩) = .ok compiled after ∧
        0 < compiled.statistics.valuesParked) ∧
    ∃ compiled after,
      compile .products ⟨[.i64], .i64⟩ 8 (.new ⟨4, 0, 3⟩) = .ok compiled after ∧
        compiled.statistics.valuesParked = 0 := by
  obtain ⟨tight, between, done, parked⟩ : ∃ compiled after,
      compile .products ⟨[.i64], .i64⟩ 8 (.new ⟨2, 0, 3⟩) = .ok compiled after ∧
        0 < compiled.statistics.valuesParked := by decide +kernel
  obtain ⟨compiled, after, succeeds⟩ := compile_more_room (.products ⟨2, 0, 3⟩)
    (.products ⟨4, 0, 3⟩) (by decide) (by decide) (by decide) done
  obtain ⟨_, _, again, unparked⟩ : ∃ compiled after,
      compile .products ⟨[.i64], .i64⟩ 8 (.new ⟨4, 0, 3⟩) = .ok compiled after ∧
        compiled.statistics.valuesParked = 0 := by decide +kernel
  cases succeeds.symm.trans again
  exact ⟨⟨tight, between, done, parked⟩, compiled, after, succeeds, unparked⟩

end NativeExpr
