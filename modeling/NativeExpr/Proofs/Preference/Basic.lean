import NativeExpr.Proofs.Keeping
import NativeExpr.Proofs.Preference.Generation

/-!
# Preferences decide where, and nothing else

A register that is preferred for a value may be free or taken, of the wrong bank or none that is
ever handed out. Whichever it is, the generation of a node fails for the same reason or leaves as
many registers and slots free as with any other preference, having done as much.
-/

namespace NativeExpr

variable {options : Options} {tree : Tree} {work : Workspace}

/-- Generating a node of any tree in any state, with one preference or with another, fails for the
same reason, or succeeds and leaves as many registers of each bank and as many slots free, with the
same number of nodes generated, of values found to be kept, of calls and of values parked. -/
theorem generation_indifferent (history : History options tree work) (id : NodeId)
    (hint other : Option Register) :
    match Generation.visit tree id hint work, Generation.visit tree id other work with
    | .ok _ after, .ok _ later =>
      (∀ bank, later.pool.freeCount bank = after.pool.freeCount bank) ∧
      later.freeSlots.length = after.freeSlots.length ∧
      later.statistics.nodesCompiled = after.statistics.nodesCompiled ∧
      later.statistics.cacheHits = after.statistics.cacheHits ∧
      later.statistics.callsEmitted = after.statistics.callsEmitted ∧
      later.statistics.valuesParked = after.statistics.valuesParked
    | .error cause _, .error same _ => same = cause
    | _, _ => False := by
  have fit := history.fit
  have abreast : work.Abreast tree False [] work :=
    .refl fit.sound fun id storage kept => (fit.kept id storage kept).2
  have alike := Generation.steady_within history.built.formed history.integral tree.size id hint
    other abreast
  simp only [Generation.visit]
  generalize Generation.within tree tree.size id hint work = ended,
    Generation.within tree tree.size id other work = otherwise at alike
  cases alike with
  | error cause after later => rfl
  | @ok _ _ after later related =>
    have ledger := related.2.ledger
    have statistics : later.statistics.nameless = after.statistics.nameless :=
      congrArg Ledger.statistics ledger
    obtain ⟨nodes, hits, calls, -, parked, -⟩ := Statistics.mk.inj statistics
    exact ⟨congrFun (congrArg Ledger.free ledger), congrArg Ledger.slots ledger, nodes, hits,
      calls, parked⟩

/-- A parameter added to itself comes to be in the preferred register, or in the first there is. -/
theorem generation_indifferent_sum :
    let tree : Tree := ⟨#[⟨.i64, .parameter 0, 2⟩, ⟨.i64, .arith .add 0 0, 0⟩]⟩
    let work := ((Action.label 1 true).run tree).leaves (.new ⟨2, 0, 1⟩)
    ∃ value after other later,
      Generation.visit tree 1 none work = .ok value after ∧
      Generation.visit tree 1 (some .rcx) work = .ok other later ∧
      value.location = .register .rax ∧ other.location = .register .rcx ∧
      (∀ bank, later.pool.freeCount bank = after.pool.freeCount bank) ∧
      later.freeSlots.length = after.freeSlots.length ∧
      later.statistics.nodesCompiled = after.statistics.nodesCompiled := by
  intro tree work
  have history : History ⟨2, 0, 1⟩ tree work :=
    .act (.arith (.parameter .new .i64 0) rfl (rfl : Tree.arith _ .add .i64 0 0 = .ok (1, _)))
      (.label 1 true)
  obtain ⟨value, after, done, first⟩ : ∃ value after,
      Generation.visit tree 1 none work = .ok value after ∧
        value.location = .register .rax := by decide +kernel
  obtain ⟨other, later, again, preferred⟩ : ∃ other later,
      Generation.visit tree 1 (some .rcx) work = .ok other later ∧
        other.location = .register .rcx := by decide +kernel
  -- Nothing else is known of the state, so that the generations are not run once more.
  clear_value work tree
  have alike := generation_indifferent history 1 none (some .rcx)
  rw [done, again] at alike
  obtain ⟨free, slots, nodes, -⟩ := alike
  exact ⟨value, after, other, later, done, again, first, preferred, free, slots, nodes⟩

end NativeExpr
