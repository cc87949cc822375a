import NativeExpr.Proofs.Failure.Generation

/-!
# What requests that fail leave handed out

A host that asks for a register, for a slot or for the value of a node, or has a value moved or
parked, may be refused. Nothing is given back on the way out of a request that is refused. What it
leaves handed out is a register or slot that it had found last, and the values that were waiting in
the generation of a node; all else is owned as it was, or by the values that are newly kept. The next
compilation begins with everything given back.
-/

namespace NativeExpr

/-- The next compilation begins with nothing handed out. -/
theorem Workspace.accounted_reset (work : Workspace) : work.reset.Accounted [] :=
  (balanced_of_empty rfl rfl rfl : work.reset.Balanced []).accounted

/-- Whatever the state, a register that is refused changes nothing, and so does a temporary one. A
move that fails leaves at most its target handed out, and parking that fails nothing, or a slot if
the register of the value had been given back before. Where the generation of a node fails, the
registers that are live are those that were, those of values that are newly kept of shared nodes,
and those of the values that were waiting for the nodes that were being generated; the same goes for
slots. -/
theorem failure_account (requests : List Construction) (work : Workspace) :
    let tree := Tree.ofConstructions requests
    (∃ owners, work.Accounted owners) ∧ work.reset.Accounted [] ∧
    (∀ kind register cause after,
      Build.allocateRegister kind register work = .error cause after → after = work) ∧
    ∀ owners, work.Accounted owners →
      (∀ kind cause after, Build.allocateTemporary tree kind work = .error cause after →
        after.caches = work.caches ∧ after.Accounted owners) ∧
      (∀ storage register cause after,
        Build.moveToRegister tree storage register work = .error cause after →
          after.caches = work.caches ∧ (after.Accounted owners ∨
            after.Accounted (.own (.register register) storage.kind :: owners))) ∧
      (∀ storage cause after, Build.park tree storage work = .error cause after →
        after.caches = work.caches ∧ (after.Accounted owners ∨
          ∃ register offset, storage.ownedRegister? = some register ∧
            work.pool.live.contains register = false ∧
            after.Accounted (.own (.slot offset) storage.kind :: owners))) ∧
      ∀ id cause after, Generation.value tree id work = .error cause after →
        (∀ (other : NodeId) storage, work.caches[other]? = some storage →
          after.caches[other]? = some storage) ∧
        ∃ waiting kept : List (NodeId × Storage),
          tree.Waits id (tree.operandsOf id) (waiting.map Prod.fst) ∧
          (∀ entry ∈ kept, tree.isShared entry.1 = true ∧ tree.Reaches id entry.1 ∧
            work.caches[entry.1]? = none ∧ after.caches[entry.1]? = some entry.2) ∧
          after.Accounted (waiting.map Prod.snd ++ (kept.map Prod.snd ++ owners)) := by
  intro tree
  have layered : tree.Layered := (Tree.sound_ofConstructions requests).layered
  refine ⟨work.exists_accounted, work.accounted_reset, fun kind register cause after failed =>
      (Build.ends_allocateRegister kind register work).of_error failed,
    fun owners account => ⟨fun kind cause after failed =>
        (Build.ends_temporary kind _ account).of_error failed,
      fun storage register cause after failed => (Build.ends_moveToRegister account).of_error failed,
      fun storage cause after failed => (Build.ends_park account).of_error failed,
      fun id cause after failed => ?_⟩⟩
  · obtain ⟨remains, ⟨waiting, waits, same⟩, accounts⟩ :=
      (Generation.trades_within layered _ id none work owners account).of_error failed
    obtain ⟨kept, new, account⟩ := (accounts.perm same).accounted
    refine ⟨accounts.persists, waiting, kept, waits, fun entry member => ?_, account⟩
    obtain ⟨absent, present⟩ := new entry member
    rcases accounts.fresh entry.1 entry.2 present with earlier | ⟨shared, root, listed, reaches⟩
    · rw [absent] at earlier
      cases earlier
    · exact ⟨shared, List.mem_singleton.mp listed ▸ reaches, absent, present⟩

/-- Of one register, the first of two sums takes it, and the second one is refused. The first one's
value is what was waiting. -/
theorem failure_account_waiting :
    let tree := Tree.ofConstructions [.parameter .i64 0, .constant .i64 1, .arith .add .i64 rfl 0 1,
      .parameter .i64 0, .constant .i64 2, .arith .add .i64 rfl 3 4, .arith .add .i64 rfl 2 5]
    let labeled : Workspace := { Workspace.new ⟨1, 15, 0⟩ with
      labels := .ofList [(0, 1), (1, 0), (2, 1), (3, 1), (4, 0), (5, 1), (6, 2)] }
    labeled.Accounted [] ∧
      ∃ after, Generation.value tree 6 labeled =
        .error (.exhausted .generalPurpose "evaluating an arithmetic operand") after ∧
        ∃ waiting kept : List (NodeId × Storage), tree.Waits 6 [2, 5] (waiting.map Prod.fst) ∧
          (∀ entry ∈ kept, tree.isShared entry.1 = true) ∧
          after.Accounted (waiting.map Prod.snd ++ (kept.map Prod.snd ++ [])) := by
  intro tree labeled
  have account : labeled.Accounted [] :=
    (Workspace.balanced_of_empty rfl rfl rfl : labeled.Balanced []).accounted
  obtain ⟨after, failed, _⟩ : ∃ after, Generation.value tree 6 labeled =
      .error (.exhausted .generalPurpose "evaluating an arithmetic operand") after ∧ True := by
    decide +kernel
  obtain ⟨_, _, _, accounts⟩ := failure_account _ labeled
  obtain ⟨_, waiting, kept, waits, new, left⟩ := (accounts [] account).2.2.2 6 _ after failed
  exact ⟨account, after, failed, waiting, kept, waits, fun entry member => (new entry member).1, left⟩

/-- The register of the first sum stays live although no value is kept in it. So does the target of
a move in a function that cannot be begun, for there is no hundredth parameter. -/
theorem failure_account_unowned :
    let tree := Tree.ofConstructions [.parameter .i64 0, .constant .i64 1, .arith .add .i64 rfl 0 1,
      .parameter .i64 0, .constant .i64 2, .arith .add .i64 rfl 3 4, .arith .add .i64 rfl 2 5]
    (∃ after, (do let _ ← Labeling.root tree 6; Generation.value tree 6) (.new ⟨1, 15, 0⟩) =
        .error (.exhausted .generalPurpose "evaluating an arithmetic operand") after ∧
      after.pool.live.toList = [.rax] ∧ after.caches.isEmpty) ∧
    ∃ after, (do
        let held ← Build.allocateRegister .i64 .rax
        Build.moveToRegister (Tree.ofConstructions [.parameter .i64 99]) held .rcx)
          (.new .default) = .error (.parameterMismatch 99 none .i64) after ∧
      after.pool.live.toList = [.rax, .rcx] := by
  decide +kernel

end NativeExpr
