import NativeExpr.Proofs.Generation.Counting
import NativeExpr.Proofs.Ownership.Generation

/-!
# No register and no slot is lost or owned twice

Generating a node takes a balanced workspace to a balanced one, whoever else holds registers and
slots: the value of the node and the values that are newly kept are the only new owners. A
compilation begins with nothing handed out, so what is live when it is done is what the kept
values own.
-/

namespace NativeExpr

variable {tree : Tree} {signature : Signature} {root : NodeId} {work after : Workspace}
variable {compiled : Compiled}

/-- A compilation gives back all registers but those of kept values, whose nodes are recorded as
their owners. -/
theorem registers_of_compile (formed : tree.Formed)
    (done : compile tree signature root work = .ok compiled after) :
    (∀ register, after.pool.live.contains register ↔
      ∃ (id : NodeId) (storage : Storage),
        after.caches[id]? = some storage ∧ storage.ownedRegister? = some register) ∧
      after.Recorded := by
  obtain ⟨labels, started, result, generated, released, _, _, starting, generating, releasing,
    finishing⟩ := of_compile done
  let reset : Workspace := { work.reset with labels := labels }
  have empty : reset.Balanced [] := Workspace.balanced_of_empty rfl rfl rfl
  have balanced : ({ reset with routine := some started } : Workspace).Balanced [] :=
    empty.opened (.inr ⟨rfl, signature.parameters, starting⟩)
  have exchanges := (Generation.exchanges_within formed.layered tree.size _ _ _ _ _ generating).trans
    (Build.exchanges_of_release [root] releasing)
  have recorded : released.Recorded :=
    exchanges.recorded [] balanced fun id storage kept => by simp [Workspace.reset] at kept
  have owned := (exchanges.balanced [] balanced).live
  have follows := Generation.within_follows tree tree.size _ started _ _ _ _ rfl generating
  obtain ⟨_, goesOn⟩ := follows.begun
  obtain ⟨_, begun⟩ := (follows.further (Build.advances_of_release goesOn releasing)).begun
  obtain ⟨_, _, rfl⟩ := Compilation.of_finish begun finishing
  refine ⟨fun register => ?_, recorded⟩
  rw [owned, List.mem_filterMap]
  simp only [Workspace.mem_storages, List.append_nil, List.not_mem_nil, or_false]
  constructor
  · rintro ⟨storage, ⟨id, kept⟩, owns⟩
    exact ⟨id, storage, kept, owns⟩
  · rintro ⟨id, storage, kept, owns⟩
    exact ⟨storage, ⟨id, kept⟩, owns⟩

/-- Generating a node keeps a workspace balanced, and its value and the values that are newly
kept of shared nodes are the only new owners. After a compilation the live registers are those
that kept values own, no two of them the same one, each with the node of the value recorded as its
owner. -/
theorem generation_balanced (built : tree.Built) :
    (∀ (work : Workspace) (held : List Storage) (id : NodeId) (hint : Option Register)
        (result : Storage) (after : Workspace),
      work.Balanced held → Generation.visit tree id hint work = .ok result after →
        after.Balanced (result :: held) ∧
        (∀ (other : NodeId) storage, work.caches[other]? = some storage →
          after.caches[other]? = some storage) ∧
        ∀ other : NodeId, other ∈ after.caches → other ∉ work.caches →
          tree.isShared other = true ∧ tree.Reaches id other) ∧
    ∀ (work : Workspace) (signature : Signature) (root : NodeId) (compiled : Compiled)
        (after : Workspace), compile tree signature root work = .ok compiled after →
      (∀ register, after.pool.live.contains register ↔
        ∃ (id : NodeId) (storage : Storage),
          after.caches[id]? = some storage ∧ storage.ownedRegister? = some register) ∧
      (∀ (first second : NodeId) (one other : Storage) (register : Register),
        after.caches[first]? = some one → after.caches[second]? = some other →
          one.location = .register register → other.location = .register register → first = second) ∧
      ∀ (id : NodeId) (storage : Storage) (register : Register),
        after.caches[id]? = some storage → storage.location = .register register →
          after.pool.owner? register = some (some id) := by
  have formed := built.formed
  refine ⟨fun work held id hint result after balanced done => ?_,
    fun work signature root compiled after done => ?_⟩
  · have exchanges := Generation.exchanges_within formed.layered tree.size _ _ _ _ _ done
    refine ⟨exchanges.balanced held balanced, exchanges.kept, fun other kept unkept => ?_⟩
    rw [Std.TreeMap.mem_iff_isSome_getElem?, Option.isSome_iff_exists] at kept
    obtain ⟨storage, kept⟩ := kept
    rcases exchanges.fresh other storage kept with earlier | ⟨shared, top, listed, reaches⟩
    · rw [Std.TreeMap.mem_iff_isSome_getElem?, earlier] at unkept
      exact absurd rfl unkept
    · exact ⟨shared, List.mem_singleton.mp listed ▸ reaches⟩
  · obtain ⟨live, recorded⟩ := registers_of_compile formed done
    refine ⟨live, fun first second one other register kept otherKept here there => ?_,
      fun id storage register kept here => (recorded id storage kept register here).2⟩
    have same := (recorded first one kept register here).2.symm.trans
      (recorded second other otherKept register there).2
    exact Option.some.inj (Option.some.inj same)

/-- A call whose result is used twice keeps its register when it is generated and when its tree is
compiled. -/
theorem generation_balanced_shared :
    let tree : Tree := ⟨#[⟨.ptr, .constant 4096, 1⟩, ⟨.i64, .parameter 0, 1⟩,
      ⟨.i64, .call 0 [1], 2⟩, ⟨.i64, .arith .add 2 2, 0⟩]⟩
    let labeled : Workspace :=
      { Workspace.new .default with labels := .ofList [(0, 0), (1, 1), (2, 1), (3, 2)] }
    ∃ result generated compiled after,
      Generation.visit tree 3 none labeled = .ok result generated ∧
      generated.Balanced [result] ∧
      compile tree ⟨[.i64], .i64⟩ 3 generated = .ok compiled after ∧
      ∀ (id : NodeId) (storage : Storage) (register : Register),
        after.caches[id]? = some storage → storage.location = .register register →
          after.pool.owner? register = some (some id) := by
  intro tree labeled
  have leaves : Tree.Built ⟨#[⟨.ptr, .constant 4096, 0⟩, ⟨.i64, .parameter 0, 0⟩]⟩ :=
    .parameter (.constant .empty .ptr 4096) .i64 0
  have called : Tree.Built ⟨#[⟨.ptr, .constant 4096, 1⟩, ⟨.i64, .parameter 0, 1⟩,
      ⟨.i64, .call 0 [1], 0⟩]⟩ :=
    .call leaves (by decide) (rfl : Tree.call _ 0 ⟨[.i64], .i64⟩ [⟨1, .i64⟩] = .ok (2, _))
  have built : tree.Built := .arith called (rfl : Tree.arith _ .add .i64 2 2 = .ok (3, _))
  have balanced : labeled.Balanced [] := Workspace.balanced_of_empty rfl rfl rfl
  obtain ⟨compiled, after, done⟩ : ∃ compiled after,
      (Generation.visit tree 3 none >>= fun _ => compile tree ⟨[.i64], .i64⟩ 3) labeled =
        .ok compiled after := by decide +kernel
  obtain ⟨result, generated, generating, compiling⟩ := estate_bind_eq_ok.mp done
  obtain ⟨generates, compiles⟩ := generation_balanced built
  exact ⟨result, generated, compiled, after, generating,
    (generates labeled [] 3 none result generated balanced generating).1, compiling,
    (compiles generated _ 3 compiled after compiling).2.2⟩

end NativeExpr
