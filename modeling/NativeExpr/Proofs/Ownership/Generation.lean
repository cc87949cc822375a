import NativeExpr.Proofs.Ownership.Exchange
import NativeExpr.Proofs.Sharing

/-!
# What generation owns and gives back

Generating a node hands out its value and nothing else, and keeps values of shared nodes that had
none. What it takes up for operands and arguments it gives back before it is done.
-/

namespace NativeExpr

/-- Whether a visit hands out the value of the node that it is asked for. -/
def Visit.Exchanges (tree : Tree) (visit : Visit) : Prop :=
  ∀ (id : NodeId) (hint : Option Register) (before : Workspace) (result : Storage)
    (after : Workspace), visit id hint before = .ok result after →
    before.Exchanges tree [id] [] [result] after

namespace Generation

variable {tree : Tree} {visit : Visit} {before after : Workspace} {asked : List NodeId}
variable {id : NodeId} {hint : Option Register} {result : Storage} {kind : Kind}

theorem exchanges_of_visit (visits : visit.Exchanges tree) (member : id ∈ asked)
    (done : visit id hint before = .ok result after) :
    before.Exchanges tree asked [] [result] after := by
  refine (visits id hint before result after done).mono fun other listed => ?_
  exact ⟨id, member, List.mem_singleton.mp listed ▸ .refl⟩

/-- Arguments that are evaluated are held until all of them are. -/
theorem exchanges_of_evaluateInOrder (visits : visit.Exchanges tree) {demands : List Stage.Demand}
    {found : List (Nat × Storage)} (listed : ∀ demand ∈ demands, demand.argument.node ∈ asked)
    (done : Stage.evaluateInOrder tree visit demands before = .ok found after) :
    ∃ evaluated : List (Stage.Demand × Storage), evaluated.map Prod.fst = demands ∧
      found = evaluated.map (fun each => (each.1.position, each.2)) ∧
      before.Exchanges tree asked [] (evaluated.map Prod.snd) after := by
  induction demands generalizing before found with
  | nil =>
    obtain ⟨rfl, rfl⟩ := estate_pure_eq_ok.mp done
    exact ⟨[], rfl, rfl, .refl ..⟩
  | cons demand rest ih =>
    obtain ⟨value, visited, settled, parked, others, first, parking, remaining, rfl⟩ :=
      Stage.of_evaluateInOrder_cons done
    have held := (exchanges_of_visit visits (listed demand List.mem_cons_self) first).trans
      (Build.exchanges_of_settle asked parking)
    obtain ⟨evaluated, demands, rfl, exchanges⟩ :=
      ih (fun other member => listed other (List.mem_cons_of_mem _ member)) remaining
    refine ⟨(demand, settled) :: evaluated, by rw [List.map_cons, demands], rfl, ?_⟩
    exact held.andThen exchanges (.refl _) |>.perm (.refl _) List.perm_append_comm

theorem exchanges_of_evaluate (visits : visit.Exchanges tree) {stage : Stage}
    {values : List Storage} (listed : ∀ argument ∈ stage.arguments, argument.node ∈ asked)
    (done : stage.evaluate tree visit before = .ok values after) :
    before.Exchanges tree asked [] values after := by
  obtain ⟨ordered, found, nodes, evaluating, settle⟩ := Stage.of_evaluate done
  have among : ∀ demand ∈ ordered, demand.argument.node ∈ asked := by
    intro demand member
    obtain ⟨argument, member, same⟩ := List.mem_map.mp (Stage.node_mem_of_ordered nodes member)
    exact same ▸ listed argument member
  obtain ⟨evaluated, demands, pairs, exchanges⟩ :=
    exchanges_of_evaluateInOrder visits among evaluating
  obtain ⟨settled, reordered, _, rfl⟩ := settle evaluated demands pairs
  exact exchanges.perm (.refl _) (reordered.map _).symm

/-- The operand that is evaluated first is held while the other one is evaluated. -/
theorem exchanges_of_operands (visits : visit.Exchanges tree) {left right : NodeId}
    {first second : Storage}
    (done : operands tree visit left right hint before = .ok (first, second) after) :
    before.Exchanges tree [left, right] [] [first, second] after := by
  have inOrder {earlier later : NodeId} (earlierListed : earlier ∈ [left, right])
      (laterListed : later ∈ [left, right]) {hint hint' : Option Register}
      {value settled last : Storage} {between parked : Workspace} {needed : Nat}
      (visiting : visit earlier hint before = .ok value between)
      (parking : Build.parkUnderPressure tree value needed .generalPurpose between =
        .ok settled parked)
      (visitingLast : visit later hint' parked = .ok last after) :
      before.Exchanges tree [left, right] [] [last, settled] after := by
    have held := (exchanges_of_visit visits earlierListed visiting).trans
      (Build.exchanges_of_settle _ (Build.of_parkUnderPressure parking))
    exact held.andThen (exchanges_of_visit visits laterListed visitingLast) (.refl _)
  have leftListed : left ∈ [left, right] := List.mem_cons_self
  have rightListed : right ∈ [left, right] := List.mem_cons_of_mem _ List.mem_cons_self
  obtain ⟨needed, value, between, parked,
    ⟨_, visiting, parking, last⟩ | ⟨_, visiting, parking, last⟩⟩ := of_operands done
  · exact inOrder rightListed leftListed visiting parking last
  · exact (inOrder leftListed rightListed visiting parking last).perm (.refl _) (.swap ..)

/-- Of the operands of arithmetic the first one's register goes to the result and the second one
is given back. -/
theorem exchanges_of_arith (visits : visit.Exchanges tree) {operation : Arithmetic}
    {left right : NodeId}
    (done : arith tree visit id kind operation left right hint before = .ok result after) :
    before.Exchanges tree [left, right] [] [result] after ∧
      ∀ held, before.Balanced held → after.Credits id result := by
  obtain ⟨first, second, target, evaluated, placed, combined, evaluation, placing, combining,
    releasing, rfl⟩ := of_arith done
  have operands := exchanges_of_operands visits evaluation
  obtain ⟨places, credits⟩ := Build.exchanges_of_materialize [left, right] kind placing
  have combines :=
    Build.exchanges_of_step [left, right] (Routine.framed_write _) combining
  have releases := Build.exchanges_of_release [left, right] releasing
  refine ⟨((operands.trans (places.beside [second])).further combines).andThen releases
    (.swap ..), fun held balanced => ?_⟩
  have there := operands.balanced held balanced
  have materialized := (places.beside [second]).balanced held there
  have filled := (combines.balanced _ materialized).perm (.swap ..)
  exact releases.credits filled List.mem_cons_self
    (combines.credits materialized List.mem_cons_self (credits _ there))

/-- A call gives back all of its arguments before it hands out its result. -/
theorem exchanges_of_emitCall (visits : visit.Exchanges tree) {stage : Stage}
    {arguments : List NodeId} {function : NodeId} (of : stage.Of tree arguments)
    (done : stage.emitCall tree visit function id kind hint before = .ok result after) :
    before.Exchanges tree (function :: arguments) [] [result] after ∧
      ∀ held, before.Balanced held → after.Credits id result := by
  obtain ⟨early, late, values, target, entered, evaluated, pointed, released, guarded, called,
    captured, restored, _, saving, evaluation, visiting, releasing, _, savingLate, through,
    capturing, restoring, same, _⟩ := Stage.of_emitCall done
  have listed : ∀ argument ∈ stage.arguments, argument.node ∈ function :: arguments := by
    intro argument member
    exact List.mem_cons_of_mem _ (of.nodes ▸ List.mem_map_of_mem member)
  have saves := Stage.exchanges_of_save (function :: arguments) saving
  have evaluates := exchanges_of_evaluate visits listed evaluation
  have points := exchanges_of_visit visits (List.mem_cons_self (l := arguments)) visiting
  have gathers : before.Exchanges tree (function :: arguments) [] (values ++ [target]) pointed :=
    ((saves.trans evaluates).andThen points (.refl _)).perm (.refl _) List.perm_append_comm
  have empties := gathers.trans (Stage.exchanges_of_releaseAll _ releasing)
  have calls := (empties.trans (Stage.exchanges_of_save _ savingLate)).trans
    (Stage.exchanges_of_callThrough _ through)
  obtain ⟨captures, credits⟩ := Stage.exchanges_of_capture (function :: arguments) capturing
  have restores := (Stage.exchanges_of_restore (function :: arguments) restoring).trans
    (Build.exchanges_of_statistics _ same)
  refine ⟨(calls.trans captures).further restores, fun held balanced => ?_⟩
  have there := calls.balanced held balanced
  exact restores.credits (captures.balanced held there) List.mem_cons_self (credits held there)

/-- A parameter is nobody's: its home stays in the frame. -/
theorem exchanges_of_parameter (asked : List NodeId) {index : Nat}
    (done : parameter tree index kind before = .ok result after) :
    before.Exchanges tree asked [] [result] after ∧
      ∃ home, result = .borrow (.slot home) kind := by
  simp only [parameter, estate_bind_eq_ok] at done
  obtain ⟨home, between, stepped, done⟩ := done
  have steps := Build.exchanges_of_step asked (Routine.framed_home index) stepped
  cases home with
  | none => exact absurd done estate_throw_ne_ok
  | some home =>
    obtain ⟨rfl, rfl⟩ := estate_pure_eq_ok.mp done
    exact ⟨steps.trans (.of_pool (.refl _) rfl rfl fun _ owned => owned.add rfl), home, rfl⟩

theorem exchanges_of_operation (visits : visit.Exchanges tree) {operation : Operation}
    (done : Generation.operation tree visit id kind hint operation before = .ok result after) :
    before.Exchanges tree operation.operands [] [result] after ∧
      ∀ held, before.Balanced held → after.Credits id result := by
  cases operation with
  | constant bits =>
    obtain ⟨rfl, rfl⟩ := estate_pure_eq_ok.mp done
    exact ⟨.of_pool (.refl _) rfl rfl fun _ owned => owned.add rfl, fun _ _ _ here => nomatch here⟩
  | parameter index =>
    obtain ⟨refers, home, rfl⟩ := exchanges_of_parameter [] done
    exact ⟨refers, fun _ _ => Workspace.credits_of_slot rfl⟩
  | arith operation left right => exact exchanges_of_arith visits done
  | call function arguments =>
    simp only [Generation.operation, estate_bind_eq_ok, Build.lift_eq_ok] at done
    obtain ⟨stage, _, ⟨staged, rfl⟩, done⟩ := done
    exact exchanges_of_emitCall visits (Stage.of_ofArguments staged) done

end Generation

namespace Workspace

variable {tree : Tree} {work between : Workspace} {id : NodeId} {storage : Storage}

/-- The kept values are the new one and those of the other nodes. -/
theorem kept_insert {caches : Std.TreeMap NodeId Storage} {other : NodeId} {kept : Storage} :
    (caches.insert id storage)[other]? = some kept ↔
      (other = id ∧ kept = storage) ∨ (other ≠ id ∧ caches[other]? = some kept) := by
  rw [Std.TreeMap.getElem?_insert]
  by_cases here : id = other
  · subst here
    simp [eq_comm]
  · simp [here, Ne.symm here]

/-- What the operands of a node need comes before the node, so that its own value is not kept with
theirs. -/
theorem Exchanges.unkept {operands : List NodeId} {given taken : List Storage}
    (exchanges : work.Exchanges tree operands given taken between) (layered : tree.Layered)
    (uses : ∀ operand ∈ operands, operand ∈ tree.operandsOf id) (absent : work.caches[id]? = none) :
    between.caches[id]? = none := by
  cases kept : between.caches[id]? with
  | none => rfl
  | some other =>
    rcases exchanges.fresh id other kept with earlier | ⟨_, operand, listed, reaches⟩
    · rw [absent] at earlier
      cases earlier
    · exact absurd (layered id operand (uses operand listed))
        (Nat.not_lt.mpr (layered.le_of_reaches reaches))

/-- A value that is kept owns what the storage of the node owned. -/
theorem Exchanges.keep {operands : List NodeId}
    (exchanges : work.Exchanges tree operands [] [storage] between)
    (credits : ∀ held, work.Balanced held → between.Credits id storage)
    (uses : ∀ operand ∈ operands, operand ∈ tree.operandsOf id) (shared : tree.isShared id = true)
    (unkept : between.caches[id]? = none) :
    work.Exchanges tree [id] [] [storage.share]
      { between with caches := between.caches.insert id storage } := by
  exact {
    labels := exchanges.labels
    homes := exchanges.homes
    balanced := fun held balanced =>
      Balanced.add ((exchanges.balanced held balanced).keep unkept) storage.isOwned_share
    owners := exchanges.owners
    recorded := fun held balanced recorded other kept cached => by
      rcases kept_insert.mp cached with ⟨rfl, rfl⟩ | ⟨_, cached⟩
      · exact credits held balanced
      · exact exchanges.recorded held balanced recorded other kept cached
    kept := fun other kept cached => by
      have before := exchanges.kept other kept cached
      refine kept_insert.mpr (.inr ⟨?_, before⟩)
      rintro rfl
      rw [unkept] at before
      cases before
    fresh := fun other kept cached => by
      rcases kept_insert.mp cached with ⟨rfl, rfl⟩ | ⟨_, cached⟩
      · exact .inr ⟨shared, other, List.mem_singleton_self other, .refl⟩
      · refine (exchanges.fresh other kept cached).imp_right ?_
        rintro ⟨share, operand, listed, reaches⟩
        exact ⟨share, id, List.mem_singleton_self id, .head (uses operand listed) reaches⟩ }

end Workspace

namespace Generation

variable {tree : Tree} {visit : Visit}

/-- A value that is kept is not handed out again; that of any other node is generated. -/
theorem exchanges_of_node (layered : tree.Layered) (visits : visit.Exchanges tree) :
    (Generation.node tree visit).Exchanges tree := by
  intro id hint before result after done
  obtain ⟨node, found, ⟨cached, _, rfl, same, _⟩ | ⟨unkept, storage, between, generated, _,
    rest⟩⟩ := of_node done
  · exact (Build.exchanges_of_statistics _ same).trans
      (.of_pool (.refl _) rfl rfl fun _ owned => owned.add cached.isOwned_share)
  · obtain ⟨exchanges, credits⟩ := exchanges_of_operation visits generated
    have uses : ∀ operand ∈ node.operation.operands, operand ∈ tree.operandsOf id := by
      rw [Tree.operandsOf_of_node found]
      exact fun _ listed => listed
    have above : ∀ operand ∈ node.operation.operands, ∃ root ∈ [id], tree.Reaches root operand :=
      fun operand listed => ⟨id, List.mem_singleton_self id, .head (uses operand listed) .refl⟩
    rcases rest with ⟨shared, rfl, same⟩ | ⟨_, rfl, same⟩
    · have later := exchanges.unkept layered uses unkept
      have share : tree.isShared id = true := (Tree.isShared_of_node found).trans shared
      exact (exchanges.keep credits uses share later).further (Build.exchanges_of_statistics _ same)
    · exact (exchanges.mono above).further (Build.exchanges_of_statistics _ same)

/-- Generating a node hands out its value and nothing else. -/
theorem exchanges_within (layered : tree.Layered) (depth : Nat) :
    (within tree depth).Exchanges tree := by
  induction depth with
  | zero =>
    intro id hint before result after done
    exact absurd done estate_throw_ne_ok
  | succ depth ih => exact exchanges_of_node layered ih

end Generation

end NativeExpr
