import NativeExpr.Proofs.Preservation.Evaluation
import NativeExpr.Proofs.Tree

/-!
# Generated nodes hold their values

If what nodes may stand for is right for their operations, generating a node leaves the
value of the node in the storage that is returned, carries over all that is taken, and leaves
the stack as deep as it was. `Run.visits_within` says so for nodes of any depth.
-/

namespace NativeExpr

/-- Whether the words that nodes may stand for are right for their operations, and the functions
that nodes may point to follow the convention when they are called in the given states. -/
structure Tree.Lawful (tree : Tree) (natives : Natives) (callers : Machine → Prop)
    (means : NodeId → Word → Prop) : Prop where
  constant : ∀ id node bits, tree.node? id = some node →
    node.operation = .constant bits → means id bits
  arith : ∀ id node operation left right, tree.node? id = some node →
    node.operation = .arith operation left right → ∀ first second, means left first →
      means right second → means id (operation.apply first second)
  preserves : ∀ id node function arguments, tree.node? id = some node →
    node.operation = .call function arguments → ∀ address, means function address →
      natives.Preserves callers address (tree.callSignature arguments node.kind)
  returns : ∀ id node function arguments, tree.node? id = some node →
    node.operation = .call function arguments → ∀ machine, callers machine →
      means function (machine.get Convention.callTarget) →
      (∀ argument place,
        (argument, place) ∈ arguments.zip (Convention.places (arguments.map tree.kindOf)) →
          means argument (machine.argument place)) →
      means id ((natives (machine.get Convention.callTarget) machine).get
        (Convention.resultRegister node.kind.bank))

/-- What is lawful for some callers is lawful for fewer. -/
theorem Tree.Lawful.mono {tree : Tree} {natives : Natives} {callers fewer : Machine → Prop}
    {means : NodeId → Word → Prop} (lawful : tree.Lawful natives callers means)
    (within : ∀ machine, fewer machine → callers machine) : tree.Lawful natives fewer means where
  constant := lawful.constant
  arith := lawful.arith
  preserves id node function arguments found here address pointer :=
    (lawful.preserves id node function arguments found here address pointer).mono within
  returns id node function arguments found here machine calls :=
    lawful.returns id node function arguments found here machine (within machine calls)

/-- A site at which the value of one more node is kept. -/
def Site.keep (site : Site) (id : NodeId) (storage : Storage) : Site where
  work := { site.work with caches := site.work.caches.insert id storage }
  routine := site.routine
  settled location := site.settled location ∨ location = storage.location

theorem Site.taken_keep {site : Site} {id : NodeId} {storage : Storage} {location : Location} :
    (site.keep id storage).Taken location ↔ site.Taken location := by
  cases location <;> rfl

namespace Run

variable {run : Run} {room : Nat} {visit : Visit} {plan : Generation.Plan} {before site : Site}
variable {after : Workspace} {called : List NodeId}
variable {claims : List (NodeId × Storage)} {id : NodeId} {node : Node} {storage result : Storage}
variable {hint : Option Register}

/-- What a call node relies on. -/
theorem calls_of_lawful (formed : run.tree.Formed)
    (lawful : run.tree.Lawful run.natives run.Calling run.means) {function : NodeId} {arguments : List NodeId}
    (found : run.tree.node? id = some node) (here : node.operation = .call function arguments) :
    run.Calls id node.kind function arguments where
  found := ⟨node, found, here⟩
  few := (formed.call id node function arguments found here).2
  pointer := by
    rw [(formed.call id node function arguments found here).1]
    rfl
  preserves := lawful.preserves id node function arguments found here
  returns := lawful.returns id node function arguments found here

/-- Two operands are evaluated in the order of their labels, the first one being parked if need
be. -/
theorem Visits.operands (visits : run.Visits room visit plan) (operation : Arithmetic)
    {left right : NodeId} {first second : Storage} (consistent : run.Consistent before)
    (deep : (run.state before.routine).depth + room ≤ run.limit)
    (done : Generation.operands run.tree visit left right hint before.work =
      .ok (first, second) after) :
    let asked := Generation.sequence before.work.label (.arith operation left right)
    ∃ later : Site, later.work = after ∧
      run.Generates before
        (run.callers (Generation.inTurn run.tree (plan before.work.label) before.work.keeps asked))
        [(left, first), (right, second)] later := by
  have inOrder {earlier later : NodeId} {hint hint' : Option Register}
      {value settled last : Storage} {needed : Nat} {visited parked : Workspace}
      (first : visit earlier hint before.work = .ok value visited)
      (parking : Build.parkUnderPressure run.tree value needed .generalPurpose visited =
        .ok settled parked)
      (second : visit later hint' parked = .ok last after) :
      ∃ next : Site, next.work = after ∧
        run.Generates before
          (run.callers (Generation.inTurn run.tree (plan before.work.label) before.work.keeps
            [earlier, later]))
          [(earlier, settled), (later, last)] next := by
    obtain ⟨next, rfl, deeper, follows, kept⟩ :=
      visits.settle consistent deep first (Build.of_parkUnderPressure parking)
    obtain ⟨ended, reached, generates⟩ :=
      visits.generates next _ _ _ _ kept.consistent deeper second
    rw [follows.label, follows.keeps] at generates
    refine ⟨ended, reached, ?_⟩
    rw [show [earlier, later] = [earlier] ++ [later] from rfl, Generation.inTurn_concat,
      callers_append]
    simpa [Generation.inTurn] using kept.trans generates
  obtain ⟨needed, value, between, parked,
    ⟨lighter, visited, parking, last⟩ | ⟨heavier, visited, parking, last⟩⟩ :=
      Generation.of_operands done
  · rw [Generation.sequence, if_pos lighter]
    obtain ⟨later, reached, generates⟩ := inOrder visited parking last
    exact ⟨later, reached, generates.perm (.swap ..)⟩
  · rw [Generation.sequence, if_neg heavier]
    exact inOrder visited parking last

/-- The value of an operand is combined into the register of another claim. -/
theorem Generates.combine {target : Register} {kind : Kind} {left right : NodeId}
    {operation : Arithmetic} {value : Unit}
    (generates : run.Generates before called
      ((left, .own (.register target) kind) :: (right, storage) :: claims) site)
    (same : kind = run.tree.kindOf id)
    (means : ∀ first second, run.means left first → run.means right second →
      run.means id (operation.apply first second))
    (done : Build.onRoutine run.tree
      (Routine.write (Generation.applyOperand operation target storage.location)) site.work =
        .ok value after) :
    ∃ later : Site, later.work = after ∧ run.Generates before called
      ((id, .own (.register target) kind) :: (right, storage) :: claims) later := by
  have consistent := generates.consistent
  obtain ⟨instructions, granted, rfl⟩ := Build.of_write consistent.begun done
  have first := generates.right _ List.mem_cons_self
  have second := generates.right _ (List.mem_cons_of_mem _ List.mem_cons_self)
  have usable : target.Usable := consistent.pool.usable_of_live first.taken
  obtain ⟨combined, agree⟩ := Generation.effects_applyOperand run.natives
    (run.state site.routine) usable operation storage.location
  refine ⟨site.withCode instructions, rfl, generates.overwrite
    (straight_of_assemble granted (Generation.plain_applyOperand _ _ _))
    (quiet_of_assemble granted (Generation.quiet_applyOperand _ _ _))
    (after_of_assemble run.natives _ granted) agree same ?_⟩
  rw [combined]
  exact means _ _ first.means second.means

theorem Visits.arith (visits : run.Visits room visit plan) (formed : run.tree.Formed)
    (lawful : run.tree.Lawful run.natives run.Calling run.means) {left right : NodeId}
    {operation : Arithmetic} (consistent : run.Consistent before)
    (deep : (run.state before.routine).depth + room ≤ run.limit)
    (found : run.tree.node? id = some node) (here : node.operation = .arith operation left right)
    (done : Generation.arith run.tree visit id node.kind operation left right hint before.work =
      .ok result after) :
    let asked := Generation.sequence before.work.label (.arith operation left right)
    ∃ later : Site, later.work = after ∧
      run.Generates before
        (run.callers (Generation.inTurn run.tree (plan before.work.label) before.work.keeps asked))
        [(id, result)] later := by
  obtain ⟨first, second, target, evaluated, placed, combined, evaluation, placing, combining,
    released, rfl⟩ := Generation.of_arith done
  obtain ⟨kind, _⟩ := formed.arith id node operation left right found here
  have means := lawful.arith id node operation left right found here
  obtain ⟨operands, rfl, claimed⟩ := visits.operands operation consistent deep evaluation
  obtain ⟨register, rfl, _, materialized⟩ := claimed.materialize placing
  have firstKind : first.kind = node.kind :=
    (claimed.right _ List.mem_cons_self).kind.trans kind
  rw [firstKind] at materialized
  obtain ⟨summed, rfl, generated⟩ :=
    materialized.combine (Tree.kindOf_of_node found).symm means combining
  obtain ⟨later, reached, _, generates⟩ := (generated.perm (.swap ..)).release released
  exact ⟨later, reached, generates⟩

/-- A parameter is in its home, and stays there. -/
theorem Consistent.parameter {index : Nat} (consistent : run.Consistent before)
    (found : run.tree.node? id = some node) (here : node.operation = .parameter index)
    (done : Generation.parameter run.tree index node.kind before.work = .ok result after) :
    before.work = after ∧ run.Generates before [] [(id, result)] before := by
  obtain ⟨home, homed, rfl, rfl⟩ := Generation.of_parameter consistent.begun done
  have listed : before.routine.frame.homes[index]? = some home := homed
  have settled := consistent.homes home (List.mem_of_getElem? listed)
  refine ⟨rfl, consistent.generates.claim ?_ ?_ fun _ => settled⟩
  · exact {
      kind := (Tree.kindOf_of_node found).symm
      taken := consistent.taken _ settled
      bank := fun register location => by cases location
      means := consistent.parameters index home id node listed found here }
  · intro owned
    cases owned

theorem Consistent.constant {bits : Word} (consistent : run.Consistent before)
    (lawful : run.tree.Lawful run.natives run.Calling run.means) (found : run.tree.node? id = some node)
    (here : node.operation = .constant bits) :
    run.Generates before [] [(id, .own (.constant bits) node.kind)] before := by
  refine consistent.generates.claim ?_ ?_ fun _ => consistent.constants bits
  · exact {
      kind := (Tree.kindOf_of_node found).symm
      taken := trivial
      bank := fun register location => by cases location
      means := lawful.constant id node bits found here }
  · intro owned
    cases owned

/-- Generating an operation claims its value. -/
theorem Visits.operation (visits : run.Visits room visit plan) (formed : run.tree.Formed)
    (lawful : run.tree.Lawful run.natives run.Calling run.means)
    (consistent : run.Consistent before)
    (deep : (run.state before.routine).depth + room + 512 ≤ run.limit) (large : 2 ^ 33 ≤ room)
    (found : run.tree.node? id = some node)
    (done : Generation.operation run.tree visit id node.kind hint node.operation before.work =
      .ok result after) :
    let asked := Generation.sequence before.work.label node.operation
    ∃ later : Site, later.work = after ∧
      run.Generates before
        (run.callers (Generation.inTurn run.tree (plan before.work.label) before.work.keeps asked ++
          [id]))
        [(id, result)] later := by
  intro asked
  have last : run.callers [id] = if node.operation.isCall then [id] else [] := by
    rw [callers, List.filter_singleton, Tree.isCall_of_node found, Bool.cond_eq_ite]
  rw [callers_append, last]
  cases here : node.operation with
  | constant bits =>
    rw [here] at done
    obtain ⟨rfl, rfl⟩ := estate_pure_eq_ok.mp done
    have none : asked = [] := congrArg (Generation.sequence before.work.label) here
    rw [none]
    exact ⟨before, rfl, consistent.constant lawful found here⟩
  | parameter index =>
    rw [here] at done
    have none : asked = [] := congrArg (Generation.sequence before.work.label) here
    rw [none]
    exact ⟨before, consistent.parameter found here done⟩
  | arith operation left right =>
    rw [here] at done
    have operands : asked = _ := congrArg (Generation.sequence before.work.label) here
    rw [operands, show (Operation.arith operation left right).isCall = false from rfl]
    simpa using visits.arith formed lawful consistent (by omega) found here done
  | call function arguments =>
    rw [here] at done
    have operands : asked = _ := congrArg (Generation.sequence before.work.label) here
    simp only [Generation.operation, estate_bind_eq_ok, Build.lift_eq_ok] at done
    obtain ⟨stage, _, ⟨staged, rfl⟩, done⟩ := done
    rw [operands]
    exact visits.emitCall consistent deep large (Stage.of_ofArguments staged)
      (calls_of_lawful formed lawful found here) (Tree.kindOf_of_node found).symm done

/-- A claimed value may be kept for the node until the function is finished. -/
theorem Generates.keep (generates : run.Generates before called [(id, storage)] site) :
    run.Generates before called [(id, storage.share)] (site.keep id storage) := by
  have consistent := generates.consistent
  have right := generates.right _ List.mem_cons_self
  have transfer {other : NodeId} {held : Storage} (right : run.Right site other held) :
      run.Right (site.keep id storage) other held :=
    ⟨right.kind, Site.taken_keep.mpr right.taken, right.bank, right.means⟩
  exact { generates with
    consistent := { consistent with
      begun := consistent.begun
      base := consistent.base
      constants := fun bits => .inl (consistent.constants bits)
      homes := fun home listed => .inl (consistent.homes home listed)
      taken := fun location stays => by
        rcases stays with stays | rfl
        · exact Site.taken_keep.mpr (consistent.taken location stays)
        · exact Site.taken_keep.mpr right.taken
      kept := fun other cached found => by
        rw [Site.keep, Std.TreeMap.getElem?_insert] at found
        split at found
        · rename_i same
          obtain rfl := Std.LawfulEqCmp.compare_eq_iff_eq.mp same
          obtain rfl := Option.some.inj found
          exact ⟨.inr rfl, transfer right⟩
        · obtain ⟨stays, here⟩ := consistent.kept other cached found
          exact ⟨.inl stays, transfer here⟩ }
    taken := fun location used => Site.taken_keep.mpr (generates.taken location used)
    settled := fun location stays => .inl (generates.settled location stays)
    fresh := fun location stays => by
      rcases stays with stays | rfl
      · exact generates.fresh location stays
      · cases own : storage.isOwned with
        | true => exact .inr (generates.owned _ List.mem_cons_self own).1
        | false =>
          exact generates.fresh _ (generates.shared _ List.mem_cons_self own)
    right := fun claim member => by
      rw [List.mem_singleton] at member
      have shared : run.Right site id storage.share :=
        ⟨right.kind, right.taken, right.bank, right.means⟩
      exact member ▸ transfer shared
    owned := fun claim member own => by
      rw [List.mem_singleton] at member
      rw [member] at own
      cases location : storage.location <;>
        simp [Storage.isOwned, Storage.share, location] at own
    shared := fun claim member _ => by
      rw [List.mem_singleton] at member
      exact .inr (congrArg (fun claim : NodeId × Storage => claim.2.location) member)
    distinct := (List.nodup_singleton _).sublist (List.filter_sublist.map _) }

/-- Generating a node claims its value. -/
theorem Visits.generate (visits : run.Visits room visit plan) (formed : run.tree.Formed)
    (lawful : run.tree.Lawful run.natives run.Calling run.means) (large : 2 ^ 33 ≤ room) :
    run.Visits (room + 512) (Generation.node run.tree visit) (plan.deepen run.tree) where
  follows := Generation.follows_node visits.follows
  generates before id hint result after consistent deep done := by
    obtain ⟨node, found, ⟨cached, kept, rfl, same, _⟩ | ⟨unkept, storage, between, generated, _,
      rest⟩⟩ := Generation.of_node done
    · obtain ⟨settled, right⟩ := consistent.kept id cached kept
      have claimed : run.Generates before [] [(id, cached.share)] before := by
        refine consistent.generates.claim ⟨right.kind, right.taken, right.bank, right.means⟩ ?_
          fun _ => settled
        intro owned
        cases location : cached.location <;>
          simp [Storage.isOwned, Storage.share, location] at owned
      rw [Generation.Plan.deepen, if_pos (Workspace.keeps_of_cached kept)]
      exact ⟨before.withCounts after.statistics, same.symm, claimed.withCounts after.statistics⟩
    · rw [← Nat.add_assoc] at deep
      obtain ⟨site, rfl, claimed⟩ :=
        visits.operation formed lawful consistent deep large found generated
      rw [Generation.Plan.deepen, if_neg (Workspace.keeps_of_uncached unkept), found]
      rcases rest with ⟨_, rfl, same⟩ | ⟨_, rfl, same⟩
      · exact ⟨_, same.symm, claimed.keep.withCounts after.statistics⟩
      · exact ⟨_, same.symm, claimed.withCounts after.statistics⟩

/-- Generating a node of any depth claims its value and carries over what is taken. -/
theorem visits_within (formed : run.tree.Formed)
    (lawful : run.tree.Lawful run.natives run.Calling run.means) (depth : Nat) :
    run.Visits (512 * depth + 2 ^ 33) (Generation.within run.tree depth)
      (Generation.order run.tree depth) := by
  induction depth with
  | zero =>
    refine ⟨Generation.within_follows run.tree 0, ?_⟩
    intro before id hint result after _ _ done
    exact absurd done estate_throw_ne_ok
  | succ depth ih =>
    have room : 512 * (depth + 1) + 2 ^ 33 = 512 * depth + 2 ^ 33 + 512 := by omega
    rw [room]
    exact ih.generate formed lawful (by omega)

end Run

end NativeExpr
