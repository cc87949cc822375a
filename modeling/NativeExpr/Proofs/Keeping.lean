import NativeExpr.Proofs.Generation.Continuation
import NativeExpr.Proofs.Independence.History
import NativeExpr.Proofs.Labeling.Need

/-!
# What is kept suits its nodes

Whatever was asked of a tree, done or not, the value that is kept of a node is of the node's kind
and in a register of its bank if it is in one, and no register is live that may not be handed out.
Only the generation of a shared node keeps a value: every other step keeps nothing, even if it fails.
-/

namespace NativeExpr

/-- Whether no register is live that may not be handed out, and values are kept of nodes that there
are and suit them. -/
structure Workspace.Fit (tree : Tree) (work : Workspace) : Prop where
  sound : work.pool.Sound
  kept : ∀ (id : NodeId) storage, work.caches[id]? = some storage →
    id < tree.size ∧ storage.Suits (tree.kindOf id)

/-- Whether no other value is kept than was, and a sound pool is sound still. -/
structure Workspace.KeepsNothing (before after : Workspace) : Prop where
  caches : after.caches = before.caches
  sound : before.pool.Sound → after.pool.Sound

/-- No value is kept where no node may be generated. -/
theorem Workspace.evolution_keepsNothing : Evolution (fun _ => False) KeepsNothing where
  refl _ := ⟨rfl, id⟩
  trans first second :=
    ⟨second.caches.trans first.caches, fun sound => second.sound (first.sound sound)⟩
  labels _ _ := ⟨rfl, id⟩
  keep _ _ _ none := none.elim
  routine _ _ := ⟨rfl, id⟩
  statistics _ _ := ⟨rfl, id⟩
  assign _ _ owner allowed := ⟨rfl, fun sound => sound.assign allowed owner⟩
  release work register pool released := by
    obtain ⟨_, same, live⟩ := RegisterPool.of_release released
    exact ⟨rfl, fun sound => sound.of_le same fun other still => ((live other).mp still).1⟩
  transfer work register owner pool transferred := by
    obtain ⟨_, same, live⟩ := RegisterPool.of_transfer transferred
    exact ⟨rfl, fun sound => sound.of_le same fun _ still => live ▸ still⟩

namespace Build

variable {α : Type} {tree : Tree} {work : Workspace}

theorem demanding_keepsNothing (tree : Tree) :
    Demanding tree (fun _ => False) fun step => step.Evolves Workspace.KeepsNothing :=
  Workspace.evolution_keepsNothing.demanding fun _ none => none.elim

/-- A step that keeps nothing leaves what is kept as it was. -/
theorem Evolves.ends {step : Build α} (keeps : step.Evolves Workspace.KeepsNothing)
    (fit : work.Fit tree) : step.Ends work (fun _ after => after.Fit tree) (Workspace.Fit tree) := by
  obtain ⟨caches, sound⟩ := keeps work
  exact ends_iff_leaves.mpr
    ⟨sound fit.sound, fun id storage kept => fit.kept id storage (caches ▸ kept)⟩

/-- Something else may be known of a step that succeeds. -/
theorem Ends.and {step : Build α} {first second : α → Workspace → Prop} {fails : Workspace → Prop}
    (ends : step.Ends work first fails)
    (also : ∀ value after, step work = .ok value after → second value after) :
    step.Ends work (fun value after => second value after ∧ first value after) fails := by
  rw [Ends] at ends ⊢
  cases done : step work with
  | ok value after =>
    rw [done] at ends
    exact ⟨also value after done, ends⟩
  | error cause after =>
    rw [done] at ends
    exact ends

/-! ## Values that suit their nodes -/

variable {storage : Storage} {kind : Kind} {after : Workspace}

theorem suits_of_materialize (suits : storage.Suits kind) {owner : NodeId}
    {hint : Option Register} {activity : String} {target : Register}
    (done : materialize tree storage owner hint activity work = .ok target after) :
    (Storage.own (.register target) kind).Suits kind := by
  rcases of_materialize done with ⟨_, owned, _⟩ | ⟨_, own, allowed, _⟩
  · obtain ⟨own, real⟩ := suits.register target (Storage.location_of_ownedRegister owned).1
    exact Storage.suits_of_register own real
  · rw [suits.kind] at own
    exact Storage.suits_of_register own (RegisterPool.inBank_of_contains allowed)

theorem suits_of_park (suits : storage.Suits kind) {parked : Storage}
    (done : park tree storage work = .ok parked after) : parked.Suits kind := by
  simp only [park] at done
  cases owned : storage.ownedRegister? with
  | none =>
    simp only [owned, estate_pure_eq_ok] at done
    exact done.1 ▸ suits
  | some register =>
    simp only [owned, estate_bind_eq_ok] at done
    obtain ⟨slot, _, _, done⟩ := done
    cases slot with
    | none =>
      simp only [estate_pure_eq_ok] at done
      exact done.1 ▸ suits
    | some offset =>
      simp only [estate_bind_eq_ok, estate_pure_eq_ok] at done
      obtain ⟨_, _, _, _, _, _, _, _, _, rfl, _⟩ := done
      exact Storage.suits_of_slot rfl suits.kind

theorem suits_of_parkUnderPressure (suits : storage.Suits kind) {parked : Storage} {needed : Nat}
    {bank : Bank} (done : parkUnderPressure tree storage needed bank work = .ok parked after) :
    parked.Suits kind := by
  rcases of_parkUnderPressure done with ⟨rfl, _⟩ | parking
  · exact suits
  · exact suits_of_park suits parking

end Build

theorem Stage.suits_of_capture {tree : Tree} {work after : Workspace} {call : NodeId} {kind : Kind}
    {hint : Option Register} {result : Storage}
    (done : capture tree call kind hint work = .ok result after) : result.Suits kind := by
  simp only [capture, estate_bind_eq_ok, estate_get_eq_ok] at done
  obtain ⟨_, _, _, found, _, tried, done⟩ := done
  rcases Build.of_tryRegister tried with ⟨rfl, _⟩ | ⟨register, rfl, own, allowed, _⟩
  · simp only [estate_bind_eq_ok] at done
    obtain ⟨slot, _, _, done⟩ := done
    cases slot with
    | none => exact absurd done estate_throw_ne_ok
    | some offset =>
      simp only [estate_bind_eq_ok, estate_pure_eq_ok] at done
      obtain ⟨_, _, _, rfl, _⟩ := done
      exact Storage.suits_of_slot rfl rfl
  · simp only [estate_bind_eq_ok, estate_pure_eq_ok] at done
    obtain ⟨_, _, _, rfl, _⟩ := done
    exact Storage.suits_of_register own (RegisterPool.inBank_of_contains allowed)

/-! ## Generation -/

/-- Whether a visit, taken where what is kept suits its nodes, leaves it so, even if it fails, and
gives a value that suits the node that was asked for. -/
def Visit.Fits (tree : Tree) (visit : Visit) : Prop :=
  ∀ (id : NodeId) (hint : Option Register) (work : Workspace), work.Fit tree →
    (visit id hint).Ends work (fun value after => value.Suits (tree.kindOf id) ∧ after.Fit tree)
      (Workspace.Fit tree)

namespace Generation

open Workspace (evolution_keepsNothing)
open Build (Ends ends_pure ends_throw ends_lift demanding_keepsNothing)

variable {tree : Tree} {visit : Visit} {work : Workspace} {hint : Option Register} {id : NodeId}
variable {kind : Kind}

section

variable (fits : visit.Fits tree)

include fits

theorem fits_evaluateInOrder (demands : List Stage.Demand) (fit : work.Fit tree) :
    (Stage.evaluateInOrder tree visit demands).Ends work (fun _ after => after.Fit tree)
      (Workspace.Fit tree) := by
  induction demands generalizing work with
  | nil => exact ends_pure fit
  | cons demand rest ih =>
    refine (fits demand.argument.node _ work fit).bind fun value _ _ visited => ?_
    have goesOn (settled : Storage) (parked : Workspace) (fit : parked.Fit tree) :
        (do return (demand.position, settled) :: (← Stage.evaluateInOrder tree visit rest) :
          Build (List (Nat × Storage))).Ends parked (fun _ after => after.Fit tree)
          (Workspace.Fit tree) :=
      (ih fit).bind fun _ _ _ fit => ends_pure fit
    cases rest with
    | nil => exact goesOn value _ visited.2
    | cons next later =>
      have parks := (demanding_keepsNothing tree).parkUnderPressure value next.label
        next.argument.kind.bank
      exact (parks.ends visited.2).bind fun settled parked _ fit => goesOn settled parked fit

theorem fits_evaluate (stage : Stage) (fit : work.Fit tree) :
    (stage.evaluate tree visit).Ends work (fun _ after => after.Fit tree)
      (Workspace.Fit tree) := by
  have demands (position : Nat) (arguments : List Staged) :
      (Stage.demands tree position arguments).Evolves Workspace.KeepsNothing := by
    induction arguments generalizing position with
    | nil => exact evolution_keepsNothing.pure _
    | cons argument rest ih =>
      exact evolution_keepsNothing.bind (evolution_keepsNothing.label _) fun _ =>
        evolution_keepsNothing.bind (ih _) fun _ => evolution_keepsNothing.pure _
  refine ((demands 0 stage.arguments).ends fit).bind fun demands _ _ fit => ?_
  exact (fits_evaluateInOrder fits _ fit).bind fun _ _ _ fit => ends_pure fit

/-- Whatever is staged, the result of a call suits the kind that is asked for. -/
theorem fits_emitCall (stage : Stage) (function call : NodeId) (fit : work.Fit tree) :
    (stage.emitCall tree visit function call kind hint).Ends work
      (fun result after => result.Suits kind ∧ after.Fit tree) (Workspace.Fit tree) := by
  have keeps := demanding_keepsNothing tree
  simp only [Stage.emitCall]
  refine Ends.after (Stage.liveCallerSaved_ok work) ?_
  refine ((keeps.save _).ends fit).bind fun _ _ _ fit => ?_
  refine (fits_evaluate fits stage fit).bind fun values _ _ fit => ?_
  refine (fits function _ _ fit).bind fun target _ _ pointed => ?_
  refine ((keeps.releaseAll _).ends pointed.2).bind fun _ released _ fit => ?_
  refine Ends.after (Stage.liveCallerSaved_ok released) ?_
  refine ((keeps.save _).ends fit).bind fun _ _ _ fit => ?_
  refine ((keeps.callThrough _ _).ends fit).bind fun _ _ _ fit => ?_
  refine (((keeps.capture call kind hint).ends fit).and fun _ _ done =>
    Stage.suits_of_capture done).bind fun result _ _ captured => ?_
  refine ((keeps.restore _).ends captured.2).bind fun _ _ _ fit => ?_
  refine ((keeps.count _).ends fit).bind fun _ _ _ fit => ?_
  exact ends_pure ⟨captured.1, fit⟩

theorem fits_operands (left right : NodeId) (fit : work.Fit tree) :
    (operands tree visit left right hint).Ends work
      (fun values after => values.1.Suits (tree.kindOf left) ∧ after.Fit tree)
      (Workspace.Fit tree) := by
  have keeps := demanding_keepsNothing tree
  simp only [operands]
  refine ((evolution_keepsNothing.label left).ends fit).bind fun leftLabel _ _ fit => ?_
  refine ((evolution_keepsNothing.label right).ends fit).bind fun rightLabel _ _ fit => ?_
  split
  · refine (fits right none _ fit).bind fun second _ _ seconds => ?_
    refine ((keeps.parkUnderPressure second leftLabel _).ends seconds.2).bind fun _ _ _ fit => ?_
    exact (fits left hint _ fit).bind fun _ _ _ firsts => ends_pure firsts
  · refine (fits left hint _ fit).bind fun first _ _ firsts => ?_
    refine (((keeps.parkUnderPressure first rightLabel _).ends firsts.2).and fun _ _ done =>
      Build.suits_of_parkUnderPressure firsts.1 done).bind fun _ _ _ parked => ?_
    exact (fits right none _ parked.2).bind fun _ _ _ seconds => ends_pure ⟨parked.1, seconds.2⟩

theorem fits_operation (formed : tree.Formed) {node : Node} (found : tree.node? id = some node)
    (fit : work.Fit tree) :
    (operation tree visit id node.kind hint node.operation).Ends work
      (fun result after => result.Suits node.kind ∧ after.Fit tree) (Workspace.Fit tree) := by
  have keeps := demanding_keepsNothing tree
  cases here : node.operation with
  | constant bits => exact ends_pure ⟨Storage.suits_of_constant bits node.kind, fit⟩
  | parameter index =>
    have looks := keeps.onRoutine _ (Routine.evolution_extends.home index)
    refine (looks.ends fit).bind fun home _ _ fit => ?_
    cases home with
    | none => exact ends_throw fit
    | some home => exact ends_pure ⟨Storage.suits_of_slot rfl rfl, fit⟩
  | arith operation left right =>
    refine (fits_operands fits left right fit).bind fun values _ _ firsts => ?_
    rw [(formed.arith id node operation left right found here).1] at firsts
    refine (((keeps.materialize values.1 id hint _).ends firsts.2).and fun _ _ done =>
      Build.suits_of_materialize firsts.1 done).bind fun target _ _ placed => ?_
    refine ((keeps.write _).ends placed.2).bind fun _ _ _ fit => ?_
    exact ((keeps.release values.2).ends fit).bind fun _ _ _ fit => ends_pure ⟨placed.1, fit⟩
  | call function arguments =>
    exact ((evolution_keepsNothing.lift _).ends fit).bind fun stage _ _ fit =>
      fits_emitCall fits stage function id fit

/-- A value that is kept suits the node that it is kept of. -/
theorem fits_node (formed : tree.Formed) : (node tree visit).Fits tree := by
  intro id hint work fit
  simp only [node]
  have looks : (Build.lift (tree.node id)).Ends work
      (fun node after => tree.node? id = some node ∧ after = work) (Workspace.Fit tree) :=
    ends_lift (fun _ present => ⟨Tree.node_eq_ok.mp present, rfl⟩) fit
  refine looks.bind ?_
  rintro node work _ ⟨found, rfl⟩
  have kind := Tree.kindOf_of_node found
  refine ((evolution_keepsNothing.label id).ends fit).bind fun _ labeled _ fit => Ends.afterGet ?_
  cases kept : labeled.caches[id]? with
  | some cached =>
    exact ((demanding_keepsNothing tree).count _).ends fit |>.bind fun _ _ _ counted =>
      ends_pure ⟨(fit.kept id cached kept).2.share, counted⟩
  | none =>
    refine (fits_operation fits formed found fit).bind fun storage _ _ results => ?_
    rw [← kind] at results
    obtain ⟨suits, fit⟩ := results
    refine (((demanding_keepsNothing tree).count _).ends fit).bind fun _ counted _ fit => ?_
    split
    · refine Ends.afterModify (ends_pure ⟨suits.share, fit.sound, fun other storage kept => ?_⟩)
      rcases Workspace.kept_insert.mp kept with ⟨rfl, rfl⟩ | ⟨_, kept⟩
      · exact ⟨Tree.lt_size_of_node found, suits⟩
      · exact fit.kept other storage kept
    · exact ends_pure ⟨suits, fit⟩

end

/-- Whatever the depth of a node. -/
theorem fits_within (formed : tree.Formed) (depth : Nat) : (within tree depth).Fits tree := by
  induction depth with
  | zero => exact fun _ _ _ fit => ends_throw fit
  | succ depth ih => exact fits_node ih formed

end Generation

/-! ## Requests -/

open Workspace (evolution_keepsNothing)
open Build (Ends ends_pure ends_iff_leaves demanding_keepsNothing)

/-- Labeling changes nothing but labels, even if it fails. -/
theorem Labeling.leaves_subtree {tree : Tree} (layered : tree.Layered) (counted : tree.Counted)
    (id : NodeId) (isLeft : Bool) (work : Workspace) :
    LabelsOnly work ((subtree tree id isLeft).leaves work) := by
  by_cases exist : id < tree.size
  · obtain ⟨between, settles, done⟩ :=
      settles_within layered counted tree.size id exist exist isLeft work
    have only := settles.only
    rw [LabelsOnly] at only ⊢
    rw [Build.leaves, subtree, done, only]
  · have missing : tree.node? id = none := Array.getElem?_eq_none (Nat.not_lt.mp exist)
    simp only [Build.leaves, subtree]
    cases tree.size with
    | zero => rfl
    | succ depth =>
      simp only [within, node, Tree.node_missing missing]
      rfl

/-- Labeling keeps nothing. -/
theorem Labeling.fits_subtree {tree : Tree} (layered : tree.Layered) (counted : tree.Counted)
    (id : NodeId) (isLeft : Bool) {work : Workspace} (fit : work.Fit tree) :
    (subtree tree id isLeft).Ends work (fun _ after => after.Fit tree) (Workspace.Fit tree) := by
  have only := leaves_subtree layered counted id isLeft work
  refine Build.ends_iff_leaves.mpr ?_
  rw [LabelsOnly] at only
  rw [only]
  exact ⟨fit.sound, fit.kept⟩

/-- A compilation keeps what suits its nodes, wherever it ends. -/
theorem fits_compile {tree : Tree} (formed : tree.Formed) (counted : tree.Counted)
    (signature : Signature) (root : NodeId) {work : Workspace} (fit : work.Fit tree) :
    (compile tree signature root).Ends work (fun _ after => after.Fit tree)
      (Workspace.Fit tree) := by
  have keeps := demanding_keepsNothing tree
  have opens (routine : Routine) : (modify fun work => { work with routine := some routine } :
      Build Unit).Evolves Workspace.KeepsNothing := fun _ => ⟨rfl, id⟩
  simp only [compile]
  refine ((evolution_keepsNothing.lift (tree.node root)).ends fit).bind fun _ _ _ fit => ?_
  refine ((evolution_keepsNothing.lift _).ends fit).bind fun _ found _ fit => Ends.afterModify ?_
  have reset : found.reset.Fit tree := by
    refine ⟨RegisterPool.sound_new fit.sound.usable, fun id storage kept => ?_⟩
    simp [Workspace.reset] at kept
  refine (Labeling.fits_subtree formed.layered counted root true reset).bind fun _ _ _ fit => ?_
  refine ((keeps.start opens _).ends fit).bind fun _ _ _ fit => ?_
  refine (Generation.fits_within formed tree.size root _ _ fit).bind fun result _ _ visited => ?_
  refine ((keeps.release result).ends visited.2).bind fun _ _ _ fit => ?_
  exact (keeps.finish evolution_keepsNothing.takes _ _).ends fit

/-- Whatever is asked, done or not. -/
theorem Action.fits_run {tree : Tree} (built : tree.Built) (action : Action) {work : Workspace}
    (fit : work.Fit tree) : ((action.run tree).leaves work).Fit tree := by
  have keeps := demanding_keepsNothing tree
  have visits := Generation.fits_within built.formed tree.size
  have ignored {α : Type} {step : Build α}
      (ends : step.Ends work (fun _ after => after.Fit tree) (Workspace.Fit tree)) :
      ((do let _ ← step : Build Unit).leaves work).Fit tree :=
    ends_iff_leaves.mp (ends.bind fun _ _ _ fit => ends_pure fit)
  cases action with
  | label id isLeft =>
    exact ignored (Labeling.fits_subtree built.formed.layered built.counted id isLeft fit)
  | generate id =>
    exact ignored ((visits id none work fit).mono (fun _ _ => And.right) fun _ fit => fit)
  | allocateRegister kind register => exact ignored ((keeps.allocateRegister _ _).ends fit)
  | allocateTemporary kind => exact ignored ((keeps.temporary _ _).ends fit)
  | moveToRegister storage register => exact ignored ((keeps.moveToRegister _ _).ends fit)
  | park storage => exact ignored ((keeps.park _).ends fit)
  | release storage => exact ends_iff_leaves.mp ((keeps.release _).ends fit)
  | emitCall stage function call kind hint =>
    exact ignored ((Generation.fits_emitCall visits stage function call fit).mono
      (fun _ _ => And.right) fun _ fit => fit)
  | compile signature root => exact ignored (fits_compile built.formed built.counted _ _ fit)

/-- What suits the nodes of a tree goes on to do so when a node is added. -/
theorem Workspace.Fit.append {tree : Tree} {work : Workspace} (fit : work.Fit tree) (kind : Kind)
    (operation : Operation) : work.Fit (tree.append kind operation).2 where
  sound := fit.sound
  kept id storage kept := by
    obtain ⟨older, suits⟩ := fit.kept id storage kept
    rw [Tree.size_append, Tree.kindOf_append tree kind operation older]
    exact ⟨Nat.lt_succ_of_lt older, suits⟩

/-- In every workspace that there may be. -/
theorem History.fit {options : Options} {tree : Tree} {work : Workspace}
    (history : History options tree work) : work.Fit tree := by
  induction history with
  | new =>
    refine ⟨RegisterPool.sound_new fun _ => Options.usable_of_allocatable, fun id storage kept => ?_⟩
    simp [Workspace.new] at kept
  | constant _ kind bits fit => exact fit.append kind (.constant bits)
  | parameter _ kind index fit => exact fit.append kind (.parameter index)
  | arith _ _ done fit =>
    obtain ⟨_, _, rfl⟩ := Tree.of_arith done
    exact fit.append _ _
  | call _ _ done fit =>
    obtain ⟨_, _, _, rfl⟩ := Tree.of_call done
    exact fit.append _ _
  | act history action fit => exact action.fits_run history.built fit

end NativeExpr
