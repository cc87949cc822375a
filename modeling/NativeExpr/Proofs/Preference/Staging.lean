import NativeExpr.Proofs.Preference.Placement

/-!
# Calls abreast

Two workspaces that are abreast may have other registers live, so a call may save more of them in
the one than in the other. That changes the code and how deep the stack is, and nothing else: the
arguments are evaluated in the same order, for they have the same labels, and the result is captured
in a register in both or in the same slot.
-/

namespace NativeExpr

/-- Whether a visit generates every node alike in workspaces that are abreast, whatever registers
are preferred. -/
def Visit.Steady (tree : Tree) (visit : Visit) : Prop :=
  ∀ (id : NodeId) (hint other : Option Register) ⦃started : Prop⦄
    ⦃held : List (Storage × Storage)⦄ ⦃work twin : Workspace⦄, work.Abreast tree started held twin →
      Build.Matches (fun value image after later => value.Mirrors (tree.kindOf id) image ∧
          after.Abreast tree started ((value, image) :: held) later)
        (visit id hint work) (visit id other twin)

namespace Stage

open Workspace (Level Abreast)
open Build (Matches matches_pure matches_throw matches_step matches_write)

variable {tree : Tree} {started : Prop} {held : List (Storage × Storage)}
variable {work twin : Workspace}

/-! ## Steps of calls -/

/-- The same arguments have the same labels. -/
theorem matches_demands (level : work.Level tree held twin) (start : Nat)
    (arguments : List Staged) :
    Matches (fun found other after later => other = found ∧ after = work ∧ later = twin)
      (demands tree start arguments work) (demands tree start arguments twin) := by
  induction arguments generalizing start with
  | nil => exact matches_pure ⟨rfl, rfl, rfl⟩
  | cons argument rest ih =>
    refine (Build.matches_label level argument.node).bind ?_
    rintro _ label _ _ ⟨rfl, rfl, rfl⟩
    refine (ih (start + 1)).bind ?_
    rintro _ found _ _ ⟨rfl, rfl, rfl⟩
    exact matches_pure ⟨rfl, rfl, rfl⟩

section Registers

variable {step : Register → Routine.Step Unit} {registers others : List Register}
variable (framed : ∀ register, (step register).Framed)

include framed

/-- In a function that has been begun steps that succeed are taken, one after the other. -/
theorem forM_ok {routine : Routine} (begun : work.routine = some routine)
    (succeeds : ∀ register ∈ registers, (step register).Succeeds) :
    ∃ later, (registers.forM fun register => Build.onRoutine tree (step register)) work =
      .ok () { work with routine := some later } ∧ later.frame = routine.frame := by
  induction registers generalizing work routine with
  | nil => exact ⟨routine, by rw [← begun]; rfl, rfl⟩
  | cons register rest ih =>
    obtain ⟨here, others⟩ := List.forall_mem_cons.mp succeeds
    obtain ⟨_, between, stepped, same⟩ := Build.step_ok tree begun (framed register) here
    have begun : ({ work with routine := some between } : Workspace).routine = some between := rfl
    obtain ⟨later, goesOn, frame⟩ := ih begun others
    exact ⟨later, (estate_bind_of_ok stepped).trans goesOn, frame.trans same⟩

/-- Steps for other registers and for another number of them, unless these are the first steps in
a function. -/
theorem matches_forM (abreast : work.Abreast tree started held twin)
    (succeeds : ∀ register ∈ registers, (step register).Succeeds)
    (otherSucceeds : ∀ register ∈ others, (step register).Succeeds)
    (idle : work.routine = none → others = registers) :
    Matches (fun _ _ after later => after.Abreast tree started held later)
      ((registers.forM fun register => Build.onRoutine tree (step register)) work)
      ((others.forM fun register => Build.onRoutine tree (step register)) twin) := by
  cases begun : work.routine with
  | some routine =>
    have frame := abreast.frame
    rw [begun] at frame
    obtain ⟨other, otherBegun, same⟩ := Option.map_eq_some_iff.mp frame
    obtain ⟨later, done, here⟩ := forM_ok framed begun succeeds
    obtain ⟨further, otherDone, there⟩ := forM_ok framed otherBegun otherSucceeds
    rw [done, otherDone]
    refine .ok (abreast.goesOn ?_ (abreast.secured.stepped (.inl begun) here)
      (abreast.imageSecured.stepped (.inl otherBegun) there))
    rw [here, there, same]
  | none =>
    rw [idle begun]
    clear idle begun otherSucceeds
    induction registers generalizing work twin with
    | nil => exact matches_pure abreast
    | cons register rest ih =>
      obtain ⟨here, later⟩ := List.forall_mem_cons.mp succeeds
      exact (matches_step started abreast.toLevel (framed register) here (framed register) here).bind
        fun _ _ _ _ abreast => ih abreast later

end Registers

theorem matches_save {registers others : List Register} (abreast : work.Abreast tree started held twin)
    (real : ∀ register ∈ registers, register.InBank)
    (otherReal : ∀ register ∈ others, register.InBank)
    (idle : work.routine = none → others = registers) :
    Matches (fun _ _ after later => after.Abreast tree started held later) (save tree registers work)
      (save tree others twin) := by
  rw [save_eq_forM, save_eq_forM]
  exact matches_forM Routine.framed_save abreast
    (fun register listed => Routine.succeeds_save (real register listed))
    (fun register listed => Routine.succeeds_save (otherReal register listed)) idle

theorem matches_restore {registers others : List Register} (abreast : work.Abreast tree started held twin)
    (real : ∀ register ∈ registers, register.InBank)
    (otherReal : ∀ register ∈ others, register.InBank)
    (idle : work.routine = none → others = registers) :
    Matches (fun _ _ after later => after.Abreast tree started held later) (restore tree registers work)
      (restore tree others twin) := by
  rw [restore_eq_forM, restore_eq_forM]
  exact matches_forM Routine.framed_restore abreast
    (fun register listed => Routine.succeeds_restore (real register listed))
    (fun register listed => Routine.succeeds_restore (otherReal register listed)) idle

theorem matches_releaseAll {pairs : List (Storage × Storage)}
    (mirrors : ∀ pair ∈ pairs, ∃ kind, pair.1.Mirrors kind pair.2)
    (abreast : work.Abreast tree started (pairs ++ held) twin) :
    Matches (fun _ _ after later => after.Abreast tree started held later)
      (releaseAll tree (pairs.map Prod.fst) work) (releaseAll tree (pairs.map Prod.snd) twin) := by
  induction pairs generalizing work twin with
  | nil => exact matches_pure abreast
  | cons pair rest ih =>
    obtain ⟨⟨_, here⟩, others⟩ := List.forall_mem_cons.mp mirrors
    exact (Build.matches_release here abreast).bind fun _ _ _ _ abreast => ih others abreast

/-- A function is called in both functions, wherever its arguments and its pointer are. -/
theorem matches_callThrough {stage : Stage} {arguments : List NodeId}
    (of : stage.Of tree arguments) {pairs : List (Storage × Storage)} {target pointer : Storage}
    {kind : Kind} (mirrors : ∀ pair ∈ pairs, ∃ kind, pair.1.Mirrors kind pair.2)
    (pointers : target.Mirrors kind pointer) (abreast : work.Abreast tree started held twin) :
    Matches (fun _ _ after later => after.Abreast tree True held later)
      (stage.callThrough tree (stage.moves (pairs.map Prod.fst) target) work)
      (stage.callThrough tree (stage.moves (pairs.map Prod.snd) pointer) twin) := by
  have suits : ∀ value ∈ pairs.map Prod.fst, ∃ kind, value.Suits kind := by
    intro value member
    obtain ⟨pair, listed, rfl⟩ := List.mem_map.mp member
    exact (mirrors pair listed).imp fun _ mirrors => mirrors.suits
  have imageSuits : ∀ value ∈ pairs.map Prod.snd, ∃ kind, value.Suits kind := by
    intro value member
    obtain ⟨pair, listed, rfl⟩ := List.mem_map.mp member
    exact (mirrors pair listed).imp fun _ mirrors => mirrors.imageSuits
  exact matches_step True abreast.toLevel (framed_callThrough stage _)
    (succeeds_callThrough stage (of.target_real _ target) (source_real suits pointers.suits))
    (framed_callThrough stage _)
    (succeeds_callThrough stage (of.target_real _ pointer)
      (source_real imageSuits pointers.imageSuits))

/-- The result is captured in a register in both functions, or in the same slot. -/
theorem matches_capture (abreast : work.Abreast tree started held twin) (call : NodeId) (kind : Kind)
    (hint other : Option Register) :
    Matches (fun result image after later => result.Mirrors kind image ∧
        after.Abreast tree started ((result, image) :: held) later)
      (capture tree call kind hint work) (capture tree call kind other twin) := by
  have returned := (resultRegister_real kind.bank).1
  have source : ∀ register, Location.register (Convention.resultRegister kind.bank) =
      .register register → register.InBank := by
    rintro _ ⟨⟩
    exact returned
  simp only [capture]
  refine Matches.afterGet ?_
  refine (Build.matches_tryRegister abreast kind (some call) _ _).bind ?_
  rintro _ _ _ _ (⟨rfl, rfl, abreast⟩ | ⟨register, mirror, rfl, rfl, suits, imageSuits, level⟩)
  · refine (Build.matches_allocateSlot started abreast.toLevel kind).bind ?_
    rintro _ slot _ _ ⟨rfl, abreast⟩
    cases slot with
    | none => exact matches_throw _
    | some offset =>
      have granted := Build.granted_spill returned offset
      have slotSuits : (Storage.own (.slot offset) kind).Suits kind :=
        Storage.suits_of_slot rfl rfl
      exact (matches_write started abreast.toLevel granted granted).bind fun _ _ _ _ abreast =>
        matches_pure ⟨slotSuits.mirrors, abreast⟩
  · have real := (suits.register register rfl).2
    have imageReal := (imageSuits.register mirror rfl).2
    refine (matches_write started level (Transfer.granted_intoRegister real source)
      (Transfer.granted_intoRegister imageReal source)).bind fun _ _ _ _ abreast => ?_
    exact matches_pure ⟨⟨suits, imageSuits, rfl, .inr ⟨register, mirror, rfl, rfl⟩⟩, abreast⟩

/-! ## Arguments -/

section Arguments

variable {visit : Visit} (steady : visit.Steady tree)

include steady

/-- Arguments are held until all of them are evaluated. -/
theorem matches_evaluateInOrder (demands : List Demand) (abreast : work.Abreast tree started held twin) :
    Matches (fun found image after later => ∃ evaluated : List (Demand × (Storage × Storage)),
        evaluated.map Prod.fst = demands ∧
        found = evaluated.map (fun each => (each.1.position, each.2.1)) ∧
        image = evaluated.map (fun each => (each.1.position, each.2.2)) ∧
        (∀ each ∈ evaluated, ∃ kind, each.2.1.Mirrors kind each.2.2) ∧
        after.Abreast tree started (evaluated.map Prod.snd ++ held) later)
      (evaluateInOrder tree visit demands work) (evaluateInOrder tree visit demands twin) := by
  induction demands generalizing work twin held with
  | nil => exact matches_pure ⟨[], rfl, rfl, rfl, by simp, abreast⟩
  | cons demand rest ih =>
    refine (steady demand.argument.node _ _ abreast).bind ?_
    rintro value image visited otherwise ⟨mirrors, abreast⟩
    have goesOn (settled other : Storage) (parked later : Workspace)
        (settles : settled.Mirrors (tree.kindOf demand.argument.node) other ∧
          parked.Abreast tree started ((settled, other) :: held) later) :
        Matches (fun found image after later =>
            ∃ evaluated : List (Demand × (Storage × Storage)),
              evaluated.map Prod.fst = demand :: rest ∧
              found = evaluated.map (fun each => (each.1.position, each.2.1)) ∧
              image = evaluated.map (fun each => (each.1.position, each.2.2)) ∧
              (∀ each ∈ evaluated, ∃ kind, each.2.1.Mirrors kind each.2.2) ∧
              after.Abreast tree started (evaluated.map Prod.snd ++ held) later)
          ((do return (demand.position, settled) :: (← evaluateInOrder tree visit rest) :
            Build (List (Nat × Storage))) parked)
          ((do return (demand.position, other) :: (← evaluateInOrder tree visit rest) :
            Build (List (Nat × Storage))) later) := by
      obtain ⟨mirrors, abreast⟩ := settles
      refine (ih abreast).bind ?_
      rintro _ _ after later ⟨evaluated, rfl, rfl, rfl, mirror, abreast⟩
      refine matches_pure ⟨(demand, (settled, other)) :: evaluated, rfl, rfl, rfl, ?_, ?_⟩
      · intro each listed
        rcases List.mem_cons.mp listed with rfl | listed
        · exact ⟨_, mirrors⟩
        · exact mirror each listed
      · exact abreast.perm List.perm_middle
    cases rest with
    | nil => exact goesOn value image visited otherwise ⟨mirrors, abreast⟩
    | cons next later =>
      exact (Build.matches_parkUnderPressure mirrors abreast _ _).bind goesOn

/-- The values of arguments are held until the call. -/
theorem matches_evaluate (stage : Stage) (abreast : work.Abreast tree started held twin) :
    Matches (fun values images after later => ∃ pairs : List (Storage × Storage),
        values = pairs.map Prod.fst ∧ images = pairs.map Prod.snd ∧
        (∀ pair ∈ pairs, ∃ kind, pair.1.Mirrors kind pair.2) ∧
        after.Abreast tree started (pairs ++ held) later)
      (stage.evaluate tree visit work) (stage.evaluate tree visit twin) := by
  refine (matches_demands abreast.toLevel 0 stage.arguments).recall.bind ?_
  rintro _ listed _ _ ⟨asked, rfl, rfl, rfl⟩
  obtain ⟨_, arguments, positions, _⟩ := of_demands asked
  refine (matches_evaluateInOrder steady (heaviestFirst listed) abreast).bind ?_
  rintro _ _ after later ⟨evaluated, demands, rfl, rfl, mirrors, abreast⟩
  have count : stage.arguments.length = listed.length := by rw [← arguments, List.length_map]
  rw [count, ← List.range_eq_range'] at positions
  obtain ⟨settled, reordered, _, values⟩ := settle_map positions demands
  rw [count, values Prod.fst, values Prod.snd]
  refine matches_pure ⟨settled.map Prod.snd, by rw [List.map_map]; rfl, by rw [List.map_map]; rfl,
    fun pair member => ?_, abreast.perm ((reordered.map _).symm.append_right held)⟩
  obtain ⟨each, listed, rfl⟩ := List.mem_map.mp member
  exact mirrors each (reordered.mem_iff.mp listed)

/-- A call is generated alike if its arguments and its function are. -/
theorem matches_emitCall {stage : Stage} {arguments : List NodeId} (of : stage.Of tree arguments)
    (function call : NodeId) (kind : Kind) (hint other : Option Register)
    (abreast : work.Abreast tree started held twin) :
    Matches (fun result image after later => result.Mirrors kind image ∧
        after.Abreast tree started ((result, image) :: held) later)
      (stage.emitCall tree visit function call kind hint work)
      (stage.emitCall tree visit function call kind other twin) := by
  have real (set : RegisterSet) : ∀ register ∈ set.toList, register.InBank :=
    fun register listed => RegisterPool.inBank_of_contains (RegisterSet.mem_toList.mp listed)
  have exposes {held : List (Storage × Storage)} {work twin : Workspace} {started : Prop}
      (abreast : work.Abreast tree started held twin) (none : work.routine = none) :
      exposed twin = exposed work := by rw [exposed, exposed, (abreast.idle none).1]
  have again : work.Abreast tree (work.routine ≠ none) held twin :=
    abreast.restart Option.ne_none_iff_exists'.mp
  simp only [emitCall]
  refine Matches.after (liveCallerSaved_ok work) (liveCallerSaved_ok twin) ?_
  refine (matches_save again (real _) (real _) fun none => by rw [exposes again none]).bind
    fun _ _ _ _ entered => ?_
  refine (matches_evaluate steady stage entered).bind ?_
  rintro _ _ _ _ ⟨pairs, rfl, rfl, mirrors, evaluated⟩
  refine (steady function _ _ evaluated).bind ?_
  rintro target pointer _ _ ⟨pointers, pointed⟩
  have gathers : ((target, pointer) :: (pairs ++ held)).Perm
      (pairs ++ [(target, pointer)] ++ held) := by
    rw [List.append_assoc]
    exact List.perm_middle.symm
  have gathered : ∀ pair ∈ pairs ++ [(target, pointer)], ∃ kind, pair.1.Mirrors kind pair.2 := by
    intro pair member
    rcases List.mem_append.mp member with member | member
    · exact mirrors pair member
    · rw [List.mem_singleton.mp member]
      exact ⟨_, pointers⟩
  have releases := matches_releaseAll gathered (pointed.perm gathers)
  simp only [List.map_append, List.map_cons, List.map_nil] at releases
  refine releases.bind fun _ _ free freed released => ?_
  refine Matches.after (liveCallerSaved_ok free) (liveCallerSaved_ok freed) ?_
  refine (matches_save released (real _) (real _) fun none => ?_).bind fun _ _ _ _ guarded => ?_
  · -- If there is no function yet there was none at first, and the pools have been the same.
    have unbegun : work.routine = Option.none := by
      by_contra begun
      obtain ⟨routine, goesOn⟩ := released.begun begun
      exact absurd (goesOn.symm.trans none) (Option.some_ne_none routine)
    rw [exposes released none, exposes again unbegun]
  refine (matches_callThrough of mirrors pointers guarded).bind fun _ _ _ _ called => ?_
  refine (matches_capture called call kind hint other).bind ?_
  rintro result image _ _ ⟨results, captured⟩
  have saved (early late : RegisterSet) :
      ∀ register ∈ (early.toList ++ late.toList).reverse, register.InBank := by
    intro register listed
    rcases List.mem_append.mp (List.mem_reverse.mp listed) with listed | listed
    · exact real early register listed
    · exact real late register listed
  refine (matches_restore captured (saved _ _) (saved _ _) fun none => ?_).bind
    fun _ _ _ _ restored => ?_
  · obtain ⟨routine, begun⟩ := captured.begun trivial
    exact absurd (begun.symm.trans none) (Option.some_ne_none routine)
  let calls (statistics : Statistics) : Statistics :=
    { statistics with callsEmitted := statistics.callsEmitted + 1 }
  refine (Build.matches_count calls (fun _ => rfl) (fun _ => rfl) restored).bind
    fun _ _ _ _ counted => ?_
  exact matches_pure ⟨results, counted.restart fun _ => counted.begun trivial⟩

end Arguments

end Stage

end NativeExpr
