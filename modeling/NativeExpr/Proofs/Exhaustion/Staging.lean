import NativeExpr.Proofs.Exhaustion.Steps

/-!
# Steps of calls that fail for want of room only

Saving and restoring registers, giving the arguments back and moving them to their places always
succeed. Only the capture of the result may find neither a register nor a slot.
-/

namespace NativeExpr.Stage

open Build (Yields)

variable {tree : Tree} {needed : NodeId → Prop} {parameters : Nat} {work : Workspace}
variable {held : List Storage}

/-- Steps that succeed and leave the frame alone, one after the other. -/
theorem yields_forM {step : Register → Routine.Step Unit} {registers : List Register}
    (framed : ∀ register, (step register).Framed)
    (succeeds : ∀ register ∈ registers, (step register).Succeeds)
    (ready : work.Ready tree needed parameters held) :
    (registers.forM fun register => Build.onRoutine tree (step register)).Yields work
      fun _ after => after.Ready tree needed parameters held := by
  induction registers generalizing work with
  | nil => exact Build.yields_pure ready
  | cons register rest ih =>
    have first := Build.yields_step ready (framed register) (succeeds register List.mem_cons_self)
    refine first.bind fun _ _ _ ready => ?_
    exact ih (fun other listed => succeeds other (List.mem_cons_of_mem _ listed)) ready

theorem yields_save {registers : List Register} (real : ∀ register ∈ registers, register.InBank)
    (ready : work.Ready tree needed parameters held) :
    (save tree registers).Yields work fun _ after =>
      after.Ready tree needed parameters held := by
  rw [save_eq_forM]
  exact yields_forM Routine.framed_save
    (fun register listed => Routine.succeeds_save (real register listed)) ready

theorem yields_restore {registers : List Register} (real : ∀ register ∈ registers, register.InBank)
    (ready : work.Ready tree needed parameters held) :
    (restore tree registers).Yields work fun _ after =>
      after.Ready tree needed parameters held := by
  rw [restore_eq_forM]
  exact yields_forM Routine.framed_restore
    (fun register listed => Routine.succeeds_restore (real register listed)) ready

theorem yields_releaseAll {storages : List Storage}
    (ready : work.Ready tree needed parameters (storages ++ held)) :
    (releaseAll tree storages).Yields work fun _ after =>
      after.Ready tree needed parameters held := by
  induction storages generalizing work with
  | nil => exact Build.yields_pure ready
  | cons storage rest ih => exact (Build.yields_release ready).bind fun _ _ _ ready => ih ready

/-- A call whose moves are between registers of the machine is written. -/
theorem succeeds_callThrough (stage : Stage) {moves : List Move}
    (target : ∀ move ∈ moves, ∀ register, move.target = .register register → register.InBank)
    (source : ∀ move ∈ moves, ∀ register, move.source = .register register → register.InBank) :
    Routine.Step.Succeeds (do
      let outgoing := stage.stackSize + (← get).callPadding stage.stackSize
      Routine.reserve outgoing
      Routine.write (MoveSchedule.ofMoves moves).requests
      Routine.write [.call Convention.callTarget]
      Routine.giveUp outgoing : Routine.Step Unit) := by
  have calls : ∀ request ∈ [Request.call Convention.callTarget], request.Granted := by
    have general : Convention.callTarget.bank = .generalPurpose := rfl
    simpa using (Request.granted_general general (by decide)).2.2.1
  refine Routine.succeeds_bind (fun routine => ⟨routine, routine, rfl⟩) fun routine => ?_
  refine Routine.succeeds_bind (Routine.succeeds_reserve (stage.lowered routine)) fun _ => ?_
  refine Routine.succeeds_bind
    (Routine.succeeds_write (MoveSchedule.granted_ofMoves target source)) fun _ => ?_
  exact Routine.succeeds_bind (Routine.succeeds_write calls) fun _ =>
    Routine.succeeds_giveUp (stage.lowered routine)

theorem yields_callThrough {stage : Stage} {moves : List Move}
    (ready : work.Ready tree needed parameters held)
    (target : ∀ move ∈ moves, ∀ register, move.target = .register register → register.InBank)
    (source : ∀ move ∈ moves, ∀ register, move.source = .register register → register.InBank) :
    (stage.callThrough tree moves).Yields work fun _ after =>
      after.Ready tree needed parameters held :=
  Build.yields_step ready (framed_callThrough stage moves)
    (succeeds_callThrough stage target source)

/-- Arguments go to registers of the machine. -/
theorem Of.target_real {stage : Stage} {arguments : List NodeId} (of : stage.Of tree arguments)
    (values : List Storage) (pointer : Storage) :
    ∀ move ∈ stage.moves values pointer, ∀ register,
      move.target = .register register → register.InBank := by
  intro move member register place
  rcases List.mem_append.mp member with member | member
  · obtain ⟨⟨argument, value⟩, pair, rfl⟩ := List.mem_map.mp member
    exact (of.usable (List.of_mem_zip pair).1 place).1.inBank
  · rw [List.mem_singleton.mp member] at place
    obtain rfl := Place.register.inj place
    decide

/-- Values that suit their nodes come from registers of the machine. -/
theorem source_real {stage : Stage} {values : List Storage} {pointer : Storage} {kind : Kind}
    (suit : ∀ value ∈ values, ∃ kind, value.Suits kind) (suits : pointer.Suits kind) :
    ∀ move ∈ stage.moves values pointer, ∀ register,
      move.source = .register register → register.InBank := by
  intro move member register here
  rcases List.mem_append.mp member with member | member
  · obtain ⟨⟨argument, value⟩, pair, rfl⟩ := List.mem_map.mp member
    obtain ⟨own, suits⟩ := suit value (List.of_mem_zip pair).2
    exact (suits.register register here).2
  · rw [List.mem_singleton.mp member] at here
    exact (suits.register register here).2

theorem resultRegister_real (bank : Bank) :
    (Convention.resultRegister bank).InBank ∧ (Convention.resultRegister bank).bank = bank := by
  cases bank <;> decide

/-- A result finds a register or a slot, or there is none. -/
theorem yields_capture (ready : work.Ready tree needed parameters held) (call : NodeId)
    (kind : Kind) (hint : Option Register) :
    (capture tree call kind hint).Yields work fun result after =>
      result.Suits kind ∧ after.Ready tree needed parameters (result :: held) := by
  have returned := (resultRegister_real kind.bank).1
  simp only [capture]
  refine Yields.afterGet ?_
  refine (Build.yields_tryRegister ready kind call _).bind fun found _ _ outcome => ?_
  rcases outcome with ⟨rfl, rfl⟩ | ⟨register, rfl, suits, ready⟩
  · refine (Build.yields_allocateSlot ready kind).bind fun slot _ _ ready => ?_
    cases slot with
    | none => exact Build.yields_exhausted _ _
    | some offset =>
      refine (Build.yields_write ready (Build.granted_spill returned offset)).bind
        fun _ _ _ ready => ?_
      exact Build.yields_pure ⟨Storage.suits_of_slot rfl rfl, ready⟩
  · have brought : ∀ request ∈ Transfer.intoRegister register
        (.register (Convention.resultRegister kind.bank)), request.Granted := by
      refine Transfer.granted_intoRegister (suits.register register rfl).2 fun other here => ?_
      obtain rfl := Location.register.inj here
      exact returned
    exact (Build.yields_write ready brought).bind fun _ _ _ ready =>
      Build.yields_pure ⟨suits, ready⟩

end NativeExpr.Stage
