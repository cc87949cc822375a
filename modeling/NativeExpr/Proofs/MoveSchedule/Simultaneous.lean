import NativeExpr.Proofs.MoveSchedule.Outgoing
import NativeExpr.Proofs.MoveSchedule.Resolution

/-!
# Moves as if at once

`ofMoves_simultaneous` says that a schedule of moves has the effect of moving all values at
once: every target receives what its source held at the beginning, and nothing else changes
but the scratch registers. The moves are only asked to have targets of their own, outside the
memory that they read, and to leave the scratch registers and the frame alone.
-/

namespace NativeExpr

/-- Whether a move is between registers of the machine, as far as it is between registers. -/
structure Move.Real (move : Move) : Prop where
  target : ∀ register ∈ move.target.register?, register.InBank
  source : ∀ register ∈ move.source.register?, register.InBank

instance (move : Move) : Decidable move.Real :=
  decidable_of_iff ((∀ register ∈ move.target.register?, register.InBank) ∧
      ∀ register ∈ move.source.register?, register.InBank)
    ⟨fun ⟨target, source⟩ => ⟨target, source⟩, fun ⟨target, source⟩ => ⟨target, source⟩⟩

namespace MoveSchedule

theorem mem_movesInto {bank : Bank} {moves : List Move} {move : RegisterMove} :
    move ∈ movesInto bank moves ↔
      move.target.bank = bank ∧ ⟨.register move.target, move.source⟩ ∈ moves := by
  simp only [movesInto, List.mem_filterMap]
  constructor
  · rintro ⟨⟨target, source⟩, member, found⟩
    cases target with
    | stack offset => cases found
    | register register =>
      simp only [Option.ite_none_right_eq_some, Option.some.injEq] at found
      obtain ⟨own, rfl⟩ := found
      exact ⟨own, member⟩
  · rintro ⟨own, member⟩
    exact ⟨_, member, by simp [own]⟩

/-- The targets of the moves into a bank are those targets that are registers of the bank. -/
theorem targets_movesInto (bank : Bank) (moves : List Move) :
    (movesInto bank moves).map RegisterMove.target =
      (moves.filterMap fun move => move.target.register?).filter fun register =>
        decide (register.bank = bank) := by
  rw [movesInto, List.map_filterMap, List.filter_filterMap]
  refine List.filterMap_congr fun move _ => ?_
  cases target : move.target with
  | register register =>
    by_cases own : register.bank = bank <;> simp [Place.register?, own, Option.filter]
  | stack offset => simp [Place.register?]

theorem nodup_movesInto {moves : List Move} (distinct : (moves.map Move.target).Nodup)
    (bank : Bank) : ((movesInto bank moves).map RegisterMove.target).Nodup := by
  rw [targets_movesInto, ← Function.comp_def Place.register?, ← List.filterMap_map]
  refine List.Nodup.filter _ (distinct.filterMap fun left right register fromLeft fromRight => ?_)
  cases left <;> cases right <;> simp_all [Place.register?]

/-- Moves as a call asks for them: targets of their own, at multiples of eight in the outgoing
area, and registers that moves may read and write, each target of the same bank as its
source. -/
structure Parallel (moves : List Move) : Prop where
  distinct : (moves.map Move.target).Nodup
  aligned : ∀ move ∈ moves, ∀ offset, move.target = .stack offset → 8 ∣ offset.toInt
  target : ∀ move ∈ moves, ∀ register, move.target = .register register → register.Usable
  source : ∀ move ∈ moves, ∀ register, move.source = .register register → register.Usable
  bank : ∀ move ∈ moves, ∀ target source, move.target = .register target →
    move.source = .register source → source.bank = target.bank

/-- Whether the outgoing area that moves write shares no byte with the slots that they read. -/
def ReadsApart (machine : Machine) (moves : List Move) : Prop :=
  ∀ writer ∈ moves, ∀ reader ∈ moves, ∀ offset slot, writer.target = .stack offset →
    reader.source = .slot slot → Machine.Apart (machine.outgoing offset) (machine.slot slot)

theorem Parallel.separate {moves : List Move} (parallel : Parallel moves) {machine : Machine}
    (apart : ReadsApart machine moves) : Separate machine moves where
  written offset other := by
    rintro ⟨first, firstListed, firstTarget⟩ ⟨second, secondListed, secondTarget⟩ differ
    exact Machine.apart_of_aligned _ differ (parallel.aligned first firstListed offset firstTarget)
      (parallel.aligned second secondListed other secondTarget)
  read offset slot := by
    rintro ⟨writer, writerListed, target⟩ ⟨reader, readerListed, source⟩
    exact apart writer writerListed reader readerListed offset slot target source

theorem Parallel.pending {moves : List Move} (parallel : Parallel moves) (bank : Bank) :
    Pending bank (movesInto bank moves) := by
  refine ⟨fun move member => ?_, nodup_movesInto parallel.distinct bank⟩
  obtain ⟨own, listed⟩ := mem_movesInto.mp member
  have usable := parallel.target _ listed move.target rfl
  refine ⟨own, usable.inBank, usable.ne_rbp, usable.ne_scratch bank, fun register source => ?_⟩
  exact ⟨(parallel.bank _ listed _ _ rfl source).trans own,
    (parallel.source _ listed register source).inBank⟩

/-- What a schedule of moves changes: target registers, the scratch registers and words of the
outgoing area. -/
structure Confined (moves : List Move) (before later : Machine) : Prop where
  get : ∀ register : Register, register.InBank → register ≠ .r11 → register ≠ .xmm 15 →
    (∀ move ∈ moves, move.target ≠ .register register) → later.get register = before.get register
  memory : ∀ place : Word, (∀ move ∈ moves, ∀ offset, move.target = .stack offset →
    8 ≤ (place - before.outgoing offset).toNat) → later.memory place = before.memory place

/-- The moves into one bank agree outside their targets and the scratch registers. -/
theorem resolve_movesInto_agrees (natives : Natives) {moves : List Move} (bank : Bank)
    (real : ∀ move ∈ moves, ∀ register, move.target = .register register → register.InBank)
    (machine : Machine) :
    Machine.AgreeOutside (changes bank (movesInto bank moves)) machine
      (Request.effects natives machine
        (resolve (Convention.scratch bank) (movesInto bank moves)).requests) :=
  resolve_agrees natives bank (fun move member =>
    real _ (mem_movesInto.mp member).2 move.target rfl) machine

/-- A register that no move targets is not changed by the moves into a bank. -/
theorem notMem_changes {moves : List Move} (bank : Bank) {register : Register}
    (notR11 : register ≠ .r11) (notXmm15 : register ≠ .xmm 15)
    (untouched : ∀ move ∈ moves, move.target ≠ .register register) :
    register ∉ changes bank (movesInto bank moves) := by
  simp only [changes, List.mem_append, List.mem_map, mem_movesInto, List.mem_cons,
    List.not_mem_nil, or_false, not_or, not_exists, not_and, and_imp]
  refine ⟨fun move _ listed same => untouched _ listed (same ▸ rfl), ?_, notR11⟩
  cases bank <;> assumption

/-- Moves into no scratch register settle. -/
theorem settled_ofMoves {moves : List Move}
    (apart : ∀ move ∈ moves, ∀ bank, move.target ≠ .register (Convention.scratch bank)) :
    (ofMoves moves).settled := by
  refine settled_within_iff.mpr fun bank => settled_resolveWithin_iff.mp
    (settled_resolveWithin (fun move member same => ?_) (Nat.le_refl _))
  obtain ⟨_, listed⟩ := mem_movesInto.mp (List.mem_of_mem_filter member)
  exact apart _ listed bank (congrArg Place.register same)

/-- Whatever the sources are, a schedule changes nothing but the targets and the scratch
registers. -/
theorem ofMoves_confined (natives : Natives) {moves : List Move}
    (real : ∀ move ∈ moves, ∀ register, move.target = .register register → register.InBank)
    (machine : Machine) :
    Confined moves machine (Request.effects natives machine (ofMoves moves).requests) := by
  obtain ⟨stored, memory⟩ := effects_outgoing_agrees natives moves machine
  have xmm := resolve_movesInto_agrees natives .xmm real
    (Request.effects natives machine (outgoing moves))
  simp only [ofMoves, after, andThen, Request.effects_append]
  split
  · have gp := resolve_movesInto_agrees natives .generalPurpose real
      (Request.effects natives (Request.effects natives machine (outgoing moves))
        (resolve (Convention.scratch .xmm) (movesInto .xmm moves)).requests)
    simp only [Request.effects_append]
    constructor
    · intro register inBank notR11 notXmm15 untouched
      rw [gp.get register inBank (notMem_changes _ notR11 notXmm15 untouched),
        xmm.get register inBank (notMem_changes _ notR11 notXmm15 untouched),
        stored register inBank notR11]
    · intro place outside
      rw [gp.memory, xmm.memory, memory place outside]
  · constructor
    · intro register inBank notR11 notXmm15 untouched
      rw [xmm.get register inBank (notMem_changes _ notR11 notXmm15 untouched),
        stored register inBank notR11]
    · intro place outside
      rw [xmm.memory, memory place outside]

/-- After the stores in the outgoing area every source still holds its value. -/
theorem value_after_outgoing (natives : Natives) {moves : List Move} (parallel : Parallel moves)
    {machine : Machine} (apart : ReadsApart machine moves) {move : Move} (member : move ∈ moves) :
    (Request.effects natives machine (outgoing moves)).value move.source =
      machine.value move.source := by
  obtain ⟨registers, memory⟩ := effects_outgoing_agrees natives moves machine
  cases source : move.source with
  | register register =>
    have usable := parallel.source move member register source
    exact registers register usable.inBank usable.ne_r11
  | slot slot =>
    simp only [Machine.value, registers .rbp (by decide) (by decide)]
    refine Machine.load_congr fun position within => memory _ fun writer listed offset target => ?_
    exact (apart writer listed move member offset slot target source).outside within
  | constant bits => rfl

/-- After the moves into XMM registers a source of a general-purpose register still holds its
value. -/
theorem value_after_xmm (natives : Natives) {moves : List Move} (parallel : Parallel moves)
    (machine : Machine) {move : RegisterMove} (member : move ∈ movesInto .generalPurpose moves) :
    (Request.effects natives machine
      (resolve (Convention.scratch .xmm) (movesInto .xmm moves)).requests).value move.source =
        machine.value move.source := by
  have foreign (register : Register) (own : register.bank = .generalPurpose)
      (other : register ≠ .r11) : register ∉ changes .xmm (movesInto .xmm moves) := by
    simp only [changes, List.mem_append, List.mem_map, mem_movesInto, List.mem_cons,
      List.not_mem_nil, or_false, not_or, not_exists, not_and, and_imp]
    refine ⟨fun target bank _ same => ?_, fun same => ?_, other⟩
    · rw [same, own] at bank
      cases bank
    · rw [same] at own
      cases own
  have agree := resolve_movesInto_agrees natives .xmm
    (fun move listed register target => (parallel.target move listed register target).inBank) machine
  refine agree.value (foreign _ rfl (by decide)) fun register source => ?_
  obtain ⟨own, real⟩ := ((parallel.pending .generalPurpose).fits move member).source register source
  have usable := parallel.source _ (mem_movesInto.mp member).2 register source
  exact ⟨real, foreign register own usable.ne_r11⟩

/-- The target of a move into an XMM register is left alone by the moves into the other bank. -/
theorem get_after_gp (natives : Natives) {moves : List Move} (parallel : Parallel moves)
    (machine : Machine) {register : Register} (own : register.bank = .xmm)
    (real : register.InBank) :
    (Request.effects natives machine (resolve (Convention.scratch .generalPurpose)
      (movesInto .generalPurpose moves)).requests).get register = machine.get register := by
  refine (resolve_movesInto_agrees natives .generalPurpose
    (fun move listed target same => (parallel.target move listed target same).inBank)
      machine).get register real ?_
  simp only [changes, Convention.scratch, List.mem_append, List.mem_map, mem_movesInto,
    List.mem_cons, List.not_mem_nil, or_false, not_or, not_exists, not_and, and_imp]
  refine ⟨fun target bank _ same => ?_, ?_, ?_⟩
  · rw [same, own] at bank
    cases bank
  all_goals
    rintro rfl
    cases own

/-- Every target of a schedule holds at the end what its source held at the beginning. -/
theorem ofMoves_delivers (natives : Natives) {moves : List Move} (parallel : Parallel moves)
    {machine : Machine} (apart : ReadsApart machine moves) :
    ∀ move ∈ moves, (Request.effects natives machine (ofMoves moves).requests).argument
      move.target = machine.value move.source := by
  have real : ∀ move ∈ moves, ∀ register, move.target = .register register → register.InBank :=
    fun move listed register target => (parallel.target move listed register target).inBank
  obtain ⟨xmmSettled, xmmDelivers⟩ := resolve_delivers natives (parallel.pending .xmm)
    (Request.effects natives machine (outgoing moves))
  obtain ⟨_, gpDelivers⟩ := resolve_delivers natives (parallel.pending .generalPurpose)
    (Request.effects natives (Request.effects natives machine (outgoing moves))
      (resolve (Convention.scratch .xmm) (movesInto .xmm moves)).requests)
  have confined := ofMoves_confined natives real machine
  intro move member
  have original := value_after_outgoing natives parallel apart member
  cases target : move.target with
  | register register =>
    have listed : (⟨register, move.source⟩ : RegisterMove) ∈ movesInto register.bank moves :=
      mem_movesInto.mpr ⟨rfl, by rw [← target]; exact member⟩
    simp only [Machine.argument, ofMoves, after, andThen, xmmSettled, if_true,
      Request.effects_append]
    cases bank : register.bank with
    | xmm =>
      rw [get_after_gp natives parallel _ bank (real move member register target)]
      exact (xmmDelivers _ (bank ▸ listed)).trans original
    | generalPurpose =>
      have arrives := gpDelivers _ (bank ▸ listed)
      rw [value_after_xmm natives parallel _ (bank ▸ listed)] at arrives
      exact arrives.trans original
  | stack offset =>
    have stack : (Request.effects natives machine (ofMoves moves).requests).get .rsp =
        machine.get .rsp :=
      confined.get .rsp (by decide) (by decide) (by decide) fun other listed same =>
        (parallel.target other listed .rsp same).ne_rsp rfl
    have stored := effects_outgoing_delivers natives parallel.distinct
      (fun other listed register source =>
        ⟨(parallel.source other listed register source).inBank,
          (parallel.source other listed register source).ne_r11⟩)
      (parallel.separate apart) move member offset target
    rw [Machine.argument, stack]
    refine Eq.trans ?_ stored
    simp only [ofMoves, after, andThen, xmmSettled, if_true, Request.effects_append]
    rw [(resolve_movesInto_agrees natives .generalPurpose real _).load,
      (resolve_movesInto_agrees natives .xmm real _).load]
    rfl

theorem quiet_resolveWithin (scratch : Register) (rounds : Nat) (pending : List RegisterMove) :
    ∀ request ∈ (resolveWithin scratch rounds pending).requests, request.Quiet := by
  induction rounds generalizing pending with
  | zero => exact fun request member => (List.not_mem_nil member).elim
  | succ rounds ih =>
    simp only [resolveWithin, after, List.mem_append]
    rintro request (member | member)
    · rcases round_cases scratch pending with
        ⟨before, ready, later, rfl, _, result⟩ | ⟨blocked, rest, rfl, _, result⟩ | ⟨rfl, result⟩
      · rw [result] at member
        exact Transfer.quiet_intoRegister ready.target ready.source request member
      · rw [result, List.mem_singleton] at member
        simp [member, Request.Quiet]
      · rw [result] at member
        exact (List.not_mem_nil member).elim
    · exact ih _ request member

/-- The stores of a schedule are in the outgoing area. -/
theorem writes_outgoing (natives : Natives) {allowed : Word → Prop} (moves : List Move)
    (machine : Machine) (area : ∀ move ∈ moves, ∀ offset, move.target = .stack offset →
      allowed (machine.outgoing offset)) :
    Request.Writes natives allowed machine (outgoing moves) := by
  induction moves generalizing machine with
  | nil => trivial
  | cons move rest ih =>
    rw [outgoing, List.flatMap_cons, Request.writes_append]
    cases target : move.target with
    | register register =>
      exact ⟨trivial, ih machine fun other listed => area other (List.mem_cons_of_mem _ listed)⟩
    | stack offset =>
      obtain ⟨registers, _⟩ := Transfer.effects_intoOutgoing natives machine offset move.source
      have stack := registers .rsp (by decide) (by decide)
      refine ⟨?_, ih _ fun other listed place goal => ?_⟩
      · have here := area move List.mem_cons_self offset target
        have scratch (value : Word) : (machine.set .r11 value).get .rsp = machine.get .rsp :=
          Machine.get_set_other machine value (by decide) (by decide) (by decide)
        cases move.source <;>
          simpa [Transfer.intoOutgoing, Request.Writes, Request.target?, Request.effect,
            Convention.scratch, scratch, Machine.outgoing] using here
      · rw [Machine.outgoing, stack]
        exact area other (List.mem_cons_of_mem _ listed) place goal

/-- A schedule writes no memory but the outgoing area. -/
theorem ofMoves_writes (natives : Natives) {allowed : Word → Prop} {moves : List Move}
    {machine : Machine} (area : ∀ move ∈ moves, ∀ offset, move.target = .stack offset →
      allowed (machine.outgoing offset)) :
    Request.Writes natives allowed machine (ofMoves moves).requests := by
  have quiet (bank : Bank) : ∀ request ∈
      (resolve (Convention.scratch bank) (movesInto bank moves)).requests, request.Quiet :=
    quiet_resolveWithin _ _ _
  simp only [ofMoves, after, andThen, Request.writes_append]
  refine ⟨writes_outgoing natives moves machine area, Request.writes_of_quiet _ _ _ ?_⟩
  intro request member
  split at member
  · rcases List.mem_append.mp member with member | member
    · exact quiet .xmm request member
    · exact quiet .generalPurpose request member
  · exact quiet .xmm request member

theorem plain_resolveWithin (scratch : Register) (rounds : Nat) (pending : List RegisterMove) :
    ∀ request ∈ (resolveWithin scratch rounds pending).requests, request.Plain := by
  induction rounds generalizing pending with
  | zero => exact fun request member => (List.not_mem_nil member).elim
  | succ rounds ih =>
    simp only [resolveWithin, after, List.mem_append]
    rintro request (member | member)
    · rcases round_cases scratch pending with
        ⟨before, ready, later, rfl, _, result⟩ | ⟨blocked, rest, rfl, _, result⟩ | ⟨rfl, result⟩
      · rw [result] at member
        exact Transfer.plain_intoRegister ready.target ready.source request member
      · rw [result, List.mem_singleton] at member
        simp [member, Request.Plain]
      · rw [result] at member
        exact (List.not_mem_nil member).elim
    · exact ih _ request member

/-- A schedule neither returns nor calls. -/
theorem plain_ofMoves (moves : List Move) :
    ∀ request ∈ (ofMoves moves).requests, request.Plain := by
  have plain (bank : Bank) : ∀ request ∈
      (resolve (Convention.scratch bank) (movesInto bank moves)).requests, request.Plain :=
    plain_resolveWithin _ _ _
  intro request member
  simp only [ofMoves, after, andThen, List.mem_append] at member
  rcases member with member | member
  · simp only [outgoing, List.mem_flatMap] at member
    obtain ⟨move, _, member⟩ := member
    split at member
    · exact (List.not_mem_nil member).elim
    · exact Transfer.plain_intoOutgoing _ _ request member
  · split at member
    · rcases List.mem_append.mp member with member | member
      · exact plain .xmm request member
      · exact plain .generalPurpose request member
    · exact plain .xmm request member

theorem real_redirect {move : RegisterMove} (real : move.Real) (old : Register)
    {scratch : Register} (scratchReal : scratch.InBank) : (move.redirect old scratch).Real := by
  refine ⟨(redirect_target old scratch move).symm ▸ real.target, fun register source => ?_⟩
  unfold RegisterMove.redirect at source
  split at source
  · obtain rfl := Location.register.inj source
    exact scratchReal
  · exact real.source register source

theorem granted_resolveWithin {bank : Bank} {rounds : Nat} {pending : List RegisterMove}
    (real : ∀ move ∈ pending, move.Real) :
    ∀ request ∈ (resolveWithin (Convention.scratch bank) rounds pending).requests,
      request.Granted := by
  induction rounds generalizing pending with
  | zero => exact fun request member => (List.not_mem_nil member).elim
  | succ rounds ih =>
    simp only [resolveWithin, after, List.mem_append]
    rcases round_cases (Convention.scratch bank) pending with
      ⟨before, ready, later, rfl, _, result⟩ | ⟨blocked, rest, rfl, _, result⟩ | ⟨rfl, result⟩
    · rw [result]
      have here := real ready (by simp)
      rintro request (member | member)
      · exact Transfer.granted_intoRegister here.target here.source request member
      · refine ih (fun move listed => real move ?_) request member
        exact ((List.sublist_cons_self ready later).append_left before).subset listed
    · rw [result]
      rintro request (member | member)
      · rw [List.mem_singleton] at member
        exact member ▸ Request.granted_move (scratch_inBank bank)
          (real blocked List.mem_cons_self).target
      · refine ih (fun move listed => ?_) request member
        obtain ⟨original, member, rfl⟩ := List.mem_map.mp listed
        exact real_redirect (real original member) blocked.target (scratch_inBank bank)
    · rw [result]
      rintro request (member | member)
      · exact (List.not_mem_nil member).elim
      · exact ih real request member

/-- Every request for moves between registers of the machine is granted, however many rounds
there are. -/
theorem granted_within {moves : List Move} (real : ∀ move ∈ moves, move.Real)
    (rounds : Bank → Nat) : ∀ request ∈ (within rounds moves).requests, request.Granted := by
  have granted (bank : Bank) : ∀ request ∈ (resolveWithin (Convention.scratch bank) (rounds bank)
      (pendingInto bank moves)).requests, request.Granted := by
    refine granted_resolveWithin fun move member => ?_
    obtain ⟨_, listed⟩ := mem_movesInto.mp (List.mem_of_mem_filter member)
    exact ⟨(real _ listed).target move.target rfl, fun register source =>
      (real _ listed).source register (by simp [source, Location.register?])⟩
  intro request member
  simp only [within, after, andThen, List.mem_append] at member
  rcases member with member | member
  · simp only [outgoing, List.mem_flatMap] at member
    obtain ⟨move, listed, member⟩ := member
    split at member
    · exact (List.not_mem_nil member).elim
    · refine Transfer.granted_intoOutgoing (fun register source => ?_) request member
      exact (real move listed).source register (by simp [source, Location.register?])
  · split at member
    · rcases List.mem_append.mp member with member | member
      · exact granted .xmm request member
      · exact granted .generalPurpose request member
    · exact granted .xmm request member

/-- Every request of a schedule of moves between registers of the machine is granted. -/
theorem granted_ofMoves {moves : List Move}
    (target : ∀ move ∈ moves, ∀ register, move.target = .register register → register.InBank)
    (source : ∀ move ∈ moves, ∀ register, move.source = .register register → register.InBank) :
    ∀ request ∈ (ofMoves moves).requests, request.Granted := by
  refine granted_within (fun move listed => ⟨fun register place => ?_, fun register place => ?_⟩)
    (provided moves)
  · cases goal : move.target with
    | register found =>
      simp only [goal, Place.register?, Option.mem_def, Option.some.injEq] at place
      exact place ▸ target move listed found goal
    | stack offset => simp [goal, Place.register?] at place
  · cases goal : move.source with
    | register found =>
      simp only [goal, Location.register?, Option.mem_def, Option.some.injEq] at place
      exact place ▸ source move listed found goal
    | slot _ | constant _ => simp [goal, Location.register?] at place

/-- Parallel moves behave as if all of them were made at once: the schedule settles, its
requests are granted, and what they are granted as puts into every target what its source held
at the beginning and changes nothing else but the scratch registers. -/
theorem ofMoves_simultaneous (natives : Natives) {moves : List Move} (parallel : Parallel moves) :
    (ofMoves moves).settled ∧ ∃ instructions,
      assemble (ofMoves moves).requests = ⟨instructions, none⟩ ∧
        ∀ machine, ReadsApart machine moves →
          (∀ move ∈ moves, (machine.after natives instructions).argument move.target =
            machine.value move.source) ∧
          Confined moves machine (machine.after natives instructions) := by
  obtain ⟨instructions, granted⟩ := assemble_of_granted <| granted_ofMoves
    (fun move listed register place => (parallel.target move listed register place).inBank)
    (fun move listed register place => (parallel.source move listed register place).inBank)
  have settled : (ofMoves moves).settled := settled_ofMoves fun move listed bank place =>
    (parallel.target move listed _ place).ne_scratch bank rfl
  refine ⟨settled, instructions, granted, fun machine apart => ?_⟩
  rw [after_of_assemble natives machine granted]
  exact ⟨ofMoves_delivers natives parallel apart, ofMoves_confined natives
    (fun move listed register target => (parallel.target move listed register target).inBank) machine⟩

/-- Two registers exchange their values while a slot goes to the outgoing area. -/
theorem ofMoves_simultaneous_exchange :
    let moves : List Move := [⟨.register .rdi, .register .rsi⟩, ⟨.register .rsi, .register .rdi⟩,
      ⟨.stack 0, .slot (-48)⟩]
    let machine : Machine := ⟨fun number => BitVec.ofNat 64 (1000 * number.val), fun _ => 0,
      fun _ => 0⟩
    Parallel moves ∧ ReadsApart machine moves ∧ ∃ instructions,
      assemble (ofMoves moves).requests = ⟨instructions, none⟩ ∧
        (machine.after (fun _ state => state) instructions).get .rdi = 6000 ∧
        (machine.after (fun _ state => state) instructions).get .rsi = 7000 := by
  intro moves machine
  have parallel : Parallel moves := by
    refine ⟨by decide, ?_, ?_, ?_, ?_⟩ <;> simp [moves] <;> decide
  have apart : ReadsApart machine moves := by
    intro writer writes reader reads offset slot target source
    simp only [moves, List.mem_cons, List.not_mem_nil, or_false] at writes reads
    rcases writes with rfl | rfl | rfl <;> cases target
    rcases reads with rfl | rfl | rfl <;> cases source
    exact ⟨by decide, by decide⟩
  obtain ⟨_, instructions, granted, effect⟩ :=
    ofMoves_simultaneous (fun _ state => state) parallel
  have delivered := (effect machine apart).1
  refine ⟨parallel, apart, instructions, granted, ?_, ?_⟩
  · exact delivered ⟨.register .rdi, .register .rsi⟩ (by simp [moves])
  · exact delivered ⟨.register .rsi, .register .rdi⟩ (by simp [moves])

end MoveSchedule

end NativeExpr
