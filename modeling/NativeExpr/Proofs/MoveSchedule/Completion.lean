import Mathlib.Data.Fintype.Pigeonhole
import Mathlib.Logic.Relation
import NativeExpr.Proofs.MoveSchedule.Simultaneous

/-!
# When the emission of moves comes to an end

Nothing counts the rounds in which moves are carried out: they go on until no move is left or a
request is refused, and `Completes` says that they come to that. What keeps them from it is a
bank whose moves become stuck. A cycle through the scratch register itself always gets stuck
(`Circular.leftAfter`), and moves that get stuck lead from the scratch register, as a target,
into a cycle (`trapped_of_stuck`); `completes_or_stalls` puts this together for all moves.
-/

namespace NativeExpr

open Relation (ReflTransGen TransGen)

/-- What follows a request that is refused makes no difference. -/
theorem assemble_append_of_fault {first : List Request}
    (fault : (assemble first).fault.isSome) (second : List Request) :
    assemble (first ++ second) = assemble first := by
  induction first with
  | nil => cases fault
  | cons request rest ih =>
    simp only [assemble, List.cons_append] at fault ⊢
    split
    · rfl
    · rename_i granted
      simp only [granted] at fault
      rw [ih fault]

/-- Requests that amount to nothing make no difference. -/
theorem assemble_append_of_nothing (first : List Request) {second : List Request}
    (nothing : assemble second = ⟨[], none⟩) : assemble (first ++ second) = assemble first := by
  induction first with
  | nil => exact nothing
  | cons request rest ih => simp only [assemble, List.cons_append, ih]

namespace MoveSchedule

/-! ## Chains of moves -/

section Chains

variable {scratch : Register} {pending : List RegisterMove} {rounds : Nat}

/-- Whether the scratch register is a target from which moves lead into a cycle. -/
structure Trapped (scratch : Register) (pending : List RegisterMove) : Prop where
  written : ∃ move ∈ pending, move.target = scratch
  cycle : ∃ register, ReflTransGen (Carries pending) scratch register ∧
    TransGen (Carries pending) register register

/-- Whether moves lead from the scratch register back to it. -/
def Circular (scratch : Register) (pending : List RegisterMove) : Prop :=
  TransGen (Carries pending) scratch scratch

/-- Moves of which each waits lead from every target into a cycle: of the registers that are
met on the way on, which are all targets, one is met again. -/
theorem cycle_of_waiting (waiting : ∀ move ∈ pending, ¬ move.isReady pending) {start : Register}
    (target : ∃ move ∈ pending, move.target = start) :
    ∃ register, ReflTransGen (Carries pending) start register ∧
      TransGen (Carries pending) register register := by
  obtain ⟨next, carries⟩ := exists_next_of_waiting waiting
  let walk (steps : Nat) := next^[steps] ⟨start, target⟩
  have step (steps : Nat) : Carries pending (walk steps) (walk (steps + 1)) := by
    simp only [walk, Function.iterate_succ_apply']
    exact carries _
  have reaches (first more : Nat) :
      ReflTransGen (Carries pending) (walk first) (walk (first + more)) := by
    induction more with
    | zero => exact .refl
    | succ more ih => exact ih.tail (step (first + more))
  obtain ⟨first, second, differ, same⟩ := Finite.exists_ne_map_eq_of_infinite walk
  wlog earlier : first < second generalizing first second
  · exact this second first differ.symm same.symm (by omega)
  obtain ⟨more, rfl⟩ := Nat.exists_eq_add_of_lt earlier
  refine ⟨walk first, Nat.zero_add first ▸ reaches 0 first, ?_⟩
  have closed := TransGen.tail' (reaches first more) (step (first + more))
  rwa [← same] at closed

/-- Rounds lead into no trap that was not there. -/
theorem trapped_of_leftAfter (trapped : Trapped scratch (leftAfter scratch rounds pending)) :
    Trapped scratch pending := by
  induction rounds generalizing pending with
  | zero => exact trapped
  | succ rounds ih =>
    have later := ih trapped
    rcases round_cases scratch pending with
      ⟨before, ready, rest, rfl, _, result⟩ | ⟨blocked, rest, rfl, waiting, result⟩ | ⟨rfl, result⟩
    · rw [result] at later
      have fewer : before ++ rest ⊆ before ++ ready :: rest :=
        ((List.sublist_cons_self ready rest).append_left before).subset
      have carries : Carries (before ++ rest) ≤ Carries (before ++ ready :: rest) :=
        fun _ _ member => fewer member
      obtain ⟨⟨move, member, target⟩, register, way, cycle⟩ := later
      exact ⟨⟨move, fewer member, target⟩, register, ReflTransGen.mono carries _ _ way,
        TransGen.mono carries _ _ cycle⟩
    · -- All moves wait, so that there is a cycle already.
      rw [result] at later
      obtain ⟨move, member, target⟩ := later.written
      obtain ⟨original, listed, rfl⟩ := List.mem_map.mp member
      have written : ∃ move ∈ blocked :: rest, move.target = scratch :=
        ⟨original, listed, (redirect_target ..).symm.trans target⟩
      exact ⟨written, cycle_of_waiting waiting written⟩
    · rwa [result] at later

/-- Moves become stuck only where the scratch register leads into a cycle. -/
theorem trapped_of_stuck (stuck : Stuck scratch (leftAfter scratch rounds pending)) :
    Trapped scratch pending := by
  obtain ⟨⟨first, rest, left, target⟩, waiting⟩ := stuck
  have written : ∃ move ∈ leftAfter scratch rounds pending, move.target = scratch :=
    ⟨first, left ▸ List.mem_cons_self, target⟩
  exact trapped_of_leftAfter ⟨written, cycle_of_waiting waiting written⟩

/-- Without the move that is ready, moves lead wherever they led, if it is a register that is
read. -/
theorem chain_of_ready {before later : List RegisterMove} {ready : RegisterMove}
    (isReady : ready.isReady (before ++ ready :: later)) {first last : Register}
    (chain : TransGen (Carries (before ++ ready :: later)) first last)
    (isRead : ∃ target, Carries (before ++ ready :: later) last target) :
    TransGen (Carries (before ++ later)) first last := by
  induction chain with
  | single carries => exact .single (carries_of_ready isReady carries isRead)
  | tail _ carries ih => exact (ih ⟨_, carries⟩).tail (carries_of_ready isReady carries isRead)

/-- When the copies of a register are read instead of it, moves lead from the scratch register
wherever they led. -/
theorem chain_of_redirect (old : Register) {last : Register}
    (chain : TransGen (Carries pending) scratch last) :
    TransGen (Carries (pending.map (RegisterMove.redirect old scratch))) scratch last := by
  induction chain with
  | @single last carries =>
    refine .single (carries_redirect_iff.mpr ?_)
    by_cases same : scratch = old
    · exact .inl ⟨rfl, same ▸ carries⟩
    · exact .inr ⟨same, carries⟩
  | @tail middle last _ carries ih =>
    by_cases same : middle = old
    · exact .single (carries_redirect_iff.mpr (.inl ⟨rfl, same ▸ carries⟩))
    · exact ih.tail (carries_redirect_iff.mpr (.inr ⟨same, carries⟩))

/-- A cycle through the scratch register outlasts any number of rounds. -/
theorem Circular.leftAfter (circular : Circular scratch pending) (rounds : Nat) :
    Circular scratch (leftAfter scratch rounds pending) := by
  induction rounds generalizing pending with
  | zero => exact circular
  | succ rounds ih =>
    have next : Circular scratch (round scratch pending).2 := by
      rcases round_cases scratch pending with
        ⟨before, ready, later, rfl, isReady, result⟩ | ⟨blocked, rest, rfl, _, result⟩ | ⟨_, result⟩
      · rw [result]
        obtain ⟨target, first, _⟩ := TransGen.head'_iff.mp circular
        exact chain_of_ready isReady circular ⟨target, first⟩
      · rw [result]
        exact chain_of_redirect blocked.target circular
      · obtain ⟨target, first, _⟩ := TransGen.head'_iff.mp circular
        simp_all [Carries]
    exact ih next

/-- Moves through the scratch register become stuck. -/
theorem Circular.stuck (circular : Circular scratch pending) :
    Stuck scratch (MoveSchedule.leftAfter scratch (2 * pending.length) pending) := by
  refine (leftAfter_eq_nil_or_stuck scratch (.inl (Nat.le_refl _))).resolve_left fun empty => ?_
  have left := circular.leftAfter (2 * pending.length)
  rw [empty] at left
  obtain ⟨target, first, _⟩ := TransGen.head'_iff.mp left
  exact List.not_mem_nil first

/-- A trap that is reached through targets of their own is a cycle through the scratch
register. -/
theorem Trapped.circular (trapped : Trapped scratch pending)
    (distinct : (pending.map RegisterMove.target).Nodup) : Circular scratch pending := by
  obtain ⟨_, register, way, cycle⟩ := trapped
  induction way with
  | refl => exact cycle
  | @tail middle last _ carries ih =>
    obtain ⟨previous, back, closing⟩ := TransGen.tail'_iff.mp cycle
    obtain rfl : previous = middle := source_unique distinct closing carries
    exact ih (TransGen.head' carries back)

end Chains

/-! ## All moves -/

variable {moves : List Move} {rounds more : Bank → Nat} {assembly : Assembly}

/-- Whether the emission of moves comes to an end with that result: after some rounds no move is
left, or a request is refused. -/
def Completes (moves : List Move) (assembly : Assembly) : Prop :=
  ∃ rounds, assemble (within rounds moves).requests = assembly ∧
    (assembly.fault.isSome ∨ (within rounds moves).settled)

/-- Whether no request is refused, however many rounds there are, and the moves into a bank
become stuck. -/
structure Stalls (moves : List Move) : Prop where
  granted : ∀ rounds, (assemble (within rounds moves).requests).fault = none
  stuck : ∃ bank rounds, Stuck (Convention.scratch bank)
    (leftAfter (Convention.scratch bank) rounds (pendingInto bank moves))

/-- After the rounds that are provided for no move is left or the moves are stuck. -/
theorem leftAfter_provided (bank : Bank) (moves : List Move) :
    leftAfter (Convention.scratch bank) (provided moves bank) (pendingInto bank moves) = [] ∨
      Stuck (Convention.scratch bank)
        (leftAfter (Convention.scratch bank) (provided moves bank) (pendingInto bank moves)) :=
  leftAfter_eq_nil_or_stuck _ (.inl (Nat.le_refl _))

theorem requests_resolveWithin_nil (scratch : Register) (rounds : Nat) :
    (resolveWithin scratch rounds []).requests = [] := by
  induction rounds with
  | zero => rfl
  | succ rounds ih => exact ih

/-- Once no move is left more rounds ask for nothing. -/
theorem requests_resolveWithin_of_settled {scratch : Register} {pending : List RegisterMove}
    {rounds : Nat} (settled : leftAfter scratch rounds pending = []) (more : Nat) :
    (resolveWithin scratch (rounds + more) pending).requests =
      (resolveWithin scratch rounds pending).requests := by
  rw [requests_resolveWithin_add, settled, requests_resolveWithin_nil, List.append_nil]

/-- What moves that are stuck ask for amounts to nothing. -/
theorem Stuck.assemble {scratch : Register} {pending : List RegisterMove}
    (stuck : Stuck scratch pending) (rounds : Nat) :
    assemble (resolveWithin scratch rounds pending).requests = ⟨[], none⟩ := by
  induction rounds with
  | zero => rfl
  | succ rounds ih =>
    simp only [resolveWithin, after, stuck.round, List.singleton_append, NativeExpr.assemble,
      Request.instructions, Request.moveInstructions, if_true, pure, Except.pure, ih,
      List.nil_append]

/-- More rounds add to the requests, and nothing once no move is left. -/
theorem requests_within_of_le (moves : List Move) (fewer : rounds ≤ more) :
    ∃ further, (within more moves).requests = (within rounds moves).requests ++ further ∧
      ((within rounds moves).settled → further = []) := by
  obtain ⟨xmm, xmmMore⟩ := Nat.exists_eq_add_of_le (fewer .xmm)
  obtain ⟨gp, gpMore⟩ := Nat.exists_eq_add_of_le (fewer .generalPurpose)
  by_cases settled : leftAfter (Convention.scratch .xmm) (rounds .xmm) (pendingInto .xmm moves) = []
  · have still : leftAfter (Convention.scratch .xmm) (more .xmm) (pendingInto .xmm moves) = [] := by
      rw [xmmMore, leftAfter_add, settled, leftAfter_nil]
    rw [requests_within_of_settled settled, requests_within_of_settled still, xmmMore, gpMore,
      requests_resolveWithin_of_settled settled, requests_resolveWithin_add, ← List.append_assoc]
    refine ⟨_, rfl, fun all => ?_⟩
    rw [settled_within_iff.mp all .generalPurpose, requests_resolveWithin_nil]
  · rw [requests_within_of_unsettled settled]
    have unfinished : ¬ (within rounds moves).settled :=
      fun all => settled (settled_within_iff.mp all .xmm)
    by_cases later : leftAfter (Convention.scratch .xmm) (more .xmm) (pendingInto .xmm moves) = []
    · rw [requests_within_of_settled later, xmmMore, requests_resolveWithin_add,
        ← List.append_assoc, List.append_assoc (outgoing moves ++ _)]
      exact ⟨_, rfl, fun all => absurd all unfinished⟩
    · rw [requests_within_of_unsettled later, xmmMore, requests_resolveWithin_add,
        ← List.append_assoc]
      exact ⟨_, rfl, fun all => absurd all unfinished⟩

/-- The rounds that are provided for are enough: further rounds add nothing, settled or not. -/
theorem assemble_within_of_provided_le (enough : provided moves ≤ more) :
    assemble (within more moves).requests = assemble (ofMoves moves).requests := by
  obtain ⟨xmm, xmmMore⟩ := Nat.exists_eq_add_of_le (enough .xmm)
  obtain ⟨gp, gpMore⟩ := Nat.exists_eq_add_of_le (enough .generalPurpose)
  rw [ofMoves_eq_within]
  rcases leftAfter_provided .xmm moves with settled | stuck
  · have still : leftAfter (Convention.scratch .xmm) (more .xmm) (pendingInto .xmm moves) = [] := by
      rw [xmmMore, leftAfter_add, settled, leftAfter_nil]
    rw [requests_within_of_settled settled, requests_within_of_settled still, xmmMore, gpMore,
      requests_resolveWithin_of_settled settled, requests_resolveWithin_add, ← List.append_assoc]
    refine assemble_append_of_nothing _ ?_
    rcases leftAfter_provided .generalPurpose moves with empty | stuck
    · rw [empty, requests_resolveWithin_nil]
      rfl
    · exact stuck.assemble gp
  · have still : leftAfter (Convention.scratch .xmm) (more .xmm) (pendingInto .xmm moves) ≠ [] := by
      rw [xmmMore, leftAfter_add, stuck.stays]
      exact stuck.ne_nil
    rw [requests_within_of_unsettled stuck.ne_nil, requests_within_of_unsettled still, xmmMore,
      requests_resolveWithin_add, ← List.append_assoc]
    exact assemble_append_of_nothing _ (stuck.assemble xmm)

/-- What moves come to is the schedule with the rounds that are provided for. -/
theorem Completes.eq (completes : Completes moves assembly) :
    assembly = assemble (ofMoves moves).requests := by
  obtain ⟨rounds, rfl, ended⟩ := completes
  rw [← assemble_within_of_provided_le (le_sup_right : provided moves ≤ rounds ⊔ provided moves)]
  obtain ⟨further, requests, nothing⟩ :=
    requests_within_of_le moves (le_sup_left : rounds ≤ rounds ⊔ provided moves)
  rw [requests]
  rcases ended with fault | settled
  · exact (assemble_append_of_fault fault further).symm
  · rw [nothing settled, List.append_nil]

/-- The emission of moves that settle comes to an end with their schedule. -/
theorem completes_iff_of_settled (settled : (ofMoves moves).settled) :
    Completes moves assembly ↔ assembly = assemble (ofMoves moves).requests :=
  ⟨Completes.eq, fun same => same ▸ ⟨provided moves, rfl, .inr settled⟩⟩

/-- Moves are carried out or keep waiting, but not both. -/
theorem completes_iff_not_stalls :
    (∃ assembly, Completes moves assembly) ↔ ¬ Stalls moves := by
  constructor
  · rintro ⟨_, rounds, rfl, fault | settled⟩ ⟨granted, bank, others, stuck⟩
    · rw [granted] at fault
      cases fault
    · have empty := settled_within_iff.mp settled bank
      have left := stuck.stays (rounds bank)
      rw [← leftAfter_add, Nat.add_comm, leftAfter_add, empty, leftAfter_nil] at left
      exact stuck.ne_nil left.symm
  · intro goesOn
    by_contra never
    refine goesOn ⟨fun rounds => ?_, ?_⟩
    · by_contra fault
      exact never ⟨_, rounds, rfl, .inl (Option.isSome_iff_ne_none.mpr fault)⟩
    · have unsettled : ¬ (within (provided moves) moves).settled :=
        fun settled => never ⟨_, provided moves, rfl, .inr settled⟩
      rw [settled_within_iff, not_forall] at unsettled
      obtain ⟨bank, left⟩ := unsettled
      exact ⟨bank, provided moves bank, (leftAfter_provided bank moves).resolve_left left⟩

/-- Moves between registers of the machine stall when they lead from a scratch register back to
it. -/
theorem stalls_of_circular (real : ∀ move ∈ moves, move.Real) {bank : Bank}
    (circular : Circular (Convention.scratch bank) (pendingInto bank moves)) :
    Stalls moves where
  granted rounds := by
    obtain ⟨instructions, granted⟩ := assemble_of_granted (granted_within real rounds)
    rw [granted]
  stuck := ⟨bank, _, circular.stuck⟩

/-- The emission of moves comes to an end exactly if they do not stall. They stall only if a
scratch register is the target of a move and leads into a cycle, which leads back to it if the
targets are different; and moves between registers of the machine that lead from a scratch
register back to it do stall. -/
theorem completes_or_stalls (moves : List Move) :
    ((∃ assembly, Completes moves assembly) ↔ ¬ Stalls moves) ∧
      (Stalls moves → ∃ bank, Trapped (Convention.scratch bank) (pendingInto bank moves) ∧
        (((pendingInto bank moves).map RegisterMove.target).Nodup →
          Circular (Convention.scratch bank) (pendingInto bank moves))) ∧
      ((∀ move ∈ moves, move.Real) →
        (∃ bank, Circular (Convention.scratch bank) (pendingInto bank moves)) → Stalls moves) := by
  refine ⟨completes_iff_not_stalls, ?_, ?_⟩
  · rintro ⟨_, bank, rounds, stuck⟩
    exact ⟨bank, trapped_of_stuck stuck, (trapped_of_stuck stuck).circular⟩
  · rintro real ⟨bank, circular⟩
    exact stalls_of_circular real circular

/-- A register that exchanges its value with the scratch register leads back to it. -/
theorem circular_exchange : Circular (Convention.scratch .generalPurpose)
    (pendingInto .generalPurpose
      [⟨.register .r11, .register .rax⟩, ⟨.register .rax, .register .r11⟩]) :=
  TransGen.head (b := .rax) (by decide) (.single (by decide))

/-- The emission of an exchange with the scratch register does not come to an end. -/
theorem not_completes_exchange :
    ¬ ∃ assembly,
      Completes [⟨.register .r11, .register .rax⟩, ⟨.register .rax, .register .r11⟩] assembly := by
  rw [completes_iff_not_stalls, not_not]
  exact stalls_of_circular (by decide) circular_exchange

/-- An exchange with the scratch register stalls in a trap. -/
theorem completes_or_stalls_exchange :
    let moves : List Move := [⟨.register .r11, .register .rax⟩, ⟨.register .rax, .register .r11⟩]
    (∀ move ∈ moves, move.Real) ∧ Stalls moves ∧
      ∃ bank, Trapped (Convention.scratch bank) (pendingInto bank moves) := by
  intro moves
  have real : ∀ move ∈ moves, move.Real := by decide
  obtain ⟨_, trapped, stalls⟩ := completes_or_stalls moves
  have stalling := stalls real ⟨.generalPurpose, circular_exchange⟩
  obtain ⟨bank, trap, _⟩ := trapped stalling
  exact ⟨real, stalling, bank, trap⟩

end MoveSchedule

end NativeExpr
