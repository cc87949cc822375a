import Mathlib.Data.List.Nodup
import Mathlib.Data.List.TakeWhile
import Mathlib.Data.Set.Finite.List
import NativeExpr.MoveSchedule

/-!
# Rounds of resolution

`round_cases` says what one round does. It takes a move away or makes one ready, unless the
moves are `Stuck`: all of them wait, and the first is into the scratch register, which would be
copied into itself. So two rounds for each move leave no move, or moves that are stuck
(`leftAfter_eq_nil_or_stuck`).
-/

namespace NativeExpr.MoveSchedule

variable {scratch : Register} {pending : List RegisterMove} {rounds : Nat}

/-- What one round does: it carries out a move that is ready, or it copies the target of the
first move when none is ready. -/
theorem round_cases (scratch : Register) (pending : List RegisterMove) :
    (∃ before ready later, pending = before ++ ready :: later ∧ ready.isReady pending ∧
      round scratch pending = (ready.requests, before ++ later)) ∨
    (∃ blocked rest, pending = blocked :: rest ∧ (∀ move ∈ pending, ¬ move.isReady pending) ∧
      round scratch pending = ([.move scratch blocked.target],
        pending.map (RegisterMove.redirect blocked.target scratch))) ∨
    (pending = [] ∧ round scratch pending = ([], [])) := by
  have split := List.takeWhile_append_dropWhile (p := fun move => !move.isReady pending)
    (l := pending)
  cases found : pending.dropWhile fun move => !move.isReady pending with
  | cons ready later =>
    refine .inl ⟨pending.takeWhile fun move => !move.isReady pending, ready, later, ?_, ?_, ?_⟩
    · rw [← found, split]
    · have head := List.head?_dropWhile_not (fun move => !move.isReady pending) pending
      rw [found] at head
      simpa using head
    · simp only [round, found]
  | nil =>
    have waiting : ∀ move ∈ pending, ¬ move.isReady pending := by
      intro move member
      have waits := List.dropWhile_eq_nil_iff.mp found move member
      simpa using waits
    cases pending with
    | nil => exact .inr (.inr ⟨rfl, rfl⟩)
    | cons blocked rest =>
      refine .inr (.inl ⟨blocked, rest, rfl, waiting, ?_⟩)
      simp only [round, found]

/-! ## Reading a value elsewhere -/

theorem redirect_target (old new : Register) (move : RegisterMove) :
    (move.redirect old new).target = move.target := by
  unfold RegisterMove.redirect
  split <;> rfl

theorem map_redirect_target (old new : Register) (pending : List RegisterMove) :
    (pending.map (RegisterMove.redirect old new)).map RegisterMove.target =
      pending.map RegisterMove.target := by
  simp [redirect_target]

/-- Reading a value from the register that it is in changes nothing. -/
theorem redirect_self (register : Register) : RegisterMove.redirect register register = id := by
  funext move
  unfold RegisterMove.redirect
  split
  · rename_i reads
    exact congrArg (RegisterMove.mk move.target) reads.symm
  · rfl

/-- After a copy of its target the first move is ready. -/
theorem ready_of_redirect {blocked : RegisterMove} {rest : List RegisterMove}
    (notScratch : blocked.target ≠ scratch) :
    ((blocked.redirect blocked.target scratch)).isReady
      ((blocked :: rest).map (RegisterMove.redirect blocked.target scratch)) := by
  simp only [RegisterMove.isReady, List.all_eq_true, List.mem_map, redirect_target, bne_iff_ne,
    forall_exists_index, and_imp, forall_apply_eq_imp_iff₂]
  intro other _
  unfold RegisterMove.redirect
  split
  · simpa using notScratch.symm
  · assumption

/-- A target that waits is read. -/
theorem reader_of_waiting (waiting : ∀ move ∈ pending, ¬ move.isReady pending)
    {move : RegisterMove} (member : move ∈ pending) :
    ∃ reader ∈ pending, reader.source = .register move.target := by
  have blocked := waiting move member
  simp only [RegisterMove.isReady, List.all_eq_true, not_forall] at blocked
  obtain ⟨reader, listed, reads⟩ := blocked
  exact ⟨reader, listed, by simpa using reads⟩

/-! ## Which values go where -/

/-- Whether a move brings the value of one register into another. -/
def Carries (pending : List RegisterMove) (source target : Register) : Prop :=
  ⟨target, .register source⟩ ∈ pending

instance (pending : List RegisterMove) (source target : Register) :
    Decidable (Carries pending source target) :=
  inferInstanceAs (Decidable (_ ∈ _))

/-- Where targets are different only one value goes into each. -/
theorem source_unique (distinct : (pending.map RegisterMove.target).Nodup)
    {first second target : Register} (carries : Carries pending first target)
    (other : Carries pending second target) : first = second := by
  have same := List.inj_on_of_nodup_map distinct carries other rfl
  simpa using same

/-- The registers into which moves bring values. -/
abbrev Targets (pending : List RegisterMove) : Type :=
  {register // ∃ move ∈ pending, move.target = register}

instance (pending : List RegisterMove) : Finite (Targets pending) :=
  (pending.map RegisterMove.target).finite_toSet.subset fun _ found => List.mem_map.mpr found

/-- When every move waits, the value of each target goes on into a target. -/
theorem exists_next_of_waiting (waiting : ∀ move ∈ pending, ¬ move.isReady pending) :
    ∃ next : Targets pending → Targets pending,
      ∀ target : Targets pending, Carries pending target (next target) := by
  have onward (target : Targets pending) : ∃ next : Targets pending, Carries pending target next := by
    obtain ⟨_, move, member, rfl⟩ := target
    obtain ⟨reader, listed, reads⟩ := reader_of_waiting waiting member
    exact ⟨⟨reader.target, reader, listed, rfl⟩, show _ ∈ _ from reads ▸ listed⟩
  choose next carries using onward
  exact ⟨next, carries⟩

/-- Without a move that is ready, values still go into registers that are read. -/
theorem carries_of_ready {before later : List RegisterMove} {ready : RegisterMove}
    (isReady : ready.isReady (before ++ ready :: later)) {source target : Register}
    (carries : Carries (before ++ ready :: later) source target)
    (isRead : ∃ next, Carries (before ++ ready :: later) target next) :
    Carries (before ++ later) source target := by
  obtain ⟨next, reads⟩ := isRead
  have other : (⟨target, .register source⟩ : RegisterMove) ≠ ready := by
    rintro rfl
    simpa using List.all_eq_true.mp isReady _ reads
  simp only [Carries, List.mem_append, List.mem_cons] at carries ⊢
  exact carries.imp_right fun found => found.resolve_left other

/-- When a register is read elsewhere, its value goes where it went from there. -/
theorem carries_redirect_iff {old new source target : Register} :
    Carries (pending.map (RegisterMove.redirect old new)) source target ↔
      source = new ∧ Carries pending old target ∨ source ≠ old ∧ Carries pending source target := by
  constructor
  · intro carries
    obtain ⟨⟨place, origin⟩, member, same⟩ := List.mem_map.mp carries
    unfold RegisterMove.redirect at same
    split at same
    · rename_i reads
      obtain rfl : origin = .register old := reads
      obtain ⟨rfl, rfl⟩ : place = target ∧ new = source := by simpa using same
      exact .inl ⟨rfl, member⟩
    · rename_i other
      obtain ⟨rfl, rfl⟩ : place = target ∧ origin = .register source := by simpa using same
      exact .inr ⟨fun reads => other (congrArg Location.register reads), member⟩
  · rintro (⟨rfl, carries⟩ | ⟨other, carries⟩)
    · exact List.mem_map.mpr ⟨_, carries, by simp [RegisterMove.redirect]⟩
    · exact List.mem_map.mpr ⟨_, carries, by simp [RegisterMove.redirect, other]⟩

/-! ## What is left after some rounds -/

/-- The moves that are left after some rounds. -/
def leftAfter (scratch : Register) : Nat → List RegisterMove → List RegisterMove
  | 0, pending => pending
  | rounds + 1, pending => leftAfter scratch rounds (round scratch pending).2

/-- Whether every move waits and the first is into the scratch register. -/
structure Stuck (scratch : Register) (pending : List RegisterMove) : Prop where
  first : ∃ first rest, pending = first :: rest ∧ first.target = scratch
  waiting : ∀ move ∈ pending, ¬ move.isReady pending

/-- Rounds go on from where earlier ones stopped. -/
theorem leftAfter_add (scratch : Register) (rounds more : Nat) (pending : List RegisterMove) :
    leftAfter scratch (rounds + more) pending =
      leftAfter scratch more (leftAfter scratch rounds pending) := by
  induction rounds generalizing pending with
  | zero => rw [Nat.zero_add, leftAfter]
  | succ rounds ih => rw [Nat.add_right_comm, leftAfter, ih, leftAfter]

theorem requests_resolveWithin_add (scratch : Register) (rounds more : Nat)
    (pending : List RegisterMove) :
    (resolveWithin scratch (rounds + more) pending).requests =
      (resolveWithin scratch rounds pending).requests ++
        (resolveWithin scratch more (leftAfter scratch rounds pending)).requests := by
  induction rounds generalizing pending with
  | zero => simp [resolveWithin, leftAfter]
  | succ rounds ih =>
    simp only [Nat.add_right_comm rounds 1 more, resolveWithin, after, ih, leftAfter,
      List.append_assoc]

theorem settled_resolveWithin_iff :
    (resolveWithin scratch rounds pending).settled ↔ leftAfter scratch rounds pending = [] := by
  induction rounds generalizing pending with
  | zero => simp [resolveWithin, leftAfter]
  | succ rounds ih => simp only [resolveWithin, after, leftAfter, ih]

theorem leftAfter_nil (scratch : Register) (rounds : Nat) : leftAfter scratch rounds [] = [] := by
  induction rounds with
  | zero => rfl
  | succ rounds ih => exact ih

/-- Rounds bring in no new target. -/
theorem exists_target_of_leftAfter {move : RegisterMove}
    (member : move ∈ leftAfter scratch rounds pending) :
    ∃ original ∈ pending, original.target = move.target := by
  induction rounds generalizing pending with
  | zero => exact ⟨move, member, rfl⟩
  | succ rounds ih =>
    obtain ⟨kept, listed, target⟩ := ih member
    rcases round_cases scratch pending with
      ⟨before, ready, later, rfl, _, result⟩ | ⟨blocked, rest, rfl, _, result⟩ | ⟨rfl, result⟩
    · rw [result] at listed
      exact ⟨kept, ((List.sublist_cons_self ready later).append_left before).subset listed, target⟩
    · rw [result] at listed
      obtain ⟨original, member, rfl⟩ := List.mem_map.mp listed
      exact ⟨original, member, (redirect_target ..).symm.trans target⟩
    · rw [result] at listed
      exact (List.not_mem_nil listed).elim

theorem Stuck.ne_nil (stuck : Stuck scratch pending) : pending ≠ [] := by
  obtain ⟨first, rest, rfl, _⟩ := stuck.first
  exact List.cons_ne_nil first rest

/-- A round of moves that are stuck copies the scratch register into itself. -/
theorem Stuck.round (stuck : Stuck scratch pending) :
    round scratch pending = ([.move scratch scratch], pending) := by
  obtain ⟨⟨first, rest, rfl, target⟩, waiting⟩ := stuck
  rcases round_cases scratch (first :: rest) with
    ⟨before, ready, later, split, isReady, _⟩ | ⟨blocked, others, split, _, result⟩ | ⟨empty, _⟩
  · exact absurd isReady (waiting ready (split ▸ by simp))
  · obtain ⟨rfl, rfl⟩ := List.cons.inj split
    rw [result, target, redirect_self, List.map_id]
  · cases empty

/-- Rounds leave moves that are stuck as they are. -/
theorem Stuck.stays (stuck : Stuck scratch pending) (rounds : Nat) :
    leftAfter scratch rounds pending = pending := by
  induction rounds with
  | zero => rfl
  | succ rounds ih => rw [leftAfter, stuck.round, ih]

/-- Two rounds for each move, and one less when a move is ready, leave no move or moves that are
stuck. -/
theorem leftAfter_eq_nil_or_stuck (scratch : Register)
    (enough : 2 * pending.length ≤ rounds ∨
      2 * pending.length ≤ rounds + 1 ∧ ∃ move ∈ pending, move.isReady pending) :
    leftAfter scratch rounds pending = [] ∨ Stuck scratch (leftAfter scratch rounds pending) := by
  induction rounds generalizing pending with
  | zero =>
    refine .inl (List.eq_nil_of_length_eq_zero (l := pending) ?_)
    omega
  | succ rounds ih =>
    rcases round_cases scratch pending with
      ⟨before, ready, later, rfl, _, result⟩ | ⟨blocked, rest, rfl, waiting, result⟩ |
        ⟨rfl, result⟩
    · rw [leftAfter, result]
      refine ih (.inl ?_)
      simp only [List.length_append, List.length_cons] at enough ⊢
      omega
    · by_cases intoScratch : blocked.target = scratch
      · have stuck : Stuck scratch (blocked :: rest) := ⟨⟨blocked, rest, rfl, intoScratch⟩, waiting⟩
        exact .inr ((stuck.stays (rounds + 1)).symm ▸ stuck)
      · have full : 2 * (blocked :: rest).length ≤ rounds + 1 := by
          rcases enough with full | ⟨_, move, member, ready⟩
          · exact full
          · exact absurd ready (waiting move member)
        rw [leftAfter, result]
        exact ih (.inr ⟨by simpa using full, _, List.mem_map.mpr ⟨blocked, List.mem_cons_self, rfl⟩,
          ready_of_redirect intoScratch⟩)
    · exact .inl (leftAfter_nil scratch (rounds + 1))

/-! ## Schedules with any number of rounds -/

/-- The moves into a bank that have to be carried out. -/
def pendingInto (bank : Bank) (moves : List Move) : List RegisterMove :=
  (movesInto bank moves).filter fun move => !move.isIdle

/-- The schedule of a list of moves with a number of rounds for each bank. -/
def within (rounds : Bank → Nat) (moves : List Move) : MoveSchedule :=
  ((resolveWithin (Convention.scratch .xmm) (rounds .xmm) (pendingInto .xmm moves)).andThen
    (resolveWithin (Convention.scratch .generalPurpose) (rounds .generalPurpose)
      (pendingInto .generalPurpose moves))).after (outgoing moves)

/-- As many rounds as a schedule provides for. -/
def provided (moves : List Move) (bank : Bank) : Nat := 2 * (pendingInto bank moves).length

theorem ofMoves_eq_within (moves : List Move) : ofMoves moves = within (provided moves) moves := rfl

section Within

variable {moves : List Move} {rounds : Bank → Nat}

theorem settled_within_iff : (within rounds moves).settled ↔ ∀ bank,
    leftAfter (Convention.scratch bank) (rounds bank) (pendingInto bank moves) = [] := by
  simp only [← settled_resolveWithin_iff]
  constructor
  · intro settled bank
    simp only [within, after, andThen] at settled
    split at settled
    · rename_i xmm
      cases bank
      · exact settled
      · exact xmm
    · contradiction
  · intro settled
    simp only [within, after, andThen, settled .xmm, if_true]
    exact settled .generalPurpose

theorem requests_within_of_settled
    (settled : leftAfter (Convention.scratch .xmm) (rounds .xmm) (pendingInto .xmm moves) = []) :
    (within rounds moves).requests = outgoing moves ++
      (resolveWithin (Convention.scratch .xmm) (rounds .xmm) (pendingInto .xmm moves)).requests ++
      (resolveWithin (Convention.scratch .generalPurpose) (rounds .generalPurpose)
        (pendingInto .generalPurpose moves)).requests := by
  simp only [within, after, andThen, settled_resolveWithin_iff.mpr settled, if_true,
    List.append_assoc]

theorem requests_within_of_unsettled
    (unsettled : leftAfter (Convention.scratch .xmm) (rounds .xmm) (pendingInto .xmm moves) ≠ []) :
    (within rounds moves).requests = outgoing moves ++
      (resolveWithin (Convention.scratch .xmm) (rounds .xmm) (pendingInto .xmm moves)).requests := by
  simp only [within, after, andThen, settled_resolveWithin_iff.not.mpr unsettled,
    Bool.false_eq_true, if_false]

end Within

end NativeExpr.MoveSchedule
