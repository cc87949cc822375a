import Mathlib.Data.Set.Card
import Mathlib.Dynamics.PeriodicPts.Lemmas
import NativeExpr.Proofs.MoveSchedule.Rounds

/-!
# Cycles of moves

The cycles in which values go around among registers. A move that is ready is on no cycle.
When every move waits, and targets are different, each target is on exactly one cycle, and
copying a target into the scratch register takes that cycle away and leaves the others.
-/

namespace NativeExpr.MoveSchedule

/-! ## Cycles of a relation -/

section Relation

variable {α : Type} {along : α → α → Prop} {cycle : Cycle α} {start : α}

/-- The cycles of at least two different elements of which each is related to the next. -/
def cyclesAlong (along : α → α → Prop) : Set (Cycle α) :=
  {cycle | cycle.Nodup ∧ 2 ≤ cycle.length ∧ cycle.Chain along}

theorem exists_mem (long : 2 ≤ cycle.length) : ∃ element, element ∈ cycle := by
  induction cycle with
  | nil => simp at long
  | cons start rest => exact ⟨start, Cycle.mem_coe_iff.mpr List.mem_cons_self⟩

/-- A cycle can be written down from any of its elements on. -/
theorem exists_eq_cons (member : start ∈ cycle) : ∃ rest : List α, cycle = ↑(start :: rest) := by
  induction cycle using Quotient.inductionOn' with
  | h elements =>
    obtain ⟨before, after, rfl⟩ := List.append_of_mem (Cycle.mem_coe_iff.mp member)
    exact ⟨after ++ before, Cycle.coe_eq_coe.mpr List.isRotated_append⟩

/-- Each element of a cycle has one before it and one behind it. -/
theorem exists_neighbours (chain : cycle.Chain along) (member : start ∈ cycle) :
    (∃ previous ∈ cycle, along previous start) ∧ ∃ next ∈ cycle, along start next := by
  obtain ⟨rest, rfl⟩ := exists_eq_cons member
  rw [Cycle.chain_coe_cons] at chain
  constructor
  · cases rest using List.reverseRecOn with
    | nil => exact ⟨start, member, by simpa using chain⟩
    | append_singleton rest last =>
      rw [List.append_assoc, ← List.cons_append, List.isChain_append] at chain
      exact ⟨last, by simp, by simpa using chain.2.1⟩
  · cases rest with
    | nil => exact ⟨start, member, by simpa using chain⟩
    | cons next rest => exact ⟨next, by simp, by simpa using (List.isChain_cons_cons.mp chain).1⟩

/-- What is handed on along a cycle holds of all its elements. -/
theorem forall_mem_of_chain {holds : α → Prop} (chain : cycle.Chain along)
    (onward : ∀ first second, along first second → holds first → holds second)
    (member : start ∈ cycle) (here : holds start) : ∀ element ∈ cycle, holds element := by
  obtain ⟨rest, rfl⟩ := exists_eq_cons member
  rw [Cycle.chain_coe_cons] at chain
  intro element listed
  refine chain.induction holds _ (fun first second => onward first second) (fun _ => here) element ?_
  rw [← List.cons_append]
  exact List.mem_append_left _ (Cycle.mem_coe_iff.mp listed)

/-- It is enough to relate the elements of a cycle. -/
theorem chain_imp_of_mem {other : α → α → Prop}
    (related : ∀ first ∈ cycle, ∀ second ∈ cycle, along first second → other first second)
    (chain : cycle.Chain along) : cycle.Chain other := by
  induction cycle with
  | nil => trivial
  | cons start rest =>
    rw [Cycle.chain_coe_cons] at chain ⊢
    have listed {element : α} (member : element ∈ start :: (rest ++ [start])) :
        element ∈ (↑(start :: rest) : Cycle α) := by
      simp only [List.mem_cons, List.mem_append, List.not_mem_nil, or_false] at member
      rw [Cycle.mem_coe_iff, List.mem_cons]
      exact member.elim .inl fun found => found.symm
    exact chain.imp_of_mem_imp fun first second firstListed secondListed =>
      related first (listed firstListed) second (listed secondListed)

/-- Where each element has one successor, chains that end where they first meet an element are
the same. -/
theorem eq_of_isChain (unique : ∀ first second third, along first second → along first third →
      second = third) {start last : α} {before after : List α}
    (chain : List.IsChain along (start :: (before ++ [last])))
    (other : List.IsChain along (start :: (after ++ [last])))
    (fresh : last ∉ before) (otherFresh : last ∉ after) : before = after := by
  induction before generalizing start after with
  | nil =>
    cases after with
    | nil => rfl
    | cons next after =>
      obtain rfl := unique _ _ _ (List.isChain_cons_cons.mp chain).1
        (List.isChain_cons_cons.mp other).1
      exact absurd List.mem_cons_self otherFresh
  | cons next before ih =>
    cases after with
    | nil =>
      obtain rfl := unique _ _ _ (List.isChain_cons_cons.mp chain).1
        (List.isChain_cons_cons.mp other).1
      exact absurd List.mem_cons_self fresh
    | cons second after =>
      obtain ⟨step, chain⟩ := List.isChain_cons_cons.mp chain
      obtain ⟨otherStep, other⟩ := List.isChain_cons_cons.mp other
      obtain rfl := unique _ _ _ step otherStep
      rw [ih chain other (List.not_mem_of_not_mem_cons fresh)
        (List.not_mem_of_not_mem_cons otherFresh)]

/-- Where each element has one predecessor, it is on one cycle at most. -/
theorem eq_of_mem_cyclesAlong (unique : ∀ first second third, along first third →
      along second third → first = second) {first second : Cycle α}
    (along_first : first ∈ cyclesAlong along) (along_second : second ∈ cyclesAlong along)
    (member : start ∈ first) (otherMember : start ∈ second) : first = second := by
  obtain ⟨before, rfl⟩ := exists_eq_cons member
  obtain ⟨after, rfl⟩ := exists_eq_cons otherMember
  obtain ⟨nodup, _, chain⟩ := along_first
  obtain ⟨otherNodup, _, other⟩ := along_second
  rw [Cycle.nodup_coe_iff, List.nodup_cons] at nodup otherNodup
  rw [Cycle.chain_coe_cons] at chain other
  have backwards {elements : List α} (chain : List.IsChain along (start :: (elements ++ [start]))) :
      List.IsChain (fun next previous => along previous next)
        (start :: (elements.reverse ++ [start])) := by
    simpa using List.isChain_reverse.mpr chain
  have same : before.reverse = after.reverse :=
    eq_of_isChain (fun third first second => unique first second third) (backwards chain)
      (backwards other) (by simpa using nodup.1) (by simpa using otherNodup.1)
  rw [List.reverse_injective same]

/-- Neighbours on a cycle of different elements are different. -/
theorem chain_ne (nodup : cycle.Nodup) (long : 2 ≤ cycle.length) : cycle.Chain (· ≠ ·) := by
  induction cycle with
  | nil => trivial
  | cons start rest =>
    rw [Cycle.nodup_coe_iff] at nodup
    rw [Cycle.length_coe, List.length_cons] at long
    rw [Cycle.chain_coe_cons, ← List.cons_append]
    refine List.IsChain.append nodup.isChain (List.isChain_singleton start) ?_
    cases rest using List.reverseRecOn with
    | nil => simp at long
    | append_singleton rest last =>
      have different := (List.nodup_cons.mp nodup).1
      simp only [List.mem_append, List.mem_singleton, not_or] at different
      simpa [List.getLast?_cons] using Ne.symm different.2

theorem chain_and {other : α → α → Prop} (chain : cycle.Chain along)
    (also : cycle.Chain other) : cycle.Chain fun first second =>
      along first second ∧ other first second := by
  induction cycle with
  | nil => trivial
  | cons start rest =>
    rw [Cycle.chain_coe_cons] at chain also ⊢
    rw [List.isChain_iff_forall_rel_of_append_cons_cons] at chain also ⊢
    exact fun first second before later split => ⟨chain split, also split⟩

theorem nodup_map {β : Type} {function : α → β} (injective : Function.Injective function)
    (nodup : cycle.Nodup) : (cycle.map function).Nodup := by
  induction cycle using Quotient.inductionOn' with
  | h elements => exact List.Nodup.map injective nodup

end Relation

/-! ## How rounds change the cycles -/

variable {scratch : Register} {pending : List RegisterMove}

/-- Whatever is on a cycle is read, so that a ready move is on none. -/
theorem cyclesAlong_of_ready {before later : List RegisterMove} {ready : RegisterMove}
    (isReady : ready.isReady (before ++ ready :: later)) :
    cyclesAlong (Carries (before ++ later)) = cyclesAlong (Carries (before ++ ready :: later)) := by
  ext cycle
  constructor
  · rintro ⟨nodup, long, chain⟩
    have fewer : before ++ later ⊆ before ++ ready :: later :=
      ((List.sublist_cons_self ready later).append_left before).subset
    exact ⟨nodup, long, chain.imp fun _ _ carries => fewer carries⟩
  · rintro ⟨nodup, long, chain⟩
    refine ⟨nodup, long, chain_imp_of_mem (fun first _ second listed carries => ?_) chain⟩
    obtain ⟨_, next, _, reads⟩ := exists_neighbours chain listed
    exact carries_of_ready isReady carries ⟨next, reads⟩

/-- Reading a register in the scratch register takes away the cycles through it. -/
theorem cyclesAlong_of_redirect (old : Register)
    (unwritten : ∀ move ∈ pending, move.target ≠ scratch) :
    cyclesAlong (Carries (pending.map (RegisterMove.redirect old scratch))) =
      {cycle ∈ cyclesAlong (Carries pending) | old ∉ cycle} := by
  ext cycle
  constructor
  · rintro ⟨nodup, long, chain⟩
    have notScratch {register : Register} (listed : register ∈ cycle) : register ≠ scratch := by
      obtain ⟨⟨previous, _, carries⟩, _⟩ := exists_neighbours chain listed
      obtain ⟨original, member, same⟩ := List.mem_map.mp carries
      have target : original.target = register := by
        rw [← redirect_target old scratch original, same]
      exact target ▸ unwritten original member
    have kept {first second : Register} (listed : first ∈ cycle)
        (carries : Carries (pending.map (RegisterMove.redirect old scratch)) first second) :
        first ≠ old ∧ Carries pending first second :=
      (carries_redirect_iff.mp carries).resolve_left fun copied => notScratch listed copied.1
    refine ⟨⟨nodup, long, chain_imp_of_mem (fun _ listed _ _ carries => (kept listed carries).2)
      chain⟩, fun listed => ?_⟩
    obtain ⟨_, next, _, carries⟩ := exists_neighbours chain listed
    exact (kept listed carries).1 rfl
  · rintro ⟨⟨nodup, long, chain⟩, without⟩
    refine ⟨nodup, long, chain_imp_of_mem (fun first listed second _ carries => ?_) chain⟩
    exact carries_redirect_iff.mpr (.inr ⟨fun same => without (same ▸ listed), carries⟩)

/-- When every move waits each target is on a cycle: the way on from it comes back, because
different targets go on into different ones. -/
theorem exists_cycle_of_waiting (distinct : (pending.map RegisterMove.target).Nodup)
    (busy : ∀ move ∈ pending, ¬ move.isIdle) (waiting : ∀ move ∈ pending, ¬ move.isReady pending)
    (start : Targets pending) : ∃ cycle ∈ cyclesAlong (Carries pending), ↑start ∈ cycle := by
  obtain ⟨next, carries⟩ := exists_next_of_waiting waiting
  have injective : Function.Injective next := fun first second same =>
    Subtype.ext (source_unique distinct (carries first) (same ▸ carries second))
  have periodic : start ∈ Function.periodicPts next := injective.mem_periodicPts start
  have other : next start ≠ start := by
    intro same
    have idle := carries start
    rw [same] at idle
    exact busy _ idle (by simp [RegisterMove.isIdle])
  refine ⟨(Function.periodicOrbit next start).map Subtype.val, ⟨?_, ?_, ?_⟩, ?_⟩
  · exact nodup_map Subtype.val_injective Function.nodup_periodicOrbit
  · have positive := Function.minimalPeriod_pos_of_mem_periodicPts periodic
    have notOne : Function.minimalPeriod next start ≠ 1 :=
      fun one => other (Function.minimalPeriod_eq_one_iff_isFixedPt.mp one)
    rw [Function.periodicOrbit_eq_cycle_map, Cycle.map_coe, Cycle.map_coe, Cycle.length_coe,
      List.length_map, List.length_map, List.length_range]
    omega
  · rw [Cycle.chain_map, Function.periodicOrbit_chain' _ periodic]
    intro steps
    rw [Function.iterate_succ_apply']
    exact carries _
  · exact Cycle.mem_map.mpr ⟨start, Function.self_mem_periodicOrbit periodic, rfl⟩

/-- When every move waits, copying a target takes away one cycle. -/
theorem cyclesAlong_of_waiting (distinct : (pending.map RegisterMove.target).Nodup)
    (busy : ∀ move ∈ pending, ¬ move.isIdle) (waiting : ∀ move ∈ pending, ¬ move.isReady pending)
    (unwritten : ∀ move ∈ pending, move.target ≠ scratch) {blocked : RegisterMove}
    (member : blocked ∈ pending) :
    ∃ cycle, cyclesAlong (Carries pending) = insert cycle (cyclesAlong
        (Carries (pending.map (RegisterMove.redirect blocked.target scratch)))) ∧
      cycle ∉ cyclesAlong
        (Carries (pending.map (RegisterMove.redirect blocked.target scratch))) := by
  obtain ⟨cycle, closed, through⟩ :=
    exists_cycle_of_waiting distinct busy waiting ⟨blocked.target, blocked, member, rfl⟩
  rw [cyclesAlong_of_redirect _ unwritten]
  refine ⟨cycle, ?_, fun kept => kept.2 through⟩
  ext other
  constructor
  · intro otherClosed
    by_cases otherThrough : blocked.target ∈ other
    · have unique : ∀ first second third, Carries pending first third →
          Carries pending second third → first = second :=
        fun _ _ _ => source_unique distinct
      exact .inl (eq_of_mem_cyclesAlong unique otherClosed closed otherThrough through)
    · exact .inr ⟨otherClosed, otherThrough⟩
  · rintro (rfl | ⟨otherClosed, _⟩)
    · exact closed
    · exact otherClosed

/-- No moves make no cycle. -/
theorem cyclesAlong_nil : cyclesAlong (Carries []) = ∅ := by
  refine Set.eq_empty_iff_forall_notMem.mpr fun cycle ⟨_, long, chain⟩ => ?_
  obtain ⟨start, member⟩ := exists_mem long
  obtain ⟨⟨previous, _, carries⟩, _⟩ := exists_neighbours chain member
  exact List.not_mem_nil carries

end NativeExpr.MoveSchedule
