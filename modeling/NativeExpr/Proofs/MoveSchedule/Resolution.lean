import Mathlib.Data.List.Nodup
import Mathlib.Data.List.Perm.Subperm
import NativeExpr.Proofs.Machine.Agreement
import NativeExpr.Proofs.MoveSchedule.Rounds

/-!
# Resolving the moves into one bank

Every round keeps what is still to be delivered: a ready move overwrites a register that no
pending move reads, and when no move is ready the targets are exactly the registers that are
read, so that the scratch register is not among those and may take a copy.
`resolveWithin_delivers` puts the rounds together.
-/

namespace NativeExpr

/-- A move into a register of a bank that code generation may ask for: the target is neither
the frame pointer nor the scratch register, and a source register is of the same bank. -/
structure RegisterMove.Fits (bank : Bank) (move : RegisterMove) : Prop where
  own : move.target.bank = bank
  real : move.target.InBank
  notFrame : move.target ≠ .rbp
  notScratch : move.target ≠ Convention.scratch bank
  source : ∀ register, move.source = .register register →
    register.bank = bank ∧ register.InBank

/-- Whether a move is between registers of the machine, as far as it is between registers. -/
structure RegisterMove.Real (move : RegisterMove) : Prop where
  target : move.target.InBank
  source : ∀ register, move.source = .register register → register.InBank

namespace MoveSchedule

/-- Moves that wait for their turn, into registers of their own. -/
structure Pending (bank : Bank) (pending : List RegisterMove) : Prop where
  fits : ∀ move ∈ pending, move.Fits bank
  distinct : (pending.map RegisterMove.target).Nodup

/-- The registers that carrying out moves may change. -/
def changes (bank : Bank) (pending : List RegisterMove) : List Register :=
  pending.map RegisterMove.target ++ [Convention.scratch bank, .r11]

/-- Every target holds in the later state what its source held in the earlier one. -/
def Delivers (before : Machine) (pending : List RegisterMove) (later : Machine) : Prop :=
  ∀ move ∈ pending, later.get move.target = before.value move.source

theorem scratch_inBank (bank : Bank) : (Convention.scratch bank).InBank := by
  cases bank <;> decide

theorem scratch_bank (bank : Bank) : (Convention.scratch bank).bank = bank := by
  cases bank <;> rfl

/-- A register of a bank that is not the bank's scratch register is not r11 either. -/
theorem ne_r11_of_ne_scratch {bank : Bank} {register : Register} (own : register.bank = bank)
    (other : register ≠ Convention.scratch bank) : register ≠ .r11 := by
  cases bank with
  | generalPurpose => exact other
  | xmm =>
    intro same
    rw [same] at own
    cases own

/-- Leaving a move out keeps the others well formed. -/
theorem Pending.remove {bank : Bank} {before later : List RegisterMove} {move : RegisterMove}
    (pending : Pending bank (before ++ move :: later)) : Pending bank (before ++ later) := by
  have smaller : (before ++ later).Sublist (before ++ move :: later) :=
    (List.sublist_cons_self move later).append_left before
  exact ⟨fun other member => pending.fits other (smaller.subset member),
    pending.distinct.sublist (smaller.map _)⟩

/-- Reading a copy in the scratch register keeps moves well formed. -/
theorem Pending.redirect {bank : Bank} {pending : List RegisterMove} (valid : Pending bank pending)
    (old : Register) :
    Pending bank (pending.map (RegisterMove.redirect old (Convention.scratch bank))) := by
  refine ⟨fun move member => ?_, by rw [map_redirect_target]; exact valid.distinct⟩
  obtain ⟨original, listed, rfl⟩ := List.mem_map.mp member
  have fits := valid.fits original listed
  have target := redirect_target old (Convention.scratch bank) original
  refine ⟨target ▸ fits.own, target ▸ fits.real, target ▸ fits.notFrame, target ▸ fits.notScratch,
    fun register source => ?_⟩
  unfold RegisterMove.redirect at source
  split at source
  · cases source
    exact ⟨scratch_bank bank, scratch_inBank bank⟩
  · exact fits.source register source

/-- When every target is still read, the registers that are read are the targets. -/
theorem source_mem_targets {pending : List RegisterMove}
    (distinct : (pending.map RegisterMove.target).Nodup)
    (waiting : ∀ move ∈ pending, ¬ move.isReady pending) {move : RegisterMove}
    (member : move ∈ pending) :
    ∃ register ∈ pending.map RegisterMove.target, move.source = .register register := by
  have read : pending.map (fun other => Location.register other.target) ⊆
      pending.map RegisterMove.source := by
    intro location listed
    obtain ⟨target, targetMember, rfl⟩ := List.mem_map.mp listed
    exact List.mem_map.mpr (reader_of_waiting waiting targetMember)
  have unique : (pending.map fun other => Location.register other.target).Nodup := by
    have mapped := distinct.map (f := Location.register) fun left right same => by cases same; rfl
    simpa only [List.map_map, Function.comp_def] using mapped
  have all : (pending.map fun other => Location.register other.target).Perm
      (pending.map RegisterMove.source) :=
    (List.subperm_of_subset unique read).perm_of_length_le (by simp)
  have listed := all.mem_iff.mpr (List.mem_map.mpr ⟨move, member, rfl⟩)
  obtain ⟨target, targetMember, same⟩ := List.mem_map.mp listed
  exact ⟨target.target, List.mem_map.mpr ⟨target, targetMember, rfl⟩, same.symm⟩

/-- Carrying out a ready move leaves to be delivered what the other moves deliver. -/
theorem delivers_of_ready (natives : Natives) {bank : Bank} {before later : List RegisterMove}
    {ready : RegisterMove} (valid : Pending bank (before ++ ready :: later))
    (isReady : ready.isReady (before ++ ready :: later)) {machine final : Machine}
    (delivers : Delivers (Request.effects natives machine ready.requests) (before ++ later) final)
    (agree : Machine.AgreeOutside (changes bank (before ++ later))
      (Request.effects natives machine ready.requests) final) :
    Delivers machine (before ++ ready :: later) final := by
  have fits : ready.Fits bank := valid.fits ready (by simp)
  obtain ⟨arrived, carried⟩ :=
    Transfer.effects_intoRegister natives machine fits.real ready.source
  have notR11 : ready.target ≠ .r11 := ne_r11_of_ne_scratch fits.own fits.notScratch
  have notTarget : ready.target ∉ (before ++ later).map RegisterMove.target := by
    have distinct := valid.distinct
    simp only [List.map_append, List.map_cons] at distinct ⊢
    exact (List.nodup_middle.mp distinct).notMem
  intro move member
  by_cases same : move = ready
  · subst same
    rw [← arrived]
    refine agree.get _ fits.real ?_
    simp only [changes, List.mem_append, List.mem_cons, List.not_mem_nil, or_false, not_or]
    exact ⟨by simpa using notTarget, fits.notScratch, notR11⟩
  · have kept : move ∈ before ++ later := by
      simp only [List.mem_append, List.mem_cons] at member ⊢
      tauto
    rw [delivers move kept]
    refine carried.value ?_ fun register source => ?_
    · simp only [List.mem_cons, not_or]
      refine ⟨fits.notFrame.symm, ?_⟩
      split <;> simp
    · obtain ⟨own, real⟩ := (valid.fits move member).source register source
      refine ⟨real, ?_⟩
      have unread := List.all_eq_true.mp isReady move member
      simp only [source, bne_iff_ne, ne_eq, Location.register.injEq] at unread
      simp only [List.mem_cons, not_or]
      refine ⟨unread, ?_⟩
      split
      · rename_i isXmm
        simp only [List.mem_singleton]
        rintro rfl
        have clash : Bank.xmm = Bank.generalPurpose := isXmm.symm.trans (fits.own.trans own.symm)
        cases clash
      · simp

/-- A copy of a register that every pending move waits for takes its place as a source. -/
theorem delivers_of_copy (natives : Natives) {bank : Bank} {pending : List RegisterMove}
    (valid : Pending bank pending) (waiting : ∀ move ∈ pending, ¬ move.isReady pending)
    {blocked : Register} {machine final : Machine}
    (delivers : Delivers
      (Request.effect natives machine (.move (Convention.scratch bank) blocked))
      (pending.map (RegisterMove.redirect blocked (Convention.scratch bank))) final) :
    Delivers machine pending final := by
  have copied : Machine.AgreeOutside [Convention.scratch bank] machine
      (machine.set (Convention.scratch bank) (machine.get blocked)) :=
    Machine.AgreeOutside.set machine _ (scratch_inBank bank) List.mem_cons_self
  intro move member
  have arrives := delivers _ (List.mem_map.mpr ⟨move, member, rfl⟩)
  rw [redirect_target] at arrives
  rw [arrives]
  unfold RegisterMove.redirect
  split
  · rename_i reads
    simp [reads, Request.effect, Machine.value]
  · obtain ⟨register, target, source⟩ := source_mem_targets valid.distinct waiting member
    obtain ⟨other, otherMember, rfl⟩ := List.mem_map.mp target
    have otherFits := valid.fits other otherMember
    refine copied.value (by cases bank <;> simp [Convention.scratch]) fun register same => ?_
    rw [source] at same
    cases same
    exact ⟨otherFits.real, by simpa using otherFits.notScratch⟩

/-- Moves that leave the scratch register alone settle within two rounds for each of them. -/
theorem settled_resolveWithin {scratch : Register} {rounds : Nat} {pending : List RegisterMove}
    (notScratch : ∀ move ∈ pending, move.target ≠ scratch) (enough : 2 * pending.length ≤ rounds) :
    (resolveWithin scratch rounds pending).settled := by
  rw [settled_resolveWithin_iff]
  rcases leftAfter_eq_nil_or_stuck scratch (.inl enough) with empty | stuck
  · exact empty
  · obtain ⟨⟨first, rest, left, target⟩, _⟩ := stuck
    obtain ⟨original, listed, same⟩ := exists_target_of_leftAfter (left ▸ List.mem_cons_self)
    exact absurd (same.trans target) (notScratch original listed)

/-- Rounds change nothing but the targets and the scratch registers, whatever is read. -/
theorem resolveWithin_agrees (natives : Natives) (bank : Bank) {rounds : Nat}
    {pending : List RegisterMove} (real : ∀ move ∈ pending, move.target.InBank)
    (machine : Machine) :
    Machine.AgreeOutside (changes bank pending) machine (Request.effects natives machine
      (resolveWithin (Convention.scratch bank) rounds pending).requests) := by
  induction rounds generalizing pending machine with
  | zero => exact Machine.AgreeOutside.refl _ _
  | succ rounds ih =>
    simp only [resolveWithin, after, Request.effects_append]
    rcases round_cases (Convention.scratch bank) pending with
      ⟨before, ready, later, rfl, _, result⟩ | ⟨blocked, rest, rfl, _, result⟩ | ⟨rfl, result⟩
    · rw [result]
      have carried := (Transfer.effects_intoRegister natives machine
        (real ready (by simp)) ready.source).2
      refine (carried.mono ?_).trans ((ih (fun move member => real move ?_) _).mono ?_)
      · intro register member
        simp only [changes, List.mem_append, List.mem_map, List.mem_cons] at member ⊢
        rcases member with rfl | member
        · exact .inl ⟨ready, by simp, rfl⟩
        · split at member <;> simp_all
      · simp only [List.mem_append, List.mem_cons] at member ⊢
        tauto
      · intro register member
        simp only [changes, List.map_append, List.map_cons, List.mem_append,
          List.mem_cons] at member ⊢
        tauto
    · rw [result]
      have copyReal : ∀ move ∈ (blocked :: rest).map
          (RegisterMove.redirect blocked.target (Convention.scratch bank)), move.target.InBank := by
        intro move member
        obtain ⟨original, listed, rfl⟩ := List.mem_map.mp member
        rw [redirect_target]
        exact real original listed
      have later := ih copyReal
        (Request.effect natives machine (.move (Convention.scratch bank) blocked.target))
      rw [changes, map_redirect_target] at later
      refine Machine.AgreeOutside.trans
        (Machine.AgreeOutside.set machine (machine.get blocked.target) (scratch_inBank bank) ?_) later
      simp [changes]
    · rw [result]
      exact ih real machine

/-- The rounds that settle a list of moves deliver all of them. -/
theorem resolveWithin_delivers (natives : Natives) {bank : Bank} {rounds : Nat}
    {pending : List RegisterMove} (valid : Pending bank pending)
    (settled : (resolveWithin (Convention.scratch bank) rounds pending).settled)
    (machine : Machine) :
    Delivers machine pending (Request.effects natives machine
      (resolveWithin (Convention.scratch bank) rounds pending).requests) := by
  induction rounds generalizing pending machine with
  | zero =>
    have empty : pending = [] := by simpa [resolveWithin] using settled
    subst empty
    exact fun _ member => (List.not_mem_nil member).elim
  | succ rounds ih =>
    simp only [resolveWithin, after, Request.effects_append] at settled ⊢
    rcases round_cases (Convention.scratch bank) pending with
      ⟨before, ready, later, rfl, isReady, result⟩ | ⟨blocked, rest, rfl, waiting, result⟩ |
        ⟨rfl, result⟩
    · rw [result] at settled ⊢
      exact delivers_of_ready natives valid isReady (ih valid.remove settled _)
        (resolveWithin_agrees natives bank (fun move member => (valid.remove.fits move member).real) _)
    · rw [result] at settled ⊢
      exact delivers_of_copy natives valid waiting (ih (valid.redirect blocked.target) settled _)
    · rw [result] at settled ⊢
      exact ih valid settled machine

/-- The schedule of moves into one bank changes nothing but the targets and the scratch
registers. -/
theorem resolve_agrees (natives : Natives) (bank : Bank) {moves : List RegisterMove}
    (real : ∀ move ∈ moves, move.target.InBank) (machine : Machine) :
    Machine.AgreeOutside (changes bank moves) machine (Request.effects natives machine
      (resolve (Convention.scratch bank) moves).requests) := by
  have smaller : (moves.filter fun move => !move.isIdle).Sublist moves := List.filter_sublist
  refine (resolveWithin_agrees natives bank
    (fun move member => real move (smaller.subset member)) machine).mono fun register member => ?_
  simp only [changes, List.mem_append] at member ⊢
  exact member.imp_left fun listed => (smaller.map _).subset listed

/-- The schedule of moves into one bank delivers all of them. -/
theorem resolve_delivers (natives : Natives) {bank : Bank} {moves : List RegisterMove}
    (valid : Pending bank moves) (machine : Machine) :
    (resolve (Convention.scratch bank) moves).settled ∧
      Delivers machine moves (Request.effects natives machine
        (resolve (Convention.scratch bank) moves).requests) := by
  have smaller : (moves.filter fun move => !move.isIdle).Sublist moves := List.filter_sublist
  have pending : Pending bank (moves.filter fun move => !move.isIdle) :=
    ⟨fun move member => valid.fits move (smaller.subset member),
      valid.distinct.sublist (smaller.map _)⟩
  have settled : (resolve (Convention.scratch bank) moves).settled :=
    settled_resolveWithin (fun move member => (pending.fits move member).notScratch)
      (Nat.le_refl _)
  refine ⟨settled, fun move member => ?_⟩
  by_cases idle : move.isIdle
  · -- An idle move's target is changed by no other move.
    have source : move.source = .register move.target := by simpa [RegisterMove.isIdle] using idle
    have fits := valid.fits move member
    rw [source]
    refine (resolveWithin_agrees natives bank
      (fun other listed => (pending.fits other listed).real) machine).get _ fits.real ?_
    simp only [changes, List.mem_append, List.mem_map, List.mem_filter, List.mem_cons,
      List.not_mem_nil, or_false, not_or, not_exists, not_and, and_imp]
    refine ⟨fun other otherMember busy same => ?_, fits.notScratch,
      ne_r11_of_ne_scratch fits.own fits.notScratch⟩
    have equal := List.inj_on_of_nodup_map valid.distinct otherMember member same
    rw [equal, idle] at busy
    cases busy
  · exact resolveWithin_delivers natives pending settled machine move
      (List.mem_filter.mpr ⟨member, by simpa using idle⟩)

end MoveSchedule

end NativeExpr
