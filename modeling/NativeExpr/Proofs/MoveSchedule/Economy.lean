import NativeExpr.Proofs.MoveSchedule.Cycles
import NativeExpr.Proofs.MoveSchedule.Simultaneous

/-!
# The number of instructions for moves

What a schedule costs beyond its moves themselves is one instruction for each cycle: a round
carries a move out, which is on no cycle, or breaks exactly one (`size_resolveWithin`).
`ofMoves_economical` counts the instructions that are written for a whole list of moves.
-/

namespace NativeExpr

/-- The number of instructions that a request is granted as. -/
def Request.size : Request → Nat
  | .move target source => if target = source then 0 else 1
  | _ => 1

/-- The number of instructions for requests. -/
def Request.sizes (requests : List Request) : Nat := (requests.map Request.size).sum

/-- The number of instructions that bring a value into a register. -/
def RegisterMove.cost (move : RegisterMove) : Nat :=
  match move.source with
  | .register source => if source = move.target then 0 else 1
  | .slot _ => 1
  | .constant _ =>
    match move.target.bank with
    | .generalPurpose => 1
    | .xmm => 2

/-- The number of instructions that bring a value to its place. -/
def Move.cost (move : Move) : Nat :=
  match move.target with
  | .register register => RegisterMove.cost ⟨register, move.source⟩
  | .stack _ =>
    match move.source with
    | .register _ => 1
    | .slot _ | .constant _ => 2

namespace Request

theorem length_of_instructions {request : Request} {instructions : List Instruction}
    (granted : request.instructions = .ok instructions) : instructions.length = request.size := by
  cases request with
  | move target source =>
    simp only [Request.instructions, moveInstructions] at granted
    by_cases same : target = source
    · simp only [same, if_true, except_pure_eq_ok] at granted
      simp [← granted, size, same]
    · simp only [same, if_false] at granted
      split at granted <;> simp only [except_bind_eq_ok, except_pure_eq_ok] at granted <;>
        obtain ⟨_, _, _, _, rfl⟩ := granted <;> simp [size, same]
  | load target base offset | store base offset source =>
    simp only [Request.instructions, except_bind_eq_ok] at granted
    obtain ⟨address, _, granted⟩ := granted
    split at granted <;> simp only [except_bind_eq_ok, except_pure_eq_ok] at granted <;>
      obtain ⟨_, _, rfl⟩ := granted <;> rfl
  | arith _ target source | arithMemory _ target _ _ | address target _ _ =>
    simp only [Request.instructions, except_bind_eq_ok, except_pure_eq_ok] at granted
    obtain ⟨_, _, _, _, rfl⟩ := granted
    rfl
  | ret =>
    simp only [Request.instructions, except_pure_eq_ok] at granted
    rw [← granted]
    rfl
  | constant target _ | arithConstant _ target _ | push source | pop source | call target =>
    simp only [Request.instructions, except_bind_eq_ok, except_pure_eq_ok] at granted
    obtain ⟨_, _, rfl⟩ := granted
    rfl

@[simp] theorem sizes_nil : sizes [] = 0 := rfl

@[simp] theorem sizes_append (first second : List Request) :
    sizes (first ++ second) = sizes first + sizes second := by
  simp [sizes]

end Request

/-- Requests that are granted take as many instructions as their sizes say. -/
theorem length_of_assemble {requests : List Request} {instructions : List Instruction}
    (granted : assemble requests = ⟨instructions, none⟩) :
    instructions.length = Request.sizes requests := by
  induction requests generalizing instructions with
  | nil =>
    simp only [assemble, Assembly.mk.injEq] at granted
    rw [← granted.1]
    rfl
  | cons request rest ih =>
    obtain ⟨first, later, accepted, remaining, rfl⟩ := assemble_cons_eq_ok granted
    rw [List.length_append, Request.length_of_instructions accepted, ih remaining]
    simp [Request.sizes]

namespace MoveSchedule

theorem sizes_requests (move : RegisterMove) : Request.sizes move.requests = move.cost := by
  obtain ⟨target, source⟩ := move
  simp only [RegisterMove.requests, RegisterMove.cost, Transfer.intoRegister]
  cases source with
  | register source => simp [Request.sizes, Request.size, eq_comm]
  | slot offset => rfl
  | constant bits =>
    cases bank : target.bank with
    | generalPurpose => rfl
    | xmm =>
      have other : target ≠ Convention.scratch .generalPurpose := by
        rintro rfl
        cases bank
      simp [Request.sizes, Request.size, other]

/-! ## One bank -/

section Bank

variable {scratch : Register} {pending : List RegisterMove} {rounds : Nat}

/-- Moves into different registers that are not the scratch register, none of which is idle. -/
structure Proper (scratch : Register) (pending : List RegisterMove) : Prop where
  distinct : (pending.map RegisterMove.target).Nodup
  notScratch : ∀ move ∈ pending, move.target ≠ scratch
  busy : ∀ move ∈ pending, ¬ move.isIdle

theorem Proper.remove {before later : List RegisterMove} {move : RegisterMove}
    (proper : Proper scratch (before ++ move :: later)) : Proper scratch (before ++ later) := by
  have smaller : (before ++ later).Sublist (before ++ move :: later) :=
    (List.sublist_cons_self move later).append_left before
  exact ⟨proper.distinct.sublist (smaller.map _),
    fun other member => proper.notScratch other (smaller.subset member),
    fun other member => proper.busy other (smaller.subset member)⟩

/-- A value that is read in the scratch register still has to go into another register. -/
theorem busy_redirect {move : RegisterMove} (busy : ¬ move.isIdle)
    (notScratch : move.target ≠ scratch) (old : Register) :
    ¬ (move.redirect old scratch).isIdle := by
  unfold RegisterMove.redirect
  split
  · simpa [RegisterMove.isIdle] using notScratch.symm
  · exact busy

theorem Proper.redirect (proper : Proper scratch pending) (old : Register) :
    Proper scratch (pending.map (RegisterMove.redirect old scratch)) := by
  refine ⟨by rw [map_redirect_target]; exact proper.distinct, fun move member => ?_,
    fun move member => ?_⟩
  all_goals obtain ⟨original, listed, rfl⟩ := List.mem_map.mp member
  · rw [redirect_target]
    exact proper.notScratch original listed
  · exact busy_redirect (proper.busy original listed) (proper.notScratch original listed) old

/-- Reading a value in the scratch register costs what reading it elsewhere costs. -/
theorem cost_redirect {move : RegisterMove} (busy : ¬ move.isIdle)
    (notScratch : move.target ≠ scratch) (old : Register) :
    (move.redirect old scratch).cost = move.cost := by
  unfold RegisterMove.redirect
  split
  · rename_i reads
    have other : old ≠ move.target := by
      rintro rfl
      exact busy (by simp [RegisterMove.isIdle, reads])
    simp [RegisterMove.cost, reads, other, notScratch.symm]
  · rfl

/-- Rounds that settle moves take the instructions of the moves, and one for each cycle. -/
theorem size_resolveWithin (proper : Proper scratch pending)
    (settled : (resolveWithin scratch rounds pending).settled) :
    (cyclesAlong (Carries pending)).Finite ∧
      Request.sizes (resolveWithin scratch rounds pending).requests =
        (pending.map RegisterMove.cost).sum + (cyclesAlong (Carries pending)).ncard := by
  induction rounds generalizing pending with
  | zero =>
    obtain rfl : pending = [] := by simpa [resolveWithin] using settled
    simp [resolveWithin, cyclesAlong_nil]
  | succ rounds ih =>
    simp only [resolveWithin, after, Request.sizes_append] at settled ⊢
    rcases round_cases scratch pending with
      ⟨before, ready, later, rfl, isReady, result⟩ | ⟨blocked, rest, split, waiting, result⟩ |
        ⟨rfl, result⟩
    · rw [result] at settled ⊢
      obtain ⟨finite, size⟩ := ih proper.remove settled
      rw [cyclesAlong_of_ready isReady] at finite size
      refine ⟨finite, ?_⟩
      rw [size, sizes_requests]
      simp only [List.map_append, List.map_cons, List.sum_append, List.sum_cons]
      omega
    · -- The copy is the one instruction for the cycle that it breaks.
      have member : blocked ∈ pending := split ▸ List.mem_cons_self
      rw [result] at settled ⊢
      obtain ⟨finite, size⟩ := ih (proper.redirect blocked.target) settled
      obtain ⟨cycle, cycles, broken⟩ :=
        cyclesAlong_of_waiting proper.distinct proper.busy waiting proper.notScratch member
      have copy : Request.sizes [.move scratch blocked.target] = 1 := by
        simp [Request.sizes, Request.size, (proper.notScratch blocked member).symm]
      have costs : (pending.map (RegisterMove.redirect blocked.target scratch)).map
          RegisterMove.cost = pending.map RegisterMove.cost := by
        rw [List.map_map]
        exact List.map_congr_left fun move listed =>
          cost_redirect (proper.busy move listed) (proper.notScratch move listed) blocked.target
      rw [cycles, size, copy, costs, Set.ncard_insert_of_notMem broken finite]
      exact ⟨finite.insert cycle, by omega⟩
    · rw [result] at settled ⊢
      simpa using ih proper settled

end Bank

/-! ## All moves -/

variable {moves : List Move}

/-- Whether a move brings the value of one register into another. -/
def Feeds (moves : List Move) (source target : Register) : Prop :=
  ⟨.register target, .register source⟩ ∈ moves

/-- Moves between registers of the machine, each into a register of its own, which is no scratch
register, and from one of the same bank. -/
structure Regular (moves : List Move) : Prop where
  distinct : (moves.filterMap fun move => move.target.register?).Nodup
  real : ∀ move ∈ moves, move.Real
  notScratch : ∀ move ∈ moves, ∀ bank, move.target ≠ .register (Convention.scratch bank)
  bank : ∀ source target, Feeds moves source target → source.bank = target.bank

theorem mem_pendingInto {bank : Bank} {move : RegisterMove} :
    move ∈ pendingInto bank moves ↔
      move.target.bank = bank ∧ ⟨.register move.target, move.source⟩ ∈ moves ∧ ¬ move.isIdle := by
  simp [pendingInto, mem_movesInto, and_assoc]

/-- The moves of a bank are among those of which the list consists. -/
theorem carries_pendingInto {bank : Bank} {source target : Register} :
    Carries (pendingInto bank moves) source target ↔
      target.bank = bank ∧ Feeds moves source target ∧ source ≠ target := by
  simp [Carries, mem_pendingInto, Feeds, RegisterMove.isIdle]

theorem Regular.proper (regular : Regular moves) (bank : Bank) :
    Proper (Convention.scratch bank) (pendingInto bank moves) where
  distinct := by
    have all : ((movesInto bank moves).map RegisterMove.target).Nodup := by
      rw [targets_movesInto]
      exact regular.distinct.filter _
    exact all.sublist (List.filter_sublist.map _)
  notScratch move member same := by
    obtain ⟨_, listed, _⟩ := mem_pendingInto.mp member
    exact regular.notScratch _ listed bank (congrArg Place.register same)
  busy move member := (mem_pendingInto.mp member).2.2

/-- The instructions for moves are those for the outgoing area and those for each bank. -/
theorem sum_cost (moves : List Move) :
    (moves.map Move.cost).sum = Request.sizes (outgoing moves) +
      ((movesInto .xmm moves).map RegisterMove.cost).sum +
      ((movesInto .generalPurpose moves).map RegisterMove.cost).sum := by
  induction moves with
  | nil => rfl
  | cons move rest ih =>
    obtain ⟨target, source⟩ := move
    cases target with
    | register register =>
      cases bank : register.bank <;>
        simp [movesInto, outgoing, Move.cost, bank] at ih ⊢ <;> omega
    | stack offset =>
      cases source <;>
        simp [movesInto, outgoing, Move.cost, Transfer.intoOutgoing, Request.sizes, Request.size]
          at ih ⊢ <;> omega

/-- Idle moves cost nothing. -/
theorem sum_cost_pendingInto (bank : Bank) (moves : List Move) :
    ((pendingInto bank moves).map RegisterMove.cost).sum =
      ((movesInto bank moves).map RegisterMove.cost).sum := by
  unfold pendingInto
  induction movesInto bank moves with
  | nil => rfl
  | cons move rest ih =>
    by_cases idle : move.isIdle
    · have free : move.cost = 0 := by
        have source : move.source = .register move.target := by
          simpa [RegisterMove.isIdle] using idle
        simp [RegisterMove.cost, source]
      simp [idle, free, ih]
    · simp [idle, ih]

/-- A cycle of moves stays within one bank. -/
theorem cyclesAlong_feeds (regular : Regular moves) :
    cyclesAlong (Feeds moves) = cyclesAlong (Carries (pendingInto .xmm moves)) ∪
      cyclesAlong (Carries (pendingInto .generalPurpose moves)) := by
  ext cycle
  constructor
  · rintro ⟨nodup, long, chain⟩
    obtain ⟨start, member⟩ := exists_mem long
    have own : ∀ register ∈ cycle, register.bank = start.bank :=
      forall_mem_of_chain chain (fun first second feeds here =>
        (regular.bank first second feeds).symm.trans here) member rfl
    have closed : cycle ∈ cyclesAlong (Carries (pendingInto start.bank moves)) := by
      refine ⟨nodup, long, chain_imp_of_mem (fun first _ second listed edge => ?_)
        (chain_and chain (chain_ne nodup long))⟩
      exact carries_pendingInto.mpr ⟨own second listed, edge⟩
    cases bank : start.bank with
    | xmm => exact .inl (bank ▸ closed)
    | generalPurpose => exact .inr (bank ▸ closed)
  · have widen (bank : Bank) (closed : cycle ∈ cyclesAlong (Carries (pendingInto bank moves))) :
        cycle ∈ cyclesAlong (Feeds moves) :=
      ⟨closed.1, closed.2.1, closed.2.2.imp fun _ _ carries => (carries_pendingInto.mp carries).2.1⟩
    exact fun found => found.elim (widen .xmm) (widen .generalPurpose)

/-- No cycle of moves is one of moves into XMM registers and one of moves into others. -/
theorem notMem_cyclesAlong_of_xmm {cycle : Cycle Register}
    (along : cycle ∈ cyclesAlong (Carries (pendingInto .xmm moves))) :
    cycle ∉ cyclesAlong (Carries (pendingInto .generalPurpose moves)) := by
  rintro ⟨_, _, other⟩
  obtain ⟨_, long, chain⟩ := along
  obtain ⟨register, member⟩ := exists_mem long
  obtain ⟨⟨_, _, carries⟩, _⟩ := exists_neighbours chain member
  obtain ⟨⟨_, _, otherCarries⟩, _⟩ := exists_neighbours other member
  have clash := (carries_pendingInto.mp carries).1.symm.trans (carries_pendingInto.mp otherCarries).1
  cases clash

/-- Moves take as many instructions as each of them alone takes, and one more for each cycle of
moves among registers. -/
theorem ofMoves_economical (regular : Regular moves) :
    (ofMoves moves).settled ∧ (cyclesAlong (Feeds moves)).Finite ∧
      ∀ code, ∃ later, Code.write (ofMoves moves).requests code = .ok () later ∧
        later.size = code.size +
          ((moves.map Move.cost).sum + (cyclesAlong (Feeds moves)).ncard) := by
  have both : (ofMoves moves).settled := settled_ofMoves regular.notScratch
  have settled (bank : Bank) : (resolveWithin (Convention.scratch bank) (provided moves bank)
      (pendingInto bank moves)).settled :=
    settled_resolveWithin_iff.mpr (settled_within_iff.mp (ofMoves_eq_within moves ▸ both) bank)
  obtain ⟨xmmFinite, xmm⟩ := size_resolveWithin (regular.proper .xmm) (settled .xmm)
  obtain ⟨gpFinite, gp⟩ := size_resolveWithin (regular.proper .generalPurpose) (settled .generalPurpose)
  obtain ⟨instructions, granted⟩ :=
    assemble_of_granted (granted_within regular.real (provided moves))
  have number := length_of_assemble granted
  rw [requests_within_of_settled (settled_resolveWithin_iff.mp (settled .xmm)),
    Request.sizes_append, Request.sizes_append, xmm, gp, sum_cost_pendingInto,
    sum_cost_pendingInto] at number
  have apart : ∀ cycle, cycle ∈ cyclesAlong (Carries (pendingInto .xmm moves)) →
      cycle ∉ cyclesAlong (Carries (pendingInto .generalPurpose moves)) :=
    fun _ => notMem_cyclesAlong_of_xmm
  rw [cyclesAlong_feeds regular, Set.ncard_union_eq (Set.disjoint_left.mpr apart) xmmFinite
    gpFinite, sum_cost]
  refine ⟨both, xmmFinite.union gpFinite, fun code => ⟨code ++ instructions, ?_, ?_⟩⟩
  · rw [ofMoves_eq_within, Code.write, granted]
  · rw [← Array.length_toList, Array.toList_appendList, List.length_append, Array.length_toList,
      number]
    omega

/-- Two registers that exchange their values while one of them goes to a third register as well:
of the nine instructions one is for the exchange. -/
theorem ofMoves_economical_exchange :
    let moves : List Move := [⟨.stack 8, .slot (-48)⟩, ⟨.register .rdi, .register .rsi⟩,
      ⟨.register .rcx, .register .rdi⟩, ⟨.register (.xmm 0), .constant 5⟩,
      ⟨.register .rsi, .register .rdi⟩, ⟨.register .rax, .register .rax⟩, ⟨.stack 0, .register .rbx⟩]
    Regular moves ∧ (moves.map Move.cost).sum = 8 ∧ (cyclesAlong (Feeds moves)).ncard = 1 ∧
      ∃ later, Code.write (ofMoves moves).requests #[] = .ok () later ∧ later.size = 9 := by
  intro moves
  have regular : Regular moves := by
    refine ⟨by decide, by decide, fun move listed bank => ?_, fun source target feeds => ?_⟩
    · cases bank <;> (revert move; decide)
    · simp only [Feeds, moves, List.mem_cons, List.not_mem_nil, or_false, Move.mk.injEq,
        Place.register.injEq, Location.register.injEq, reduceCtorEq, false_and, and_false,
        false_or] at feeds
      rcases feeds with ⟨rfl, rfl⟩ | ⟨rfl, rfl⟩ | ⟨rfl, rfl⟩ | ⟨rfl, rfl⟩ <;> rfl
  have costs : (moves.map Move.cost).sum = 8 := by decide
  obtain ⟨_, _, counted⟩ := ofMoves_economical regular
  obtain ⟨later, written, size⟩ := counted #[]
  have assembled : (assemble (ofMoves moves).requests).fault = none ∧
      (assemble (ofMoves moves).requests).instructions.length = 9 := by decide
  have nine : later.size = 9 := by
    simp only [Code.write, assembled.1, EStateM.Result.ok.injEq, true_and] at written
    rw [← written, ← Array.length_toList, Array.toList_appendList]
    exact assembled.2
  have one : (cyclesAlong (Feeds moves)).ncard = 1 := by
    rw [costs, nine, Array.size_empty] at size
    omega
  exact ⟨regular, costs, one, later, written, nine⟩

end MoveSchedule

end NativeExpr
