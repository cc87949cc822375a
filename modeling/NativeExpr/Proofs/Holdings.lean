import Mathlib.Data.List.DropRight
import Mathlib.Data.List.Induction
import Mathlib.Data.Set.Card
import Mathlib.Order.Bounds.Basic
import NativeExpr.Proofs.Ledger.Pool

/-!
# The pool as a map

Seen from outside, a pool is a map from the registers that are handed out to their owners. The
pool keeps a set of live registers, a record for every index and two counters instead, and each
request changes some of them; `RegisterPool.Change` says once which. That the pool answers every
request as the map does, and counts what it says it counts, follows from the cases of a change.
-/

namespace NativeExpr

/-- What can be asked of a pool. -/
inductive PoolRequest where
  | allocate (bank : Bank) (owner : Option NodeId) (hint : Option Register)
    (excluded : RegisterSet)
  | allocateExactly (register : Register) (owner : Option NodeId)
  | release (register : Register)
  | transfer (register : Register) (owner : Option NodeId)
  | reset
deriving DecidableEq

namespace PoolRequest

/-- Whether a request is for a register. -/
def allocates : PoolRequest → Bool
  | .allocate .. | .allocateExactly .. => true
  | _ => false

/-- The requests up to the last reset, which is among them. -/
def settled (requests : List PoolRequest) : List PoolRequest := requests.rdropWhile (· ≠ .reset)

/-- The requests after the last reset. -/
def recent (requests : List PoolRequest) : List PoolRequest := requests.rtakeWhile (· ≠ .reset)

theorem settled_append_recent (requests : List PoolRequest) :
    settled requests ++ recent requests = requests := by
  rw [settled, recent, List.rdropWhile, List.rtakeWhile, ← List.reverse_append,
    List.takeWhile_append_dropWhile, List.reverse_reverse]

theorem reset_notMem_recent (requests : List PoolRequest) : .reset ∉ recent requests := by
  intro member
  simpa using List.mem_rtakeWhile_imp member

end PoolRequest

/-- The registers that are handed out, each with its owner if it has one. -/
abbrev Holdings := Register → Option (Option NodeId)

namespace Holdings

/-- The registers of a bank that are handed out. -/
def heldIn (holdings : Holdings) (bank : Bank) : Set Register :=
  {register | register.bank = bank ∧ (holdings register).isSome}

/-- Whether a register can be handed out to a request for one of a bank. -/
structure Offers (allocatable : RegisterSet) (holdings : Holdings) (bank : Bank)
    (excluded : RegisterSet) (register : Register) : Prop where
  own : register.bank = bank
  allowed : allocatable.contains register
  free : holdings register = none
  included : ¬excluded.contains register

/-- The answer to a request, and the map after it. -/
inductive Answers (allocatable : RegisterSet) (holdings : Holdings) :
    PoolRequest → Except RegisterError (Option Register) → Holdings → Prop
  | hinted {bank : Bank} {owner : Option NodeId} {excluded : RegisterSet} {register : Register}
      (offered : Offers allocatable holdings bank excluded register) :
      Answers allocatable holdings (.allocate bank owner (some register) excluded)
        (.ok (some register)) (Function.update holdings register (some owner))
  | lowest {bank : Bank} {owner : Option NodeId} {hint : Option Register}
      {excluded : RegisterSet} {register : Register}
      (passed : ∀ hinted ∈ hint, ¬Offers allocatable holdings bank excluded hinted)
      (offered : Offers allocatable holdings bank excluded register)
      (least : ∀ other, Offers allocatable holdings bank excluded other →
        register.number ≤ other.number) :
      Answers allocatable holdings (.allocate bank owner hint excluded)
        (.ok (some register)) (Function.update holdings register (some owner))
  | exhausted {bank : Bank} {owner : Option NodeId} {hint : Option Register}
      {excluded : RegisterSet}
      (none : ∀ register, ¬Offers allocatable holdings bank excluded register) :
      Answers allocatable holdings (.allocate bank owner hint excluded)
        (.error (.noneAvailable bank)) holdings
  | granted {register : Register} {owner : Option NodeId}
      (allowed : allocatable.contains register) (free : holdings register = none) :
      Answers allocatable holdings (.allocateExactly register owner)
        (.ok none) (Function.update holdings register (some owner))
  | forbidden {register : Register} {owner : Option NodeId}
      (barred : ¬allocatable.contains register) :
      Answers allocatable holdings (.allocateExactly register owner)
        (.error (.notAllocatable register)) holdings
  | taken {register : Register} {owner : Option NodeId}
      (allowed : allocatable.contains register) (held : (holdings register).isSome) :
      Answers allocatable holdings (.allocateExactly register owner)
        (.error (.inUse register)) holdings
  | released {register : Register} (held : (holdings register).isSome) :
      Answers allocatable holdings (.release register)
        (.ok none) (Function.update holdings register none)
  | unreleased {register : Register} (free : holdings register = none) :
      Answers allocatable holdings (.release register)
        (.error (.notAllocated register)) holdings
  | transferred {register : Register} {owner : Option NodeId}
      (held : (holdings register).isSome) :
      Answers allocatable holdings (.transfer register owner)
        (.ok none) (Function.update holdings register (some owner))
  | untransferred {register : Register} {owner : Option NodeId}
      (free : holdings register = none) :
      Answers allocatable holdings (.transfer register owner)
        (.error (.notAllocated register)) holdings
  | reset : Answers allocatable holdings .reset (.ok none) fun _ => none

end Holdings

namespace RegisterSet

variable {set : RegisterSet} {bank : Bank} {register : Register}

theorem pairwise_membersIn (set : RegisterSet) (bank : Bank) :
    (set.membersIn bank).Pairwise fun first second => first.number < second.number := by
  refine List.Pairwise.filter _ (List.pairwise_map.mpr ?_)
  exact List.pairwise_lt_range

/-- The lowest member has the least number of all. -/
theorem of_lowestIn (lowest : set.lowestIn? bank = some register) :
    register.bank = bank ∧ set.contains register ∧
      ∀ other : Register, other.bank = bank → set.contains other →
        register.number ≤ other.number := by
  obtain ⟨rest, listed⟩ := List.head?_eq_some_iff.mp lowest
  have member : register ∈ set.membersIn bank := by simp [listed]
  obtain ⟨own, contained⟩ := mem_membersIn.mp member
  refine ⟨own, contained, fun other otherOwn otherContained => ?_⟩
  have ascending := set.pairwise_membersIn bank
  have among := mem_membersIn.mpr ⟨otherOwn, otherContained⟩
  rw [listed] at ascending among
  rcases List.mem_cons.mp among with rfl | later
  · exact Nat.le_refl _
  · exact Nat.le_of_lt ((List.pairwise_cons.mp ascending).1 other later)

theorem lowestIn_eq_none :
    set.lowestIn? bank = none ↔
      ∀ register : Register, register.bank = bank → ¬set.contains register := by
  rw [lowestIn?, List.head?_eq_none_iff, List.eq_nil_iff_forall_not_mem]
  simp only [mem_membersIn, not_and]

theorem countIn_eq_ncard (set : RegisterSet) (bank : Bank) :
    set.countIn bank =
      {register : Register | register.bank = bank ∧ set.contains register}.ncard := by
  have members : {register : Register | register.bank = bank ∧ set.contains register} =
      ((set.membersIn bank).toFinset : Set Register) := by
    ext register
    simp [mem_membersIn]
  rw [members, Set.ncard_coe_finset, List.toFinset_card_of_nodup (nodup_membersIn ..), countIn]

end RegisterSet

namespace RegisterPool

variable {allocatable : RegisterSet} {pool later : RegisterPool} {register : Register}
variable {request : PoolRequest}

/-- What a pool does at a request, and the register that it hands out of its own choice. -/
def attempt (pool : RegisterPool) :
    PoolRequest → Except RegisterError (Option Register × RegisterPool)
  | .allocate bank owner hint excluded =>
    (pool.allocate bank owner hint excluded).map fun (register, later) => (some register, later)
  | .allocateExactly register owner => (pool.allocateExactly register owner).map (none, ·)
  | .release register => (pool.release register).map (none, ·)
  | .transfer register owner => (pool.transfer register owner).map (none, ·)
  | .reset => .ok (none, pool.reset)

/-- What a pool answers to a request. -/
def answer (pool : RegisterPool) (request : PoolRequest) :
    Except RegisterError (Option Register) := (pool.attempt request).map Prod.fst

/-- The pool after a request. -/
def after (pool : RegisterPool) (request : PoolRequest) : RegisterPool :=
  match pool.attempt request with
  | .ok (_, later) => later
  | .error _ => pool

/-- The pool after some requests. -/
def serveAll (pool : RegisterPool) (requests : List PoolRequest) : RegisterPool :=
  requests.foldl after pool

/-- Whether a pool hands a register out at a request. -/
def grants (pool : RegisterPool) (request : PoolRequest) : Bool :=
  request.allocates && (pool.answer request).toBool

/-- How many of some requests have a register handed out. -/
def granted (pool : RegisterPool) : List PoolRequest → Nat
  | [] => 0
  | request :: rest => (pool.grants request).toNat + (pool.after request).granted rest

/-- The registers that a pool has handed out. -/
def holdings (pool : RegisterPool) : Holdings := fun register =>
  if pool.isLive register then pool.owner? register else none

/-- What a request that is not refused does to a pool. -/
inductive Change (pool : RegisterPool) : PoolRequest → RegisterPool → Prop
  | assigned {request : PoolRequest} {register : Register} {owner : Option NodeId}
      (allocates : request.allocates) (allowed : pool.allocatable.contains register)
      (free : ¬pool.live.contains register) : Change pool request (pool.assign register owner)
  | released {register : Register} (live : pool.live.contains register) :
      Change pool (.release register)
        { pool with
          live := pool.live.erase register
          owners := pool.owners.setIfInBounds register.index none }
  | transferred {register : Register} {owner : Option NodeId}
      (live : pool.live.contains register) :
      Change pool (.transfer register owner)
        { pool with owners := pool.owners.setIfInBounds register.index owner }
  | reset : Change pool .reset pool.reset

theorem change_of_attempt {handed : Option Register}
    (served : pool.attempt request = .ok (handed, later)) : Change pool request later := by
  cases request with
  | allocate bank owner hint excluded =>
    simp only [attempt] at served
    cases allocated : pool.allocate bank owner hint excluded with
    | error cause => simp [allocated, Except.map] at served
    | ok result =>
      obtain ⟨register, given⟩ := result
      obtain ⟨-, allowed, free, rfl⟩ := of_allocate allocated
      simp only [allocated, Except.map, Except.ok.injEq, Prod.mk.injEq] at served
      exact served.2 ▸ .assigned rfl allowed free
  | allocateExactly register owner =>
    simp only [attempt, allocateExactly] at served
    split at served
    · cases served
    · rename_i allowed
      split at served
      · cases served
      · rename_i free
        cases served
        exact .assigned rfl (by simpa using allowed) free
  | release register =>
    simp only [attempt, release] at served
    split at served
    · rename_i live
      cases served
      exact .released live
    · cases served
  | transfer register owner =>
    simp only [attempt, transfer] at served
    split at served
    · rename_i live
      cases served
      exact .transferred live
    · cases served
  | reset =>
    cases served
    exact .reset

/-- A request is refused and changes nothing, or changes the pool and is not refused. -/
theorem refused_or_changed (pool : RegisterPool) (request : PoolRequest) :
    (∃ cause, pool.answer request = .error cause) ∧ pool.after request = pool ∨
      (∃ handed, pool.answer request = .ok handed) ∧
        Change pool request (pool.after request) := by
  cases served : pool.attempt request with
  | error cause =>
    exact .inl ⟨⟨cause, by rw [answer, served, Except.map]⟩, by rw [after, served]⟩
  | ok result =>
    refine .inr ⟨⟨result.1, by rw [answer, served, Except.map]⟩, ?_⟩
    rw [after, served]
    exact change_of_attempt served

/-- A pool with the given registers to hand out, whose records agree with what is live. -/
structure Orderly (allocatable : RegisterSet) (pool : RegisterPool) : Prop where
  allocatable : pool.allocatable = allocatable
  live : ∀ register, pool.live.contains register → pool.allocatable.contains register
  unowned : ∀ register, register.InBank → ¬pool.live.contains register →
    pool.owner? register = some none
  peaks : ∀ bank, pool.live.countIn bank ≤ pool.peaks.get bank

theorem orderly_new (allocatable : RegisterSet) : Orderly allocatable (new allocatable) where
  allocatable := rfl
  live register live := by simp [new] at live
  unowned register real _ := by simp [owner?, new, index_lt real]
  peaks bank := by simp [new, RegisterSet.countIn, RegisterSet.membersIn]

/-- A record other than the one that is written stays as it is. -/
theorem owner_of_setIfInBounds {owner : Option NodeId} {other : Register}
    (written : later.owners = pool.owners.setIfInBounds register.index owner)
    (real : register.InBank) (otherReal : other.InBank) :
    later.owner? other = if other = register then some owner else pool.owner? other := by
  by_cases same : other = register
  · subst same
    simp [owner?, written, index_lt real]
  · simpa [owner?, written, same] using
      owner_setIfInBounds real otherReal pool.owners same

/-- The peaks after a change, unless it is a reset, take account of the registers that are live
then. -/
theorem Change.peaks (change : Change pool request later) (unreset : request ≠ .reset)
    (counted : ∀ bank, pool.live.countIn bank ≤ pool.peaks.get bank) (bank : Bank) :
    later.peaks.get bank = max (later.live.countIn bank) (pool.peaks.get bank) := by
  cases change with
  | @assigned _ register owner _ allowed free =>
    by_cases own : bank = register.bank
    · subst own
      simp only [assign, PerBank.get_set, if_pos, Nat.max_comm]
    · have same := RegisterSet.countIn_add free
        (fun _ => live_assign pool (inBank_of_contains allowed) owner) bank
      rw [if_neg own, Nat.add_zero] at same
      rw [same, Nat.max_eq_right (counted bank)]
      simp only [assign, PerBank.get_set, if_neg own]
  | @released register live =>
    have fewer : (pool.live.erase register).countIn bank ≤ pool.live.countIn bank :=
      RegisterSet.countIn_le_of_subset
        (fun other => by simp +contextual [RegisterSet.contains_erase]) bank
    exact (Nat.max_eq_right (Nat.le_trans fewer (counted bank))).symm
  | transferred live => exact (Nat.max_eq_right (counted bank)).symm
  | reset => exact absurd rfl unreset

theorem Change.allocations (change : Change pool request later) (unreset : request ≠ .reset) :
    later.allocations = pool.allocations + request.allocates.toNat := by
  cases change with
  | assigned allocates => rw [allocates]; rfl
  | released => rfl
  | transferred => rfl
  | reset => exact absurd rfl unreset

theorem Orderly.change (orderly : Orderly allocatable pool)
    (change : Change pool request later) : Orderly allocatable later := by
  by_cases unreset : request = .reset
  · subst unreset
    cases change with
    | assigned allocates => cases allocates
    | reset => exact orderly.allocatable ▸ orderly_new _
  have peaks (bank : Bank) : later.live.countIn bank ≤ later.peaks.get bank := by
    rw [change.peaks unreset orderly.peaks]
    exact Nat.le_max_left ..
  cases change with
  | @assigned _ register owner _ allowed free =>
    have real := inBank_of_contains allowed
    refine ⟨orderly.allocatable, fun other live => ?_, fun other otherReal dead => ?_, peaks⟩
    · rcases (live_assign pool real owner).mp live with live | rfl
      · exact orderly.live other live
      · exact allowed
    · obtain ⟨dead, different⟩ := not_or.mp (mt (live_assign pool real owner).mpr dead)
      rw [owner_of_setIfInBounds rfl real otherReal, if_neg different]
      exact orderly.unowned other otherReal dead
  | @released register live =>
    have real := inBank_of_contains live
    refine ⟨orderly.allocatable, fun other live => ?_, fun other otherReal dead => ?_, peaks⟩
    · simp only [RegisterSet.contains_erase, Bool.and_eq_true] at live
      exact orderly.live other live.1
    · rw [owner_of_setIfInBounds rfl real otherReal]
      split
      · rfl
      · rename_i different
        refine orderly.unowned other otherReal fun live => dead ?_
        simp [RegisterSet.contains_erase, live, different]
  | @transferred register owner live =>
    have real := inBank_of_contains live
    refine ⟨orderly.allocatable, orderly.live, fun other otherReal dead => ?_, peaks⟩
    rw [owner_of_setIfInBounds rfl real otherReal, if_neg]
    · exact orderly.unowned other otherReal dead
    · rintro rfl
      exact dead live
  | reset => exact absurd rfl unreset

theorem orderly_after (orderly : Orderly allocatable pool) (request : PoolRequest) :
    Orderly allocatable (pool.after request) := by
  rcases refused_or_changed pool request with ⟨-, same⟩ | ⟨-, change⟩
  · rw [same]
    exact orderly
  · exact orderly.change change

theorem orderly_serveAll (orderly : Orderly allocatable pool) (requests : List PoolRequest) :
    Orderly allocatable (pool.serveAll requests) := by
  induction requests generalizing pool with
  | nil => exact orderly
  | cons request rest ih => exact ih (orderly_after orderly request)

theorem isSome_holdings : (pool.holdings register).isSome ↔ pool.live.contains register := by
  by_cases live : pool.live.contains register
  · simp [holdings, isLive, live, owner?, index_lt (inBank_of_contains live)]
  · simp [holdings, isLive, live]

theorem holdings_eq_none : pool.holdings register = none ↔ ¬pool.live.contains register := by
  rw [← isSome_holdings, Option.not_isSome_iff_eq_none]

/-- A request that concerns one register changes the map there. -/
theorem holdings_of_written {owner : Option NodeId}
    (written : later.owners = pool.owners.setIfInBounds register.index owner)
    (real : register.InBank)
    (others : ∀ other, other ≠ register →
      (later.live.contains other ↔ pool.live.contains other)) :
    later.holdings = Function.update pool.holdings register
      (if later.live.contains register then some owner else none) := by
  funext other
  by_cases same : other = register
  · subst same
    simp [holdings, isLive, owner_of_setIfInBounds written real real]
  · rw [Function.update_of_ne same]
    by_cases live : pool.live.contains other
    · have stays := (others other same).mpr live
      have record := owner_of_setIfInBounds written real (inBank_of_contains live)
      simp only [holdings, isLive, live, stays, if_true, record, if_neg same]
    · have still := mt (others other same).mp live
      simp only [holdings, isLive, live, still, if_false, Bool.false_eq_true]

theorem holdings_assign {owner : Option NodeId} (real : register.InBank) :
    (pool.assign register owner).holdings =
      Function.update pool.holdings register (some owner) := by
  have live : (pool.assign register owner).live.contains register :=
    (live_assign pool real owner).mpr (.inr rfl)
  have others : ∀ other, other ≠ register →
      ((pool.assign register owner).live.contains other ↔ pool.live.contains other) :=
    fun other different => by simp [live_assign pool real owner, different]
  rw [holdings_of_written rfl real others, if_pos live]

theorem holdings_release (live : pool.live.contains register) :
    holdings { pool with
      live := pool.live.erase register
      owners := pool.owners.setIfInBounds register.index none } =
      Function.update pool.holdings register none := by
  have erased : ¬(pool.live.erase register).contains register := by
    simp [RegisterSet.contains_erase]
  rw [holdings_of_written rfl (inBank_of_contains live) fun other different => by
    simp [RegisterSet.contains_erase, different], if_neg erased]

theorem holdings_transfer {owner : Option NodeId} (live : pool.live.contains register) :
    holdings { pool with owners := pool.owners.setIfInBounds register.index owner } =
      Function.update pool.holdings register (some owner) := by
  have changed := @holdings_of_written pool
    { pool with owners := pool.owners.setIfInBounds register.index owner } register owner rfl
    (inBank_of_contains live) fun _ _ => Iff.rfl
  rwa [if_pos live] at changed

theorem holdings_reset (pool : RegisterPool) : pool.reset.holdings = fun _ => none := by
  funext register
  exact holdings_eq_none.mpr (by simp [reset, new])

section Choice

variable {bank : Bank} {hint : Option Register} {excluded : RegisterSet}

theorem contains_offered (same : pool.allocatable = allocatable) :
    ((pool.freeIn bank).diff excluded).contains register ↔
      pool.holdings.Offers allocatable bank excluded register := by
  rw [RegisterSet.contains_diff, Bool.and_eq_true, contains_freeIn, Bool.not_eq_true',
    ← Bool.not_eq_true, ← holdings_eq_none, same]
  constructor
  · rintro ⟨⟨own, allowed, free⟩, included⟩
    exact ⟨own, allowed, free, included⟩
  · rintro ⟨own, allowed, free, included⟩
    exact ⟨⟨own, allowed, free⟩, included⟩

/-- A hint that is accepted is one that can be handed out. -/
theorem accepts_iff (same : pool.allocatable = allocatable) :
    (register.bank == bank && pool.isFree register && !excluded.contains register) = true ↔
      pool.holdings.Offers allocatable bank excluded register := by
  rw [← contains_offered same, RegisterSet.contains_diff, Bool.and_eq_true, Bool.and_eq_true,
    Bool.and_eq_true, contains_freeIn, isFree, beq_iff_eq, Bool.and_eq_true, Bool.not_eq_true',
    Bool.not_eq_true]

/-- The hint is chosen if it can be handed out, and the lowest register that can be otherwise. -/
theorem of_chosen (same : pool.allocatable = allocatable)
    (chosen : pool.choose? bank hint excluded = some register) :
    pool.holdings.Offers allocatable bank excluded register ∧
      (hint = some register ∨
        (∀ hinted ∈ hint, ¬pool.holdings.Offers allocatable bank excluded hinted) ∧
        ∀ other, pool.holdings.Offers allocatable bank excluded other →
          register.number ≤ other.number) := by
  simp only [choose?] at chosen
  split at chosen
  · rename_i hinted accepted
    cases chosen
    obtain ⟨given, accepts⟩ := Option.filter_eq_some_iff.mp accepted
    exact ⟨(accepts_iff same).mp accepts, .inl given⟩
  · rename_i refused
    obtain ⟨-, contained, least⟩ := RegisterSet.of_lowestIn chosen
    refine ⟨(contains_offered same).mp contained, .inr ⟨fun hinted given offered => ?_, ?_⟩⟩
    · exact Option.filter_eq_none_iff.mp refused hinted given ((accepts_iff same).mpr offered)
    · exact fun other offered => least other offered.own ((contains_offered same).mpr offered)

/-- None is chosen only if none can be handed out. -/
theorem of_unchosen (same : pool.allocatable = allocatable)
    (unchosen : pool.choose? bank hint excluded = none) (register : Register) :
    ¬pool.holdings.Offers allocatable bank excluded register := by
  intro offered
  simp only [choose?] at unchosen
  split at unchosen
  · cases unchosen
  · exact RegisterSet.lowestIn_eq_none.mp unchosen register offered.own
      ((contains_offered same).mpr offered)

end Choice

/-- A pool answers every request as the map of its holdings does. -/
theorem Orderly.answers (orderly : Orderly allocatable pool) (request : PoolRequest) :
    pool.holdings.Answers allocatable request (pool.answer request)
      (pool.after request).holdings := by
  have same := orderly.allocatable
  cases request with
  | allocate bank owner hint excluded =>
    cases chosen : pool.choose? bank hint excluded with
    | none =>
      have refused : pool.attempt (.allocate bank owner hint excluded) =
          .error (.noneAvailable bank) := by
        simp only [attempt, allocate, chosen, Except.map]
      rw [answer, after, refused]
      exact .exhausted (of_unchosen same chosen)
    | some register =>
      have served : pool.attempt (.allocate bank owner hint excluded) =
          .ok (some register, pool.assign register owner) := by
        simp only [attempt, allocate, chosen, Except.map]
      obtain ⟨offered, given | ⟨passed, least⟩⟩ := of_chosen same chosen
      · subst given
        rw [answer, after, served, holdings_assign (inBank_of_contains offered.allowed)]
        exact .hinted offered
      · rw [answer, after, served, holdings_assign (inBank_of_contains offered.allowed)]
        exact .lowest passed offered least
  | allocateExactly register owner =>
    by_cases allowed : pool.allocatable.contains register
    · by_cases live : pool.live.contains register
      · have refused : pool.attempt (.allocateExactly register owner) =
            .error (.inUse register) := by
          simp [attempt, allocateExactly, allowed, live, Except.map]
        rw [answer, after, refused]
        exact .taken (same ▸ allowed) (isSome_holdings.mpr live)
      · have served : pool.attempt (.allocateExactly register owner) =
            .ok (none, pool.assign register owner) := by
          simp [attempt, allocateExactly, allowed, live, Except.map]
        rw [answer, after, served, holdings_assign (inBank_of_contains allowed)]
        exact .granted (same ▸ allowed) (holdings_eq_none.mpr live)
    · have refused : pool.attempt (.allocateExactly register owner) =
          .error (.notAllocatable register) := by
        simp [attempt, allocateExactly, allowed, Except.map]
      rw [answer, after, refused]
      exact .forbidden (same ▸ allowed)
  | release register =>
    by_cases live : pool.live.contains register
    · have served : pool.attempt (.release register) =
          .ok (none, { pool with
            live := pool.live.erase register
            owners := pool.owners.setIfInBounds register.index none }) := by
        simp only [attempt, release, if_pos live, Except.map]
      rw [answer, after, served, holdings_release live]
      exact .released (isSome_holdings.mpr live)
    · have refused : pool.attempt (.release register) = .error (.notAllocated register) := by
        simp only [attempt, release, if_neg live, Except.map]
      rw [answer, after, refused]
      exact .unreleased (holdings_eq_none.mpr live)
  | transfer register owner =>
    by_cases live : pool.live.contains register
    · have served : pool.attempt (.transfer register owner) =
          .ok (none, { pool with
            owners := pool.owners.setIfInBounds register.index owner }) := by
        simp only [attempt, transfer, if_pos live, Except.map]
      rw [answer, after, served, holdings_transfer live]
      exact .transferred (isSome_holdings.mpr live)
    · have refused : pool.attempt (.transfer register owner) =
          .error (.notAllocated register) := by
        simp only [attempt, transfer, if_neg live, Except.map]
      rw [answer, after, refused]
      exact .untransferred (holdings_eq_none.mpr live)
  | reset =>
    have served : pool.attempt .reset = .ok (none, pool.reset) := rfl
    rw [answer, after, served, holdings_reset]
    exact .reset

/-! ## What is counted -/

theorem after_reset (pool : RegisterPool) : pool.after .reset = new pool.allocatable := rfl

theorem serveAll_concat (pool : RegisterPool) (earlier : List PoolRequest)
    (request : PoolRequest) :
    pool.serveAll (earlier ++ [request]) = (pool.serveAll earlier).after request := by
  rw [serveAll, List.foldl_append]
  rfl

/-- A reset makes a pool as good as new. -/
theorem serveAll_settled (allocatable : RegisterSet) (requests : List PoolRequest) :
    (new allocatable).serveAll (PoolRequest.settled requests) = new allocatable := by
  by_cases none : PoolRequest.settled requests = []
  · rw [none]
    rfl
  · have closes : (PoolRequest.settled requests).getLast none = .reset := by
      by_contra other
      exact List.rdropWhile_last_not (· ≠ PoolRequest.reset) requests none (decide_eq_true other)
    have orderly := orderly_serveAll (orderly_new allocatable)
      (PoolRequest.settled requests).dropLast
    rw [← List.dropLast_append_getLast none, closes, serveAll_concat, after_reset,
      orderly.allocatable]

theorem granted_append (pool : RegisterPool) (first second : List PoolRequest) :
    pool.granted (first ++ second) =
      pool.granted first + (pool.serveAll first).granted second := by
  induction first generalizing pool with
  | nil => simp [granted, serveAll]
  | cons request rest ih =>
    rw [List.cons_append, granted, granted, ih, Nat.add_assoc]
    rfl

/-- A pool counts the registers that it hands out. -/
theorem allocations_after (pool : RegisterPool) (unreset : request ≠ .reset) :
    (pool.after request).allocations = pool.allocations + (pool.grants request).toNat := by
  rcases refused_or_changed pool request with ⟨⟨cause, refused⟩, same⟩ | ⟨⟨handed, served⟩, change⟩
  · simp [same, grants, refused, Except.toBool]
  · rw [change.allocations unreset]
    simp [grants, served, Except.toBool]

theorem peaks_after (orderly : Orderly allocatable pool) (unreset : request ≠ .reset)
    (bank : Bank) :
    (pool.after request).peaks.get bank =
      max ((pool.after request).live.countIn bank) (pool.peaks.get bank) := by
  rcases refused_or_changed pool request with ⟨-, same⟩ | ⟨-, change⟩
  · rw [same, Nat.max_eq_right (orderly.peaks bank)]
  · exact change.peaks unreset orderly.peaks bank

theorem countIn_live (pool : RegisterPool) (bank : Bank) :
    pool.live.countIn bank = (pool.holdings.heldIn bank).ncard := by
  simp only [RegisterSet.countIn_eq_ncard, Holdings.heldIn, isSome_holdings]

/-- How many registers of a bank are handed out at first and after each of some requests. -/
def levels (pool : RegisterPool) (requests : List PoolRequest) (bank : Bank) : Set Nat :=
  {number | ∃ early, early <+: requests ∧
    number = ((pool.serveAll early).holdings.heldIn bank).ncard}

theorem levels_nil (pool : RegisterPool) (bank : Bank) :
    pool.levels [] bank = {(pool.holdings.heldIn bank).ncard} := by
  ext number
  simp [levels, serveAll]

theorem levels_concat (pool : RegisterPool) (earlier : List PoolRequest) (request : PoolRequest)
    (bank : Bank) :
    pool.levels (earlier ++ [request]) bank =
      insert (((pool.serveAll earlier).after request).holdings.heldIn bank).ncard
        (pool.levels earlier bank) := by
  ext number
  simp only [levels, List.prefix_concat_iff, ← serveAll_concat, Set.mem_ofPred_eq,
    Set.mem_insert_iff]
  constructor
  · rintro ⟨early, rfl | shorter, rfl⟩
    · exact .inl rfl
    · exact .inr ⟨early, shorter, rfl⟩
  · rintro (rfl | ⟨early, shorter, rfl⟩)
    · exact ⟨_, .inl rfl, rfl⟩
    · exact ⟨early, .inr shorter, rfl⟩

/-- A pool that is never reset has had as many registers of a bank handed out at once as its peak
says, and no more, and has handed out as many as it counts. -/
theorem counts_of_unreset (allocatable : RegisterSet) (requests : List PoolRequest)
    (unreset : .reset ∉ requests) :
    (∀ bank, IsGreatest ((new allocatable).levels requests bank)
      (((new allocatable).serveAll requests).peaks.get bank)) ∧
    ((new allocatable).serveAll requests).allocations = (new allocatable).granted requests := by
  induction requests using List.reverseRecOn with
  | nil =>
    refine ⟨fun bank => ?_, rfl⟩
    have unused : (new allocatable).live.countIn bank = 0 := by
      simp [new, RegisterSet.countIn, RegisterSet.membersIn]
    have peak : ((new allocatable).serveAll []).peaks.get bank = 0 := PerBank.get_both ..
    rw [levels_nil, ← countIn_live, unused, peak]
    exact isGreatest_singleton
  | append_singleton earlier request ih =>
    simp only [List.mem_append, List.mem_singleton, not_or] at unreset
    obtain ⟨peaks, allocations⟩ := ih unreset.1
    have last := Ne.symm unreset.2
    have orderly := orderly_serveAll (orderly_new allocatable) earlier
    rw [serveAll_concat]
    refine ⟨fun bank => ?_, ?_⟩
    · rw [levels_concat, ← countIn_live, peaks_after orderly last bank]
      exact (peaks bank).insert _
    · rw [allocations_after _ last, allocations, granted_append]
      rfl

/-- A pool is a map from registers to their owners, whatever is asked of it. Any request is
answered as the map says, and one that is refused changes nothing; only registers that may be
handed out are live, and a register of the machine has an owner only if it is live and the map
gives it one; what is live and what is free of a bank is all of it that may be handed out; and
since the last reset the peaks are the most registers that were live at once, and the allocations
are the requests that had one handed out. -/
theorem refines_holdings (allocatable : RegisterSet) (requests : List PoolRequest) :
    let pool := (new allocatable).serveAll requests
    (new allocatable).holdings = (fun _ => none) ∧
    (∀ request, pool.holdings.Answers allocatable request (pool.answer request)
      (pool.after request).holdings) ∧
    (∀ request cause, pool.answer request = .error cause → pool.after request = pool) ∧
    (∀ register, pool.isLive register = (pool.holdings register).isSome) ∧
    (∀ register, pool.isLive register → allocatable.contains register) ∧
    (∀ register, register.InBank →
      pool.owner? register = some (pool.holdings register).join) ∧
    (∀ bank, pool.live.countIn bank = (pool.holdings.heldIn bank).ncard ∧
      pool.live.countIn bank + pool.freeCount bank = allocatable.countIn bank) ∧
    (∀ bank, IsGreatest
      (((new allocatable).serveAll (PoolRequest.settled requests)).levels
        (PoolRequest.recent requests) bank)
      (pool.peaks.get bank)) ∧
    pool.allocations = ((new allocatable).serveAll (PoolRequest.settled requests)).granted
      (PoolRequest.recent requests) := by
  intro pool
  have orderly : Orderly allocatable pool := orderly_serveAll (orderly_new allocatable) requests
  have resumed : pool = (new allocatable).serveAll (PoolRequest.recent requests) := by
    have whole : pool = ((new allocatable).serveAll (PoolRequest.settled requests)).serveAll
        (PoolRequest.recent requests) := by
      rw [serveAll, serveAll, ← List.foldl_append, PoolRequest.settled_append_recent]
      rfl
    rw [whole, serveAll_settled]
  obtain ⟨peaks, allocations⟩ := counts_of_unreset allocatable (PoolRequest.recent requests)
    (PoolRequest.reset_notMem_recent requests)
  rw [← resumed] at peaks allocations
  rw [serveAll_settled]
  refine ⟨holdings_reset (new allocatable), orderly.answers, fun request cause refused => ?_,
    fun register => ?_, fun register live => ?_, fun register real => ?_,
    fun bank => ⟨countIn_live pool bank, ?_⟩, peaks, allocations⟩
  · rcases refused_or_changed pool request with ⟨-, same⟩ | ⟨⟨handed, served⟩, -⟩
    · exact same
    · rw [served] at refused
      cases refused
  · exact Bool.eq_iff_iff.mpr isSome_holdings.symm
  · exact orderly.allocatable ▸ orderly.live register live
  · by_cases live : pool.live.contains register
    · simp [holdings, isLive, live, owner?, index_lt real]
    · rw [holdings_eq_none.mpr live]
      exact orderly.unowned register real live
  · rw [← orderly.allocatable]
    exact live_add_free orderly.live bank

/-- A number past the end of the general-purpose bank shares its record with a register of the
other bank, and has the owner of that one without being live. -/
theorem refines_holdings_past_bank :
    let pool := (new (.ofList [.xmm 4])).serveAll [.allocateExactly (.xmm 4) (some 7)]
    pool.isLive (.gp 20) = false ∧ pool.owner? (.gp 20) = some (some 7) := by
  decide

end RegisterPool

end NativeExpr
