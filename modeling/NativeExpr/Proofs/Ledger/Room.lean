import Mathlib.Algebra.Order.BigOperators.Group.List
import Mathlib.Algebra.Order.Group.Nat
import NativeExpr.Proofs.Ledger.Basic
import NativeExpr.Proofs.Tree

/-!
# Generation with more room

With more room other values are parked, and what is parked leaves other registers and slots for what
comes later, so two runs of the same generation soon hold their values in different places. What
relates them is that the run with more room never has fewer free registers, and that the slots it
has spent beyond those of the other run are spent on values that the other one keeps in registers.
Such a value is parked only when the tight run has no slot left to park it itself, and it is given
back before that run has a slot again.
-/

namespace NativeExpr

/-- How a value is held by a tight run and by a roomy one: in the same way, or parked by the roomy
run while the tight one keeps it in a register, or in a slot of the tight run while the roomy one
has a register for it. -/
inductive Twin where
  | same (holding : Holding)
  | parked (bank : Bank)
  | spared (bank : Bank)

namespace Twin

/-- How the tight run holds the value. -/
def tight : Twin → Holding
  | .same holding => holding
  | .parked bank => .register bank
  | .spared _ => .slot

/-- How the roomy run holds the value. -/
def roomy : Twin → Holding
  | .same holding => holding
  | .parked _ => .slot
  | .spared bank => .register bank

/-- Whether the roomy run has parked the value and the tight one has not. -/
def isParked : Twin → Bool
  | .parked _ => true
  | _ => false

/-- The registers of a bank that the tight run spends on the value and the roomy one does not. -/
def lent (bank : Bank) : Twin → Nat
  | .parked own => (Holding.register own).registers bank
  | _ => 0

/-- Whether a register that holds the value in either run is of a bank. -/
def In (bank : Bank) : Twin → Prop
  | .same (.register own) | .parked own | .spared own => own = bank
  | .same _ => True

variable {twin : Twin}

theorem lent_of_fresh (fresh : twin.isParked = false) (bank : Bank) : twin.lent bank = 0 := by
  cases twin with
  | same holding | spared own => rfl
  | parked own => cases fresh

theorem slots_le_of_fresh (fresh : twin.isParked = false) :
    twin.roomy.slots ≤ twin.tight.slots := by
  cases twin with
  | same holding => exact Nat.le_refl _
  | parked own => cases fresh
  | spared own => exact Nat.zero_le _

theorem sum_lent_of_fresh {held : List Twin} (fresh : ∀ twin ∈ held, twin.isParked = false)
    (bank : Bank) : (held.map (lent bank)).sum = 0 := by
  refine List.sum_eq_zero fun count listed => ?_
  obtain ⟨twin, member, rfl⟩ := List.mem_map.mp listed
  exact lent_of_fresh (fresh twin member) bank

end Twin

namespace Ledger

/-- Whether a roomy run has no less left than a tight one, given how both hold the values that are
still needed. -/
structure Ahead (held : List Twin) (tight roomy : Ledger) : Prop where
  free : ∀ bank, tight.free bank + (held.map (Twin.lent bank)).sum ≤ roomy.free bank
  slots : tight.slots + (held.map fun twin => twin.tight.slots).sum ≤
    roomy.slots + (held.map fun twin => twin.roomy.slots).sum
  kept : tight.kept = roomy.kept

/-- Whether the roomy run has parked no more than the tight one, unless that has no slots left. -/
def Frugal (held : List Twin) (tight : Ledger) : Prop :=
  tight.slots = 0 ∨ ∀ twin ∈ held, twin.isParked = false

/-- A value that a step has found in both runs, no slot having been given back that was not taken
by the step. -/
structure Found (held : List Twin) (bank : Bank) (twin : Twin) (before after later : Ledger) :
    Prop where
  inBank : twin.In bank
  fresh : twin.isParked = false
  ahead : Ahead (twin :: held) after later
  slots : after.slots + twin.tight.slots ≤ before.slots

/-- Whether a step that finds room for its value also finds it in a roomier run. -/
def Scales (bank : Bank) (step : Step Holding) : Prop :=
  ∀ ⦃held tight roomy found after⦄, Ahead held tight roomy → Frugal held tight →
    step tight = .ok found after → ∃ twin later, found = twin.tight ∧
      step roomy = .ok twin.roomy later ∧ Found held bank twin tight after later

variable {held others : List Twin} {twin : Twin} {tight roomy after later : Ledger} {bank : Bank}

namespace Frugal

/-- Slots that are taken do no harm. -/
theorem mono (frugal : Frugal held tight) (fewer : after.slots ≤ tight.slots) :
    Frugal held after := by
  rcases frugal with none | fresh
  · exact .inl (Nat.le_zero.mp (none ▸ fewer))
  · exact .inr fresh

theorem cons (frugal : Frugal held tight) (fresh : twin.isParked = false) :
    Frugal (twin :: held) tight :=
  frugal.imp_right fun others => List.forall_mem_cons.mpr ⟨fresh, others⟩

theorem tail (frugal : Frugal (twin :: held) tight) : Frugal held tight :=
  frugal.imp_right fun fresh other listed => fresh other (List.mem_cons_of_mem _ listed)

theorem perm (frugal : Frugal held tight) (same : held.Perm others) : Frugal others tight :=
  frugal.imp_right fun fresh twin listed => fresh twin (same.mem_iff.mpr listed)

end Frugal

theorem Found.frugal (found : Found held bank twin tight after later) (frugal : Frugal held tight) :
    Frugal (twin :: held) after :=
  (frugal.mono (Nat.le_of_add_right_le found.slots)).cons found.fresh

namespace Ahead

theorem perm (ahead : Ahead held tight roomy) (same : held.Perm others) :
    Ahead others tight roomy where
  free bank := (same.map (Twin.lent bank)).sum_eq ▸ ahead.free bank
  slots := by
    rw [← (same.map fun twin => twin.tight.slots).sum_eq,
      ← (same.map fun twin => twin.roomy.slots).sum_eq]
    exact ahead.slots
  kept := ahead.kept

/-- As long as the tight run has slots, so has the roomy one. -/
theorem slots_le (ahead : Ahead held tight roomy) (frugal : Frugal held tight) :
    tight.slots ≤ roomy.slots := by
  rcases frugal with none | fresh
  · rw [none]
    exact Nat.zero_le _
  · have spent := List.sum_le_sum fun twin listed => Twin.slots_le_of_fresh (fresh twin listed)
    have slots := ahead.slots
    omega

theorem free_le (ahead : Ahead held tight roomy) (bank : Bank) : tight.free bank ≤ roomy.free bank :=
  Nat.le_of_add_right_le (ahead.free bank)

/-- A value that holds nothing makes no difference. -/
theorem nothing (ahead : Ahead held tight roomy) :
    Ahead (.same .nothing :: held) tight roomy where
  free bank := by
    rw [List.map_cons, List.sum_cons]
    exact (Nat.zero_add _).symm ▸ ahead.free bank
  slots := by
    rw [List.map_cons, List.sum_cons, List.map_cons, List.sum_cons]
    exact (Nat.zero_add _).symm ▸ (Nat.zero_add _).symm ▸ ahead.slots
  kept := ahead.kept

/-- A value is held in another way, and both runs spend on it what they have got back. -/
theorem exchange {other : Twin} {tightAfter roomyAfter : Ledger}
    (ahead : Ahead (twin :: held) tight roomy)
    (free : ∀ bank, tightAfter.free bank + other.lent bank + roomy.free bank ≤
      tight.free bank + twin.lent bank + roomyAfter.free bank)
    (slots : tightAfter.slots + other.tight.slots + (roomy.slots + twin.roomy.slots) ≤
      tight.slots + twin.tight.slots + (roomyAfter.slots + other.roomy.slots))
    (kept : tightAfter.kept = roomyAfter.kept) : Ahead (other :: held) tightAfter roomyAfter where
  free bank := by
    have before := ahead.free bank
    have change := free bank
    simp only [List.map_cons, List.sum_cons] at before ⊢
    omega
  slots := by
    have before := ahead.slots
    simp only [List.map_cons, List.sum_cons] at before ⊢
    omega
  kept := kept

/-- The same if nothing is lent: then registers may also be left to one run only. -/
theorem exchange_of_fresh {other : Twin} {tightAfter roomyAfter : Ledger}
    (ahead : Ahead (twin :: held) tight roomy) (fresh : ∀ twin ∈ held, twin.isParked = false)
    (free : ∀ bank, tightAfter.free bank + other.lent bank ≤ roomyAfter.free bank)
    (slots : tightAfter.slots + other.tight.slots + (roomy.slots + twin.roomy.slots) ≤
      tight.slots + twin.tight.slots + (roomyAfter.slots + other.roomy.slots))
    (kept : tightAfter.kept = roomyAfter.kept) : Ahead (other :: held) tightAfter roomyAfter where
  free bank := by
    rw [List.map_cons, List.sum_cons, Twin.sum_lent_of_fresh fresh bank]
    exact free bank
  slots := by
    have before := ahead.slots
    simp only [List.map_cons, List.sum_cons] at before ⊢
    omega
  kept := kept

/-- What is no longer needed is given back. -/
theorem giveBack (ahead : Ahead (twin :: held) tight roomy) :
    Ahead held (tight.refund twin.tight) (roomy.refund twin.roomy) where
  free bank := by
    have free := ahead.free bank
    simp only [List.map_cons, List.sum_cons] at free
    simp only [free_refund]
    cases twin with
    | same holding =>
      simp only [Twin.lent, Twin.tight, Twin.roomy] at free ⊢
      omega
    | parked own =>
      simp only [Twin.lent, Twin.tight] at free ⊢
      omega
    | spared own =>
      simp only [Twin.lent, Twin.tight, Holding.registers] at free ⊢
      omega
  slots := by
    have slots := ahead.slots
    simp only [List.map_cons, List.sum_cons] at slots
    simp only [slots_refund]
    omega
  kept := by
    simp only [kept_refund]
    exact ahead.kept

theorem giveBackAll {twins : List Twin} (ahead : Ahead (twins ++ held) tight roomy) :
    Ahead held ((twins.map Twin.tight).foldl refund tight)
      ((twins.map Twin.roomy).foldl refund roomy) := by
  induction twins generalizing tight roomy with
  | nil => exact ahead
  | cons twin rest ih => exact ih ahead.giveBack

/-- What is kept for good is given up by both runs. -/
theorem keep (ahead : Ahead (twin :: held) tight roomy) (fresh : twin.isParked = false)
    (id : NodeId) : Ahead held { tight with kept := Function.update tight.kept id true }
      { roomy with kept := Function.update roomy.kept id true } where
  free bank := by
    have free := ahead.free bank
    simp only [List.map_cons, List.sum_cons] at free
    simp only
    omega
  slots := by
    have slots := ahead.slots
    have fewer := Twin.slots_le_of_fresh fresh
    simp only [List.map_cons, List.sum_cons] at slots
    simp only
    omega
  kept := congrArg (Function.update · id true) ahead.kept

/-- Statistics are not compared. -/
theorem count (ahead : Ahead held tight roomy) (first second : Statistics) :
    Ahead held { tight with statistics := first } { roomy with statistics := second } :=
  ⟨ahead.free, ahead.slots, ahead.kept⟩

/-- If the tight run finds a register for a value, so does the roomy one. -/
theorem withdraw (ahead : Ahead held tight roomy) (free : 0 < tight.free bank) :
    Ahead (.same (.register bank) :: held) (tight.withdraw bank) (roomy.withdraw bank) := by
  refine ahead.nothing.exchange (fun other => ?_) (Nat.le_refl _) ahead.kept
  have first := free_withdraw free other
  have second := free_withdraw (Nat.lt_of_lt_of_le free (ahead.free_le bank)) other
  simp only [Twin.lent]
  omega

/-- Both runs find a slot for a value. -/
theorem takeSlot (ahead : Ahead held tight roomy) (left : 0 < tight.slots)
    (leftToo : 0 < roomy.slots) : Ahead (.same .slot :: held)
      { tight with slots := tight.slots - 1 } { roomy with slots := roomy.slots - 1 } := by
  refine ahead.nothing.exchange (fun bank => Nat.le_refl _) ?_ ahead.kept
  simp only [Twin.tight, Twin.roomy, Holding.slots]
  omega

/-- The tight run finds a slot for a value, having no register, and the roomy one a register. -/
theorem takeSpare (ahead : Ahead held tight roomy) (left : 0 < tight.slots)
    (fresh : ∀ twin ∈ held, twin.isParked = false) (none : tight.free bank = 0)
    (free : 0 < roomy.free bank) : Ahead (.spared bank :: held)
      { tight with slots := tight.slots - 1 } (roomy.withdraw bank) := by
  refine ahead.nothing.exchange_of_fresh fresh (fun other => ?_) ?_ ahead.kept
  · have before := ahead.free_le other
    have taken := free_withdraw free other
    simp only [Twin.lent]
    by_cases here : bank = other
    · rw [← here, none]
      exact Nat.zero_le _
    · simp only [Holding.registers, if_neg here] at taken
      omega
  · simp only [Twin.tight, Twin.roomy, Holding.slots, slots_withdraw]
    omega

/-- A value that the tight run has in a register, or finds one for, is brought into a register by
the roomy run as well. -/
theorem materialize (ahead : Ahead (twin :: held) tight roomy) (inBank : twin.In bank)
    {activity : String} {target : Bank}
    (done : Ledger.materialize twin.tight bank activity tight = .ok target after) :
    ∃ later, target = bank ∧ Ledger.materialize twin.roomy bank activity roomy = .ok bank later ∧
      Ahead (.same (.register bank) :: held) after later ∧
      after.slots = tight.slots + twin.tight.slots := by
  cases twin with
  | same holding =>
    cases holding with
    | register own =>
      obtain rfl : own = bank := inBank
      cases done
      exact ⟨roomy, rfl, rfl, ahead, rfl⟩
    | nothing | slot =>
      simp only [Twin.tight, Twin.roomy] at done ⊢
      obtain ⟨free, rfl, rfl⟩ := of_materialize (by nofun) done
      have roomier := Nat.lt_of_lt_of_le free (ahead.free_le _)
      exact ⟨_, rfl, materialize_ok (by nofun) roomier activity,
        ((ahead.withdraw free).perm (.swap ..)).giveBack, slots_refund ..⟩
  | parked own =>
    obtain rfl : own = bank := inBank
    cases done
    simp only [Twin.tight, Twin.roomy]
    have left : 0 < roomy.free target := by
      have free := ahead.free target
      simp only [List.map_cons, List.sum_cons, Twin.lent, Holding.registers, if_true] at free
      omega
    refine ⟨_, trivial, materialize_ok (by nofun) left activity, ?_, rfl⟩
    refine ahead.exchange (fun other => ?_) (Nat.le_of_eq ?_) ahead.kept
    · have taken := free_withdraw left other
      simp only [Twin.lent, free_refund]
      omega
    · simp only [Twin.tight, Twin.roomy, Holding.slots, slots_refund, slots_withdraw]
  | spared own =>
    obtain rfl : own = bank := inBank
    simp only [Twin.tight, Twin.roomy] at done ⊢
    obtain ⟨left, rfl, rfl⟩ := of_materialize (by nofun) done
    refine ⟨roomy, rfl, rfl, ?_, slots_refund ..⟩
    refine ahead.exchange (fun other => ?_) (Nat.le_of_eq ?_) ahead.kept
    · have taken := free_withdraw left other
      simp only [Twin.lent, Holding.registers, free_refund]
      omega
    · simp only [Twin.tight, Twin.roomy, Holding.slots, slots_refund, slots_withdraw]

/-! A value may be parked by both runs or by one of them. -/

theorem parkBoth {own : Bank} (ahead : Ahead (.same (.register own) :: held) tight roomy)
    (left : 0 < tight.slots) (leftToo : 0 < roomy.slots) :
    Ahead (.same .slot :: held) (tight.parked own) (roomy.parked own) := by
  refine ahead.exchange (fun bank => ?_) ?_ ahead.kept
  · simp only [Twin.lent, free_parked]
    omega
  · simp only [Twin.tight, Twin.roomy, Holding.slots, slots_parked]
    omega

theorem parkTight {own : Bank} (ahead : Ahead (.same (.register own) :: held) tight roomy)
    (left : 0 < tight.slots) (fresh : ∀ twin ∈ held, twin.isParked = false)
    (more : tight.free own < roomy.free own) :
    Ahead (.spared own :: held) (tight.parked own) roomy := by
  refine ahead.exchange_of_fresh fresh (fun bank => ?_) ?_ ahead.kept
  · have free := ahead.free_le bank
    simp only [Twin.lent, free_parked, Holding.registers]
    by_cases here : own = bank
    · rw [if_pos here, ← here]
      exact Nat.succ_le_of_lt more
    · rw [if_neg here]
      exact free
  · simp only [Twin.tight, Twin.roomy, Holding.slots, slots_parked]
    omega

theorem parkRoomy {own : Bank} (ahead : Ahead (.same (.register own) :: held) tight roomy)
    (left : 0 < roomy.slots) : Ahead (.parked own :: held) tight (roomy.parked own) := by
  refine ahead.exchange (fun bank => ?_) ?_ ahead.kept
  · simp only [Twin.lent, free_parked]
    omega
  · simp only [Twin.tight, Twin.roomy, Holding.slots, slots_parked]
    omega

theorem parkSpared {own : Bank} (ahead : Ahead (.spared own :: held) tight roomy)
    (left : 0 < roomy.slots) : Ahead (.same .slot :: held) tight (roomy.parked own) := by
  refine ahead.exchange (fun bank => ?_) ?_ ahead.kept
  · simp only [Twin.lent, free_parked]
    omega
  · simp only [Twin.tight, Twin.roomy, Holding.slots, slots_parked]
    omega

/-- What the runs park, they park for the same need. The tight run, which has fewer free registers,
parks a value that the roomy one does not if only that one has enough of them, and keeps a value
that the roomy one parks if it has no slot. -/
theorem parkUnderPressure (ahead : Ahead (twin :: held) tight roomy) (frugal : Frugal held tight)
    (fresh : twin.isParked = false) (inBank : twin.In bank) {needed : Nat} {other : Bank}
    {found : Holding}
    (done : Ledger.parkUnderPressure twin.tight needed other tight = .ok found after) :
    ∃ settled later, found = settled.tight ∧
      Ledger.parkUnderPressure twin.roomy needed other roomy = .ok settled.roomy later ∧
      settled.In bank ∧ Ahead (settled :: held) after later ∧ Frugal (settled :: held) after ∧
      after.slots + settled.tight.slots ≤ tight.slots + twin.tight.slots := by
  have frugalHere := frugal.cons fresh
  have slots := ahead.slots_le frugalHere
  have free := ahead.free_le other
  cases twin with
  | parked own => cases fresh
  | same holding =>
    cases holding with
    | nothing | slot =>
      cases done
      exact ⟨_, _, rfl, rfl, inBank, ahead, frugalHere, Nat.le_refl _⟩
    | register own =>
      simp only [Twin.tight, Twin.roomy, parkUnderPressure_register] at done ⊢
      by_cases parks : (own = other ∧ tight.free other < needed) ∧ 0 < tight.slots
      · rw [if_pos parks] at done
        cases done
        obtain ⟨⟨rfl, pressed⟩, left⟩ := parks
        have others := frugal.resolve_left (Nat.ne_of_gt left)
        have taken : (tight.parked own).slots + 1 ≤ tight.slots :=
          Nat.le_of_eq (Nat.sub_add_cancel left)
        by_cases pressedToo : roomy.free own < needed
        · rw [if_pos ⟨⟨rfl, pressedToo⟩, Nat.lt_of_lt_of_le left slots⟩]
          exact ⟨.same .slot, _, rfl, rfl, trivial,
            ahead.parkBoth left (Nat.lt_of_lt_of_le left slots),
            .inr (List.forall_mem_cons.mpr ⟨rfl, others⟩), taken⟩
        · rw [if_neg fun parks => pressedToo parks.1.2]
          exact ⟨.spared own, _, rfl, rfl, inBank, ahead.parkTight left others
            (Nat.lt_of_lt_of_le pressed (Nat.not_lt.mp pressedToo)),
            .inr (List.forall_mem_cons.mpr ⟨rfl, others⟩), taken⟩
      · rw [if_neg parks] at done
        cases done
        by_cases parksToo : (own = other ∧ roomy.free other < needed) ∧ 0 < roomy.slots
        · rw [if_pos parksToo]
          obtain ⟨⟨rfl, pressed⟩, left⟩ := parksToo
          have none : tight.slots = 0 := by
            by_contra some
            exact parks ⟨⟨rfl, Nat.lt_of_le_of_lt free pressed⟩, Nat.pos_of_ne_zero some⟩
          exact ⟨.parked own, _, rfl, rfl, inBank, ahead.parkRoomy left, .inl none,
            Nat.le_refl _⟩
        · rw [if_neg parksToo]
          exact ⟨.same (.register own), _, rfl, rfl, inBank, ahead, frugalHere, Nat.le_refl _⟩
  | spared own =>
    cases done
    simp only [Twin.roomy, parkUnderPressure_register]
    by_cases parks : (own = other ∧ roomy.free other < needed) ∧ 0 < roomy.slots
    · rw [if_pos parks]
      exact ⟨.same .slot, _, rfl, rfl, trivial, ahead.parkSpared parks.2, frugal.cons rfl,
        Nat.le_refl _⟩
    · rw [if_neg parks]
      exact ⟨.spared own, _, rfl, rfl, inBank, ahead, frugalHere, Nat.le_refl _⟩

variable {tree : Tree} {labels : NodeId → Nat} {visit : Visit}

/-- A value is found in both runs, parked by them or not, and then another one is found. -/
theorem inOrder {first second : NodeId} {firstBank secondBank pressed : Bank} {needed : Nat}
    {found settled last : Holding} {between middle : Ledger}
    (firstScales : Scales firstBank (visit first)) (secondScales : Scales secondBank (visit second))
    (ahead : Ahead held tight roomy) (frugal : Frugal held tight)
    (visited : visit first tight = .ok found between)
    (parks : Ledger.parkUnderPressure found needed pressed between = .ok settled middle)
    (visitedLast : visit second middle = .ok last after) :
    ∃ one two value between middle later, settled = one.tight ∧ last = two.tight ∧
      visit first roomy = .ok value between ∧
      Ledger.parkUnderPressure value needed pressed between = .ok one.roomy middle ∧
      visit second middle = .ok two.roomy later ∧ one.In firstBank ∧ two.In secondBank ∧
      Ahead (two :: one :: held) after later ∧
      after.slots + one.tight.slots + two.tight.slots ≤ tight.slots := by
  obtain ⟨twin, _, rfl, again, foundFirst⟩ := firstScales ahead frugal visited
  obtain ⟨one, _, rfl, parksToo, inBank, ahead, frugal, slots⟩ :=
    foundFirst.ahead.parkUnderPressure (foundFirst.frugal frugal).tail foundFirst.fresh
      foundFirst.inBank parks
  obtain ⟨two, _, rfl, againLast, foundLast⟩ := secondScales ahead frugal visitedLast
  refine ⟨one, two, _, _, _, _, rfl, rfl, again, parksToo, againLast, inBank, foundLast.inBank,
    foundLast.ahead, ?_⟩
  have before := foundFirst.slots
  have behind := foundLast.slots
  omega

/-- Both operands are found in both runs, the left one where it can be brought into a register. -/
theorem operands {left right : NodeId} {leftBank rightBank : Bank} {found : Holding × Holding}
    (leftScales : Scales leftBank (visit left)) (rightScales : Scales rightBank (visit right))
    (ahead : Ahead held tight roomy) (frugal : Frugal held tight)
    (done : Ledger.operands labels visit left right tight = .ok found after) :
    ∃ first second later, found = (first.tight, second.tight) ∧
      Ledger.operands labels visit left right roomy = .ok (first.roomy, second.roomy) later ∧
      first.In leftBank ∧ Ahead (first :: second :: held) after later ∧
      after.slots + first.tight.slots + second.tight.slots ≤ tight.slots := by
  simp only [Ledger.operands] at done ⊢
  by_cases heavier : labels left < labels right
  · simp only [if_pos heavier, estate_bind_eq_ok, estate_pure_eq_ok] at done ⊢
    obtain ⟨_, _, visited, _, _, parks, _, _, visitedLast, rfl, rfl⟩ := done
    obtain ⟨second, first, _, _, _, later, rfl, rfl, again, parksToo, againLast, _, inBank, ahead,
      slots⟩ := ahead.inOrder rightScales leftScales frugal visited parks visitedLast
    refine ⟨first, second, later, rfl, ⟨_, _, again, _, _, parksToo, _, _, againLast, rfl, rfl⟩,
      inBank, ahead, ?_⟩
    rwa [Nat.add_right_comm]
  · simp only [if_neg heavier, estate_bind_eq_ok, estate_pure_eq_ok] at done ⊢
    obtain ⟨_, _, visited, _, _, parks, _, _, visitedLast, rfl, rfl⟩ := done
    obtain ⟨first, second, _, _, _, later, rfl, rfl, again, parksToo, againLast, inBank, _, ahead,
      slots⟩ := ahead.inOrder leftScales rightScales frugal visited parks visitedLast
    exact ⟨first, second, later, rfl, ⟨_, _, again, _, _, parksToo, _, _, againLast, rfl, rfl⟩,
      inBank, ahead.perm (.swap ..), slots⟩

/-- All arguments are found in both runs. -/
theorem evaluate {arguments : List NodeId} {found : List Holding}
    (scales : ∀ argument ∈ arguments, Scales (tree.kindOf argument).bank (visit argument))
    (ahead : Ahead held tight roomy) (frugal : Frugal held tight)
    (done : Ledger.evaluate tree labels visit arguments tight = .ok found after) :
    ∃ twins later, found = twins.map Twin.tight ∧
      Ledger.evaluate tree labels visit arguments roomy = .ok (twins.map Twin.roomy) later ∧
      Ahead (twins ++ held) after later ∧ Frugal (twins ++ held) after ∧
      after.slots + (twins.map fun twin => twin.tight.slots).sum ≤ tight.slots := by
  induction arguments generalizing held tight roomy found with
  | nil =>
    obtain ⟨rfl, rfl⟩ := estate_pure_eq_ok.mp done
    exact ⟨[], roomy, rfl, rfl, ahead, frugal, Nat.le_refl _⟩
  | cons argument rest ih =>
    have goesOn {twin : Twin} {tight roomy : Ledger} {found : List Holding}
        (ahead : Ahead (twin :: held) tight roomy) (frugal : Frugal (twin :: held) tight)
        (done : (do return twin.tight :: (← Ledger.evaluate tree labels visit rest) :
          Step (List Holding)) tight = .ok found after) :
        ∃ twins later, found = twins.map Twin.tight ∧
          (do return twin.roomy :: (← Ledger.evaluate tree labels visit rest) :
            Step (List Holding)) roomy = .ok (twins.map Twin.roomy) later ∧
          Ahead (twins ++ held) after later ∧ Frugal (twins ++ held) after ∧
          after.slots + (twins.map fun twin => twin.tight.slots).sum ≤
            tight.slots + twin.tight.slots := by
      simp only [estate_bind_eq_ok, estate_pure_eq_ok] at done
      obtain ⟨_, _, remaining, rfl, rfl⟩ := done
      obtain ⟨twins, later, rfl, again, ahead, frugal, slots⟩ :=
        ih (fun other listed => scales other (List.mem_cons_of_mem _ listed)) ahead frugal remaining
      refine ⟨twin :: twins, later, rfl, ?_, ahead.perm List.perm_middle,
        frugal.perm List.perm_middle, ?_⟩
      · rw [estate_bind_of_ok again]
        rfl
      · simp only [List.map_cons, List.sum_cons]
        omega
    simp only [Ledger.evaluate] at done ⊢
    obtain ⟨_, _, visited, done⟩ := estate_bind_eq_ok.mp done
    obtain ⟨twin, _, rfl, again, foundHere⟩ := scales argument List.mem_cons_self ahead frugal visited
    have before := foundHere.slots
    cases rest with
    | nil =>
      obtain ⟨twins, later, same, againRest, ahead, frugal, slots⟩ :=
        goesOn foundHere.ahead (foundHere.frugal frugal) done
      exact ⟨twins, later, same, (estate_bind_of_ok again).trans againRest, ahead, frugal,
        by omega⟩
    | cons next others =>
      obtain ⟨_, _, parks, done⟩ := estate_bind_eq_ok.mp done
      obtain ⟨settled, _, rfl, parksToo, _, ahead, frugal, kept⟩ :=
        foundHere.ahead.parkUnderPressure (foundHere.frugal frugal).tail foundHere.fresh
          foundHere.inBank parks
      obtain ⟨twins, later, same, againRest, ahead, frugal, slots⟩ := goesOn ahead frugal done
      refine ⟨twins, later, same, (estate_bind_of_ok again).trans ?_, ahead, frugal, by omega⟩
      exact (estate_bind_of_ok parksToo).trans againRest

end Ahead

variable {tree : Tree} {labels : NodeId → Nat} {visit : Visit}

/-- The result of a call is in a slot of the tight run only if that has no register for it. -/
theorem scales_capture (bank : Bank) : Scales bank (capture bank) := by
  intro held tight roomy found after ahead frugal done
  rw [capture_eq] at done
  by_cases free : 0 < tight.free bank
  · rw [if_pos free] at done
    cases done
    refine ⟨.same (.register bank), roomy.withdraw bank, rfl, ?_, rfl, rfl, ahead.withdraw free,
      Nat.le_refl _⟩
    rw [capture_eq, if_pos (Nat.lt_of_lt_of_le free (ahead.free_le bank))]
    rfl
  · rw [if_neg free] at done
    by_cases left : 0 < tight.slots
    · rw [if_pos left] at done
      cases done
      have taken : tight.slots - 1 + 1 ≤ tight.slots := Nat.le_of_eq (Nat.sub_add_cancel left)
      by_cases freeToo : 0 < roomy.free bank
      · have fresh := frugal.resolve_left (Nat.ne_of_gt left)
        refine ⟨.spared bank, roomy.withdraw bank, rfl, ?_, rfl, rfl,
          ahead.takeSpare left fresh (Nat.eq_zero_of_not_pos free) freeToo, taken⟩
        rw [capture_eq, if_pos freeToo]
        rfl
      · have leftToo := Nat.lt_of_lt_of_le left (ahead.slots_le frugal)
        refine ⟨.same .slot, _, rfl, ?_, trivial, rfl, ahead.takeSlot left leftToo, taken⟩
        rw [capture_eq, if_neg freeToo, if_pos leftToo]
        rfl
    · rw [if_neg left] at done
      cases done

/-- Arithmetic is in a register of its bank. -/
theorem scales_arith {left right : NodeId} (leftScales : Scales bank (visit left))
    {rightBank : Bank} (rightScales : Scales rightBank (visit right)) :
    Scales bank (arith labels visit bank left right) := by
  intro held tight roomy found after ahead frugal done
  simp only [arith, estate_bind_eq_ok, estate_pure_eq_ok] at done
  obtain ⟨_, _, evaluated, _, _, brought, _, _, given, rfl, rfl⟩ := done
  obtain ⟨first, second, _, rfl, again, inBank, ahead, slots⟩ :=
    ahead.operands leftScales rightScales frugal evaluated
  obtain ⟨_, rfl, broughtToo, ahead, moved⟩ := ahead.materialize inBank brought
  obtain rfl := estate_modify_eq_ok.mp given
  refine ⟨.same (.register _), _, rfl, ?_, rfl, rfl, (ahead.perm (.swap ..)).giveBack, ?_⟩
  · rw [arith, estate_bind_of_ok again]
    exact (estate_bind_of_ok broughtToo).trans rfl
  · rw [slots_refund, moved]
    exact slots

/-- A call gives back what its arguments and its function hold, and has a register or a slot for its
result. -/
theorem scales_call {function : NodeId} {arguments : List NodeId}
    (scales : ∀ operand ∈ function :: arguments, Scales (tree.kindOf operand).bank (visit operand)) :
    Scales bank (call tree labels visit bank function arguments) := by
  intro held tight roomy found after ahead frugal done
  simp only [call, estate_bind_eq_ok, estate_pure_eq_ok] at done
  obtain ⟨_, _, evaluated, _, ready, pointed, _, _, given, _, _, captured, _, _, counted, rfl,
    rfl⟩ := done
  have listedOf {argument : NodeId}
      (listed : argument ∈ Generation.heaviestFirst labels arguments) : argument ∈ arguments :=
    (Generation.perm_heaviestFirst labels arguments).mem_iff.mp listed
  obtain ⟨twins, _, rfl, againAll, ahead, frugalAll, slots⟩ := ahead.evaluate
    (fun argument listed => scales argument (List.mem_cons_of_mem _ (listedOf listed)))
    frugal evaluated
  obtain ⟨target, _, rfl, againTarget, foundTarget⟩ :=
    scales function List.mem_cons_self ahead frugalAll pointed
  have allTight : twins.map Twin.tight ++ [target.tight] = (twins ++ [target]).map Twin.tight := by
    simp
  have allRoomy : twins.map Twin.roomy ++ [target.roomy] = (twins ++ [target]).map Twin.roomy := by
    simp
  rw [allTight] at given
  obtain rfl := estate_modify_eq_ok.mp given
  have order : (target :: (twins ++ held)).Perm (twins ++ [target] ++ held) := by
    rw [List.append_assoc]
    exact List.perm_middle.symm
  have returned := (foundTarget.ahead.perm order).giveBackAll
  have fewer : (((twins ++ [target]).map Twin.tight).foldl refund ready).slots ≤ tight.slots := by
    have before := foundTarget.slots
    rw [slots_foldl_refund, List.map_map, List.map_append, List.sum_append]
    simp only [List.map_cons, List.map_nil, List.sum_cons, List.sum_nil, Function.comp_def]
    omega
  obtain ⟨result, later, rfl, againCapture, foundResult⟩ :=
    scales_capture bank returned (frugal.mono fewer) captured
  obtain rfl := estate_modify_eq_ok.mp counted
  have again : call tree labels visit bank function arguments roomy = .ok result.roomy
      { later with statistics :=
          { later.statistics with callsEmitted := later.statistics.callsEmitted + 1 } } := by
    rw [call, estate_bind_of_ok againAll, estate_bind_of_ok againTarget, allRoomy]
    refine (estate_bind_of_ok rfl).trans ?_
    rw [estate_bind_of_ok againCapture]
    rfl
  exact ⟨result, _, rfl, again, foundResult.inBank, foundResult.fresh, foundResult.ahead.count _ _,
    Nat.le_trans foundResult.slots fewer⟩

/-- An operation scales if its operands do. -/
theorem scales_operation (formed : tree.Formed) {id : NodeId} {node : Node}
    (here : tree.node? id = some node) (scales : ∀ operand ∈ node.operation.operands,
      Scales (tree.kindOf operand).bank (visit operand)) :
    Scales node.kind.bank (operation tree labels visit node.kind.bank node.operation) := by
  cases same : node.operation with
  | constant bits | parameter index =>
    intro held tight roomy found after ahead frugal done
    obtain ⟨rfl, rfl⟩ := estate_pure_eq_ok.mp done
    exact ⟨.same .nothing, roomy, rfl, rfl, trivial, rfl, ahead.nothing, Nat.le_refl _⟩
  | arith operation left right =>
    rw [same] at scales
    have leftScales := scales left List.mem_cons_self
    rw [(formed.arith id node operation left right here same).1] at leftScales
    exact scales_arith leftScales (scales right (List.mem_cons_of_mem _ List.mem_cons_self))
  | call function arguments =>
    rw [same] at scales
    exact scales_call scales

/-- The value of a shared node is kept by both runs. -/
theorem scales_node (formed : tree.Formed) {id : NodeId}
    (scales : ∀ operand ∈ tree.operandsOf id, Scales (tree.kindOf operand).bank (visit operand)) :
    Scales (tree.kindOf id).bank (node tree labels visit id) := by
  intro held tight roomy found after ahead frugal done
  cases here : tree.node? id with
  | none =>
    simp only [node, here] at done ⊢
    obtain ⟨rfl, rfl⟩ := estate_pure_eq_ok.mp done
    exact ⟨.same .nothing, roomy, rfl, rfl, trivial, rfl, ahead.nothing, Nat.le_refl _⟩
  | some node =>
    rw [Tree.kindOf_of_node here]
    rw [Tree.operandsOf_of_node here] at scales
    cases kept : tight.kept id with
    | true =>
      rw [node_of_kept here kept] at done
      obtain ⟨_, _, counted, done⟩ := estate_bind_eq_ok.mp done
      obtain rfl := estate_modify_eq_ok.mp counted
      obtain ⟨rfl, rfl⟩ := estate_pure_eq_ok.mp done
      exact ⟨.same .nothing, _, rfl, node_of_kept here (ahead.kept ▸ kept), trivial, rfl,
        (ahead.count _ _).nothing, Nat.le_refl _⟩
    | false =>
      rw [node_of_fresh here kept] at done
      obtain ⟨_, _, operated, done⟩ := estate_bind_eq_ok.mp done
      obtain ⟨twin, _, rfl, again, foundHere⟩ :=
        scales_operation formed here scales ahead frugal operated
      have slots := foundHere.slots
      rw [node_of_fresh here (ahead.kept ▸ kept), estate_bind_of_ok again]
      cases shared : node.isShared with
      | true =>
        rw [conclude_shared shared] at done
        cases done
        exact ⟨.same .nothing, _, rfl, conclude_shared shared .., trivial, rfl,
          ((foundHere.ahead.count _ _).keep foundHere.fresh id).nothing,
          Nat.le_of_add_right_le slots⟩
      | false =>
        rw [conclude_single shared] at done
        cases done
        exact ⟨twin, _, rfl, conclude_single shared .., foundHere.inBank, foundHere.fresh,
          foundHere.ahead.count _ _, slots⟩

/-- Every node scales. -/
theorem scales_within (formed : tree.Formed) (depth : Nat) :
    ∀ id, Scales (tree.kindOf id).bank (within tree labels depth id) := by
  induction depth with
  | zero =>
    intro id held tight roomy found after ahead frugal done
    obtain ⟨rfl, rfl⟩ := estate_pure_eq_ok.mp done
    exact ⟨.same .nothing, roomy, rfl, rfl, trivial, rfl, ahead.nothing, Nat.le_refl _⟩
  | succ depth ih => exact fun id => scales_node formed fun operand _ => ih operand

end Ledger

end NativeExpr
