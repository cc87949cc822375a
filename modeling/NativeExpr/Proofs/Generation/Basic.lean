import NativeExpr.Generation.Basic
import NativeExpr.Proofs.Generation.Staging

/-!
# Successful generation of nodes

What generating a node has done when it succeeds, operation by operation.
-/

namespace NativeExpr.Generation

variable {tree : Tree} {visit : Visit} {before after : Workspace}

/-- A constant that fits is the extension of its low half. -/
theorem signExtend_of_fitsOperand {bits : Word} (fits : fitsOperand bits) :
    (bits.setWidth 32).signExtend 64 = bits := by
  simp only [fitsOperand, Bool.and_eq_true, decide_eq_true_eq] at fits
  apply BitVec.eq_of_toInt_eq
  have narrow : (bits.setWidth 32).toInt = bits.toInt := by
    have small := BitVec.toInt_eq_toNat_cond (bits.setWidth 32)
    have whole := BitVec.toInt_eq_toNat_cond bits
    have half : (bits.setWidth 32).toNat = bits.toNat % 2 ^ 32 := BitVec.toNat_setWidth ..
    split at small <;> split at whole <;> omega
  rw [BitVec.toInt_signExtend_of_le (by decide), narrow]

/-- Combining a register with a value changes that register and at most the scratch register. -/
theorem effects_applyOperand (natives : Natives) (machine : Machine) {target : Register}
    (usable : target.Usable) (operation : Arithmetic) (operand : Location) :
    (Request.effects natives machine (applyOperand operation target operand)).get target =
        operation.apply (machine.get target) (machine.value operand) ∧
      Machine.AgreeOutside [target, .r11] machine
        (Request.effects natives machine (applyOperand operation target operand)) := by
  have real := usable.inBank
  have direct (value : Word) :
      (machine.set target (operation.apply (machine.get target) value)).get target =
          operation.apply (machine.get target) value ∧
        Machine.AgreeOutside [target, .r11] machine
          (machine.set target (operation.apply (machine.get target) value)) :=
    ⟨Machine.get_set_self .., Machine.AgreeOutside.set machine _ real List.mem_cons_self⟩
  cases operand with
  | register register | slot offset => exact direct _
  | constant bits =>
    by_cases fits : fitsOperand bits
    · simp only [applyOperand, fits, if_true, Request.effects_cons, Request.effects_nil,
        Request.effect, signExtend_of_fitsOperand fits]
      exact direct bits
    · simp only [applyOperand, fits, Bool.false_eq_true, if_false, Request.effects_cons,
        Request.effects_nil, Request.effect, Convention.scratch, Machine.get_set_self]
      have scratch : (machine.set .r11 bits).get target = machine.get target :=
        Machine.get_set_other machine bits (by decide) real usable.ne_r11
      rw [scratch]
      refine ⟨rfl, (Machine.AgreeOutside.set machine bits (by decide) ?_).trans
        (Machine.AgreeOutside.set _ _ real List.mem_cons_self)⟩
      simp

theorem plain_applyOperand (operation : Arithmetic) (target : Register) (operand : Location) :
    ∀ request ∈ applyOperand operation target operand, request.Plain := by
  cases operand with
  | register register | slot offset => simp [applyOperand, Request.Plain]
  | constant bits => by_cases fits : fitsOperand bits <;> simp [applyOperand, fits, Request.Plain]

theorem quiet_applyOperand (operation : Arithmetic) (target : Register) (operand : Location) :
    ∀ request ∈ applyOperand operation target operand, request.Quiet := by
  cases operand with
  | register register | slot offset => simp [applyOperand, Request.Quiet]
  | constant bits => by_cases fits : fitsOperand bits <;> simp [applyOperand, fits, Request.Quiet]

/-- The operand with the larger label is evaluated, parked if registers are short, and then the
other one. -/
theorem of_operands {left right : NodeId} {hint : Option Register} {first second : Storage}
    (done : operands tree visit left right hint before = .ok (first, second) after) :
    ∃ needed value between parked,
      (before.label left < before.label right ∧ visit right none before = .ok value between ∧
        Build.parkUnderPressure tree value needed .generalPurpose between = .ok second parked ∧
        visit left hint parked = .ok first after) ∨
      (¬before.label left < before.label right ∧ visit left hint before = .ok value between ∧
        Build.parkUnderPressure tree value needed .generalPurpose between = .ok first parked ∧
        visit right none parked = .ok second after) := by
  simp only [operands, estate_bind_eq_ok] at done
  obtain ⟨leftLabel, _, leftLabeled, rightLabel, _, rightLabeled, done⟩ := done
  obtain ⟨leftFound, rfl⟩ := Build.found_of_label leftLabeled
  obtain ⟨rightFound, rfl⟩ := Build.found_of_label rightLabeled
  simp only [Workspace.label, leftFound, rightFound, Option.getD_some]
  split at done
  · rename_i lighter
    simp only [estate_bind_eq_ok, estate_pure_eq_ok] at done
    obtain ⟨value, between, visited, _, parked, parking, _, _, later, same, rfl⟩ := done
    obtain ⟨rfl, rfl⟩ := Prod.mk.inj same
    exact ⟨leftLabel, value, between, parked, .inl ⟨lighter, visited, parking, later⟩⟩
  · rename_i heavier
    simp only [estate_bind_eq_ok, estate_pure_eq_ok] at done
    obtain ⟨value, between, visited, _, parked, parking, _, _, later, same, rfl⟩ := done
    obtain ⟨rfl, rfl⟩ := Prod.mk.inj same
    exact ⟨rightLabel, value, between, parked, .inr ⟨heavier, visited, parking, later⟩⟩

/-- The left operand is materialized and the right one combined into it. -/
theorem of_arith {id : NodeId} {kind : Kind} {operation : Arithmetic} {left right : NodeId}
    {hint : Option Register} {result : Storage}
    (done : arith tree visit id kind operation left right hint before = .ok result after) :
    ∃ first second target evaluated placed combined,
      operands tree visit left right hint before = .ok (first, second) evaluated ∧
      Build.materialize tree first id hint "evaluating an arithmetic operand" evaluated =
        .ok target placed ∧
      Build.onRoutine tree (Routine.write (applyOperand operation target second.location)) placed =
        .ok () combined ∧
      Build.release tree second combined = .ok () after ∧
      result = .own (.register target) kind := by
  simp only [arith, estate_bind_eq_ok, estate_pure_eq_ok] at done
  obtain ⟨⟨first, second⟩, evaluated, evaluation, target, placed, placing, _, combined, combining,
    _, _, released, rfl, rfl⟩ := done
  exact ⟨first, second, target, evaluated, placed, combined, evaluation, placing, combining,
    released, rfl⟩

/-- A parameter is referred to in its home. -/
theorem of_parameter {index : Nat} {kind : Kind} {result : Storage} {routine : Routine}
    (begun : before.routine = some routine)
    (done : parameter tree index kind before = .ok result after) :
    ∃ home, routine.frame.home? index = some home ∧ result = .borrow (.slot home) kind ∧
      after = before := by
  simp only [parameter, estate_bind_eq_ok] at done
  obtain ⟨home, _, asked, done⟩ := done
  obtain ⟨later, stepped, rfl⟩ := (Build.onRoutine_eq_ok begun).mp asked
  obtain ⟨rfl, rfl⟩ := Routine.home_eq_ok.mp stepped
  cases found : later.frame.home? index with
  | none =>
    simp only [found] at done
    exact absurd done estate_throw_ne_ok
  | some home =>
    simp only [found, estate_pure_eq_ok] at done
    obtain ⟨rfl, rfl⟩ := done
    exact ⟨home, rfl, rfl, by simp [← begun]⟩

/-- A kept value is referred to again; any other node is generated, and kept if it is shared. -/
theorem of_node {id : NodeId} {hint : Option Register} {result : Storage}
    (done : node tree visit id hint before = .ok result after) :
    ∃ node, tree.node? id = some node ∧
      ((∃ cached, before.caches[id]? = some cached ∧ result = cached.share ∧
        after = { before with statistics := after.statistics } ∧
        after.statistics =
          { before.statistics with cacheHits := before.statistics.cacheHits + 1 }) ∨
      (before.caches[id]? = none ∧ ∃ storage between,
        operation tree visit id node.kind hint node.operation before = .ok storage between ∧
        after.statistics =
          { between.statistics with nodesCompiled := between.statistics.nodesCompiled + 1 } ∧
        ((node.isShared = true ∧ result = storage.share ∧
            after = { between with
              caches := between.caches.insert id storage
              statistics := after.statistics }) ∨
          (node.isShared = false ∧ result = storage ∧
            after = { between with statistics := after.statistics })))) := by
  simp only [Generation.node, estate_bind_eq_ok, Build.lift_eq_ok, estate_get_eq_ok] at done
  obtain ⟨node, _, ⟨found, rfl⟩, label, work, labeled, _, _, ⟨rfl, rfl⟩, done⟩ := done
  obtain rfl := Build.of_label labeled
  refine ⟨node, Tree.node_eq_ok.mp found, ?_⟩
  cases kept : work.caches[id]? with
  | some cached =>
    simp only [kept, estate_bind_eq_ok, Build.count_eq_ok, estate_pure_eq_ok] at done
    obtain ⟨_, _, rfl, rfl, rfl⟩ := done
    exact .inl ⟨cached, rfl, rfl, rfl, rfl⟩
  | none =>
    simp only [kept, estate_bind_eq_ok, Build.count_eq_ok] at done
    obtain ⟨storage, between, generated, _, _, rfl, done⟩ := done
    refine .inr ⟨rfl, storage, between, generated, ?_⟩
    split at done
    · rename_i shared
      simp only [estate_bind_eq_ok, estate_modify_eq_ok, estate_pure_eq_ok] at done
      obtain ⟨_, _, rfl, rfl, rfl⟩ := done
      exact ⟨rfl, .inl ⟨shared, rfl, rfl⟩⟩
    · rename_i single
      simp only [estate_pure_eq_ok] at done
      obtain ⟨rfl, rfl⟩ := done
      exact ⟨rfl, .inr ⟨by simpa using single, rfl, rfl⟩⟩

end NativeExpr.Generation
