import NativeExpr.Proofs.Exhaustion.Compilation
import NativeExpr.Proofs.Ledger.Generation
import NativeExpr.Proofs.Preference.Staging

/-!
# Generation abreast

A node is generated alike in workspaces that are abreast, whatever registers are preferred, if its
operands are. The preference is handed on to one operand and to the register that the result is
brought into, and neither goes by anything but the numbers of registers and slots.
-/

namespace NativeExpr.Generation

open Workspace (Abreast)
open Build (Matches matches_pure matches_throw)

variable {tree : Tree} {visit : Visit} {started : Prop} {held : List (Storage × Storage)}
variable {work twin : Workspace} {hint other : Option Register} {id : NodeId} {kind : Kind}

/-- The operand that is evaluated first is held while the other one is evaluated. -/
theorem matches_operands (steady : visit.Steady tree) (left right : NodeId)
    (hint other : Option Register) (abreast : work.Abreast tree started held twin) :
    Matches (fun values images after later =>
        values.1.Mirrors (tree.kindOf left) images.1 ∧
        values.2.Mirrors (tree.kindOf right) images.2 ∧
        after.Abreast tree started ((values.1, images.1) :: (values.2, images.2) :: held) later)
      (operands tree visit left right hint work) (operands tree visit left right other twin) := by
  simp only [operands]
  refine (Build.matches_label abreast.toLevel left).bind ?_
  rintro _ leftLabel work twin ⟨rfl, rfl, rfl⟩
  refine (Build.matches_label abreast.toLevel right).bind ?_
  rintro _ rightLabel work twin ⟨rfl, rfl, rfl⟩
  split
  · refine (steady right none none abreast).bind ?_
    rintro second image _ _ ⟨mirrors, abreast⟩
    refine (Build.matches_parkUnderPressure mirrors abreast _ _).bind ?_
    rintro second image _ _ ⟨seconds, abreast⟩
    refine (steady left hint other abreast).bind ?_
    rintro first image _ _ ⟨firsts, abreast⟩
    exact matches_pure ⟨firsts, seconds, abreast⟩
  · refine (steady left hint other abreast).bind ?_
    rintro first image _ _ ⟨mirrors, abreast⟩
    refine (Build.matches_parkUnderPressure mirrors abreast _ _).bind ?_
    rintro first image _ _ ⟨firsts, abreast⟩
    refine (steady right none none abreast).bind ?_
    rintro second image _ _ ⟨seconds, abreast⟩
    exact matches_pure ⟨firsts, seconds, abreast.perm (.swap ..)⟩

theorem matches_arith (steady : visit.Steady tree) (id : NodeId) {left right : NodeId}
    (leftKind : tree.kindOf left = kind) (rightKind : tree.kindOf right = kind)
    (integral : kind.bank = .generalPurpose) (operation : Arithmetic)
    (abreast : work.Abreast tree started held twin) :
    Matches (fun result image after later => result.Mirrors kind image ∧
        after.Abreast tree started ((result, image) :: held) later)
      (arith tree visit id kind operation left right hint work)
      (arith tree visit id kind operation left right other twin) := by
  simp only [arith]
  refine (matches_operands steady left right hint other abreast).bind ?_
  rintro ⟨first, second⟩ ⟨image, otherSecond⟩ _ _ ⟨firsts, seconds, abreast⟩
  rw [leftKind] at firsts
  rw [rightKind] at seconds
  refine (Build.matches_materialize firsts abreast id hint other _).bind ?_
  rintro target mirror _ _ ⟨suits, imageSuits, abreast⟩
  have granted {target : Register} {operand : Storage}
      (suits : (Storage.own (.register target) kind).Suits kind) (operands : operand.Suits kind) :
      ∀ request ∈ applyOperand operation target operand.location, request.Granted := by
    obtain ⟨own, real⟩ := suits.register target rfl
    exact granted_applyOperand (own.trans integral) real
      (fun register here => integral ▸ operands.register register here) operation
  refine (Build.matches_write started abreast.toLevel (granted suits seconds.suits)
    (granted imageSuits seconds.imageSuits)).bind fun _ _ _ _ abreast => ?_
  refine (Build.matches_release seconds (abreast.perm (.swap ..))).bind
    fun _ _ _ _ abreast => ?_
  exact matches_pure ⟨⟨suits, imageSuits, rfl, .inr ⟨target, mirror, rfl, rfl⟩⟩, abreast⟩

/-- A parameter has the same home in both functions, or none in either. -/
theorem matches_parameter (index : Nat) (kind : Kind)
    (abreast : work.Abreast tree started held twin) :
    Matches (fun result image after later => result.Mirrors kind image ∧
        after.Abreast tree started ((result, image) :: held) later)
      (parameter tree index kind work) (parameter tree index kind twin) := by
  have looks : Matches (fun home image after later => image = home ∧
        after.Abreast tree started held later)
      (Build.onRoutine tree (Routine.home? index) work)
      (Build.onRoutine tree (Routine.home? index) twin) := by
    refine Build.matches_onRoutine abreast.toLevel fun routine other opens otherOpens frame => ?_
    refine ⟨_, routine, _, other, rfl, rfl, congrArg (Frame.home? · index) frame, ?_⟩
    exact abreast.goesOn frame (abreast.secured.stepped opens rfl)
      (abreast.imageSecured.stepped otherOpens rfl)
  simp only [parameter]
  refine looks.bind ?_
  rintro _ home _ _ ⟨rfl, abreast⟩
  cases home with
  | none => exact matches_throw _
  | some home =>
    have suits : (Storage.borrow (.slot home) kind).Suits kind := Storage.suits_of_slot rfl rfl
    exact matches_pure ⟨suits.mirrors, abreast.add rfl rfl⟩

theorem matches_operation (formed : tree.Formed) (integral : tree.Integral)
    (steady : visit.Steady tree) {node : Node} (found : tree.node? id = some node)
    (hint other : Option Register) (abreast : work.Abreast tree started held twin) :
    Matches (fun result image after later => result.Mirrors node.kind image ∧
        after.Abreast tree started ((result, image) :: held) later)
      (operation tree visit id node.kind hint node.operation work)
      (operation tree visit id node.kind other node.operation twin) := by
  cases here : node.operation with
  | constant bits =>
    exact matches_pure ⟨(Storage.suits_of_constant bits node.kind).mirrors, abreast.add rfl rfl⟩
  | parameter index => exact matches_parameter index node.kind abreast
  | arith operation left right =>
    obtain ⟨leftKind, rightKind⟩ := formed.arith id node operation left right found here
    exact matches_arith steady id leftKind rightKind
      (integral id node operation left right found here) operation abreast
  | call function arguments =>
    refine (Build.matches_lift (Stage.ofArguments tree arguments)).bind ?_
    rintro _ stage _ _ ⟨staged, rfl, rfl, rfl⟩
    exact Stage.matches_emitCall steady (Stage.of_ofArguments staged) function id node.kind hint
      other abreast

/-- Values that mirror each other are kept of the same node. -/
theorem abreast_keep {value image : Storage} (mirrors : value.Mirrors (tree.kindOf id) image)
    (abreast : work.Abreast tree started ((value, image) :: held) twin) :
    ({ work with caches := work.caches.insert id value } : Workspace).Abreast tree started
      ((value.share, image.share) :: held)
      { twin with caches := twin.caches.insert id image } := by
  refine Abreast.add ?_ value.isOwned_share image.isOwned_share
  have left := abreast.leave
  exact {
    options := left.options
    labels := left.labels
    ledger := by rw [Workspace.ledger_keep, Workspace.ledger_keep, left.ledger]
    frame := left.frame
    kept := fun node storage other here there => by
      rcases Workspace.kept_insert.mp here with ⟨rfl, rfl⟩ | ⟨different, here⟩
      · rcases Workspace.kept_insert.mp there with ⟨_, rfl⟩ | ⟨same, _⟩
        · exact mirrors
        · exact absurd rfl same
      · rcases Workspace.kept_insert.mp there with ⟨same, _⟩ | ⟨_, there⟩
        · exact absurd same different
        · exact left.kept node storage other here there
    secured := left.secured.unchanged rfl rfl rfl
    imageSecured := left.imageSecured.unchanged rfl rfl rfl
    idle := left.idle
    begun := left.begun }

/-- A node is generated alike if its operands are. -/
theorem steady_node (formed : tree.Formed) (integral : tree.Integral)
    (steady : visit.Steady tree) : (node tree visit).Steady tree := by
  intro id hint other started held work twin abreast
  simp only [node]
  refine (Build.matches_lift (tree.node id)).bind ?_
  rintro _ node work twin ⟨present, rfl, rfl, rfl⟩
  have found := Tree.node_eq_ok.mp present
  have kind := Tree.kindOf_of_node found
  refine (Build.matches_label abreast.toLevel id).bind ?_
  rintro _ _ work twin ⟨rfl, rfl, rfl⟩
  refine Matches.afterGet ?_
  have same : twin.caches[id]?.isSome = work.caches[id]?.isSome :=
    congrFun (congrArg Ledger.kept abreast.ledger) id
  cases kept : work.caches[id]? with
  | some cached =>
    rw [kept] at same
    obtain ⟨image, imageKept⟩ := Option.isSome_iff_exists.mp same
    rw [imageKept]
    let hits (statistics : Statistics) : Statistics :=
      { statistics with cacheHits := statistics.cacheHits + 1 }
    refine (Build.matches_count hits (fun _ => rfl) (fun _ => rfl) abreast).bind
      fun _ _ _ _ counted => ?_
    exact matches_pure ⟨(abreast.kept id cached image kept imageKept).share,
      counted.add cached.isOwned_share image.isOwned_share⟩
  | none =>
    rw [kept] at same
    have unkept := Option.isSome_eq_false_iff.mp same
    rw [Option.isNone_iff_eq_none.mp unkept]
    refine (matches_operation formed integral steady found hint other abreast).bind ?_
    rintro value image _ _ ⟨mirrors, abreast⟩
    let compiles (statistics : Statistics) : Statistics :=
      { statistics with nodesCompiled := statistics.nodesCompiled + 1 }
    refine (Build.matches_count compiles (fun _ => rfl) (fun _ => rfl) abreast).bind
      fun _ _ _ _ abreast => ?_
    rw [kind]
    split
    · exact .ok ⟨mirrors.share, abreast_keep (kind ▸ mirrors) abreast⟩
    · exact matches_pure ⟨mirrors, abreast⟩

/-- Every node is generated alike. -/
theorem steady_within (formed : tree.Formed) (integral : tree.Integral) (depth : Nat) :
    (within tree depth).Steady tree := by
  induction depth with
  | zero => exact fun _ _ _ _ _ _ _ _ => matches_throw _
  | succ depth ih => exact steady_node formed integral ih

end NativeExpr.Generation
