import NativeExpr.Compilation
import NativeExpr.Proofs.Exhaustion.Compilation
import NativeExpr.Proofs.Generation.Evolution

/-!
# Histories of trees

A tree is built node by node, and in between it may be labeled, generated and compiled, and
registers and slots may be asked for and given back. Whatever was asked for, and whether it was
done or not, the options stay what they were and the pool goes on handing out the registers that
they allow.
-/

namespace NativeExpr

/-- What may be asked of a tree besides adding nodes. -/
inductive Action where
  | label (id : NodeId) (isLeft : Bool)
  | generate (id : NodeId)
  | allocateRegister (kind : Kind) (register : Register)
  | allocateTemporary (kind : Kind)
  | moveToRegister (storage : Storage) (register : Register)
  | park (storage : Storage)
  | release (storage : Storage)
  | emitCall (stage : Stage) (function call : NodeId) (kind : Kind) (hint : Option Register)
  | compile (signature : Signature) (root : NodeId)

/-- Does what is asked. -/
def Action.run (tree : Tree) : Action → Build Unit
  | .label id isLeft => do let _ ← Labeling.subtree tree id isLeft
  | .generate id => do let _ ← Generation.value tree id
  | .allocateRegister kind register => do let _ ← Build.allocateRegister kind register
  | .allocateTemporary kind => do let _ ← Build.allocateTemporary tree kind
  | .moveToRegister storage register => do let _ ← Build.moveToRegister tree storage register
  | .park storage => do let _ ← Build.park tree storage
  | .release storage => Build.release tree storage
  | .emitCall stage function call kind hint => do
    let _ ← stage.emitCall tree (Generation.visit tree) function call kind hint
  | .compile signature root => do let _ ← NativeExpr.compile tree signature root

/-- The trees and workspaces that there may be, with arithmetic on integers only as the types of
the host have it. -/
inductive History (options : Options) : Tree → Workspace → Prop where
  | new : History options .empty (.new options)
  | constant {tree : Tree} {work : Workspace} (history : History options tree work) (kind : Kind)
      (bits : Word) : History options (tree.constant kind bits).2 work
  | parameter {tree : Tree} {work : Workspace} (history : History options tree work) (kind : Kind)
      (index : Nat) : History options (tree.parameter kind index).2 work
  | arith {tree later : Tree} {work : Workspace} {operation : Arithmetic} {kind : Kind}
      {left right id : NodeId} (history : History options tree work)
      (integer : kind.bank = .generalPurpose)
      (done : tree.arith operation kind left right = .ok (id, later)) : History options later work
  | call {tree later : Tree} {work : Workspace} {function id : NodeId} {signature : Signature}
      {arguments : List Handle} (history : History options tree work)
      (few : signature.parameters.length ≤ 2 ^ 28 - 8)
      (done : tree.call function signature arguments = .ok (id, later)) :
      History options later work
  | act {tree : Tree} {work : Workspace} (history : History options tree work) (action : Action) :
      History options tree ((action.run tree).leaves work)

/-- Whether two workspaces have the same options and hand out the same registers. -/
structure Workspace.Keeps (before after : Workspace) : Prop where
  options : after.options = before.options
  allocatable : after.pool.allocatable = before.pool.allocatable

/-- Whether a step keeps the options and what may be handed out, even if it fails. -/
def Build.Keeps {α : Type} (step : Build α) : Prop :=
  ∀ work : Workspace, work.Keeps (step.leaves work)

theorem Workspace.Keeps.trans {before between after : Workspace} (first : before.Keeps between)
    (second : between.Keeps after) : before.Keeps after :=
  ⟨second.options.trans first.options, second.allocatable.trans first.allocatable⟩

theorem Workspace.evolution_keeps : Evolution (fun _ => True) Keeps where
  refl _ := ⟨rfl, rfl⟩
  trans first second := first.trans second
  labels _ _ := ⟨rfl, rfl⟩
  keep _ _ _ _ := ⟨rfl, rfl⟩
  routine _ _ := ⟨rfl, rfl⟩
  statistics _ _ := ⟨rfl, rfl⟩
  assign _ _ _ _ := ⟨rfl, rfl⟩
  release _ _ _ released := ⟨rfl, (RegisterPool.of_release released).2.1⟩
  transfer _ _ _ _ transferred := ⟨rfl, (RegisterPool.of_transfer transferred).2.1⟩

theorem Build.demanding_keeps (tree : Tree) :
    Demanding tree (fun _ => True) fun step => step.Keeps :=
  Workspace.evolution_keeps.demanding fun _ _ _ _ => trivial

/-- A compilation keeps the options and what may be handed out, even if it fails. -/
theorem keeps_compile (tree : Tree) (signature : Signature) (root : NodeId) :
    (compile tree signature root).Keeps :=
  (Build.demanding_keeps tree).generative.compile trivial (fun _ => ⟨rfl, rfl⟩)
    (fun _ _ => ⟨rfl, rfl⟩) Workspace.evolution_keeps.takes

/-- Whatever is asked. -/
theorem Action.keeps_run (tree : Tree) (action : Action) : (action.run tree).Keeps := by
  have demanding := Build.demanding_keeps tree
  have generative := demanding.generative
  have visits := generative.generates tree.size
  have ignored {α : Type} {step : Build α} (keeps : step.Keeps) :
      (do let _ ← step : Build Unit).Keeps := demanding.bind keeps fun _ => demanding.pure ()
  cases action with
  | label id isLeft => exact ignored (generative.labels _ _ trivial _)
  | generate id => exact ignored (visits _ trivial _)
  | allocateRegister kind register => exact ignored (demanding.allocateRegister _ _)
  | allocateTemporary kind => exact ignored (demanding.temporary _ _)
  | moveToRegister storage register => exact ignored (demanding.moveToRegister _ _)
  | park storage => exact ignored (generative.park _)
  | release storage => exact generative.release storage
  | emitCall stage function call kind hint =>
    exact ignored (generative.emitCall visits (fun _ _ => trivial) trivial _ _ _)
  | compile signature root => exact ignored (keeps_compile _ _ _)

/-- A node may be appended if it is no arithmetic or arithmetic on integers. -/
theorem Tree.Integral.append {tree : Tree} {kind : Kind} {operation : Operation}
    (integral : tree.Integral)
    (integer : ∀ combine left right, operation = .arith combine left right →
      kind.bank = .generalPurpose) : (tree.append kind operation).2.Integral := by
  intro id node combine left right found here
  rcases of_node_append found with ⟨_, rfl⟩ | ⟨old, earlier, kinds, same⟩
  · exact integer combine left right here
  · exact kinds ▸ integral id old combine left right earlier (same.trans here)

namespace History

variable {options : Options} {tree : Tree} {work : Workspace}

theorem built (history : History options tree work) : tree.Built := by
  induction history with
  | new => exact .empty
  | constant _ kind bits built => exact .constant built kind bits
  | parameter _ kind index built => exact .parameter built kind index
  | arith _ _ done built => exact .arith built done
  | call _ few done built => exact .call built few done
  | act _ _ built => exact built

theorem integral (history : History options tree work) : tree.Integral := by
  induction history with
  | new => exact fun id node _ _ _ found => nomatch (found : (none : Option Node) = some node)
  | constant _ _ _ ih | parameter _ _ _ ih => exact ih.append fun _ _ _ => nofun
  | arith _ integer done ih =>
    obtain ⟨_, _, rfl⟩ := Tree.of_arith done
    exact ih.append fun _ _ _ _ => integer
  | call _ _ done ih =>
    obtain ⟨_, _, _, rfl⟩ := Tree.of_call done
    exact ih.append fun _ _ _ => nofun
  | act _ _ ih => exact ih

/-- The options are those that the tree was made with, and the pool hands out the registers that
they allow. -/
theorem configured (history : History options tree work) :
    work.options = options ∧ work.pool.allocatable = options.allocatable := by
  induction history with
  | new => exact ⟨rfl, rfl⟩
  | constant _ _ _ ih | parameter _ _ _ ih | arith _ _ _ ih | call _ _ _ ih => exact ih
  | @act tree work _ action ih =>
    have keeps := action.keeps_run tree work
    exact ⟨keeps.options.trans ih.1, keeps.allocatable.trans ih.2⟩

end History

end NativeExpr
