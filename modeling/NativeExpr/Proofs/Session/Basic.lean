import NativeExpr.Proofs.Generation.Opening
import NativeExpr.Proofs.Independence.History
import NativeExpr.Proofs.Ownership.Generation
import NativeExpr.Proofs.Session.Lending

/-!
# Sessions

A host builds a tree, labels it, generates nodes, asks for registers and slots, moves what it holds
and gives it back, and compiles, in any order. It holds the storages that it was handed out and has
not given back. A compilation generates a function of its own, in which none of them means anything.
-/

namespace NativeExpr

/-- What a host may ask for while a function is generated, with the storages that it holds before
and after. -/
inductive Service (tree : Tree) (work : Workspace) (held : List Storage) (after : Workspace) :
    List Storage → Prop where
  | generate {id : NodeId} {result : Storage}
      (done : Generation.value tree id work = .ok result after) :
      Service tree work held after (result :: held)
  | allocateRegister {kind : Kind} {register : Register} {result : Storage}
      (done : Build.allocateRegister kind register work = .ok result after) :
      Service tree work held after (result :: held)
  | allocateTemporary {kind : Kind} {result : Storage}
      (done : Build.allocateTemporary tree kind work = .ok result after) :
      Service tree work held after (result :: held)
  | moveToRegister {storage : Storage} {rest : List Storage} {register : Register}
      {result : Storage} (mine : held.Perm (storage :: rest))
      (done : Build.moveToRegister tree storage register work = .ok result after) :
      Service tree work held after (result :: rest)
  | park {storage : Storage} {rest : List Storage} {result : Storage}
      (mine : held.Perm (storage :: rest))
      (done : Build.park tree storage work = .ok result after) :
      Service tree work held after (result :: rest)
  | release {storage : Storage} {rest : List Storage} (mine : held.Perm (storage :: rest))
      (done : Build.release tree storage work = .ok () after) : Service tree work held after rest

/-- Whether the values that are kept are constants, which are what they are in any function. -/
def Workspace.KeepsConstants (work : Workspace) (tree : Tree) : Prop :=
  ∀ (id : NodeId) (storage : Storage), work.caches[id]? = some storage →
    ∃ node bits, tree.node? id = some node ∧ node.operation = .constant bits ∧
      storage = .own (.constant bits) node.kind

/-- The trees and workspaces that successful operations lead to, with the storages that the host
holds. Arithmetic is on integers, as the types of the host have it, and frames and outgoing areas
are no larger than what an offset can tell. No function is begun while values of another one are
kept. -/
inductive Session (options : Options) : Tree → Workspace → List Storage → Prop where
  | new : Session options .empty (.new options) []
  | constant {tree : Tree} {work : Workspace} {held : List Storage}
      (session : Session options tree work held) (kind : Kind) (bits : Word) :
      Session options (tree.constant kind bits).2 work held
  | parameter {tree : Tree} {work : Workspace} {held : List Storage}
      (session : Session options tree work held) (kind : Kind) (index : Nat) :
      Session options (tree.parameter kind index).2 work held
  | arith {tree later : Tree} {work : Workspace} {held : List Storage} {operation : Arithmetic}
      {kind : Kind} {left right id : NodeId} (session : Session options tree work held)
      (integer : kind.bank = .generalPurpose)
      (done : tree.arith operation kind left right = .ok (id, later)) :
      Session options later work held
  | call {tree later : Tree} {work : Workspace} {held : List Storage} {function id : NodeId}
      {signature : Signature} {arguments : List Handle} (session : Session options tree work held)
      (few : signature.parameters.length ≤ 2 ^ 28 - 8)
      (done : tree.call function signature arguments = .ok (id, later)) :
      Session options later work held
  | label {tree : Tree} {work after : Workspace} {held : List Storage} {id : NodeId}
      {isLeft : Bool} {count : Nat} (session : Session options tree work held)
      (done : Labeling.subtree tree id isLeft work = .ok count after) :
      Session options tree after held
  | serve {tree : Tree} {work after : Workspace} {held others : List Storage}
      (session : Session options tree work held)
      (fresh : work.routine = none → work.KeepsConstants tree)
      (service : Service tree work held after others) : Session options tree after others
  | compile {tree : Tree} {work after : Workspace} {held : List Storage} {signature : Signature}
      {root : NodeId} {compiled : Compiled} (session : Session options tree work held)
      (few : options.tempSlots + signature.parameters.length ≤ 2 ^ 28 - 5)
      (done : NativeExpr.compile tree signature root work = .ok compiled after) :
      Session options tree after []

namespace Workspace.Exchanges

variable {tree : Tree} {asked : List NodeId} {before after : Workspace}
variable {given taken : List Storage} {id : NodeId} {storage : Storage}

/-- Values are kept anew of nodes that exist. -/
theorem cached_or_lt (exchanges : before.Exchanges tree asked given taken after)
    (cached : after.caches[id]? = some storage) :
    before.caches[id]? = some storage ∨ id < tree.size := by
  refine (exchanges.fresh id storage cached).imp_right fun ⟨shared, _⟩ => ?_
  obtain ⟨node, found, _⟩ := Option.any_eq_true _ _ |>.mp shared
  exact Tree.lt_size_of_node found

/-- Where no node is asked for no value is kept anew. -/
theorem cached_of_unasked (exchanges : before.Exchanges tree [] given taken after)
    (cached : after.caches[id]? = some storage) : before.caches[id]? = some storage := by
  rcases exchanges.fresh id storage cached with earlier | ⟨_, _, none, _⟩
  · exact earlier
  · exact absurd none List.not_mem_nil

end Workspace.Exchanges

namespace Service

variable {tree : Tree} {work after : Workspace} {held others : List Storage}

/-- What is asked for in a function that stands is served. -/
theorem serves {natives : Natives} {means : NodeId → Word → Prop} {routine : Routine}
    {machine : Machine} (service : Service tree work held after others) (formed : tree.Formed)
    (fits : tree.size ≤ 2 ^ 52) (lawful : tree.Lawful natives (machine.Ahead tree) means)
    (standing : work.Standing tree means routine machine) (lends : work.Lends routine held) :
    ∃ continued later,
      Workspace.Serves tree natives means routine machine after others continued later := by
  cases service with
  | generate done =>
    obtain ⟨continued, later, serves, _⟩ := standing.serves_visit lends formed fits lawful done
    exact ⟨continued, later, serves⟩
  | allocateRegister done => exact ⟨_, _, standing.serves_allocateRegister natives lends done⟩
  | allocateTemporary done =>
    obtain ⟨continued, serves⟩ := standing.serves_allocateTemporary natives lends done
    exact ⟨continued, machine, serves⟩
  | moveToRegister same done => exact standing.serves_moveToRegister natives (lends.perm same) done
  | park same done => exact standing.serves_park natives (lends.perm same) done
  | release same done =>
    obtain ⟨continued, serves⟩ := standing.serves_release natives (lends.perm same) done
    exact ⟨continued, machine, serves⟩

/-- What begins the function that it needs does in a function that has been begun what it does
otherwise. -/
theorem beginsLate (service : Service tree work held after others)
    (unbegun : work.routine = none) :
    (after.routine = none ∧ after.options = work.options ∧
      ∀ started, Service tree (work.begin started) held (after.begin started) others) ∨
    ∃ started, work.Begins tree started ∧
      Service tree (work.begin started) held after others := by
  have lifts {α : Type} {step : Build α} {value : α} (late : step.BeginsLate tree)
      (done : step work = .ok value after)
      (same : ∀ {before later : Workspace}, step before = .ok value later →
        Service tree before held later others) :
      (after.routine = none ∧ after.options = work.options ∧
        ∀ started, Service tree (work.begin started) held (after.begin started) others) ∨
      ∃ started, work.Begins tree started ∧
        Service tree (work.begin started) held after others :=
    (late work unbegun value after done).imp
      (fun ⟨still, options, begun⟩ => ⟨still, options, fun started => same (begun started)⟩)
      (fun ⟨started, begins, begun⟩ => ⟨started, begins, same begun⟩)
  have demanding := Build.demanding_beginsLate tree
  cases service with
  | generate done => exact lifts (demanding.generative.generates tree.size _ trivial _) done .generate
  | allocateRegister done =>
    exact lifts (demanding.allocateRegister _ _) done .allocateRegister
  | allocateTemporary done => exact lifts (demanding.temporary _ _) done .allocateTemporary
  | moveToRegister mine done =>
    exact lifts (demanding.moveToRegister _ _) done (.moveToRegister mine)
  | park mine done => exact lifts (demanding.park _) done (.park mine)
  | release mine done => exact lifts (demanding.release _) done (.release mine)

/-- Values are kept of nodes that exist. -/
theorem kept (service : Service tree work held after others) (formed : tree.Formed) {id : NodeId}
    {storage : Storage} (cached : after.caches[id]? = some storage) :
    work.caches[id]? = some storage ∨ id < tree.size := by
  cases service with
  | generate done =>
    exact (Generation.exchanges_within formed.layered _ _ _ _ _ _ done).cached_or_lt cached
  | allocateRegister done =>
    obtain ⟨_, _, _, _, rfl⟩ := Build.of_allocateRegister done
    exact .inl cached
  | allocateTemporary done =>
    rcases Build.of_allocateTemporary done with ⟨_, _, _, _, rfl⟩ | ⟨_, allocated, _⟩
    · exact .inl cached
    · obtain ⟨_, _, _, _, rfl⟩ := Build.of_onRoutine allocated
      exact .inl cached
  | moveToRegister mine done =>
    simp only [Build.moveToRegister] at done
    split at done
    · obtain ⟨_, rfl⟩ := estate_pure_eq_ok.mp done
      exact .inl cached
    · simp only [estate_bind_eq_ok, estate_pure_eq_ok] at done
      obtain ⟨_, _, allocated, _, _, fetched, _, _, released, _, rfl⟩ := done
      obtain ⟨_, _, _, _, rfl⟩ := Build.of_allocateRegister allocated
      obtain ⟨_, _, _, _, rfl⟩ := Build.of_onRoutine fetched
      exact .inl ((Build.exchanges_of_release [] released).cached_of_unasked cached)
  | park mine done => exact .inl ((Build.exchanges_of_park [] done).cached_of_unasked cached)
  | release mine done => exact .inl ((Build.exchanges_of_release [] done).cached_of_unasked cached)

end Service

/-- What a step leaves when it succeeds. -/
theorem Build.leaves_of_ok {α : Type} {step : Build α} {work after : Workspace} {value : α}
    (done : step work = .ok value after) :
    (do let _ ← step : Build Unit).leaves work = after := by
  simp only [leaves, Bind.bind, EStateM.bind, done]
  rfl

namespace Session

variable {options : Options} {tree : Tree} {work : Workspace} {held : List Storage}

/-- What a session leads to is something that may have been asked for. -/
theorem history (session : Session options tree work held) : History options tree work := by
  induction session with
  | new => exact .new
  | constant _ kind bits history => exact history.constant kind bits
  | parameter _ kind index history => exact history.parameter kind index
  | arith _ integer done history => exact history.arith integer done
  | call _ few done history => exact history.call few done
  | @label tree work after held id isLeft count _ done history =>
    exact Build.leaves_of_ok done ▸ history.act (.label id isLeft)
  | @serve tree work after held others _ _ service history =>
    cases service with
    | @generate id _ done => exact Build.leaves_of_ok done ▸ history.act (.generate id)
    | @allocateRegister kind register _ done =>
      exact Build.leaves_of_ok done ▸ history.act (.allocateRegister kind register)
    | @allocateTemporary kind _ done =>
      exact Build.leaves_of_ok done ▸ history.act (.allocateTemporary kind)
    | @moveToRegister storage _ register _ _ done =>
      exact Build.leaves_of_ok done ▸ history.act (.moveToRegister storage register)
    | @park storage _ _ _ done => exact Build.leaves_of_ok done ▸ history.act (.park storage)
    | @release storage _ _ done =>
      have leaves : (Build.release tree storage).leaves work = after := by
        simp only [Build.leaves, done]
      exact leaves ▸ history.act (.release storage)
  | @compile tree work after held signature root compiled _ _ done history =>
    exact Build.leaves_of_ok done ▸ history.act (.compile signature root)

end Session

end NativeExpr
