import NativeExpr.Proofs.Independence.History
import NativeExpr.Proofs.Labeling.Need
import NativeExpr.Proofs.Ledger.Generation

/-!
# Compilations as a ledger shows them

Whether a compilation succeeds is decided by its ledger, which is the same whatever the workspace
was like before: the ledger begins with the options and goes by what nodes need.
-/

namespace NativeExpr

/-- How the ledger of a compilation ends. -/
def Ledger.outcome (tree : Tree) (root : NodeId) (options : Options) :
    EStateM.Result Shortage Ledger Holding :=
  within tree (tree.labelBelow root) tree.size root (opening options)

theorem RegisterPool.freeCount_new {allocatable : RegisterSet}
    (usable : ∀ register, allocatable.contains register → register.Usable) (bank : Bank) :
    (new allocatable).freeCount bank = allocatable.countIn bank := by
  have total := live_add_free (sound_new usable).live bank
  have none : (new allocatable).live.countIn bank = 0 := by
    simp [new, RegisterSet.countIn, RegisterSet.membersIn]
  rwa [none, Nat.zero_add] at total

variable {options : Options} {tree : Tree} {signature : Signature} {root : NodeId}
variable {work : Workspace}

/-- The steps of a compilation after the function has been begun. -/
def Compilation.generate (tree : Tree) (signature : Signature) (root : NodeId) : Build Compiled := do
  let hint := Convention.resultRegister signature.result.bank
  let result ← Generation.visit tree root (some hint)
  Build.release tree result
  Compilation.finish result.location signature.result

/-- A function is begun with the ledger of the options. -/
theorem compile_begins (history : History options tree work)
    (declared : tree.Declared signature.parameters) (exist : root < tree.size) :
    ∃ opened : Workspace, opened.Orderly tree (tree.labelBelow root) (tree.Reaches root) ∧
      opened.ledger = Ledger.opening options ∧
      compile tree signature root work = Compilation.generate tree signature root opened := by
  obtain ⟨sameOptions, allocatable⟩ := history.configured
  obtain ⟨labeled, labeling, only, labels, _⟩ :=
    Labeling.root_settles history.built.formed.layered history.built.counted exist work.reset
  obtain ⟨started, starting⟩ := Routine.start_ok signature.parameters labeled.options.tempSlots
  have found : tree.node? root = some tree.nodes[root] := Array.getElem?_eq_getElem exist
  have usable : ∀ register, work.pool.allocatable.contains register → register.Usable :=
    fun register allowed => Options.usable_of_allocatable (allocatable ▸ allowed)
  rw [Labeling.LabelsOnly] at only
  refine ⟨{ labeled with routine := some started }, ?_, ?_, ?_⟩
  · refine ⟨?_, ⟨started, rfl⟩, fun id reaches => ?_, fun id storage kept => ?_⟩
    · rw [only]
      exact RegisterPool.sound_new usable
    · simp only [Workspace.label, labels id reaches, Option.getD_some]
    · rw [only] at kept
      simp [Workspace.reset] at kept
  · have slots : labeled.options.tempSlots = options.tempSlots := by
      rw [only, ← sameOptions]
      rfl
    have pool : labeled.pool = .new options.allocatable := by
      rw [only, ← allocatable]
      rfl
    have caches : labeled.caches = ∅ := by rw [only]; rfl
    have statistics : labeled.statistics = .zero := by rw [only]; rfl
    ext bank
    case free => exact pool ▸ RegisterPool.freeCount_new (allocatable ▸ usable) bank
    case slots => simp [Workspace.ledger, Workspace.freeSlots, Routine.frame_eq_of_start starting,
      Frame.new, slots, Ledger.opening]
    all_goals simp [Workspace.ledger, Ledger.opening, pool, caches, statistics, RegisterPool.new,
      Statistics.nameless, Statistics.zero]
  · have reset : (modify Workspace.reset : Build Unit) work = .ok () work.reset := rfl
    rw [compile, estate_bind_of_ok (Build.lift_ok (Build.node_ok found)),
      estate_bind_of_ok (Build.lift_ok (Tree.checkParameters_eq_ok.mpr declared)),
      estate_bind_of_ok reset, estate_bind_of_ok labeling,
      estate_bind_of_ok (Compilation.start_ok starting)]
    rfl

/-- What is finished is what was generated: the pool and the values that were parked stay. -/
theorem Compilation.finish_cases {routine : Routine} (begun : work.routine = some routine)
    (result : Location) (kind : Kind) :
    (∃ compiled after, finish result kind work = .ok compiled after ∧ after.pool = work.pool ∧
      compiled.statistics.valuesParked = work.statistics.valuesParked) ∨
    ∃ cause after, finish result kind work = .error cause after ∧ cause.isExhaustion = false := by
  cases done : finish result kind work with
  | ok compiled after =>
    obtain ⟨_, statistics, rfl⟩ := of_finish begun done
    exact .inl ⟨compiled, _, rfl, rfl, by rw [statistics]⟩
  | error cause after =>
    have taken : takeRoutine work = .ok routine { work with routine := none } := by
      rw [takeRoutine_eq, begun]
    refine .inr ⟨cause, after, rfl, ?_⟩
    rw [finish, estate_bind_of_ok taken] at done
    cases left : Routine.leave result kind routine with
    | ok value ended =>
      rw [left] at done
      cases done
    | error fault ended =>
      rw [left] at done
      cases done
      rfl

/-- What is generated is finished as the ledger says, unless it fails for lack of something else
than room. -/
theorem Compilation.generate_booked (formed : tree.Formed) {opened : Workspace}
    (orderly : opened.Orderly tree (tree.labelBelow root) (tree.Reaches root))
    (begins : opened.ledger = Ledger.opening options) (signature : Signature) :
    match generate tree signature root opened with
    | .ok compiled after => ∃ holding ledger, Ledger.outcome tree root options = .ok holding ledger ∧
        after.pool.peaks.get = ledger.peak ∧
        compiled.statistics.valuesParked = ledger.statistics.valuesParked
    | .error cause _ => cause.isExhaustion = true → ∃ shortage ledger,
        Ledger.outcome tree root options = .error shortage ledger ∧
        cause = .exhausted shortage.bank shortage.activity := by
  have booked := Generation.booked_within formed (tree.closed_reaches root) tree.size root .refl
    (some (Convention.resultRegister signature.result.bank)) opened orderly
  rw [begins] at booked
  simp only [generate, Bind.bind, EStateM.bind, Generation.visit]
  rw [Ledger.outcome]
  generalize Generation.within tree tree.size root _ opened = ended,
    Ledger.within tree (tree.labelBelow root) tree.size root _ = entry at booked ⊢
  cases booked with
  | exhausted bank activity after later => exact fun _ => ⟨⟨bank, activity⟩, later, rfl, rfl⟩
  | failed other after => exact fun exhausts => absurd exhausts (by simp [other])
  | @ok result holding visited _ _ orderly books =>
    subst books
    have given : Build.Booked (Workspace.Orderly tree _ _) _ (Build.release tree result visited) _ :=
      Build.booked_release orderly
    simp only
    generalize Build.release tree result visited = released at given ⊢
    cases given with
    | failed other after => exact fun exhausts => absurd exhausts (by simp [other])
    | @ok _ _ after _ _ orderly books =>
      obtain ⟨routine, begun⟩ := orderly.begun
      rcases finish_cases begun result.location signature.result with
        ⟨compiled, finished, done, pool, parked⟩ | ⟨cause, finished, failed, other⟩
      · simp only [done]
        refine ⟨holding, visited.ledger, rfl, ?_, ?_⟩
        · have peak : after.ledger.peak = visited.ledger.peak := by rw [books, Ledger.peak_refund]
          rw [pool]
          exact peak
        · have statistics : after.ledger.statistics = visited.ledger.statistics := by
            rw [books, Ledger.statistics_refund]
          have values := congrArg Statistics.valuesParked statistics
          rw [parked, ← values]
          rfl
      · simp only [failed]
        exact fun exhausts => absurd exhausts (by simp [other])

/-- A compilation succeeds if its ledger finds room for everything, with the peaks and the parked
values that the ledger has; otherwise it fails for the reason that the ledger gives. -/
theorem compile_booked (history : History options tree work)
    (declared : tree.Declared signature.parameters) (exist : root < tree.size) :
    match Ledger.outcome tree root options with
    | .ok _ ledger => ∃ compiled after, compile tree signature root work = .ok compiled after ∧
        after.pool.peaks.get = ledger.peak ∧
        compiled.statistics.valuesParked = ledger.statistics.valuesParked
    | .error shortage _ => ∃ after, compile tree signature root work =
        .error (.exhausted shortage.bank shortage.activity) after := by
  obtain ⟨opened, orderly, begins, same⟩ := compile_begins history declared exist
  have yields := compile_yields history.built.formed history.integral declared
    (Array.getElem?_eq_getElem exist) work
  have booked := Compilation.generate_booked history.built.formed orderly begins signature
  rw [← same] at booked
  rw [Build.Yields] at yields
  cases done : compile tree signature root work with
  | ok compiled after =>
    rw [done] at booked
    obtain ⟨holding, ledger, ends, room⟩ := booked
    rw [ends]
    exact ⟨compiled, after, rfl, room⟩
  | error cause after =>
    rw [done] at booked yields
    obtain ⟨shortage, ledger, ends, rfl⟩ := booked yields
    rw [ends]
    exact ⟨after, rfl⟩

end NativeExpr
