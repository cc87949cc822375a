import NativeExpr.Proofs.Compilation
import NativeExpr.Proofs.Frame
import NativeExpr.Proofs.Machine.Stack

/-!
# Entering and leaving a function

The prologue sets up the frame, and then every parameter is copied from the place where the
caller has put it to its home. The epilogue leaves the result where it has been put.
-/

namespace NativeExpr

namespace Machine

/-- The argument at a place, seen by the function that is entered: those on the stack are above
the return address. -/
def received (machine : Machine) : Place → Word
  | .register register => machine.get register
  | .stack offset => machine.load (machine.get .rsp + 8 + offset.signExtend 64)

/-- The argument at a place, seen from the frame of the function. -/
def incoming (machine : Machine) : Place → Word
  | .register register => machine.get register
  | .stack offset => machine.load (machine.get .rbp + (16 + offset).signExtend 64)

/-- Whether a state has the frame of a function that was entered in another one: the caller's
frame pointer and the registers that it wants back are saved below the return address. -/
structure Framed (entry machine : Machine) : Prop where
  base : machine.get .rbp = entry.get .rsp - 8
  saved : machine.Stacked entry.get (entry.get .rsp - 48) (Convention.calleeSaved.reverse ++ [.rbp])
  returns : machine.load (entry.get .rsp) = entry.load (entry.get .rsp)

/-- A frame stays as long as the frame pointer and the words above the body do. -/
theorem Framed.keep {entry machine later : Machine} (framed : entry.Framed machine)
    (base : later.get .rbp = machine.get .rbp)
    (memory : ∀ place, 0 < machine.below place → machine.below place ≤ 56 →
      later.memory place = machine.memory place) : entry.Framed later where
  base := base.trans framed.base
  saved := by
    refine framed.saved.congr (by decide) fun place within => memory place ?_ ?_
    all_goals
      have count : 8 * (Convention.calleeSaved.reverse ++ [Register.rbp]).length = 48 := rfl
      simp only [count, BitVec.toNat_sub, BitVec.reduceToNat] at within
      simp only [below, framed.base, BitVec.toNat_sub, BitVec.toNat_add, BitVec.reduceToNat]
      omega
  returns := by
    rw [← framed.returns]
    apply load_congr
    intro position within
    apply memory <;>
      simp only [below, framed.base, BitVec.toNat_sub, BitVec.toNat_add, BitVec.toNat_ofNat,
        BitVec.reduceToNat] <;> omega

end Machine

namespace Transfer

/-- A function first saves the caller's frame pointer below the return address and has its own frame
start from there. -/
theorem effects_linking (natives : Natives) (entry : Machine) :
    let linked := Request.effects natives entry [.push .rbp, .move .rbp .rsp]
    linked.get .rbp = entry.get .rsp - 8 ∧ linked.get .rsp = entry.get .rsp - 8 ∧
      linked.load (entry.get .rsp - 8) = entry.get .rbp ∧
      (∀ register : Register, register.InBank → register ≠ .rsp → register ≠ .rbp →
        linked.get register = entry.get register) ∧
      ∀ place : Word, 8 ≤ (place - (entry.get .rsp - 8)).toNat →
        linked.memory place = entry.memory place := by
  intro linked
  obtain ⟨kept, lowered, stored, memory⟩ := Machine.push_effect natives entry .rbp
  have steps : linked =
      (Request.effect natives entry (.push .rbp)).set .rbp (entry.get .rsp - 8) := by
    rw [← lowered]
    rfl
  rw [steps]
  refine ⟨Machine.get_set_self .., ?_, ?_, fun register real notStack notFrame => ?_,
    fun place outside => ?_⟩
  · rw [Machine.get_set_other _ _ (by decide) (by decide) (by decide), lowered]
  · rw [Machine.load_set, stored]
  · rw [Machine.get_set_other _ _ (by decide) real notFrame, kept register real notStack]
  · rw [Machine.memory_set, memory place outside]

/-- Reserving the body of a frame lowers the stack pointer by its size. -/
theorem effects_reserving (natives : Natives) (machine : Machine) (size : BitVec 32) :
    Request.effects natives machine (if size = 0 then [] else [.arithConstant .sub .rsp size]) =
      machine.set .rsp (machine.get .rsp - size.signExtend 64) := by
  split
  · rename_i empty
    rw [empty]
    simp
  · rfl

/-- The prologue writes the words below the return address. -/
theorem writes_prologue (natives : Natives) (entry : Machine) (size : BitVec 32) :
    Request.Writes natives (fun place => 8 ≤ (entry.get .rsp - place).toNat ∧
      (entry.get .rsp - place).toNat ≤ 48) entry (prologue Convention.calleeSaved size) := by
  obtain ⟨_, stack, _, _, _⟩ := effects_linking natives entry
  rw [prologue, Request.writes_append, Request.writes_append]
  refine ⟨⟨⟨fun place target => ?_, fun place target => ?_, trivial⟩,
    Machine.writes_pushes natives fun position within => ?_⟩,
    Request.writes_of_quiet natives _ _ fun request member => ?_⟩
  · obtain rfl := Option.some.inj target
    simp only [BitVec.toNat_sub, BitVec.reduceToNat]
    omega
  · cases target
  · rw [stack]
    have few : position < 5 := within
    simp only [BitVec.toNat_sub, BitVec.toNat_mul, BitVec.toNat_ofNat, BitVec.reduceToNat]
    omega
  · split at member
    · exact (List.not_mem_nil member).elim
    · exact List.mem_singleton.mp member ▸ trivial

/-- The prologue puts the frame below the return address and changes nothing above it. -/
theorem effects_prologue (natives : Natives) (entry : Machine) (size : BitVec 32) :
    let state := Request.effects natives entry (prologue Convention.calleeSaved size)
    entry.Framed state ∧ (size.toNat < 2 ^ 31 → state.depth = 56 + size.toNat) ∧
      (∀ register : Register, register.InBank → register ≠ .rsp → register ≠ .rbp →
        state.get register = entry.get register) ∧
      ∀ place : Word, 48 ≤ (place - (entry.get .rsp - 48)).toNat →
        state.memory place = entry.memory place := by
  intro state
  let linked := Request.effects natives entry [.push .rbp, .move .rbp .rsp]
  let pushed := Request.effects natives linked (Convention.calleeSaved.map .push)
  have saved : ∀ register ∈ Convention.calleeSaved,
      register.InBank ∧ register ≠ .rsp ∧ register ≠ .rbp := by decide
  obtain ⟨linkBase, linkStack, linkWord, linkKept, linkMemory⟩ := effects_linking natives entry
  obtain ⟨kept, lowered, memory, stacked⟩ := Machine.pushes_effect natives linked (by decide)
    fun register listed => ⟨(saved register listed).1, (saved register listed).2.1⟩
  have body : state = pushed.set .rsp (pushed.get .rsp - size.signExtend 64) := by
    rw [← effects_reserving natives, ← Request.effects_append, ← Request.effects_append]
    rfl
  have bottom : pushed.get .rsp = entry.get .rsp - 48 := by
    rw [lowered, linkStack, BitVec.sub_sub]
    rfl
  have base : state.get .rbp = entry.get .rsp - 8 := by
    rw [body, Machine.get_set_other _ _ (by decide) (by decide) (by decide),
      kept .rbp (by decide) (by decide), linkBase]
  have outside (place : Word) (outside : 40 ≤ (place - (entry.get .rsp - 48)).toNat) :
      state.memory place = linked.memory place := by
    rw [body, Machine.memory_set]
    exact memory place (bottom.symm ▸ outside)
  have above (place : Word) (above : 48 ≤ (place - (entry.get .rsp - 48)).toNat) :
      state.memory place = entry.memory place := by
    rw [outside place (by omega), linkMemory place]
    simp only [BitVec.toNat_sub, BitVec.reduceToNat] at above ⊢
    omega
  refine ⟨⟨base, ?_, ?_⟩, fun small => ?_, fun register real notStack notFrame => ?_, above⟩
  · rw [Machine.stacked_append]
    refine ⟨?_, ?_, trivial⟩
    · rw [bottom] at stacked
      refine (stacked.of_memory ?_).values_congr fun register listed => ?_
      · rw [body, Machine.memory_set]
      · obtain ⟨real, notStack, notFrame⟩ := saved register (List.mem_reverse.mp listed)
        exact (linkKept register real notStack notFrame).symm
    · -- The frame pointer of the caller was pushed before the registers.
      have place : entry.get .rsp - 48 + 8 * BitVec.ofNat 64 Convention.calleeSaved.reverse.length =
          entry.get .rsp - 8 := by
        have count : 8 * BitVec.ofNat 64 Convention.calleeSaved.reverse.length = (40 : Word) := rfl
        rw [count]
        bv_omega
      rw [place, ← linkWord]
      refine Machine.load_congr_above outside ?_ ?_ <;>
        simp only [BitVec.toNat_sub, BitVec.reduceToNat] <;> omega
  · refine Machine.load_congr_above above ?_ ?_ <;>
      simp only [BitVec.toNat_sub, BitVec.reduceToNat] <;> omega
  · have stack : state.get .rsp = entry.get .rsp - 48 - size.signExtend 64 := by
      rw [body, Machine.get_set_self, bottom]
    simp only [Machine.depth, Machine.below, base, stack, BitVec.toNat_sub, BitVec.toNat_add,
      Machine.toNat_signExtend_of_lt small, BitVec.reduceToNat]
    omega
  · rw [body, Machine.get_set_other _ _ (by decide) real notStack, kept register real notStack,
      linkKept register real notStack notFrame]

/-- The epilogue ends with the return. -/
theorem epilogue_eq (saved : List Register) :
    epilogue saved = ([.address .rsp .rbp (-(8 * BitVec.ofNat 32 saved.length))] ++
      (saved.reverse ++ [Register.rbp]).map Request.pop) ++ [.ret] := by
  simp [epilogue]

/-- Up to the return the epilogue gives the caller its registers and its stack back, and leaves
the result registers alone. -/
theorem effects_epilogue (natives : Natives) {entry machine : Machine}
    (framed : entry.Framed machine) :
    let offset : Offset := -(8 * BitVec.ofNat 32 Convention.calleeSaved.length)
    let final := Request.effects natives machine ([.address .rsp .rbp offset] ++
      (Convention.calleeSaved.reverse ++ [Register.rbp]).map Request.pop)
    final.get .rsp = entry.get .rsp ∧
      (∀ register ∈ .rbp :: Convention.calleeSaved, final.get register = entry.get register) ∧
      (∀ bank, final.get (Convention.resultRegister bank) =
        machine.get (Convention.resultRegister bank)) ∧
      final.memory = machine.memory := by
  intro offset final
  have popped : ∀ register ∈ Convention.calleeSaved.reverse ++ [Register.rbp],
      register.InBank ∧ register ≠ .rsp := by decide
  have bottom : machine.get .rbp + offset.signExtend 64 = entry.get .rsp - 48 := by
    have below : offset.signExtend 64 = (-40 : Word) := by decide
    rw [framed.base, below]
    bv_omega
  have stacked : (machine.set .rsp (entry.get .rsp - 48)).Stacked entry.get
      ((machine.set .rsp (entry.get .rsp - 48)).get .rsp)
      (Convention.calleeSaved.reverse ++ [.rbp]) := by
    rw [Machine.get_set_self]
    exact framed.saved.of_memory (Machine.memory_set ..)
  obtain ⟨restored, kept, raised, memory⟩ :=
    Machine.pops_effect natives (by decide) popped stacked
  have steps : final = Request.effects natives (machine.set .rsp (entry.get .rsp - 48))
      ((Convention.calleeSaved.reverse ++ [Register.rbp]).map Request.pop) := by
    rw [← bottom]
    exact Request.effects_append ..
  rw [← steps] at restored kept raised memory
  refine ⟨?_, fun register listed => restored register ?_, fun bank => ?_, ?_⟩
  · rw [raised, Machine.get_set_self]
    exact BitVec.sub_add_cancel ..
  · rw [List.mem_append, List.mem_reverse, List.mem_singleton]
    exact (List.mem_cons.mp listed).symm
  · have result : (Convention.resultRegister bank).InBank ∧
        Convention.resultRegister bank ≠ .rsp ∧
        Convention.resultRegister bank ∉ Convention.calleeSaved.reverse ++ [.rbp] := by
      cases bank <;> decide
    rw [kept _ result.1 result.2.1 result.2.2]
    exact Machine.get_set_other machine _ (by decide) result.1 result.2.1
  · rw [memory, Machine.memory_set]

end Transfer

/-- The arguments on the stack are words above the frame. -/
theorem Convention.toNat_stack {kinds : List Kind}
    (few : kinds.length ≤ 2 ^ 28 - 5) {offset : Offset}
    (listed : .stack offset ∈ Convention.places kinds) :
    (offset.signExtend 64).toNat < 2 ^ 31 - 32 ∧
      ((16 + offset).signExtend 64).toNat = 16 + (offset.signExtend 64).toNat := by
  obtain ⟨position, rfl, _, _, within⟩ := Assigner.proper_new.stack_mem listed
  have bound := (Assigner.stack_final .new kinds).2
  simp only [Assigner.new] at bound within
  have number : (BitVec.ofNat 32 position).toNat = position := by
    rw [BitVec.toNat_ofNat]
    omega
  have sum : (16 + BitVec.ofNat 32 position).toNat = 16 + position := by
    simp only [BitVec.toNat_add, BitVec.reduceToNat, number]
    omega
  have low := Machine.toNat_offset (BitVec.ofNat 32 position)
  have high := Machine.toNat_offset (16 + BitVec.ofNat 32 position)
  have lowSigned := BitVec.toInt_eq_toNat_cond (BitVec.ofNat 32 position)
  have highSigned := BitVec.toInt_eq_toNat_cond (16 + BitVec.ofNat 32 position)
  split at lowSigned <;> split at highSigned <;> omega

namespace Routine

/-- Ending a function brings its result to the result register and gives the caller its registers
and its stack back. -/
theorem leave_returns {routine ended : Routine} {result : Location} {kind : Kind} {value : Unit}
    (done : leave result kind routine = .ok value ended) :
    ∃ body, Straight body ∧ Quiet body ∧
      ended.code.toList = routine.code.toList ++ body ++ [.ret] ∧
      ∀ natives (entry machine : Machine), entry.Framed machine →
        let final := machine.after natives body
        final.get (Convention.resultRegister kind.bank) = machine.value result ∧
          final.get .rsp = entry.get .rsp ∧
          (∀ register ∈ .rbp :: Convention.calleeSaved,
            final.get register = entry.get register) ∧
          final.load (entry.get .rsp) = entry.load (entry.get .rsp) := by
  obtain ⟨instructions, granted, rfl⟩ := write_eq_ok.mp done
  rw [Transfer.epilogue_eq, ← List.append_assoc] at granted
  obtain ⟨body, last, bodyGranted, lastGranted, rfl⟩ := assemble_append_eq_ok granted
  obtain rfl : [Instruction.ret] = last := congrArg Assembly.instructions lastGranted
  have popping : ∀ request ∈ (Convention.calleeSaved.reverse ++ [Register.rbp]).map Request.pop,
      request.Plain ∧ request.Quiet := by
    intro request member
    obtain ⟨register, _, rfl⟩ := List.mem_map.mp member
    exact ⟨trivial, trivial⟩
  have asked : ∀ request ∈ Transfer.intoRegister (Convention.resultRegister kind.bank) result ++
      ([.address .rsp .rbp (-(8 * BitVec.ofNat 32 Convention.calleeSaved.length))] ++
        (Convention.calleeSaved.reverse ++ [Register.rbp]).map Request.pop),
      request.Plain ∧ request.Quiet := by
    intro request member
    rcases List.mem_append.mp member with member | member
    · exact ⟨Transfer.plain_intoRegister _ result request member,
        Transfer.quiet_intoRegister _ result request member⟩
    · rcases List.mem_append.mp member with member | member
      · exact List.mem_singleton.mp member ▸ ⟨trivial, trivial⟩
      · exact popping request member
  refine ⟨body, straight_of_assemble bodyGranted fun request member => (asked request member).1,
    quiet_of_assemble bodyGranted fun request member => (asked request member).2,
    by rw [code_append, List.append_assoc], fun natives entry machine framed => ?_⟩
  have real : (Convention.resultRegister kind.bank).InBank := by cases kind.bank <;> decide
  obtain ⟨value, agree⟩ := Transfer.effects_intoRegister natives machine real result
  rw [after_of_assemble natives machine bodyGranted, Request.effects_append]
  generalize Request.effects natives machine
    (Transfer.intoRegister (Convention.resultRegister kind.bank) result) = moved at *
  have base : moved.get .rbp = machine.get .rbp := by
    apply agree.get .rbp (by decide)
    cases kind.bank <;> split <;> decide
  have stays : entry.Framed moved :=
    framed.keep base fun place _ _ => congrFun agree.memory place
  obtain ⟨stack, saved, results, memory⟩ := Transfer.effects_epilogue natives stays
  refine ⟨(results kind.bank).trans value, stack, saved, ?_⟩
  rw [← stays.returns, Machine.load, Machine.load, memory]

/-- A parameter that is copied to its home is there, and only the scratch register changes. -/
theorem effects_homeParameter (natives : Natives) (machine : Machine) (home : Offset)
    (place : Place) :
    let later := Request.effects natives machine (homeParameter home place)
    (∀ register : Register, register.InBank → register ≠ .r11 →
      later.get register = machine.get register) ∧
      later.memory =
        (machine.store (machine.slot home) (machine.incoming place)).memory := by
  cases place with
  | register register => exact ⟨fun other _ _ => Machine.get_store .., rfl⟩
  | stack offset =>
    have frame (value : Word) : (machine.set .r11 value).get .rbp = machine.get .rbp :=
      Machine.get_set_other machine value (by decide) (by decide) (by decide)
    constructor
    · intro register real other
      simp only [homeParameter, Convention.scratch, Request.effects_cons, Request.effects_nil,
        Request.effect, Machine.get_store]
      exact Machine.get_set_other machine _ (by decide) real other
    · simp only [homeParameter, Convention.scratch, Request.effects_cons, Request.effects_nil,
        Request.effect, frame, Machine.get_set_self, Machine.store, Machine.memory_set]
      rfl

/-- Filling a home leaves alone what is incoming in other places: registers, and words above the
frame. -/
theorem incoming_homeParameter (natives : Natives) {machine : Machine} {frame : Frame}
    {home : Offset} (covers : frame.Covers home) (place : Place) {other : Place}
    (registers : ∀ register, other = .register register → register.InBank ∧ register ≠ .r11)
    (offsets : ∀ offset, other = .stack offset →
      ((16 + offset).signExtend 64).toNat < 2 ^ 31 ∧ 16 ≤ ((16 + offset).signExtend 64).toNat) :
    (Request.effects natives machine (homeParameter home place)).incoming other =
      machine.incoming other := by
  obtain ⟨kept, stored⟩ := effects_homeParameter natives machine home place
  cases other with
  | register register => exact kept register (registers register rfl).1 (registers register rfl).2
  | stack offset =>
    obtain ⟨small, large⟩ := offsets offset rfl
    obtain ⟨_, low, high⟩ := covers.distance machine
    have bounded := frame.size.isLt
    simp only [Machine.incoming, kept .rbp (by decide) (by decide), Machine.load, stored]
    refine Machine.load_congr_above (fun address outside =>
      Machine.memory_store_of_le machine (machine.incoming place) outside) ?_ ?_ <;>
      simp only [Machine.below, Machine.slot, BitVec.toNat_sub, BitVec.toNat_add,
        BitVec.reduceToNat] at low high ⊢ <;> omega

/-- Filling homes writes the homes. -/
theorem writes_homing (natives : Natives) {machine : Machine} {pairs : List (Offset × Place)}
    {allowed : Word → Prop} (each : ∀ pair ∈ pairs, allowed (machine.slot pair.1)) :
    Request.Writes natives allowed machine
      (pairs.flatMap fun (home, place) => homeParameter home place) := by
  induction pairs generalizing machine with
  | nil => trivial
  | cons first rest ih =>
    obtain ⟨home, place⟩ := first
    have base (register : Register) (real : register.InBank) (other : register ≠ .r11) :=
      (effects_homeParameter natives machine home place).1 register real other
    have frame := base .rbp (by decide) (by decide)
    rw [List.flatMap_cons, Request.writes_append]
    refine ⟨?_, ih fun pair member => ?_⟩
    · have here := each (home, place) List.mem_cons_self
      cases place with
      | register register =>
        refine ⟨fun place target => ?_, trivial⟩
        obtain rfl := Option.some.inj target
        exact here
      | stack offset =>
        refine ⟨fun place target => ?_, fun place target => ?_, trivial⟩
        · cases target
        · obtain rfl := Option.some.inj target
          rw [Request.effect, Machine.get_set_other machine _ (by decide) (by decide) (by decide)]
          exact here
    · rw [Machine.slot, frame]
      exact each pair (List.mem_cons_of_mem _ member)

/-- Filling homes that are different words of a frame gives them the incoming arguments. -/
theorem effects_homing (natives : Natives) {frame : Frame} (machine : Machine)
    {pairs : List (Offset × Place)} (distinct : (pairs.map Prod.fst).Nodup)
    (covers : ∀ pair ∈ pairs, frame.Covers pair.1)
    (registers : ∀ pair ∈ pairs, ∀ register, pair.2 = .register register →
      register.InBank ∧ register ≠ .r11)
    (offsets : ∀ pair ∈ pairs, ∀ offset, pair.2 = .stack offset →
      ((16 + offset).signExtend 64).toNat < 2 ^ 31 ∧ 16 ≤ ((16 + offset).signExtend 64).toNat) :
    let later := Request.effects natives machine
      (pairs.flatMap fun (home, place) => homeParameter home place)
    (∀ register : Register, register.InBank → register ≠ .r11 →
      later.get register = machine.get register) ∧
      (∀ place, (∀ pair ∈ pairs, 8 ≤ (place - machine.slot pair.1).toNat) →
        later.memory place = machine.memory place) ∧
      ∀ pair ∈ pairs, later.value (.slot pair.1) = machine.incoming pair.2 := by
  induction pairs generalizing machine with
  | nil =>
    exact ⟨fun _ _ _ => rfl, fun _ _ => rfl, fun _ member => (List.not_mem_nil member).elim⟩
  | cons first rest ih =>
    intro later
    obtain ⟨home, place⟩ := first
    obtain ⟨fresh, distinct⟩ := List.nodup_cons.mp distinct
    obtain ⟨kept, stored⟩ := effects_homeParameter natives machine home place
    have here := covers (home, place) List.mem_cons_self
    have waiting {pair : Offset × Place} (member : pair ∈ rest) :
        (Request.effects natives machine (homeParameter home place)).incoming pair.2 =
          machine.incoming pair.2 :=
      incoming_homeParameter natives here place (registers pair (List.mem_cons_of_mem _ member))
        (offsets pair (List.mem_cons_of_mem _ member))
    have steps : later = Request.effects natives
        (Request.effects natives machine (homeParameter home place))
        (rest.flatMap fun (home, place) => homeParameter home place) := by
      rw [← Request.effects_append]
      rfl
    generalize Request.effects natives machine (homeParameter home place) = filled at *
    obtain ⟨restKept, restMemory, restValues⟩ := ih filled distinct
      (fun pair member => covers pair (List.mem_cons_of_mem _ member))
      (fun pair member => registers pair (List.mem_cons_of_mem _ member))
      (fun pair member => offsets pair (List.mem_cons_of_mem _ member))
    rw [← steps] at restKept restMemory restValues
    have base : filled.get .rbp = machine.get .rbp := kept .rbp (by decide) (by decide)
    have slot (offset : Offset) : filled.slot offset = machine.slot offset := by
      simp only [Machine.slot, base]
    refine ⟨fun register real other => ?_, fun address apart => ?_, fun pair member => ?_⟩
    · exact (restKept register real other).trans (kept register real other)
    · refine (restMemory address fun pair member => ?_).trans ?_
      · rw [slot]
        exact apart pair (List.mem_cons_of_mem _ member)
      · rw [stored]
        exact Machine.memory_store_of_le machine _ (apart (home, place) List.mem_cons_self)
    · rcases List.mem_cons.mp member with rfl | member
      · -- The other homes share no byte with the first one.
        have written : filled.load (machine.slot home) = machine.incoming place := by
          rw [Machine.load, stored]
          exact Machine.load_store ..
        have frame : later.get .rbp = machine.get .rbp :=
          (restKept .rbp (by decide) (by decide)).trans base
        rw [← written, Machine.value, frame]
        refine Machine.load_congr fun position within => restMemory _ fun other listed => ?_
        have different : other.1 ≠ home := by
          rintro rfl
          exact fresh (List.mem_map.mpr ⟨other, listed, rfl⟩)
        rw [slot]
        exact ((covers other (List.mem_cons_of_mem _ listed)).apart here different machine).outside
          within
      · exact (restValues pair member).trans (waiting member)

/-- What is incoming in a frame that has been set up is what the function has received: the registers
of arguments are as they were, and so are the words above the frame. -/
theorem incoming_eq_received {entry begun : Machine} {kinds : List Kind}
    (few : kinds.length ≤ 2 ^ 28 - 5) (base : begun.get .rbp = entry.get .rsp - 8)
    (registers : ∀ register : Register, register.InBank → register ≠ .rsp → register ≠ .rbp →
      begun.get register = entry.get register)
    (memory : ∀ place : Word, 48 ≤ (place - (entry.get .rsp - 48)).toNat →
      begun.memory place = entry.memory place) {place : Place}
    (listed : place ∈ Convention.places kinds) : begun.incoming place = entry.received place := by
  cases place with
  | register register =>
    have usable := (Convention.usable_of_mem_places listed).1
    exact registers register usable.inBank usable.ne_rsp usable.ne_rbp
  | stack offset =>
    obtain ⟨bound, sum⟩ := Convention.toNat_stack few listed
    have address : begun.get .rbp + (16 + offset).signExtend 64 =
        entry.get .rsp + 8 + offset.signExtend 64 := by
      apply BitVec.eq_of_toNat_eq
      simp only [base, BitVec.toNat_add, BitVec.toNat_sub, sum, BitVec.reduceToNat]
      omega
    simp only [Machine.incoming, Machine.received, address]
    refine Machine.load_congr_above memory ?_ ?_ <;>
      simp only [BitVec.toNat_sub, BitVec.toNat_add, BitVec.reduceToNat] <;> omega

/-- What the code with which a function begins has done: the prologue has set up the frame, and
every argument has been copied to the home of its parameter. -/
structure Entered (natives : Natives) (entry : Machine) (frame : Frame) (places : List Place)
    (prologue homing : List Instruction) : Prop where
  granted : assemble (Transfer.prologue Convention.calleeSaved frame.size) = ⟨prologue, none⟩
  straight : Straight (prologue ++ homing)
  base : (entry.after natives prologue).get .rbp = entry.get .rsp - 8
  framed : entry.Framed (entry.after natives (prologue ++ homing))
  depth : (entry.after natives (prologue ++ homing)).depth = 56 + frame.size.toNat
  homes : ∀ (index : Nat) (home : Offset) (place : Place), frame.homes[index]? = some home →
    places[index]? = some place →
      (entry.after natives (prologue ++ homing)).value (.slot home) = entry.received place
  saves : entry.Writes natives (fun place => 8 ≤ (entry.get .rsp - place).toNat ∧
    (entry.get .rsp - place).toNat ≤ 48) prologue
  fills : (entry.after natives prologue).Writes natives (fun place =>
    56 ≤ (entry.get .rsp - place).toNat ∧
      (entry.get .rsp - place).toNat ≤ 48 + frame.size.toNat) homing

/-- The code with which a function begins sets up its frame and copies every argument to the home
of its parameter. The homes are next to the saved registers, so it does not matter how many slots
there are below them. -/
theorem effects_entering {parameters : List Kind} {slots : Nat}
    {prologue filling : List Instruction} (few : parameters.length ≤ 2 ^ 28 - 5)
    (opens : assemble (Transfer.prologue Convention.calleeSaved (new parameters slots).frame.size) =
      ⟨prologue, none⟩)
    (fills : assemble (homing (new parameters slots).frame (Convention.places parameters)) =
      ⟨filling, none⟩) (natives : Natives) (entry : Machine) :
    (entry.after natives prologue).get .rbp = entry.get .rsp - 8 ∧
      entry.Framed (entry.after natives (prologue ++ filling)) ∧
      ((new parameters slots).frame.size.toNat < 2 ^ 31 →
        (entry.after natives (prologue ++ filling)).depth =
          56 + (new parameters slots).frame.size.toNat) ∧
      ∀ (index : Nat) (home : Offset) (place : Place),
        (new parameters slots).frame.homes[index]? = some home →
          (Convention.places parameters)[index]? = some place →
            (entry.after natives (prologue ++ filling)).value (.slot home) =
              entry.received place := by
  -- The homes are those of a function without slots.
  have sound : (Frame.new parameters.length 0).Sound := Frame.sound_new (by omega)
  have distinct : (new parameters slots).frame.homes.Nodup :=
    @Frame.nodup_homes_new parameters.length 0 (by omega)
  obtain ⟨framed, depth, registers, memory⟩ :=
    Transfer.effects_prologue natives entry (new parameters slots).frame.size
  rw [← after_of_assemble natives entry opens] at framed depth registers memory
  have effect : entry.after natives (prologue ++ filling) = Request.effects natives
      (entry.after natives prologue)
      (homing (new parameters slots).frame (Convention.places parameters)) := by
    rw [Machine.after_append, after_of_assemble natives _ fills]
  generalize entry.after natives (prologue ++ filling) = later at *
  generalize entry.after natives prologue = begun at *
  have places : (new parameters slots).frame.homes.length ≤
      (Convention.places parameters).length := by
    rw [Convention.places, Assigner.length_assignAll]
    simp [new, Frame.new]
  have arrives {pair : Offset × Place}
      (member : pair ∈ (new parameters slots).frame.homes.zip (Convention.places parameters)) :
      pair.1 ∈ (new parameters slots).frame.homes ∧ pair.2 ∈ Convention.places parameters :=
    List.of_mem_zip member
  obtain ⟨kept, elsewhere, filled⟩ := effects_homing natives begun
    ((List.map_fst_zip places).symm ▸ distinct)
    (fun pair member => sound.homes pair.1 (arrives member).1)
    (fun pair member register place => by
      have usable := (Convention.usable_of_mem_places (place ▸ (arrives member).2)).1
      exact ⟨usable.inBank, usable.ne_r11⟩)
    (fun pair member offset place => by
      obtain ⟨bound, sum⟩ := Convention.toNat_stack few (place ▸ (arrives member).2)
      omega)
  have filler : Request.effects natives begun ((((new parameters slots).frame.homes.zip
      (Convention.places parameters))).flatMap fun (home, place) => homeParameter home place) =
        later := effect.symm
  rw [filler] at kept elsewhere filled
  have frame := kept .rbp (by decide) (by decide)
  have stack := kept .rsp (by decide) (by decide)
  refine ⟨framed.base, framed.keep frame fun place inside within => elsewhere place
    fun pair member => ?_, fun small => ?_, fun index home place homed placed => ?_⟩
  · have distance := (sound.homes pair.1 (arrives member).1).distance begun
    simp only [Machine.below, BitVec.toNat_sub] at distance inside within ⊢
    omega
  · refine Eq.trans ?_ (depth small)
    simp only [Machine.depth, Machine.below, frame, stack]
  · have paired : (home, place) ∈ (new parameters slots).frame.homes.zip
        (Convention.places parameters) :=
      List.mem_of_getElem? (List.getElem?_zip_eq_some.mpr ⟨homed, placed⟩)
    exact (filled (home, place) paired).trans (incoming_eq_received few framed.base registers memory
      (List.mem_of_getElem? placed))

/-- A function that has just been begun has its frame, with every argument in the home of its
parameter. -/
theorem entered {parameters : List Kind} {slots : Nat} {started : Routine}
    (done : start parameters slots = .ok started)
    (small : slots + parameters.length ≤ 2 ^ 28 - 5) (natives : Natives) (entry : Machine) :
    ∃ prologue homing, started = (new parameters slots).append (prologue ++ homing) ∧
      Entered natives entry started.frame (Convention.places parameters) prologue homing := by
  obtain ⟨instructions, granted, rfl⟩ := of_start done
  have straight := straight_entering granted
  obtain ⟨prologue, filling, prologueGranted, fillingGranted, rfl⟩ := assemble_append_eq_ok granted
  have sound := Frame.sound_new small
  have body := Frame.toNat_bodySize (Nat.add_comm slots parameters.length ▸ small)
  have size : (new parameters slots).frame.size.toNat < 2 ^ 31 := by
    change (Frame.bodySize (parameters.length + slots)).toNat < 2 ^ 31
    omega
  have writes := writes_of_assemble prologueGranted
    (Transfer.writes_prologue natives entry (new parameters slots).frame.size)
  obtain ⟨base, framed, depth, homes⟩ :=
    effects_entering (by omega) prologueGranted fillingGranted natives entry
  refine ⟨prologue, filling, rfl, prologueGranted, straight, base, framed, depth size, homes,
    writes, writes_of_assemble fillingGranted (writes_homing natives fun pair member => ?_)⟩
  have home : pair.1 ∈ (new parameters slots).frame.homes := (List.of_mem_zip member).1
  have distance := (sound.homes pair.1 home).distance (entry.after natives prologue)
  change 56 ≤ _ ∧ _ ≤ 48 + (Frame.new parameters.length slots).size.toNat
  simp only [Machine.below, Machine.slot, base, BitVec.toNat_sub, BitVec.toNat_add,
    BitVec.reduceToNat] at distance ⊢
  omega

end Routine

end NativeExpr
