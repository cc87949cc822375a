import NativeExpr.Proofs.Machine.Writing
import NativeExpr.Transfer

/-!
# What a step leaves alone

Most steps of generated code change a few registers and nothing else. `AgreeOutside` says so
of two states, and `effects_intoRegister` says it of bringing a value into a register, which
may overwrite the general-purpose scratch register on the way.
-/

namespace NativeExpr

/-- Whether a register is one that may hold a value: not a scratch register, and not one that
holds the frame. -/
def Register.Usable (register : Register) : Prop :=
  register.InBank ∧ register ∉ [Register.r11, .xmm 15, .rsp, .rbp]

instance (register : Register) : Decidable register.Usable :=
  inferInstanceAs (Decidable (_ ∧ _))

namespace Register.Usable

variable {register : Register}

theorem inBank (usable : register.Usable) : register.InBank := usable.1

theorem ne_r11 (usable : register.Usable) : register ≠ .r11 := by
  rintro rfl
  exact absurd usable (by decide)

theorem ne_rbp (usable : register.Usable) : register ≠ .rbp := by
  rintro rfl
  exact absurd usable (by decide)

theorem ne_rsp (usable : register.Usable) : register ≠ .rsp := by
  rintro rfl
  exact absurd usable (by decide)

theorem ne_scratch (usable : register.Usable) (bank : Bank) :
    register ≠ Convention.scratch bank := by
  rintro rfl
  cases bank <;> exact absurd usable (by decide)

end Register.Usable

namespace Machine

/-- The value at a location. -/
def value (machine : Machine) : Location → Word
  | .register register => machine.get register
  | .slot offset => machine.load (machine.get .rbp + offset.signExtend 64)
  | .constant bits => bits

/-- The value at the place of an argument, seen where the call is made. -/
def argument (machine : Machine) : Place → Word
  | .register register => machine.get register
  | .stack offset => machine.load (machine.get .rsp + offset.signExtend 64)

/-- Two states with the same memory, and the same registers apart from some. -/
structure AgreeOutside (changed : List Register) (before later : Machine) : Prop where
  get : ∀ register : Register, register.InBank → register ∉ changed →
    later.get register = before.get register
  memory : later.memory = before.memory

namespace AgreeOutside

variable {changed more : List Register} {before between later : Machine}

theorem refl (changed : List Register) (machine : Machine) : AgreeOutside changed machine machine :=
  ⟨fun _ _ _ => rfl, rfl⟩

theorem mono (agree : AgreeOutside changed before later) (contained : changed ⊆ more) :
    AgreeOutside more before later :=
  ⟨fun register real kept => agree.get register real fun member => kept (contained member),
    agree.memory⟩

theorem trans (first : AgreeOutside changed before between)
    (second : AgreeOutside changed between later) : AgreeOutside changed before later where
  get register real kept := (second.get register real kept).trans (first.get register real kept)
  memory := second.memory.trans first.memory

theorem load (agree : AgreeOutside changed before later) (address : Word) :
    later.load address = before.load address := by
  simp only [Machine.load, agree.memory]

/-- Changing one register agrees outside it. -/
theorem set (machine : Machine) {register : Register} (value : Word) (real : register.InBank)
    (member : register ∈ changed) : AgreeOutside changed machine (machine.set register value) where
  get _ otherReal kept :=
    get_set_other machine value real otherReal fun same => kept (same ▸ member)
  memory := memory_set machine register value

/-- The value of a location whose registers are kept is the same. -/
theorem value (agree : AgreeOutside changed before later) {location : Location}
    (frame : Register.rbp ∉ changed)
    (kept : ∀ register, location = .register register → register.InBank ∧ register ∉ changed) :
    later.value location = before.value location := by
  cases location with
  | register register =>
    obtain ⟨real, other⟩ := kept register rfl
    exact agree.get register real other
  | slot offset =>
    have base : later.get .rbp = before.get .rbp := agree.get .rbp (by decide) frame
    simp only [Machine.value, base, agree.load]
  | constant bits => rfl

end AgreeOutside

end Machine

namespace Transfer

/-- Bringing a value into a register changes that register and at most the general-purpose
scratch register, the latter only where a constant goes to an XMM register. -/
theorem effects_intoRegister (natives : Natives) (machine : Machine) {target : Register}
    (real : target.InBank) (source : Location) :
    (Request.effects natives machine (intoRegister target source)).get target =
        machine.value source ∧
      Machine.AgreeOutside (target :: if target.bank = .xmm then [.r11] else []) machine
        (Request.effects natives machine (intoRegister target source)) := by
  cases source with
  | register source =>
    refine ⟨?_, Machine.AgreeOutside.set machine _ real List.mem_cons_self⟩
    simp [intoRegister, Request.effect, Machine.value]
  | slot offset =>
    refine ⟨?_, Machine.AgreeOutside.set machine _ real List.mem_cons_self⟩
    simp [intoRegister, Request.effect, Machine.value]
  | constant bits =>
    cases bank : target.bank with
    | generalPurpose =>
      simp only [intoRegister, bank, Request.effects_cons, Request.effects_nil, Request.effect]
      exact ⟨Machine.get_set_self .., Machine.AgreeOutside.set machine _ real List.mem_cons_self⟩
    | xmm =>
      simp only [intoRegister, bank, Request.effects_cons, Request.effects_nil, Request.effect,
        Machine.get_set_self, if_true, Machine.value, true_and]
      refine (Machine.AgreeOutside.set machine _ (by decide) ?_).trans
        (Machine.AgreeOutside.set _ _ real List.mem_cons_self)
      simp [Convention.scratch]

theorem plain_intoRegister (target : Register) (source : Location) :
    ∀ request ∈ intoRegister target source, request.Plain := by
  cases source with
  | register source | slot offset => simp [intoRegister, Request.Plain]
  | constant bits => cases bank : target.bank <;> simp [intoRegister, bank, Request.Plain]

theorem quiet_intoRegister (target : Register) (source : Location) :
    ∀ request ∈ intoRegister target source, request.Quiet := by
  cases source with
  | register source | slot offset => simp [intoRegister, Request.Quiet]
  | constant bits => cases bank : target.bank <;> simp [intoRegister, bank, Request.Quiet]

theorem plain_intoOutgoing (offset : Offset) (source : Location) :
    ∀ request ∈ intoOutgoing offset source, request.Plain := by
  cases source <;> simp [intoOutgoing, Request.Plain]

/-- Bringing a value from a register of the machine into another is granted. -/
theorem granted_intoRegister {target : Register} (real : target.InBank) {source : Location}
    (sourceReal : ∀ register, source = .register register → register.InBank) :
    ∀ request ∈ intoRegister target source, request.Granted := by
  cases source with
  | register register =>
    simpa [intoRegister] using Request.granted_move real (sourceReal register rfl)
  | slot offset =>
    simpa [intoRegister] using Request.granted_load real rfl (by decide) offset
  | constant bits =>
    cases bank : target.bank with
    | generalPurpose => simpa [intoRegister, bank] using Request.granted_constant bank real bits
    | xmm =>
      have loaded : (Request.constant .r11 bits).Granted :=
        Request.granted_constant rfl (by decide) bits
      have moved : (Request.move target .r11).Granted := Request.granted_move real (by decide)
      simpa [intoRegister, bank, Convention.scratch] using And.intro loaded moved

/-- Storing a value from a register of the machine in the outgoing area is granted. -/
theorem granted_intoOutgoing {offset : Offset} {source : Location}
    (sourceReal : ∀ register, source = .register register → register.InBank) :
    ∀ request ∈ intoOutgoing offset source, request.Granted := by
  have stored : (Request.store .rsp offset .r11).Granted :=
    Request.granted_store (by decide) rfl (by decide) offset
  cases source with
  | register register =>
    simpa [intoOutgoing] using Request.granted_store (sourceReal register rfl) rfl (by decide) offset
  | slot slot =>
    have loaded : (Request.load .r11 .rbp slot).Granted :=
      Request.granted_load (by decide) rfl (by decide) slot
    simpa [intoOutgoing, Convention.scratch] using And.intro loaded stored
  | constant bits =>
    have loaded : (Request.constant .r11 bits).Granted :=
      Request.granted_constant rfl (by decide) bits
    simpa [intoOutgoing, Convention.scratch] using And.intro loaded stored

end Transfer

end NativeExpr
