/-!
# Registers

A register is a bank and the number that instructions use for it. A number past
the end of its bank names no register of the machine; such a name can be asked
for, and every operation on it is answered rather than ruled out.
-/

namespace NativeExpr

/-- A family of registers that can stand in for one another. -/
inductive Bank where
  | generalPurpose
  | xmm
deriving DecidableEq

namespace Bank

/-- Registers in one bank. -/
def size : Nat := 16

/-- Both banks, the general-purpose bank first. -/
def all : List Bank := [.generalPurpose, .xmm]

/-- The position of a bank in `all`. -/
def index : Bank → Nat
  | .generalPurpose => 0
  | .xmm => 1

/-- How messages name a bank. -/
def text : Bank → String
  | .generalPurpose => "general-purpose"
  | .xmm => "xmm"

end Bank

/-- One value for each bank. -/
structure PerBank (α : Type) where
  generalPurpose : α
  xmm : α
deriving DecidableEq

namespace PerBank

variable {α : Type}

/-- The same value for both banks. -/
def both (value : α) : PerBank α := ⟨value, value⟩

/-- The value of one bank. -/
def get (values : PerBank α) : Bank → α
  | .generalPurpose => values.generalPurpose
  | .xmm => values.xmm

/-- Replaces the value of one bank. -/
def set (values : PerBank α) (bank : Bank) (value : α) : PerBank α :=
  match bank with
  | .generalPurpose => { values with generalPurpose := value }
  | .xmm => { values with xmm := value }

/-- Combines two families bank by bank. -/
def zipWith (combine : α → α → α) (left right : PerBank α) : PerBank α :=
  ⟨combine left.generalPurpose right.generalPurpose, combine left.xmm right.xmm⟩

@[simp] theorem get_both (value : α) (bank : Bank) : (both value).get bank = value := by
  cases bank <;> rfl

@[simp] theorem get_zipWith (combine : α → α → α) (left right : PerBank α) (bank : Bank) :
    (zipWith combine left right).get bank = combine (left.get bank) (right.get bank) := by
  cases bank <;> rfl

theorem get_set (values : PerBank α) (changed : Bank) (value : α) (bank : Bank) :
    (values.set changed value).get bank =
      if bank = changed then value else values.get bank := by
  cases changed <;> cases bank <;> rfl

end PerBank

/-- A register name: a bank and a number within it. -/
structure Register where
  bank : Bank
  number : Nat
deriving DecidableEq

namespace Register

/-- The general-purpose register of a number. -/
abbrev gp (number : Nat) : Register := ⟨.generalPurpose, number⟩

/-! The general-purpose registers by name. -/

abbrev rax : Register := gp 0
abbrev rcx : Register := gp 1
abbrev rdx : Register := gp 2
abbrev rbx : Register := gp 3
abbrev rsp : Register := gp 4
abbrev rbp : Register := gp 5
abbrev rsi : Register := gp 6
abbrev rdi : Register := gp 7
abbrev r8 : Register := gp 8
abbrev r9 : Register := gp 9
abbrev r10 : Register := gp 10
abbrev r11 : Register := gp 11
abbrev r12 : Register := gp 12
abbrev r13 : Register := gp 13
abbrev r14 : Register := gp 14
abbrev r15 : Register := gp 15

/-- The XMM register of a number. -/
abbrev xmm (number : Nat) : Register := ⟨.xmm, number⟩

/-- The position of a register when the banks are laid end to end. A number past
the end of the general-purpose bank runs on into the XMM bank. -/
def index (register : Register) : Nat := Bank.size * register.bank.index + register.number

/-- The general-purpose registers that have a name of their own, by number. -/
def gpNames : List String :=
  ["rax", "rcx", "rdx", "rbx", "rsp", "rbp", "rsi", "rdi",
    "r8", "r9", "r10", "r11", "r12", "r13", "r14", "r15"]

/-- The assembly name, or a question mark for a number past the end of the bank. -/
def name (register : Register) : String :=
  match register.bank with
  | .generalPurpose => gpNames.getD register.number "?"
  | .xmm => if register.number < Bank.size then "xmm" ++ toString register.number else "?"

end Register

end NativeExpr
