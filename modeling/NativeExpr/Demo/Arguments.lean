import NativeExpr.Text.Number

/-!
# The command line of the demonstration

Two numbers and two switches, each given at most once, in any order. A number
follows its option or is joined to it by an equals sign. Asking for help or for the
version ends the reading there.
-/

namespace NativeExpr.Demo

/-- What the demonstration computes and prints. -/
structure Arguments where
  left : BitVec 64
  right : BitVec 64
  /-- Whether the sum is added to itself. -/
  shared : Bool
  /-- Whether nodes and statistics are printed. -/
  dump : Bool
deriving DecidableEq

/-- What a command line asks for. -/
inductive Command where
  | compute (arguments : Arguments)
  | version
  | help
  | misuse
deriving DecidableEq

/-- The options that have been read so far. -/
structure Reading where
  left : Option (BitVec 64)
  right : Option (BitVec 64)
  shared : Bool
  dump : Bool
deriving DecidableEq

namespace Reading

/-- Nothing read. -/
def empty : Reading := ⟨none, none, false, false⟩

/-- The arguments, with defaults for what was not given. -/
def arguments (reading : Reading) : Arguments where
  left := reading.left.getD 5
  right := reading.right.getD 7
  shared := reading.shared
  dump := reading.dump

/-- Takes the value of an option, unless there is no such option, the option has a
value already or the value is no number. -/
def setNumber (reading : Reading) (option value : String) : Option Reading := do
  let number ← Text.int64? value
  match option with
  | "--left" => if reading.left.isNone then some { reading with left := number } else none
  | "--right" => if reading.right.isNone then some { reading with right := number } else none
  | _ => none

/-- Takes a switch, unless there is no such switch or it has been taken already. -/
def setSwitch (reading : Reading) (switch : String) : Option Reading :=
  match switch with
  | "--shared" => if reading.shared then none else some { reading with shared := true }
  | "--dump" => if reading.dump then none else some { reading with dump := true }
  | _ => none

end Reading

/-- Splits an option from a value that is joined to it. -/
def splitJoined (argument : String) : Option (String × String) :=
  let characters := argument.toList
  match characters.dropWhile (fun character => character != '=') with
  | [] => none
  | _ :: value =>
    some (String.ofList (characters.takeWhile fun character => character != '='),
      String.ofList value)

/-- Reads a command line. -/
def read (reading : Reading) : List String → Command
  | [] => .compute reading.arguments
  | ["--"] => .compute reading.arguments
  | argument :: rest =>
    if argument = "--version" || argument.startsWith "-V" then
      .version
    else if argument = "--help" || argument.startsWith "-h" then
      .help
    else if argument = "--left" || argument = "--right" then
      match rest with
      | [] => .misuse
      | value :: rest =>
        match reading.setNumber argument value with
        | some reading => read reading rest
        | none => .misuse
    else
      match splitJoined argument with
      | some (option, value) =>
        match reading.setNumber option value with
        | some reading => read reading rest
        | none => .misuse
      | none =>
        match reading.setSwitch argument with
        | some reading => read reading rest
        | none => .misuse

end NativeExpr.Demo
