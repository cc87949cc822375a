/-!
# Statistics of a compilation
-/

namespace NativeExpr

/-- What a compilation has done so far. -/
structure Statistics where
  nodesCompiled : Nat
  cacheHits : Nat
  callsEmitted : Nat
  registersSaved : Nat
  valuesParked : Nat
  instructionsEmitted : Nat
  /-- The length of the machine code in bytes. -/
  codeSize : Nat
deriving DecidableEq

namespace Statistics

/-- Nothing done yet. -/
def zero : Statistics := ⟨0, 0, 0, 0, 0, 0, 0⟩

/-- The statistics as lines of text, without a final line break. -/
def text (statistics : Statistics) : String :=
  "Compilation Statistics:" ++
    "\n  Nodes compiled: " ++ toString statistics.nodesCompiled ++
    "\n  Cache hits: " ++ toString statistics.cacheHits ++
    "\n  Calls emitted: " ++ toString statistics.callsEmitted ++
    "\n  Registers saved: " ++ toString statistics.registersSaved ++
    "\n  Values parked: " ++ toString statistics.valuesParked ++
    "\n  Instructions emitted: " ++ toString statistics.instructionsEmitted ++
    "\n  Code size: " ++ toString statistics.codeSize ++ " bytes"

end Statistics

end NativeExpr
