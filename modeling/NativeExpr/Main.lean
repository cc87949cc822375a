import NativeExpr.Demo.Run

/-!
# The demonstration as a program
-/

open NativeExpr

/-- The variables that are set in the environment, with their values. -/
def readEnvironment : IO (List (String × String)) :=
  Resource.all.filterMapM fun resource => do
    let name := resource.environmentName
    return (← IO.getEnv name).map fun value => (name, value)

/-- Runs the demonstration and prints its report. -/
def main (arguments : List String) : IO UInt32 := do
  let environment ← readEnvironment
  let report := Demo.run arguments fun name => environment.lookup name
  (← IO.getStdout).putStr report.output
  (← IO.getStderr).putStr report.errors
  return UInt32.ofNat report.status
