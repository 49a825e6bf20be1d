import StoreModel.Output.Outcome
import StoreModel.Sample.Model

/-!
# The command line

Prints the generated module for the sample model.
-/

set_option autoImplicit false

open StoreModel

/-- Prints the module, or names the error and fails. -/
def main : IO UInt32 := do
  let outcome := Sample.registry.printModule "super"
  (← IO.getStdout).putStr outcome.output
  (← IO.getStderr).putStr outcome.errors
  return outcome.exitCode.toUInt32
