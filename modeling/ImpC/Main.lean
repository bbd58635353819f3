import ImpC.Sample

/-!
# The command line

Compiles the sample program and shows the outcome.
-/

open ImpC

/-- Writes what the compiler shows and ends with its code. -/
def main : IO UInt32 := do
  let out ← IO.getStdout
  let err ← IO.getStderr
  out.putStr Sample.outcome.output
  out.flush
  err.putStr Sample.outcome.diagnostics
  return UInt32.ofNat Sample.outcome.code
