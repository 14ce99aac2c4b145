import FormulaOutline.Trace

/-!
# Command line

Traces the bullet given by the arguments.
-/

def main (args : List String) : IO UInt32 := do
  let report := FormulaOutline.Trace.run args
  IO.print report.stdout
  IO.eprint report.stderr
  return UInt32.ofNat report.code
