import Wayfinder.Demo.Script

/-!
# Command line

Runs the demonstration. The lines of each stage are printed when the stage ends, with the
stage's wall-clock time in milliseconds in their time slots. A run that ends early writes its
message on standard error and exits with status 1.
-/

section

open Wayfinder Demo

/-- Milliseconds between two readings of the monotonic clock, in nanoseconds. -/
def millisBetween (t0 t1 : Nat) : Float := (t1 - t0).toFloat / 1000000.0

/-- Prints the lines from index `start` on, their time slots filled with `ms` milliseconds. -/
def printFrom (lines : Array Line) (start : Nat) (ms : Float) : IO Unit := do
  for l in lines.toList.drop start do
    IO.println (render (ms.fixedText 1) l)

def main : IO UInt32 := do
  match opening with
  | .error e =>
    IO.println heading
    IO.eprintln ("Error: " ++ e)
    return 1
  | .ok d =>
    printFrom d.lines 0 0.0
    let mut d := d
    for stage in stages do
      let t0 ← IO.monoNanosNow
      let (r, d') := stage.run.run d
      let t1 ← IO.monoNanosNow
      printFrom d'.lines d.lines.size (millisBetween t0 t1)
      d := d'
      if let .error e := r then
        IO.eprintln ("Error: " ++ e)
        return 1
    return 0

end
