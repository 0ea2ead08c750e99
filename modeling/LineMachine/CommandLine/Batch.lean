import LineMachine.CommandLine.Shell

/-!
# Running a program to completion

**Input.**  The name of a program file, a budget, and whether to show the
machine after every step.

**Algorithm.**  The program is run; a program that comes to an end without being
traced is reported with its variables.

**Results.**
* `Batch.run`: the run, with its exit status.
-/

namespace LineMachine
namespace Batch

/-- Runs the program in a file, and yields the exit status. -/
def run (patience : Nat) (file : String) (budget : Option Int) (trace : Bool) : Shell Nat := do
  let m ← Shell.readProgram file
  let m ← if trace then Shell.runTraced patience budget m else Shell.runQuietly patience budget m
  if m.status = .halted ∧ trace = false then
    Shell.say (.haltedAt m.pc m.steps)
    Shell.showMemory m
  Shell.report file budget m

end Batch
end LineMachine
