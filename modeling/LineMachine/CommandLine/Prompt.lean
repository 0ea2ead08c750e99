import LineMachine.CommandLine.Shell

/-!
# Stepping through a program at a prompt

**Input.**  The name of a program file, and the lines that the user enters.

**Algorithm.**  Each line is a command, whatever its case and the white space
around it: one step, a run with messages, or the end.  Any other line is
rejected.  The end of the input ends the session like the command to do so.

**Results.**
* `Prompt.answer`: what one line does to the machine, and whether to go on.
* `Prompt.converse`: what all lines do to it.
* `Prompt.run`: the session, with its exit status.
-/

namespace LineMachine
namespace Prompt

/-- The commands: execute one line, run to completion, end the session. -/
inductive Command where
  | one
  | all
  | quit
deriving DecidableEq, Repr

/-- The command that a line is. -/
def Command.ofLine? (line : String) : Option Command :=
  match (Text.trimBlank line).toList.map Char.toLower with
  | ['o'] => some one
  | ['a'] => some all
  | ['q'] => some quit
  | _ => none

/-- Reports how the machine has stopped; coming to an end is a message too. -/
def conclude (file : String) (budget : Option Int) (m : Machine) : Shell Unit := do
  if (← Shell.report file budget m) = 0 then
    Shell.say .programHalted

/-- Executes one line, and reports if the machine does not go on. -/
def stepOnce (file : String) (budget : Option Int) (m : Machine) : Shell Machine := do
  let m ← Shell.stepTraced m
  if m.status ≠ .running then conclude file budget m
  return m

/-- Runs to completion, and reports. -/
def runAll (patience : Nat) (file : String) (budget : Option Int) (m : Machine) :
    Shell Machine := do
  let m ← Shell.runTraced patience budget m
  conclude file budget m
  return m

/-- What a line does to the machine; `none` if it ends the session. -/
def answer (patience : Nat) (file : String) (budget : Option Int) (m : Machine)
    (line : String) : Shell (Option Machine) := do
  match Command.ofLine? line with
  | none =>
    Shell.say .invalidCommand
    return some m
  | some .one => return some (← stepOnce file budget m)
  | some .all => return some (← runAll patience file budget m)
  | some .quit => return none

/-- What the lines do to the machine, with a prompt for each and one for their
end. -/
def converse (patience : Nat) (file : String) (budget : Option Int) (m : Machine) :
    List String → Shell Machine
  | [] => do
    Shell.say .prompt
    return m
  | line :: lines => do
    Shell.say .prompt
    match ← answer patience file budget m line with
    | none => return m
    | some m => converse patience file budget m lines

/-- The exit status of a session that leaves the machine like this. -/
def exitStatus (m : Machine) : Nat :=
  if m.status = .faulted then 1 else 0

/-- Steps through the program in a file, and yields the exit status. -/
def run (patience : Nat) (file : String) (budget : Option Int) (input : List String) :
    Shell Nat := do
  let m ← Shell.readProgram file
  return exitStatus (← converse patience file budget m input)

end Prompt
end LineMachine
