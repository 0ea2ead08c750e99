import LineMachine.CommandLine.Shell

/-!
# Listing a program

**Input.**  The name of a program file.

**Algorithm.**  The lines are read one after the other, and none is executed.
A line that is an instruction is listed with its number; any other is reported
with what is wrong with it.

**Results.**
* `Listing.list`: the listing, with its exit status, which is zero if every line
  is an instruction.
-/

namespace LineMachine
namespace Listing

/-- Lists one line, and tells whether it is an instruction. -/
def listLine (file : String) (number : Nat) (line : String) : Shell Bool := do
  match Instruction.decode line with
  | .ok inst =>
    Shell.say (.listed number inst)
    return true
  | .error (.fault f) =>
    Shell.say (.unreadable file number f line)
    return false
  | .error (.limit e) => throw (.limit e)

/-- Lists lines from a number on, and tells whether all are instructions. -/
def listLines (file : String) : (number : Nat) → List String → Shell Bool
  | _, [] => return true
  | number, line :: lines => do
    let here ← listLine file number line
    let below ← listLines file (number + 1) lines
    return here && below

/-- Lists the program in a file, and yields the exit status. -/
def list (file : String) : Shell Nat := do
  let clean ← listLines file 0 (← Shell.readLines file)
  return if clean then 0 else 1

end Listing
end LineMachine
