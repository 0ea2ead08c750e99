import LineMachine.CommandLine.Assistant
import LineMachine.CommandLine.Batch
import LineMachine.CommandLine.Listing
import LineMachine.CommandLine.Prompt

/-!
# Invocations of the command line

**Input.**  The words of the command line after the program name, and what is
around it: the lines on standard input, the model that the environment names,
and the assistant.

**Algorithm.**  The options are read; the first argument names the program file.
Listing comes before the assistant, the assistant before a run to completion,
and the prompt is what is left.  A file that cannot be opened ends the session
with a message.

**Results.**
* `Invocation.run`: the session, with its exit status.
-/

namespace LineMachine

/-- What is around a command line. -/
structure Invocation where
  words : List String
  input : List String
  environmentModel : Option String
  assistant : Assistant
  /-- The number of steps after which a run without a budget is abandoned. -/
  patience : Nat

namespace Invocation

/-- Does what the options say with a program file. -/
def dispatch (c : Invocation) (o : Options) (file : String) : Shell Nat :=
  if o.dis then Listing.list file
  else if o.ai then
    c.assistant.run c.patience file o.maxSteps o.interactive
      (Assistant.chooseModel o.model c.environmentModel) c.input
  else if o.run then Batch.run c.patience file o.maxSteps o.trace
  else Prompt.run c.patience file o.maxSteps c.input

/-- Reports a file that cannot be opened; any other escape goes on. -/
def handle : Escape → Shell Nat
  | .file name e => do
    Shell.say (.fileError name e)
    return 1
  | e => throw e

/-- What the command line does, with its exit status. -/
def run (c : Invocation) : Shell Nat := do
  match Options.parse ("wl" :: c.words) with
  | .error stop =>
    Shell.say (.stopped stop)
    return stop.status
  | .ok (o, arguments) =>
    match arguments[1]? with
    | none =>
      Shell.say .noFile
      return 1
    | some file => tryCatch (c.dispatch o file) handle

end Invocation
end LineMachine
