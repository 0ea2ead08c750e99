import LineMachine.CommandLine.Message
import LineMachine.Heap.Render
import LineMachine.Text.Lines

/-!
# The shell around the machine

What the command line does is a computation on a session: the messages printed
so far, the files, and the requests sent to the assistant.  It ends with a
result or by an escape, and keeps the session in both cases.

**Input.**  A file name, or a machine.

**Results.**
* `Shell.readProgram`: a machine that starts on the program in a file.
* `Shell.runQuietly`, `Shell.runTraced`: a run without and with messages.
* `Shell.report`: how a run has ended, as a message and an exit status.
-/

namespace LineMachine

/-- A question to the assistant. -/
structure Request where
  model : String
  question : String
deriving DecidableEq, Repr

/-- What the command line has printed, changed and sent. -/
structure Session where
  transcript : Array Message
  files : FileTree
  requests : Array Request

/-- A session in which nothing has happened. -/
def Session.start (files : FileTree) : Session := ⟨#[], files, #[]⟩

/-- What can end a session early. -/
inductive Escape where
  | file (name : String) (e : FileError)
  | undecodable
  | limit (e : Numeral.DigitLimit)
  | endOfInput
  | assistant (message : String)
  | abandoned
deriving DecidableEq, Repr

/-- A computation on a session. -/
abbrev Shell := EStateM Escape Session

namespace Shell

/-- Prints a message. -/
def say (m : Message) : Shell Unit :=
  modify fun s => { s with transcript := s.transcript.push m }

/-- The outcome of a conversion. -/
def ofLimited {α : Type} : Except Numeral.DigitLimit α → Shell α
  | .ok a => pure a
  | .error e => throw (.limit e)

/-- The text of a file. -/
def readText (name : String) : Shell String := do
  match (← get).files.read name with
  | .error e => throw (.file name e)
  | .ok bytes =>
    match String.fromUTF8? bytes with
    | some text => return text
    | none => throw .undecodable

/-- The lines of the program in a file. -/
def readLines (name : String) : Shell (List String) := do
  return Text.programLines (← readText name)

/-- A machine that starts on the program in a file. -/
def readProgram (name : String) : Shell Machine := do
  return Machine.ofProgram (← readLines name).toArray

/-- Prints the variables of a machine. -/
def showMemory (m : Machine) : Shell Unit := do
  say .memoryHeading
  m.memory.bindings.forM fun (name, v) => do
    say (.binding name (← ofLimited (m.heap.text v)))
  say .separator

/-- One step, followed by the variables if an instruction was executed. -/
def stepTraced (m : Machine) : Shell Machine := do
  match m.step with
  | .error e _ => throw (.limit e)
  | .ok _ m' =>
    if m'.steps ≠ m.steps then
      say (.executed m.pc)
      showMemory m'
    return m'

/-- Steps with messages until the machine stops, but not more than a number of
them. -/
def traceFor : Nat → Machine → Shell Machine
  | 0, m => return m
  | n + 1, m => do
    let m ← stepTraced m
    if m.status = .running then traceFor n m else return m

/-- A run with messages. -/
def runTraced (patience : Nat) (budget : Option Int) (m : Machine) : Shell Machine :=
  traceFor (Machine.stepsAllowed patience budget) m

/-- A run without messages. -/
def runQuietly (patience : Nat) (budget : Option Int) (m : Machine) : Shell Machine :=
  match Machine.run patience budget m with
  | .ok _ m => return m
  | .error e _ => throw (.limit e)

/-- Reports how a run has ended, and yields the exit status. -/
def report (file : String) (budget : Option Int) (m : Machine) : Shell Nat := do
  match m.status with
  | .halted => return 0
  | .faulted =>
    match m.faultReport? with
    | some r => say (.fault file r)
    | none => pure ()
    return 1
  | .running =>
    match budget with
    | none => throw .abandoned
    | some n => say (.noHalt file (← ofLimited (Numeral.text n)))
    return 1

end Shell
end LineMachine
