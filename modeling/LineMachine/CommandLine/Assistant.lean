import LineMachine.CommandLine.Shell
import LineMachine.Text.Fence

/-!
# Asking an assistant

An assistant is asked what is wrong with a program that meets a fault.  With the
consent of the user the program that it proposes replaces the old one and is run
in turn.

**Input.**  The name of a program file, the replies of the assistant, and the
lines that the user enters.

**Algorithm.**  The program is run.  If it meets a fault, the assistant is asked
and its reply printed.  A reply with a fenced block is a proposal; the user is
asked until the answer is yes or no, and after a yes the block is written to the
file and everything starts again.  Anything else ends the session.

**Results.**
* `Assistant.propose`: what becomes of a reply.
* `Assistant.attempt`: a run of the program as it is.
* `Assistant.converse`: a session, along the replies.
-/

namespace LineMachine

/-- What comes back from a request. -/
inductive Reply where
  | content (text : Option String)
  | unreachable (cause : Option String)
  | rateLimited
  | refused (code : Int) (response : String)
  | broken (message : String)
deriving DecidableEq, Repr

/-- The assistants. -/
inductive Assistant where
  | unavailable (reason : String)
  | replying (replies : List Reply)
deriving DecidableEq, Repr

namespace Assistant

/-- What the assistant is told before every question. -/
def instructions : String :=
  "You help debug programs written in WL, a line-based language with one\n" ++
  "instruction per line. Lines are numbered from 0 and IF jumps to a line\n" ++
  "number. The instructions are:\n" ++
  "VARINT x i, VARLIST y a1 ... an, COMBINE l1 l2, GET x i l, SET x i l,\n" ++
  "COPY l1 l2, CHS x, ADD x y, IF x i, HLT.\n" ++
  "Lists are shared by reference; only COPY makes an independent copy.\n" ++
  "When you propose a fix, give the complete corrected program in a single\n" ++
  "fenced code block."

/-- The question about a program that meets a fault. -/
def question (program faultText : String) : String :=
  "What is wrong with the following program: \n" ++ "```\n" ++ program ++ "\n```\n" ++
    "The interpreter stopped with the following error: " ++ faultText ++ "."

/-- The model asked if neither an option nor the environment names one. -/
def defaultModel : String := "gpt-4o-mini"

/-- The model to ask: that of the option, else that of the environment, else the
default. -/
def chooseModel (option environment : Option String) : String :=
  option.getD (environment.getD defaultModel)

/-- Reads a yes or a no, and yields the lines after it. -/
def consent : List String → Shell (Bool × List String)
  | [] => throw .endOfInput
  | line :: lines =>
    if line = "y" ∨ line = "Y" then return (true, lines)
    else if line = "n" ∨ line = "N" then return (false, lines)
    else do
      Shell.say .invalidAnswer
      consent lines

/-- Writes a program to a file. -/
def writeProgram (file program : String) : Shell Unit := do
  match (← get).files.write file program.toUTF8 with
  | .error e => throw (.file file e)
  | .ok files => modify fun s => { s with files }

/-- Offers the program that a reply proposes, and writes it to the file if the
user consents; yields whether it was written, and the lines after the answer. -/
def propose (file reply : String) (input : List String) : Shell (Bool × List String) := do
  match Text.fencedBlock? reply with
  | none => return (false, input)
  | some program =>
    Shell.say .proposal
    let (yes, rest) ← consent input
    if yes then writeProgram file program
    return (yes, rest)

/-- Runs the program as it is: yields the exit status, or the fault. -/
def attempt (patience : Nat) (file : String) (budget : Option Int) :
    Shell (Nat ⊕ FaultReport) := do
  let m ← Shell.runQuietly patience budget (← Shell.readProgram file)
  match m.status, m.faultReport? with
  | .faulted, some r => return .inr r
  | _, _ =>
    if m.status = .halted then Shell.showMemory m
    return .inl (← Shell.report file budget m)

/-- Sends a question about a fault. -/
def ask (file model : String) (fault : FaultReport) : Shell Unit := do
  let program := Text.unifyLineEnds (← Shell.readText file)
  Shell.say (.fault file fault)
  Shell.say (.asking model)
  modify fun s => { s with requests := s.requests.push ⟨model, question program fault.text⟩ }

/-- The text of a reply, if it has one; a failure is reported. -/
def receive : Reply → Shell (Option String)
  | .content text => return some (text.getD "")
  | .unreachable cause => do
    Shell.say (.unreachable cause)
    return none
  | .rateLimited => do
    Shell.say .rateLimited
    return none
  | .refused code response => do
    Shell.say (.refused code response)
    return none
  | .broken message => throw (.assistant message)

/-- Runs the program and asks about its faults, one reply after the other, and
yields the exit status. -/
def converse (patience : Nat) (file : String) (budget : Option Int) (interactive : Bool)
    (model : String) : List Reply → (input : List String) → Shell Nat
  | [], _ => do
    match ← attempt patience file budget with
    | .inl status => return status
    | .inr fault =>
      ask file model fault
      throw .abandoned
  | reply :: replies, input => do
    match ← attempt patience file budget with
    | .inl status => return status
    | .inr fault =>
      ask file model fault
      match ← receive reply with
      | none => return 1
      | some text =>
        Shell.say (.reply text)
        if interactive then
          let (written, rest) ← propose file text input
          if written then converse patience file budget interactive model replies rest
          else return 1
        else return 1

/-- A session with an assistant, if there is one. -/
def run (patience : Nat) (file : String) (budget : Option Int) (interactive : Bool)
    (model : String) (input : List String) : Assistant → Shell Nat
  | .unavailable reason => do
    Shell.say (.noAssistant reason)
    return 1
  | .replying replies => converse patience file budget interactive model replies input

end Assistant
end LineMachine
