import LineMachine.CommandLine.FileTree
import LineMachine.CommandLine.Options
import LineMachine.Instruction.Listing
import LineMachine.Machine

/-!
# Messages

Everything that the command line prints is a message.  A transcript is the
sequence of messages in the order of printing; what stands on one of the two
output streams is the text of its messages, one after the other.

**Results.**
* `Message.text`, `Message.stream`: what is printed, and where.
* `Message.textOn`: what a transcript puts on a stream.
-/

namespace LineMachine

/-- Standard output and standard error. -/
inductive OutputStream where
  | output
  | error
deriving DecidableEq, Repr

/-- A fault with the line that it was met on. -/
structure FaultReport where
  line : Int
  fault : Fault
  source : String
deriving DecidableEq, Repr

/-- The wording of a fault with its line. -/
def FaultReport.text (r : FaultReport) : String :=
  Numeral.intText r.line ++ ": error: " ++ r.fault.message ++ "\n" ++ r.source

/-- The fault that a machine has met, with the line that it is on. -/
def Machine.faultReport? (m : Machine) : Option FaultReport :=
  match m.fault, m.line? with
  | some fault, some source => some ⟨m.pc, fault, source⟩
  | _, _ => none

theorem Machine.faultReport?_eq_some {m : Machine} {f : Fault} {line : String}
    (hfault : m.fault = some f) (hline : m.line? = some line) :
    m.faultReport? = some ⟨m.pc, f, line⟩ := by
  simp only [faultReport?, hfault, hline]

/-- What the command line prints. -/
inductive Message where
  | stopped (stop : Stop)
  | noFile
  | fileError (name : String) (e : FileError)
  | executed (line : Int)
  | memoryHeading
  | binding (name value : String)
  | separator
  | haltedAt (line : Int) (steps : Nat)
  | fault (file : String) (report : FaultReport)
  | noHalt (file budget : String)
  | prompt
  | invalidCommand
  | programHalted
  | listed (line : Nat) (inst : Instruction)
  | unreadable (file : String) (line : Nat) (reason : Fault) (source : String)
  | noAssistant (reason : String)
  | asking (model : String)
  | reply (text : String)
  | unreachable (cause : Option String)
  | rateLimited
  | refused (code : Int) (response : String)
  | proposal
  | invalidAnswer
deriving DecidableEq, Repr

namespace Message

/-- The line below the variables. -/
def separatorLine : String :=
  String.ofList (List.replicate 41 '+') ++ "\n"

/-- The text of a message on the stream that it goes to. -/
def text : Message → String
  | stopped stop => stop.output ++ stop.complaint
  | noFile => "error: no file provided\n"
  | fileError name e => "error: " ++ name ++ ": " ++ e.message ++ "\n"
  | executed line => "Execute line: " ++ Numeral.intText line ++ "\n"
  | memoryHeading => "Current memory:\n"
  | binding name value => name ++ " = " ++ value ++ "\n"
  | separator => separatorLine
  | haltedAt line steps =>
    "Halted at line " ++ Numeral.intText line ++ " after " ++ toString steps ++ " steps\n"
  | fault file report => file ++ ":" ++ report.text ++ "\n"
  | noHalt file budget => file ++ ": error: no halt after " ++ budget ++ " steps\n"
  | prompt => "Enter command (o/a/q): "
  | invalidCommand => "Invalid command. Please enter 'o', 'a', or 'q'.\n"
  | programHalted => "Program halted.\n"
  | listed line inst => Instruction.lineNumber line ++ " " ++ inst.listing ++ "\n"
  | unreadable file line reason source =>
    file ++ ":" ++ toString line ++ ": error: " ++ reason.message ++ "\n" ++ source ++ "\n"
  | noAssistant reason => "error: openai: " ++ reason ++ "\n"
  | asking model => "Asking " ++ model ++ "...\n\n"
  | reply text => text ++ "\n"
  | unreachable cause =>
    "The openai server could not be reached\n" ++ cause.getD "None" ++ "\n"
  | rateLimited => "A 429 status code was received; rate limit error.\n"
  | refused code response =>
    "openai: " ++ Numeral.intText code ++ ": " ++ response ++ "\n"
  | proposal => "Apply proposed changes and retry? (Y/n) "
  | invalidAnswer => "invalid input (Y/n) "

/-- The stream that a message goes to. -/
def stream : Message → OutputStream
  | stopped .help => .output
  | stopped (.misuse _) => .error
  | executed _ | memoryHeading | binding _ _ | separator | haltedAt _ _ | prompt
  | invalidCommand | programHalted | listed _ _ | proposal | invalidAnswer => .output
  | noFile | fileError _ _ | fault _ _ | noHalt _ _ | unreadable _ _ _ _ | noAssistant _
  | asking _ | reply _ | unreachable _ | rateLimited | refused _ _ => .error

/-- What a transcript puts on a stream. -/
def textOn (stream : OutputStream) (transcript : List Message) : String :=
  String.join ((transcript.filter fun m => m.stream = stream).map text)

end Message
end LineMachine
