import LineMachine.CommandLine.Invocation

/-!
# The command line program

Connects an invocation to the terminal and the file system.  The program file is
read once at the start; the prompt shows its messages line by line, and every
other session shows them at its end.  No assistant is connected.
-/

namespace LineMachine
namespace Program

/-- The number of steps after which a run without a budget is abandoned. -/
def patience : Nat := 1000000000000000000

/-- Prints the messages of a session. -/
def printAll (transcript : Array Message) : IO Unit := do
  for m in transcript do
    match m.stream with
    | .output => (← IO.getStdout).putStr m.text
    | .error => (← IO.getStderr).putStr m.text
  (← IO.getStdout).flush

/-- The wording of an escape that ends the program. -/
def escapeText : Escape → String
  | .file name e => name ++ ": " ++ e.message
  | .undecodable => "the program file is not UTF-8 text"
  | .limit e => e.message
  | .endOfInput => "EOF when reading a line"
  | .assistant message => message
  | .abandoned => "abandoned"

/-- Prints what a computation has said, and passes its result on. -/
def perform {α : Type} (x : Shell α) (tree : FileTree) : IO (Option α) := do
  match x (Session.start tree) with
  | .ok a s =>
    printAll s.transcript
    return some a
  | .error e s =>
    printAll s.transcript
    (← IO.getStderr).putStrLn ("error: " ++ escapeText e)
    return none

/-- The part of the file system that a name leads to. -/
def treeAround (name : String) : IO FileTree := do
  let here ← IO.currentDir
  let tree := FileTree.emptyAt ((FileTree.emptyAt []).resolve here.toString)
  if ← (here / name).isDir then return tree.addDirectory name
  try
    return tree.addFile name (← IO.FS.readBinFile name)
  catch _ => return tree

/-- Answers the lines that the user enters until the session ends. -/
partial def converse (file : String) (budget : Option Int) (tree : FileTree) (m : Machine) :
    IO UInt32 := do
  printAll #[.prompt]
  let line ← (← IO.getStdin).getLine
  if line.isEmpty then return (Prompt.exitStatus m).toUInt32
  match ← perform (Prompt.answer patience file budget m line) tree with
  | none => return 1
  | some none => return (Prompt.exitStatus m).toUInt32
  | some (some m) => converse file budget tree m

/-- Whether options ask for a session at the prompt. -/
def isPrompt (o : Options) : Bool :=
  !o.dis && !o.ai && !o.run

/-- Runs an invocation, and yields the exit status. -/
def run (words : List String) : IO UInt32 := do
  let environmentModel ← IO.getEnv "WL_AI_MODEL"
  let invocation : Invocation :=
    { words, input := [], environmentModel, assistant := .unavailable "not connected", patience }
  match Options.parse ("wl" :: words) with
  | .ok (o, _ :: file :: _) =>
    let tree ← treeAround file
    if isPrompt o then
      match ← perform (tryCatch (some <$> Shell.readProgram file) fun e => do
          let _ ← Invocation.handle e
          return none) tree with
      | some (some m) => converse file o.maxSteps tree m
      | _ => return 1
    else
      return ((← perform invocation.run tree).getD 1).toUInt32
  | _ => return ((← perform invocation.run (.emptyAt [])).getD 1).toUInt32

end Program
end LineMachine

/-- The command line program. -/
def main (words : List String) : IO UInt32 :=
  LineMachine.Program.run words
