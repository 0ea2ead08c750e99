import LineMachine.Numeral.Radix
import LineMachine.Text.Quoted

/-!
# Command line options

**Input.**  The words of a command line, the program name first.

**Algorithm.**  The words are read from the left.  A word that starts with two
dashes is a long option, given by its name or by any beginning that only one
name has; a value follows an equals sign or is the next word, whatever that is.
A word of one dash and more is a cluster of short options.  Two dashes alone end
the options.  Every other word is an argument, and options and arguments may be
mixed.

**Results.**
* `Options.parse`: the options and arguments, or the first thing that stops the
  reading.
* `Stop.output`, `Stop.complaint`, `Stop.status`: what is printed then, and the
  exit status.
-/

namespace LineMachine

/-- The settings that options make. -/
structure Options where
  run : Bool
  trace : Bool
  maxSteps : Option Int
  dis : Bool
  ai : Bool
  interactive : Bool
  model : Option String
deriving DecidableEq, Repr

/-- The settings before any option is read. -/
def Options.initial : Options :=
  { run := false, trace := false, maxSteps := none, dis := false, ai := false,
    interactive := false, model := none }

/-- The long options: the help text, and one option for each setting. -/
inductive LongOption where
  | help
  | run
  | trace
  | maxSteps
  | dis
  | ai
  | interactive
  | model
deriving DecidableEq, Repr

namespace LongOption

/-- The name of an option, with its dashes. -/
def name : LongOption → String
  | help => "--help"
  | run => "--run"
  | trace => "--trace"
  | maxSteps => "--max-steps"
  | dis => "--dis"
  | ai => "--ai"
  | interactive => "--interactive"
  | model => "--model"

/-- All long options, in the order of their names. -/
def all : List LongOption :=
  [ai, dis, help, interactive, maxSteps, model, run, trace]

/-- Whether an option takes a value. -/
def takesValue : LongOption → Bool
  | maxSteps | model => true
  | help | run | trace | dis | ai | interactive => false

end LongOption

/-- What is wrong with a command line. -/
inductive UsageError where
  | noSuchOption (text : String)
  | ambiguousOption (text : String) (candidates : List LongOption)
  | unexpectedValue (option : LongOption)
  | missingValue (option : LongOption)
  | invalidInteger (option : LongOption) (text : String)
deriving DecidableEq, Repr

/-- The wording of a usage error. -/
def UsageError.message : UsageError → String
  | noSuchOption text => "no such option: " ++ text
  | ambiguousOption text candidates =>
    "ambiguous option: " ++ text ++ " (" ++
      String.intercalate ", " (candidates.map LongOption.name) ++ "?)"
  | unexpectedValue option => option.name ++ " option does not take a value"
  | missingValue option => option.name ++ " option requires 1 argument"
  | invalidInteger option text =>
    "option " ++ option.name ++ ": invalid integer value: " ++ Text.quoted text

/-- What ends the reading of a command line before its end. -/
inductive Stop where
  | help
  | misuse (e : UsageError)
deriving DecidableEq, Repr

/-- The line that tells how the program is called. -/
def usageLine : String := "Usage: wl [options] filename\n"

/-- The help text. -/
def helpText : String :=
  usageLine ++
  "\n" ++
  "Options:\n" ++
  "  -h, --help     show this help message and exit\n" ++
  "  --run          run program to completion without prompting\n" ++
  "  --trace        with --run, display machine state step by step\n" ++
  "  --max-steps=N  give up after executing N instructions\n" ++
  "  --dis          decode and list the program without running it\n" ++
  "  --ai           ask ai assistant in case of an error\n" ++
  "  --interactive  interactively apply changes made by the assistant\n" ++
  "  --model=MODEL  model asked by --ai (default: $WL_AI_MODEL or gpt-4o-mini)\n"

namespace Stop

/-- What a stop prints on standard output. -/
def output : Stop → String
  | help => helpText
  | misuse _ => ""

/-- What a stop prints on standard error. -/
def complaint : Stop → String
  | help => ""
  | misuse e => usageLine ++ "\nwl: error: " ++ e.message ++ "\n"

/-- The exit status of a stop. -/
def status : Stop → Nat
  | help => 0
  | misuse _ => 2

end Stop

namespace Options

/-- The option that a text names, in full or by a beginning that no other option
has. -/
def findLong (text : String) : Except Stop LongOption :=
  match LongOption.all.find? fun o => o.name == text with
  | some o => .ok o
  | none =>
    match LongOption.all.filter fun o => text.toList.isPrefixOf o.name.toList with
    | [] => .error (.misuse (.noSuchOption text))
    | [o] => .ok o
    | os => .error (.misuse (.ambiguousOption text os))

/-- The effect of an option that takes no value. -/
def setFlag (o : Options) : LongOption → Except Stop Options
  | .help => .error .help
  | .run => .ok { o with run := true }
  | .trace => .ok { o with trace := true }
  | .dis => .ok { o with dis := true }
  | .ai => .ok { o with ai := true }
  | .interactive => .ok { o with interactive := true }
  | .maxSteps => .ok o
  | .model => .ok o

/-- The effect of an option with its value. -/
def setValue (o : Options) (option : LongOption) (value : String) : Except Stop Options :=
  match option with
  | .maxSteps =>
    match Numeral.readMarked? value with
    | some n => .ok { o with maxSteps := some n }
    | none => .error (.misuse (.invalidInteger .maxSteps value))
  | .model => .ok { o with model := some value }
  | _ => .ok o

/-- The forms of a word on the command line. -/
inductive Word where
  | separator
  | long (text : String) (value : Option String)
  /-- A cluster of short options, of which only the first matters. -/
  | short (letter : Char)
  | argument
deriving DecidableEq, Repr

/-- The form of a word. -/
def Word.ofString (word : String) : Word :=
  match word.toList with
  | ['-', '-'] => separator
  | '-' :: '-' :: cs =>
    let text := '-' :: '-' :: cs.takeWhile (· ≠ '=')
    match cs.dropWhile (· ≠ '=') with
    | [] => long (String.ofList text) none
    | _ :: value => long (String.ofList text) (some (String.ofList value))
  | '-' :: c :: _ => short c
  | _ => argument

/-- The stop that a short option makes: none has another effect. -/
def stopAtShort (letter : Char) : Stop :=
  if letter = 'h' then .help
  else .misuse (.noSuchOption (String.ofList ['-', letter]))

/-- Reads the words from the left; `arguments` holds the arguments so far, last
first. -/
def scan (o : Options) (arguments : List String) :
    List String → Except Stop (Options × List String)
  | [] => .ok (o, arguments.reverse)
  | word :: words =>
    match Word.ofString word with
    | .separator => .ok (o, arguments.reverse ++ words)
    | .argument => scan o (word :: arguments) words
    | .short letter => .error (stopAtShort letter)
    | .long text value =>
      match findLong text, value with
      | .error stop, _ => .error stop
      | .ok option, some value =>
        if option.takesValue then
          match o.setValue option value with
          | .error stop => .error stop
          | .ok o => scan o arguments words
        else .error (.misuse (.unexpectedValue option))
      | .ok option, none =>
        if option.takesValue then
          match words with
          | [] => .error (.misuse (.missingValue option))
          | value :: words =>
            match o.setValue option value with
            | .error stop => .error stop
            | .ok o => scan o arguments words
        else
          match o.setFlag option with
          | .error stop => .error stop
          | .ok o => scan o arguments words

/-- The options and arguments of a command line. -/
def parse (words : List String) : Except Stop (Options × List String) :=
  scan initial [] words

end Options
end LineMachine
