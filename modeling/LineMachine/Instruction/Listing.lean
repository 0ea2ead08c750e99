import LineMachine.Instruction.Basic
import LineMachine.Numeral.Decimal
import LineMachine.Text.Quoted

/-!
# Listed instructions

A listing shows an instruction as a title with labelled fields between
parentheses, such as a title, one name and one number.  Names are quoted, so
that no name can be mistaken for the text around it.

**Results.**
* `title`, `fields`: what a listed instruction consists of.
* `listing`: the text of a listed instruction.
* `lineNumber`: the number in front of it, four digits wide or wider.
-/

namespace LineMachine
namespace Instruction

inductive Field where
  | name (text : String)
  | number (n : Int)
  | names (texts : List String)
deriving DecidableEq, Repr

/-- The title of an instruction in a listing. -/
def title : Instruction → String
  | varInt .. => "VarInt"
  | varList .. => "VarList"
  | combine .. => "Combine"
  | get .. => "Get"
  | set .. => "Set"
  | copy .. => "Copy"
  | changeSign .. => "Chs"
  | add .. => "Add"
  | branch .. => "If"
  | halt => "Hlt"

/-- The labelled fields of an instruction, in the order of a listing. -/
def fields : Instruction → List (String × Field)
  | varInt var value => [("var", .name var), ("value", .number value)]
  | varList var elements => [("var", .name var), ("args", .names elements)]
  | combine first second => [("first", .name first), ("second", .name second)]
  | get dest index seq => [("dest", .name dest), ("index", .number index), ("seq", .name seq)]
  | set source index seq =>
    [("source", .name source), ("index", .number index), ("seq", .name seq)]
  | copy dest source => [("dest", .name dest), ("source", .name source)]
  | changeSign var => [("var", .name var)]
  | add var operand => [("var", .name var), ("operand", .name operand)]
  | branch var target => [("var", .name var), ("target", .number target)]
  | halt => []

/-- Texts with a comma and a space between them. -/
def separated (texts : List (List Char)) : List Char :=
  List.intercalate [',', ' '] texts

def Field.chars : Field → List Char
  | name text => Text.quotedChars text.toList
  | number n => (Numeral.intText n).toList
  | names texts => '[' :: separated (texts.map fun t => Text.quotedChars t.toList) ++ [']']

/-- The characters of a field with its label. -/
def labelled (f : String × Field) : List Char :=
  f.1.toList ++ '=' :: f.2.chars

def listingChars (inst : Instruction) : List Char :=
  inst.title.toList ++ '(' :: separated (inst.fields.map labelled) ++ [')']

def listing (inst : Instruction) : String :=
  String.ofList inst.listingChars

/-- The number in front of a listed instruction: zeros fill it up to four digits. -/
def lineNumber (n : Nat) : String :=
  let ds := Nat.toDigits 10 n
  String.ofList (List.replicate (4 - ds.length) '0' ++ ds)

end Instruction
end LineMachine
