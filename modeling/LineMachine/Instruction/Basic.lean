/-!
# Instructions

An instruction is one step of a program: an opcode with its operands.  Variables
and list elements are kept as the words they were written with; an operand that
is an integer by its position is kept as that integer.

**Results.**
* `Opcode.ofMnemonic?_mnemonic`, `Opcode.mnemonic_of_ofMnemonic?`: an opcode is
  found under its mnemonic and under no other word.
* `Opcode.arity`: how many operands each opcode takes.
-/

namespace LineMachine

inductive Opcode where
  | varInt
  | varList
  | combine
  | get
  | set
  | copy
  | changeSign
  | add
  | branch
  | halt
deriving DecidableEq, Repr

namespace Opcode

/-- The word that an opcode is written with. -/
def mnemonic : Opcode → String
  | varInt => "VARINT"
  | varList => "VARLIST"
  | combine => "COMBINE"
  | get => "GET"
  | set => "SET"
  | copy => "COPY"
  | changeSign => "CHS"
  | add => "ADD"
  | branch => "IF"
  | halt => "HLT"

def all : List Opcode :=
  [varInt, varList, combine, get, set, copy, changeSign, add, branch, halt]

/-- The opcode that a word is the mnemonic of. -/
def ofMnemonic? (word : String) : Option Opcode :=
  all.find? fun op => op.mnemonic == word

/-- Whether the second operand of an opcode is an integer. -/
def hasIntegerOperand : Opcode → Bool
  | varInt | get | set | branch => true
  | varList | combine | copy | changeSign | add | halt => false

end Opcode

/-- How many operands an opcode takes. -/
inductive Arity where
  | exactly (n : Nat)
  | atLeast (n : Nat)
deriving DecidableEq, Repr

def Arity.admits : Arity → Nat → Bool
  | exactly n, k => k == n
  | atLeast n, k => n ≤ k

def Arity.describe : Arity → String
  | exactly n => count n
  | atLeast n => "at least " ++ count n
where
  count (n : Nat) : String :=
    toString n ++ (if n = 1 then " argument" else " arguments")

def Opcode.arity : Opcode → Arity
  | varInt | combine | copy | add | branch => .exactly 2
  | get | set => .exactly 3
  | changeSign => .exactly 1
  | halt => .exactly 0
  | varList => .atLeast 1

/-- The instructions. -/
inductive Instruction where
  /-- Binds `var` to the integer `value`. -/
  | varInt (var : String) (value : Int)
  /-- Binds `var` to a new list of the elements, each a variable or a literal. -/
  | varList (var : String) (elements : List String)
  /-- Binds `second` to the items of `first` followed by those of `second`. -/
  | combine (first second : String)
  /-- Binds `dest` to the item of `seq` at `index`. -/
  | get (dest : String) (index : Int) (seq : String)
  /-- Replaces the item of `seq` at `index` by `source`, a variable or a literal. -/
  | set (source : String) (index : Int) (seq : String)
  /-- Binds `dest` to a deep copy of `source`. -/
  | copy (dest source : String)
  /-- Changes the sign of `var`. -/
  | changeSign (var : String)
  /-- Adds `operand` to `var`. -/
  | add (var operand : String)
  /-- Goes to the line `target` if `var` is zero or empty. -/
  | branch (var : String) (target : Int)
  /-- Ends the program. -/
  | halt
deriving DecidableEq, Repr

theorem Opcode.ofMnemonic?_mnemonic (op : Opcode) : ofMnemonic? op.mnemonic = some op := by
  cases op <;> rfl

theorem Opcode.mnemonic_of_ofMnemonic? {word : String} {op : Opcode}
    (h : ofMnemonic? word = some op) : op.mnemonic = word := by
  have := List.find?_some h
  simpa using this

end LineMachine
