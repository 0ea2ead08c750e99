import LineMachine.Instruction.Basic
import LineMachine.Numeral.Decimal

/-!
# Faults

A fault is the reason why an instruction cannot be read or carried out.  A
machine that meets one stops and keeps it.  Meeting the digit limit is no fault:
it is reported to whoever drives the machine, and the machine stays as it was.

**Results.**
* `Fault.message`: the wording of each fault.
* `Failure`: a fault or a refused conversion.
-/

namespace LineMachine

inductive Kind where
  | int
  | list
deriving DecidableEq, Repr

def Kind.name : Kind → String
  | int => "int"
  | list => "list"

/-- The reasons why a line is no instruction. -/
inductive DecodeError where
  | empty
  | unknownOpcode (word : String)
  | wrongArity (op : Opcode) (got : Nat)
  | malformedInteger (op : Opcode)
deriving DecidableEq, Repr

def DecodeError.message : DecodeError → String
  | empty => "empty instruction"
  | unknownOpcode word => "unknown opcode `" ++ word ++ "`"
  | wrongArity op got =>
    "`" ++ op.mnemonic ++ "` expects " ++ op.arity.describe ++ ", got " ++ toString got
  | malformedInteger op => "malformed integer operand in `" ++ op.mnemonic ++ "` instruction"

/-- The reasons why a machine stops on an instruction. -/
inductive Fault where
  | decode (error : DecodeError)
  | undefinedVariable (name : String)
  | typeMismatch (expected got : Kind)
  | indexOutOfRange (index : Int) (length : Nat)
deriving DecidableEq, Repr

def Fault.message : Fault → String
  | decode error => error.message
  | undefinedVariable name => "variable `" ++ name ++ "` not defined"
  | typeMismatch expected got => "expected " ++ expected.name ++ ", got " ++ got.name
  | indexOutOfRange index length =>
    "index " ++ Numeral.intText index ++ " out of range for list of length " ++ toString length

/-- What can come of reading and executing an instruction instead of a result. -/
inductive Failure where
  | fault (f : Fault)
  | limit (e : Numeral.DigitLimit)
deriving DecidableEq, Repr

end LineMachine
