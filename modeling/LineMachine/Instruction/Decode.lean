import LineMachine.Fault
import LineMachine.Text.Blank

/-!
# Reading instructions

**Input.**  A line of program text.

**Algorithm.**  The line is split into words.  The first names the opcode, the
others are the operands.  A word in the place of an integer is valued as soon as
it is reached, so that the digit limit is met before the operands are counted;
then the operands are matched against the form of the opcode.  Operands that fit
no form are wrong in number, or else the integer among them is malformed.

**Results.**
* `decode`: the instruction that a line is.
-/

namespace LineMachine
namespace Instruction

/-- The value of the integer operand of an opcode, if the opcode has one, the
operand is there, and it is a literal. -/
def integerOperand (op : Opcode) : List String → Except Numeral.DigitLimit (Option Int)
  | _ :: word :: _ => if op.hasIntegerOperand then Numeral.readWord word else .ok none
  | _ => .ok none

/-- The instruction with the given opcode and operands, if they fit together;
`number` is the value of the integer operand. -/
def ofOperands? (op : Opcode) (operands : List String) (number : Option Int) :
    Option Instruction :=
  match op, operands, number with
  | .varInt, [var, _], some value => some (varInt var value)
  | .varList, var :: elements, _ => some (varList var elements)
  | .combine, [first, second], _ => some (combine first second)
  | .get, [dest, _, seq], some index => some (get dest index seq)
  | .set, [source, _, seq], some index => some (set source index seq)
  | .copy, [dest, source], _ => some (copy dest source)
  | .changeSign, [var], _ => some (changeSign var)
  | .add, [var, operand], _ => some (add var operand)
  | .branch, [var, _], some target => some (branch var target)
  | .halt, [], _ => some halt
  | _, _, _ => none

/-- Why operands that do not fit an opcode do not. -/
def diagnose (op : Opcode) (operands : List String) : DecodeError :=
  if op.arity.admits operands.length then .malformedInteger op
  else .wrongArity op operands.length

/-- The instruction with the given opcode and operands. -/
def ofOperands (op : Opcode) (operands : List String) : Except Failure Instruction :=
  match integerOperand op operands with
  | .error e => .error (.limit e)
  | .ok number =>
    match ofOperands? op operands number with
    | some inst => .ok inst
    | none => .error (.fault (.decode (diagnose op operands)))

/-- The instruction that a sequence of words is. -/
def ofWords : List String → Except Failure Instruction
  | [] => .error (.fault (.decode .empty))
  | word :: operands =>
    match Opcode.ofMnemonic? word with
    | none => .error (.fault (.decode (.unknownOpcode word)))
    | some op => ofOperands op operands

def decode (line : String) : Except Failure Instruction :=
  ofWords (Text.splitWords line)

end Instruction
end LineMachine
