import LineMachine.Numeral.Decimal

/-!
# Integers with a radix mark

Option values are read with the conventions of program source: `0x` marks
hexadecimal and `0b` binary digits, any other zero in front octal digits, and
all else is decimal.

**Input.**  The text of an option value.

**Algorithm.**  The mark fixes the radix; the mark `0b` is removed, the others
stay.  The text is then read in that radix: spaces at both ends are dropped, one
sign may come first, the radix's own mark may follow the sign, and single
underscores may stand between digits and after the mark.  Digits of every script
count as the digits they stand for.

**Results.**
* `readMarked?`: the integer that a text with an optional radix mark stands for.
* `readRadix?`: the integer that a text stands for in one radix.
-/

namespace LineMachine
namespace Numeral

inductive Radix where
  | binary
  | octal
  | decimal
  | hexadecimal
deriving DecidableEq, Repr

def Radix.base : Radix → Nat
  | .binary => 2
  | .octal => 8
  | .decimal => 10
  | .hexadecimal => 16

/-- The letter that follows a zero in the mark of a radix. -/
def Radix.letter? : Radix → Option Char
  | .binary => some 'b'
  | .octal => some 'o'
  | .decimal => none
  | .hexadecimal => some 'x'

/-- The value of a digit or of a Latin letter, counted on from ten. -/
def alphanumericValue? (c : Char) : Option Nat :=
  if c.isDigit then some (c.toNat - 0x30)
  else if c.isLower then some (c.toNat - 0x61 + 10)
  else if c.isUpper then some (c.toNat - 0x41 + 10)
  else none

/-- The value of a digit of a radix. -/
def Radix.digit? (r : Radix) (c : Char) : Option Nat :=
  (alphanumericValue? c).filter (· < r.base)

/-- Whether a character is one of the six spaces of ASCII. -/
def isAsciiSpace (c : Char) : Bool :=
  c == ' ' || (0x09 ≤ c.toNat && c.toNat ≤ 0x0D)

/-- A character with every digit beyond ASCII replaced by the ASCII digit of its
value and every space beyond ASCII by the space. -/
def foldToAscii (c : Char) : Char :=
  if c.toNat < 0x80 then c
  else if Text.isBlank c then ' '
  else match decimalDigit? c with
    | some d => Char.ofNat (0x30 + d)
    | none => c

/-- The values of the digits of a radix, with single underscores between them;
`afterDigit` tells whether a digit has just been read. -/
def separatedDigits? (r : Radix) (afterDigit : Bool) : List Char → Option (List Nat)
  | [] => if afterDigit then some [] else none
  | c :: cs =>
    if c = '_' then
      if afterDigit then separatedDigits? r false cs else none
    else match r.digit? c with
      | none => none
      | some d => (separatedDigits? r true cs).map (d :: ·)

/-- A text less the radix's own mark in front, and less one underscore after
that mark. -/
def dropOwnMark (r : Radix) : List Char → List Char
  | '0' :: c :: cs =>
    if r.letter? = some c.toLower then
      match cs with
      | '_' :: cs => cs
      | cs => cs
    else '0' :: c :: cs
  | cs => cs

/-- A text split into its sign and what follows it; `true` stands for minus. -/
def splitSign : List Char → Bool × List Char
  | '-' :: cs => (true, cs)
  | '+' :: cs => (false, cs)
  | cs => (false, cs)

/-- The positional value of digits, most significant first. -/
def positionalValue (base : Nat) (ds : List Nat) : Nat :=
  ds.foldl (fun n d => base * n + d) 0

/-- The integer that a text stands for in a radix.  Decimal digits beyond the
digit limit are refused; the radices that are powers of two have no limit. -/
def readRadix? (r : Radix) (cs : List Char) : Option Int := do
  let trimmed := ((cs.map foldToAscii).dropWhile isAsciiSpace).reverse.dropWhile isAsciiSpace
  let (negative, unsigned) := splitSign trimmed.reverse
  let ds ← separatedDigits? r false (dropOwnMark r unsigned)
  if r = .decimal ∧ digitLimit < ds.length then none
  else
    let n : Int := positionalValue r.base ds
    return if negative then -n else n

/-- The integer that a text with an optional radix mark stands for. -/
def readMarked? (s : String) : Option Int :=
  match s.toList with
  | '0' :: c :: cs =>
    if c = 'x' ∨ c = 'X' then readRadix? .hexadecimal ('0' :: c :: cs)
    else if c = 'b' ∨ c = 'B' then
      readRadix? .binary (if cs.isEmpty then ['0'] else cs)
    else readRadix? .octal ('0' :: c :: cs)
  | ['0'] => readRadix? .octal ['0']
  | cs => readRadix? .decimal cs

end Numeral
end LineMachine
