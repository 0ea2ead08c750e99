import LineMachine.Numeral.Digit
import LineMachine.Text.Blank

/-!
# Decimal integers

Integers are written in decimal: a minus sign if negative, then the digits with
no superfluous zero in front.  They are read more freely: one optional sign of
either kind and at least one digit.

**Input.**  A word, or a text with the literal between margins.

**Algorithm.**  A literal is recognised first and valued after: its value is the
positional value of its digits.

**Digit limit.**  Conversion between text and integers is refused beyond 4300
digits, in both directions.  When reading, every digit of the literal counts,
zeros in front included; when writing, the digits of the absolute value count.

**Results.**
* `readWord`: the value of a word that is a literal.
* `readMargined`: the value of a literal between margins.
* `text`: the decimal text of an integer within the limit.
-/

namespace LineMachine
namespace Numeral

/-- The largest number of digits that is converted. -/
def digitLimit : Nat := 4300

/-- The two ways to meet the digit limit. -/
inductive DigitLimit where
  | reading (digits : Nat)
  | writing
deriving DecidableEq, Repr

def DigitLimit.message : DigitLimit → String
  | .reading digits =>
    "Exceeds the limit (4300 digits) for integer string conversion: value has " ++
      toString digits ++ " digits; use sys.set_int_max_str_digits() to increase the limit"
  | .writing =>
    "Exceeds the limit (4300 digits) for integer string conversion; " ++
      "use sys.set_int_max_str_digits() to increase the limit"

/-- An integer literal: its sign and its digits. -/
structure Literal where
  negative : Bool
  digits : List Char
deriving DecidableEq, Repr

/-- Whether a sequence of characters is one or more digits. -/
def isDigitRun (cs : List Char) : Bool :=
  !cs.isEmpty && cs.all Char.isDigit

/-- The literal with the given sign, if the characters after it are digits. -/
def Literal.ofDigits? (negative : Bool) (cs : List Char) : Option Literal :=
  if isDigitRun cs then some ⟨negative, cs⟩ else none

/-- The literal that a word is. -/
def Literal.ofWord? : List Char → Option Literal
  | '-' :: cs => Literal.ofDigits? true cs
  | '+' :: cs => Literal.ofDigits? false cs
  | cs => Literal.ofDigits? false cs

/-- The integer that a literal stands for, whatever its length. -/
def Literal.toInt (l : Literal) : Int :=
  let n : Int := Nat.ofDigitChars 10 l.digits 0
  if l.negative then -n else n

/-- The integer that a literal stands for, within the digit limit. -/
def Literal.value (l : Literal) : Except DigitLimit Int :=
  if l.digits.length ≤ digitLimit then .ok l.toInt else .error (.reading l.digits.length)

/-- The value of a sequence of characters that is a literal. -/
def readChars (cs : List Char) : Except DigitLimit (Option Int) :=
  match Literal.ofWord? cs with
  | none => .ok none
  | some l => l.value.map some

/-- The value of a word that is a literal. -/
def readWord (w : String) : Except DigitLimit (Option Int) :=
  readChars w.toList

/-- The characters that may stand in the margins around a literal. -/
def isMargin (c : Char) : Bool :=
  c == ' ' || c == '\t' || c == '\n' || c == '\r'

/-- The value of the literal between the margins of a text.  The literal ends at
the first white space of any kind, and is valued before the margin after it is
looked at. -/
def readMargined (s : String) : Except DigitLimit (Option Int) :=
  let cs := s.toList.dropWhile isMargin
  let after := cs.dropWhile fun c => !Text.isBlank c
  match readChars (cs.takeWhile fun c => !Text.isBlank c) with
  | .error e => .error e
  | .ok n => .ok (if after.all isMargin then n else none)

/-- The decimal text of an integer, whatever its length. -/
def intText (n : Int) : String :=
  String.ofList ((if n < 0 then ['-'] else []) ++ Nat.toDigits 10 n.natAbs)

/-- Whether a number has at most so many digits; zero has none too many. -/
def fitsIn : (digits : Nat) → Nat → Bool
  | 0, n => n == 0
  | digits + 1, n => if n < 10 then true else fitsIn digits (n / 10)

/-- Whether an integer has few enough digits to be written. -/
def writable (n : Int) : Bool :=
  fitsIn digitLimit n.natAbs

/-- The decimal text of an integer within the digit limit. -/
def text (n : Int) : Except DigitLimit String :=
  if writable n then .ok (intText n) else .error .writing

/-- A number has at most so many digits if it is below that power of ten. -/
theorem fitsIn_iff (digits n : Nat) : fitsIn digits n = true ↔ n < Nat.pow 10 digits := by
  induction digits generalizing n with
  | zero => simp [fitsIn]
  | succ digits ih =>
    have hpow : 0 < Nat.pow 10 digits := Nat.pow_pos (by decide)
    simp only [fitsIn, Nat.pow_eq, Nat.pow_succ] at hpow ih ⊢
    split
    · simp only [true_iff]
      omega
    · rw [ih]
      omega

/-- An integer is written if its absolute value is below the limit's power of ten. -/
theorem writable_iff (n : Int) : writable n = true ↔ n.natAbs < Nat.pow 10 digitLimit :=
  fitsIn_iff digitLimit n.natAbs

theorem text_eq_ok {n : Int} (h : writable n = true) : text n = .ok (intText n) := by
  simp [text, h]

theorem text_eq_error {n : Int} (h : writable n = false) : text n = .error .writing := by
  simp [text, h]

theorem text_eq_intText {n : Int} {t : String} (h : text n = .ok t) : t = intText n := by
  rw [text] at h
  split at h
  · cases h
    rfl
  · cases h

theorem value_eq_ok {l : Literal} (h : l.digits.length ≤ digitLimit) :
    l.value = .ok l.toInt := by
  simp [Literal.value, h]

end Numeral
end LineMachine
