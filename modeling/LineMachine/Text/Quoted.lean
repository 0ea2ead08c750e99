import LineMachine.Text.Printable

/-!
# Quoted text

The quoted form of a text stands between two quotes and shows every character
that could be misread as an escape.

**Input.**  Any string.

**Algorithm.**  The quote is the apostrophe, or the double quote if the text
holds an apostrophe and no double quote.  The backslash and the quote in use
get a backslash in front; line feed, carriage return and tab are escaped by
name; every other character that is not printable is escaped by its code point
in two, four or eight hexadecimal digits, whichever is the fewest that fit.

**Results.**
* `quoted`: the quoted form of a string.
-/

namespace LineMachine
namespace Text

/-- The character U+0027. -/
def apostrophe : Char := '\x27'

/-- The character U+0022. -/
def doubleQuote : Char := '\x22'

def hexDigit (n : Nat) : Char :=
  if n < 10 then Char.ofNat (0x30 + n) else Char.ofNat (0x57 + n)

/-- The last `width` hexadecimal digits of a number. -/
def hexDigits : (width : Nat) → Nat → List Char
  | 0, _ => []
  | width + 1, n => hexDigits width (n / 16) ++ [hexDigit (n % 16)]

/-- The escape of a character by its code point. -/
def escapeByCode (c : Char) : List Char :=
  let n := c.toNat
  if n < 0x100 then '\\' :: 'x' :: hexDigits 2 n
  else if n < 0x10000 then '\\' :: 'u' :: hexDigits 4 n
  else '\\' :: 'U' :: hexDigits 8 n

/-- A character as it is written between two `quote` characters. -/
def escapeChar (quote c : Char) : List Char :=
  if c = quote ∨ c = '\\' then ['\\', c]
  else if c = '\n' then ['\\', 'n']
  else if c = '\r' then ['\\', 'r']
  else if c = '\t' then ['\\', 't']
  else if isPrintable c then [c]
  else escapeByCode c

/-- The quote put around a text: the apostrophe, unless the text holds one and
no double quote. -/
def chooseQuote (cs : List Char) : Char :=
  if apostrophe ∈ cs ∧ doubleQuote ∉ cs then doubleQuote else apostrophe

def quotedChars (cs : List Char) : List Char :=
  let quote := chooseQuote cs
  quote :: cs.flatMap (escapeChar quote) ++ [quote]

def quoted (s : String) : String :=
  String.ofList (quotedChars s.toList)

theorem length_hexDigits (width n : Nat) : (hexDigits width n).length = width := by
  induction width generalizing n with
  | zero => rfl
  | succ width ih => simp [hexDigits, ih]

end Text
end LineMachine
