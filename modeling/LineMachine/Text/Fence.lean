/-!
# Fenced blocks

A fence is three grave accents in a row.  A fenced block is what stands between
the first fence of a text and the next one, less the rest of the line that the
first fence opens.

**Results.**
* `breakAtFence`: what stands before the first fence, and what stands after it.
* `fencedBlock?`: the first fenced block, if the text has two fences.
-/

namespace LineMachine
namespace Text

def fence : List Char := ['\x60', '\x60', '\x60']

/-- Looks for the first fence; `before` holds, last character first, what was
passed on the way. -/
def breakAtFenceFrom (before : List Char) : List Char → Option (List Char × List Char)
  | [] => none
  | c :: cs =>
    if fence.isPrefixOf (c :: cs) then some (before.reverse, (c :: cs).drop fence.length)
    else breakAtFenceFrom (c :: before) cs

/-- What stands before the first fence of a text, and what stands after it. -/
def breakAtFence (cs : List Char) : Option (List Char × List Char) :=
  breakAtFenceFrom [] cs

/-- A text less its first line, or the whole text if it has no line feed. -/
def dropFirstLine (cs : List Char) : List Char :=
  if '\n' ∈ cs then (cs.dropWhile (· ≠ '\n')).drop 1 else cs

/-- The first fenced block of a text, if the text has two fences that share no
character. -/
def fencedBlock? (s : String) : Option String := do
  let (_, opened) ← breakAtFence s.toList
  let (body, _) ← breakAtFence opened
  return String.ofList (dropFirstLine body)

end Text
end LineMachine
