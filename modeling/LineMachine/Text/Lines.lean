/-!
# Lines

**Input.**  A text.

**Algorithm.**  Only a line feed ends a line.  The text is split at the line
feeds, and the piece after the last one is a line only if it is not empty.

**Results.**
* `lines`: the lines of a text; a line feed at the very end opens no line.
* `programLines`: the same less one carriage return at the end of each line,
  so that both usual line ends are accepted and no character but the line feed
  ever splits a line.
* `unifyLineEnds`: every line end written as a line feed.
-/

namespace LineMachine
namespace Text

/-- Drops the last piece if it is empty: it stands after the last line end. -/
def dropEmptyLast (ls : List (List Char)) : List (List Char) :=
  if ls.getLast? = some [] then ls.dropLast else ls

/-- A line less one carriage return at its end. -/
def dropReturn (l : List Char) : List Char :=
  if l.getLast? = some '\r' then l.dropLast else l

/-- The lines of a text. -/
def lines (s : String) : List String :=
  (dropEmptyLast (s.toList.splitOn '\n')).map String.ofList

/-- The lines of a program: the lines of its text, less the carriage return
before a line feed. -/
def programLines (s : String) : List String :=
  (dropEmptyLast (s.toList.splitOn '\n')).map (String.ofList ∘ dropReturn)

/-- One more character in front of a text whose line ends are line feeds: a
carriage return becomes one, and stands for the pair if one follows.  The
Boolean tells whether the unread text began with a line feed. -/
def prependUnified (c : Char) (p : Bool × List Char) : Bool × List Char :=
  if c = '\r' then (false, if p.1 then p.2 else '\n' :: p.2) else (c = '\n', c :: p.2)

/-- A text with every line end (a carriage return, a line feed, or the pair)
written as a line feed. -/
def unifyLineEnds (s : String) : String :=
  String.ofList (s.toList.foldr prependUnified (false, [])).2

end Text
end LineMachine
