import LineMachine.Heap.Survey

/-!
# Diagrams of the heap

A diagram shows which lists names share.  It depends on the shape of what the
names reach, not on when the lists were created.

**Input.**  A heap and a sequence of named values.

**Algorithm.**  The lists are numbered from zero by a survey, first those that
the names hold, then their items list by list.

**Results.**
* `diagram`: the names and the lists, with numbers for references.
-/

namespace LineMachine

/-- A picture of named values: a reference in it is a position in `lists`. -/
structure Diagram where
  names : List (String × Value)
  lists : List (List Value)
deriving DecidableEq, Repr

def Heap.diagram (h : Heap) (names : List (String × Value)) : Diagram :=
  let s := Survey.ofValues h (names.map Prod.snd)
  { names := names.map fun (name, v) => (name, s.renameValue v)
    lists := s.found.toList.map fun r => (h.items r).map s.renameValue }

end LineMachine
