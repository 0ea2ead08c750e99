import LineMachine.Heap.Basic
import Std.Data.HashMap

/-!
# Surveys: numbering the lists that are reachable

A survey numbers lists in the order in which they are first met, from zero on.
A picture of the heap shows the lists under these numbers.

**Input.**  A heap, and the values from which lists are met.

**Algorithm.**  The lists found so far are also the queue: the items of the
first list are looked at, then those of the second, and so on; a list met on the
way that has no number gets the next one and joins the end.

**Results.**
* `Survey.meet_invariant`: a list that gets a number is one list less to find.
* `Survey.close`: the survey of everything reachable from what was met.
-/

namespace LineMachine

/-- A numbering of lists in the order in which they are met. -/
structure Survey where
  number : Std.HashMap Ref Nat
  found : Array Ref

namespace Survey

def start : Survey := ⟨∅, #[]⟩

/-- Meets a value: an existing list without a number gets the next one. -/
def meet (h : Heap) (s : Survey) : Value → Survey
  | .int _ => s
  | .list r =>
    if r < h.size ∧ ¬ s.number.contains r then
      ⟨s.number.insert r s.found.size, s.found.push r⟩
    else s

def meetAll (h : Heap) (s : Survey) (vs : List Value) : Survey :=
  vs.foldl (meet h) s

/-- How many lists have no number. -/
def unnumbered (h : Heap) (s : Survey) : Nat :=
  (List.range h.size).countP fun r => !s.number.contains r

/-- A list that gets a number is one list less to find. -/
theorem meet_invariant (h : Heap) (s : Survey) (v : Value) :
    (s.meet h v).unnumbered h + (s.meet h v).found.size ≤ s.unnumbered h + s.found.size := by
  cases v with
  | int n => exact Nat.le_refl _
  | list r =>
    simp only [meet]
    split
    · rename_i hr
      have : (List.range h.size).countP
            (fun x => !(s.number.insert r s.found.size).contains x) <
          (List.range h.size).countP (fun x => !s.number.contains x) := by
        refine Heap.countP_lt (List.mem_range.2 hr.1) ?_ ?_ ?_
        · simpa using hr.2
        · simp
        · intro b
          simp [Std.HashMap.contains_insert]
      simp only [unnumbered, Array.size_push]
      omega
    · exact Nat.le_refl _

theorem meetAll_invariant (h : Heap) (s : Survey) (vs : List Value) :
    (s.meetAll h vs).unnumbered h + (s.meetAll h vs).found.size ≤
      s.unnumbered h + s.found.size := by
  induction vs generalizing s with
  | nil => exact Nat.le_refl _
  | cons v vs ih => exact Nat.le_trans (ih (s.meet h v)) (meet_invariant h s v)

/-- Enters the lists found, from the one at position `i` on. -/
def enter (h : Heap) (s : Survey) (i : Nat) : Survey :=
  if hi : i < s.found.size then
    enter h (s.meetAll h (h.items s.found[i])) (i + 1)
  else s
termination_by s.unnumbered h + s.found.size - i
decreasing_by
  have := meetAll_invariant h s (h.items s.found[i])
  omega

/-- Enters every list found, so that all lists reachable from them are found. -/
def close (h : Heap) (s : Survey) : Survey := s.enter h 0

/-- The survey of everything reachable from some values. -/
def ofValues (h : Heap) (vs : List Value) : Survey :=
  (start.meetAll h vs).close h

/-- The number of a list, or the list itself if it has none. -/
def rename (s : Survey) (r : Ref) : Nat := s.number[r]?.getD r

/-- A value with its list, if it is one, replaced by that list's number. -/
def renameValue (s : Survey) : Value → Value
  | .int n => .int n
  | .list r => .list (s.rename r)

end Survey
end LineMachine
