import LineMachine.Heap.Basic
import Std.Data.HashSet

/-!
# Equality of values

Two values are equal if no path of indices tells them apart: integers by their
value, lists by their lengths and by their items in order.  Lists may contain
themselves, so equality is not a matter of structural recursion.

**Input.**  A heap and two values.

**Algorithm.**  Pairs of lists wait for comparison.  A pair of one list with
itself, or one that was taken up before, is passed over: it is enough that no
difference shows up elsewhere.  Any other pair is taken up: its items are
compared in order, and the lists among them wait in turn.

**Termination.**  A pair of existing lists is taken up once.  A number that no
list has stands for an empty list, which lets no further pair wait.

**Results.**
* `sameValue`: whether two values of a heap are equal.
-/

namespace LineMachine
namespace Heap

/-- Compares items in order: the pairs of lists among them join those that wait,
and any other difference ends the comparison. -/
def pushPairs (waiting : List (Ref × Ref)) :
    List Value → List Value → Option (List (Ref × Ref))
  | [], [] => some waiting
  | .int m :: xs, .int n :: ys => if m = n then pushPairs waiting xs ys else none
  | .list r :: xs, .list s :: ys => pushPairs ((r, s) :: waiting) xs ys
  | _, _ => none

/-- The pairs of existing lists. -/
def pairs (h : Heap) : List (Ref × Ref) :=
  (List.range h.size).flatMap fun r => (List.range h.size).map fun s => (r, s)

theorem mem_pairs {h : Heap} {r s : Ref} : (r, s) ∈ h.pairs ↔ r < h.size ∧ s < h.size := by
  simp [pairs]

/-- How many pairs of existing lists have not been taken up. -/
def untaken (h : Heap) (taken : Std.HashSet (Ref × Ref)) : Nat :=
  h.pairs.countP fun p => !taken.contains p

theorem untaken_insert_le (h : Heap) (taken : Std.HashSet (Ref × Ref)) (p : Ref × Ref) :
    h.untaken (taken.insert p) ≤ h.untaken taken := by
  refine List.countP_mono_left fun q _ => ?_
  simp [Std.HashSet.contains_insert]

theorem untaken_insert_lt {h : Heap} {taken : Std.HashSet (Ref × Ref)} {r s : Ref}
    (hr : r < h.size) (hs : s < h.size) (hnew : taken.contains (r, s) = false) :
    h.untaken (taken.insert (r, s)) < h.untaken taken := by
  refine countP_lt (mem_pairs.2 ⟨hr, hs⟩) ?_ ?_ ?_
  · simp [hnew]
  · simp
  · intro q
    simp [Std.HashSet.contains_insert]

/-- A number that no list has lets no further pair wait. -/
theorem pushPairs_of_not_lt {h : Heap} {waiting waiting' : List (Ref × Ref)} {r s : Ref}
    (hrs : ¬ (r < h.size ∧ s < h.size))
    (hp : pushPairs waiting (h.items r) (h.items s) = some waiting') : waiting' = waiting := by
  by_cases hr : r < h.size
  · have hs : h.size ≤ s := Nat.le_of_not_lt fun hs => hrs ⟨hr, hs⟩
    rw [items_of_size_le hs] at hp
    cases hx : h.items r with
    | nil => simpa [hx, pushPairs] using hp.symm
    | cons x xs => cases x <;> simp [hx, pushPairs] at hp
  · rw [items_of_size_le (Nat.le_of_not_lt hr)] at hp
    cases hy : h.items s with
    | nil => simpa [hy, pushPairs] using hp.symm
    | cons y ys => cases y <;> simp [hy, pushPairs] at hp

/-- Whether the waiting pairs of lists are equal, given that the pairs taken up
are. -/
def sameFrom (h : Heap) (taken : Std.HashSet (Ref × Ref)) : List (Ref × Ref) → Bool
  | [] => true
  | (r, s) :: waiting =>
    if _hskip : r = s ∨ taken.contains (r, s) = true then sameFrom h taken waiting
    else match _hp : pushPairs waiting (h.items r) (h.items s) with
      | none => false
      | some waiting' => sameFrom h (taken.insert (r, s)) waiting'
termination_by waiting => (h.untaken taken, waiting.length)
decreasing_by
  · exact Prod.Lex.right _ (by simp)
  · have hnew : taken.contains (r, s) = false := by
      cases hc : taken.contains (r, s) with
      | true => exact absurd (Or.inr hc) _hskip
      | false => rfl
    by_cases hrs : r < h.size ∧ s < h.size
    · exact Prod.Lex.left _ _ (untaken_insert_lt hrs.1 hrs.2 hnew)
    · have hw := pushPairs_of_not_lt hrs _hp
      rcases Nat.lt_or_eq_of_le (untaken_insert_le h taken (r, s)) with hlt | heq
      · exact Prod.Lex.left _ _ hlt
      · rw [heq, hw]
        exact Prod.Lex.right _ (by simp)

def sameList (h : Heap) (r s : Ref) : Bool := h.sameFrom ∅ [(r, s)]

def sameValue (h : Heap) : Value → Value → Bool
  | .int m, .int n => m == n
  | .list r, .list s => h.sameList r s
  | _, _ => false

end Heap
end LineMachine
