import LineMachine.Heap.Basic
import Std.Data.HashMap

/-!
# Deep copies

A deep copy of a list shares no list with it and has the same shape: where the
source meets the same list twice, or itself, so does the copy.

**Input.**  A heap, a value, and a memo: the lists copied earlier with the copy
of each.  A list in the memo is not copied again.

**Algorithm.**  A list that is met for the first time gets a new list as its
copy.  The copy is recorded while it is empty, so that a list that contains
itself is copied once, and is pending then.  The pending list that came last is
filled first: the copies of the items are appended one by one, and the lists met
on the way are pending in turn.

**Termination.**  Only lists that existed at first get copies, and each of them
is pending once.

**Results.**
* `Copying.append_invariant`: a list that becomes pending is one list less to
  record.
* `Copying.run`: all that is pending filled.
* `copyWith`: the copy of a value, with the memo and the heap afterwards.
* `deepCopy`: the copy of a value by an empty memo.
-/

namespace LineMachine

/-- The copies made so far, each under the list that it is a copy of. -/
abbrev CopyMemo := Std.HashMap Ref Ref

/-- A copy under way. -/
structure Copying where
  /-- The number of lists that there were at first. -/
  base : Nat
  memo : CopyMemo
  /-- The lists with a copy that is yet to be filled, the last one first. -/
  pending : List (Ref × Ref)
  heap : Heap

namespace Copying

def start (h : Heap) (memo : CopyMemo) : Copying := ⟨h.size, memo, [], h⟩

/-- The copy of a list: the one recorded, or else a new list, which is recorded
before it is filled.  A number that no list has is kept. -/
def copyOf (c : Copying) (r : Ref) : Ref × Copying :=
  match c.memo[r]? with
  | some q => (q, c)
  | none =>
    if r < c.base then
      let (q, heap) := c.heap.alloc []
      (q, ⟨c.base, c.memo.insert r q, (r, q) :: c.pending, heap⟩)
    else (r, c)

def copyItem (c : Copying) : Value → Value × Copying
  | .int n => (.int n, c)
  | .list r =>
    let (q, c) := c.copyOf r
    (.list q, c)

/-- Appends the copy of an item to a list. -/
def append (q : Ref) (c : Copying) (item : Value) : Copying :=
  let (copy, c) := c.copyItem item
  ⟨c.base, c.memo, c.pending, c.heap.replace q (c.heap.items q ++ [copy])⟩

/-- Appends the copies of some items to a list, in order. -/
def fill (c : Copying) (q : Ref) (items : List Value) : Copying :=
  items.foldl (append q) c

/-- How many of the lists that there were at first have no copy. -/
def unrecorded (c : Copying) : Nat :=
  (List.range c.base).countP fun r => !c.memo.contains r

/-- A list that becomes pending is one list less to record. -/
theorem copyOf_invariant (c : Copying) (r : Ref) :
    (c.copyOf r).2.unrecorded + (c.copyOf r).2.pending.length ≤
      c.unrecorded + c.pending.length := by
  simp only [copyOf]
  split
  · exact Nat.le_refl _
  · rename_i hnew
    split
    · rename_i hr
      have : (List.range c.base).countP (fun x => !(c.memo.insert r c.heap.size).contains x) <
          (List.range c.base).countP (fun x => !c.memo.contains x) := by
        refine Heap.countP_lt (List.mem_range.2 hr) ?_ ?_ ?_
        · simp [Std.HashMap.contains_eq_isSome_getElem?, hnew]
        · simp
        · intro b
          simp [Std.HashMap.contains_insert]
      simp only [unrecorded, List.length_cons]
      have halloc : (c.heap.alloc []).1 = c.heap.size := rfl
      rw [halloc]
      omega
    · exact Nat.le_refl _

theorem append_invariant (q : Ref) (c : Copying) (item : Value) :
    (c.append q item).unrecorded + (c.append q item).pending.length ≤
      c.unrecorded + c.pending.length := by
  cases item with
  | int n => exact Nat.le_refl _
  | list r => exact copyOf_invariant c r

theorem fill_invariant (c : Copying) (q : Ref) (items : List Value) :
    (c.fill q items).unrecorded + (c.fill q items).pending.length ≤
      c.unrecorded + c.pending.length := by
  induction items generalizing c with
  | nil => exact Nat.le_refl _
  | cons item items ih => exact Nat.le_trans (ih (c.append q item)) (append_invariant q c item)

/-- Fills the copy that is pending for the shortest time, and goes on until none is. -/
def run (c : Copying) : Copying :=
  match _hpending : c.pending with
  | [] => c
  | (r, q) :: pending =>
    run (fill ⟨c.base, c.memo, pending, c.heap⟩ q (c.heap.items r))
termination_by c.unrecorded + c.pending.length
decreasing_by
  have hfill := fill_invariant ⟨c.base, c.memo, pending, c.heap⟩ q (c.heap.items r)
  refine Nat.lt_of_le_of_lt hfill ?_
  rw [_hpending]
  exact Nat.lt_succ_self _

end Copying

namespace Heap

/-- A copy of a value that shares no list with it but the copies in the memo; and
the memo and the heap afterwards. -/
def copyWith (h : Heap) (memo : CopyMemo) (v : Value) : Value × CopyMemo × Heap :=
  let (copy, c) := (Copying.start h memo).copyItem v
  let c := c.run
  (copy, c.memo, c.heap)

/-- A copy of a value that shares no list with it, and the heap afterwards. -/
def deepCopy (h : Heap) (v : Value) : Value × Heap :=
  let (copy, _, h) := h.copyWith ∅ v
  (copy, h)

end Heap
end LineMachine
