import LineMachine.Proofs.Heap.Overwrite

/-!
# Following indices

From a value, indices lead down through one list after the other.  Each index that
denotes an item reads one cell of the heap; one that denotes none leads nowhere.

**Results.**
* `follow_append`: indices go on from where their first part leads.
* `Overwritten.follow_eq`: indices that do not read the cell overwritten
  lead where they led.
* `Overwritten.follow_extend`: indices to the cell overwritten lead to what
  was written.
-/

namespace LineMachine
namespace Heap

/-- The value that indices lead to from a value, one list after the other. -/
def follow (h : Heap) : Value → List Int → Option Value
  | v, [] => some v
  | .int _, _ :: _ => none
  | .list r, i :: indices =>
    match itemAt? (h.items r) i with
    | none => none
    | some v => follow h v indices

/-- The cells that are read on the way, each as a list and an index of it. -/
def cellsRead (h : Heap) : Value → List Int → List (Ref × Int)
  | _, [] => []
  | .int _, _ :: _ => []
  | .list r, i :: indices =>
    match itemAt? (h.items r) i with
    | none => []
    | some v => (r, i) :: cellsRead h v indices

section Following

variable {h h' : Heap} {r : Ref} {index : Int} {v w : Value}

/-- Indices go on from where their first part leads. -/
theorem follow_append (h : Heap) (v : Value) (front rest : List Int) :
    h.follow v (front ++ rest) = (h.follow v front).bind fun u => h.follow u rest := by
  induction front generalizing v with
  | nil => rfl
  | cons i front ih =>
      cases v with
      | int n => rfl
      | list r =>
          rw [List.cons_append, follow, follow]
          cases itemAt? (h.items r) i with
          | none => rfl
          | some u => exact ih u

/-- Indices that do not read the cell overwritten lead where they led. -/
theorem Overwritten.follow_eq (ho : h.Overwritten h' r index w) {indices : List Int}
    (hfree : (r, index) ∉ h.cellsRead v indices) :
    h'.follow v indices = h.follow v indices := by
  induction indices generalizing v with
  | nil => rfl
  | cons i indices ih =>
      cases v with
      | int n => rfl
      | list q =>
          rw [cellsRead] at hfree
          rw [follow, follow]
          cases hitem : itemAt? (h.items q) i with
          | none =>
              -- the length is kept, so that an index beyond the end stays beyond it
              have hne : (q, i) ≠ (r, index) := by
                intro heq
                cases heq
                have hsome := (isSome_itemAt? (h.items r) index).mpr ⟨ho.nonneg, ho.lt_length⟩
                rw [hitem] at hsome
                cases hsome
              rw [ho.itemAt?_of_ne hne, hitem]
          | some u =>
              rw [hitem] at hfree
              have hne : (q, i) ≠ (r, index) := by
                intro heq
                rw [heq] at hfree
                exact hfree List.mem_cons_self
              rw [ho.itemAt?_of_ne hne, hitem]
              exact ih fun hread => hfree (List.mem_cons_of_mem _ hread)

/-- Indices to the list overwritten, with the index overwritten after them, lead to
what was written. -/
theorem Overwritten.follow_extend (ho : h.Overwritten h' r index w) {indices : List Int}
    (hreach : h.follow v indices = some (.list r))
    (hfree : (r, index) ∉ h.cellsRead v indices) :
    h'.follow v (indices ++ [index]) = some w := by
  rw [follow_append, ho.follow_eq hfree, hreach]
  show h'.follow (.list r) [index] = some w
  rw [follow, ho.itemAt?_self]
  rfl

end Following

end Heap
end LineMachine
