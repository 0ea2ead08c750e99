import LineMachine.Heap.Basic

/-!
# Reachability and confinement

A value reaches the list that it is and the items of every list that it reaches.
A set of lists is confined in a heap if its lists hold no list outside the set;
what a value of the set reaches then stays in the set.

**Results.**
* `Reaches.liesIn`: what is reached from a confined set lies in it.
* `confined_alloc`, `confined_replace`: a set stays confined if what is written
  lies in it.
* `reaches_congr`: heaps that agree on the lists reached reach the same lists.
-/

namespace LineMachine

/-- An integer, or a list of the set. -/
def Value.LiesIn (S : Ref → Prop) : Value → Prop
  | .int _ => True
  | .list r => S r

theorem Value.LiesIn.mono {S T : Ref → Prop} {v : Value} (hv : v.LiesIn S)
    (hST : ∀ r, S r → T r) : v.LiesIn T := by
  cases v with
  | int n => trivial
  | list r => exact hST r hv

namespace Heap

/-- The lists that a value reaches. -/
inductive Reaches (h : Heap) (v : Value) : Ref → Prop
  | self {r : Ref} (hv : v = .list r) : Reaches h v r
  | item {r q : Ref} (hr : Reaches h v r) (hq : .list q ∈ h.items r) : Reaches h v q

/-- The lists of the set hold no list outside the set. -/
def Confined (h : Heap) (S : Ref → Prop) : Prop :=
  ∀ r, S r → ∀ v, v ∈ h.items r → v.LiesIn S

/-- Every list that a list of the heap holds exists. -/
def Closed (h : Heap) : Prop :=
  h.Confined fun r => r < h.size

section Confinement

variable {h h' : Heap} {S : Ref → Prop} {v : Value}

theorem Reaches.liesIn {r : Ref} (hr : h.Reaches v r) (hS : h.Confined S) (hv : v.LiesIn S) :
    S r := by
  induction hr with
  | self hself =>
      subst hself
      exact hv
  | item _ hq ih => exact hS _ ih _ hq

theorem confined_reaches (h : Heap) (v : Value) : h.Confined (h.Reaches v) := by
  intro r hr w hw
  cases w with
  | int n => trivial
  | list q => exact .item hr hw

theorem liesIn_reaches (h : Heap) (v : Value) : v.LiesIn (h.Reaches v) := by
  cases v with
  | int n => trivial
  | list r => exact .self rfl

theorem closed_empty : Heap.empty.Closed :=
  fun _ hr => absurd hr (Nat.not_lt_zero _)

theorem closed_of_lists {lists : Array (List Value)}
    (hlists : ∀ items, items ∈ lists.toList → ∀ v, v ∈ items →
      v.LiesIn fun q => q < lists.size) :
    Closed ⟨lists⟩ := by
  intro r hr v hv
  refine hlists _ (Array.getElem_mem_toList hr) v ?_
  rwa [items, Array.getElem?_eq_getElem hr, Option.getD_some] at hv

theorem Closed.liesIn (hh : h.Closed) {r : Ref} (hv : v ∈ h.items r) :
    v.LiesIn fun q => q < h.size :=
  hh r (lt_size_of_items_ne_nil (List.ne_nil_of_mem hv)) v hv

theorem confined_alloc (hS : h.Confined S) {xs : List Value} (hxs : ∀ v, v ∈ xs → v.LiesIn S) :
    (h.alloc xs).2.Confined S := by
  intro r hr v hv
  rw [items_alloc] at hv
  split at hv
  · exact hxs v hv
  · exact hS r hr v hv

theorem confined_replace (hS : h.Confined S) {r : Ref} {xs : List Value}
    (hxs : ∀ v, v ∈ xs → v.LiesIn S) : (h.replace r xs).Confined S := by
  intro q hq v hv
  rw [items_replace] at hv
  split at hv
  · exact hxs v hv
  · exact hS q hq v hv

theorem mem_of_itemAt? {xs : List Value} {index : Int} (hv : itemAt? xs index = some v) :
    v ∈ xs := by
  unfold itemAt? at hv
  split at hv
  · exact List.mem_of_getElem? hv
  · cases hv

/-- Heaps that agree on the lists reached reach the same lists. -/
theorem reaches_congr (hagree : ∀ r, h.Reaches v r → h'.items r = h.items r) (r : Ref) :
    h'.Reaches v r ↔ h.Reaches v r := by
  constructor
  · intro hr
    induction hr with
    | self hself => exact .self hself
    | item _ hq ih =>
        rw [hagree _ ih] at hq
        exact .item ih hq
  · intro hr
    induction hr with
    | self hself => exact .self hself
    | item hr hq ih =>
        rw [← hagree _ hr] at hq
        exact .item ih hq

end Confinement

end Heap
end LineMachine
