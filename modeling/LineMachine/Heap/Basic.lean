import LineMachine.Fault

/-!
# Values and the heap

A value is an integer or a reference to a list.  The lists themselves live in
the heap, numbered in order of creation; two values that hold the same reference
are the same list, and see each other's changes.

**Input.**  The heap only grows: a list is never removed, and the only change to
an existing list is the replacement of one item.

**Results.**
* `items_alloc`, `items_replace`: what allocation and replacement do to the
  items of each list.
* `get`, `set`: access to an item, which fails outside the list.
-/

namespace LineMachine

/-- The number of a list in the heap. -/
abbrev Ref := Nat

/-- The values that variables and lists hold. -/
inductive Value where
  | int (n : Int)
  | list (ref : Ref)
deriving DecidableEq, Repr

namespace Value

def kind : Value → Kind
  | int _ => .int
  | list _ => .list

def asInteger : Value → Except Fault Int
  | int n => .ok n
  | list _ => .error (.typeMismatch .int .list)

def asList : Value → Except Fault Ref
  | int _ => .error (.typeMismatch .list .int)
  | list ref => .ok ref

def negate (v : Value) : Except Fault Value :=
  v.asInteger.map fun n => int (-n)

end Value

/-- The lists that exist, in order of creation. -/
structure Heap where
  lists : Array (List Value)
deriving DecidableEq, Repr

namespace Heap

def empty : Heap := ⟨#[]⟩

def size (h : Heap) : Nat := h.lists.size

/-- The items of a list; a number that no list has stands for an empty list. -/
def items (h : Heap) (r : Ref) : List Value := h.lists[r]?.getD []

/-- A new list with the given items. -/
def alloc (h : Heap) (xs : List Value) : Ref × Heap := (h.lists.size, ⟨h.lists.push xs⟩)

/-- The heap with other items in an existing list. -/
def replace (h : Heap) (r : Ref) (xs : List Value) : Heap := ⟨h.lists.setIfInBounds r xs⟩

/-- The item at an index, counted from zero. -/
def itemAt? (xs : List Value) (index : Int) : Option Value :=
  if 0 ≤ index then xs[index.toNat]? else none

/-- The failure at an index outside a list.  The fault comes with its wording, so that an
index that cannot be written is refused instead. -/
def outOfRange (index : Int) (length : Nat) : Failure :=
  match Numeral.text index with
  | .ok _ => .fault (.indexOutOfRange index length)
  | .error e => .limit e

def get (h : Heap) (r : Ref) (index : Int) : Except Failure Value :=
  match itemAt? (h.items r) index with
  | some v => .ok v
  | none => .error (outOfRange index (h.items r).length)

/-- The heap with another item at an index of a list. -/
def set (h : Heap) (r : Ref) (index : Int) (v : Value) : Except Failure Heap :=
  match itemAt? (h.items r) index with
  | some _ => .ok (h.replace r ((h.items r).set index.toNat v))
  | none => .error (outOfRange index (h.items r).length)

/-- A new list with the items of one list followed by those of another. -/
def concat (h : Heap) (r₁ r₂ : Ref) : Ref × Heap := h.alloc (h.items r₁ ++ h.items r₂)

def isZeroOrEmpty (h : Heap) : Value → Bool
  | .int n => n == 0
  | .list r => (h.items r).isEmpty

/-- A stricter test that fails at some member counts fewer members. -/
theorem countP_lt {α : Type} {p q : α → Bool} {l : List α} {a : α} (ha : a ∈ l)
    (hp : p a = true) (hq : q a = false) (h : ∀ b, q b = true → p b = true) :
    l.countP q < l.countP p := by
  induction l with
  | nil => cases ha
  | cons b l ih =>
    have hle : l.countP q ≤ l.countP p := List.countP_mono_left fun c _ => h c
    rcases List.mem_cons.1 ha with rfl | ha
    · simp [hp, hq]
      omega
    · simp only [List.countP_cons]
      refine Nat.add_lt_add_of_lt_of_le (ih ha) ?_
      cases hb : q b with
      | true => simp [h b hb]
      | false => exact Nat.zero_le _

@[simp] theorem size_alloc (h : Heap) (xs : List Value) : (h.alloc xs).2.size = h.size + 1 := by
  simp [alloc, size]

@[simp] theorem size_replace (h : Heap) (r : Ref) (xs : List Value) :
    (h.replace r xs).size = h.size := by
  simp [replace, size]

theorem items_of_size_le {h : Heap} {r : Ref} (hr : h.size ≤ r) : h.items r = [] := by
  have : h.lists[r]? = none := Array.getElem?_eq_none hr
  simp [items, this]

/-- An index denotes an item exactly if it is not negative and below the length. -/
theorem isSome_itemAt? (xs : List Value) (index : Int) :
    (itemAt? xs index).isSome = true ↔ 0 ≤ index ∧ index < xs.length := by
  unfold itemAt?
  split
  · rename_i h
    simp [h]
  · rename_i h
    simp [h]

theorem outOfRange_of_writable {index : Int} (h : Numeral.writable index = true) (length : Nat) :
    outOfRange index length = .fault (.indexOutOfRange index length) := by
  rw [outOfRange, Numeral.text_eq_ok h]

theorem outOfRange_of_not_writable {index : Int} (h : Numeral.writable index = false)
    (length : Nat) : outOfRange index length = .limit .writing := by
  rw [outOfRange, Numeral.text_eq_error h]

theorem lt_size_of_items_ne_nil {h : Heap} {r : Ref} (hr : h.items r ≠ []) : r < h.size :=
  Nat.lt_of_not_le fun hle => hr (items_of_size_le hle)

theorem items_alloc (h : Heap) (xs : List Value) (r : Ref) :
    (h.alloc xs).2.items r = if r = h.size then xs else h.items r := by
  simp only [items, alloc, size, Array.getElem?_push]
  split <;> simp_all

theorem items_replace (h : Heap) (r s : Ref) (xs : List Value) :
    (h.replace r xs).items s = if s = r ∧ r < h.size then xs else h.items s := by
  simp only [items, replace, size, Array.getElem?_setIfInBounds]
  by_cases hs : s = r
  · subst hs
    by_cases hb : s < h.lists.size <;> simp [hb]
  · have : ¬ r = s := fun e => hs e.symm
    simp [hs, this]

end Heap
end LineMachine
