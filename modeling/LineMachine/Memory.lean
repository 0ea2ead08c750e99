import LineMachine.Heap.Basic

/-!
# Memory

The memory of a machine binds names to values and keeps the names in the order
in which they were first assigned.

**Input.**  Names and values.

**Algorithm.**  The bindings form a list; an assignment replaces the binding of
its name where it stands, or joins the end.

**Results.**
* `get?_set`: an assignment is seen under its own name and no other.
* `names_set`: an assignment keeps the names in order and adds at most its own.
-/

namespace LineMachine

/-- Names bound to values, in order of first assignment. -/
structure Memory where
  bindings : List (String × Value)
deriving DecidableEq, Repr

namespace Memory

def empty : Memory := ⟨[]⟩

/-- The names, in order of first assignment. -/
def names (m : Memory) : List String := m.bindings.map Prod.fst

def find? (name : String) : List (String × Value) → Option Value
  | [] => none
  | (n, v) :: rest => if n = name then some v else find? name rest

def get? (m : Memory) (name : String) : Option Value := find? name m.bindings

def assign (name : String) (v : Value) : List (String × Value) → List (String × Value)
  | [] => [(name, v)]
  | (n, w) :: rest => if n = name then (n, v) :: rest else (n, w) :: assign name v rest

def set (m : Memory) (name : String) (v : Value) : Memory := ⟨assign name v m.bindings⟩

theorem find?_assign (name other : String) (v : Value) (bs : List (String × Value)) :
    find? other (assign name v bs) = if name = other then some v else find? other bs := by
  induction bs with
  | nil => simp [assign, find?]
  | cons b bs ih =>
    obtain ⟨n, w⟩ := b
    by_cases hn : n = name
    · subst hn
      by_cases ho : n = other <;> simp [assign, find?, ho]
    · by_cases ho : n = other
      · have : ¬ name = other := fun e => hn (ho.trans e.symm)
        subst ho
        simp [assign, find?, hn, this]
      · simp [assign, find?, hn, ho, ih]

theorem get?_set (m : Memory) (name other : String) (v : Value) :
    (m.set name v).get? other = if name = other then some v else m.get? other :=
  find?_assign name other v m.bindings

theorem map_fst_assign (name : String) (v : Value) (bs : List (String × Value)) :
    (assign name v bs).map Prod.fst =
      bs.map Prod.fst ++ if name ∈ bs.map Prod.fst then [] else [name] := by
  induction bs with
  | nil => simp [assign]
  | cons b bs ih =>
    obtain ⟨n, w⟩ := b
    by_cases hn : n = name
    · simp [assign, hn]
    · have : ¬ name = n := fun e => hn e.symm
      simp only [assign, hn, if_false, List.map_cons, ih, List.mem_cons, this, false_or,
        List.cons_append]

theorem names_set (m : Memory) (name : String) (v : Value) :
    (m.set name v).names = m.names ++ if name ∈ m.names then [] else [name] :=
  map_fst_assign name v m.bindings

end Memory
end LineMachine
