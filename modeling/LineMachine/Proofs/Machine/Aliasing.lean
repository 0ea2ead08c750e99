import LineMachine.Proofs.Heap.Path
import LineMachine.Proofs.Machine.Frame

/-!
# Aliases see replacements

Variables and lists may hold the same list under many names.  A replacement in it
is seen through every access path that leads to the list, however long and through
whatever sharing and cycles, and through no path that does not read the cell.

**Input.**  An access path is a variable followed by indices.  It is evaluated by
looking up the variable and indexing one list after the other.

**Results.**
* `AccessPath.eval`, `AccessPath.cellsRead`: where a path leads, and what it reads.
* `Machine.overwritten_next`: a replacement overwrites one cell and binds no name.
* `Machine.aliases_see_replacement`: what every path evaluates to afterwards.
-/

namespace LineMachine

/-- A variable followed by indices. -/
structure AccessPath where
  name : String
  indices : List Int
deriving DecidableEq, Repr

namespace AccessPath

/-- The value that a path leads to, if every list and every item on it exists. -/
def eval (p : AccessPath) (s : Store) : Option Value :=
  (s.memory.get? p.name).bind fun v => s.heap.follow v p.indices

/-- The cells that the evaluation of a path reads. -/
def cellsRead (p : AccessPath) (s : Store) : List (Ref × Int) :=
  match s.memory.get? p.name with
  | none => []
  | some v => s.heap.cellsRead v p.indices

/-- The path with one more index after it. -/
def extend (p : AccessPath) (index : Int) : AccessPath :=
  ⟨p.name, p.indices ++ [index]⟩

section Overwriting

variable {s s' : Store} {r : Ref} {index : Int} {w : Value}

/-- A path that does not read the cell overwritten leads where it led. -/
theorem eval_of_not_read (hmemory : s'.memory = s.memory)
    (ho : s.heap.Overwritten s'.heap r index w)
    {p : AccessPath} (hfree : (r, index) ∉ p.cellsRead s) :
    p.eval s' = p.eval s := by
  rw [eval, eval, hmemory]
  rw [cellsRead] at hfree
  cases hname : s.memory.get? p.name with
  | none => rfl
  | some v =>
      rw [hname] at hfree
      exact ho.follow_eq hfree

/-- A path to the list overwritten, with the index overwritten after it, leads to
what was written. -/
theorem eval_extend (hmemory : s'.memory = s.memory)
    (ho : s.heap.Overwritten s'.heap r index w)
    {p : AccessPath} (hreach : p.eval s = some (.list r))
    (hfree : (r, index) ∉ p.cellsRead s) :
    (p.extend index).eval s' = some w := by
  rw [eval] at hreach
  rw [cellsRead] at hfree
  rw [eval, extend, hmemory]
  cases hname : s.memory.get? p.name with
  | none =>
      rw [hname] at hreach
      cases hreach
  | some v =>
      rw [hname] at hreach hfree
      exact ho.follow_extend hreach hfree

end Overwriting

end AccessPath

namespace Machine

variable {m : Machine} {source seq : String} {index : Int}

/-- The effect of a replacement is that one cell is overwritten; no name is bound. -/
theorem overwritten_of_effect {control : Control} {s s' : Store}
    (heffect : Effect (.set source index seq) s control s') :
    ∃ r v, s.memory.get? seq = some (.list r) ∧ Resolves s source v ∧
      s'.memory = s.memory ∧ s.heap.Overwritten s'.heap r index v := by
  cases heffect with
  | @set _ _ _ _ r v hsource hseq hindex =>
      exact ⟨r, v, hseq, hsource, rfl, Heap.overwritten_replace hindex v⟩

/-- A replacement overwrites one cell, and binds no name. -/
theorem overwritten_next (hset : m.Executes (.set source index seq)) :
    ∃ r v, m.memory.get? seq = some (.list r) ∧ Resolves m.store source v ∧
      m.next.memory = m.memory ∧ m.heap.Overwritten m.next.heap r index v := by
  obtain ⟨control, s', heffect, hnext⟩ := hset.exists_effect
  rw [hnext]
  exact overwritten_of_effect heffect

/-- **Aliases see a replacement, and nothing else does.**  Every path that led to
the list without reading the cell leads, with the index after it, to the value
written; every path that did not read the cell leads where it led. -/
theorem aliases_see_replacement (hset : m.Executes (.set source index seq)) :
    ∃ r v, m.memory.get? seq = some (.list r) ∧ Resolves m.store source v ∧
      (∀ p : AccessPath, p.eval m.store = some (.list r) → (r, index) ∉ p.cellsRead m.store →
        (p.extend index).eval m.next.store = some v) ∧
      (∀ p : AccessPath, (r, index) ∉ p.cellsRead m.store →
        p.eval m.next.store = p.eval m.store) := by
  obtain ⟨r, v, hseq, hsource, hmemory, ho⟩ := overwritten_next hset
  refine ⟨r, v, hseq, hsource, fun p hreach hfree => ?_, fun p hfree => ?_⟩
  · exact AccessPath.eval_extend hmemory ho hreach hfree
  · exact AccessPath.eval_of_not_read hmemory ho hfree

/-- The lists `x` and `y` hold each other after the replacement; the path `y 0 0`
passes through the cell that is overwritten only then. -/
theorem aliases_see_replacement_beforeSharedSet :
    (AccessPath.mk "y" [0]).eval beforeSharedSet.store = some (.list 0) ∧
      (AccessPath.mk "y" [0, 0]).eval beforeSharedSet.next.store = some (.list 1) ∧
      (AccessPath.mk "y" [0]).eval beforeSharedSet.next.store = some (.list 0) := by
  have hset : beforeSharedSet.Executes (.set "y" 0 "x") :=
    ⟨rfl, ⟨"SET y 0 x", rfl, rfl⟩, _, _, rfl⟩
  have hreach : (AccessPath.mk "y" [0]).eval beforeSharedSet.store = some (.list 0) := by
    decide
  have hfree : ((0 : Ref), (0 : Int)) ∉ (AccessPath.mk "y" [0]).cellsRead
      beforeSharedSet.store := by decide
  obtain ⟨r, v, hseq, hsource, hextend, hsame⟩ := aliases_see_replacement hset
  cases hseq
  cases hsource with
  | bound hname =>
      cases hname
      refine ⟨hreach, hextend _ hreach hfree, ?_⟩
      rw [hsame _ hfree]
      exact hreach
  | literal hname => cases hname

end Machine
end LineMachine
