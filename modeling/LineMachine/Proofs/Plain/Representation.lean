import LineMachine.Proofs.Heap.Copy
import LineMachine.Proofs.Heap.Overwrite
import LineMachine.Proofs.Instruction.Footprint
import LineMachine.Proofs.Plain.Machine

/-!
# Stores that represent plain memories

A store represents a plain memory if its names hold the same integers, and lists
with the same integers in them.

**Invariant.**  No two names hold the same list.  So what is written to the list of
one name is not seen under another, as if each name had a sequence of its own.

**Results.**
* `Store.Represents`: the relation, with the invariant.
* `Represents.assign`: an integer or a new list may be assigned.
* `Represents.overwrite`: an item of a list may be overwritten by an integer.
* `Represents.deepCopy`: a copy represents what its source does.
-/

namespace LineMachine

/-- The value is the integer, or a list of just the integers of the sequence. -/
inductive Heap.Represents (h : Heap) : Value → PlainValue → Prop
  | int (n : Int) : Heap.Represents h (.int n) (.int n)
  | seq {r : Ref} {ns : List Int} (hitems : h.items r = ns.map .int) :
      Heap.Represents h (.list r) (.seq ns)

/-- The names hold what those of the plain memory hold, and share no list. -/
structure Store.Represents (s : Store) (m : PlainMemory) : Prop where
  names : s.memory.names = m.names
  values : ∀ name, Option.Rel s.heap.Represents (s.memory.get? name) (m.get? name)
  unshared : ∀ {name other : String} {r : Ref}, s.memory.get? name = some (.list r) →
    s.memory.get? other = some (.list r) → name = other

theorem Heap.Represents.congr {h h' : Heap} {v : Value} {p : PlainValue}
    (hv : h.Represents v p) (hagree : ∀ r, v = .list r → h'.items r = h.items r) :
    h'.Represents v p := by
  cases hv with
  | int n => exact .int n
  | @seq r ns hitems => exact .seq ((hagree r rfl).trans hitems)

/-- A name goes on to hold the same if its list, if it holds one, is as before. -/
theorem Heap.Represents.option_congr {h h' : Heap} {o : Option Value} {p : Option PlainValue}
    (ho : Option.Rel h.Represents o p)
    (hagree : ∀ r, o = some (.list r) → h'.items r = h.items r) :
    Option.Rel h'.Represents o p := by
  cases ho with
  | none => exact .none
  | some hv => exact .some (hv.congr fun r hr => hagree r (by rw [hr]))

/-- What is related to integers is the same integers. -/
theorem Value.eq_map_int_of_related {R : Ref → Ref → Prop} {ns : List Int} {ys : List Value}
    (h : List.Forall₂ (Value.Related R) (ns.map .int) ys) : ys = ns.map .int := by
  induction ns generalizing ys with
  | nil =>
      cases h
      rfl
  | cons n ns ih =>
      rcases h with _ | ⟨⟨_⟩, hrest⟩
      rw [ih hrest, List.map_cons]

/-- A copy represents what its source does. -/
theorem Heap.Represents.deepCopy {h : Heap} {v : Value} {p : PlainValue}
    (hv : h.Represents v p) (hlies : v.LiesIn fun r => r < h.size) :
    (h.deepCopy v).2.Represents (h.deepCopy v).1 p := by
  have hrelated := Heap.related_deepCopy hlies
  cases hv with
  | int n =>
      generalize (h.deepCopy (.int n)).1 = copy at hrelated ⊢
      cases hrelated
      exact .int n
  | @seq r ns hitems =>
      generalize hcopy : (h.deepCopy (.list r)).1 = copy at hrelated ⊢
      cases hrelated with
      | @list _ q hrq =>
          have hcopied := hrq.items
          rw [hitems] at hcopied
          exact .seq (Value.eq_map_int_of_related hcopied)

namespace Store

variable {s : Store} {m : PlainMemory}

/-- A store without names represents the empty memory, whatever its lists. -/
theorem represents_empty (h : Heap) : Store.Represents ⟨.empty, h⟩ .empty := by
  refine ⟨rfl, fun name => .none, fun {name other r} hname => ?_⟩
  cases hname

/-- A name is bound in both memories or in neither. -/
theorem Represents.get?_cases (hp : s.Represents m) (name : String) :
    (s.memory.get? name = none ∧ m.get? name = none) ∨
      ∃ v p, s.memory.get? name = some v ∧ m.get? name = some p ∧ s.heap.Represents v p := by
  have hname := hp.values name
  generalize s.memory.get? name = o at hname ⊢
  generalize m.get? name = q at hname ⊢
  cases hname with
  | none => exact Or.inl ⟨rfl, rfl⟩
  | some hv => exact Or.inr ⟨_, _, rfl, rfl, hv⟩

/-- An assignment of an integer or of a new list is an assignment of what it
represents; no other list may change with it. -/
theorem Represents.assign (hp : s.Represents m) (hs : s.Closed) {h : Heap}
    (hkept : ∀ r, r < s.heap.size → h.items r = s.heap.items r) {v : Value} {p : PlainValue}
    (hv : h.Represents v p) (hnew : v.LiesIn fun r => s.heap.size ≤ r) (name : String) :
    (Store.assign ⟨s.memory, h⟩ name v).Represents (m.set name p) := by
  refine ⟨?_, fun other => ?_, fun {first second r} hfirst hsecond => ?_⟩
  · show (s.memory.set name v).names = (m.set name p).names
    rw [Memory.names_set, PlainMemory.names_set, hp.names]
  · show Option.Rel h.Represents ((s.memory.set name v).get? other) ((m.set name p).get? other)
    rw [Memory.get?_set, PlainMemory.get?_set]
    split
    · exact .some hv
    · exact Heap.Represents.option_congr (hp.values other) fun r hr => hkept r (hs.memory hr)
  · -- the list assigned is new, so that no other name holds it
    have hold : ∀ other, other ≠ name →
        (s.memory.set name v).get? other = some (.list r) →
        s.memory.get? other = some (.list r) := by
      intro other hne hother
      rwa [Memory.get?_set_of_ne (Ne.symm hne)] at hother
    have hfresh : ∀ other, other ≠ name →
        (s.memory.set name v).get? other = some (.list r) →
        (s.memory.set name v).get? name = some (.list r) → False := by
      intro other hne hother hname
      rw [Memory.get?_set_self] at hname
      cases hname
      exact Nat.not_lt.mpr hnew (hs.memory (hold other hne hother))
    by_cases hf : first = name
    · by_cases hsec : second = name
      · rw [hf, hsec]
      · rw [hf] at hfirst
        exact (hfresh second hsec hsecond hfirst).elim
    · by_cases hsec : second = name
      · rw [hsec] at hsecond
        exact (hfresh first hf hfirst hsecond).elim
      · exact hp.unshared (hold first hf hfirst) (hold second hsec hsecond)

/-- An item of the list of a name overwritten by an integer is an item of the
sequence of this name set; the other names hold other lists. -/
theorem Represents.overwrite (hp : s.Represents m) {name : String} {r : Ref} {ns : List Int}
    (hname : s.memory.get? name = some (.list r)) (hitems : s.heap.items r = ns.map .int)
    {h : Heap} {index n : Int} (ho : s.heap.Overwritten h r index (.int n)) :
    Store.Represents ⟨s.memory, h⟩ (m.set name (.seq (ns.set index.toNat n))) := by
  refine ⟨?_, fun other => ?_, hp.unshared⟩
  · have hmem : name ∈ m.names := by
      rw [← hp.names, Memory.mem_names_iff]
      exact ⟨_, hname⟩
    rw [PlainMemory.names_set, if_pos hmem, List.append_nil]
    exact hp.names
  · rw [PlainMemory.get?_set]
    split
    · rename_i heq
      subst heq
      rw [hname]
      refine .some (.seq ?_)
      rw [ho.target, hitems, List.map_set]
    · rename_i hne
      refine Heap.Represents.option_congr (hp.values other) fun q hq => ho.others q fun hqr => ?_
      rw [hqr] at hq
      exact hne (hp.unshared hname hq)

end Store
end LineMachine
