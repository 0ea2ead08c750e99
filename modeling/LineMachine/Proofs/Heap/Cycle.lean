import LineMachine.Proofs.Heap.Copy
import LineMachine.Proofs.Heap.Overwrite

/-!
# Lists that contain themselves

A list is on a cycle if one of its items leads back to it.  Cycles can be traced
back through every change of the heap: a bisimulation takes them to cycles of the
other heap, so copies have no other cycles than their originals; a new list holds
lists that existed before and is on no cycle; and overwriting an item closes a
cycle only if what is written leads to the list it is written to.

**Results.**
* `Isomorphism.onCycle`: a cycle comes from a cycle of the isomorphic heap.
* `not_onCycle_alloc`, `exists_onCycle_of_isNew`: new lists and cycles.
* `Overwritten.onCycle_cases`, `Overwritten.onCycle_target`: which cycles there
  are after an item is overwritten.
-/

namespace LineMachine
namespace Heap

/-- One of the items of the list leads back to it. -/
def OnCycle (h : Heap) (r : Ref) : Prop :=
  ∃ q, .list q ∈ h.items r ∧ h.Reaches (.list q) r

section Cycles

variable {h h' : Heap} {R : Ref → Ref → Prop} {v w : Value} {r s : Ref}

theorem Reaches.trans {q : Ref} (hr : h.Reaches v r) (hq : h.Reaches (.list r) q) :
    h.Reaches v q := by
  induction hq with
  | self hself =>
      cases hself
      exact hr
  | item _ hitem ih => exact .item ih hitem

/-- What a value reaches, it reaches through a list that it is. -/
theorem Reaches.exists_eq_list (hr : h.Reaches v r) : ∃ q, v = .list q := by
  induction hr with
  | self hself => exact ⟨_, hself⟩
  | item _ _ ih => exact ih

theorem OnCycle.lt_size (hr : h.OnCycle r) : r < h.size := by
  obtain ⟨q, hq, _⟩ := hr
  exact lt_size_of_items_ne_nil (List.ne_nil_of_mem hq)

/-- What a value reaches is related to what the related value reaches. -/
theorem Bisimulation.exists_reaches (hR : Bisimulation h h' R) (hvw : v.Related R w)
    (hs : h'.Reaches w s) :
    ∃ r, R r s ∧ h.Reaches v r := by
  induction hs with
  | self hself =>
      subst hself
      cases hvw with
      | list hrs => exact ⟨_, hrs, .self rfl⟩
  | item _ hitem ih =>
      obtain ⟨r, hrs, hr⟩ := ih
      obtain ⟨p, hp, hpq⟩ := hR.exists_item hrs hitem
      exact ⟨p, hpq, .item hr hp⟩

/-- **A cycle comes from a cycle of the isomorphic heap.** -/
theorem Isomorphism.onCycle (hR : Isomorphism h h' R) (hrs : R r s) (hs : h'.OnCycle s) :
    h.OnCycle r := by
  obtain ⟨q, hq, hback⟩ := hs
  obtain ⟨p, hp, hpq⟩ := hR.bisimulation.exists_item hrs hq
  obtain ⟨r', hr's, hr'⟩ := hR.bisimulation.exists_reaches (.list hpq) hback
  -- the way back ends at a list related to the same list, and there is only one
  obtain rfl := hR.unique.1 hr's hrs
  exact ⟨p, hp, hr'⟩

/-- Lists that only hold later ones are on no cycles. -/
theorem not_onCycle_of_later (hlater : ∀ r q : Nat, .list q ∈ h.items r → r < q)
    (r : Nat) : ¬ h.OnCycle r := by
  rintro ⟨q, hq, hback⟩
  have hconfined : h.Confined fun p => r < p := by
    intro p hp v hv
    cases v with
    | int n => trivial
    | list p' => exact Nat.lt_trans hp (hlater p p' hv)
  exact Nat.lt_irrefl r (hback.liesIn hconfined (hlater r q hq))

/-- Lists that keep their items are on no new cycles. -/
theorem onCycle_of_agree (hh : h.Closed)
    (hagree : ∀ q, q < h.size → h'.items q = h.items q)
    (hr : r < h.size) (hcycle : h'.OnCycle r) :
    h.OnCycle r :=
  (isomorphism_of_confined hh hagree).onCycle ⟨hr, rfl⟩ hcycle

/-- A new list that holds existing lists only is on no cycle. -/
theorem not_onCycle_alloc (hh : h.Closed) {xs : List Value}
    (hxs : ∀ v, v ∈ xs → v.LiesIn fun q => q < h.size) :
    ¬ (h.alloc xs).2.OnCycle h.size := by
  rintro ⟨q, hq, hback⟩
  have hconfined : (h.alloc xs).2.Confined fun p => p < h.size := confined_alloc hh hxs
  rw [items_alloc, if_pos rfl] at hq
  have hlt : q < h.size := hxs _ hq
  have hself : h.size < h.size := hback.liesIn (S := fun p => p < h.size) hconfined hlt
  exact Nat.lt_irrefl _ hself

/-- A copy of a list is on a cycle only if a list of its original is. -/
theorem exists_onCycle_of_isNew (hh : h.Closed) (hnew : h.IsNew v s)
    (hs : (h.deepCopy v).2.OnCycle s) :
    ∃ r, h.Reaches v r ∧ h.OnCycle r := by
  obtain ⟨r, hrs⟩ := hnew.exists_isCopy
  exact ⟨r, hrs.reaches, (isomorphism_deepCopy hh v).onCycle hrs hs⟩

end Cycles

section Overwriting

variable {h h' : Heap} {r : Ref} {index : Int} {w : Value}

/-- A cycle was there before, or what is written leads to the list it is written
to. -/
theorem Overwritten.onCycle_cases (ho : h.Overwritten h' r index w) {q : Ref}
    (hq : h'.OnCycle q) :
    h.OnCycle q ∨ h.Reaches w r := by
  obtain ⟨p, hp, hback⟩ := hq
  rcases ho.mem_cases hp with hold | ⟨rfl, rfl⟩
  · rcases ho.reaches_cases hback with hback | ⟨hr, hwq⟩
    · exact Or.inl ⟨p, hold, hback⟩
    · have hwp : h.Reaches w p := .item hwq hold
      exact Or.inr (hwp.trans hr)
  · rcases ho.reaches_cases hback with hback | ⟨hr, _⟩
    · exact Or.inr hback
    · exact Or.inr hr

/-- Writing what leads to the list it is written to closes a cycle. -/
theorem Overwritten.onCycle_target (ho : h.Overwritten h' r index w) (hr : h.Reaches w r) :
    h'.OnCycle r := by
  obtain ⟨p, rfl⟩ := hr.exists_eq_list
  exact ⟨p, ho.mem_self, ho.reaches_target hr⟩

end Overwriting

end Heap
end LineMachine
