import LineMachine.Proofs.Heap.Reach

/-!
# Overwriting one item

The only change to a list that exists is that one of its items is overwritten.
All other items of all lists stay, so every reference that is followed afterwards
was there before, or is the one that was written.

**Results.**
* `Overwritten.itemAt?_self`, `Overwritten.itemAt?_of_ne`: what an index of a list
  gives afterwards.
* `Overwritten.reaches_cases`: what is reached afterwards was reached before, or
  through the item that was written.
* `Overwritten.reaches_target`: the list overwritten is reached afterwards from
  where it was reached before.
-/

namespace LineMachine
namespace Heap

/-- The second heap is the first with one item of one list overwritten. -/
structure Overwritten (h h' : Heap) (r : Ref) (index : Int) (w : Value) : Prop where
  nonneg : 0 ≤ index
  lt_length : index < (h.items r).length
  target : h'.items r = (h.items r).set index.toNat w
  others : ∀ q, q ≠ r → h'.items q = h.items q

section Overwriting

variable {h h' : Heap} {r : Ref} {index : Int} {w : Value}

theorem overwritten_replace (hindex : 0 ≤ index ∧ index < (h.items r).length) (w : Value) :
    h.Overwritten (h.replace r ((h.items r).set index.toNat w)) r index w := by
  have hlt : r < h.size := by
    refine lt_size_of_items_ne_nil fun hnil => ?_
    rw [hnil, List.length_nil] at hindex
    omega
  refine ⟨hindex.1, hindex.2, ?_, fun q hq => ?_⟩
  · rw [items_replace, if_pos ⟨rfl, hlt⟩]
  · rw [items_replace, if_neg fun hqr => hq hqr.1]

theorem Overwritten.itemAt?_self (ho : h.Overwritten h' r index w) :
    itemAt? (h'.items r) index = some w := by
  have hpos := ho.nonneg
  have hlt : index.toNat < (h.items r).length := by
    have := ho.lt_length
    omega
  rw [itemAt?, if_pos hpos, ho.target, List.getElem?_set_self hlt]

theorem Overwritten.itemAt?_of_ne (ho : h.Overwritten h' r index w) {q : Ref} {j : Int}
    (hne : (q, j) ≠ (r, index)) :
    itemAt? (h'.items q) j = itemAt? (h.items q) j := by
  by_cases hq : q = r
  · subst hq
    unfold itemAt?
    split
    · rename_i hj
      have hpos := ho.nonneg
      have hcell : index.toNat ≠ j.toNat := by
        intro heq
        have : j = index := by omega
        exact hne (by rw [this])
      rw [ho.target, List.getElem?_set_ne hcell]
    · rfl
  · rw [ho.others q hq]

theorem Overwritten.mem_self (ho : h.Overwritten h' r index w) : w ∈ h'.items r :=
  mem_of_itemAt? ho.itemAt?_self

theorem Overwritten.mem_cases (ho : h.Overwritten h' r index w) {q : Ref} {v : Value}
    (hv : v ∈ h'.items q) :
    v ∈ h.items q ∨ (q = r ∧ v = w) := by
  by_cases hq : q = r
  · subst hq
    rw [ho.target] at hv
    rcases List.mem_or_eq_of_mem_set hv with hold | hnew
    · exact Or.inl hold
    · exact Or.inr ⟨rfl, hnew⟩
  · rw [ho.others q hq] at hv
    exact Or.inl hv

/-- What is reached afterwards was reached before, or the list overwritten was and
the item written reaches it. -/
theorem Overwritten.reaches_cases (ho : h.Overwritten h' r index w) {v : Value} {q : Ref}
    (hq : h'.Reaches v q) :
    h.Reaches v q ∨ (h.Reaches v r ∧ h.Reaches w q) := by
  induction hq with
  | self hself => exact Or.inl (.self hself)
  | @item p q _ hitem ih =>
      rcases ho.mem_cases hitem with hold | ⟨rfl, hnew⟩
      · rcases ih with hp | ⟨hr, hp⟩
        · exact Or.inl (.item hp hold)
        · exact Or.inr ⟨hr, .item hp hold⟩
      · have hr : h.Reaches v p := by
          rcases ih with hp | ⟨hp, _⟩
          · exact hp
          · exact hp
        exact Or.inr ⟨hr, .self hnew.symm⟩

/-- The list overwritten is still reached from where it was reached before: the
way to its first occurrence uses none of its items. -/
theorem Overwritten.reaches_target (ho : h.Overwritten h' r index w) {v : Value}
    (hr : h.Reaches v r) : h'.Reaches v r := by
  have hway : ∀ q, h.Reaches v q → h'.Reaches v q ∨ h'.Reaches v r := by
    intro q hq
    induction hq with
    | self hself => exact Or.inl (.self hself)
    | @item p q _ hitem ih =>
        rcases ih with hp | htarget
        · by_cases hpr : p = r
          · rw [hpr] at hp
            exact Or.inr hp
          · rw [← ho.others p hpr] at hitem
            exact Or.inl (.item hp hitem)
        · exact Or.inr htarget
  rcases hway r hr with htarget | htarget
  · exact htarget
  · exact htarget

end Overwriting

end Heap
end LineMachine
