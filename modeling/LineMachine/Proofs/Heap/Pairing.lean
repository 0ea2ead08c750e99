import LineMachine.Proofs.Heap.Copy
import LineMachine.Proofs.Heap.Render

/-!
# Heaps that differ in the numbers of their lists

Two heaps are paired if a relation pairs existing lists of the one with existing lists
of the other, each with one only, so that paired lists have paired items.  Lists that
are not paired may be anything: what was made and forgotten, or made in another order.

**Invariant.**  What both heaps do alike to paired values leaves them paired.  New lists
are paired with each other, so that the relation only grows.

**Results.**
* `Pairing.extend`: heaps stay paired when new lists are paired with new lists.
* `Pairing.alloc`, `Pairing.replace`, `Pairing.deepCopy`: what both heaps do alike.
-/

namespace LineMachine

/-- Lists that are related one by one have related elements at every index. -/
theorem rel_getElem? {α β : Type} {P : α → β → Prop} {xs : List α} {ys : List β}
    (hxy : List.Forall₂ P xs ys) (i : Nat) : Option.Rel P xs[i]? ys[i]? := by
  induction hxy generalizing i with
  | nil => exact .none
  | cons hhead _ ih =>
      cases i with
      | zero => exact .some hhead
      | succ i => exact ih i

/-- One of two relations. -/
def Ref.Either (R Q : Ref → Ref → Prop) (r q : Ref) : Prop :=
  R r q ∨ Q r q

namespace Heap

/-- An isomorphism that pairs existing lists. -/
structure Pairing (h h' : Heap) (R : Ref → Ref → Prop) : Prop where
  isomorphism : Isomorphism h h' R
  existing : ∀ r q, R r q → r < h.size ∧ q < h'.size

/-- The second heap has the lists of the first, and maybe more. -/
structure Extends (h k : Heap) : Prop where
  size_le : h.size ≤ k.size
  items : ∀ r, r < h.size → k.items r = h.items r

theorem extends_alloc (h : Heap) (xs : List Value) : h.Extends (h.alloc xs).2 where
  size_le := by
    rw [size_alloc]
    exact Nat.le_succ _
  items r hr := by rw [items_alloc, if_neg (Nat.ne_of_lt hr)]

theorem extends_deepCopy (h : Heap) (v : Value) : h.Extends (h.deepCopy v).2 where
  size_le := size_le_size_deepCopy h v
  items _ hr := items_deepCopy_of_lt hr

section Isomorphisms

variable {h h' h'' : Heap} {R Q : Ref → Ref → Prop}

theorem Isomorphism.symm (hR : Isomorphism h h' R) : Isomorphism h' h fun q r => R r q := by
  refine ⟨hR.bisimulation.symm, ?_, ?_⟩
  · exact fun q s r hrq hrs => hR.unique.2 hrq hrs
  · exact fun q r s hrq hsq => hR.unique.1 hrq hsq

theorem Isomorphism.trans (hR : Isomorphism h h' R) (hQ : Isomorphism h' h'' Q) :
    Isomorphism h h'' fun r t => ∃ q, R r q ∧ Q q t := by
  refine ⟨hR.bisimulation.trans hQ.bisimulation, ?_, ?_⟩
  · rintro r s t ⟨q, hrq, hqt⟩ ⟨p, hsp, hpt⟩
    obtain rfl := hQ.unique.1 hqt hpt
    exact hR.unique.1 hrq hsp
  · rintro r s t ⟨q, hrq, hqs⟩ ⟨p, hrp, hpt⟩
    obtain rfl := hR.unique.2 hrq hrp
    exact hQ.unique.2 hqs hpt

/-- Heaps stay paired when both are extended, and new lists of paired items may be
paired with each other. -/
theorem Pairing.extend {k k' : Heap} (hR : h.Pairing h' R) (hk : h.Extends k)
    (hk' : h'.Extends k') (hQ : Relator.BiUnique Q)
    (hnew : ∀ r q, Q r q → (h.size ≤ r ∧ r < k.size) ∧ h'.size ≤ q ∧ q < k'.size)
    (hitems : ∀ r q, Q r q →
      List.Forall₂ (Value.Related (Ref.Either R Q)) (k.items r) (k'.items q)) :
    k.Pairing k' (Ref.Either R Q) := by
  have hdisjoint : ∀ r q s t, R r q → Q s t → r ≠ s ∧ q ≠ t := by
    intro r q s t hrq hst
    obtain ⟨hr, hq⟩ := hR.existing r q hrq
    obtain ⟨⟨hs, _⟩, ht, _⟩ := hnew s t hst
    exact ⟨Nat.ne_of_lt (Nat.lt_of_lt_of_le hr hs), Nat.ne_of_lt (Nat.lt_of_lt_of_le hq ht)⟩
  refine ⟨⟨?_, ?_, ?_⟩, ?_⟩
  · rintro r q (hrq | hrq)
    · obtain ⟨hr, hq⟩ := hR.existing r q hrq
      rw [hk.items r hr, hk'.items q hq]
      exact (hR.isomorphism.bisimulation r q hrq).imp fun _ _ hvw => hvw.mono fun _ _ => Or.inl
    · exact hitems r q hrq
  · rintro r s q (hrq | hrq) (hsq | hsq)
    · exact hR.isomorphism.unique.1 hrq hsq
    · exact absurd rfl (hdisjoint r q s q hrq hsq).2
    · exact absurd rfl (hdisjoint s q r q hsq hrq).2
    · exact hQ.1 hrq hsq
  · rintro r q t (hrq | hrq) (hrt | hrt)
    · exact hR.isomorphism.unique.2 hrq hrt
    · exact absurd rfl (hdisjoint r q r t hrq hrt).1
    · exact absurd rfl (hdisjoint r t r q hrt hrq).1
    · exact hQ.2 hrq hrt
  · rintro r q (hrq | hrq)
    · obtain ⟨hr, hq⟩ := hR.existing r q hrq
      exact ⟨Nat.lt_of_lt_of_le hr hk.size_le, Nat.lt_of_lt_of_le hq hk'.size_le⟩
    · exact ⟨(hnew r q hrq).1.2, (hnew r q hrq).2.2⟩

end Isomorphisms

section Operations

variable {h h' : Heap} {R : Ref → Ref → Prop}

/-- The two lists and no others. -/
def OnlyPair (r q s t : Ref) : Prop :=
  s = r ∧ t = q

/-- New lists of paired items are paired. -/
theorem Pairing.alloc (hR : h.Pairing h' R) {xs ys : List Value}
    (hxy : List.Forall₂ (Value.Related R) xs ys) :
    (h.alloc xs).2.Pairing (h'.alloc ys).2 (Ref.Either R (OnlyPair h.size h'.size)) := by
  refine hR.extend (extends_alloc h xs) (extends_alloc h' ys) ?_ ?_ ?_
  · refine ⟨?_, ?_⟩
    · rintro r s q ⟨rfl, _⟩ ⟨rfl, _⟩
      rfl
    · rintro r q t ⟨_, rfl⟩ ⟨_, rfl⟩
      rfl
  · rintro r q ⟨rfl, rfl⟩
    rw [size_alloc, size_alloc]
    exact ⟨⟨Nat.le_refl _, Nat.lt_succ_self _⟩, Nat.le_refl _, Nat.lt_succ_self _⟩
  · rintro r q ⟨rfl, rfl⟩
    rw [items_alloc, if_pos rfl, items_alloc, if_pos rfl]
    exact hxy.imp fun _ _ hvw => hvw.mono fun _ _ => Or.inl

/-- Paired lists stay paired with other paired items. -/
theorem Pairing.replace (hR : h.Pairing h' R) {r q : Ref} (hrq : R r q) {xs ys : List Value}
    (hxy : List.Forall₂ (Value.Related R) xs ys) :
    (h.replace r xs).Pairing (h'.replace q ys) R := by
  refine ⟨⟨fun s t hst => ?_, hR.isomorphism.unique⟩, fun s t hst => ?_⟩
  · have hsame : s = r ↔ t = q := Relator.rel_eq hR.isomorphism.unique hst hrq
    obtain ⟨hr, hq⟩ := hR.existing r q hrq
    rw [items_replace, items_replace]
    by_cases hs : s = r
    · rw [if_pos ⟨hs, hr⟩, if_pos ⟨hsame.mp hs, hq⟩]
      exact hxy
    · rw [if_neg fun h => hs h.1, if_neg fun h => hs (hsame.mpr h.1)]
      exact hR.isomorphism.bisimulation s t hst
  · rw [size_replace, size_replace]
    exact hR.existing s t hst

/-- The copies of paired lists. -/
def CopiesOf (R : Ref → Ref → Prop) (h : Heap) (v : Value) (h' : Heap) (w : Value)
    (p t : Ref) : Prop :=
  ∃ q, (∃ r, h.IsCopy v r p ∧ R r q) ∧ h'.IsCopy w q t

theorem Pairing.liesIn (hR : h.Pairing h' R) {v w : Value} (hvw : v.Related R w) :
    (v.LiesIn fun r => r < h.size) ∧ w.LiesIn fun q => q < h'.size := by
  cases hvw with
  | int n => exact ⟨trivial, trivial⟩
  | list hrq => exact hR.existing _ _ hrq

/-- Copies of paired values are paired, and everything else stays paired. -/
theorem Pairing.deepCopy (hR : h.Pairing h' R) (hh : h.Closed) (hh' : h'.Closed)
    {v w : Value} (hvw : v.Related R w) :
    (h.deepCopy v).2.Pairing (h'.deepCopy w).2 (Ref.Either R (CopiesOf R h v h' w)) ∧
      (h.deepCopy v).1.Related (Ref.Either R (CopiesOf R h v h' w)) (h'.deepCopy w).1 := by
  -- from a copy back to its original, across, and on to the copy there
  have hcopies : Isomorphism (h.deepCopy v).2 (h'.deepCopy w).2 (CopiesOf R h v h' w) :=
    ((isomorphism_deepCopy hh v).symm.trans hR.isomorphism).trans (isomorphism_deepCopy hh' w)
  constructor
  · refine hR.extend (extends_deepCopy h v) (extends_deepCopy h' w) hcopies.unique ?_ ?_
    · rintro p t ⟨q, ⟨r, hrp, _⟩, hqt⟩
      exact ⟨hrp.isNew, hqt.isNew⟩
    · intro p t hpt
      exact (hcopies.bisimulation p t hpt).imp fun _ _ hvw => hvw.mono fun _ _ => Or.inr
  · obtain ⟨hv, hw⟩ := hR.liesIn hvw
    have hcopy := ((related_deepCopy hv).symm.trans hvw).trans (related_deepCopy hw)
    exact hcopy.mono fun _ _ => Or.inr

end Operations

section Reading

variable {h h' : Heap} {R : Ref → Ref → Prop}

theorem Bisimulation.isZeroOrEmpty_eq (hR : Bisimulation h h' R) {v w : Value}
    (hvw : v.Related R w) : h.isZeroOrEmpty v = h'.isZeroOrEmpty w := by
  cases hvw with
  | int n => rfl
  | @list r q hrq =>
      have hlength := (hR r q hrq).length_eq
      rw [isZeroOrEmpty, isZeroOrEmpty, Bool.eq_iff_iff, List.isEmpty_iff_length_eq_zero,
        List.isEmpty_iff_length_eq_zero, hlength]

theorem related_itemAt? {xs ys : List Value} (hxy : List.Forall₂ (Value.Related R) xs ys)
    (index : Int) :
    Option.Rel (Value.Related R) (itemAt? xs index) (itemAt? ys index) := by
  unfold itemAt?
  split
  · exact rel_getElem? hxy index.toNat
  · exact .none

theorem related_set {xs ys : List Value} (hxy : List.Forall₂ (Value.Related R) xs ys) (i : Nat)
    {v w : Value} (hvw : v.Related R w) :
    List.Forall₂ (Value.Related R) (xs.set i v) (ys.set i w) := by
  induction hxy generalizing i with
  | nil => exact .nil
  | cons hhead htail ih =>
      cases i with
      | zero => exact .cons hvw htail
      | succ i => exact .cons hhead (ih i)

end Reading

end Heap
end LineMachine
