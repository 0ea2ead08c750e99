import LineMachine.Proofs.Heap.Cycle
import Mathlib.Logic.Equiv.Defs

/-!
# What a list and its copy reach

An isomorphism that relates two values pairs every list that the one reaches with just
one that the other reaches.  The isomorphism of a list with its deep copy thus is a
bijection from all that the list reaches, shared lists and cycles included, to the
lists that the copy reaches; and these are new.

**Input.**  A heap in which every list that is held exists, and a list of it.

**Results.**
* `Isomorphism.exists_equiv`: an isomorphism is a bijection of what is reached.
* `deepCopy_corresponds`: a deep copy is a new list with the shape of its original.
-/

namespace LineMachine
namespace Heap

/-- The lists that a value reaches. -/
abbrev Reached (h : Heap) (v : Value) :=
  {r : Ref // h.Reaches v r}

section Bijections

variable {h h' : Heap} {R : Ref → Ref → Prop} {v w : Value}

/-- A relation that pairs each list of a set with just one of another set, and the other
way round, is a bijection of the sets. -/
theorem exists_equiv_of_biUnique {P Q : Ref → Prop} (hR : Relator.BiUnique R)
    (hthere : ∀ r, P r → ∃ s, R r s ∧ Q s) (hback : ∀ s, Q s → ∃ r, R r s ∧ P r) :
    ∃ f : {r // P r} ≃ {s // Q s}, ∀ r : {r // P r}, R r (f r) := by
  choose f hf using hthere
  choose g hg using hback
  refine ⟨⟨fun r => ⟨f r r.2, (hf r r.2).2⟩, fun s => ⟨g s s.2, (hg s s.2).2⟩,
    fun r => ?_, fun s => ?_⟩, fun r => (hf r r.2).1⟩
  · exact Subtype.ext (hR.1 (hg _ (hf r r.2).2).1 (hf r r.2).1)
  · exact Subtype.ext (hR.2 (hf _ (hg s s.2).2).1 (hg s s.2).1)

/-- **An isomorphism is a bijection** from what a value reaches to what the related
value reaches. -/
theorem Isomorphism.exists_equiv (hR : Isomorphism h h' R) (hvw : v.Related R w) :
    ∃ f : h.Reached v ≃ h'.Reached w, ∀ r : h.Reached v, R r (f r) := by
  refine exists_equiv_of_biUnique hR.unique (fun r hr => ?_) fun s hs => ?_
  · exact hR.bisimulation.symm.exists_reaches hvw.symm hr
  · exact hR.bisimulation.exists_reaches hvw hs

/-- The second list is the one that the bijection pairs with the first. -/
def Paired (f : h.Reached v ≃ h'.Reached w) (r s : Ref) : Prop :=
  ∃ hr : h.Reaches v r, (f ⟨r, hr⟩ : Ref) = s

/-- Lists that the bijection pairs hold the same integers, and lists that it pairs. -/
theorem Isomorphism.items_paired (hR : Isomorphism h h' R) {f : h.Reached v ≃ h'.Reached w}
    (hf : ∀ r : h.Reached v, R r (f r)) (r : h.Reached v) :
    List.Forall₂ (Value.Related (Paired f)) (h.items r) (h'.items (f r)) := by
  have hitems := hR.bisimulation r (f r) (hf r)
  have hreached : ∀ u, u ∈ h.items r → u.LiesIn (h.Reaches v) := confined_reaches h v r r.2
  rw [List.forall₂_iff_get] at hitems ⊢
  refine ⟨hitems.1, fun i hi hi' => ?_⟩
  have hlies := hreached _ (List.get_mem (h.items r) ⟨i, hi⟩)
  have hrelated := hitems.2 i hi hi'
  generalize (h.items r).get ⟨i, hi⟩ = u at hlies hrelated ⊢
  generalize (h'.items (f r)).get ⟨i, hi'⟩ = u' at hrelated ⊢
  cases hrelated with
  | int n => exact .int n
  | list hpq => exact .list ⟨hlies, hR.unique.2 (hf ⟨_, hlies⟩) hpq⟩

end Bijections

section Copies

variable {h : Heap} {a : Ref}

/-- **A deep copy is a new list with the shape of its original.**  What the two reach
corresponds one to one: lists to new lists that have as many items, the same integers
at the same places, and at the other places the lists that correspond.  The lists that
existed before keep their items. -/
theorem deepCopy_corresponds (hh : h.Closed) (ha : a < h.size) :
    ∃ r, (h.deepCopy (.list a)).1 = .list r ∧
      (∃ f : h.Reached (.list a) ≃ (h.deepCopy (.list a)).2.Reached (.list r),
        (f ⟨a, .self rfl⟩ : Ref) = r ∧
        ∀ p : h.Reached (.list a),
          List.Forall₂ (Value.Related (Paired f))
            (h.items p) ((h.deepCopy (.list a)).2.items (f p)) ∧
          h.size ≤ (f p : Ref) ∧ (f p : Ref) < (h.deepCopy (.list a)).2.size) ∧
      ∀ p, p < h.size → (h.deepCopy (.list a)).2.items p = h.items p := by
  have hshape := isomorphism_deepCopy hh (.list a)
  have hcopy : (Value.list a).Related (h.IsCopy (.list a)) (h.deepCopy (.list a)).1 :=
    related_deepCopy ha
  generalize (h.deepCopy (.list a)).1 = w at hcopy ⊢
  cases hcopy with
  | @list _ r har =>
      obtain ⟨f, hf⟩ := hshape.exists_equiv (.list har)
      refine ⟨r, rfl, ⟨f, ?_, fun p => ⟨hshape.items_paired hf p, (hf p).isNew⟩⟩, ?_⟩
      · exact hshape.unique.2 (hf ⟨a, .self rfl⟩) har
      · exact fun p hp => items_deepCopy_of_lt hp

end Copies

/-- A list that holds another one twice, which holds it in turn. -/
def knot : Heap :=
  ⟨#[[.int 7, .list 1, .list 1], [.list 0]]⟩

theorem deepCopy_corresponds_knot :
    ∃ r q, (knot.deepCopy (.list 0)).1 = .list r ∧ 2 ≤ r ∧ 2 ≤ q ∧ r ≠ q ∧
      (knot.deepCopy (.list 0)).2.items r = [.int 7, .list q, .list q] ∧
      (knot.deepCopy (.list 0)).2.items q = [.list r] := by
  have hclosed : knot.Closed := closed_of_lists (by simp [Value.LiesIn])
  obtain ⟨r, hcopy, ⟨f, hroot, hf⟩, _⟩ := deepCopy_corresponds (a := 0) hclosed (by decide)
  have h₀ : knot.Reaches (.list 0) 0 := .self rfl
  have h₁ : knot.Reaches (.list 0) 1 := .item h₀ (by decide)
  obtain ⟨houter, hr, _⟩ := hf ⟨0, h₀⟩
  obtain ⟨hinner, hq, _⟩ := hf ⟨1, h₁⟩
  have hne : (f ⟨0, h₀⟩ : Ref) ≠ f ⟨1, h₁⟩ := fun heq => by
    cases f.injective (Subtype.ext heq)
  rw [hroot] at houter hr hne
  have houter' : List.Forall₂ (Value.Related (Paired f)) [.int 7, .list 1, .list 1]
      ((knot.deepCopy (.list 0)).2.items r) := houter
  have hinner' : List.Forall₂ (Value.Related (Paired f)) [.list 0]
      ((knot.deepCopy (.list 0)).2.items (f ⟨1, h₁⟩)) := hinner
  refine ⟨r, f ⟨1, h₁⟩, hcopy, hr, hq, hne, ?_, ?_⟩
  · generalize (knot.deepCopy (.list 0)).2.items r = ys at houter' ⊢
    rcases houter' with _ | ⟨_ | _, _ | ⟨_ | ⟨_, rfl⟩, _ | ⟨_ | ⟨_, rfl⟩, _ | _⟩⟩⟩
    rfl
  · generalize (knot.deepCopy (.list 0)).2.items (f ⟨1, h₁⟩) = ys at hinner' ⊢
    rcases hinner' with _ | ⟨_ | ⟨_, rfl⟩, _ | _⟩
    exact congrArg (fun q => [Value.list q]) hroot

end Heap
end LineMachine
