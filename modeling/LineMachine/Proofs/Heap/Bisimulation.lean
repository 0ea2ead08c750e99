import LineMachine.Proofs.Heap.Reach
import Mathlib.Data.List.Forall2

/-!
# Values of the same shape

A relation between the lists of two heaps is a bisimulation if related lists have
as many items, related one by one: the same integer in both places, or two lists
that are related again.  Two values are alike if some bisimulation relates them,
so that no path of indices tells them apart; they are isomorphic if this
bisimulation pairs each list with one list only, so that they also share alike.

**Results.**
* `Alike.symm`, `Alike.trans`: alikeness across heaps.
* `isomorphism_of_agree`: a value keeps its shape while its lists keep their items.
-/

namespace LineMachine

/-- The same integer, or two lists that the relation pairs. -/
inductive Value.Related (R : Ref → Ref → Prop) : Value → Value → Prop
  | int (n : Int) : Related R (.int n) (.int n)
  | list {r s : Ref} (hrs : R r s) : Related R (.list r) (.list s)

namespace Value

variable {R Q : Ref → Ref → Prop} {u v w : Value}

theorem Related.mono (h : v.Related R w) (hRQ : ∀ r s, R r s → Q r s) : v.Related Q w := by
  cases h with
  | int n => exact .int n
  | list hrs => exact .list (hRQ _ _ hrs)

theorem Related.symm (h : v.Related R w) : w.Related (fun s r => R r s) v := by
  cases h with
  | int n => exact .int n
  | list hrs => exact .list hrs

theorem Related.trans (h₁ : u.Related R v) (h₂ : v.Related Q w) :
    u.Related (fun r t => ∃ s, R r s ∧ Q s t) w := by
  cases h₁ with
  | int n =>
      cases h₂ with
      | int => exact .int n
  | list hrs =>
      cases h₂ with
      | list hst => exact .list ⟨_, hrs, hst⟩

theorem related_refl (hR : ∀ r, R r r) (v : Value) : v.Related R v := by
  cases v with
  | int n => exact .int n
  | list r => exact .list (hR r)

theorem related_self {S : Ref → Prop} (hv : v.LiesIn S) :
    v.Related (fun r s => S r ∧ r = s) v := by
  cases v with
  | int n => exact .int n
  | list r => exact .list ⟨hv, rfl⟩

end Value

/-- Rows that belong to one row belong to each other. -/
theorem forall₂_meet {α β γ : Type} {P : α → β → Prop} {Q : α → γ → Prop} {xs : List α}
    {ys : List β} {zs : List γ} (hP : List.Forall₂ P xs ys) (hQ : List.Forall₂ Q xs zs) :
    List.Forall₂ (fun y z => ∃ x, P x y ∧ Q x z) ys zs := by
  induction hP generalizing zs with
  | nil =>
      cases hQ
      exact .nil
  | cons hxy _ ih =>
      cases hQ with
      | cons hxz hQ => exact .cons ⟨_, hxy, hxz⟩ (ih hQ)

namespace Heap

/-- Related lists have related items. -/
def Bisimulation (h h' : Heap) (R : Ref → Ref → Prop) : Prop :=
  ∀ r s, R r s → List.Forall₂ (Value.Related R) (h.items r) (h'.items s)

/-- A bisimulation that pairs each list with one list only. -/
structure Isomorphism (h h' : Heap) (R : Ref → Ref → Prop) : Prop where
  bisimulation : Bisimulation h h' R
  unique : Relator.BiUnique R

/-- Some bisimulation relates the values. -/
def Alike (h : Heap) (v : Value) (h' : Heap) (w : Value) : Prop :=
  ∃ R, Bisimulation h h' R ∧ v.Related R w

section Shape

variable {h h' h'' : Heap} {R Q : Ref → Ref → Prop} {u v w : Value} {r s : Ref}

theorem Bisimulation.symm (hR : Bisimulation h h' R) :
    Bisimulation h' h fun s r => R r s := by
  intro s r hrs
  exact (hR r s hrs).flip.imp fun _ _ hvw => hvw.symm

theorem Bisimulation.trans (hR : Bisimulation h h' R) (hQ : Bisimulation h' h'' Q) :
    Bisimulation h h'' fun r t => ∃ s, R r s ∧ Q s t := by
  rintro r t ⟨s, hrs, hst⟩
  exact (forall₂_meet (hR r s hrs).flip (hQ s t hst)).imp fun _ _ ⟨_, huv, hvw⟩ => huv.trans hvw

/-- An item of a list comes from an item of the related list. -/
theorem Bisimulation.exists_item (hR : Bisimulation h h' R) (hrs : R r s) {q : Ref}
    (hq : .list q ∈ h'.items s) :
    ∃ p, .list p ∈ h.items r ∧ R p q := by
  have hitems := hR r s hrs
  generalize h.items r = xs at hitems ⊢
  generalize h'.items s = ys at hitems hq
  induction hitems with
  | nil => cases hq
  | @cons x y xs ys hxy _ ih =>
      rcases List.mem_cons.mp hq with hhead | htail
      · subst hhead
        cases hxy with
        | list hpq => exact ⟨_, List.mem_cons_self, hpq⟩
      · obtain ⟨p, hp, hpq⟩ := ih htail
        exact ⟨p, List.mem_cons_of_mem _ hp, hpq⟩

/-- Heaps that agree on a confined set are isomorphic there, each list being
paired with itself. -/
theorem isomorphism_of_confined {S : Ref → Prop} (hS : h.Confined S)
    (hagree : ∀ r, S r → h'.items r = h.items r) :
    Isomorphism h h' fun r s => S r ∧ r = s := by
  refine ⟨?_, ?_, ?_⟩
  · rintro r s ⟨hr, rfl⟩
    rw [hagree r hr, List.forall₂_same]
    exact fun v hv => Value.related_self (hS r hr v hv)
  · rintro r s t ⟨_, hrt⟩ ⟨_, hst⟩
    exact hrt.trans hst.symm
  · rintro r s t ⟨_, hrs⟩ ⟨_, hrt⟩
    exact hrs.symm.trans hrt

theorem isomorphism_of_agree (hagree : ∀ r, h.Reaches v r → h'.items r = h.items r) :
    Isomorphism h h' (fun r s => h.Reaches v r ∧ r = s) ∧
      v.Related (fun r s => h.Reaches v r ∧ r = s) v :=
  ⟨isomorphism_of_confined (confined_reaches h v) hagree,
    Value.related_self (liesIn_reaches h v)⟩

theorem Alike.of_agree (hagree : ∀ r, h.Reaches v r → h'.items r = h.items r) :
    Alike h v h' v :=
  ⟨_, (isomorphism_of_agree hagree).1.bisimulation, (isomorphism_of_agree hagree).2⟩

theorem Alike.symm (hvw : Alike h v h' w) : Alike h' w h v := by
  obtain ⟨R, hR, hvw⟩ := hvw
  exact ⟨_, hR.symm, hvw.symm⟩

theorem Alike.trans (huv : Alike h u h' v) (hvw : Alike h' v h'' w) : Alike h u h'' w := by
  obtain ⟨R, hR, huv⟩ := huv
  obtain ⟨Q, hQ, hvw⟩ := hvw
  exact ⟨_, hR.trans hQ, huv.trans hvw⟩

end Shape

end Heap
end LineMachine
