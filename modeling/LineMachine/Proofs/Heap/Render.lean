import LineMachine.Heap.Render
import LineMachine.Proofs.Heap.Copy

/-!
# The text of a value depends on its shape

Two stacks of frames are related if they are equally high, write related lists
and still have related items to come.  Writing goes on in the same way from
related stacks, as a relation that pairs each list with one list only finds the
same lists open.

**Results.**
* `renderFrames_congr`: related stacks are written alike.
* `text_congr`: isomorphic values have the same text, or both have none.
* `text_of_agree`: a value keeps its text while its lists keep their items.
* `text_deepCopy`: a copy has the text of its original.
-/

namespace LineMachine

/-- The frames write related lists and have related items to come. -/
def Frame.Related (R : Ref → Ref → Prop) (f g : Frame) : Prop :=
  R f.ref g.ref ∧ List.Forall₂ (Value.Related R) f.rest g.rest

namespace Heap

section Writing

variable {h h' : Heap} {R : Ref → Ref → Prop}

theorem separator_congr {xs ys : List Value} (hxy : List.Forall₂ (Value.Related R) xs ys) :
    separator xs = separator ys := by
  cases hxy <;> rfl

theorem afterList_congr {fs gs : List Frame} (hfg : List.Forall₂ (Frame.Related R) fs gs) :
    afterList fs = afterList gs := by
  cases hfg with
  | nil => rfl
  | cons hf _ => exact separator_congr hf.2

theorem isOpen_congr (hR : Relator.BiUnique R) {fs gs : List Frame}
    (hfg : List.Forall₂ (Frame.Related R) fs gs) {r s : Ref} (hrs : R r s) :
    isOpen fs r = isOpen gs s := by
  induction hfg with
  | nil => rfl
  | @cons f g fs gs hf _ ih =>
      have heq : f.ref = r ↔ g.ref = s := Relator.rel_eq hR hf.1 hrs
      have hbeq : (f.ref == r) = (g.ref == s) := by
        rw [Bool.eq_iff_iff, beq_iff_eq, beq_iff_eq]
        exact heq
      have hany : isOpen (f :: fs) r = (f.ref == r || isOpen fs r) := rfl
      have hany' : isOpen (g :: gs) s = (g.ref == s || isOpen gs s) := rfl
      rw [hany, hany', hbeq, ih]

/-- The next items of related stacks are related, and so is what then remains. -/
theorem related_next {r : Ref} {v : Value} {rest : List Value} {outer gs : List Frame}
    (hfg : List.Forall₂ (Frame.Related R) (⟨r, v :: rest⟩ :: outer) gs) :
    ∃ s w ys inner, gs = ⟨s, w :: ys⟩ :: inner ∧ v.Related R w ∧
      List.Forall₂ (Value.Related R) rest ys ∧
      List.Forall₂ (Frame.Related R) (⟨r, rest⟩ :: outer) (⟨s, ys⟩ :: inner) := by
  obtain ⟨⟨s, items⟩, inner, ⟨hrs, hitems⟩, houter, rfl⟩ := List.forall₂_cons_left_iff.mp hfg
  obtain ⟨w, ys, hw, hys, rfl⟩ := List.forall₂_cons_left_iff.mp hitems
  exact ⟨s, w, ys, inner, rfl, hw, hys, .cons ⟨hrs, hys⟩ houter⟩

/-- Related stacks are written alike. -/
theorem renderFrames_congr (hR : Isomorphism h h' R) (out : String) {fs gs : List Frame}
    (hfg : List.Forall₂ (Frame.Related R) fs gs) :
    h.renderFrames out fs = h'.renderFrames out gs := by
  fun_induction h.renderFrames out fs generalizing gs with
  | case1 out =>
      cases hfg
      rw [renderFrames]
  | case2 out r outer ih =>
      obtain ⟨⟨s, items⟩, inner, ⟨_, hitems⟩, houter, rfl⟩ := List.forall₂_cons_left_iff.mp hfg
      cases hitems
      rw [renderFrames, ih houter, afterList_congr houter]
  | case3 out r n rest outer ih =>
      obtain ⟨s, w, ys, inner, rfl, hw, hys, hnext⟩ := related_next hfg
      cases hw
      rw [renderFrames, ← separator_congr hys]
      congr 1
      funext t
      exact ih t hnext
  | case4 out r q rest outer hopen ih =>
      obtain ⟨s, w, ys, inner, rfl, hw, hys, hnext⟩ := related_next hfg
      cases hw with
      | list hqt =>
          rw [isOpen_congr hR.unique hnext hqt] at hopen
          rw [renderFrames, dif_pos hopen, ← separator_congr hys]
          exact ih hnext
  | case5 out r q rest outer hopen ih =>
      obtain ⟨s, w, ys, inner, rfl, hw, hys, hnext⟩ := related_next hfg
      cases hw with
      | list hqt =>
          rw [isOpen_congr hR.unique hnext hqt] at hopen
          rw [renderFrames, dif_neg hopen]
          exact ih (.cons ⟨hqt, hR.bisimulation _ _ hqt⟩ hnext)

/-- **Isomorphic values have the same text**, or both have none. -/
theorem text_congr (hR : Isomorphism h h' R) {v w : Value} (hvw : v.Related R w) :
    h.text v = h'.text w := by
  cases hvw with
  | int n => rfl
  | list hrs =>
      exact renderFrames_congr hR "[" (.cons ⟨hrs, hR.bisimulation _ _ hrs⟩ .nil)

theorem text_of_agree {v : Value} (hagree : ∀ r, h.Reaches v r → h'.items r = h.items r) :
    h'.text v = h.text v :=
  (text_congr (isomorphism_of_agree hagree).1 (isomorphism_of_agree hagree).2).symm

/-- **A copy has the text of its original.** -/
theorem text_deepCopy (hh : h.Closed) {v : Value} (hv : v.LiesIn fun r => r < h.size) :
    (h.deepCopy v).2.text (h.deepCopy v).1 = h.text v :=
  (text_congr (isomorphism_deepCopy hh v) (related_deepCopy hv)).symm

end Writing

end Heap
end LineMachine
