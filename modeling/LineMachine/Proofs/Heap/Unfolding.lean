import LineMachine.Proofs.Heap.Equality
import LineMachine.Proofs.Heap.Pairing
import LineMachine.Proofs.Heap.Path

/-!
# Equality is equality of unfoldings

A value unfolds to the tree of all the indices that can be followed from it; the tree
has no end where a list contains itself.  Two values unfold alike if no indices tell
them apart, and this is what the comparison of values decides, although it never
follows a path: it takes up each pair of lists once, however they are shared.

**Results.**
* `Bisimulation.follow`: the same indices lead from related values to related values.
* `SameUnfolding.bisimulation`: lists that unfold alike form a bisimulation.
* `sameValue_decides_unfolding`: equal values are those that unfold alike, and
  equality is an equivalence.
-/

namespace LineMachine
namespace Heap

/-- The lists have as many items as each other. -/
def SameLength (h h' : Heap) (r s : Ref) : Prop :=
  (h.items r).length = (h'.items s).length

/-- Whatever indices are followed from the two values, they lead nowhere on both sides,
or to the same integer, or to two lists of the same length. -/
def SameUnfolding (h : Heap) (v : Value) (h' : Heap) (w : Value) : Prop :=
  ∀ indices,
    Option.Rel (Value.Related (SameLength h h')) (h.follow v indices) (h'.follow w indices)

section Unfolding

variable {h h' : Heap} {R : Ref → Ref → Prop} {v w : Value}

theorem follow_list_cons (h : Heap) (r : Ref) (i : Int) (indices : List Int) :
    h.follow (.list r) (i :: indices) =
      (itemAt? (h.items r) i).bind fun v => h.follow v indices := by
  rw [follow]
  cases itemAt? (h.items r) i <;> rfl

theorem itemAt?_natCast {xs : List Value} {i : Nat} (hi : i < xs.length) :
    itemAt? xs i = some xs[i] := by
  rw [itemAt?, if_pos (Int.natCast_nonneg i), Int.toNat_natCast, List.getElem?_eq_getElem hi]

/-- The same indices lead from related values to related values. -/
theorem Bisimulation.follow (hR : Bisimulation h h' R) (hvw : v.Related R w)
    (indices : List Int) :
    Option.Rel (Value.Related R) (h.follow v indices) (h'.follow w indices) := by
  induction indices generalizing v w with
  | nil => exact .some hvw
  | cons i indices ih =>
      cases hvw with
      | int n => exact .none
      | @list r s hrs =>
          have hitem := related_itemAt? (hR r s hrs) i
          rw [follow_list_cons, follow_list_cons]
          generalize itemAt? (h.items r) i = x at hitem ⊢
          generalize itemAt? (h'.items s) i = y at hitem ⊢
          cases hitem with
          | none => exact .none
          | some huu' => exact ih huu'

theorem Alike.sameUnfolding (hvw : Alike h v h' w) : SameUnfolding h v h' w := by
  obtain ⟨R, hR, hvw⟩ := hvw
  intro indices
  have hends := hR.follow hvw indices
  generalize h.follow v indices = x at hends ⊢
  generalize h'.follow w indices = y at hends ⊢
  cases hends with
  | none => exact .none
  | some huu' => exact .some (huu'.mono fun r s hrs => (hR r s hrs).length_eq)

/-- Values that unfold alike are the same integer, or lists that unfold alike. -/
theorem SameUnfolding.related (hvw : SameUnfolding h v h' w) :
    v.Related (fun r s => SameUnfolding h (.list r) h' (.list s)) w := by
  cases hvw [] with
  | some hends =>
      cases hends with
      | int n => exact .int n
      | list _ => exact .list hvw

/-- **Lists that unfold alike form a bisimulation.** -/
theorem SameUnfolding.bisimulation (h h' : Heap) :
    Bisimulation h h' fun r s => SameUnfolding h (.list r) h' (.list s) := by
  intro r s hrs
  have hlength : (h.items r).length = (h'.items s).length := by
    cases hrs [] with
    | some hends =>
        cases hends with
        | list hlength => exact hlength
  rw [List.forall₂_iff_get]
  refine ⟨hlength, fun i hi hi' => SameUnfolding.related fun indices => ?_⟩
  have hitem := hrs (i :: indices)
  rw [follow_list_cons, follow_list_cons, itemAt?_natCast hi, itemAt?_natCast hi'] at hitem
  exact hitem

/-- No path of indices tells alike values apart, and values that none tells apart are
alike. -/
theorem alike_iff_sameUnfolding : Alike h v h' w ↔ SameUnfolding h v h' w :=
  ⟨Alike.sameUnfolding, fun hvw => ⟨_, SameUnfolding.bisimulation h h', hvw.related⟩⟩

end Unfolding

/-- **Equal values are those that unfold alike**, and equality is an equivalence, for
lists that contain themselves too. -/
theorem sameValue_decides_unfolding (h : Heap) :
    (∀ v w, h.sameValue v w = true ↔ SameUnfolding h v h w) ∧
      Equivalence fun v w => h.sameValue v w = true := by
  refine ⟨fun v w => sameValue_iff_alike.trans alike_iff_sameUnfolding, ⟨?_, ?_, ?_⟩⟩
  · exact fun v => sameValue_iff_alike.mpr (Alike.of_agree fun _ _ => rfl)
  · intro v w hvw
    exact sameValue_iff_alike.mpr (sameValue_iff_alike.mp hvw).symm
  · intro u v w huv hvw
    exact sameValue_iff_alike.mpr ((sameValue_iff_alike.mp huv).trans (sameValue_iff_alike.mp hvw))

/-- A list that holds itself unfolds like one of two that hold each other. -/
example : (⟨#[[.list 0], [.list 2], [.list 1]]⟩ : Heap).sameValue (.list 0) (.list 1) = true := by
  cbv

end Heap
end LineMachine
