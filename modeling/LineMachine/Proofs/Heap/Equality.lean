import LineMachine.Heap.Equality
import LineMachine.Proofs.Heap.Bisimulation

/-!
# Equality is blind to identity

The comparison of two lists takes up pairs of lists until no pair waits or two
items differ.  If some bisimulation relates the pairs that wait, then their items
are related, so no difference shows up and the pairs that join are related again.
If no difference shows up, then the pairs that were taken up are a bisimulation
themselves, together with the pairs of one list twice.

**Invariant.**  The lists of a pair that was taken up have the same items, given
that the pairs admitted are equal; these were taken up or wait, or are one list twice.

**Results.**
* `sameFrom_of_bisimulation`: a comparison of related pairs meets no difference.
* `exists_bisimulation_of_sameFrom`: a comparison without a difference has found a
  bisimulation.
* `sameValue_iff_alike`: the values that are equal are those that are alike.
-/

namespace LineMachine
namespace Heap

variable {h : Heap} {R : Ref → Ref → Prop}

theorem pushPairs_of_related {xs ys : List Value} {waiting : List (Ref × Ref)}
    (hxy : List.Forall₂ (Value.Related R) xs ys) (hwaiting : ∀ p, p ∈ waiting → R p.1 p.2) :
    ∃ waiting', pushPairs waiting xs ys = some waiting' ∧
      ∀ p, p ∈ waiting' → R p.1 p.2 := by
  induction hxy generalizing waiting with
  | nil => exact ⟨waiting, by rw [pushPairs], hwaiting⟩
  | cons hv hxy ih =>
      cases hv with
      | int n =>
          obtain ⟨waiting', hpush, hrelated⟩ := ih hwaiting
          refine ⟨waiting', ?_, hrelated⟩
          rw [pushPairs, if_pos rfl, hpush]
      | @list r s hrs =>
          rw [pushPairs]
          refine ih fun p hp => ?_
          rcases List.mem_cons.mp hp with rfl | hp
          · exact hrs
          · exact hwaiting p hp

/-- A comparison of related pairs meets no difference, whatever was taken up. -/
theorem sameFrom_of_bisimulation (hR : Bisimulation h h R) (taken : Std.HashSet (Ref × Ref))
    {waiting : List (Ref × Ref)} (hwaiting : ∀ p, p ∈ waiting → R p.1 p.2) :
    h.sameFrom taken waiting = true := by
  fun_induction h.sameFrom taken waiting with
  | case1 taken => rfl
  | case2 taken r s waiting hskip ih =>
      exact ih fun p hp => hwaiting p (List.mem_cons_of_mem _ hp)
  | case3 taken r s waiting hskip hpush =>
      have hrs := hwaiting (r, s) List.mem_cons_self
      obtain ⟨waiting', hpush', _⟩ := pushPairs_of_related (hR r s hrs)
        fun p hp => hwaiting p (List.mem_cons_of_mem _ hp)
      rw [hpush] at hpush'
      cases hpush'
  | case4 taken r s waiting hskip waiting' hpush ih =>
      have hrs := hwaiting (r, s) List.mem_cons_self
      obtain ⟨waiting'', hpush', hrelated⟩ := pushPairs_of_related (hR r s hrs)
        fun p hp => hwaiting p (List.mem_cons_of_mem _ hp)
      rw [hpush] at hpush'
      cases hpush'
      exact ih hrelated

/-- **Alike values are equal**, however their lists are shared. -/
theorem sameValue_of_alike {v w : Value} (hvw : Alike h v h w) : h.sameValue v w = true := by
  obtain ⟨R, hR, hvw⟩ := hvw
  cases hvw with
  | int n => exact beq_self_eq_true n
  | list hrs =>
      refine sameFrom_of_bisimulation hR ∅ fun p hp => ?_
      obtain rfl := List.mem_singleton.mp hp
      exact hrs

section Soundness

variable {taken : Std.HashSet (Ref × Ref)} {waiting waiting' : List (Ref × Ref)} {r s : Ref}

/-- Items that are compared without a difference are the same integers, or lists that
then wait. -/
theorem related_of_pushPairs {xs ys : List Value}
    (hpush : pushPairs waiting xs ys = some waiting') :
    List.Forall₂ (Value.Related fun p q => (p, q) ∈ waiting') xs ys ∧
      ∀ p, p ∈ waiting → p ∈ waiting' := by
  fun_induction pushPairs waiting xs ys with
  | case1 waiting =>
      cases hpush
      exact ⟨.nil, fun p hp => hp⟩
  | case2 waiting xs n ys ih =>
      obtain ⟨hrelated, hkept⟩ := ih hpush
      exact ⟨.cons (.int n) hrelated, hkept⟩
  | case3 => cases hpush
  | case4 waiting p xs q ys ih =>
      obtain ⟨hrelated, hkept⟩ := ih hpush
      refine ⟨.cons (.list (hkept _ List.mem_cons_self)) hrelated, fun t ht => ?_⟩
      exact hkept t (List.mem_cons_of_mem _ ht)
  | case5 => cases hpush

/-- One list twice, or two lists that were taken up or wait. -/
def Admitted (taken : Std.HashSet (Ref × Ref)) (waiting : List (Ref × Ref)) (r s : Ref) : Prop :=
  r = s ∨ taken.contains (r, s) = true ∨ (r, s) ∈ waiting

/-- The lists of a pair that was taken up have the same items, but for lists that are
admitted in place of each other. -/
def Upheld (h : Heap) (taken : Std.HashSet (Ref × Ref)) (waiting : List (Ref × Ref)) : Prop :=
  ∀ r s, taken.contains (r, s) = true →
    List.Forall₂ (Value.Related (Admitted taken waiting)) (h.items r) (h.items s)

/-- A pair that is passed over is admitted without it. -/
theorem Admitted.pass {p q : Ref} (hskip : r = s ∨ taken.contains (r, s) = true)
    (hpq : Admitted taken ((r, s) :: waiting) p q) : Admitted taken waiting p q := by
  rcases hpq with hpq | hpq | hpq
  · exact Or.inl hpq
  · exact Or.inr (Or.inl hpq)
  · rcases List.mem_cons.mp hpq with hpq | hpq
    · cases hpq
      exact hskip.imp_right Or.inl
    · exact Or.inr (Or.inr hpq)

/-- A pair that is taken up stays admitted, and so does what waited with it. -/
theorem Admitted.take {p q : Ref} (hkept : ∀ t, t ∈ waiting → t ∈ waiting')
    (hpq : Admitted taken ((r, s) :: waiting) p q) :
    Admitted (taken.insert (r, s)) waiting' p q := by
  rw [Admitted, Std.HashSet.contains_insert, Bool.or_eq_true, beq_iff_eq]
  rcases hpq with hpq | hpq | hpq
  · exact Or.inl hpq
  · exact Or.inr (Or.inl (Or.inr hpq))
  · rcases List.mem_cons.mp hpq with hpq | hpq
    · exact Or.inr (Or.inl (Or.inl hpq.symm))
    · exact Or.inr (Or.inr (hkept _ hpq))

theorem Upheld.take (hheld : h.Upheld taken ((r, s) :: waiting))
    (hpush : pushPairs waiting (h.items r) (h.items s) = some waiting') :
    h.Upheld (taken.insert (r, s)) waiting' := by
  obtain ⟨hrelated, hkept⟩ := related_of_pushPairs hpush
  intro p q hpq
  rw [Std.HashSet.contains_insert, Bool.or_eq_true, beq_iff_eq] at hpq
  rcases hpq with hpq | hpq
  · cases hpq
    exact hrelated.imp fun _ _ hvw => hvw.mono fun _ _ hwaits => Or.inr (Or.inr hwaits)
  · exact (hheld p q hpq).imp fun _ _ hvw => hvw.mono fun _ _ => Admitted.take hkept

/-- A comparison that meets no difference has found a bisimulation, which relates every
pair that is admitted. -/
theorem exists_bisimulation_of_sameFrom (hheld : h.Upheld taken waiting)
    (hsame : h.sameFrom taken waiting = true) :
    ∃ R, Bisimulation h h R ∧ ∀ r s, Admitted taken waiting r s → R r s := by
  fun_induction h.sameFrom taken waiting with
  | case1 taken =>
      -- nothing waits any more, so that the pairs taken up only refer to each other
      refine ⟨Admitted taken [], fun r s hrs => ?_, fun _ _ hrs => hrs⟩
      rcases hrs with rfl | hrs | hrs
      · rw [List.forall₂_same]
        exact fun v _ => Value.related_refl (fun _ => Or.inl rfl) v
      · exact hheld r s hrs
      · cases hrs
  | case2 taken r s waiting hskip ih =>
      have hheld' : h.Upheld taken waiting := fun p q hpq =>
        (hheld p q hpq).imp fun _ _ hvw => hvw.mono fun _ _ => Admitted.pass hskip
      obtain ⟨R, hR, hadmitted⟩ := ih hheld' hsame
      exact ⟨R, hR, fun p q hpq => hadmitted p q (hpq.pass hskip)⟩
  | case3 => cases hsame
  | case4 taken r s waiting hskip waiting' hpush ih =>
      obtain ⟨R, hR, hadmitted⟩ := ih (hheld.take hpush) hsame
      have hkept := (related_of_pushPairs hpush).2
      exact ⟨R, hR, fun p q hpq => hadmitted p q (hpq.take hkept)⟩

/-- **The values that are equal are those that are alike.** -/
theorem sameValue_iff_alike {v w : Value} : h.sameValue v w = true ↔ Alike h v h w := by
  refine ⟨fun hsame => ?_, sameValue_of_alike⟩
  cases v with
  | int m =>
      cases w with
      | int n =>
          obtain rfl := eq_of_beq hsame
          exact ⟨fun _ _ => False, fun _ _ hrs => hrs.elim, .int m⟩
      | list s => cases hsame
  | list r =>
      cases w with
      | int n => cases hsame
      | list s =>
          have hheld : h.Upheld ∅ [(r, s)] := fun p q hpq => by
            rw [Std.HashSet.contains_empty] at hpq
            cases hpq
          obtain ⟨R, hR, hadmitted⟩ := exists_bisimulation_of_sameFrom hheld hsame
          exact ⟨R, hR, .list (hadmitted r s (Or.inr (Or.inr List.mem_cons_self)))⟩

end Soundness

end Heap
end LineMachine
