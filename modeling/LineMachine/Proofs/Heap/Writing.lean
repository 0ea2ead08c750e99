import LineMachine.Heap.Render
import LineMachine.Proofs.Heap.Reach
import Mathlib.Data.List.Forall2

/-!
# Values that can be written

Only integers beyond the digit limit have no text.  What is written of a value are the
integers that it holds, so that a value has a text if all of these are within the limit,
however its lists are nested, shared and closed to cycles.

**Invariant.**  The items still to come are integers within the limit and lists of a
confined set, in which there are no other integers.

**Results.**
* `mapM_eq_ok_iff`: a row has results if each of its elements has one.
* `Heap.Holds`: the integers that a value holds.
* `Heap.exists_text`: a value that holds writable integers has a text.
-/

namespace LineMachine

/-- The results of a row are those of each of its elements. -/
theorem mapM_eq_ok_iff {ε α β : Type} {f : α → Except ε β} {xs : List α} {ys : List β} :
    xs.mapM f = .ok ys ↔ List.Forall₂ (fun x y => f x = .ok y) xs ys := by
  constructor
  · intro hys
    induction xs generalizing ys with
    | nil =>
        cases hys
        exact .nil
    | cons x xs ih =>
        rw [List.mapM_cons] at hys
        cases hx : f x with
        | error e =>
            rw [hx] at hys
            cases hys
        | ok y =>
            cases hxs : xs.mapM f with
            | error e =>
                rw [hx, hxs] at hys
                cases hys
            | ok rest =>
                rw [hx, hxs] at hys
                cases hys
                exact .cons hx (ih hxs)
  · intro hys
    induction hys with
    | nil => rfl
    | cons hx _ ih =>
        rw [List.mapM_cons, hx, ih]
        rfl

namespace Heap

/-- The integer is the value, or an item of a list that the value reaches. -/
def Holds (h : Heap) (v : Value) (n : Int) : Prop :=
  v = .int n ∨ ∃ r, h.Reaches v r ∧ .int n ∈ h.items r

section Texts

variable {h : Heap} {S : Ref → Prop}

/-- A writable integer, or a list of the set. -/
def WritableIn (S : Ref → Prop) (v : Value) : Prop :=
  v.LiesIn S ∧ ∀ n, v = .int n → Numeral.writable n = true

/-- The lists of a confined set without integers beyond the limit are written to the
end. -/
theorem exists_renderFrames
    (hS : ∀ r, S r → ∀ v, v ∈ h.items r → WritableIn S v)
    (out : String) {frames : List Frame}
    (hframes : ∀ f, f ∈ frames → ∀ v, v ∈ f.rest → WritableIn S v) :
    ∃ t, h.renderFrames out frames = .ok t := by
  fun_induction h.renderFrames out frames with
  | case1 out => exact ⟨out, rfl⟩
  | case2 out r outer ih =>
      exact ih fun f hf => hframes f (List.mem_cons_of_mem _ hf)
  | case3 out r n rest outer ih =>
      obtain ⟨hhead, houter⟩ := List.forall_mem_cons.mp hframes
      obtain ⟨hn, hrest⟩ := List.forall_mem_cons.mp hhead
      rw [Numeral.text_eq_ok (hn.2 n rfl)]
      exact ih _ (List.forall_mem_cons.mpr ⟨hrest, houter⟩)
  | case4 out r q rest outer hopen ih =>
      obtain ⟨hhead, houter⟩ := List.forall_mem_cons.mp hframes
      exact ih (List.forall_mem_cons.mpr ⟨(List.forall_mem_cons.mp hhead).2, houter⟩)
  | case5 out r q rest outer hopen ih =>
      obtain ⟨hhead, houter⟩ := List.forall_mem_cons.mp hframes
      obtain ⟨hq, hrest⟩ := List.forall_mem_cons.mp hhead
      refine ih (List.forall_mem_cons.mpr ⟨hS q hq.1, ?_⟩)
      exact List.forall_mem_cons.mpr ⟨hrest, houter⟩

/-- **A value has a text if the integers that it holds can be written.** -/
theorem exists_text {v : Value} (hv : ∀ n, h.Holds v n → Numeral.writable n = true) :
    ∃ t, h.text v = .ok t := by
  cases v with
  | int n => exact ⟨_, Numeral.text_eq_ok (hv n (Or.inl rfl))⟩
  | list r =>
      have hreached : ∀ q, h.Reaches (.list r) q → ∀ w, w ∈ h.items q →
          WritableIn (h.Reaches (.list r)) w := by
        refine fun q hq w hw => ⟨confined_reaches h (.list r) q hq w hw, ?_⟩
        rintro n rfl
        exact hv n (Or.inr ⟨q, hq, hw⟩)
      refine exists_renderFrames hreached "[" fun f hf => ?_
      obtain rfl := List.mem_singleton.mp hf
      exact hreached r (.self rfl)

end Texts

end Heap
end LineMachine
